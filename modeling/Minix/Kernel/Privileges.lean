/-
  Kernel/Privileges.lean --- what changes privileges, and what privilege calls change.

  Two erasures separate privileges from the rest of the kernel.  `Priv.rights` keeps of
  a structure what says whose it is and what it allows; message passing, signals and
  timers change no rights.  `State.unprivileged` forgets the privileges; the privilege
  calls change nothing else, apart from the flag `RTS_NO_PRIV` of the process and a
  memory request of the caller.

  The last part says what the loop that fills in a send mask does to the masks of the
  whole table.
-/
import Minix.Kernel.Rules

set_option autoImplicit false

namespace Minix.Kernel

open Minix.Foundation Relation State

variable {f : Priv → Priv} {μ : Mode} {mask : BitVec 32}

/-! ## What changes no rights -/

/-- A structure without what is pending, its table, its alarm and its resources; of the
flags, the one that says that its process is a system process. -/
def Priv.rights (sp : Priv) : Priv :=
  { sp with
    sFlags := sp.sFlags &&& sysProc
    sAsyntab := 0
    sAsynsize := 0
    sNotifyPending := 0
    sIntPending := 0
    sSigPending := 0
    sAlarmTimer := zeroTimer
    sRes := zeroResources }

/-- The same processes are live, with the same structures and rights. -/
structure SameRights (s s' : State) : Prop where
  ptr : ∀ i, (s'.proc i).pPriv = (s.proc i).pPriv
  free : ∀ i, s'.rtsIsset i rtsSlotFree = s.rtsIsset i rtsSlotFree
  rights : ∀ sp, (s'.priv sp).rights = (s.priv sp).rights

namespace SameRights

variable {s s' : State}

theorem refl {s : State} : SameRights s s := ⟨fun _ => rfl, fun _ => rfl, fun _ => rfl⟩

theorem trans {s'' : State} (h : SameRights s s') (h' : SameRights s' s'') : SameRights s s'' :=
  ⟨fun i => (h'.ptr i).trans (h.ptr i), fun i => (h'.free i).trans (h.free i),
    fun sp => (h'.rights sp).trans (h.rights sp)⟩

theorem of_unmessaged (h : s'.unmessaged = s.unmessaged) : SameRights s s' where
  ptr i := frame_proc Proc.pPriv h i rfl
  free i := frame_congr (fun t => t.rtsIsset i rtsSlotFree) h rfl
  rights sp := frame_congr (fun t => (t.priv sp).rights) h rfl

theorem quiet (h : s'.erase = s.erase) : SameRights s s' := of_unmessaged (unmessaged_of_erase h)

theorem modProc (s : State) (rp : Slot) {f : Proc → Proc}
    (hptr : (f (s.proc rp)).pPriv = (s.proc rp).pPriv)
    (hfree : isSet (f (s.proc rp)).pRtsFlags rtsSlotFree =
      isSet (s.proc rp).pRtsFlags rtsSlotFree) : SameRights s (s.modProc rp f) :=
  ⟨s.modProc_congr rp Proc.pPriv hptr,
    s.modProc_congr rp (fun p => isSet p.pRtsFlags rtsSlotFree) hfree, fun _ => rfl⟩

theorem modPriv (s : State) (sp : PrivPtr)
    (hf : (f (s.priv sp)).rights = (s.priv sp).rights) : SameRights s (s.modPriv sp f) := by
  refine ⟨fun _ => rfl, fun _ => rfl, fun q => ?_⟩
  rw [modPriv_priv]
  split_ifs with hq
  · rw [hq, hf]
  · rfl

theorem of_unsched (h : s'.unsched = s.unsched)
    (hfree : ∀ i, s'.rtsIsset i rtsSlotFree = s.rtsIsset i rtsSlotFree) : SameRights s s' where
  ptr i := frame_proc Proc.pPriv h i rfl
  free := hfree
  rights sp := frame_congr (fun t => (t.priv sp).rights) h rfl

theorem of_untimed (h : s'.untimed = s.untimed) : SameRights s s' where
  ptr i := frame_proc Proc.pPriv h i rfl
  free i := frame_congr (fun t => t.rtsIsset i rtsSlotFree) h rfl
  rights sp := frame_congr (fun t => (t.priv sp).rights) h rfl

section

variable (s : State) (rp : Slot) {f : BitVec 16} (hd : rtsSlotFree &&& f = 0#16)
include hd

theorem rtsSet : SameRights s (s.rtsSet rp f) :=
  of_unsched (s.unsched_rtsSet rp f) fun i => s.rtsIsset_rtsSet_of_disjoint rp i hd

theorem rtsUnset : SameRights s (s.rtsUnset rp f) :=
  of_unsched (s.unsched_rtsUnset rp f) fun i =>
    s.rtsIsset_rtsUnset_of_disjoint rp i hd (by decide)

end

theorem of_write (h : Write μ s s') : SameRights s s' := by
  cases h with
  | other h => exact of_unmessaged h
  | set rp _ hd _ => exact rtsSet s rp (disjoint_of_isSet (by decide) hd)
  | unset rp hd => exact rtsUnset s rp (disjoint_of_isSet (by decide) hd)
  | mask rp hd _ =>
    exact modProc s rp rfl (isSet_clearBits_of_disjoint (disjoint_of_isSet (by decide) hd))
  | pend rp sigs _ => exact modProc s rp rfl rfl
  | signal rp _ _ => exact (modProc s rp rfl rfl).trans (rtsSet _ rp (by decide))
  | endksig rp _ => exact rtsUnset s rp (by decide)
  | getksig rp _ => exact (modProc s rp rfl rfl).trans (rtsUnset _ rp (by decide))

theorem of_steps (h : Steps μ s s') : SameRights s s' := by
  replace h := Steps.writes h
  induction h with
  | refl => exact refl
  | tail _ hw ih => exact ih.trans (of_write hw)

theorem copyIn (s : State) (access : Access) : SameRights s (s.copyIn access).2 :=
  of_steps (s.lights_dataCopy (μ := .any) _ _ _ _).lights.steps

end SameRights

/-! ## What privilege calls change -/

namespace State

/-- The state without privileges. -/
def unprivileged (s : State) : State :=
  { s with
    proc := fun i => { s.proc i with pPriv := none }
    priv := bootPriv }

variable (s : State)

theorem unprivileged_modPriv (sp : PrivPtr) (f : Priv → Priv) :
    (s.modPriv sp f).unprivileged = s.unprivileged := rfl

theorem unprivileged_modPtr {rp : Slot} {ptr : PrivPtr} :
    (s.modProc rp fun p => { p with pPriv := ptr }).unprivileged = s.unprivileged := by
  have hproc := s.modProc_congr rp (f := fun p => { p with pPriv := ptr })
    (fun p => { p with pPriv := none }) rfl
  simp only [unprivileged, hproc]
  rfl

theorem unprivileged_getPriv (rc : Slot) (privId : Option Int) :
    (s.getPriv rc privId).2.unprivileged = s.unprivileged := by
  have hassign : ∀ id, (s.assignPriv rc id).unprivileged = s.unprivileged := fun id =>
    s.unprivileged_modPtr
  unfold getPriv
  repeat' split
  all_goals first
    | rfl
    | exact hassign _

theorem unprivileged_fillTargets (rp : Slot) (mask : BitVec 32) (ids : List (Fin nrSysProcs)) :
    (s.fillTargets rp mask ids).unprivileged = s.unprivileged := by
  induction ids generalizing s with
  | nil => rfl
  | cons id ids ih =>
    rw [fillTargets, ih]
    unfold setSendtoBit
    dsimp only
    repeat' split
    all_goals rfl

theorem unprivileged_allocateSys (rp : Slot) (arg : Option SuppliedPriv) :
    (s.allocateSys rp arg).2.unprivileged = s.unprivileged := by
  unfold allocateSys
  dsimp only
  have hget := s.unprivileged_getPriv rp
    (arg.bind fun p => if isSet p.sFlags dynPrivId then none else some p.sId)
  split
  · exact hget
  generalize (s.getPriv rp _).2 = s1 at hget
  cases arg with
  | none =>
    rw [unprivileged_fillTargets, unprivileged_modPriv, hget]
  | some p =>
    dsimp only
    split
    · rw [unprivileged_modPriv, unprivileged_modPriv, hget]
    · rw [unprivileged_fillTargets, unprivileged_modPriv, unprivileged_modPriv, hget]

theorem unprivileged_privAdd (rp : Slot) (check : BitVec 16) (full : Resources → Bool)
    (add : Resources → Resources) : (s.privAdd rp check full add).2.unprivileged = s.unprivileged := by
  unfold privAdd
  dsimp only
  split <;> rfl

/-- Apart from privileges, a privilege call changes only flags. -/
theorem doPrivctl_frame (hzombie : μ.zombie) (endpt : Int) (request : PrivRequest) :
    ∃ t, Lights μ s t ∧ (s.doPrivctl endpt request).2.unprivileged = t.unprivileged := by
  have hcopy : ∀ access, Lights μ s (s.copyIn access).2 := fun access =>
    (s.lights_dataCopy _ _ _ _).lights
  have hswitch : ∀ rp, ∃ t, Lights μ s t ∧
      (s.privctlSwitch rp request).2.unprivileged = t.unprivileged := by
    intro rp
    cases request with
    | allow =>
      simp only [privctlSwitch]
      split
      · exact ⟨s, .refl, rfl⟩
      · exact ⟨_, .single (.unset s rp (by decide)), rfl⟩
    | disallow =>
      simp only [privctlSwitch]
      split
      · exact ⟨s, .refl, rfl⟩
      · exact ⟨_, .single (.set s rp (by decide) (by decide) (.inl hzombie)), rfl⟩
    | setSys arg =>
      simp only [privctlSwitch, privSetSys]
      split
      · exact ⟨s, .refl, rfl⟩
      cases arg with
      | none => exact ⟨s, .refl, s.unprivileged_allocateSys rp none⟩
      | some a =>
        refine ⟨(s.copyIn a.access).2, hcopy a.access, ?_⟩
        dsimp only
        split
        · rfl
        · exact unprivileged_allocateSys _ rp _
    | setUser =>
      simp only [privctlSwitch]
      split
      · exact ⟨s, .refl, rfl⟩
      · exact ⟨s, .refl, s.unprivileged_modPtr⟩
    | addIo arg =>
      simp only [privctlSwitch, privAddIo]
      split
      · exact ⟨s, .refl, rfl⟩
      · exact ⟨_, hcopy _, unprivileged_privAdd ..⟩
    | addMem arg =>
      simp only [privctlSwitch, privAddMem]
      split
      · exact ⟨s, .refl, rfl⟩
      · split
        · exact ⟨_, hcopy _, rfl⟩
        · exact ⟨_, hcopy _, unprivileged_privAdd ..⟩
    | addIrq arg =>
      simp only [privctlSwitch, privAddIrq]
      split
      · exact ⟨s, .refl, rfl⟩
      · exact ⟨_, hcopy _, unprivileged_privAdd ..⟩
    | queryMem physStart physLen => exact ⟨s, .refl, rfl⟩
    | other => exact ⟨s, .refl, rfl⟩
  unfold doPrivctl
  repeat' split
  · exact ⟨s, .refl, rfl⟩
  · exact hswitch _
  · exact ⟨s, .refl, rfl⟩
  · exact hswitch _

end State

/-! ## Send masks -/

/-- A structure without its send mask. -/
def Priv.unmasked (sp : Priv) : Priv := { sp with sIpcTo := 0 }

namespace State

/-- Structure `id` has a process. -/
def Allocated (s : State) (id : Fin nrSysProcs) : Prop := (s.priv (some id)).sProcNr ≠ endptNone

instance (s : State) (id : Fin nrSysProcs) : Decidable (s.Allocated id) :=
  inferInstanceAs (Decidable (_ ≠ _))

/-- The process of structure `i` may send to that of structure `j`. -/
def target (s : State) (i j : Fin nrSysProcs) : Bool := (s.priv (some i)).sIpcTo.getLsbD j.val

/-- The send masks after those of structure `k` and of its partners `ids` are filled in. -/
def filledTarget (s : State) (k : Fin nrSysProcs) (mask : BitVec 32)
    (ids : List (Fin nrSysProcs)) (i j : Fin nrSysProcs) : Bool :=
  if i = k then
    if j ∈ ids then allowsTarget mask j && decide (s.Allocated j) && decide (j ≠ k)
    else s.target k j
  else if j = k ∧ i ∈ ids then
    allowsTarget mask i && (s.target i k || decide (s.Allocated i) && (s.priv (some i)).sends)
  else s.target i j

/-- Only send masks differ, and they are the filled ones. -/
structure Filled (s s' : State) (k : Fin nrSysProcs) (mask : BitVec 32)
    (ids : List (Fin nrSysProcs)) : Prop where
  proc : s'.proc = s.proc
  null : s'.priv none = s.priv none
  unmasked : ∀ i, (s'.priv (some i)).unmasked = (s.priv (some i)).unmasked
  target : ∀ i j, s'.target i j = s.filledTarget k mask ids i j

variable {s : State} {rp : Slot} {k : Fin nrSysProcs}

theorem target_modPriv (m : Fin nrSysProcs) (f : Priv → Priv) (i j : Fin nrSysProcs) :
    (s.modPriv (some m) f).target i j =
      if i = m then (f (s.priv (some m))).sIpcTo.getLsbD j.val else s.target i j := by
  simp only [target, modPriv_priv, Option.some.injEq]
  split <;> rfl

theorem setTarget_getLsbD (sp : Priv) (id j : Fin nrSysProcs) :
    (sp.setTarget id).sIpcTo.getLsbD j.val = (sp.sIpcTo.getLsbD j.val || decide (j = id)) := by
  have hj : j.val < 32 := j.isLt
  simp only [Priv.setTarget]
  rw [getLsbD_or_bit _ hj]
  simp [Fin.ext_iff]

theorem unsetTarget_getLsbD (sp : Priv) (id j : Fin nrSysProcs) :
    (sp.unsetTarget id).sIpcTo.getLsbD j.val = (sp.sIpcTo.getLsbD j.val && !decide (j = id)) := by
  have hj : j.val < 32 := j.isLt
  simp only [Priv.unsetTarget]
  rw [getLsbD_and_not_bit hj]
  simp [Fin.ext_iff]

/-- One write to a send mask keeps the rest of the table. -/
theorem unmasked_modPriv (m : Fin nrSysProcs)
    (hf : ∀ sp : Priv, (f sp).unmasked = sp.unmasked) (i : Fin nrSysProcs) :
    ((s.modPriv (some m) f).priv (some i)).unmasked = (s.priv (some i)).unmasked := by
  rw [modPriv_priv]
  split_ifs with hi
  · rw [hi, hf]
  · rfl

variable (hk : (s.proc rp).pPriv = some k)
include hk

variable (hid : ∀ i, (s.priv (some i)).sId = i)
include hid

theorem filled_setSendtoBit {id : Fin nrSysProcs}
    (hmask : allowsTarget mask id = true) : s.Filled (s.setSendtoBit rp id) k mask [id] := by
  have hset : ∀ (m : Fin nrSysProcs) (sp : Priv), (sp.setTarget m).unmasked = sp.unmasked :=
    fun _ _ => rfl
  have hunset : ∀ (m : Fin nrSysProcs) (sp : Priv), (sp.unsetTarget m).unmasked = sp.unmasked :=
    fun _ _ => rfl
  have hown : (s.privOf rp).sId = k := by rw [privOf, hk, hid]
  unfold setSendtoBit
  rw [hk, hown]
  split_ifs with hskip
  · refine ⟨rfl, rfl, unmasked_modPriv k (hunset id), fun i j => ?_⟩
    have hself : s.Allocated id → id = k := fun halloc =>
      (hskip.resolve_left halloc).symm
    rw [target_modPriv, unsetTarget_getLsbD, filledTarget]
    simp only [List.mem_singleton]
    by_cases hi : i = k
    · subst hi
      by_cases hj : j = id
      · subst hj
        simpa using fun _ => hself
      · simp [hj, target]
    · rw [if_neg hi, if_neg hi]
      split_ifs with hpair
      · obtain ⟨rfl, rfl⟩ := hpair
        have hfree : ¬ s.Allocated i := fun halloc => hi (hself halloc)
        simp [hmask, hfree]
      · rfl
  · obtain ⟨halloc, hne⟩ := not_or.mp hskip
    have halloc' : s.Allocated id := halloc
    have hother : (s.modPriv (some k) (Priv.setTarget id)).priv (some id) = s.priv (some id) := by
      simp only [modPriv_priv, Option.some.injEq, if_neg (Ne.symm hne)]
    have hown' : ((s.modPriv (some k) (Priv.setTarget id)).privOf rp).sId = k := by
      simp only [privOf, modPriv_proc, hk, modPriv_priv, if_true]
      exact hid k
    have hfirst : ∀ i j, (s.modPriv (some k) (Priv.setTarget id)).target i j =
        if i = k then s.target k j || decide (j = id) else s.target i j := by
      intro i j
      rw [target_modPriv, setTarget_getLsbD]
      rfl
    dsimp only
    rw [hother, hown']
    split_ifs with hsends
    · refine ⟨rfl, rfl, fun i => ?_, fun i j => ?_⟩
      · rw [unmasked_modPriv id (hset k), unmasked_modPriv k (hset id)]
      rw [target_modPriv, setTarget_getLsbD, hother, hfirst, filledTarget]
      by_cases hi : i = k
      · subst hi
        by_cases hj : j = id
        · subst hj
          simp [hne, Ne.symm hne, hmask, halloc']
        · simp [hne, hj]
      · by_cases hid' : i = id
        · subst hid'
          by_cases hj : j = k
          · simp [hi, hj, hmask, halloc', hsends, target]
          · simp [hi, hj, target]
        · simp [hi, hid']
    · refine ⟨rfl, rfl, unmasked_modPriv k (hset id), fun i j => ?_⟩
      rw [hfirst, filledTarget]
      simp only [List.mem_singleton]
      by_cases hi : i = k
      · subst hi
        by_cases hj : j = id
        · subst hj
          simp [Ne.symm hne, hmask, halloc']
        · simp [hj]
      · rw [if_neg hi, if_neg hi]
        split_ifs with hpair
        · obtain ⟨rfl, rfl⟩ := hpair
          simp [hmask, hsends]
        · rfl

theorem filled_unsetSendtoBit {id : Fin nrSysProcs}
    (hmask : allowsTarget mask id = false) : s.Filled (s.unsetSendtoBit rp id) k mask [id] := by
  have hunset : ∀ (m : Fin nrSysProcs) (sp : Priv), (sp.unsetTarget m).unmasked = sp.unmasked :=
    fun _ _ => rfl
  have hown' : ((s.modPriv (some k) (Priv.unsetTarget id)).privOf rp).sId = k := by
    simp only [privOf, modPriv_proc, hk, modPriv_priv, if_true]
    exact hid k
  have hfirst : ∀ i j, (s.modPriv (some k) (Priv.unsetTarget id)).target i j =
      if i = k then s.target k j && !decide (j = id) else s.target i j := by
    intro i j
    rw [target_modPriv, unsetTarget_getLsbD]
    rfl
  unfold unsetSendtoBit
  dsimp only
  rw [hk, hown']
  refine ⟨rfl, rfl, fun i => ?_, fun i j => ?_⟩
  · rw [unmasked_modPriv id (hunset k), unmasked_modPriv k (hunset id)]
  have hsecond : ((s.modPriv (some k) (Priv.unsetTarget id)).priv (some id)).sIpcTo.getLsbD
      j.val = (s.modPriv (some k) (Priv.unsetTarget id)).target id j := rfl
  rw [target_modPriv, unsetTarget_getLsbD, hsecond, hfirst, hfirst, filledTarget]
  by_cases hi : i = k
  · subst hi
    by_cases hj : j = id
    · subst hj
      by_cases hij : i = j <;> simp [hij, hmask]
    · by_cases hij : i = id
      · simp [hij, hj]
      · simp [hij, hj]
  · by_cases hid' : i = id
    · subst hid'
      by_cases hj : j = k <;> simp [hi, hj, hmask]
    · simp [hi, hid']

/-- The loop fills in the masks of `k` and of its partners. -/
theorem filled_fillTargets (mask : BitVec 32) (ids : List (Fin nrSysProcs)) :
    s.Filled (s.fillTargets rp mask ids) k mask ids := by
  induction ids generalizing s with
  | nil =>
    refine ⟨rfl, rfl, fun _ => rfl, fun i j => ?_⟩
    simp only [filledTarget, List.not_mem_nil, if_false, and_false]
    split_ifs with hi
    · rw [hi]
      rfl
    · rfl
  | cons id ids ih =>
    rw [fillTargets]
    set s1 := if allowsTarget mask id then s.setSendtoBit rp id else s.unsetSendtoBit rp id
    have hone : s.Filled s1 k mask [id] := by
      unfold s1
      split_ifs with hmask
      · exact filled_setSendtoBit hk hid hmask
      · exact filled_unsetSendtoBit hk hid (by simpa using hmask)
    have hkeep : ∀ {α : Type} (g : Priv → α), (∀ sp : Priv, g sp.unmasked = g sp) → ∀ i,
        g (s1.priv (some i)) = g (s.priv (some i)) := by
      intro α g hg i
      rw [← hg, hone.unmasked, hg]
    have hrest := ih (s := s1) (by rw [hone.proc, hk]) fun i =>
      (hkeep Priv.sId (fun _ => rfl) i).trans (hid i)
    have halloc : ∀ i, s1.Allocated i ↔ s.Allocated i := by
      intro i
      rw [Allocated, Allocated, hkeep Priv.sProcNr (fun _ => rfl)]
    have hsends : ∀ i, (s1.priv (some i)).sends = (s.priv (some i)).sends :=
      hkeep Priv.sends fun _ => rfl
    refine ⟨hrest.proc.trans hone.proc, hrest.null.trans hone.null,
      fun i => (hrest.unmasked i).trans (hone.unmasked i), fun i j => ?_⟩
    rw [hrest.target]
    simp only [filledTarget, halloc, hsends, hone.target, List.mem_cons]
    by_cases hi : i = k
    · subst hi
      by_cases hj : j ∈ ids
      · simp [hj]
      · simp [hj]
    · by_cases hj : j = k
      · by_cases hmem : i ∈ ids
        · by_cases hid' : i = id
          · subst hid' hj
            simp only [hi, hmem, if_false, true_or, and_self, if_true]
            cases allowsTarget mask i <;> simp
          · simp [hi, hj, hmem, hid']
        · simp [hi, hj, hmem]
      · simp [hi, hj]

end State

end Minix.Kernel
