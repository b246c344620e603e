/-
  Kernel/PrivilegeRun.lean --- the privilege table over runs.

  A structure is free, or it names a live process, and then it is the structure of that
  process; only the structure of the unprivileged processes has further users.  Among
  structures that can send, the send masks are symmetric.

  None of this is so if a process that has a structure is given another one, if a
  request is broken off after the allocation, or if the flags that a caller supplies do
  not say that the owner of a structure is a system process: exit frees a structure by
  that flag.
-/
import Minix.Kernel.Privileges

set_option autoImplicit false

namespace Minix.Kernel

open Minix.Foundation Relation State Function

variable {p : SuppliedPriv} {endpt : Int} {request : PrivRequest} {s : State}

/-! ## Supplied structures -/

/-- The tables that the flags announce are within bounds. -/
def SuppliedPriv.TablesFit (p : SuppliedPriv) : Prop :=
  (isSet p.sFlags checkIrq = true → 0 ≤ p.sNrIrq ∧ p.sNrIrq ≤ nrIrq) ∧
  (isSet p.sFlags checkIoPort = true → 0 ≤ p.sNrIoRange ∧ p.sNrIoRange ≤ nrIoRange) ∧
  (isSet p.sFlags checkMem = true → 0 ≤ p.sNrMemRange ∧ p.sNrMemRange ≤ nrMemRange)

/-- The structure is for a system process, unless it is the shared one. -/
def SuppliedPriv.FlagsFit (p : SuppliedPriv) : Prop :=
  isSet p.sFlags sysProc = true ↔ isSet p.sFlags dynPrivId = true ∨ p.sId ≠ userPrivId.val

instance (p : SuppliedPriv) : Decidable p.TablesFit := by
  unfold SuppliedPriv.TablesFit
  infer_instance

instance (p : SuppliedPriv) : Decidable p.FlagsFit := by
  unfold SuppliedPriv.FlagsFit
  infer_instance

/-- A structure without its resources. -/
def Priv.bare (sp : Priv) : Priv := { sp with sRes := zeroResources }

theorem copyTable_of_fit {α : Type} {limit : Nat} {n : Int} (h : 0 ≤ n ∧ n ≤ limit)
    {supplied old : List α} : ∃ tab, copyTable limit n supplied old = some tab := by
  refine ⟨_, if_neg ?_⟩
  omega

section

variable (h : p.TablesFit) (sp : Priv)
include h

theorem Priv.copyIrqs_of_fit : ∃ sp', sp.copyIrqs p = .ok sp' ∧ sp'.bare = sp.bare := by
  unfold Priv.copyIrqs
  split_ifs with hcheck
  · obtain ⟨tab, htab⟩ := copyTable_of_fit (h.1 hcheck)
    rw [htab]
    exact ⟨_, rfl, rfl⟩
  · exact ⟨sp, rfl, rfl⟩

theorem Priv.copyIoRanges_of_fit : ∃ sp', sp.copyIoRanges p = .ok sp' ∧ sp'.bare = sp.bare := by
  unfold Priv.copyIoRanges
  split_ifs with hcheck
  · obtain ⟨tab, htab⟩ := copyTable_of_fit (h.2.1 hcheck)
    rw [htab]
    exact ⟨_, rfl, rfl⟩
  · exact ⟨sp, rfl, rfl⟩

theorem Priv.copyMemRanges_of_fit : ∃ sp', sp.copyMemRanges p = .ok sp' ∧ sp'.bare = sp.bare := by
  unfold Priv.copyMemRanges
  split_ifs with hcheck
  · obtain ⟨tab, htab⟩ := copyTable_of_fit (h.2.2 hcheck)
    rw [htab]
    exact ⟨_, rfl, rfl⟩
  · exact ⟨sp, rfl, rfl⟩

/-- A supplied structure that fits is taken over. -/
theorem Priv.override_of_fit :
    ∃ sp', sp.override p = .ok sp' ∧ sp'.sProcNr = sp.sProcNr ∧ sp'.sId = sp.sId ∧
      sp'.sFlags = p.sFlags := by
  obtain ⟨sp1, h1, hb1⟩ := Priv.copyIrqs_of_fit h { sp with sFlags := p.sFlags }
  obtain ⟨sp2, h2, hb2⟩ := Priv.copyIoRanges_of_fit h sp1
  obtain ⟨sp3, h3, hb3⟩ := Priv.copyMemRanges_of_fit h sp2
  have hbare : sp3.bare = ({ sp with sFlags := p.sFlags } : Priv).bare :=
    hb3.trans (hb2.trans hb1)
  have hnr := congrArg Priv.sProcNr hbare
  have hid := congrArg Priv.sId hbare
  have hflags := congrArg Priv.sFlags hbare
  refine ⟨{ sp3 with
    sTrapMask := p.sTrapMask
    sRes := { sp3.sRes with sKCallMask := p.sKCallMask } }, ?_, hnr, hid, hflags⟩
  unfold Priv.override
  simp only [h1, h2, h3, bind, Except.bind, pure, Except.pure]

end

/-! ## The invariant -/

/-- The privilege table. -/
structure PrivInv (s : State) : Prop where
  id : ∀ i, (s.priv (some i)).sId = i
  own : ∀ rp i, s.Alive rp → (s.proc rp).pPriv = some i → i ≠ userPrivId →
    (s.priv (some i)).sProcNr = procNr rp
  named : ∀ rp i, s.Alive rp → (s.priv (some i)).sProcNr = procNr rp →
    (s.proc rp).pPriv = some i
  live : ∀ i, s.Allocated i → ∃ rp, s.Alive rp ∧ (s.priv (some i)).sProcNr = procNr rp
  sys : ∀ i, s.Allocated i → i ≠ userPrivId → isSet (s.priv (some i)).sFlags sysProc = true
  user : isSet (s.priv (some userPrivId)).sFlags sysProc = false
  null : isSet (s.priv none).sFlags sysProc = false
  symm : ∀ i j, i ≠ j → s.Allocated i → s.Allocated j → (s.priv (some i)).sends = true →
    (s.priv (some j)).sends = true → s.target i j = s.target j i

/-- A process number is not `NONE`. -/
theorem procNr_ne_none (rp : Slot) : procNr rp ≠ endptNone := by
  have hlt : rp.val < 260 := rp.isLt
  unfold procNr endptNone
  omega

namespace PrivInv

variable {s s' : State} {rp : Slot}

/-- A live process that is not a system process uses the shared structure or none. -/
theorem ptr_of_not_sys (h : PrivInv s) (halive : s.Alive rp)
    (hsys : isSet (s.privOf rp).sFlags sysProc = false) :
    (s.proc rp).pPriv = none ∨ (s.proc rp).pPriv = some userPrivId := by
  cases hptr : (s.proc rp).pPriv with
  | none => exact .inl rfl
  | some i =>
    by_cases hi : i = userPrivId
    · exact .inr (by rw [hi])
    have hown := h.own rp i halive hptr hi
    have halloc : s.Allocated i := by
      rw [Allocated, hown]
      exact procNr_ne_none rp
    have hset := h.sys i halloc hi
    rw [privOf, hptr, hset] at hsys
    cases hsys

/-- A live system process has a structure of its own. -/
theorem ptr_of_sys (h : PrivInv s) (hsys : isSet (s.privOf rp).sFlags sysProc = true) :
    ∃ i, (s.proc rp).pPriv = some i ∧ i ≠ userPrivId := by
  cases hptr : (s.proc rp).pPriv with
  | none =>
    rw [privOf, hptr, h.null] at hsys
    cases hsys
  | some i =>
    refine ⟨i, rfl, ?_⟩
    rintro rfl
    rw [privOf, hptr, h.user] at hsys
    cases hsys

/-- What does not depend on which process a structure names. -/
theorem rest (h : PrivInv s) (hrest : ∀ sp, ({ s'.priv sp with sProcNr := 0 } : Priv).rights =
      ({ s.priv sp with sProcNr := 0 } : Priv).rights) (halloc : ∀ i, s'.Allocated i → s.Allocated i)
    (hown : ∀ rp i, s'.Alive rp → (s'.proc rp).pPriv = some i → i ≠ userPrivId →
      (s'.priv (some i)).sProcNr = procNr rp)
    (hnamed : ∀ rp i, s'.Alive rp → (s'.priv (some i)).sProcNr = procNr rp →
      (s'.proc rp).pPriv = some i)
    (hlive : ∀ i, s'.Allocated i → ∃ rp, s'.Alive rp ∧ (s'.priv (some i)).sProcNr = procNr rp) :
    PrivInv s' := by
  have hfield : ∀ {α : Type} (g : Priv → α),
      (∀ sp : Priv, g ({ sp with sProcNr := 0 } : Priv).rights = g sp) → ∀ sp,
      g (s'.priv sp) = g (s.priv sp) := by
    intro α g hg sp
    rw [← hg, hrest, hg]
  have hflags := hfield (fun sp => isSet sp.sFlags sysProc) fun sp => by
    simp [Priv.rights, isSet, BitVec.and_assoc]
  have hsends := hfield Priv.sends fun _ => rfl
  have htarget : ∀ i j, s'.target i j = s.target i j := fun i j =>
    congrArg (fun m => m.getLsbD j.val) (hfield Priv.sIpcTo (fun _ => rfl) (some i))
  refine ⟨fun i => ?_, hown, hnamed, hlive, fun i ha hi => ?_, (hflags _).trans h.user,
    (hflags _).trans h.null, fun i j hij hai haj hsi hsj => ?_⟩
  · exact (hfield Priv.sId (fun _ => rfl) (some i)).trans (h.id i)
  · exact (hflags _).trans (h.sys i (halloc i ha) hi)
  · rw [htarget, htarget]
    exact h.symm i j hij (halloc i hai) (halloc j haj) ((hsends _).symm.trans hsi)
      ((hsends _).symm.trans hsj)

theorem same (h : PrivInv s) (hs : SameRights s s') : PrivInv s' := by
  have hnr : ∀ i, (s'.priv (some i)).sProcNr = (s.priv (some i)).sProcNr := fun i => by
    have hkeep := congrArg Priv.sProcNr (hs.rights (some i))
    exact hkeep
  have halloc : ∀ i, s'.Allocated i → s.Allocated i := fun i hi => by
    rwa [Allocated, hnr] at hi
  have halive : ∀ i, s'.Alive i ↔ s.Alive i := fun i => by
    rw [Alive, Alive, hs.free]
  refine h.rest (fun sp => congrArg (fun p : Priv => { p with sProcNr := 0 }) (hs.rights sp)) halloc
    (fun rp i ha hp hi => ?_) (fun rp i ha hn => ?_) fun i ha => ?_
  · rw [hnr]
    exact h.own rp i ((halive rp).mp ha) ((hs.ptr rp).symm.trans hp) hi
  · rw [hs.ptr]
    exact h.named rp i ((halive rp).mp ha) ((hnr i).symm.trans hn)
  · obtain ⟨rp, hrp, hn⟩ := h.live i (halloc i ha)
    exact ⟨rp, (halive rp).mpr hrp, (hnr i).trans hn⟩

/-! ### A new structure -/

/-- A free structure is given to a process that has none, and its masks are filled in. -/
theorem install (h : PrivInv s) {k : Fin nrSysProcs} {sp : Priv} {s2 : State} {mask : BitVec 32}
    (halive : s.Alive rp) (hnew : ∀ i, (s.priv (some i)).sProcNr ≠ procNr rp)
    (hk : ¬ s.Allocated k) (hproc : s2.proc = update s.proc rp
      { s.proc rp with pPriv := some k })
    (hnull : s2.priv none = s.priv none) (hsp : s2.priv (some k) = sp)
    (hother : ∀ i, i ≠ k → s2.priv (some i) = s.priv (some i)) (hid : sp.sId = k)
    (hnr : sp.sProcNr = procNr rp)
    (hflags : isSet sp.sFlags sysProc = true ↔ k ≠ userPrivId) :
    PrivInv (s2.fillTargets rp mask (List.finRange nrSysProcs)) := by
  have hptr : (s2.proc rp).pPriv = some k := by rw [hproc, update_self]
  have hptr' : ∀ i, i ≠ rp → (s2.proc i).pPriv = (s.proc i).pPriv := fun i hi => by
    rw [hproc, update_of_ne hi]
  have hids : ∀ i, (s2.priv (some i)).sId = i := fun i => by
    by_cases hi : i = k
    · rw [hi, hsp, hid]
    · rw [hother i hi, h.id]
  have hfill := filled_fillTargets hptr hids mask (List.finRange nrSysProcs)
  generalize s2.fillTargets rp mask (List.finRange nrSysProcs) = s' at hfill
  have hkeep : ∀ {α : Type} (g : Priv → α), (∀ p : Priv, g p.unmasked = g p) → ∀ i,
      g (s'.priv (some i)) = if i = k then g sp else g (s.priv (some i)) := by
    intro α g hg i
    rw [← hg, hfill.unmasked, hg]
    split_ifs with hi
    · rw [hi, hsp]
    · rw [hother i hi]
  have hnr' := hkeep Priv.sProcNr fun _ => rfl
  have hfl := hkeep Priv.sFlags fun _ => rfl
  have hsends := hkeep Priv.sends fun _ => rfl
  have hne := procNr_ne_none rp
  have hflag : ∀ i f, s'.rtsIsset i f = s.rtsIsset i f := by
    intro i f
    simp only [rtsIsset, hfill.proc, hproc, update_apply]
    split_ifs with hi
    · rw [hi]
    · rfl
  have halive' : ∀ i, s'.Alive i ↔ s.Alive i := fun i => by
    rw [Alive, Alive, hflag]
  have halloc2 : ∀ i, s2.Allocated i ↔ i = k ∨ s.Allocated i := by
    intro i
    by_cases hi : i = k
    · simp only [Allocated, hi, hsp, hnr, true_or, iff_true]
      exact hne
    · simp only [Allocated, hother i hi, hi, false_or]
  have halloc : ∀ i, s'.Allocated i → i = k ∨ s.Allocated i := by
    intro i hi
    by_cases hik : i = k
    · exact .inl hik
    · rw [Allocated, hnr', if_neg hik] at hi
      exact .inr hi
  refine ⟨fun i => ?_, fun i j ha hp hj => ?_, fun i j ha hn => ?_, fun i ha => ?_,
    fun i ha hi => ?_, ?_, ?_, fun i j hij hai haj hsi hsj => ?_⟩
  · rw [hkeep Priv.sId fun _ => rfl]
    split_ifs with hi
    · rw [hi, hid]
    · exact h.id i
  · rw [hfill.proc] at hp
    rw [hnr']
    by_cases hi : i = rp
    · rw [hi, hptr] at hp
      rw [if_pos (Option.some.inj hp).symm, hnr, hi]
    rw [hptr' i hi] at hp
    have hown := h.own i j ((halive' i).mp ha) hp hj
    have hjk : j ≠ k := by
      rintro rfl
      apply hk
      rw [Allocated, hown]
      exact procNr_ne_none i
    rw [if_neg hjk, hown]
  · rw [hnr'] at hn
    rw [hfill.proc]
    by_cases hj : j = k
    · rw [if_pos hj, hnr] at hn
      rw [← procNr_injective hn, hptr, hj]
    · rw [if_neg hj] at hn
      have hi : i ≠ rp := fun heq => hnew j (heq ▸ hn)
      rw [hptr' i hi]
      exact h.named i j ((halive' i).mp ha) hn
  · rw [hnr']
    rcases halloc i ha with hi | hold
    · exact ⟨rp, (halive' rp).mpr halive, by rw [if_pos hi, hnr]⟩
    · have hik : i ≠ k := fun heq => hk (heq ▸ hold)
      obtain ⟨x, hx, hn⟩ := h.live i hold
      exact ⟨x, (halive' x).mpr hx, by rw [if_neg hik, hn]⟩
  · rw [hfl]
    split_ifs with hik
    · exact hflags.mpr (hik ▸ hi)
    · exact h.sys i ((halloc i ha).resolve_left hik) hi
  · rw [hfl]
    split_ifs with hik
    · by_contra hset
      exact hflags.mp (by simpa using hset) hik.symm
    · exact h.user
  · rw [hfill.null, hnull]
    exact h.null
  have hmem : ∀ x : Fin nrSysProcs, x ∈ List.finRange nrSysProcs := List.mem_finRange
  have hpartner : ∀ x, x ≠ k → s'.Allocated x → (s'.priv (some x)).sends = true →
      s'.target k x = s'.target x k := by
    intro x hx hax hsx
    have halloc2' : s2.Allocated x := (halloc2 x).mpr (halloc x hax)
    have hsends2 : (s2.priv (some x)).sends = true := by
      rw [hother x hx]
      rw [hsends, if_neg hx] at hsx
      exact hsx
    rw [hfill.target, hfill.target]
    simp only [filledTarget, if_true, hmem, hx, if_false, and_self, halloc2', hsends2]
    simp [hx]
  by_cases hi : i = k
  · subst hi
    exact hpartner j (Ne.symm hij) haj hsj
  by_cases hj : j = k
  · subst hj
    exact (hpartner i hij hai hsi).symm
  have hold : ∀ x y, x ≠ k → y ≠ k → s'.target x y = s.target x y := by
    intro x y hx hy
    rw [hfill.target, filledTarget, if_neg hx, if_neg fun hp => hy hp.1,
      target, hother x hx]
    rfl
  rw [hold i j hi hj, hold j i hj hi]
  rw [hsends, if_neg hi] at hsi
  rw [hsends, if_neg hj] at hsj
  exact h.symm i j hij ((halloc i hai).resolve_left hi) ((halloc j haj).resolve_left hj)
    hsi hsj

end PrivInv

/-! ## Allocation -/

namespace State

variable (s : State) (rc : Slot)

/-- An allocation fails and changes nothing, or it takes a free structure with an id of
the kind that was asked for. -/
theorem getPriv_cases (privId : Option Int) :
    (s.getPriv rc privId).1 ≠ ok ∧ (s.getPriv rc privId).2 = s ∨
      ∃ k, ¬ s.Allocated k ∧ s.getPriv rc privId = (ok, s.assignPriv rc k) ∧
        (privId = none → k ≠ userPrivId) ∧ ∀ n, privId = some n → (k.val : Int) = n := by
  cases privId with
  | none =>
    unfold getPriv
    cases hfind : dynPrivIds.find? fun id => (s.priv (some id)).sProcNr == endptNone with
    | none => exact .inl ⟨by dsimp only; decide, rfl⟩
    | some k =>
      refine .inr ⟨k, ?_, rfl, fun _ => ?_, fun n hn => by cases hn⟩
      · have hfree := List.find?_some hfind
        simpa [Allocated] using hfree
      · rintro rfl
        have hmem := List.mem_of_find?_eq_some hfind
        exact absurd hmem (by decide)
  | some n =>
    cases hstatic : staticPriv n with
    | none =>
      exact .inl ⟨by simp only [getPriv, hstatic]; decide, by simp only [getPriv, hstatic]⟩
    | some k =>
      have hval : (k.val : Int) = n := by
        unfold staticPriv at hstatic
        split at hstatic
        · rename_i hrange
          cases hstatic
          exact Int.toNat_of_nonneg hrange.1
        · simp at hstatic
      simp only [getPriv, hstatic]
      split_ifs with hfree
      · exact .inl ⟨by dsimp only; decide, rfl⟩
      · exact .inr ⟨k, hfree, rfl, fun h => absurd h (by simp),
          fun m hm => hval.trans (Option.some.inj hm)⟩

/-- No structure names the process. -/
def Unnamed : Prop := ∀ i, (s.priv (some i)).sProcNr ≠ procNr rc

instance : Decidable (s.Unnamed rc) := inferInstanceAs (Decidable (∀ _, _))

/-- What `SYS_PRIV_SET_SYS` does with arguments that fit: it fails and changes nothing, or
it installs a structure. -/
theorem allocateSys_cases {arg : Option SuppliedPriv} (hfit : ∀ p, arg = some p → p.TablesFit) :
    (s.allocateSys rc arg).1 ≠ ok ∧ (s.allocateSys rc arg).2 = s ∨
      ∃ k sp mask, ¬ s.Allocated k ∧
        (s.allocateSys rc arg) = (ok, ((s.assignPriv rc k).modPriv (some k) fun _ => sp).fillTargets
          rc mask (List.finRange nrSysProcs)) ∧
        sp.sId = ((s.assignPriv rc k).priv (some k)).sId ∧ sp.sProcNr = procNr rc ∧
        (arg = none → sp.sFlags = defSysF ∧ k ≠ userPrivId) ∧
        ∀ p, arg = some p → sp.sFlags = p.sFlags ∧
          (isSet p.sFlags dynPrivId = true → k ≠ userPrivId) ∧
          (isSet p.sFlags dynPrivId = false → (k.val : Int) = p.sId) := by
  unfold allocateSys
  dsimp only
  rcases s.getPriv_cases rc
      (arg.bind fun p => if isSet p.sFlags dynPrivId then none else some p.sId) with
    ⟨herr, hsame⟩ | ⟨k, hfree, hget, hdyn, hstatic⟩
  · rw [if_pos herr]
    exact .inl ⟨herr, hsame⟩
  right
  rw [hget, if_neg fun h => h rfl]
  refine ⟨k, ?_⟩
  have hptr : ((s.assignPriv rc k).proc rc).pPriv = some k := by
    simp [assignPriv]
  generalize s.assignPriv rc k = s1 at hptr
  generalize List.finRange nrSysProcs = ids
  set sp0 := (s1.privOf s1.whoP).inherit (s1.priv (some k)).sId (procNr rc)
  have hmod : (s1.modPriv (some k) fun sp =>
      (s1.privOf s1.whoP).inherit sp.sId (procNr rc)) = s1.modPriv (some k) fun _ => sp0 := rfl
  cases arg with
  | none =>
    rw [hptr, hmod]
    exact ⟨sp0, defSysM, hfree, rfl, rfl, rfl, fun _ => ⟨rfl, hdyn rfl⟩,
      fun p hp => nomatch hp⟩
  | some p =>
    have hpriv : (s1.modPriv (some k) fun _ => sp0).privOf rc = sp0 := by
      simp [privOf, hptr]
    obtain ⟨sp, hover, hnr, hid, hflags⟩ := Priv.override_of_fit (hfit p rfl) sp0
    have htwice : ((s1.modPriv (some k) fun _ => sp0).modPriv (some k) fun _ => sp) =
        s1.modPriv (some k) fun _ => sp := by
      simp only [modPriv, update_idem]
    dsimp only
    rw [hptr, hmod, hpriv, hover]
    dsimp only
    rw [modPriv_proc, hptr, htwice]
    refine ⟨sp, p.sIpcTo, hfree, rfl, hid, hnr, fun h => absurd h (by simp), ?_⟩
    rintro q hq
    cases hq
    refine ⟨hflags, fun hset => hdyn ?_, fun hset => hstatic p.sId ?_⟩
    · simp [hset]
    · simp [hset]

end State

namespace PrivInv

variable {s s' : State} {rp : Slot}

theorem allocateSys (h : PrivInv s) (halive : s.Alive rp) (hnew : s.Unnamed rp)
    {arg : Option SuppliedPriv} (hfit : ∀ p, arg = some p → p.TablesFit ∧ p.FlagsFit) :
    PrivInv (s.allocateSys rp arg).2 := by
  rcases s.allocateSys_cases rp fun p hp => (hfit p hp).1 with
    ⟨_, hsame⟩ | ⟨k, sp, mask, hfree, heq, hid, hnr, hnone, hsome⟩
  · rw [hsame]
    exact h
  rw [heq]
  have hid' : sp.sId = k := by
    rw [hid]
    simpa [assignPriv] using h.id k
  refine h.install halive hnew hfree ?_ ?_ ?_ ?_ hid' hnr ?_
  · rfl
  · simp [assignPriv]
  · simp
  · intro i hi
    simp [assignPriv, hi]
  cases arg with
  | none =>
    obtain ⟨hflags, hk⟩ := hnone rfl
    rw [hflags]
    exact ⟨fun _ => hk, fun _ => by decide⟩
  | some p =>
    obtain ⟨hflags, hdyn, hstatic⟩ := hsome p rfl
    have hpf := (hfit p rfl).2
    rw [hflags]
    cases hset : isSet p.sFlags dynPrivId with
    | true => exact ⟨fun _ => hdyn hset, fun _ => hpf.mpr (.inl hset)⟩
    | false =>
      rw [SuppliedPriv.FlagsFit] at hpf
      rw [hpf, hset]
      have hval := hstatic hset
      constructor
      · rintro (hd | hne) hk
        · exact nomatch hd
        · exact hne (by rw [← hval, hk])
      · intro hk
        refine .inr fun heq => hk (Fin.ext ?_)
        exact Int.ofNat_inj.mp (hval.trans heq)

/-! ### Requests -/

/-- A resource is added, or only the flag that asks for checks is set. -/
theorem privAdd (h : PrivInv s) {rp : Slot} {check : BitVec 16}
    (hcheck : check &&& sysProc = 0#16) {full : Resources → Bool} {add : Resources → Resources} :
    PrivInv (s.privAdd rp check full add).2 := by
  have hword : ∀ x : BitVec 16, (x ||| check) &&& sysProc = x &&& sysProc := by
    intro x
    rw [BitVec.and_comm, BitVec.and_or_distrib_left, BitVec.and_comm sysProc check, hcheck,
      BitVec.or_zero, BitVec.and_comm]
  have hflag : SameRights s (s.modPriv (s.proc rp).pPriv fun sp =>
      { sp with sFlags := sp.sFlags ||| check }) := by
    refine SameRights.modPriv s _ ?_
    simp only [Priv.rights, hword]
  unfold State.privAdd
  dsimp only
  split
  · exact h.same hflag
  · have hadd := fun t : State => SameRights.modPriv t (t.proc rp).pPriv
      (f := fun sp => { sp with sRes := add sp.sRes }) rfl
    exact h.same (hflag.trans (hadd _))

/-- A process that no structure names, except the shared one, becomes unprivileged. -/
theorem setUser (h : PrivInv s)
    (hnew : ∀ i, i ≠ userPrivId → (s.priv (some i)).sProcNr ≠ procNr rp) :
    PrivInv (s.modProc rp fun p => { p with pPriv := some userPrivId }) := by
  have hflag : ∀ i f, (s.modProc rp fun p => { p with pPriv := some userPrivId }).rtsIsset i f =
      s.rtsIsset i f := fun i f => s.modProc_congr rp (fun p => isSet p.pRtsFlags f) rfl i
  have halive : ∀ i, (s.modProc rp fun p => { p with pPriv := some userPrivId }).Alive i ↔
      s.Alive i := fun i => by rw [Alive, Alive, hflag]
  refine ⟨h.id, fun i j ha hp hj => ?_, fun i j ha hn => ?_, fun i ha => ?_, h.sys, h.user,
    h.null, h.symm⟩
  · rw [modProc_proc] at hp
    split at hp
    · exact absurd (Option.some.inj hp).symm hj
    · exact h.own i j ((halive i).mp ha) hp hj
  · rw [modProc_proc]
    split_ifs with hi
    · by_cases hj : j = userPrivId
      · rw [hj]
      · exact absurd (hi ▸ hn) (hnew j hj)
    · exact h.named i j ((halive i).mp ha) hn
  · obtain ⟨x, hx, hn⟩ := h.live i ha
    exact ⟨x, (halive x).mpr hx, hn⟩

end PrivInv

namespace State

/-- The process that a privilege call is about. -/
def privTarget (s : State) (endpt : Int) : Option Slot :=
  if endpt = endptSelf then some s.whoP else s.isokendpt endpt

/-- A new structure is for a process that has none, and what is supplied fits; only a
process without a structure of its own becomes unprivileged. -/
def RequestFits (s : State) (rp : Slot) : PrivRequest → Prop
  | .setSys arg => s.Unnamed rp ∧ ∀ a ∈ arg, a.value.TablesFit ∧ a.value.FlagsFit
  | .setUser => ∀ i, i ≠ userPrivId → (s.priv (some i)).sProcNr ≠ procNr rp
  | _ => True

end State

namespace PrivInv

variable {s s' : State} {rp : Slot}

variable (h : PrivInv s)
include h

theorem doPrivctl
    (hfit : ∀ rp, s.privTarget endpt = some rp → s.Alive rp ∧ s.RequestFits rp request) :
    PrivInv (s.doPrivctl endpt request).2 := by
  have hswitch : ∀ rp, s.Alive rp → s.RequestFits rp request →
      PrivInv (s.privctlSwitch rp request).2 := by
    intro rp halive hreq
    cases request with
    | allow =>
      simp only [privctlSwitch]
      split
      · exact h
      · exact h.same (.rtsUnset s rp (by decide))
    | disallow =>
      simp only [privctlSwitch]
      split
      · exact h
      · exact h.same (.rtsSet s rp (by decide))
    | setSys arg =>
      obtain ⟨hnew, hargs⟩ := hreq
      simp only [privctlSwitch, privSetSys]
      split
      · exact h
      cases arg with
      | none => exact h.allocateSys halive hnew fun p hp => by cases hp
      | some a =>
        have hcopy := SameRights.copyIn s a.access
        dsimp only
        split
        · exact h.same hcopy
        refine (h.same hcopy).allocateSys ?_ ?_ ?_
        · rw [Alive, hcopy.free]
          exact halive
        · intro i
          have hnr := congrArg Priv.sProcNr (hcopy.rights (some i))
          exact fun heq => hnew i (hnr.symm.trans heq)
        · rintro p hp
          cases hp
          exact hargs a rfl
    | setUser =>
      simp only [privctlSwitch]
      split
      · exact h
      · exact h.setUser hreq
    | addIo arg =>
      simp only [privctlSwitch, privAddIo]
      split
      · exact h
      · exact (h.same (.copyIn s arg.access)).privAdd (by decide)
    | addMem arg =>
      simp only [privctlSwitch, privAddMem]
      split
      · exact h
      · split
        · exact h.same (.copyIn s arg.access)
        · exact (h.same (.copyIn s arg.access)).privAdd (by decide)
    | addIrq arg =>
      simp only [privctlSwitch, privAddIrq]
      split
      · exact h
      · exact (h.same (.copyIn s arg.access)).privAdd (by decide)
    | queryMem physStart physLen => exact h
    | other => exact h
  unfold State.doPrivctl
  split
  · exact h
  split_ifs with hself
  · obtain ⟨halive, hreq⟩ := hfit s.whoP (if_pos hself)
    exact hswitch _ halive hreq
  · split
    · exact h
    · rename_i rp hrp
      obtain ⟨halive, hreq⟩ := hfit rp ((if_neg hself).trans hrp)
      exact hswitch _ halive hreq

/-! ### Exit and fork -/

/-- A process loses its slot, and the structure that names it is freed. -/
theorem free (hptr : ∀ i, (s'.proc i).pPriv = (s.proc i).pPriv)
    (hlive : ∀ i, s'.Alive i ↔ i ≠ rp ∧ s.Alive i)
    (hnr : ∀ i, (s'.priv (some i)).sProcNr = if (s.priv (some i)).sProcNr = procNr rp
      then endptNone else (s.priv (some i)).sProcNr) (hrest : ∀ sp, ({ s'.priv sp with sProcNr := 0 } : Priv).rights =
      ({ s.priv sp with sProcNr := 0 } : Priv).rights) : PrivInv s' := by
  have hkept : ∀ i, s'.Allocated i → (s.priv (some i)).sProcNr ≠ procNr rp ∧ s.Allocated i := by
    intro i hi
    rw [Allocated, hnr] at hi
    by_cases hn : (s.priv (some i)).sProcNr = procNr rp
    · exact absurd (if_pos hn) hi
    · rw [if_neg hn] at hi
      exact ⟨hn, hi⟩
  refine h.rest hrest (fun i hi => (hkept i hi).2) (fun i j ha hp hj => ?_)
    (fun i j ha hn => ?_) fun i ha => ?_
  · obtain ⟨hi, halive⟩ := (hlive i).mp ha
    have hown := h.own i j halive ((hptr i).symm.trans hp) hj
    rw [hnr, hown, if_neg fun heq => hi (procNr_injective heq)]
  · obtain ⟨hi, halive⟩ := (hlive i).mp ha
    rw [hptr]
    refine h.named i j halive ?_
    rw [hnr] at hn
    split at hn
    · exact absurd hn.symm (procNr_ne_none i)
    · exact hn
  · obtain ⟨hne, halloc⟩ := hkept i ha
    obtain ⟨x, hx, hn⟩ := h.live i halloc
    refine ⟨x, (hlive x).mpr ⟨fun heq => hne (heq ▸ hn), hx⟩, ?_⟩
    rw [hnr, if_neg hne, hn]

section

variable (halive : s.Alive rp) (huser : (s.priv (some userPrivId)).sProcNr ≠ procNr rp)
include halive huser

/-- The last part of `clear_proc`. -/
theorem freeSlot : PrivInv
      (let s4 := (s.rtsSetflags rp rtsSlotFree).modProc rp fun p =>
        p.setMisc (clearBits p.pMiscFlags mfFpuInitialized)
      if isSet (s4.privOf rp).sFlags sysProc then
        s4.modPriv (s4.proc rp).pPriv fun sp => { sp with sProcNr := endptNone }
      else s4) := by
  generalize hs4 : (s.rtsSetflags rp rtsSlotFree).modProc rp (fun p =>
    p.setMisc (clearBits p.pMiscFlags mfFpuInitialized)) = s4
  have hframe := s.unsched_rtsSetflags rp rtsSlotFree
  have hptr : ∀ i, (s4.proc i).pPriv = (s.proc i).pPriv := by
    intro i
    rw [← hs4, modProc_congr _ rp Proc.pPriv rfl i]
    exact frame_proc Proc.pPriv hframe i rfl
  have hpriv : s4.priv = s.priv := by
    have hkeep := frame_congr priv hframe rfl
    rw [← hs4]
    exact hkeep
  have hlive : ∀ i, s4.Alive i ↔ i ≠ rp ∧ s.Alive i := by
    intro i
    rw [← hs4, Alive, rtsIsset, modProc_congr _ rp Proc.pRtsFlags rfl i,
      s.flags_rtsSetflags]
    by_cases hi : i = rp
    · simp only [hi, if_true, ne_eq, not_true_eq_false, false_and, iff_false]
      decide
    · simp only [hi, if_false, ne_eq, not_false_eq_true, true_and]
      rfl
  dsimp only
  have hown : s4.privOf rp = s.privOf rp := by rw [privOf, hpriv, hptr, privOf]
  rw [hown, hptr]
  split_ifs with hsys
  · obtain ⟨k, hk, hkuser⟩ := h.ptr_of_sys hsys
    have hkown := h.own rp k halive hk hkuser
    have hiff : ∀ i, (s.priv (some i)).sProcNr = procNr rp ↔ i = k := by
      intro i
      constructor
      · intro hn
        have hi := h.named rp i halive hn
        exact Option.some.inj (hi.symm.trans hk)
      · rintro rfl
        exact hkown
    rw [hk]
    refine h.free hptr hlive (fun i => ?_) fun sp => ?_
    · simp only [modPriv_priv, hpriv, hiff, Option.some.injEq]
      split <;> rfl
    · simp only [modPriv_priv, hpriv]
      split_ifs with hsp
      · rw [hsp]
      · rfl
  · have hnone : ∀ i, (s.priv (some i)).sProcNr ≠ procNr rp := by
      intro i hn
      have hi := h.named rp i halive hn
      rcases h.ptr_of_not_sys halive (by simpa using hsys) with hp | hp
      · cases hp.symm.trans hi
      · have hik : userPrivId = i := Option.some.inj (hp.symm.trans hi)
        exact huser (hik ▸ hn)
    refine h.free hptr hlive (fun i => ?_) fun sp => ?_
    · rw [hpriv, if_neg (hnone i)]
    · rw [hpriv]

/-- `clear_proc` frees the structure that names the process, if that is not the shared
one. -/
theorem clearProc : PrivInv (s.clearProc rp) := by
  unfold State.clearProc
  dsimp only
  split
  · exact h
  have hclear : SameRights s (s.clearEndpoint rp) :=
    .of_steps (s.steps_clearEndpoint (μ := .any) trivial rp (good_any s).live)
  generalize s.clearEndpoint rp = s1 at hclear
  split
  · exact h.same hclear
  have htimed : SameRights s1 (((s1.resetTimer (.alarm (s1.proc rp).pPriv)).resetTimer
      (.deadline rp)).modTimer (.deadline rp) fun t => { t with tmrExpTime := 0 }) :=
    .of_untimed (by simp)
  generalize ((s1.resetTimer (.alarm (s1.proc rp).pPriv)).resetTimer
    (.deadline rp)).modTimer (.deadline rp) (fun t => { t with tmrExpTime := 0 }) = s3 at htimed
  have hs3 := hclear.trans htimed
  have h3 : PrivInv s3 := h.same hs3
  have halive3 : s3.Alive rp := by
    rw [Alive, hs3.free]
    exact halive
  have huser3 : (s3.priv (some userPrivId)).sProcNr ≠ procNr rp := by
    have hnr := congrArg Priv.sProcNr (hs3.rights (some userPrivId))
    exact fun heq => huser (hnr.symm.trans heq)
  exact h3.freeSlot halive3 huser3

end

/-- A child of a live parent takes a free slot; it shares the structure of the
unprivileged processes or has none. -/
theorem child {rpc : Slot} {child : Proc} (hfree : s.rtsIsset rpc rtsSlotFree = true)
    (halive : isSet child.pRtsFlags rtsSlotFree = false)
    (hptr : child.pPriv = none ∨ child.pPriv = some userPrivId) :
    PrivInv (s.modProc rpc fun _ => child) := by
  have hlive : ∀ i, (s.modProc rpc fun _ => child).Alive i ↔ i = rpc ∨ s.Alive i := by
    intro i
    by_cases hi : i = rpc
    · simp [Alive, rtsIsset, hi, halive]
    · simp [Alive, rtsIsset, hi]
  have hother : ∀ i, i ≠ rpc → (s.modProc rpc fun _ => child).proc i = s.proc i := fun i hi =>
    s.modProc_proc_of_ne rpc _ hi
  have hself : (s.modProc rpc fun _ => child).proc rpc = child := s.modProc_proc_self rpc
  refine ⟨h.id, fun i j ha hp hj => ?_, fun i j ha hn => ?_, fun i ha => ?_, h.sys, h.user,
    h.null, h.symm⟩
  · by_cases hi : i = rpc
    · rw [hi, hself] at hp
      rcases hptr with hnone | huser
      · cases hnone.symm.trans hp
      · exact absurd (Option.some.inj (huser.symm.trans hp)).symm hj
    · rw [hother i hi] at hp
      exact h.own i j (((hlive i).mp ha).resolve_left hi) hp hj
  · by_cases hi : i = rpc
    · -- a structure that names the slot names a live process, but the slot was free
      have halloc : s.Allocated j := by
        rw [Allocated]
        exact hn ▸ procNr_ne_none i
      obtain ⟨x, hx, hn'⟩ := h.live j halloc
      have hxr : x = rpc := (procNr_injective (hn'.symm.trans hn)).trans hi
      rw [hxr, Alive, hfree] at hx
      cases hx
    · rw [hother i hi]
      exact h.named i j (((hlive i).mp ha).resolve_left hi) hn
  · obtain ⟨x, hx, hn⟩ := h.live i ha
    exact ⟨x, (hlive x).mpr (.inr hx), hn⟩

theorem doFork {parentE : Int} (slot : Int) (env : ForkEnv)
    (hfork : ∀ rpp, s.isokendpt parentE = some rpp → s.Alive rpp) :
    PrivInv (s.doFork parentE slot env).2 := by
  refine doFork_rule h (h.same (.quiet rfl)) fun rpp rpc hparent _ hrpc _ => ?_
  have halive := hfork rpp hparent
  have hchild : PrivInv (s.modProc rpc fun _ => forkedProc (s.proc rpp) rpc
      (s.proc rpc).pEndpoint (isSet (s.privOf rpp).sFlags sysProc) env.delivermsgLin) := by
    refine h.child ?_ ?_ ?_
    · rw [rtsIsset, hrpc]
      decide
    · have hparentFlag : isSet (s.proc rpp).pRtsFlags rtsSlotFree = false := halive
      unfold forkedProc
      split
      · rw [isSet_or_of_disjoint (by decide)]
        exact hparentFlag
      · exact hparentFlag
    · unfold forkedProc
      split_ifs with hsys
      · exact .inr rfl
      · exact h.ptr_of_not_sys halive (by simpa using hsys)
  have hticks := fun u : State => SameRights.modProc u rpp
    (f := fun p => { p with pTicksLeft := (s.proc rpp).pTicksLeft.tdiv 2 }) rfl rfl
  have hpend := fun u : State => SameRights.modProc u rpc
    (f := fun p => { p with pPending := 0 }) rfl rfl
  refine hchild.same (((hticks _).trans ?_).trans (hpend _))
  split
  · exact (SameRights.rtsSet _ rpc (by decide)).trans (.rtsUnset _ rpc (by decide))
  · exact .rtsUnset _ rpc (by decide)

end PrivInv

/-! ## Runs -/

/-- A request names a live process, and fits. -/
def PrivSafe (s : State) : KernelCall → Prop
  | .privctl endpt request => ∀ rp ∈ s.privTarget endpt, s.Alive rp ∧ s.RequestFits rp request
  | .exit endpt => ∀ rc ∈ s.exitTarget endpt,
      s.Alive rc ∧ (s.priv (some userPrivId)).sProcNr ≠ procNr rc
  | .fork parentE _ _ => ∀ rpp ∈ s.isokendpt parentE, s.Alive rpp
  | _ => True

/-- The operations that concern privileges, with those of message passing: flags of free
slots are left to exit and fork. -/
def PrivRun (s : State) : Op → Prop
  | .rtsSet _ f | .rtsUnset _ f => rtsSlotFree &&& f = 0#16
  | .dispatch _ | .tick | .notify _ _ | .signal _ _ | .clearEndpoint _ | .store _ _ _ => True
  | .trap _ => s.procIsRunnable s.procPtr = true
  | .lockSend dstE _ => s.MayReply dstE
  | .delivermsg rp _ => s.mfIsset rp mfDelivermsg = true
  | .request _ (.nice _ _) | .request _ (.chdeadline _ _) | .request _ (.setalarm _ _) => False
  | .request caller call => PrivSafe { s with whoP := caller } call
  | .rtsSetflags _ _ | .requeue | .schedcheck _ _ | .clockTask | .balanceQueues => False

theorem PrivInv.op (h : PrivInv s) {op : Op} (hop : PrivRun s op) : PrivInv (op.run s) := by
  cases op with
  | rtsSet rp f => exact h.same (.rtsSet s rp hop)
  | rtsUnset rp f => exact h.same (.rtsUnset s rp hop)
  | dispatch rp => exact h.same ⟨fun _ => rfl, fun _ => rfl, fun _ => rfl⟩
  | trap t => exact h.same (.of_steps (Op.steps_any (o := .trap t) hop))
  | lockSend dstE m => exact h.same (.of_steps (Op.steps_any (o := .lockSend dstE m) hop))
  | delivermsg rp mapped =>
    exact h.same (.of_steps (Op.steps_any (o := .delivermsg rp mapped) hop))
  | request caller call =>
    have hcaller : PrivInv { s with whoP := caller } := h.same (.quiet rfl)
    have hrest : call.Stepwise → PrivInv (call.run { s with whoP := caller }) := fun hcall =>
      hcaller.same (.of_steps (KernelCall.steps_any hcall))
    cases call with
    | privctl endpt request => exact hcaller.doPrivctl hop
    | exit endpt =>
      exact doExit_rule hcaller fun rc hrc => hcaller.clearProc (hop rc hrc).1 (hop rc hrc).2
    | fork parentE slot env => exact hcaller.doFork slot env hop
    | nice _ _ | chdeadline _ _ | setalarm _ _ => exact False.elim hop
    | _ => exact hrest trivial
  | rtsSetflags _ _ | requeue | schedcheck _ _ | clockTask | balanceQueues =>
    exact False.elim hop
  | _ => exact h.same (.of_steps (Op.steps_any trivial))

instance (s : State) (rp : Slot) (request : PrivRequest) : Decidable (s.RequestFits rp request) := by
  cases request <;> unfold State.RequestFits <;> infer_instance

instance (s : State) (call : KernelCall) : Decidable (PrivSafe s call) := by
  cases call <;> unfold PrivSafe State.Alive <;> infer_instance

instance (s : State) (op : Op) : Decidable (PrivRun s op) := by
  induction op using Op.casesOn <;> try induction ‹KernelCall› using KernelCall.casesOn
  all_goals delta PrivRun; infer_instance

/-! ## The start of the kernel -/

theorem nrSysProcs_pos : 0 < nrSysProcs := by decide

/-- A privilege structure before `main` gives it to a process. -/
def freePriv (sp : PrivPtr) : Priv where
  sProcNr := endptNone
  sId := sp.getD ⟨0, nrSysProcs_pos⟩
  sFlags := 0
  sAsyntab := 0
  sAsynsize := 0
  sTrapMask := 0
  sIpcTo := 0
  sNotifyPending := 0
  sIntPending := 0
  sSigPending := 0
  sAlarmTimer := zeroTimer
  sRes := zeroResources

/-- What `main` does for the privileges of a process that may run at once. -/
def State.bootPrivileges (s : State) (rp : Slot) : State :=
  let task := iskerneln (procNr rp)
  let s1 := (s.getPriv rp (some (procNr rp + 4))).2
  let s2 := s1.modPriv (s1.proc rp).pPriv fun sp =>
    { sp with
      sFlags :=
        if task then if rp = idleSlot then sysProc ||| billable else sysProc
        else sysProc ||| preemptible
      sTrapMask :=
        if task then if rp = clockSlot ∨ rp = systemSlot then 0x4 else 0 else 0xffff }
  let s3 := s2.fillTargets rp (if task then 0 else BitVec.allOnes 32) (List.finRange nrSysProcs)
  s3.modPriv (s3.proc rp).pPriv fun sp =>
    { sp with sRes := { sp.sRes with sKCallMask := if task then 0 else BitVec.allOnes 64 } }

/-- The loop of `main` over the processes that may run at once. -/
def bootPrivilegeTable : State :=
  ((image.map BootImage.rp).filter State.bootSchedulable).foldl State.bootPrivileges
    { emptyState with priv := freePriv }

/-- The privileges of the boot state are those that `main` computes. -/
theorem bootPriv_eq : bootPrivilegeTable.priv none = bootPriv none ∧
    ∀ i, bootPrivilegeTable.priv (some i) = bootPriv (some i) := by
  decide +kernel

theorem priv_bootLoop {s : State} {ips : List BootImage} : (s.bootLoop ips).priv = s.priv := by
  have hset : ∀ (t : State) (c : Bool) (rp : Slot) (f : BitVec 16),
      (t.rtsSetIf c rp f).priv = t.priv := by
    intro t c rp f
    unfold rtsSetIf
    split
    · exact frame_congr priv (t.unsched_rtsSet rp f) rfl
    · rfl
  induction ips generalizing s with
  | nil => rfl
  | cons ip ips ih =>
    rw [bootLoop, ih, bootProc]
    rw [frame_congr priv (unsched_rtsUnset _ ip.rp _) rfl, hset,
      hset, hset]
    rfl

/-- Tasks and RS have the structures that name them, and the other processes have none. -/
theorem PrivInv.boot : PrivInv boot := by
  have hpriv : Kernel.boot.priv = bootPriv := priv_bootLoop
  have hown : ∀ rp, ∀ i ∈ (Kernel.boot.proc rp).pPriv,
      (bootPriv (some i)).sProcNr = procNr rp := by decide +kernel
  have hnamed : ∀ i, ∀ rp ∈ procAddr (bootPriv (some i)).sProcNr,
      (Kernel.boot.proc rp).pPriv = some i ∧ Kernel.boot.rtsIsset rp rtsSlotFree = false := by
    decide +kernel
  have haddr : ∀ i, (bootPriv (some i)).sProcNr ≠ endptNone →
      (procAddr (bootPriv (some i)).sProcNr).isSome = true := by decide
  have htarget : ∀ i j, Kernel.boot.target i j = (bootPriv (some i)).sIpcTo.getLsbD j.val := by
    intro i j
    rw [target, hpriv]
  have hsymm : ∀ i j : Fin nrSysProcs, i ≠ j → (bootPriv (some i)).sends = true →
      (bootPriv (some j)).sends = true →
      (bootPriv (some i)).sIpcTo.getLsbD j.val = (bootPriv (some j)).sIpcTo.getLsbD i.val := by
    decide +kernel
  refine ⟨?_, ?_, ?_, ?_, ?_, ?_, ?_, ?_⟩
  all_goals simp only [Allocated, htarget, hpriv]
  · decide
  · exact fun rp i _ hp _ => hown rp i hp
  · intro rp i _ hn
    exact (hnamed i rp (by rw [hn, procAddr_procNr]; rfl)).1
  · intro i hi
    obtain ⟨rp, hrp⟩ := Option.isSome_iff_exists.mp (haddr i hi)
    exact ⟨rp, (hnamed i rp hrp).2, (procNr_of_procAddr hrp).symm⟩
  · decide
  · decide
  · decide
  · exact fun i j hij _ _ hsi hsj => hsymm i j hij hsi hsj

theorem PrivInv.setScheduler (h : PrivInv s) {schedulerType : Int} :
    PrivInv (s.setScheduler schedulerType) :=
  s.setScheduler_rule fun _ => h.same ⟨fun _ => rfl, fun _ => rfl, fun _ => rfl⟩

theorem PrivInv.reachable (h : Reachable PrivRun s) : PrivInv s := by
  obtain ⟨schedulerType, hrun⟩ := h
  exact hrun.invariant PrivInv (PrivInv.boot.setScheduler) fun _ op hinv hop =>
    hinv.op hop

/-! ## Consistency -/

/-- The requests that give and take privileges. -/
def PrivRequest.assigns : PrivRequest → Prop
  | .allow | .disallow | .setSys _ | .setUser => True
  | _ => False

/-- Whose a structure is, who may send to whom, and that a refused request changes no
privileges. -/
structure State.PrivConsistent (s : State) : Prop where
  /-- Only the structure of the unprivileged processes is shared. -/
  single : ∀ rp rp' i, s.Alive rp → s.Alive rp' → (s.proc rp).pPriv = some i →
    (s.proc rp').pPriv = some i → i ≠ userPrivId → rp = rp'
  /-- A live system process has exactly one structure that names it. -/
  named : ∀ rp, s.Alive rp → isSet (s.privOf rp).sFlags sysProc = true →
    ∃! i, (s.priv (some i)).sProcNr = procNr rp
  /-- It is the one it uses. -/
  own : ∀ rp i, s.Alive rp → (s.priv (some i)).sProcNr = procNr rp → (s.proc rp).pPriv = some i
  symm : ∀ i j, i ≠ j → s.Allocated i → s.Allocated j → (s.priv (some i)).sends = true →
    (s.priv (some j)).sends = true → (s.target i j = true ↔ s.target j i = true)
  refused : ∀ (caller : Slot) (endpt : Int) (request : PrivRequest), request.assigns →
    (∀ a, request = .setSys (some a) → a.value.TablesFit) →
    (({ s with whoP := caller } : State).doPrivctl endpt request).1 ≠ ok →
    (({ s with whoP := caller } : State).doPrivctl endpt request).2.priv = s.priv ∧
      ∀ i, ((({ s with whoP := caller } : State).doPrivctl endpt request).2.proc i).pPriv =
        (s.proc i).pPriv

/-- A copy from the caller changes no privileges. -/
theorem State.priv_copyIn (s : State) (access : Access) :
    (s.copyIn access).2.priv = s.priv ∧ ∀ i, ((s.copyIn access).2.proc i).pPriv = (s.proc i).pPriv := by
  unfold copyIn dataCopy
  have hunset := s.unsched_rtsUnset s.whoP rtsVmrequest
  repeat' split
  all_goals first
    | exact ⟨rfl, fun _ => rfl⟩
    | exact ⟨frame_congr priv hunset rfl,
        fun i => frame_proc Proc.pPriv hunset i rfl⟩

/-- A request that is refused changes no privileges, if the tables it supplies fit. -/
theorem State.privctl_refused {s : State}
    (hassigns : request.assigns) (hfit : ∀ a, request = .setSys (some a) → a.value.TablesFit)
    (herr : (s.doPrivctl endpt request).1 ≠ ok) : (s.doPrivctl endpt request).2.priv = s.priv ∧
      ∀ i, ((s.doPrivctl endpt request).2.proc i).pPriv = (s.proc i).pPriv := by
  have hsame : s.priv = s.priv ∧ ∀ i, (s.proc i).pPriv = (s.proc i).pPriv := ⟨rfl, fun _ => rfl⟩
  have hset : ∀ {t : State} {rp arg}, (∀ p, arg = some p → p.TablesFit) →
      (t.priv = s.priv ∧ ∀ i, (t.proc i).pPriv = (s.proc i).pPriv) → (t.allocateSys rp arg).1 ≠ ok →
      (t.allocateSys rp arg).2.priv = s.priv ∧
        ∀ i, ((t.allocateSys rp arg).2.proc i).pPriv = (s.proc i).pPriv := by
    intro t rp arg hfit ht herr
    rcases t.allocateSys_cases rp hfit with ⟨_, heq⟩ | ⟨_, _, _, _, heq, _⟩
    · rw [heq]
      exact ht
    · rw [heq] at herr
      exact absurd rfl herr
  have hswitch : ∀ rp, (s.privctlSwitch rp request).1 ≠ ok →
      (s.privctlSwitch rp request).2.priv = s.priv ∧
        ∀ i, ((s.privctlSwitch rp request).2.proc i).pPriv = (s.proc i).pPriv := by
    intro rp
    cases request with
    | allow | disallow | setUser =>
      simp only [privctlSwitch]
      split
      · exact fun _ => hsame
      · exact fun herr => absurd rfl herr
    | setSys arg =>
      simp only [privctlSwitch, privSetSys]
      split
      · exact fun _ => hsame
      cases arg with
      | none => exact hset (fun p hp => by cases hp) hsame
      | some a =>
        have hcopy := s.priv_copyIn a.access
        dsimp only
        split
        · exact fun _ => hcopy
        · exact hset (fun p hp => by cases hp; exact hfit a rfl) hcopy
    | addIo _ | addMem _ | addIrq _ | queryMem _ _ | other => exact False.elim hassigns
  revert herr
  unfold doPrivctl
  split
  · exact fun _ => hsame
  split
  · exact hswitch _
  split
  · exact fun _ => hsame
  · exact hswitch _

/-- RS gives PM the privileges of a system process and lets it run. -/
def allowPmOps : List Op :=
  [.request rsSlot (.privctl 0 (.setSys none)), .request rsSlot (.privctl 0 .allow)]

/-- A structure that announces more IRQ lines than there is room for. -/
def manyIrqs : SuppliedPriv where
  sId := 0
  sFlags := sysProc ||| dynPrivId ||| checkIrq
  sTrapMask := 0xffff
  sIpcTo := 0
  sKCallMask := 0
  sNrIrq := 5
  sIrqTab := [1, 2, 3, 4, 5]
  sNrIoRange := 0
  sIoTab := []
  sNrMemRange := 0
  sMemTab := []

/-- The first two structures that are handed out to whoever asks. -/
def firstDynPriv : Fin nrSysProcs := ⟨15, by decide⟩
def secondDynPriv : Fin nrSysProcs := ⟨16, by decide⟩

/-- RS gives PM privileges twice. -/
def setPmTwiceOps : List Op :=
  [.request rsSlot (.privctl 0 (.setSys none)), .request rsSlot (.privctl 0 (.setSys none))]

end Minix.Kernel
