/-
  Kernel/Deadlock.lean --- deadlock detection.

  `deadlock` follows the chain of processes from the one that a caller is about to
  wait for.  It keeps no record of the processes it has seen, so it ends only because
  nobody waits in a cycle; and nobody waits in a cycle because every call that would
  block asks `deadlock` first.

  The chain is searched for the caller from the second process on.  A call that names
  the caller itself is therefore not found out: the caller waits for itself, and from
  then on the loop does not end for whoever asks about it.
-/
import Minix.Kernel.IpcDeath
import Minix.Kernel.Run

set_option autoImplicit false

namespace Minix.Kernel

open Minix.Foundation Relation

variable {cp d caller : Slot} {fuel : Nat}

namespace State

variable {s : State}

/-! ## The chain of waiting processes -/

/-- `x` waits for `y`: it receives from `y` in particular, or it sends to `y`. -/
def WaitsFor (s : State) (x y : Slot) : Prop :=
  s.rtsIsset x rtsReceiving = true ∧ (s.proc x).pGetfromE = (s.proc y).pEndpoint ∨
    s.rtsIsset x rtsSending = true ∧ (s.proc x).pSendtoE = (s.proc y).pEndpoint

/-- `x` waits for `y`, or will if `cp` is blocked on `d`. -/
def WaitsForWith (s : State) (cp d x y : Slot) : Prop := s.WaitsFor x y ∨ x = cp ∧ y = d

/-- Blocking `cp` on `d` closes a cycle. -/
def ClosesCycle (s : State) (cp d : Slot) : Prop := ∃ x, TransGen (s.WaitsForWith cp d) x x

theorem source_eq_some_some_iff {e : Int} {i : Slot} :
    s.source e = some (some i) ↔ s.named e = some i := by
  refine ⟨fun h => ?_, source_of_named⟩
  unfold source at h
  split at h
  · simp at h
  · obtain ⟨j, hj, hji⟩ := Option.map_eq_some_iff.mp h
    rw [hj, Option.some.inj hji]

/-- The processes wait for each other as the system of blocked processes says. -/
theorem IpcInv.waitsFor_eq (h : s.IpcInv) : s.WaitsFor = s.net.Waits := by
  funext x y
  have hnamed : ∀ e, e = (s.proc y).pEndpoint ↔ s.named e = some y := by
    intro e
    constructor
    · rintro rfl
      exact h.endpoints.named
    · intro he
      exact (s.named_eq_some_iff.mp he).2.symm
  unfold WaitsFor Net.Waits
  rw [s.net_sending_eq_some_iff, s.net_receiving_eq_some_iff, source_eq_some_some_iff, hnamed,
    hnamed]
  exact propext Or.comm

/-- Adding an edge to an acyclic graph closes a cycle iff there is a way back. -/
theorem closesCycle_iff (hacyclic : Acyclic s.WaitsFor) :
    s.ClosesCycle cp d ↔ ReflTransGen s.WaitsFor d cp := by
  constructor
  · rintro ⟨x, hcycle⟩
    by_contra hback
    exact hacyclic.insert hback (fun _ _ hxy => hxy) x hcycle
  · intro hback
    have hsub : ∀ x y, s.WaitsFor x y → s.WaitsForWith cp d x y := fun _ _ => .inl
    exact ⟨cp, .head' (.inr ⟨rfl, rfl⟩) (hback.lift id hsub)⟩

/-! ## One iteration -/

theorem procNr_ne_any (rp : Slot) : procNr rp ≠ endptAny := by
  have hlt : rp.val < 260 := rp.isLt
  unfold procNr endptAny
  omega

/-- What `dependency` finds: the process does not wait, it waits for any message, or
it waits for one process. -/
theorem IpcInv.dependency_cases (h : s.IpcInv) (hsrc : s.SourcesOk) {xp : Slot} :
    ((s.dependency xp = .ok none ∨ s.dependency xp = .ok (some endptAny)) ∧
      ∀ y, ¬ s.net.Waits xp y) ∨
    ∃ y, s.dependency xp = .ok (some (procNr y)) ∧ s.net.Waits xp y := by
  unfold dependency
  by_cases hrecv : s.rtsIsset xp rtsReceiving = true
  · obtain ⟨x, hx, hlive⟩ := hsrc xp hrecv
    have hnet := s.net_receiving_eq_some_iff.mpr ⟨hrecv, hx⟩
    rw [if_pos hrecv]
    by_cases hany : (s.proc xp).pGetfromE = endptAny
    · refine .inl ⟨.inr (if_pos hany), ?_⟩
      have hxnone : x = none := by
        rw [hany, source_any] at hx
        exact (Option.some.inj hx).symm
      rw [hxnone] at hnet
      rintro y (hsend | hy)
      · exact nomatch h.wf.both hsend hnet
      · rw [hnet] at hy
        simp at hy
    · rw [if_neg hany]
      rw [source, if_neg hany] at hx
      obtain ⟨y, hy, rfl⟩ := Option.map_eq_some_iff.mp hx
      obtain ⟨hnr, hep⟩ := s.named_eq_some_iff.mp hy
      have hok := s.isokendpt_of_alive hnr hep (hlive y rfl)
      rw [hok]
      exact .inr ⟨y, rfl, .inr hnet⟩
  · have hrecv' : s.rtsIsset xp rtsReceiving = false := by simpa using hrecv
    rw [if_neg hrecv]
    by_cases hsend : s.rtsIsset xp rtsSending = true
    · obtain ⟨y, hy, hlive⟩ := h.target xp hsend
      obtain ⟨hnr, hep⟩ := s.named_eq_some_iff.mp hy
      have hok := s.isokendpt_of_alive hnr hep hlive
      rw [if_pos hsend, hok]
      exact .inr ⟨y, rfl, .inl (s.net_sending_eq_some_iff.mpr ⟨hsend, hy⟩)⟩
    · have hsend' : s.rtsIsset xp rtsSending = false := by simpa using hsend
      refine .inl ⟨.inl (if_neg hsend), ?_⟩
      rintro y (hy | hy)
      · rw [s.net_sending_of_not hsend'] at hy
        simp at hy
      · rw [s.net_receiving_of_not hrecv'] at hy
        simp at hy

/-- The loop at the process `xp`. -/
theorem deadlockLoop_succ (s : State) (function : BlockCall) (cp xp : Slot) (fuel groupSize : Nat) :
    s.deadlockLoop function cp (fuel + 1) (procNr xp) groupSize =
      match s.dependency xp with
      | .error h => .error h
      | .ok none => .ok 0
      | .ok (some srcDst) =>
        if srcDst = procNr cp then
          if groupSize + 1 = 2 ∧
              ((s.proc xp).pRtsFlags ^^^ function.flag) &&& rtsSending ≠ 0#16 then .ok 0
          else .ok (groupSize + 1)
        else s.deadlockLoop function cp fuel srcDst (groupSize + 1) := by
  rw [deadlockLoop, if_neg (procNr_ne_any xp), procAddr_procNr] <;> rfl

theorem deadlockLoop_any (s : State) {function : BlockCall} {cp : Slot} {fuel groupSize : Nat} :
    s.deadlockLoop function cp fuel endptAny groupSize = .ok 0 := by
  cases fuel with
  | zero => rfl
  | succ fuel => rw [deadlockLoop, if_pos rfl]

/-! ## The loop -/

/-- The call of `cp` would not block on `d`: a send finds `d` waiting for it, a receive
finds `d` blocked in a send to it. -/
def Rendezvous (s : State) (function : BlockCall) (cp d : Slot) : Prop :=
  match function with
  | .send => s.willReceive d (s.proc cp).pEndpoint = true
  | .receive => s.rtsIsset d rtsSending = true ∧ (s.proc d).pSendtoE = (s.proc cp).pEndpoint

theorem rtsSending_bit : ∀ i, rtsSending.getLsbD i = true → i = 2 := by
  intro i hi
  by_cases hlt : i < 16
  · have hall : ∀ j < 16, rtsSending.getLsbD j = true → j = 2 := by decide
    exact hall i hlt hi
  · rw [BitVec.getLsbD_of_ge _ _ (by omega)] at hi
    simp at hi

/-- The exception for two processes is made for a rendezvous only. -/
theorem IpcInv.rendezvous_of_exception (h : s.IpcInv) {function : BlockCall}
    (hwait : s.net.Waits d cp)
    (hxor : ((s.proc d).pRtsFlags ^^^ function.flag) &&& rtsSending ≠ 0#16) :
    s.Rendezvous function cp d := by
  have htoggled := isSet_of_and_ne_zero rtsSending_bit hxor
  cases function with
  | send =>
    -- `d` does not send, so it receives from the caller
    have hsend : s.rtsIsset d rtsSending = false :=
      isSet_of_isSet_xor_self (by decide) htoggled
    refine h.willReceive_of_net ⟨s.net_sending_of_not hsend, some cp, ?_, by simp [Net.accepts]⟩
    rcases hwait with hto | hfrom
    · rw [s.net_sending_of_not hsend] at hto
      simp at hto
    · exact hfrom
  | receive =>
    have hsend : s.rtsIsset d rtsSending = true := isSet_of_isSet_xor (by decide) htoggled
    obtain ⟨e, he, _⟩ := h.target d hsend
    have hto := s.net_sending_eq_some_iff.mpr ⟨hsend, he⟩
    have hecp : e = cp := h.wf.waits_unique (.inl hto) hwait
    exact ⟨hsend, hecp ▸ ((s.named_eq_some_iff.mp he).2).symm⟩

/-- Deadlock detection ends, and it tells whether the chain leads to the caller, unless in the
first iteration the call goes ahead at once. -/
theorem IpcInv.deadlockLoop_exact (h : s.IpcInv) (hsrc : s.SourcesOk) {function : BlockCall}
    {rank : Slot → Nat} (hpos : ∀ x, x ≠ cp → 0 < rank x)
    (hrank : ∀ x y, s.net.Waits x y → x ≠ cp → rank y < rank x) {groupSize : Nat}
    (hsize : 1 ≤ groupSize) {xp : Slot} (hne : xp ≠ cp) (hfuel : rank xp ≤ fuel) :
    ∃ n, s.deadlockLoop function cp fuel (procNr xp) groupSize = .ok n ∧
      ((groupSize = 1 → ¬ s.Rendezvous function cp xp) → (n ≠ 0 ↔ ReflTransGen s.net.Waits xp cp)) := by
  induction fuel generalizing xp groupSize with
  | zero =>
    have hxp := hpos xp hne
    omega
  | succ fuel ih =>
    rw [deadlockLoop_succ]
    rcases h.dependency_cases hsrc with ⟨hend, hnone⟩ | ⟨y, hdep, hwait⟩
    · have hstuck := not_reflTransGen_of_none hnone hne
      rcases hend with hdep | hdep
      · rw [hdep]
        exact ⟨0, rfl, by simp [hstuck]⟩
      · rw [hdep]
        dsimp only
        rw [if_neg (procNr_ne_any cp).symm, deadlockLoop_any]
        exact ⟨0, rfl, by simp [hstuck]⟩
    · rw [hdep]
      dsimp only
      by_cases hy : y = cp
      · subst hy
        rw [if_pos rfl]
        split
        · rename_i hexc
          have hone : groupSize = 1 := by omega
          exact ⟨0, rfl, fun hno => absurd (h.rendezvous_of_exception hwait hexc.2) (hno hone)⟩
        · exact ⟨groupSize + 1, rfl, fun _ => by simp [ReflTransGen.single hwait]⟩
      · rw [if_neg fun heq => hy (procNr_injective heq)]
        have hlt := hrank xp y hwait hne
        obtain ⟨n, hn, hiff⟩ := ih (Nat.le_add_left 1 groupSize) hy (by omega)
        refine ⟨n, hn, fun _ => (hiff fun hone => ?_).trans ?_⟩
        · omega
        · exact (reflTransGen_iff_of_unique hwait (fun z hz => h.wf.waits_unique hz hwait) hne).symm

/-- The fuel is enough: the loop does not run over the table of processes it keeps. -/
theorem IpcInv.deadlock_exact (h : s.IpcInv) (hsrc : s.SourcesOk)
    (hacyclic : Acyclic s.net.Waits) {function : BlockCall} (hne : d ≠ cp)
    (hfuel : nrSlots ≤ fuel + 1) : ∃ n, s.deadlockLoop function cp fuel (procNr d) 1 = .ok n ∧
      (¬ s.Rendezvous function cp d → (n ≠ 0 ↔ ReflTransGen s.net.Waits d cp)) := by
  obtain ⟨rank, hcard, hpos, hrank⟩ := hacyclic.exists_rank
  have hbound : rank d < nrSlots := by
    have hlt := hcard d
    rwa [Fintype.card_fin] at hlt
  have hle : rank d ≤ fuel := by omega
  obtain ⟨n, hn, hiff⟩ := h.deadlockLoop_exact hsrc hpos hrank (Nat.le_refl 1) hne hle
  exact ⟨n, hn, fun hno => hiff fun _ => hno⟩

end State

/-! ## Blocking is safe -/

section Safe

variable {μ : Mode} {s : State}

/-- A send that blocks closes no cycle. -/
theorem MayBlockSend.safe (hself : ¬ μ.selfWait) (h : s.IpcInv) (hsrc : s.SourcesOk)
    (hacyclic : Acyclic s.net.Waits) {dst : Slot} {dstE : Int}
    (hmay : MayBlockSend μ s caller dst dstE) : ¬ ReflTransGen s.net.Waits dst caller := by
  have hne := hmay.self.resolve_left hself
  obtain ⟨n, hn, hiff⟩ := h.deadlock_exact hsrc hacyclic hne (Nat.le_succ nrSlots)
  have hzero : n = 0 := Except.ok.inj (hn.symm.trans hmay.deadlock)
  have hno : ¬ s.Rendezvous .send caller dst := by
    intro hwill
    exact nomatch hmay.willReceive.symm.trans hwill
  exact fun hwalk => (hiff hno).mpr hwalk hzero

/-- A receive that blocks closes no cycle. -/
theorem MayBlockReceive.safe (hself : ¬ μ.selfWait) (h : s.IpcInv) (hsrc : s.SourcesOk)
    (hacyclic : Acyclic s.net.Waits) {srcE : Int} {src : Option Slot}
    (hmay : MayBlockReceive μ s caller srcE src) (hsend : s.net.sending caller = none)
    (hd : src = some d) : ¬ ReflTransGen s.net.Waits d caller := by
  subst hd
  have hne : d ≠ caller := by
    rintro rfl
    exact hmay.self.resolve_left hself rfl
  obtain ⟨n, hn, hiff⟩ := h.deadlock_exact hsrc hacyclic hne (Nat.le_succ nrSlots)
  have hzero : n = 0 := Except.ok.inj (hn.symm.trans hmay.deadlock)
  -- a blocked sender would have been found in the queue of the caller
  have hno : ¬ s.Rendezvous .receive caller d := by
    rintro ⟨hset, hto⟩
    have hsent : s.net.sending d = some caller :=
      s.net_sending_eq_some_iff.mpr ⟨hset, hto ▸ h.endpoints.named⟩
    rcases hmay.guard h with ⟨hself', _⟩ | ⟨_, hnone⟩
    · rw [hsend] at hself'
      simp at hself'
    · have hacc := hnone d ((h.wf.mem d caller).mpr hsent)
      exact absurd hacc (by simp [Net.accepts])
  exact fun hwalk => (hiff hno).mpr hwalk hzero

end Safe

end Minix.Kernel
