/-
  Kernel/Quantum.lean --- what is left of the quantum of a process.

  `p_ticks_left` is a char.  A tick takes one from the process that runs, if it can be
  preempted, and one from the process that is billed, if the one that runs is not billable,
  whatever they have left.  A billed process that is not refilled for long enough is charged
  down to -128, and the next tick leaves it 127.
-/
import Minix.Kernel.Entries

set_option autoImplicit false

namespace Minix.Kernel

open Minix.Foundation Relation

/-- What is left is at most the quantum, and both fit into a char. -/
def Proc.InQuantum (p : Proc) : Prop :=
  -128 ≤ p.pTicksLeft ∧ p.pTicksLeft ≤ p.pQuantumSize ∧ 0 ≤ p.pQuantumSize ∧ p.pQuantumSize ≤ 127

theorem Proc.InQuantum.steady : Proc.Steady Proc.InQuantum where
  unlinked _ := rfl
  sched p h := by
    simp only [InQuantum, Proc.sched] at h ⊢
    split <;> omega
  flags _ _ _ h := h
  raise _ _ h := h
  refill p h := by
    simp only [InQuantum] at h ⊢
    omega

/-- A char that is charged holds what is left, unless it was the least one. -/
theorem wrap8_sub_one {x : Int} (hlow : -127 ≤ x) (hhigh : x ≤ 127) : wrap8 (x - 1) = x - 1 := by
  unfold wrap8
  rw [Int.bmod_def]
  split <;> omega

namespace State

/-- The process that runs is charged if it can be preempted, and the one that is billed if
the one that runs is not billable. -/
def chargesCurrent (s : State) (rp : Slot) : Bool :=
  rp == s.procPtr && isSet (s.privOf s.procPtr).sFlags preemptible

def chargesBilled (s : State) (rp : Slot) : Bool :=
  rp == s.billPtr && !isSet (s.privOf s.procPtr).sFlags billable

/-- Nobody is charged below what a char holds. -/
def ChargeFits (s : State) : Prop :=
  ∀ rp, -128 ≤ (s.proc rp).pTicksLeft - (s.chargesCurrent rp).toNat - (s.chargesBilled rp).toNat

instance (s : State) : Decidable s.ChargeFits := inferInstanceAs (Decidable (∀ _, _))

variable {s s' : State} {rp : Slot}

/-! ## The timer interrupt -/

theorem modProcIf_proc (s : State) (c : Bool) (rp : Slot) (f : Proc → Proc) (i : Slot) :
    (s.modProcIf c rp f).proc i = if i == rp && c then f (s.proc i) else s.proc i := by
  unfold modProcIf
  cases c with
  | false => simp
  | true =>
    simp only [if_true, Bool.and_true, modProc_proc, beq_iff_eq]
    split_ifs with heq
    · rw [heq]
    · rfl

/-- What a tick leaves to a process. -/
theorem ticks_chargeTick (s : State) {i : Slot} :
    (s.chargeTick.proc i).pQuantumSize = (s.proc i).pQuantumSize ∧
    (s.chargeTick.proc i).pTicksLeft =
      let left := if s.chargesCurrent i then wrap8 ((s.proc i).pTicksLeft - 1) else (s.proc i).pTicksLeft
      if s.chargesBilled i then wrap8 (left - 1) else left := by
  have hkeep : ∀ {α : Type} (k : Proc → α), (∀ p t, k { p with pUserTime := t } = k p) → ∀ j,
      k ((s.modProc s.procPtr fun p => { p with pUserTime := wrap32 (p.pUserTime + 1) }).proc j) =
        k (s.proc j) := fun k hk j => modProc_congr s s.procPtr k (hk _ _) j
  have hsize := hkeep Proc.pQuantumSize fun _ _ => rfl
  have hticks := hkeep Proc.pTicksLeft fun _ _ => rfl
  have hpriv := congrArg s.priv (hkeep Proc.pPriv (fun _ _ => rfl) s.procPtr)
  unfold chargeTick
  simp only [modProcIf_proc, apply_ite Proc.pTicksLeft, apply_ite Proc.pQuantumSize, ite_self, hsize,
    hticks, privOf, modProc_priv, hpriv]
  exact ⟨trivial, rfl⟩

/-- All entries are in order. -/
abbrev InQuantum (s : State) : Prop := s.Entries Proc.InQuantum nobody

namespace InQuantum

section

variable (h : s.InQuantum)
include h

theorem chargeTick (hfits : s.ChargeFits) : s.chargeTick.InQuantum := by
  intro i _
  obtain ⟨hsize, hticks⟩ := s.ticks_chargeTick
  obtain ⟨hlow, hhigh, hquantum⟩ := h i id
  have hfit := hfits i
  unfold Proc.InQuantum
  rw [hsize, hticks]
  cases hrun : s.chargesCurrent i <;> cases hbill : s.chargesBilled i <;>
    simp only [hrun, hbill, Bool.toNat_true, Bool.toNat_false, if_true, Bool.false_eq_true, if_false] at hfit ⊢
  · exact ⟨hlow, hhigh, hquantum⟩
  · rw [wrap8_sub_one (by omega) (by omega)]
    omega
  · rw [wrap8_sub_one (by omega) (by omega)]
    omega
  · have hone := wrap8_sub_one (x := (s.proc i).pTicksLeft) (by omega) (by omega)
    rw [hone, wrap8_sub_one (by omega) (by omega)]
    omega

theorem queueMess {ep : Int} {msg : Option Message} {dst : Slot} :
    (s.queueMess ep msg dst).2.InQuantum := by
  unfold State.queueMess
  split
  · exact h
  rename_i msg
  have hqueued : (s.modProc dst fun p =>
      { p with
        pDelivermsg := { msg with mSource := ep }
        pMiscFlags := p.pMiscFlags ||| mfDelivermsg }).InQuantum := h.modProc fun _ => h dst id
  exact hqueued

theorem miniNotify {caller : Slot} {dstE : Int} : (s.miniNotify caller dstE).2.InQuantum := by
  unfold State.miniNotify
  split
  · exact h
  split
  · rename_i dst _ _
    have hbuilt : (s.buildNotifyMessage caller dst).2.InQuantum := by
      unfold buildNotifyMessage
      repeat' split
      all_goals exact h
    exact (hbuilt.queueMess).rtsUnset Proc.InQuantum.steady dst (by decide)
  · exact h

theorem sendSig {rp : Slot} {sig : Nat} : (s.sendSig rp sig).InQuantum := by
  unfold State.sendSig
  split
  · exact h
  · have hpriv : ∀ sp f, (s.modPriv sp f).InQuantum := fun _ _ => h
    exact (hpriv _ _).miniNotify

theorem causeSig {rp : Slot} {sig : Nat} : (s.causeSig rp sig).InQuantum := by
  have hpend : (s.modProc rp fun p => { p with pPending := p.pPending ||| sigbit sig }).InQuantum :=
    h.modProc fun _ => h rp id
  unfold State.causeSig
  dsimp only
  repeat' split
  · exact h
  · exact h
  · exact hpend
  · exact sendSig (hpend.rtsSet Proc.InQuantum.steady rp _)

theorem vtimerCheck (rp : Slot) : (s.vtimerCheck rp).InQuantum := by
  have halarm : ∀ {t : State} (c : Bool) (f : Proc → Proc) (sig : Nat), t.InQuantum →
      ((t.proc rp).InQuantum → (f (t.proc rp)).InQuantum) →
      (if c then (t.modProc rp f).causeSig rp sig else t).InQuantum := by
    intro t c f sig ht hf
    split
    · exact causeSig (ht.modProc fun _ => hf (ht rp id))
    · exact ht
  exact halarm _ _ _ (halarm _ _ _ h id) id

theorem apTimerIntHandler (hfits : s.ChargeFits) : s.apTimerIntHandler.InQuantum := by
  have hcheck := (h.chargeTick hfits).vtimerCheck s.procPtr
  have hboth : (if s.procPtr ≠ s.billPtr then
      (s.chargeTick.vtimerCheck s.procPtr).vtimerCheck s.billPtr
      else s.chargeTick.vtimerCheck s.procPtr).InQuantum := by
    split
    · exact hcheck.vtimerCheck s.billPtr
    · exact hcheck
  unfold State.apTimerIntHandler
  dsimp only
  generalize (if s.procPtr ≠ s.billPtr then _ else _) = s2 at hboth ⊢
  split
  · exact hboth.rtsSet Proc.InQuantum.steady s.procPtr rtsNoQuantum
  · exact hboth

theorem tick (hfits : s.ChargeFits) : s.bspTimerIntHandler.InQuantum := by
  have hclock : ∀ now, ({ s with realtime := now, lostTicks := 0 } : State).apTimerIntHandler.InQuantum :=
    fun now => apTimerIntHandler h hfits
  unfold bspTimerIntHandler
  dsimp only
  split
  · exact (hclock _).miniNotify
  · exact hclock _

/-! ## Balancing and forking -/

theorem balanceQueues : s.balanceQueues.InQuantum := by
  have hloop : (s.balanceLoop 0 (List.finRange nrSlots)).2.InQuantum :=
    balanceLoop_rule (fun _ rp ht => ht.balanceProc Proc.InQuantum.steady) h 0 _
  intro i hi
  unfold State.balanceQueues
  rw [frame_proc Proc.InQuantum (untimed_setTimer _ _ _ _) i rfl]
  exact hloop i hi

end

theorem half_bounds {x high : Int} (hlow : -128 ≤ x) (hx : x ≤ high + 1) (hhigh : 0 ≤ high) :
    -128 ≤ x.tdiv 2 ∧ x.tdiv 2 ≤ high := by
  have hsign : Int.sign 2 = 1 := rfl
  rw [Int.tdiv_eq_ediv, hsign]
  split <;> omega

/-- Parent and child share what is left. -/
theorem doFork (h : s.InQuantum) {parentE slot : Int} {env : ForkEnv} :
    (s.doFork parentE slot env).2.InQuantum := by
  refine doFork_rule (P := InQuantum) h h fun rpp rpc _ _ _ _ => ?_
  obtain ⟨hlow, hhigh, hsize⟩ := h rpp id
  set s1 := s.modProc rpc fun _ => forkedProc (s.proc rpp) rpc (s.proc rpc).pEndpoint
    (isSet (s.privOf rpp).sFlags sysProc) env.delivermsgLin with hs1
  have hcopy : s1.InQuantum := by
    have hhalf := half_bounds (x := (s.proc rpp).pTicksLeft + 1) (by omega) (by omega) hsize.1
    exact h.modProc fun _ => ⟨hhalf.1, hhalf.2, hsize⟩
  have hsame : (s1.proc rpp).pQuantumSize = (s.proc rpp).pQuantumSize := by
    rw [hs1, modProc_proc]
    split <;> rfl
  set s2 := s1.modProc rpp fun p => { p with pTicksLeft := (s.proc rpp).pTicksLeft.tdiv 2 }
  have hshare : s2.InQuantum := by
    have hhalf := half_bounds hlow (by omega) hsize.1
    refine hcopy.modProc fun _ => ?_
    rw [hsame]
    exact ⟨hhalf.1, hhalf.2, hsize⟩
  have hblock : (if env.vminhibit then s2.rtsSet rpc rtsVminhibit else s2).InQuantum := by
    split
    · exact hshare.rtsSet Proc.InQuantum.steady rpc rtsVminhibit
    · exact hshare
  have hready := hblock.rtsUnset Proc.InQuantum.steady rpc
    (f := rtsSignaled ||| rtsSigPending ||| rtsPStop) (by decide)
  exact hready.modProc fun _ => hready rpc id

end InQuantum

/-! ## Runs -/

/-- The steps that change quanta, with ticks that are `allowed`, and those that do not. -/
inductive QuantumStep (allowed : State → Prop) : State → State → Prop
  | tick (s : State) (h : allowed s) : QuantumStep allowed s s.bspTimerIntHandler
  | sched (s : State) (rp : Slot) : QuantumStep allowed s (s.enqueue rp)
  | balance (s : State) : QuantumStep allowed s s.balanceQueues
  | fork (s : State) (parentE slot : Int) (env : ForkEnv) :
      QuantumStep allowed s (s.doFork parentE slot env).2
  | other {s s' : State} (h : ∀ rp, (s'.proc rp).pTicksLeft = (s.proc rp).pTicksLeft ∧
      (s'.proc rp).pQuantumSize = (s.proc rp).pQuantumSize) : QuantumStep allowed s s'

theorem InQuantum.step (h : s.InQuantum) (hstep : QuantumStep ChargeFits s s') : s'.InQuantum := by
  cases hstep with
  | tick hfits => exact h.tick hfits
  | sched rp => exact h.enqueue Proc.InQuantum.steady
  | balance => exact h.balanceQueues
  | fork parentE slot env => exact h.doFork
  | other hsame =>
    intro i hi
    rw [Proc.InQuantum, (hsame i).1, (hsame i).2]
    exact h i hi

/-- At the start everybody has its whole quantum, which fits into a char. -/
def Fresh (s : State) : Prop :=
  ∀ rp, (s.proc rp).pTicksLeft = (s.proc rp).pQuantumSize ∧ 0 ≤ (s.proc rp).pQuantumSize ∧
    (s.proc rp).pQuantumSize ≤ 127

instance (s : State) : Decidable s.Fresh := inferInstanceAs (Decidable (∀ _, _))

end State

/-- Nobody has more left than its quantum. -/
def QuantumKept (s : State) : Prop := ∀ rp, (s.proc rp).pTicksLeft ≤ (s.proc rp).pQuantumSize

theorem quantumKept_of_fits {s s' : State} (h : s.Fresh)
    (hrun : ReflTransGen (State.QuantumStep State.ChargeFits) s s') : QuantumKept s' := by
  have hstart : s.InQuantum := by
    intro i _
    obtain ⟨hticks, hsize⟩ := h i
    unfold Proc.InQuantum
    omega
  have hend : s'.InQuantum := by
    induction hrun with
    | refl => exact hstart
    | tail _ hstep ih => exact ih.step hstep
  exact fun rp => (hend rp id).2.1

/-- SYSTEM works for INIT, which is billed, and no timer is due. -/
def systemServesInit : State :=
  { boot with procPtr := systemSlot, billPtr := ⟨14, initSlot_lt⟩, nextTimeout := tmrNever }

theorem reaches_ticks {allowed : State → Prop} {s : State} (n : Nat)
    (h : ∀ k < n, allowed (State.bspTimerIntHandler^[k] s)) :
    ReflTransGen (State.QuantumStep allowed) s (State.bspTimerIntHandler^[n] s) := by
  induction n with
  | zero => exact .refl
  | succ n ih =>
    rw [Function.iterate_succ_apply']
    exact (ih fun k hk => h k (by omega)).tail (.tick _ (h n (by omega)))

theorem quantumKept_twoTicks : QuantumKept (State.bspTimerIntHandler^[2] systemServesInit) :=
  quantumKept_of_fits (by decide +kernel) (reaches_ticks 2 (by decide +kernel))

/-- After 137 ticks INIT has 127 ticks left of its 8. -/
theorem quantumKept_fails_billed : ¬ ∀ s s', State.Fresh s →
    ReflTransGen (State.QuantumStep fun _ => True) s s' → QuantumKept s' := by
  intro hall
  have hkept := hall systemServesInit _ (by decide +kernel) (reaches_ticks 137 fun _ _ => trivial)
  exact absurd (hkept ⟨14, by decide⟩) (by decide +kernel)

end Minix.Kernel
