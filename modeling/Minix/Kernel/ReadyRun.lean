/-
  Kernel/ReadyRun.lean --- every operation of the kernel keeps the ready queues.

  Most operations are sequences of steps (`Calls.lean`) and keep the invariant
  because each step does.  What is left are the places that touch queues or
  priorities themselves: the requeueing in `schedcheck`, `balance_queues`, `do_nice`,
  the copy of an entry in `do_fork`, the direct assignment of the flags at exit, and
  the boot loop.  They all change the entry of a process only while it is on no
  queue, which is `ReadyInv.replace`.
-/
import Minix.Kernel.Acts
import Minix.Kernel.Lottery
import Minix.Kernel.Privileges

set_option autoImplicit false

namespace Minix.Kernel

open Minix.Foundation Relation State

variable {Q : Int → List Slot} {rp : Slot} {f : BitVec 16} {q winner : Int} {μ : Mode}
  {deferred : Trap} {env : SchedEnv} {P : State → Prop} {s : State}

namespace ReadyInv

variable {s s' : State}

/-! ## Changes of one entry -/

theorem untimed (h : ReadyInv s) (hs : s'.untimed = s.untimed) : ReadyInv s' :=
  h.congr (frame_congr readyLinks hs rfl)
    (frame_congr rdyTail hs rfl)
    (fun i => by rw [frame_proc Proc.pRtsFlags hs i rfl])
    (fun i => frame_proc Proc.pPriority hs i rfl)
    (fun i => frame_proc Proc.pMaxPriority hs i rfl)

theorem quiet (h : ReadyInv s) (hs : s'.erase = s.erase) : ReadyInv s' :=
  h.same (SameSched.quiet hs)

/-- The lists do not change when the entry of a process that is on none of them is
replaced. -/
theorem rep_replace {on : Slot → Prop} (hQ : ReadyRep s on Q) {rp : Slot}
    (hrp : ¬ on rp) (f : Proc → Proc) : ReadyRep (s.modProc rp f) on Q := by
  have hne : ∀ {i}, on i → i ≠ rp := fun hi heq => hrp (heq ▸ hi)
  refine ⟨?_, hQ.tail, ?_⟩
  · intro q
    refine (hQ.path q).congr rfl ?_
    intro x hx
    have hon : on x := ((hQ.mem q x).mp hx).1
    simp only [readyLinks, modProc_proc_of_ne s rp f (hne hon)]
  · intro q i
    rw [hQ.mem q i]
    refine and_congr_right fun hi => ?_
    rw [modProc_proc_of_ne s rp f (hne hi)]

/-- The entry of a blocked process may be replaced by any entry that is blocked and
has a priority in range. -/
theorem replace (h : ReadyInv s) (hold : (s.proc rp).pRtsFlags ≠ 0#16)
    {f : Proc → Proc} (hnew : (f (s.proc rp)).pRtsFlags ≠ 0#16)
    (hpri : 0 ≤ (f (s.proc rp)).pPriority ∧ (f (s.proc rp)).pPriority ≤ 15)
    (hmax : 0 ≤ (f (s.proc rp)).pMaxPriority) : ReadyInv (s.modProc rp f) := by
  obtain ⟨Q, hQ⟩ := h.rep
  refine ⟨⟨Q, (rep_replace hQ hold f).congr rfl rfl ?_ fun _ _ => rfl⟩, ?_, ?_⟩
  · intro i
    rw [modProc_proc]
    split_ifs with hi
    · rw [hi]
      exact ⟨fun hz => absurd hz hnew, fun hz => absurd hz hold⟩
    · rfl
  · intro i
    rw [modProc_proc]
    split
    · exact hpri
    · exact h.priority i
  · intro i
    rw [modProc_proc]
    split
    · exact hmax
    · exact h.maxPriority i

theorem rtsSetflags (h : ReadyInv s) {rp : Slot} (hf : f ≠ 0#16) :
    ReadyInv (s.rtsSetflags rp f) := by
  by_cases hrun : (s.proc rp).pRtsFlags = 0#16
  · -- on a runnable process the assignment does what `RTS_SET` does
    have hflags : ((s.dequeue rp).proc rp).pRtsFlags = 0#16 :=
      (frame_proc Proc.pRtsFlags unlinked_dequeue rp rfl).trans hrun
    have heq : s.rtsSetflags rp f = s.rtsSet rp f := by
      simp [State.rtsSetflags, State.rtsSet, procIsRunnable, hrun, hf, modProc, hflags]
    rw [heq]
    exact h.rtsSet hf
  · have heq : s.rtsSetflags rp f = s.modProc rp fun p => p.setRts f := by
      simp [State.rtsSetflags, procIsRunnable, hrun]
    rw [heq]
    exact h.modFlags hrun hf

/-! ## Requeueing the current process -/

theorem enqueueHead (hQ : ReadyRep s (fun i => (s.proc i).pRtsFlags = 0#16 ∧ i ≠ rp) Q)
    (hrp : (s.proc rp).pRtsFlags = 0#16)
    (hpri : ∀ i, 0 ≤ (s.proc i).pPriority ∧ (s.proc i).pPriority ≤ 15)
    (hmax : ∀ i, 0 ≤ (s.proc i).pMaxPriority) : ReadyInv (s.enqueueHead rp) := by
  have hsame : ∀ {α : Type} (g : Proc → α), (∀ p : Proc, g p.unlinked = g p) →
      ∀ i, g ((s.enqueueHead rp).proc i) = g (s.proc i) := fun g hg i =>
    frame_congr (fun t => g (t.proc i)) unlinked_enqueueHead
      (funext fun t => hg (t.proc i))
  have hnot : ¬ ((s.proc rp).pRtsFlags = 0#16 ∧ rp ≠ rp) := fun hon => hon.2 rfl
  refine ⟨⟨_, (hQ.enqueueHead hnot).congr rfl rfl ?_ fun _ _ => rfl⟩, ?_, ?_⟩
  · intro i
    rw [hsame Proc.pRtsFlags fun _ => rfl]
    by_cases hi : i = rp
    · simp [hi, hrp]
    · simp [hi]
  · intro i
    rw [hsame Proc.pPriority fun _ => rfl]
    exact hpri i
  · intro i
    rw [hsame Proc.pMaxPriority fun _ => rfl]
    exact hmax i

theorem requeueCurrent (h : ReadyInv s) : ReadyInv s.requeueCurrent := by
  have hold : s.rtsIsset s.procPtr rtsPreempted = true → (s.proc s.procPtr).pRtsFlags ≠ 0#16 :=
    fun hpre => ne_zero_of_isSet (m := rtsPreempted) (by decide) hpre
  refine requeueCurrent_rule (fun _ => h) (fun hpre hrun => ?_) (fun hpre hrun => ?_)
    fun _ ht _ => ht.rtsUnset _ _
  · obtain ⟨Q, hQ⟩ := h.rep
    refine enqueueHead (Q := Q) ((rep_replace hQ (hold hpre) _).congr rfl rfl ?_ fun _ _ => rfl)
      (by simpa [procIsRunnable] using hrun) ?_ ?_
    · intro i
      by_cases hi : i = s.procPtr
      · simp [hi, hold hpre]
      · simp [hi]
    · intro i
      rw [modProc_congr s s.procPtr Proc.pPriority rfl]
      exact h.priority i
    · intro i
      rw [modProc_congr s s.procPtr Proc.pMaxPriority rfl]
      exact h.maxPriority i
  · refine h.modFlags (hold hpre) ?_
    simpa [procIsRunnable, Proc.setRts] using hrun

end ReadyInv

/-! ## Picking a process -/

namespace State

variable {s : State}

theorem erase_bill (s : State) (rp : Slot) : (s.bill rp).erase = s.erase := by
  unfold bill
  split <;> rfl

/-- `pick_proc` changes nothing but the process that is billed. -/
theorem erase_pickProc (s : State) (rand : Nat) : (s.pickProc rand).2.erase = s.erase := by
  unfold pickProc
  split
  · unfold pickRoundRobin
    split
    · rfl
    · exact erase_bill s _
  · unfold pickLottery
    dsimp only
    repeat' split
    all_goals first
      | rfl
      | exact erase_bill s _
  · unfold pickEdf
    repeat' split
    all_goals first
      | rfl
      | exact erase_bill s _

theorem firstReady_mem {qs : List Int}
    (h : s.firstReady qs = some (q, rp)) : q ∈ qs ∧ s.rdyHead q = some rp := by
  induction qs with
  | nil => simp [firstReady] at h
  | cons q' qs ih =>
    rw [firstReady] at h
    split at h
    · exact ⟨List.mem_cons_of_mem _ (ih h).1, (ih h).2⟩
    · rename_i hhead
      cases h
      exact ⟨List.mem_cons_self, hhead⟩

theorem spendTickets_runnable {rps : List Slot}
    (h : s.spendTickets q winner rps = .inl rp) : s.procIsRunnable rp = true := by
  induction rps generalizing winner with
  | nil => simp [spendTickets] at h
  | cons x rps ih =>
    rw [spendTickets] at h
    split at h
    · rename_i hrun
      split at h
      · cases h
        exact hrun
      · exact ih h
    · exact ih h

theorem drawWinner_runnable {lists : List (Int × List Slot)}
    (h : s.drawWinner winner lists = some rp) : s.procIsRunnable rp = true := by
  induction lists generalizing winner with
  | nil => simp [drawWinner] at h
  | cons e lists ih =>
    rw [drawWinner] at h
    split at h
    · rename_i hspend
      cases h
      exact spendTickets_runnable hspend
    · exact ih h

/-- The scan of queue 7 picks a process of the queue. -/
theorem foldl_earlier_mem (rp : Slot) (tmps : List Slot) :
    tmps.foldl s.earlier rp ∈ rp :: tmps := by
  induction tmps generalizing rp with
  | nil => exact List.mem_cons_self
  | cons tmp tmps ih =>
    have hmem := ih (s.earlier rp tmp)
    rw [List.foldl_cons]
    have hstep : s.earlier rp tmp = tmp ∨ s.earlier rp tmp = rp := by
      unfold earlier
      split
      · exact .inl rfl
      · exact .inr rfl
    rcases List.mem_cons.mp hmem with heq | htail
    · rw [heq]
      rcases hstep with h | h <;> simp [h]
    · exact List.mem_cons_of_mem _ (List.mem_cons_of_mem _ htail)

/-- The head of a queue is on the queue, and so it is runnable. -/
theorem head_runnable (h : ReadyInv s) (hhead : s.rdyHead q = some rp) :
    (s.proc rp).pRtsFlags = 0#16 := by
  obtain ⟨Q, hQ⟩ := h.rep
  have hmem : rp ∈ Q q := by
    have hget := rdyHead_of_path hQ.path q
    rw [hhead] at hget
    exact List.mem_of_head? hget.symm
  exact ((hQ.mem q rp).mp hmem).1

/-- A process that is picked is runnable. -/
theorem pickProc_runnable (h : ReadyInv s) {rand : Nat}
    (hpick : (s.pickProc rand).1 = some rp) : (s.proc rp).pRtsFlags = 0#16 := by
  unfold pickProc at hpick
  split at hpick
  · unfold pickRoundRobin at hpick
    split at hpick
    · simp at hpick
    · rename_i hfirst
      cases hpick
      exact head_runnable h (firstReady_mem hfirst).2
  · unfold pickLottery at hpick
    split at hpick
    · rename_i hfirst
      cases hpick
      exact head_runnable h (firstReady_mem hfirst).2
    · split at hpick
      · simp at hpick
      dsimp only at hpick
      split at hpick
      · split at hpick
        · rename_i hdraw
          cases hpick
          simpa [procIsRunnable] using drawWinner_runnable hdraw
        · simp at hpick
      · simp at hpick
  · unfold pickEdf at hpick
    split at hpick
    · simp at hpick
    rename_i head hfirst
    split at hpick
    · obtain ⟨Q, hQ⟩ := h.rep
      rw [queueNodes_of_path (hQ.path 7)] at hpick
      cases hpick
      rcases List.mem_cons.mp (foldl_earlier_mem (s := s) head (Q 7)) with heq | hmem
      · rw [heq]
        exact head_runnable h (firstReady_mem hfirst).2
      · exact ((hQ.mem 7 _).mp hmem).1
    · cases hpick
      exact head_runnable h (firstReady_mem hfirst).2

/-- The work that `schedcheck` does for the current process. -/
theorem steps_workOff (hgood : Good μ s) (hrun : s.procIsRunnable s.procPtr = true)
    (mapped : Bool) (henv : μ.tornTable ∨ NoTear deferred.env)
    (hself : μ.selfWait) : Steps μ s (s.workOff mapped deferred).2 := by
  have hlive : s.Alive s.procPtr := alive_of_runnable hrun
  unfold workOff
  dsimp only
  split
  · rename_i hslot
    exact s.steps_delivermsg hslot (.inr hlive) mapped
  rename_i hslot
  split
  · have htrap := (s.run_trap hgood
      (s.canTake_of_runnable hrun (.inr (by simpa using hslot))) henv (.inl hself)).steps
    have hlive' : (s.trap deferred).Alive s.procPtr :=
      ((SameRights.of_steps htrap).free s.procPtr).trans hlive
    split
    · exact htrap.trans (lights_sigDelayDone _ (.inr hlive')).lights.steps
    · exact htrap
  · split
    · split
      · exact .refl
      · have herase : (s.modProc s.procPtr fun p => p.setMisc
            (clearBits p.pMiscFlags (mfScTrace ||| mfScActive))).erase = s.erase :=
          erase_modProc _ _ _ fun p => p.erase_setMisc_clear (by decide)
        exact Lights.steps ((lights_of_erase herase).trans (lights_causeSig _
          (.inr (((Calm.quiet (μ := μ) herase).alive _).mpr hlive)) _).lights)
    · refine Lights.steps (lights_of_erase ?_)
      exact erase_modProc _ _ _ fun p => p.erase_setMisc_clear (by decide)

/-- The loop at `check_misc_flags` breaks only if there is nothing left to do but to clear
a flag of tracing. -/
theorem workOff_break {mapped : Bool} (hdone : (s.workOff mapped deferred).1 = true) :
    s.mfIsset s.procPtr mfDelivermsg = false ∧ ((s.workOff mapped deferred).2 = s ∨
      (s.workOff mapped deferred).2 = s.modProc s.procPtr fun p =>
        p.setMisc (clearBits p.pMiscFlags mfScActive)) := by
  revert hdone
  unfold workOff
  dsimp only
  split
  · exact fun hdone => nomatch hdone
  rename_i hslot
  split
  · exact fun hdone => nomatch hdone
  split
  · split
    · exact fun _ => ⟨by simpa using hslot, .inl rfl⟩
    · exact fun hdone => nomatch hdone
  · exact fun _ => ⟨by simpa using hslot, .inr rfl⟩

/-- The same in any run. -/
theorem steps_workOff_any (hrun : s.procIsRunnable s.procPtr = true) (mapped : Bool)
    (deferred : Trap) : Steps .any s (s.workOff mapped deferred).2 :=
  steps_workOff (good_any s) hrun mapped (.inl trivial) trivial

end State

/-! ## The operations -/

namespace ReadyInv

variable {s s' : State}

theorem setProcPtr (h : ReadyInv s) (rp : Slot) : ReadyInv { s with procPtr := rp } :=
  h.congr rfl rfl (fun _ => Iff.rfl) (fun _ => rfl) (fun _ => rfl)

theorem kernelSteps (h : ReadyInv s) (hs : Steps μ s s') : ReadyInv s' :=
  h.steps hs.sched

/-- A newly picked process is runnable. -/
theorem pickNew (h : ReadyInv s) (rand : Nat) : ReadyInv (s.pickNew rand).2 ∧
    ((s.pickNew rand).1 = true →
      (s.pickNew rand).2.procIsRunnable (s.pickNew rand).2.procPtr = true) := by
  have hreq := h.requeueCurrent
  have herase := s.requeueCurrent.erase_pickProc rand
  have hpicked := hreq.quiet herase
  unfold State.pickNew
  split
  · rename_i rp s1 hpick
    rw [hpick] at hpicked herase
    refine ⟨hpicked.setProcPtr rp, fun _ => ?_⟩
    have hrun := pickProc_runnable hreq (congrArg Prod.fst hpick)
    have hflags : (s1.proc rp).pRtsFlags = 0#16 :=
      (frame_proc Proc.pRtsFlags herase rp rfl).trans hrun
    simp [procIsRunnable, hflags]
  · rename_i hpick
    rw [hpick] at hpicked
    exact ⟨(hpicked.setProcPtr idleSlot).quiet (erase_bill _ _), by simp⟩

end ReadyInv

section

variable (hstop : ∀ t, P t → P (t.stop .hang))
    (hwork : ∀ t n, P t → t.procIsRunnable t.procPtr = true →
      P (t.workOff (env.mapped n) (env.deferred n)).2)
    (hpick : ∀ t n, P t → P (t.pickNew (env.rand n)).2 ∧ ((t.pickNew (env.rand n)).1 = true →
      (t.pickNew (env.rand n)).2.procIsRunnable (t.pickNew (env.rand n)).2.procPtr = true))
include hstop hwork hpick

/-- What is kept by the work for a process that can run and by picking a process is kept
by the loop of `schedcheck`. -/
theorem State.checkMiscFlags_rule (h : P s) (hrun : s.procIsRunnable s.procPtr = true) {fuel : Nat} :
    P (State.checkMiscFlags env fuel s).2 := by
  induction fuel generalizing s with
  | zero => exact hstop s h
  | succ fuel ih =>
    rw [checkMiscFlags]
    split
    · exact h
    split
    · exact h
    have hdone := hwork s fuel h hrun
    split
    · rename_i hres
      rw [hres] at hdone
      exact hdone
    · rename_i s1 hres
      rw [hres] at hdone
      split_ifs with hrun'
      · exact ih hdone hrun'
      have hnew := hpick s1 fuel hdone
      split
      · rename_i hres'
        rw [hres'] at hnew
        exact ih hnew.1 (hnew.2 rfl)
      · rename_i hres'
        rw [hres'] at hnew
        exact hnew.1

/-- The same for `schedcheck` as a whole. -/
theorem State.schedcheck_rule (h : P s) (fuel : Nat) : P (s.schedcheck env fuel).2 := by
  unfold schedcheck
  split_ifs with hrun
  · exact checkMiscFlags_rule hstop hwork hpick h hrun
  have hnew := hpick s fuel h
  split
  · rename_i hres
    rw [hres] at hnew
    exact checkMiscFlags_rule hstop hwork hpick hnew.1 (hnew.2 rfl)
  · rename_i hres
    rw [hres] at hnew
    exact hnew.1

end

section

variable {Q : State → Prop}
    (hwork : ∀ t n, P t → (t.workOff (env.mapped n) (env.deferred n)).2.procIsRunnable
      (t.workOff (env.mapped n) (env.deferred n)).2.procPtr = true →
      P (t.workOff (env.mapped n) (env.deferred n)).2)
    (hpick : ∀ t n, P t → ((t.workOff (env.mapped n) (env.deferred n)).2.pickNew
      (env.rand n)).1 = true →
      P ((t.workOff (env.mapped n) (env.deferred n)).2.pickNew (env.rand n)).2)
    (hidle : ∀ t, P t → (t.proc t.procPtr).pMiscFlags &&& State.mfWork = 0#16 → Q t)
    (hbreak : ∀ t n, P t → (t.workOff (env.mapped n) (env.deferred n)).1 = true →
      Q (t.workOff (env.mapped n) (env.deferred n)).2)
include hwork hpick hidle hbreak

/-- What holds when the loop of `schedcheck` returns a process: `P` is kept by its turns, and
`Q` follows when there is no work or the loop breaks. -/
theorem State.checkMiscFlags_returns (h : P s) {fuel : Nat}
    (hrp : (State.checkMiscFlags env fuel s).1 = some rp) :
    Q (State.checkMiscFlags env fuel s).2 ∧ (State.checkMiscFlags env fuel s).2.procPtr = rp := by
  induction fuel generalizing s with
  | zero => simp [checkMiscFlags] at hrp
  | succ fuel ih =>
    revert hrp
    rw [checkMiscFlags]
    split
    · exact fun hrp => nomatch hrp
    split_ifs with hnone
    · exact fun hrp => ⟨hidle s h hnone, Option.some.inj hrp⟩
    have hturn := hwork s fuel h
    have hnew := hpick s fuel h
    have hdone := hbreak s fuel h
    rcases hres : s.workOff (env.mapped fuel) (env.deferred fuel) with ⟨done, s1⟩
    rw [hres] at hturn hnew hdone
    cases done with
    | true => exact fun hrp => ⟨hdone rfl, Option.some.inj hrp⟩
    | false =>
      dsimp only at hturn hnew ⊢
      split_ifs with hrun
      · exact ih (hturn hrun)
      rcases hnext : s1.pickNew (env.rand fuel) with ⟨found, s2⟩
      rw [hnext] at hnew
      cases found with
      | true => exact ih (hnew rfl)
      | false => exact fun hrp => nomatch hrp

/-- The same for `schedcheck` as a whole. -/
theorem State.schedcheck_returns (hstay : s.procIsRunnable s.procPtr = true → P s) {fuel : Nat}
    (hnew : (s.pickNew (env.rand fuel)).1 = true → P (s.pickNew (env.rand fuel)).2)
    (hrp : (s.schedcheck env fuel).1 = some rp) :
    Q (s.schedcheck env fuel).2 ∧ (s.schedcheck env fuel).2.procPtr = rp := by
  revert hrp
  unfold schedcheck
  split_ifs with hrun
  · exact checkMiscFlags_returns hwork hpick hidle hbreak (hstay hrun)
  rcases hnext : s.pickNew (env.rand fuel) with ⟨found, s1⟩
  rw [hnext] at hnew
  cases found with
  | true => exact checkMiscFlags_returns hwork hpick hidle hbreak (hnew rfl)
  | false => exact fun hrp => nomatch hrp

end

namespace ReadyInv

variable {s s' : State}

section

variable (h : ReadyInv s)
include h

theorem schedcheck {env : SchedEnv} {fuel : Nat} : ReadyInv (s.schedcheck env fuel).2 :=
  schedcheck_rule (P := ReadyInv) (fun _ ht => ht.quiet rfl)
    (fun _ _ ht hrun => ht.kernelSteps (steps_workOff_any hrun _ _))
    (fun _ _ ht => pickNew ht _) h fuel

/-! ### The clock -/

/-- `balance_queues` takes a process off its queue while it changes the priority. -/
theorem balanceProc {rp : Slot} : ReadyInv (s.balanceProc rp) := by
  have hrange := h.priority rp
  have hmax := h.maxPriority rp
  unfold State.balanceProc
  split
  · exact h
  split
  · by_cases hrun : (s.proc rp).pRtsFlags = 0#16
    · obtain ⟨Q, hQ⟩ := h.rep
      have hsame : ∀ {α : Type} (g : Proc → α), (∀ p : Proc, g p.unlinked = g p) →
          ∀ i, g ((s.dequeue rp).proc i) = g (s.proc i) := fun g hg i =>
        frame_congr (fun t => g (t.proc i)) unlinked_dequeue
          (funext fun t => hg (t.proc i))
      have hrp : ((s.dequeue rp).proc rp).pRtsFlags = 0#16 :=
        (hsame Proc.pRtsFlags (fun _ => rfl) rp).trans hrun
      simp only [procIsRunnable, hrun, modProc_proc_self, hrp, beq_self_eq_true,
        if_true]
      have hrep := rep_replace (hQ.dequeue hrun) (fun hon => hon.2 rfl)
        fun p => { p with pPriority := p.pPriority - 1 }
      refine enqueue (hrep.congr rfl rfl ?_ fun _ _ => rfl) ?_ ?_ ?_
      · intro i
        rw [modProc_congr _ rp Proc.pRtsFlags rfl, hsame Proc.pRtsFlags fun _ => rfl]
      · rw [modProc_congr _ rp Proc.pRtsFlags rfl, hrp]
      · intro i
        rw [modProc_proc]
        split
        · simp only [hsame Proc.pPriority fun _ => rfl]
          omega
        · rw [hsame Proc.pPriority fun _ => rfl]
          exact h.priority i
      · intro i
        rw [modProc_congr _ rp Proc.pMaxPriority rfl, hsame Proc.pMaxPriority fun _ => rfl]
        exact h.maxPriority i
    · have hkeep := modProc_congr s rp (f := fun p =>
        { p with pPriority := p.pPriority - 1 }) Proc.pRtsFlags rfl rp
      simp only [procIsRunnable, beq_iff_eq, hrun, if_false, hkeep]
      exact h.replace hrun hrun (by dsimp only; omega) hmax
  · refine h.quiet ?_
    exact erase_modProc _ _ _ fun _ => rfl

/-! ### Kernel tasks -/

/-- The child's entry is blocked as its parent's is. -/
theorem fork {rpp rpc : Slot} {ep : Int} {sys : Bool} {lin : Nat}
    (hfree : (s.proc rpc).pRtsFlags = rtsSlotFree) (hrecv : s.rtsIsset rpp rtsReceiving = true) :
    ReadyInv (s.modProc rpc fun _ => State.forkedProc (s.proc rpp) rpc ep sys lin) := by
  refine h.replace ?_ ?_ (h.priority rpp) (h.maxPriority rpp)
  · rw [hfree]
    decide
  · simp only [forkedProc]
    split
    · exact or_ne_zero (by decide)
    · exact ne_zero_of_isSet (m := rtsReceiving) (by decide) hrecv

theorem clockAct {due : State → TimerId → Prop} (hact : ClockAct due s s') : ReadyInv s' := by
  cases hact with
  | sched hs => exact h.step hs
  | balance rp => exact h.balanceProc
  | _ => exact h.untimed (by simp)

theorem act {C : State → Deed → Prop} (hact : Act C s s') : ReadyInv s' := by
  cases hact with
  | clock hact => exact h.clockAct hact
  | place rp hq hne => exact h.replace hne hne hq hq.1
  | fork ep sys lin hfree hrecv _ => exact h.fork hfree hrecv
  | free rc => exact (h.untimed (untimed_withdraw s)).rtsSetflags (by decide)
  | unpriv sp => exact h.congr rfl rfl (fun _ => Iff.rfl) (fun _ => rfl) (fun _ => rfl)
  | _ => exact h.untimed (by simp)

theorem acts {C : State → Deed → Prop} (hs : Acts C s s') : ReadyInv s' :=
  run_keeps (fun _ _ ht hact => ht.act hact) h hs

theorem doPrivctl {endpt : Int} {request : PrivRequest} : ReadyInv (s.doPrivctl endpt request).2 := by
  obtain ⟨t, hlights, hframe⟩ := s.doPrivctl_frame (μ := .any) trivial endpt request
  have ht := h.kernelSteps hlights.steps
  exact ht.congr (frame_congr readyLinks hframe rfl)
    (frame_congr rdyTail hframe rfl)
    (fun i => by
      rw [frame_proc Proc.pRtsFlags hframe i rfl])
    (fun i => frame_proc Proc.pPriority hframe i rfl)
    (fun i => frame_proc Proc.pMaxPriority hframe i rfl)

theorem kernelCall {call : KernelCall} : ReadyInv (call.run s) := by
  cases call with
  | privctl endpt request => exact h.doPrivctl
  | chdeadline n deadline =>
    exact h.acts (KernelCall.acts (C := fun _ _ => True) fun _ _ _ _ => ⟨trivial, fun _ => trivial⟩)
  | fork parentE slot env =>
    exact h.acts (KernelCall.acts (C := fun _ _ => True) fun _ _ _ _ => trivial)
  | _ => exact h.acts (KernelCall.acts (C := fun _ _ => True) trivial)

end

/-! ### The start of the kernel -/

theorem emptyState : ReadyInv emptyState := by
  refine ⟨⟨fun _ => [], ?_⟩, fun _ => by simp [Kernel.emptyState, freeProc], fun _ => le_refl _⟩
  refine ⟨fun _ => rfl, fun _ => rfl, ?_⟩
  intro q i
  have hfree : (Kernel.emptyState.proc i).pRtsFlags = rtsSlotFree := rfl
  simp [hfree, rtsSlotFree]

theorem rtsSetIf (h : ReadyInv s) (c : Bool) (rp : Slot) (hf : f ≠ 0#16) :
    ReadyInv (s.rtsSetIf c rp f) := by
  unfold State.rtsSetIf
  split
  · exact h.rtsSet hf
  · exact h

/-- An entry of the boot image is loaded into a free slot. -/
theorem bootProc (h : ReadyInv s) {ip : BootImage} (hpri : 0 ≤ ip.priority ∧ ip.priority ≤ 15)
    (hfree : (s.proc ip.rp).pRtsFlags ≠ 0#16) : ReadyInv (s.bootProc ip) := by
  have hload : ReadyInv (s.loadImage ip) := h.replace hfree hfree hpri hpri.1
  have hpriv := hload.rtsSetIf (!bootSchedulable ip.rp) ip.rp (f := rtsNoPriv) (by decide)
  have hvm := hpriv.rtsSetIf ip.fullvm ip.rp (f := rtsVminhibit) (by decide)
  exact (hvm.rtsSetIf _ ip.rp (f := rtsProcStop) (by decide)).rtsUnset _ _

/-- Loading an entry leaves the flags of the other slots alone. -/
theorem slotFree_bootProc {ip : BootImage} {i : Slot} (hi : i ≠ ip.rp) :
    (s.bootProc ip).rtsIsset i rtsSlotFree = s.rtsIsset i rtsSlotFree := by
  have hset : ∀ (t : State) (c : Bool) (f : BitVec 16),
      (t.rtsSetIf c ip.rp f).rtsIsset i rtsSlotFree = t.rtsIsset i rtsSlotFree := by
    intro t c f
    unfold State.rtsSetIf
    split
    · simp only [rtsIsset, flags_rtsSet, if_neg hi]
    · rfl
  have hunset : ∀ (t : State) (f : BitVec 16), (t.rtsUnset ip.rp f).rtsIsset i rtsSlotFree =
      t.rtsIsset i rtsSlotFree := by
    intro t f
    simp only [rtsIsset]
    rcases flags_rtsUnset t ip.rp with hflags | ⟨_, _, hflags⟩
    · rw [hflags, if_neg hi]
    · rw [hflags, isSet_or_of_disjoint (by decide)]
  unfold State.bootProc
  rw [hunset, hset, hset, hset]
  simp only [rtsIsset, loadImage, modProc_proc_of_ne s ip.rp _ hi]

theorem bootLoop (h : ReadyInv s) {ips : List BootImage}
    (hpri : ∀ ip ∈ ips, 0 ≤ ip.priority ∧ ip.priority ≤ 15)
    (hnodup : (ips.map BootImage.rp).Nodup)
    (hfree : ∀ ip ∈ ips, s.rtsIsset ip.rp rtsSlotFree = true) : ReadyInv (s.bootLoop ips) := by
  induction ips generalizing s with
  | nil => exact h
  | cons ip ips ih =>
    obtain ⟨hnot, hnodup'⟩ := List.nodup_cons.mp hnodup
    have hip := hfree ip List.mem_cons_self
    refine ih (h.bootProc (hpri ip List.mem_cons_self) ?_)
      (fun x hx => hpri x (List.mem_cons_of_mem _ hx)) hnodup' ?_
    · exact ne_zero_of_isSet (m := rtsSlotFree) (by decide) hip
    · intro x hx
      have hne : x.rp ≠ ip.rp := fun heq => hnot (heq ▸ List.mem_map_of_mem hx)
      rw [slotFree_bootProc hne]
      exact hfree x (List.mem_cons_of_mem _ hx)

theorem boot : ReadyInv boot :=
  emptyState.bootLoop (by decide) (by decide) (by decide)

theorem setScheduler (h : ReadyInv s) {schedulerType : Int} :
    ReadyInv (s.setScheduler schedulerType) := by
  exact s.setScheduler_rule fun _ =>
    h.congr rfl rfl (fun _ => Iff.rfl) (fun _ => rfl) (fun _ => rfl)

theorem bootWith (schedulerType : Int) : ReadyInv (bootWith schedulerType) :=
  boot.setScheduler

end ReadyInv

/-! ## Runs -/

/-- What the kernel itself sees to: the macros are given a flag, only a running
process traps, and only a message that is there is delivered. -/
def KernelRun (s : State) : Op → Prop
  | .rtsSet _ f => f ≠ 0#16
  | .rtsSetflags _ f => f ≠ 0#16
  | .trap _ => s.procIsRunnable s.procPtr = true
  | .lockSend dstE _ => s.MayReply dstE
  | .delivermsg rp _ => s.mfIsset rp mfDelivermsg = true
  | _ => True

instance (s : State) (op : Op) : Decidable (KernelRun s op) := by
  induction op using Op.casesOn <;> delta KernelRun <;> infer_instance

theorem ReadyInv.op (h : ReadyInv s) (op : Op) (hop : KernelRun s op) : ReadyInv (op.run s) := by
  cases op with
  | rtsSet rp f => exact h.rtsSet hop
  | rtsUnset rp f => exact h.rtsUnset rp f
  | rtsSetflags rp f => exact h.rtsSetflags hop
  | requeue => exact h.requeueCurrent
  | schedcheck env fuel => exact h.schedcheck
  | dispatch rp => exact h.setProcPtr rp
  | clockTask =>
    exact h.acts (C := fun _ _ => True) (s.acts_clockTask fun _ _ _ _ _ => trivial).acts
  | balanceQueues => exact h.acts (C := fun _ _ => True) s.acts_balanceQueues.acts
  | request caller call =>
    have hcaller : ReadyInv { s with whoP := caller } := h.quiet rfl
    exact hcaller.kernelCall
  | trap t => exact h.kernelSteps (Op.steps_any (o := .trap t) hop)
  | lockSend dstE m => exact h.kernelSteps (Op.steps_any (o := .lockSend dstE m) hop)
  | delivermsg rp mapped => exact h.kernelSteps (Op.steps_any (o := .delivermsg rp mapped) hop)
  | _ => exact h.kernelSteps (Op.steps_any trivial)

theorem ReadyInv.reachable (h : Reachable KernelRun s) : ReadyInv s := by
  obtain ⟨schedulerType, hrun⟩ := h
  exact hrun.invariant ReadyInv (ReadyInv.bootWith schedulerType) fun _ op hinv hop =>
    hinv.op op hop

/-- In every state of every run there are lists `Q` such that the links from every
head lead through `Q q` to nil, the tail is the last process of `Q q`, a runnable
process is exactly once on the list of its priority, which is in range, and on no
other, and any other process is on none. -/
theorem readyQueues_exact {s : State} (h : Reachable KernelRun s) :
    ∃ Q : Int → List Slot,
      (∀ q, s.readyLinks.Path (.head q) (Q q) ∧ s.rdyTail q = (Q q).getLast?) ∧
      ∀ rp,
        ((s.proc rp).pRtsFlags = 0#16 →
          0 ≤ (s.proc rp).pPriority ∧ (s.proc rp).pPriority ≤ 15 ∧
          (Q (s.proc rp).pPriority).count rp = 1 ∧
          ∀ q, q ≠ (s.proc rp).pPriority → rp ∉ Q q) ∧
        ((s.proc rp).pRtsFlags ≠ 0#16 → ∀ q, rp ∉ Q q) := by
  have hinv := ReadyInv.reachable h
  obtain ⟨Q, hQ⟩ := hinv.rep
  refine ⟨Q, fun q => ⟨hQ.path q, hQ.tail q⟩, fun rp => ⟨fun hrun => ?_, ?_⟩⟩
  · obtain ⟨hlow, hhigh⟩ := hinv.priority rp
    refine ⟨hlow, hhigh, ?_, ?_⟩
    · exact List.count_eq_one_of_mem (hQ.path _).nodup ((hQ.mem _ rp).mpr ⟨hrun, rfl⟩)
    · intro q hq hmem
      exact hq ((hQ.mem q rp).mp hmem).2.symm
  · intro hblocked q hmem
    exact hblocked ((hQ.mem q rp).mp hmem).1

/-- RS is stopped and continued, and a tick and a round of balancing pass. -/
theorem readyQueues_exact_afterStop :
    ∃ Q : Int → List Slot, ∀ q,
      (runOps (bootWith 0) [.rtsSet rsSlot rtsProcStop, .tick, .balanceQueues,
        .rtsUnset rsSlot rtsProcStop]).readyLinks.Path (.head q) (Q q) := by
  obtain ⟨Q, hQ, _⟩ := readyQueues_exact (s := runOps (bootWith 0)
    [.rtsSet rsSlot rtsProcStop, .tick, .balanceQueues, .rtsUnset rsSlot rtsProcStop])
    ⟨0, reaches_runOps ⟨show rtsProcStop ≠ 0#16 by decide, trivial, trivial, trivial, trivial⟩⟩
  exact ⟨Q, fun q => (hQ q).1⟩

end Minix.Kernel
