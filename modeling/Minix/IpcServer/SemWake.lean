/-
  IpcServer/SemWake.lean --- whether `update_semaphores` wakes everybody who can go on.

  One pass looks at each semaphore once and wakes the first process that can go on.  Whether
  that is enough depends on the amounts: what the process takes decides about the others.
-/
import Minix.IpcServer.SemAtomic

set_option autoImplicit false

namespace Minix.IpcServer

open List Option State

variable {s s' : State} {x x' : Semaphore} {sent : List Send} {i : Input} {w w' : World}

namespace Semaphore

/-- Nobody waits for a decrement that is not larger than the value, or for zero while it is zero. -/
def Quiet (x : Semaphore) : Prop := ∀ e ∈ x.queue 0 0, ¬ e.Enabled x.semval

/-- Once the first process that can go on has done its operation, no other one can. -/
def Enough (x : Semaphore) : Prop := ∀ e ∈ x.first 0 0, ∀ e' ∈ (x.queue 0 0).erase e, ¬ e'.Enabled ((x.semval : Int) + e.op).toNat

instance (x : Semaphore) : Decidable x.Quiet := inferInstanceAs (Decidable (∀ _ ∈ _, _))

instance (x : Semaphore) : Decidable x.Enough := inferInstanceAs (Decidable (∀ _ ∈ _, _))

theorem Listed.quiet_update_iff (h : x.Listed) (heq : x.update = some (x', sent)) : x'.Quiet ↔ x.Enough := by
  have hdrops := (h.update heq 0 0).2
  have hqueue := hdrops.queue
  have hvalue := hdrops.value
  unfold Quiet Enough
  cases hfirst : x.first 0 0 with
  | none =>
    rw [hfirst, toList_none, Entry.total_nil, Int.add_zero] at hvalue
    rw [hfirst, toList_none, Leaves, append_nil] at hqueue
    rw [Int.ofNat.inj hvalue]
    have hnone : ∀ e ∈ x'.queue 0 0, ¬ e.Enabled x.semval := fun e he => by
      simpa using find?_eq_none.mp hfirst e (hqueue.mem_iff.mpr he)
    simpa using hnone
  | some e =>
    have hplace := hdrops.place e (by simp [hfirst])
    rw [hfirst] at hvalue hqueue
    have hval : (x'.semval : Int) = x.semval + e.op := by simpa [Entry.total, hplace] using hvalue
    have hrest : ((x.queue 0 0).erase e).Perm (x'.queue 0 0) := by
      have herase := (List.Perm.trans hqueue (perm_append_singleton e _)).erase e
      rwa [erase_cons_head] at herase
    simp only [Option.mem_def, some.injEq, forall_eq', ← hval, Int.toNat_natCast, hrest.mem_iff]

theorem Drops.quiet {left : List Entry} (h : Drops .eintr 0 0 x left x') (hx : x.Quiet) : x'.Quiet := by
  have hvalue := h.value
  simp only [Entry.total, reduceCtorEq, if_false, Int.add_zero] at hvalue
  intro e he
  rw [Int.ofNat.inj hvalue]
  exact hx e (h.queue.mem_iff.mpr (mem_append_left _ he))

end Semaphore

/-- What holds of every entry of a table after a sweep. -/
theorem sweep_forall_iff {α : Type} {f : α → Option (α × List Send)} {P Q : α → Prop} {l l' : List α}
    (h : ∀ x ∈ l, ∀ x' sent, f x = some (x', sent) → (Q x' ↔ P x)) (heq : sweep f l = some (l', sent)) :
    (∀ x ∈ l', Q x) ↔ ∀ x ∈ l, P x := by
  induction l generalizing l' sent with
  | nil =>
    obtain ⟨rfl, rfl⟩ := heq
    simp
  | cons x l ih =>
    simp only [sweep, bind_eq_some_iff, map_eq_some_iff, Prod.exists] at heq
    obtain ⟨x', sent1, hx, l1, sent2, hl, heq⟩ := heq
    obtain ⟨rfl, -⟩ := Prod.mk.inj heq
    rw [forall_mem_cons, forall_mem_cons, h x (by simp) x' sent1 hx, ih (fun y hy => h y (mem_cons_of_mem _ hy)) hl]

theorem sweep_forall {α : Type} {f : α → Option (α × List Send)} {Q : α → Prop} {l l' : List α}
    (h : ∀ x ∈ l, ∀ x' sent, f x = some (x', sent) → Q x') (heq : sweep f l = some (l', sent)) : ∀ x ∈ l', Q x :=
  (sweep_forall_iff (P := fun _ => True) (fun x hx x' sent hf => iff_true_intro (h x hx x' sent hf)) heq).mpr fun _ _ => trivial

namespace State

/-- No process is left waiting that could go on. -/
def Quiet (s : State) : Prop := ∀ sem ∈ s.semList, ∀ x ∈ sem.sems, x.Quiet

/-- Waking one process of each semaphore is enough. -/
def Enough (s : State) : Prop := ∀ sem ∈ s.semList, ∀ x ∈ sem.sems, x.Enough

instance (s : State) : Decidable s.Quiet := inferInstanceAs (Decidable (∀ _ ∈ _, _))

instance (s : State) : Decidable s.Enough := inferInstanceAs (Decidable (∀ _ ∈ _, _))

/-- `update_semaphores` leaves nobody behind exactly when one process of each semaphore is enough. -/
theorem Sound.quiet_update_iff (hs : s.Sound) (heq : s.updateSemaphores = some (s', sent)) : s'.Quiet ↔ s.Enough := by
  obtain ⟨⟨l, sent'⟩, hsweep, heq⟩ := map_eq_some_iff.mp heq
  obtain ⟨rfl, -⟩ := Prod.mk.inj heq
  refine sweep_forall_iff (fun sem hsem sem' sent hset => ?_) hsweep
  obtain ⟨⟨sems, sent'⟩, hsems, hset⟩ := map_eq_some_iff.mp hset
  obtain ⟨rfl, -⟩ := Prod.mk.inj hset
  exact sweep_forall_iff (fun x hx x' sent hf => (hs.listed sem hsem x hx).quiet_update_iff hf) hsems

/-- Processes that exit leave nobody behind. -/
theorem Quiet.semProcessVmNotify (hs : s.Sound) (hq : s.Quiet) {pts : List Endpoint}
    (heq : s.semProcessVmNotify pts = some (s', sent)) : s'.Quiet := by
  induction pts generalizing s sent with
  | nil =>
    obtain ⟨rfl, -⟩ := Prod.mk.inj (some.inj heq)
    exact hq
  | cons pt pts ih =>
    obtain ⟨s1, left, hremove, hdrops⟩ := hs.removeProcess pt
    simp only [State.semProcessVmNotify, hremove, bind_some, map_eq_some_iff, Prod.exists] at heq
    obtain ⟨s2, more, hrest, heq⟩ := heq
    obtain ⟨rfl, -⟩ := Prod.mk.inj heq
    refine ih (hdrops.sound hs) ?_ hrest
    obtain ⟨⟨l, sent'⟩, hsweep, heq⟩ := map_eq_some_iff.mp hremove
    obtain ⟨rfl, -⟩ := Prod.mk.inj heq
    refine sweep_forall (fun sem hsem sem' sent hset => ?_) hsweep
    obtain ⟨⟨sems, sent'⟩, hsems, hset⟩ := map_eq_some_iff.mp hset
    obtain ⟨rfl, -⟩ := Prod.mk.inj hset
    refine sweep_forall (fun x hx x' sent hf => ?_) hsems
    obtain ⟨x1, sent1, hx1, hdrop⟩ := (hs.listed sem hsem x hx).removeProcess pt
    obtain ⟨rfl, rfl⟩ := Prod.mk.inj (some.inj (hf.symm.trans hx1))
    obtain ⟨left, -, hdrop⟩ := hdrop 0 0
    exact hdrop.quiet (hq sem hsem x hx)

/-- A new set has nobody in its lists. -/
theorem Quiet.doSemget (hq : s.Quiet) {c : Caller} {key nsems : Int} {flag : Nat} : (s.doSemget c key nsems flag).2.2.Quiet := by
  unfold State.doSemget
  split
  · split_ifs <;> exact hq
  split_ifs
  · exact hq
  · exact hq
  · exact hq
  · intro sem hsem x hx
    rcases mem_append.mp hsem with hsem | hsem
    · exact hq sem hsem x hx
    · obtain rfl := mem_singleton.mp hsem
      obtain rfl := eq_of_mem_replicate hx
      decide

/-- Control requests that store no values. -/
theorem Quiet.semctl (hs : s.Sound) (hq : s.Quiet) {c : Caller} {id num : Int} {cmd : SemctlCmd} {answer : Answer}
    (heq : s.semctl c id num cmd = some (answer, s', sent, false)) : s'.Quiet := by
  have hcontrols := semctl_controls s c id num cmd
  rw [heq] at hcontrols
  generalize hout : some (answer, s', sent, false) = out at hcontrols
  cases hcontrols with
  | same =>
    obtain ⟨-, rfl, -⟩ : _ ∧ s' = s ∧ _ := by simpa using hout
    exact hq
  | @perm cmd i sem hat answer' perm =>
    obtain ⟨-, rfl, -⟩ : _ ∧ s' = s.setSet i { sem with semPerm := perm } ∧ _ := by simpa using hout
    intro sem' hsem' x hx
    rcases mem_or_eq_of_mem_set hsem' with hsem' | rfl
    · exact hq sem' hsem' x hx
    · exact hq sem (mem_of_getElem? (semAt_eq_some hat).1) x hx
  | @removed i sem hat answer' =>
    obtain ⟨sent', -, heq⟩ := map_eq_some_iff.mp hout.symm
    obtain ⟨-, rfl, -⟩ : _ ∧ s.removeSemaphore i = s' ∧ _ := by simpa using heq
    obtain ⟨-, -, -, hmem, -⟩ := hs.removeSemaphore (semAt_eq_some hat).1
    exact fun sem' hsem' => hq sem' (hmem sem' hsem').1
  | all => simp at hout
  | val => simp at hout

end State

/-- A `semop` request has a single operation, and there is memory for its entry. -/
def Input.Single : Input → Prop
  | .semop _ _ a => a.ops.length = 1 ∧ ∀ num, a.alloc num = true
  | _ => True

namespace World

/-- When the processes that wait are looked at, waking one of each semaphore is enough. -/
def Served (w : World) : Input → Prop
  | .semop c id a => ∀ s r, w.server.semop c id a = some (s, r) → s.Enough
  | .semctl c id num cmd => ∀ answer s sent, w.server.semctl c id num cmd = some (answer, s, sent, true) → s.Enough
  | _ => True

/-- A message leaves nobody behind exactly when one process of each semaphore is enough. -/
theorem Sound.quiet_iff (h : w.Sound) (hq : w.server.Quiet) (hlegal : w.Legal i) (hone : w.OneWait i) (hstep : w.step i = some w') :
    w'.server.Quiet ↔ w.Served i := by
  obtain ⟨out, hout, rfl⟩ := map_eq_some_iff.mp hstep
  cases i with
  | semget c key nsems flag =>
    obtain rfl := some.inj hout
    exact iff_of_true (hq.doSemget) trivial
  | semctl c id num cmd =>
    obtain ⟨answer, s1, left, update, hctl, hcontrolled⟩ := h.server.semctl c id num cmd
    simp only [State.handle, hctl, bind_some, map_eq_some_iff, Prod.exists] at hout
    obtain ⟨s2, sent, hafter, rfl⟩ := hout
    cases update with
    | false =>
      obtain ⟨rfl, -⟩ := Prod.mk.inj (some.inj hafter)
      refine iff_of_true (State.Quiet.semctl h.server hq hctl) ?_
      simp [Served, hctl]
    | true => simpa [Served, hctl] using hcontrolled.sound.quiet_update_iff hafter
  | semop c id a =>
    obtain ⟨s1, hop, hs1, -⟩ := h.begin hlegal hone
    simp only [State.handle, hop, bind_some, map_eq_some_iff, Prod.exists] at hout
    obtain ⟨s2, sent, hafter, rfl⟩ := hout
    simpa [Served, hop] using hs1.quiet_update_iff hafter
  | exits pts =>
    obtain ⟨⟨s1, sent⟩, hnotify, rfl⟩ := map_eq_some_iff.mp hout
    exact iff_of_true (State.Quiet.semProcessVmNotify h.server hq hnotify) trivial
  | shm ids =>
    obtain rfl := some.inj hout
    exact iff_of_true hq trivial

theorem oneWait_single {w : World} (h : i.Single) : w.OneWait i := by
  cases i with
  | semop c id a => exact Books.oneWait_of_single fun _ => ⟨h.1, fun o _ => h.2 o.semNum⟩
  | _ => trivial

end World

open World

/-- In every run of single operations in which waking one process of each semaphore is always enough,
nobody is left waiting in any state; and a further message leaves nobody behind exactly when that is
enough again. -/
theorem nobody_forgotten (h : Reached (fun w i => i.Single ∧ w.Served i) w) :
    w.server.Quiet ∧ ∀ i w', w.Legal i → i.Single → w.step i = some w' → (w'.server.Quiet ↔ w.Served i) := by
  have hsound := h.sound fun w i hp => oneWait_single hp.1
  have hquiet : w.server.Quiet := by
    clear hsound
    induction h with
    | boot => decide
    | @step w w' i h hlegal hp hstep ih =>
      exact ((h.sound fun w i hp => oneWait_single hp.1).quiet_iff ih hlegal (oneWait_single hp.1) hstep).mpr hp.2
  exact ⟨hquiet, fun i w' hlegal hi hstep => hsound.quiet_iff hquiet hlegal (oneWait_single hi) hstep⟩

/-- A process waits for an increase that is not there yet. -/
theorem nobody_forgotten_increase :
    ((boot.after twoSems).after (semopOf (superuser 2) [⟨0, -1, false⟩])).calls ≠ [] ∧
      ((boot.after twoSems).after (semopOf (superuser 2) [⟨0, -1, false⟩])).server.Quiet := by
  refine ⟨by decide +kernel, (nobody_forgotten ?_).1⟩
  refine Reached.after (.after .boot (by decide +kernel) ⟨trivial, trivial⟩ (by decide +kernel)) (by decide +kernel)
    ⟨⟨rfl, fun _ => rfl⟩, fun s r hs => ?_⟩ (by decide +kernel)
  have henough : ∀ out, (boot.after twoSems).server.semop (superuser 2) 0x1234 ⟨[⟨0, -1, false⟩], true, true, fun _ => true⟩ = some out →
      out.1.Enough := by
    decide +kernel
  exact henough (s, r) hs

/-- Two processes wait for an increase by one, and another one adds two. -/
def twoDecrements : List Input := [twoSems, semopOf (superuser 2) [⟨0, -1, false⟩], semopOf (superuser 3) [⟨0, -1, false⟩],
  semopOf (superuser 4) [⟨0, 2, false⟩]]

/-- Two processes wait for zero, and the value is set to it. -/
def twoZeros : List Input := [twoSems, setVal 0 1, semopOf (superuser 2) [⟨0, 0, false⟩], semopOf (superuser 3) [⟨0, 0, false⟩],
  setVal 0 0]

/-- A process waits for zero, and one that is woken makes the value zero. -/
def zeroByWaking : List Input := [twoSems, setVal 0 1, semopOf (superuser 2) [⟨0, 0, false⟩], semopOf (superuser 3) [⟨0, -2, false⟩],
  semopOf (superuser 4) [⟨0, 1, false⟩]]

/-- In each of these runs a process is left waiting that could go on. -/
theorem somebody_forgotten : [twoDecrements, twoZeros, zeroByWaking].Forall fun l =>
    Reached (fun _ i => i.Single) (l.foldl World.after boot) ∧ ¬ (l.foldl World.after boot).server.Quiet := by
  refine forall_iff_forall_mem.mpr fun l hl => ?_
  have hsingle : ∀ i ∈ l, i.Single := by
    simp only [mem_cons, not_mem_nil, or_false] at hl
    rcases hl with rfl | rfl | rfl <;>
      simp [twoDecrements, twoZeros, zeroByWaking, twoSems, setVal, semopOf, Input.Single]
  have hrun : ∀ l ∈ [twoDecrements, twoZeros, zeroByWaking], Runs boot l ∧ ¬ (l.foldl World.after boot).server.Quiet := by
    decide +kernel
  exact ⟨reached_runs .boot (hrun l hl).1 fun i hi _ => hsingle i hi, (hrun l hl).2⟩

end Minix.IpcServer
