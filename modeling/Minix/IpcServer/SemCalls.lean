/-
  IpcServer/SemCalls.lean --- what a `semop` and a `semctl` request do before anybody is woken.

  The operations of a `semop` are on different semaphores, so each of them meets the value
  from before the call.  Those that are not possible put the caller into a list; the others
  are done at once.
-/
import Mathlib.Data.List.Nodup
import Minix.IpcServer.SemQueues

set_option autoImplicit false

namespace Minix.IpcServer

open Minix.Foundation List State
open Entry (total)

variable {j : Nat} {s : Semaphore} {sems : List Semaphore} {c : Caller} {a : SemopArgs} {id : Int}
  {update : Bool}

/-! ## Changing one semaphore -/

section SetOne

variable {id : Int} {sems : List Semaphore}

/-- The queue of a set without one of its semaphores. -/
theorem queueFrom_set (id : Int) (k : Nat) (hj : j < sems.length) : ∃ rest,
    (queueFrom id k sems).Perm (sems[j].queue id (k + j) ++ rest) ∧
      ∀ s, (queueFrom id k (sems.set j s)).Perm (s.queue id (k + j) ++ rest) := by
  induction sems generalizing j k with
  | nil => simp at hj
  | cons x sems ih =>
    cases j with
    | zero => exact ⟨queueFrom id (k + 1) sems, .refl _, fun s => .refl _⟩
    | succ j =>
      obtain ⟨rest, hold, hnew⟩ := ih (k + 1) (Nat.lt_of_succ_lt_succ hj)
      have hidx : k + 1 + j = k + (j + 1) := by omega
      rw [hidx] at hold hnew
      refine ⟨x.queue id k ++ rest, ?_, fun s => ?_⟩
      · exact (hold.append_left _).trans (perm_append_comm_assoc ..)
      · exact ((hnew s).append_left _).trans (perm_append_comm_assoc ..)

/-- The queue does not depend on the values. -/
theorem queueFrom_set_value (id : Int) (k : Nat) (hj : j < sems.length) (val : Nat) :
    queueFrom id k (sems.set j { sems[j] with semval := val }) = queueFrom id k sems := by
  induction sems generalizing j k with
  | nil => simp at hj
  | cons x sems ih =>
    cases j with
    | zero => rfl
    | succ j =>
      have hrest := ih (k + 1) (Nat.lt_of_succ_lt_succ hj)
      simp only [set_cons_succ, getElem_cons_succ, queueFrom, hrest]

theorem valueAt_eq (hj : j < sems.length) : valueAt sems j = sems[j].semval := by
  simp [valueAt, getElem?_eq_getElem hj]

theorem valueAt_set (hj : j < sems.length) (s : Semaphore) (n : Nat) :
    valueAt (sems.set j s) n = if n = j then s.semval else valueAt sems n := by
  unfold valueAt
  by_cases hn : n = j
  · subst hn
    simp [hj]
  · simp [Ne.symm hn, hn]

theorem listed_set (h : ∀ x ∈ sems, x.Listed) (hs : s.Listed) : ∀ x ∈ sems.set j s, x.Listed := by
  intro x hx
  rcases mem_or_eq_of_mem_set hx with hx | rfl
  · exact h x hx
  · exact hs

end SetOne

/-! ## The operations -/

/-- The entry of an operation that has to wait. -/
def Sembuf.entry (who : Endpoint) (id : Int) (o : Sembuf) : Entry := ⟨who, id, o.semNum, o.semOp⟩

/-- The operations whose turn comes: up to the first one without permission. -/
def reached (alter : Bool) (ops : List Sembuf) : List Sembuf := ops.takeWhile fun o => alter || o.semOp = 0

/-- The operations that put the caller into a list. -/
def queued (alter : Bool) (sems : List Semaphore) (ops : List Sembuf) : List Sembuf :=
  (reached alter ops).filter fun o => ¬ o.possible (valueAt sems o.semNum)

/-- The operations that are done at once. -/
def performed (alter : Bool) (sems : List Semaphore) (ops : List Sembuf) : List Sembuf :=
  (reached alter ops).filter fun o => o.possible (valueAt sems o.semNum)

/-- What operations add to a semaphore. -/
def sumAt (ops : List Sembuf) (num : Nat) : Int := ((ops.filter fun o => o.semNum = num).map (·.semOp)).sum

theorem Sembuf.possible_iff {o : Sembuf} {val : Nat} :
    o.possible val = true ↔ if o.semOp = 0 then val = 0 else 0 ≤ (val : Int) + o.semOp := by
  unfold possible
  split
  · simp
  · rw [decide_eq_true_iff]
    omega

/-- A value that nothing is added to. -/
theorem eq_emod_ushort {val : Nat} (h : val < ushortSize) : (val : Int) = ((val : Int) + 0) % ushortSize := by
  unfold ushortSize at h ⊢
  omega

/-- The semaphores after the loop. -/
structure Looped (id : Int) (who : Endpoint) (sems : List Semaphore) (waits done : List Sembuf) (sems' : List Semaphore) : Prop where
  listed : ∀ s ∈ sems', s.Listed
  length : sems'.length = sems.length
  queue : (queueFrom id 0 sems').Perm (queueFrom id 0 sems ++ waits.map (Sembuf.entry who id))
  value : ∀ num, (valueAt sems' num : Int) = ((valueAt sems num : Int) + sumAt done num) % ushortSize

section Loop

variable {id : Int} {who : Endpoint} {sems sems1 sems2 : List Semaphore} {waits waits' done done' : List Sembuf}

theorem valueAt_lt (h : ∀ s ∈ sems, s.Listed) (num : Nat) : valueAt sems num < ushortSize := by
  by_cases hnum : num < sems.length
  · rw [valueAt_eq hnum]
    exact (h _ (getElem_mem hnum)).semval
  · rw [valueAt, getElem?_eq_none (by omega)]
    decide

theorem Looped.refl (h : ∀ s ∈ sems, s.Listed) : Looped id who sems [] [] sems where
  listed := h
  length := rfl
  queue := by simp
  value num := eq_emod_ushort (valueAt_lt h num)

theorem sumAt_append (num : Nat) : sumAt (done ++ done') num = sumAt done num + sumAt done' num := by
  simp [sumAt]

theorem Looped.trans (h : Looped id who sems waits done sems1) (h' : Looped id who sems1 waits' done' sems2) :
    Looped id who sems (waits ++ waits') (done ++ done') sems2 where
  listed := h'.listed
  length := h'.length.trans h.length
  queue := by
    refine h'.queue.trans ((h.queue.append_right _).trans ?_)
    rw [append_assoc, map_append]
  value num := by
    rw [h'.value, h.value, sumAt_append]
    unfold ushortSize
    omega

/-- A change of one semaphore. -/
theorem looped_set (h : ∀ s ∈ sems, s.Listed) {o : Sembuf} (ho : o.semNum < sems.length) (hs : s.Listed)
    (hqueue : (s.queue id o.semNum).Perm (sems[o.semNum].queue id o.semNum ++ waits.map (Sembuf.entry who id)))
    (hdone : done = [] ∨ done = [o])
    (hvalue : (s.semval : Int) = ((sems[o.semNum].semval : Int) + (done.map (·.semOp)).sum) % ushortSize) :
    Looped id who sems waits done (sems.set o.semNum s) where
  listed := listed_set h hs
  length := length_set ..
  queue := by
    obtain ⟨rest, hold, hnew⟩ := queueFrom_set id 0 ho
    rw [Nat.zero_add] at hold hnew
    generalize waits.map (Sembuf.entry who id) = new at hqueue ⊢
    calc queueFrom id 0 (sems.set o.semNum s)
        _ |>.Perm (s.queue id o.semNum ++ rest) := hnew s
        _ |>.Perm ((sems[o.semNum].queue id o.semNum ++ new) ++ rest) := hqueue.append_right rest
        _ |>.Perm ((sems[o.semNum].queue id o.semNum ++ rest) ++ new) := by
          rw [append_assoc, append_assoc]
          exact perm_append_comm.append_left _
        _ |>.Perm (queueFrom id 0 sems ++ new) := hold.symm.append_right new
  value num := by
    rw [valueAt_set ho]
    by_cases hnum : num = o.semNum
    · subst hnum
      rw [if_pos rfl, hvalue, valueAt_eq ho]
      rcases hdone with rfl | rfl <;> simp [sumAt]
    · have hzero : sumAt done num = 0 := by
        rcases hdone with rfl | rfl
        · rfl
        · simp [sumAt, Ne.symm hnum]
      rw [if_neg hnum, hzero]
      exact eq_emod_ushort (valueAt_lt h num)

end Loop

/-- There is room in the lists of a semaphore. -/
def Semaphore.Room (s : Semaphore) : Prop := s.zlist.count + 1 < ushortSize ∧ s.nlist.count + 1 < ushortSize

section Spec

variable {c : Caller} {alter : Bool} {s : Semaphore} {o : Sembuf}

/-- A semaphore with new lists and a new value. -/
theorem queue_of_lists (s' : Semaphore) (hz : s'.zlist = s.zlist) (hn : s'.nlist = s.nlist) (id : Int) (num : Nat) :
    s'.queue id num = s.queue id num := by
  simp only [Semaphore.queue, Semaphore.zeros, Semaphore.increases, hz, hn]

theorem listed_of_lists {s' : Semaphore} (h : s.Listed) (hz : s'.zlist = s.zlist) (hn : s'.nlist = s.nlist)
    (hval : s'.semval < ushortSize) : s'.Listed :=
  .of_holds (hz ▸ h.zlist) (hn ▸ h.nlist) h.pos hval

/-- What an operation leaves of a semaphore: its lists are sound, the caller has gone into one of
them or the operation is done. -/
structure Acts (o : Sembuf) (who : Endpoint) (s : Semaphore) (waits done : List Sembuf) (s' : Semaphore) : Prop where
  listed : s'.Listed
  queue : ∀ id, (s'.queue id o.semNum).Perm (s.queue id o.semNum ++ waits.map (Sembuf.entry who id))
  either : done = [] ∨ done = [o]
  value : (s'.semval : Int) = ((s.semval : Int) + (done.map (·.semOp)).sum) % ushortSize

theorem acts_nothing (h : s.Listed) (who : Endpoint) (pid : Int) : Acts o who s [] [] { s with sempid := pid } where
  listed := listed_of_lists h rfl rfl h.semval
  queue id := by simp [queue_of_lists (s := s) { s with sempid := pid } rfl rfl]
  either := .inl rfl
  value := eq_emod_ushort h.semval

theorem acts_add (h : s.Listed) (who : Endpoint) (pid : Int) :
    Acts o who s [] [o] (Semaphore.add { s with sempid := pid } o.semOp) where
  listed := by
    refine listed_of_lists h rfl rfl ?_
    simp only [Semaphore.add, ushortSize]
    omega
  queue id := by simp [queue_of_lists (s := s) (Semaphore.add { s with sempid := pid } o.semOp) rfl rfl]
  either := .inr rfl
  value := by
    simp only [Semaphore.add, ushortSize, map_cons, map_nil, sum_cons, sum_nil]
    omega

/-- The caller waits for zero. -/
theorem acts_awaitZero (h : s.Listed) (hroom : s.Room) (hop : o.semOp = 0) {who : Endpoint} {pid : Int} : ∃ s',
    Semaphore.awaitZero { s with sempid := pid } true ⟨who, o.semOp⟩ = some (.waits s') ∧ Acts o who s [o] [] s' := by
  obtain ⟨z, hpush, hholds⟩ := h.zlist.push (by rw [← h.zlist.count]; exact hroom.1) ⟨who, o.semOp⟩
  refine ⟨{ s with sempid := pid, zlist := z }, by simp [Semaphore.awaitZero, hpush], ?_, fun id => ?_, .inl rfl,
    eq_emod_ushort h.semval⟩
  · exact .of_holds hholds h.nlist h.pos h.semval
  · rw [Semaphore.queue_eq (s := { s with sempid := pid, zlist := z }) hholds h.nlist, Semaphore.queue_eq h.zlist h.nlist,
      map_append, append_assoc, append_assoc]
    have hentry : [(⟨who, o.semOp⟩ : Waiting)].map (Semaphore.zeroEntry id o.semNum) = [o].map (Sembuf.entry who id) := by
      simp [Semaphore.zeroEntry, Sembuf.entry, hop]
    rw [hentry]
    exact perm_append_comm.append_left _

/-- The caller waits for an increase. -/
theorem acts_awaitIncrease (h : s.Listed) (hroom : s.Room) (hop : o.semOp < 0) (who : Endpoint) (pid : Int) : ∃ s',
    Semaphore.awaitIncrease { s with sempid := pid } true ⟨who, -o.semOp⟩ = some (.waits s') ∧ Acts o who s [o] [] s' := by
  obtain ⟨n, hpush, hholds⟩ := h.nlist.push (by rw [← h.nlist.count]; exact hroom.2) ⟨who, -o.semOp⟩
  refine ⟨{ s with sempid := pid, nlist := n }, by simp [Semaphore.awaitIncrease, hpush], ?_, fun id => ?_, .inl rfl,
    eq_emod_ushort h.semval⟩
  · refine .of_holds h.zlist hholds (fun w hw => ?_) h.semval
    rcases mem_append.mp hw with hw | hw
    · exact h.pos w hw
    · obtain rfl := mem_singleton.mp hw
      show 0 < -o.semOp
      omega
  · rw [Semaphore.queue_eq (s := { s with sempid := pid, nlist := n }) h.zlist hholds, Semaphore.queue_eq h.zlist h.nlist,
      map_append, ← append_assoc]
    have hentry : [(⟨who, -o.semOp⟩ : Waiting)].map (Semaphore.increaseEntry id o.semNum) = [o].map (Sembuf.entry who id) := by
      simp [Semaphore.increaseEntry, Sembuf.entry]
    rw [hentry]

/-- The caller has no permission. -/
theorem turn_refused (hturn : (alter || o.semOp = 0) = false) (alloc : Bool) :
    o.turn c alter alloc s = some (.refused { s with sempid := c.pid }) := by
  obtain ⟨rfl, hop⟩ : alter = false ∧ o.semOp ≠ 0 := by simpa using hturn
  unfold Sembuf.turn
  by_cases hpos : 0 < o.semOp
  · simp [hpos]
  · simp [hpos, hop]

/-- The operation is possible. -/
theorem turn_done (h : s.Listed) (hturn : (alter || o.semOp = 0) = true) (hpossible : o.possible s.semval = true) (alloc : Bool) :
    ∃ s', o.turn c alter alloc s = some (.done s') ∧ Acts o c.who s [] [o] s' := by
  unfold Sembuf.turn
  rw [Sembuf.possible_iff] at hpossible
  by_cases hop : o.semOp = 0
  · rw [if_pos hop] at hpossible
    refine ⟨{ s with sempid := c.pid }, by simp [hop, hpossible], ?_⟩
    obtain ⟨hlisted, hqueue, -, hvalue⟩ := acts_nothing (o := o) h c.who c.pid
    exact ⟨hlisted, hqueue, .inr rfl, by simpa [hop] using hvalue⟩
  · rw [if_neg hop] at hpossible
    have halter : alter = true := by simpa [hop] using hturn
    have hle : -o.semOp ≤ (s.semval : Int) := by omega
    refine ⟨_, ?_, acts_add h c.who c.pid⟩
    by_cases hpos : 0 < o.semOp
    · simp [hpos, halter]
    · simp [hpos, hop, halter, hle]

/-- The operation has to wait. -/
theorem turn_waits (h : s.Listed) (hroom : s.Room) (hturn : (alter || o.semOp = 0) = true)
    (hpossible : o.possible s.semval = false) : ∃ s', o.turn c alter true s = some (.waits s') ∧ Acts o c.who s [o] [] s' := by
  unfold Sembuf.turn
  rw [Bool.eq_false_iff, ne_eq, Sembuf.possible_iff] at hpossible
  by_cases hop : o.semOp = 0
  · rw [if_pos hop] at hpossible
    obtain ⟨s', hawait, hacts⟩ := acts_awaitZero h hroom hop
    refine ⟨s', ?_, hacts⟩
    rw [if_neg (by omega), if_pos hop]
    rw [if_pos hpossible]
    exact hawait
  · rw [if_neg hop] at hpossible
    have halter : alter = true := by simpa [hop] using hturn
    obtain ⟨s', hawait, hacts⟩ := acts_awaitIncrease h hroom (show o.semOp < 0 by omega) c.who c.pid
    refine ⟨s', ?_, hacts⟩
    rw [if_neg (by omega), if_neg hop, if_neg (by simp [halter])]
    rw [if_neg (by simp only []; omega)]
    exact hawait

variable {alloc : Nat → Bool}

/-- The loop of `do_semop`, when the lists can be extended. -/
theorem semopLoop_spec (id : Int) {ops : List Sembuf} (noReply : Nat) (hlisted : ∀ s ∈ sems, s.Listed)
    (hin : ∀ o ∈ ops, o.semNum < sems.length) (hnodup : (ops.map (·.semNum)).Nodup)
    (hroom : ∀ o ∈ ops, (sems[o.semNum]?.getD .clear).Room) (halloc : ∀ o ∈ queued alter sems ops, alloc o.semNum = true) :
    ∃ sems', semopLoop c alter alloc ops sems noReply =
        some (if reached alter ops = ops then .ok else .eacces, sems', noReply + (queued alter sems ops).length) ∧
      Looped id c.who sems (queued alter sems ops) (performed alter sems ops) sems' := by
  induction ops generalizing sems noReply with
  | nil => exact ⟨sems, rfl, .refl hlisted⟩
  | cons o rest ih =>
    obtain ⟨hfresh, hnodup⟩ := nodup_cons.mp hnodup
    have ho : o.semNum < sems.length := hin o (by simp)
    have hx : sems[o.semNum]?.getD .clear = sems[o.semNum] := by rw [getElem?_eq_getElem ho, Option.getD_some]
    have hs := hlisted _ (getElem_mem ho)
    have hr := hroom o (by simp)
    rw [hx] at hr
    rw [semopLoop, hx]
    cases hturn : (alter || o.semOp = 0) with
    | false =>
      have hnil : reached alter (o :: rest) = [] := by
        simp only [reached, takeWhile_cons, hturn, Bool.false_eq_true, if_false]
      rw [turn_refused hturn]
      simp only [queued, performed, hnil, filter_nil, length_nil, Nat.add_zero]
      obtain ⟨h1, h2, h3, h4⟩ := acts_nothing (o := o) hs c.who c.pid
      exact ⟨_, rfl, looped_set hlisted ho h1 (h2 id) h3 h4⟩
    | true =>
      -- The later operations are on other semaphores.
      have hsame : ∀ s : Semaphore, ∀ o' ∈ rest, (sems.set o.semNum s)[o'.semNum]? = sems[o'.semNum]? := fun s o' ho' =>
        getElem?_set_ne fun heq => hfresh (mem_map.mpr ⟨o', ho', heq.symm⟩)
      have hmeet : ∀ (s : Semaphore), ∀ o' ∈ reached alter rest, o'.possible (valueAt (sems.set o.semNum s) o'.semNum) =
          o'.possible (valueAt sems o'.semNum) := fun s o' ho' => by
        rw [valueAt, valueAt, hsame s o' ((takeWhile_sublist _).mem ho')]
      have hqueued : ∀ s, queued alter (sems.set o.semNum s) rest = queued alter sems rest := fun s =>
        filter_congr fun o' ho' => by rw [hmeet s o' ho']
      have hperformed : ∀ s, performed alter (sems.set o.semNum s) rest = performed alter sems rest := fun s =>
        filter_congr fun o' ho' => by rw [hmeet s o' ho']
      have hreached : reached alter (o :: rest) = o :: reached alter rest := by
        simp only [reached, takeWhile_cons, hturn, if_true]
      -- The rest of the loop.
      have hgo : ∀ (s : Semaphore) (waits done : List Sembuf), queued alter sems (o :: rest) = waits ++ queued alter sems rest →
          performed alter sems (o :: rest) = done ++ performed alter sems rest → Acts o c.who sems[o.semNum] waits done s →
          ∃ sems', semopLoop c alter alloc rest (sems.set o.semNum s) (noReply + waits.length) =
              some (if reached alter (o :: rest) = o :: rest then .ok else .eacces, sems',
                noReply + (queued alter sems (o :: rest)).length) ∧
            Looped id c.who sems (queued alter sems (o :: rest)) (performed alter sems (o :: rest)) sems' := by
        intro s waits done hq hp hacts
        have hloop : Looped id c.who sems waits done (sems.set o.semNum s) :=
          looped_set hlisted ho hacts.listed (hacts.queue id) hacts.either hacts.value
        obtain ⟨sems', heq, hrest⟩ := ih (noReply + waits.length) hloop.listed
          (fun o' ho' => by rw [length_set]; exact hin o' (mem_cons_of_mem _ ho')) hnodup
          (fun o' ho' => by rw [hsame s o' ho']; exact hroom o' (mem_cons_of_mem _ ho'))
          (fun o' ho' => by
            rw [hqueued] at ho'
            exact halloc o' (by rw [hq]; exact mem_append_right _ ho'))
        rw [hqueued, hperformed] at hrest
        refine ⟨sems', ?_, hq ▸ hp ▸ hloop.trans hrest⟩
        rw [heq, hqueued, hq, hreached]
        simp [Nat.add_assoc]
      cases hpossible : o.possible sems[o.semNum].semval with
      | true =>
        obtain ⟨s, hdone, hacts⟩ := turn_done (c := c) hs hturn hpossible (alloc o.semNum)
        rw [hdone]
        refine hgo s [] [o] ?_ ?_ hacts
        · simp only [queued, hreached, filter_cons, valueAt_eq ho, hpossible]
          simp
        · simp only [performed, hreached, filter_cons, valueAt_eq ho, hpossible]
          simp
      | false =>
        have hq : queued alter sems (o :: rest) = [o] ++ queued alter sems rest := by
          simp only [queued, hreached, filter_cons, valueAt_eq ho, hpossible]
          simp
        obtain ⟨s, hwaits, hacts⟩ := turn_waits (c := c) hs hr hturn hpossible
        rw [halloc o (by rw [hq]; simp), hwaits]
        refine hgo s [o] [] hq ?_ hacts
        simp only [performed, hreached, filter_cons, valueAt_eq ho, hpossible]
        simp

end Spec

/-! ## `do_semop` -/

namespace State

variable {s s' : State} {id : Int} {i : Nat} {sem : SemStruct}

theorem semAt_eq_some (h : s.semAt id = some (i, sem)) : s.semList[i]? = some sem ∧ sem.id = id := by
  simp only [semAt, semFindId, Option.bind_eq_some_iff, Option.map_eq_some_iff, Prod.mk.injEq] at h
  obtain ⟨j, hj, x, hx, rfl, rfl⟩ := h
  obtain ⟨hlt, hid, -⟩ := findIdx?_eq_some_iff_getElem.mp hj
  rw [getElem?_eq_getElem hlt] at hx
  obtain rfl := Option.some.inj hx
  exact ⟨getElem?_eq_getElem hlt, by simpa using hid⟩

theorem Sound.value_eq (hs : s.Sound) (hi : s.semList[i]? = some sem) (num : Nat) : s.value sem.id num = valueAt sem.sems num :=
  valueOf_of_mem hs.ids (mem_of_getElem? hi)

/-- A table with another set in the place of one with the same identifier. -/
theorem Sound.setSet (hs : s.Sound) (hi : s.semList[i]? = some sem) (sem' : SemStruct) (hid : sem'.id = sem.id) (hlisted : sem'.Listed) :
    (s.setSet i sem').Sound ∧
      (∃ rest, s.queue.Perm (sem.queue ++ rest) ∧ (s.setSet i sem').queue.Perm (sem'.queue ++ rest)) ∧
      ∀ id num, (s.setSet i sem').value id num = if id = sem.id then valueAt sem'.sems num else s.value id num := by
  obtain ⟨hlt, rfl⟩ := List.getElem?_eq_some_iff.mp hi
  have hmap : (s.semList.set i sem').map (·.id) = s.semList.map (·.id) := by
    refine ext_getElem? fun n => ?_
    rw [map_set, getElem?_set, hid]
    by_cases hn : i = n
    · subst hn
      simp [hlt]
    · simp [hn]
  have hmem : ∀ x ∈ s.semList.set i sem', x ∈ s.semList ∨ x = sem' := fun x hx => mem_or_eq_of_mem_set hx
  have hsound : (s.setSet i sem').Sound := by
    refine ⟨fun x hx => ?_, ?_, fun x hx => ?_⟩
    · rcases hmem x hx with hx | rfl
      · exact hs.listed x hx
      · exact hlisted
    · show ((s.semList.set i sem').map (·.id)).Nodup
      rw [hmap]
      exact hs.ids
    · rcases hmem x hx with hx | rfl
      · exact hs.given x hx
      · rw [hid]
        exact hs.given _ (getElem_mem hlt)
  have hperm : s.semList.Perm (s.semList[i] :: s.semList.eraseIdx i) := (getElem_cons_eraseIdx_perm hlt).symm
  have hperm' : (s.semList.set i sem').Perm (sem' :: s.semList.eraseIdx i) := set_perm_cons_eraseIdx hlt sem'
  refine ⟨hsound, ⟨(s.semList.eraseIdx i).flatMap SemStruct.queue, ?_, ?_⟩, fun id num => ?_⟩
  · exact hperm.flatMap_right SemStruct.queue
  · exact hperm'.flatMap_right SemStruct.queue
  show valueOf (s.semList.set i sem') id num = if id = s.semList[i].id then _ else valueOf s.semList id num
  by_cases heq : id = s.semList[i].id
  · rw [if_pos heq, heq, ← hid]
    exact valueOf_of_mem hsound.ids (hperm'.mem_iff.mpr (by simp))
  rw [if_neg heq]
  by_cases hin : id ∈ s.semList.map (·.id)
  · obtain ⟨x, hx, rfl⟩ := mem_map.mp hin
    have hrest : x ∈ s.semList.eraseIdx i := by
      rcases mem_cons.mp (hperm.mem_iff.mp hx) with rfl | hx
      · exact absurd rfl heq
      · exact hx
    rw [valueOf_of_mem hs.ids hx]
    exact valueOf_of_mem hsound.ids (hperm'.mem_iff.mpr (mem_cons_of_mem _ hrest))
  · rw [valueOf_of_not_mem hin, valueOf_of_not_mem (by rw [hmap]; exact hin)]

/-- The operations of a request that put the caller into a list. -/
def semopWaits (s : State) (c : Caller) (id : Int) (a : SemopArgs) : List Sembuf :=
  match s.semopSet c id a with
  | .error _ => []
  | .ok (_, sem) => queued (checkPerm sem.semPerm c 0o222) sem.sems a.ops

/-- The operations of a request that are done at once. -/
def semopDone (s : State) (c : Caller) (id : Int) (a : SemopArgs) : List Sembuf :=
  match s.semopSet c id a with
  | .error _ => []
  | .ok (_, sem) => performed (checkPerm sem.semPerm c 0o222) sem.sems a.ops

/-- The turn of an operation comes that the caller has no permission for. -/
def semopRefused (s : State) (c : Caller) (id : Int) (a : SemopArgs) : Bool :=
  match s.semopSet c id a with
  | .error _ => false
  | .ok (_, sem) => reached (checkPerm sem.semPerm c 0o222) a.ops ≠ a.ops

/-- The reply to the caller, if there is one. -/
def semopReply (s : State) (c : Caller) (id : Int) (a : SemopArgs) : Option Status :=
  match s.semopSet c id a with
  | .error r => some r
  | .ok _ => if s.semopRefused c id a then some .eacces else if s.semopWaits c id a = [] then some .ok else none

theorem semopSet_eq_ok (h : s.semopSet c id a = .ok (i, sem)) :
    s.semAt id = some (i, sem) ∧ (∀ o ∈ a.ops, o.semNum < sem.sems.length) ∧ (a.ops.map (·.semNum)).Nodup := by
  unfold semopSet at h
  split at h
  · contradiction
  rename_i sem' hat
  split_ifs at h
  split at h
  case h_2 => contradiction
  rename_i htest
  obtain ⟨rfl, rfl⟩ := Prod.mk.inj (Except.ok.inj h)
  unfold SemStruct.semopTest at htest
  by_cases hin : ∃ o ∈ a.ops, sem'.sems.length ≤ o.semNum
  · rw [if_pos hin] at htest
    simp at htest
  rw [if_neg hin] at htest
  by_cases hnodup : (a.ops.map (·.semNum)).Nodup
  · refine ⟨hat, fun o ho => ?_, hnodup⟩
    by_contra hle
    exact hin ⟨o, ho, by omega⟩
  · rw [if_pos hnodup] at htest
    simp at htest

/-- The tests before the loop never end with success. -/
theorem semopSet_eq_error {r : Status} (h : s.semopSet c id a = .error r) : r ≠ .ok := by
  unfold semopSet at h
  split at h
  · obtain rfl := Except.error.inj h
    simp
  split_ifs at h
  all_goals try
    obtain rfl := Except.error.inj h
    simp
  split at h
  · contradiction
  · rename_i hne
    obtain rfl := Except.error.inj h
    exact fun heq => hne heq

theorem count_le_queue {x : Semaphore} (h : x.Listed) (id : Int) (num : Nat) :
    x.zlist.count ≤ (x.queue id num).length ∧ x.nlist.count ≤ (x.queue id num).length := by
  rw [h.zlist.count, h.nlist.count]
  simp only [Semaphore.queue, length_append, length_map]
  omega

theorem Sound.value_lt (hs : s.Sound) (id : Int) (num : Nat) : s.value id num < ushortSize := by
  unfold value
  by_cases hin : id ∈ s.semList.map (·.id)
  · obtain ⟨x, hx, rfl⟩ := mem_map.mp hin
    rw [valueOf_of_mem hs.ids hx]
    exact valueAt_lt (hs.listed x hx) num
  · rw [valueOf_of_not_mem hin]
    decide

theorem Sound.value_fresh (hs : s.Sound) (hid : s.identifier ≤ id) (num : Nat) : s.value id num = 0 := by
  refine valueOf_of_not_mem (fun hin => ?_)
  obtain ⟨sem, hsem, rfl⟩ := mem_map.mp hin
  have hlt := hs.given sem hsem
  omega

/-- The part of `do_semop` before `update_semaphores`. -/
theorem Sound.semop (hs : s.Sound) (hroom : s.queue.length + 1 < ushortSize)
    (halloc : ∀ o ∈ s.semopWaits c id a, a.alloc o.semNum = true) : ∃ s',
      s.semop c id a = some (s', s.semopReply c id a) ∧ s'.Sound ∧
      s'.queue.Perm (s.queue ++ (s.semopWaits c id a).map (Sembuf.entry c.who id)) ∧
      s'.identifier = s.identifier ∧ (∀ id num, Has s'.semList id num → Has s.semList id num) ∧
      ∀ id' num, (s'.value id' num : Int) =
        if id' = id then ((s.value id num : Int) + sumAt (s.semopDone c id a) num) % ushortSize else s.value id' num := by
  unfold State.semop semopReply
  cases hset : s.semopSet c id a with
  | error r =>
    refine ⟨s, rfl, hs, by simp [semopWaits, hset], rfl, fun _ _ h => h, fun id' num => ?_⟩
    split_ifs with heq
    · rw [heq, semopDone, hset]
      exact eq_emod_ushort (hs.value_lt id num)
    · rfl
  | ok found =>
    obtain ⟨i, sem⟩ := found
    obtain ⟨hat, hin, hnodup⟩ := semopSet_eq_ok hset
    obtain ⟨hi, rfl⟩ := semAt_eq_some hat
    have hlisted := hs.listed sem (mem_of_getElem? hi)
    have hwaits : s.semopWaits c sem.id a = queued (checkPerm sem.semPerm c 0o222) sem.sems a.ops := by
      simp only [semopWaits, hset]
    have hdone : s.semopDone c sem.id a = performed (checkPerm sem.semPerm c 0o222) sem.sems a.ops := by
      simp only [semopDone, hset]
    have hrefused : s.semopRefused c sem.id a = decide (reached (checkPerm sem.semPerm c 0o222) a.ops ≠ a.ops) := by
      simp only [semopRefused, hset]
    rw [hwaits] at halloc
    -- No list is longer than the queue.
    obtain ⟨rest, hrest, -⟩ := (hs.setSet hi sem rfl hlisted).2.1
    have hlen := hrest.length_eq
    rw [length_append] at hlen
    have hr : ∀ o ∈ a.ops, (sem.sems[o.semNum]?.getD .clear).Room := by
      intro o ho
      have hlt := hin o ho
      obtain ⟨rest', hone, -⟩ := queueFrom_set sem.id 0 hlt
      have hlen' : sem.queue.length = _ := hone.length_eq
      rw [length_append] at hlen'
      have hcount := count_le_queue (hlisted _ (getElem_mem hlt)) sem.id (0 + o.semNum)
      rw [getElem?_eq_getElem hlt, Option.getD_some]
      exact ⟨by omega, by omega⟩
    obtain ⟨sems', hloop, hlooped⟩ := semopLoop_spec (c := c) sem.id 0 hlisted hin hnodup hr halloc
    obtain ⟨hsound, ⟨rest2, hold, hnew⟩, hvalue⟩ := hs.setSet hi { sem with sems := sems' } rfl hlooped.listed
    refine ⟨s.setSet i { sem with sems := sems' }, ?_, hsound, ?_, rfl, ?_, fun id' num => ?_⟩
    · simp only [hloop, Option.map_some, hrefused, hwaits]
      by_cases hall : reached (checkPerm sem.semPerm c 0o222) a.ops = a.ops
      · simp [hall]
      · simp [hall]
    · rw [hwaits]
      have hwaiting := hlooped.queue
      generalize (queued (checkPerm sem.semPerm c 0o222) sem.sems a.ops).map (Sembuf.entry c.who sem.id) = new at hwaiting ⊢
      calc (s.setSet i { sem with sems := sems' }).queue
          _ |>.Perm (queueFrom sem.id 0 sems' ++ rest2) := hnew
          _ |>.Perm ((sem.queue ++ new) ++ rest2) := hwaiting.append_right rest2
          _ |>.Perm ((sem.queue ++ rest2) ++ new) := by
            rw [append_assoc, append_assoc]
            exact perm_append_comm.append_left _
          _ |>.Perm (s.queue ++ new) := hold.symm.append_right new
    · rintro id' num ⟨x, hx, hxid, hn⟩
      rcases mem_or_eq_of_mem_set hx with hx | rfl
      · exact ⟨x, hx, hxid, hn⟩
      · exact ⟨sem, mem_of_getElem? hi, hxid, hlooped.length ▸ hn⟩
    · rw [hvalue]
      by_cases hid : id' = sem.id
      · rw [if_pos hid, if_pos hid, hlooped.value, hs.value_eq hi, hdone]
      · rw [if_neg hid, if_neg hid]

/-! ## `do_semctl` -/

/-- The outcomes of a control request before `update_semaphores`. -/
inductive Controls (s : State) (id num : Int) : SemctlCmd → Option (Answer × State × List Send × Bool) → Prop
  | same (cmd : SemctlCmd) (answer : Answer) : Controls s id num cmd (some (answer, s, [], false))
  | perm {cmd : SemctlCmd} {i : Nat} {sem : SemStruct} (hat : s.semAt id = some (i, sem)) (answer : Answer) (perm : IpcPerm) :
      Controls s id num cmd (some (answer, s.setSet i { sem with semPerm := perm }, [], false))
  | removed {i : Nat} {sem : SemStruct} (hat : s.semAt id = some (i, sem)) (answer : Answer) :
      Controls s id num .ipcRmid (sem.dismiss.map fun sent => (answer, s.removeSemaphore i, sent, false))
  | all {memory copied : Bool} {buf : Nat → Nat} {i : Nat} {sem : SemStruct} (hat : s.semAt id = some (i, sem)) (answer : Answer) :
      Controls s id num (.setall memory copied buf)
        (some (answer, s.setSet i { sem with sems := (storeAll buf 0 sem.sems).1 }, [], true))
  | val {val : Int} {i : Nat} {sem : SemStruct} {x : Semaphore} (hat : s.semAt id = some (i, sem)) (answer : Answer)
      (hx : sem.sems[num.toNat]? = some x) (hval : 0 ≤ val ∧ val ≤ semvmx) :
      Controls s id num (.setval val)
        (some (answer, s.setSet i { sem with sems := sem.sems.set num.toNat { x with semval := val.toNat } }, [], true))

theorem semctl_controls (s : State) (c : Caller) (id num : Int) (cmd : SemctlCmd) :
    Controls s id num cmd (s.semctl c id num cmd) := by
  unfold semctl
  cases hat : s.semAt id with
  | none => exact .same cmd _
  | some found =>
    obtain ⟨i, sem⟩ := found
    cases cmd with
    | ipcSet ds =>
      simp only []
      split
      · exact .same _ _
      · cases ds with
        | none => exact .same _ _
        | some ds => exact .perm hat _ _
    | ipcRmid =>
      simp only []
      split
      · exact .same _ _
      · exact .removed hat _
    | setall memory copied buf =>
      simp only []
      split
      · exact .same _ _
      · split
        · exact .same _ _
        · split
          · exact .same _ _
          · exact .all hat _
    | setval val =>
      simp only []
      split
      · exact .same _ _
      split
      · exact .same _ _
      split
      · exact .same _ _
      cases hx : sem.sems[num.toNat]? with
      | none => exact .same _ _
      | some x =>
        simp only []
        split
        · exact .same _ _
        · exact .val hat _ hx (by omega)
    | ipcStat ds copied =>
      simp only []
      split_ifs <;> exact .same _ _
    | getall memory copied =>
      simp only []
      split_ifs <;> exact .same _ _
    | _ =>
      simp only []
      split <;> exact .same _ _

end State

/-- The values that a command gives to the semaphores of a set: `SETVAL`, and `SETALL` up to the
first value that is too large. -/
def SemctlCmd.stores (cmd : SemctlCmd) (num : Int) (n : Nat) : Option Nat :=
  match cmd with
  | .setval val => if n = num.toNat then some val.toNat else none
  | .setall _ _ buf => if ∀ i ≤ n, buf i ≤ semvmx then some (buf n) else none
  | _ => none

theorem storeAll_length {buf : Nat → Nat} {k : Nat} {sems : List Semaphore} : (storeAll buf k sems).1.length = sems.length := by
  induction sems generalizing k with
  | nil => rfl
  | cons x sems ih =>
    rw [storeAll]
    split
    · rfl
    · simp [ih]

theorem storeAll_spec (buf : Nat → Nat) (k : Nat) (h : ∀ x ∈ sems, x.Listed) :
    (∀ x ∈ (storeAll buf k sems).1, x.Listed) ∧ (∀ id n, queueFrom id n (storeAll buf k sems).1 = queueFrom id n sems) ∧
      ∀ n, valueAt (storeAll buf k sems).1 n =
        if n < sems.length ∧ ∀ i ≤ n, buf (k + i) ≤ semvmx then buf (k + n) else valueAt sems n := by
  induction sems generalizing k with
  | nil => exact ⟨by simp [storeAll], fun _ _ => rfl, fun n => by simp [storeAll]⟩
  | cons x sems ih =>
    obtain ⟨hx, hsems⟩ := forall_mem_cons.mp h
    obtain ⟨hlisted, hqueue, hvalue⟩ := ih (k + 1) hsems
    rw [storeAll]
    by_cases hbig : semvmx < buf k
    · rw [if_pos hbig]
      refine ⟨h, fun _ _ => rfl, fun n => ?_⟩
      rw [if_neg]
      rintro ⟨-, hall⟩
      have hzero := hall 0 (by omega)
      rw [Nat.add_zero] at hzero
      omega
    · rw [if_neg hbig]
      have hsmall : buf k < ushortSize := by
        unfold semvmx at hbig
        unfold ushortSize
        omega
      refine ⟨?_, fun id n => ?_, fun n => ?_⟩
      · intro y hy
        rcases mem_cons.mp hy with rfl | hy
        · exact listed_of_lists hx rfl rfl hsmall
        · exact hlisted y hy
      · rw [queueFrom, queueFrom, hqueue, queue_of_lists (s := x) { x with semval := buf k } rfl rfl]
      cases n with
      | zero =>
        have hle : ∀ i ≤ 0, buf (k + i) ≤ semvmx := by
          intro i hi
          obtain rfl : i = 0 := by omega
          rw [Nat.add_zero]
          omega
        rw [valueAt_cons_zero, if_pos ⟨by simp, hle⟩, Nat.add_zero]
      | succ n =>
        have hiff : (n < sems.length ∧ ∀ i ≤ n, buf (k + 1 + i) ≤ semvmx) ↔
            (n + 1 < (x :: sems).length ∧ ∀ i ≤ n + 1, buf (k + i) ≤ semvmx) := by
          refine and_congr (by simp) ⟨fun hall i hi => ?_, fun hall i hi => ?_⟩
          · cases i with
            | zero =>
              rw [Nat.add_zero]
              omega
            | succ i =>
              have hle := hall i (by omega)
              rwa [show k + 1 + i = k + (i + 1) by omega] at hle
          · rw [show k + 1 + i = k + (i + 1) by omega]
            exact hall (i + 1) (by omega)
        rw [valueAt_cons_succ, hvalue, valueAt_cons_succ]
        simp only [hiff, show k + 1 + n = k + (n + 1) by omega]

namespace State

/-- What a control request does to the table. -/
structure Controlled (s : State) (id num : Int) (cmd : SemctlCmd) (s' : State) (left : List Entry) (update : Bool) : Prop where
  sound : s'.Sound
  queue : Leaves s.queue left s'.queue
  has : ∀ id num, Has s'.semList id num → Has s.semList id num
  identifier : s'.identifier = s.identifier
  value : ∀ sem ∈ s'.semList, ∀ n < sem.sems.length, s'.value sem.id n =
    if sem.id = id ∧ update then (cmd.stores num n).getD (s.value id n) else s.value sem.id n

variable {s : State} {id num : Int} {cmd : SemctlCmd}

/-- The set of a request gets other permissions or values. -/
theorem Sound.controlled_set (hs : s.Sound) {i : Nat} {sem : SemStruct} (hat : s.semAt id = some (i, sem)) (sem' : SemStruct)
    (hid : sem'.id = sem.id) (hlength : sem'.sems.length = sem.sems.length) (hlisted : sem'.Listed)
    (hqueue : ∀ n, queueFrom id n sem'.sems = queueFrom id n sem.sems)
    (hvalue : ∀ n < sem'.sems.length, valueAt sem'.sems n =
      if update then (cmd.stores num n).getD (valueAt sem.sems n) else valueAt sem.sems n) :
    s.Controlled id num cmd (s.setSet i sem') [] update := by
  obtain ⟨hi, rfl⟩ := semAt_eq_some hat
  obtain ⟨hsound, ⟨rest, hold, hnew⟩, hval⟩ := hs.setSet hi sem' hid hlisted
  have hmem : ∀ x ∈ (s.setSet i sem').semList, x ∈ s.semList ∨ x = sem' := fun x hx => mem_or_eq_of_mem_set hx
  refine ⟨hsound, ?_, ?_, rfl, ?_⟩
  · have hsame : sem'.queue = sem.queue := by
      unfold SemStruct.queue
      rw [hid]
      exact hqueue 0
    rw [hsame] at hnew
    simpa [Leaves] using hold.trans hnew.symm
  · rintro id n ⟨x, hx, hxid, hn⟩
    rcases hmem x hx with hx | rfl
    · exact ⟨x, hx, hxid, hn⟩
    · exact ⟨sem, mem_of_getElem? hi, hid.symm.trans hxid, hlength ▸ hn⟩
  · intro x hx n hn
    rw [hval]
    by_cases heq : x.id = sem.id
    · -- Identifiers are different, so this is the changed set.
      have hx' : x = sem' := by
        have hlast : sem' ∈ (s.setSet i sem').semList := by
          obtain ⟨hlt, -⟩ := List.getElem?_eq_some_iff.mp hi
          exact mem_set hlt sem'
        exact inj_on_of_nodup_map hsound.ids hx hlast (heq.trans hid.symm)
      subst hx'
      rw [if_pos heq, hvalue n hn, ← hs.value_eq hi]
      cases update with
      | true => rw [if_pos rfl, if_pos ⟨heq, rfl⟩]
      | false =>
        rw [if_neg (by simp), if_neg (by simp), heq]
    · rw [if_neg heq, if_neg fun h => heq h.1]

/-- The part of `do_semctl` before `update_semaphores`. -/
theorem Sound.semctl (hs : s.Sound) (c : Caller) (id num : Int) (cmd : SemctlCmd) : ∃ answer s' left update,
    s.semctl c id num cmd = some (answer, s', left.map (Entry.message .eidrm), update) ∧
      s.Controlled id num cmd s' left update := by
  have hcontrols := semctl_controls s c id num cmd
  generalize s.semctl c id num cmd = out at hcontrols
  cases hcontrols with
  | same cmd answer =>
    exact ⟨answer, s, [], false, rfl, hs, .refl _, fun _ _ h => h, rfl, fun sem _ n _ => by simp⟩
  | @perm cmd i sem hat answer perm =>
    have hlisted := hs.listed sem (mem_of_getElem? (semAt_eq_some hat).1)
    exact ⟨answer, _, [], false, rfl, hs.controlled_set hat { sem with semPerm := perm } rfl rfl hlisted (fun _ => rfl) fun n _ => by simp⟩
  | @removed i sem hat answer =>
    obtain ⟨hi, rfl⟩ := semAt_eq_some hat
    obtain ⟨hsound, hleaves, hident, hmem, hvalue⟩ := hs.removeSemaphore hi
    rw [(hs.listed sem (mem_of_getElem? hi)).dismiss]
    refine ⟨answer, _, sem.queue, false, rfl, hsound, hleaves, ?_, hident, fun x hx n _ => ?_⟩
    · rintro id n ⟨x, hx, hid⟩
      exact ⟨x, (hmem x hx).1, hid⟩
    · rw [hvalue, if_neg (hmem x hx).2, if_neg (by simp)]
  | @all memory copied buf i sem hat answer =>
    have hlisted := hs.listed sem (mem_of_getElem? (semAt_eq_some hat).1)
    obtain ⟨hall, hqueue, hvalue⟩ := storeAll_spec buf 0 hlisted
    refine ⟨answer, _, [], true, rfl,
      hs.controlled_set hat { sem with sems := (storeAll buf 0 sem.sems).1 } rfl storeAll_length hall (fun n => hqueue id n)
        fun n hn => ?_⟩
    have hlt : n < sem.sems.length := by rwa [storeAll_length] at hn
    rw [hvalue n, if_pos rfl]
    simp only [SemctlCmd.stores, hlt, true_and, Nat.zero_add]
    split <;> rfl
  | @val val i sem x hat answer hx hval =>
    have hlisted := hs.listed sem (mem_of_getElem? (semAt_eq_some hat).1)
    obtain ⟨hlt, rfl⟩ := List.getElem?_eq_some_iff.mp hx
    have hsmall : val.toNat < ushortSize := by
      unfold semvmx at hval
      unfold ushortSize
      omega
    refine ⟨answer, _, [], true, rfl, hs.controlled_set hat
      { sem with sems := sem.sems.set num.toNat { sem.sems[num.toNat] with semval := val.toNat } } rfl (length_set ..)
      (listed_set hlisted (listed_of_lists (hlisted _ (getElem_mem hlt)) rfl rfl hsmall)) (fun n => ?_) fun n _ => ?_⟩
    · exact queueFrom_set_value id n hlt val.toNat
    · rw [valueAt_set hlt, if_pos rfl]
      simp only [SemctlCmd.stores]
      split <;> rfl

/-! ## `do_semget` and the rest of a request -/

theorem queueFrom_clear (id : Int) (k n : Nat) : queueFrom id k (List.replicate n .clear) = [] := by
  induction n generalizing k with
  | zero => rfl
  | succ n ih =>
    rw [replicate_succ, queueFrom, ih]
    rfl

theorem valueOf_append {l l' : List SemStruct} (h : id ∉ l.map (·.id)) (num : Nat) :
    valueOf (l ++ l') id num = valueOf l' id num := by
  induction l with
  | nil => rfl
  | cons x l ih =>
    simp only [map_cons, mem_cons, not_or] at h
    rw [cons_append, valueOf, if_neg (Ne.symm h.1), ih h.2]

theorem valueOf_append_left {l l' : List SemStruct} (h : id ∈ l.map (·.id)) {num : Nat} :
    valueOf (l ++ l') id num = valueOf l id num := by
  induction l with
  | nil => simp at h
  | cons x l ih =>
    rw [cons_append, valueOf, valueOf]
    split_ifs with hne
    · rfl
    · refine ih ?_
      rcases mem_cons.mp h with heq | h
      · exact absurd heq.symm hne
      · exact h

/-- A new set has nobody in its lists, and its values are zero. -/
theorem Sound.doSemget (hs : s.Sound) (c : Caller) (key nsems : Int) (flag : Nat) :
    (s.doSemget c key nsems flag).2.2.Sound ∧ (s.doSemget c key nsems flag).2.2.queue = s.queue ∧
      s.identifier ≤ (s.doSemget c key nsems flag).2.2.identifier ∧
      (∀ id num, Has (s.doSemget c key nsems flag).2.2.semList id num → Has s.semList id num ∨ s.identifier ≤ id) ∧
      ∀ id num, (s.doSemget c key nsems flag).2.2.value id num = s.value id num := by
  have hsame : s.Sound ∧ s.queue = s.queue ∧ s.identifier ≤ s.identifier ∧
      (∀ id num, Has s.semList id num → Has s.semList id num ∨ s.identifier ≤ id) ∧ ∀ id num, s.value id num = s.value id num :=
    ⟨hs, rfl, Int.le_refl _, fun _ _ h => .inl h, fun _ _ => rfl⟩
  unfold State.doSemget
  split
  · split_ifs <;> exact hsame
  split_ifs
  · exact hsame
  · exact hsame
  · exact hsame
  have hnew : s.identifier ∉ s.semList.map (·.id) := by
    intro hin
    obtain ⟨sem, hsem, heq⟩ := mem_map.mp hin
    have hlt := hs.given sem hsem
    omega
  refine ⟨⟨?_, ?_, ?_⟩, ?_, ?_, ?_, fun id num => ?_⟩
  · intro sem hsem
    rcases mem_append.mp hsem with hsem | hsem
    · exact hs.listed sem hsem
    · obtain rfl := mem_singleton.mp hsem
      intro x hx
      obtain rfl := eq_of_mem_replicate hx
      exact .of_holds CountedArray.holds_empty CountedArray.holds_empty (by simp) (by decide)
  · rw [map_append, nodup_append]
    refine ⟨hs.ids, by simp, fun x hx y hy heq => ?_⟩
    obtain rfl : y = s.identifier := by simpa [newSet] using hy
    exact hnew (heq ▸ hx)
  · intro sem hsem
    rcases mem_append.mp hsem with hsem | hsem
    · have hlt := hs.given sem hsem
      show sem.id < s.identifier + 1
      omega
    · obtain rfl := mem_singleton.mp hsem
      show s.identifier < s.identifier + 1
      omega
  · simp [queue, SemStruct.queue, newSet, queueFrom_clear]
  · show s.identifier ≤ s.identifier + 1
    omega
  · rintro id num ⟨sem, hsem, hid, hnum⟩
    rcases mem_append.mp hsem with hsem | hsem
    · exact .inl ⟨sem, hsem, hid, hnum⟩
    · obtain rfl := mem_singleton.mp hsem
      exact .inr (Int.le_of_eq hid)
  · show valueOf (s.semList ++ [newSet c key nsems.toNat flag s.identifier]) id num = valueOf s.semList id num
    by_cases hin : id ∈ s.semList.map (·.id)
    · exact valueOf_append_left hin
    · rw [valueOf_append hin, valueOf_of_not_mem hin, valueOf]
      split
      · rw [newSet, valueAt, getElem?_replicate]
        split <;> rfl
      · rfl

/-- `update_semaphores`, where it is called. -/
theorem Sound.afterwards {s' : State} (hs : s.Sound) {sent : List Send} (h : s.afterwards update = some (s', sent)) :
    ∃ left, sent = left.map (Entry.message .ok) ∧ s.Drops .ok left s' := by
  cases update with
  | true => exact hs.updateSemaphores h
  | false =>
    obtain ⟨rfl, rfl⟩ := Prod.mk.inj (Option.some.inj h)
    exact ⟨[], rfl, hs.drops_refl⟩

theorem Sound.afterwards_isSome (hs : s.Sound) (h : update = true → s.Settled) : (s.afterwards update).isSome := by
  cases update with
  | true => exact hs.updateSemaphores_isSome (h rfl)
  | false => rfl

end State

end Minix.IpcServer
