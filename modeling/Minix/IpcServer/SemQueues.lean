/-
  IpcServer/SemQueues.lean --- what the functions of `sem.c` do to the waiting lists.

  All entries of all lists together are the queue of the server.  A function that sends
  messages takes as many entries off the queue as it sends messages, and the messages go to
  the processes of these entries.
-/
import Mathlib.Data.List.Find
import Mathlib.Data.List.Perm.Basic
import Minix.IpcServer.Sem

set_option autoImplicit false

namespace Minix.IpcServer

open Minix.Foundation List Option State

variable {s : Semaphore} {l : List Waiting} {sent : List Send} {type : Status} {id : Int} {k : Nat}
  {sem : SemStruct}

/-- A process in a list: the set and the semaphore, and the operation it waits for. -/
structure Entry where
  who : Endpoint
  id : Int
  num : Nat
  op : Int
deriving DecidableEq, Repr

variable {left more : List Entry}

/-- The message to the process of an entry. -/
def Entry.message (type : Status) (e : Entry) : Send := ⟨e.who, type⟩

namespace Semaphore

/-- The processes in `zlist`. -/
def zeros (s : Semaphore) : List Waiting := (s.zlist.read 0 s.zlist.count).getD []

/-- The processes in `nlist`. -/
def increases (s : Semaphore) : List Waiting := (s.nlist.read 0 s.nlist.count).getD []

/-- The lists of a semaphore are as long as their counts say. -/
structure Listed (s : Semaphore) : Prop where
  zlist : s.zlist.Holds s.zeros
  nlist : s.nlist.Holds s.increases
  pos : ∀ w ∈ s.increases, 0 < w.val
  semval : s.semval < ushortSize

theorem zeros_eq (h : s.zlist.Holds l) : s.zeros = l := by
  rw [zeros, h.read, getD_some]

theorem increases_eq (h : s.nlist.Holds l) : s.increases = l := by
  rw [increases, h.read, getD_some]

theorem Listed.of_holds {z n : List Waiting} (hz : s.zlist.Holds z) (hn : s.nlist.Holds n)
    (hpos : ∀ w ∈ n, 0 < w.val) (hval : s.semval < ushortSize) : s.Listed :=
  ⟨(zeros_eq hz).symm ▸ hz, (increases_eq hn).symm ▸ hn, (increases_eq hn).symm ▸ hpos, hval⟩

/-- The entry of a process that waits for zero. -/
def zeroEntry (id : Int) (num : Nat) (w : Waiting) : Entry := ⟨w.who, id, num, 0⟩

/-- The entry of a process that waits for an increase. -/
def increaseEntry (id : Int) (num : Nat) (w : Waiting) : Entry := ⟨w.who, id, num, -w.val⟩

/-- The entries of a semaphore. -/
def queue (s : Semaphore) (id : Int) (num : Nat) : List Entry :=
  s.zeros.map (zeroEntry id num) ++ s.increases.map (increaseEntry id num)

end Semaphore

/-- The entries of the semaphores from number `k` on. -/
def queueFrom (id : Int) : Nat → List Semaphore → List Entry
  | _, [] => []
  | k, s :: sems => s.queue id k ++ queueFrom id (k + 1) sems

/-- The entries of a set. -/
def SemStruct.queue (sem : SemStruct) : List Entry := queueFrom sem.id 0 sem.sems

/-- The entries of all sets. -/
def State.queue (s : State) : List Entry := s.semList.flatMap SemStruct.queue

/-- All lists are as long as their counts say. -/
def SemStruct.Listed (sem : SemStruct) : Prop := ∀ s ∈ sem.sems, s.Listed

def State.Listed (s : State) : Prop := ∀ sem ∈ s.semList, sem.Listed

/-- Entries go off a queue. -/
def Leaves (queue : List Entry) (left : List Entry) (queue' : List Entry) : Prop := queue.Perm (queue' ++ left)

theorem Leaves.refl (queue : List Entry) : Leaves queue [] queue := by simp [Leaves]

/-- Two parts of the queue at once. -/
theorem Leaves.append {q q' r r' : List Entry} (h : Leaves q left q') (h' : Leaves r more r') :
    Leaves (q ++ r) (left ++ more) (q' ++ r') := by
  unfold Leaves at h h' ⊢
  calc q ++ r
      _ |>.Perm ((q' ++ left) ++ (r' ++ more)) := h.append h'
      _ |>.Perm ((q' ++ r') ++ (left ++ more)) := by
        rw [append_assoc, append_assoc]
        exact Perm.append_left q' (perm_append_comm_assoc left r' more)

/-- One after the other. -/
theorem Leaves.trans {q q' q'' : List Entry} (h : Leaves q left q') (h' : Leaves q' more q'') :
    Leaves q (left ++ more) q'' := by
  calc q
      _ |>.Perm (q' ++ left) := h
      _ |>.Perm ((q'' ++ more) ++ left) := h'.append_right left
      _ |>.Perm (q'' ++ (left ++ more)) := by
        rw [append_assoc]
        exact Perm.append_left q'' perm_append_comm

/-! ## Sweeps -/

section Sweeps

variable {α : Type} {f : α → Option (α × List Send)}

/-- A change of one entry of a table, with its index, made along the table. -/
inductive Sweeps (R : Nat → α → List Entry → α → Prop) : Nat → List α → List Entry → List α → Prop
  | nil (k : Nat) : Sweeps R k [] [] []
  | cons {k : Nat} {x x' : α} {left more : List Entry} {l l' : List α} (hx : R k x left x') (hl : Sweeps R (k + 1) l more l') :
      Sweeps R k (x :: l) (left ++ more) (x' :: l')

theorem sweep_sweeps (type : Status) {R : Nat → α → List Entry → α → Prop} {l l' : List α} (k : Nat)
    (h : ∀ x ∈ l, ∀ k x' sent, f x = some (x', sent) → ∃ left, sent = left.map (Entry.message type) ∧ R k x left x')
    (heq : sweep f l = some (l', sent)) : ∃ left, sent = left.map (Entry.message type) ∧ Sweeps R k l left l' := by
  induction l generalizing k l' sent with
  | nil =>
    obtain ⟨rfl, rfl⟩ := heq
    exact ⟨[], rfl, .nil k⟩
  | cons x l ih =>
    simp only [sweep, bind_eq_some_iff, map_eq_some_iff, Prod.exists] at heq
    obtain ⟨x', sent1, hx, l1, sent2, hl, heq⟩ := heq
    obtain ⟨rfl, rfl⟩ := Prod.mk.inj heq
    obtain ⟨left, rfl, hR⟩ := h x (by simp) k x' sent1 hx
    obtain ⟨more, rfl, hmore⟩ := ih (k + 1) (fun y hy => h y (mem_cons_of_mem _ hy)) hl
    exact ⟨left ++ more, by simp, .cons hR hmore⟩

theorem sweep_isSome {l : List α} (h : ∀ x ∈ l, (f x).isSome) : (sweep f l).isSome := by
  induction l with
  | nil => rfl
  | cons x l ih =>
    obtain ⟨⟨x', sent⟩, hx⟩ := isSome_iff_exists.mp (h x (by simp))
    obtain ⟨⟨l', more⟩, hl⟩ := isSome_iff_exists.mp (ih fun y hy => h y (mem_cons_of_mem _ hy))
    simp [sweep, hx, hl]

end Sweeps

/-! ## What a change takes off and what it adds up to -/

namespace Entry

/-- The operation can be done on this value. -/
def Enabled (e : Entry) (val : Nat) : Prop := if e.op = 0 then val = 0 else -e.op ≤ (val : Int)

instance (e : Entry) (val : Nat) : Decidable (e.Enabled val) := inferInstanceAs (Decidable (ite _ _ _))

/-- The semaphore of an entry. -/
def place (e : Entry) : Int × Nat := (e.id, e.num)

/-- What the entries add to a semaphore when their processes are told that they are done. -/
def total (type : Status) (left : List Entry) (id : Int) (num : Nat) : Int :=
  if type = .ok then ((left.filter fun e => e.place = (id, num)).map (·.op)).sum else 0

variable {type : Status} {left more : List Entry} {id : Int} {num : Nat}

@[simp]
theorem total_nil : total type [] id num = 0 := by simp [total]

theorem total_append : total type (left ++ more) id num = total type left id num + total type more id num := by
  unfold total
  split
  · simp
  · rfl

theorem total_eq_zero (left : List Entry) (h : ∀ e ∈ left, e.place ≠ (id, num)) : total type left id num = 0 := by
  have hnone : left.filter (fun e => decide (e.place = (id, num))) = [] := by
    rw [filter_eq_nil_iff]
    intro e he
    simpa using h e he
  simp [total, hnone]

end Entry

open Entry (Enabled total total_append total_eq_zero)

/-- A change of a semaphore that takes entries off its lists. -/
structure Semaphore.Drops (type : Status) (id : Int) (num : Nat) (s : Semaphore) (left : List Entry) (s' : Semaphore) : Prop where
  listed : s'.Listed
  queue : Leaves (s.queue id num) left (s'.queue id num)
  place : ∀ e ∈ left, e.place = (id, num)
  value : (s'.semval : Int) = s.semval + total type left id num
  enabled : type = .ok → left.length ≤ 1 ∧ ∀ e ∈ left, e.Enabled s.semval

/-- The same for the semaphores of a set from number `k` on. -/
structure DropsFrom (type : Status) (id : Int) (k : Nat) (sems : List Semaphore) (left : List Entry) (sems' : List Semaphore) :
    Prop where
  listed : ∀ s ∈ sems', s.Listed
  length : sems'.length = sems.length
  queue : Leaves (queueFrom id k sems) left (queueFrom id k sems')
  place : ∀ e ∈ left, e.id = id ∧ k ≤ e.num ∧ e.num < k + sems.length
  value : ∀ j, (valueAt sems' j : Int) = valueAt sems j + total type left id (k + j)
  enabled : type = .ok → (left.map Entry.place).Nodup ∧ ∀ e ∈ left, e.Enabled (valueAt sems (e.num - k))

theorem valueAt_cons_zero (s : Semaphore) (sems : List Semaphore) : valueAt (s :: sems) 0 = s.semval := rfl

theorem valueAt_cons_succ (s : Semaphore) (sems : List Semaphore) (j : Nat) : valueAt (s :: sems) (j + 1) = valueAt sems j := by
  simp [valueAt]

/-- Lists of places at two ends of a table have nothing in common. -/
theorem nodup_places (hl : (left.map Entry.place).Nodup) (hm : (more.map Entry.place).Nodup)
    (hdis : ∀ e ∈ left, ∀ e' ∈ more, e.place ≠ e'.place) : ((left ++ more).map Entry.place).Nodup := by
  rw [map_append, nodup_append]
  refine ⟨hl, hm, fun a ha b hb => ?_⟩
  obtain ⟨e, he, rfl⟩ := mem_map.mp ha
  obtain ⟨e', he', rfl⟩ := mem_map.mp hb
  exact hdis e he e' he'

/-- Semaphores of a set, one after the other. -/
theorem Sweeps.drops {sems sems' : List Semaphore}
    (h : Sweeps (Semaphore.Drops type id) k sems left sems') : DropsFrom type id k sems left sems' := by
  induction h with
  | nil k => exact ⟨by simp, rfl, .refl _, by simp, by simp, by simp⟩
  | @cons k s s' left more sems sems' hx _ ih =>
    have hleft : ∀ e ∈ left, e.id = id ∧ e.num = k := fun e he => Prod.mk.inj (hx.place e he)
    refine ⟨?_, by simp [ih.length], hx.queue.append ih.queue, ?_, ?_, fun hok => ⟨?_, ?_⟩⟩
    · rintro s (_ | ⟨_, hs⟩)
      · exact hx.listed
      · exact ih.listed s hs
    · intro e he
      rcases mem_append.mp he with he | he
      · obtain ⟨hid, hnum⟩ := hleft e he
        exact ⟨hid, by omega, by simp only [length_cons]; omega⟩
      · obtain ⟨hid, hlow, hhigh⟩ := ih.place e he
        exact ⟨hid, by omega, by simp only [length_cons]; omega⟩
    · intro j
      rw [total_append]
      cases j with
      | zero =>
        rw [valueAt_cons_zero, valueAt_cons_zero, hx.value, Nat.add_zero, total_eq_zero more, Int.add_zero]
        intro e he hplace
        have hlow := (ih.place e he).2.1
        have hnum := (Prod.mk.inj hplace).2
        omega
      | succ j =>
        rw [valueAt_cons_succ, valueAt_cons_succ, ih.value j, total_eq_zero left, Int.zero_add]
        · rw [show k + 1 + j = k + (j + 1) by omega]
        · intro e he hplace
          have hk := (hleft e he).2
          have hnum := (Prod.mk.inj hplace).2
          omega
    · refine nodup_places ?_ (ih.enabled hok).1 fun e he e' he' heq => ?_
      · have hone := (hx.enabled hok).1
        match left, hone with
        | [], _ => simp
        | [e], _ => simp
      · have hk := (hleft e he).2
        have hlow := (ih.place e' he').2.1
        have hnum := (Prod.mk.inj heq).2
        omega
    · intro e he
      rcases mem_append.mp he with he | he
      · rw [(hleft e he).2, Nat.sub_self, valueAt_cons_zero]
        exact (hx.enabled hok).2 e he
      · have hlow := (ih.place e he).2.1
        rw [show e.num - k = e.num - (k + 1) + 1 by omega, valueAt_cons_succ]
        exact (ih.enabled hok).2 e he

/-- The value of a semaphore of the table. -/
def valueOf : List SemStruct → Int → Nat → Nat
  | [], _, _ => 0
  | sem :: l, id, num => if sem.id = id then valueAt sem.sems num else valueOf l id num

def State.value (s : State) (id : Int) (num : Nat) : Nat := valueOf s.semList id num

/-- There is a semaphore of this number in a set with this identifier. -/
def Has (l : List SemStruct) (id : Int) (num : Nat) : Prop := ∃ sem ∈ l, sem.id = id ∧ num < sem.sems.length

/-- A change of a set that takes entries off its lists. -/
structure SemStruct.Drops (type : Status) (sem : SemStruct) (left : List Entry) (sem' : SemStruct) : Prop where
  id : sem'.id = sem.id
  sems : DropsFrom type sem.id 0 sem.sems left sem'.sems

/-- A change of the table that takes entries off the queue. -/
structure DropsSets (type : Status) (l : List SemStruct) (left : List Entry) (l' : List SemStruct) : Prop where
  listed : ∀ sem ∈ l', sem.Listed
  ids : l'.map (·.id) = l.map (·.id)
  queue : Leaves (l.flatMap SemStruct.queue) left (l'.flatMap SemStruct.queue)
  place : ∀ e ∈ left, Has l e.id e.num
  has : ∀ id num, Has l' id num ↔ Has l id num
  value : ∀ id num, (valueOf l' id num : Int) = valueOf l id num + total type left id num
  enabled : type = .ok → (left.map Entry.place).Nodup ∧ ∀ e ∈ left, e.Enabled (valueOf l e.id e.num)

theorem SemStruct.Drops.queue {sem' : SemStruct} (h : sem.Drops type left sem') :
    Leaves sem.queue left sem'.queue := by
  have hqueue := h.sems.queue
  unfold SemStruct.queue
  rw [h.id]
  exact hqueue

/-- Sets of the table, one after the other. -/
theorem Sweeps.drops_sets {l l' : List SemStruct}
    (h : Sweeps (fun _ => SemStruct.Drops type) k l left l') (hids : (l.map (·.id)).Nodup) : DropsSets type l left l' := by
  induction h with
  | nil k => exact ⟨by simp, rfl, .refl _, by simp, by simp, by simp [valueOf], by simp⟩
  | @cons k sem sem' left more l l' hx _ ih =>
    obtain ⟨hnot, hids⟩ := nodup_cons.mp hids
    replace ih := ih hids
    have hleft : ∀ e ∈ left, e.id = sem.id := fun e he => (hx.sems.place e he).1
    have hmore : ∀ e ∈ more, e.id ≠ sem.id := fun e he heq => by
      obtain ⟨sem2, hmem, hid, -⟩ := ih.place e he
      exact hnot (mem_map.mpr ⟨sem2, hmem, hid.trans heq⟩)
    refine ⟨?_, by rw [map_cons, map_cons, hx.id, ih.ids], hx.queue.append ih.queue, ?_, ?_, ?_, fun hok => ⟨?_, ?_⟩⟩
    · rintro s (_ | ⟨_, hs⟩)
      · exact hx.sems.listed
      · exact ih.listed s hs
    · intro e he
      rcases mem_append.mp he with he | he
      · obtain ⟨hid, -, hnum⟩ := hx.sems.place e he
        exact ⟨sem, by simp, hid.symm, by omega⟩
      · obtain ⟨sem2, hmem, hsem2⟩ := ih.place e he
        exact ⟨sem2, mem_cons_of_mem _ hmem, hsem2⟩
    · intro id num
      have hrest : (∃ x ∈ l', x.id = id ∧ num < x.sems.length) ↔ ∃ x ∈ l, x.id = id ∧ num < x.sems.length := ih.has id num
      simp only [Has, exists_mem_cons_iff, hrest, hx.id, hx.sems.length]
    · intro id num
      rw [total_append, valueOf, valueOf, hx.id]
      by_cases hid : sem.id = id
      · have hvalue := hx.sems.value num
        rw [if_pos hid, if_pos hid, hvalue, hid, Nat.zero_add, total_eq_zero more, Int.add_zero]
        exact fun e he hplace => hmore e he ((Prod.mk.inj hplace).1.trans hid.symm)
      · rw [if_neg hid, if_neg hid, ih.value, total_eq_zero left, Int.zero_add]
        exact fun e he hplace => hid ((hleft e he).symm.trans (Prod.mk.inj hplace).1)
    · refine nodup_places (hx.sems.enabled hok).1 (ih.enabled hok).1 fun e he e' he' heq => ?_
      exact hmore e' he' ((Prod.mk.inj heq).1.symm.trans (hleft e he))
    intro e he
    rw [valueOf]
    rcases mem_append.mp he with he | he
    · rw [if_pos (hleft e he).symm]
      exact (hx.sems.enabled hok).2 e he
    · rw [if_neg (Ne.symm (hmore e he))]
      exact (ih.enabled hok).2 e he

/-! ## Processes that exit -/

theorem leaves_eraseIdx (hk : k < l.length) (entry : Waiting → Entry) :
    Leaves (l.map entry) [entry l[k]] ((l.eraseIdx k).map entry) := by
  unfold Leaves
  rw [← map_singleton, ← map_append]
  exact ((getElem_cons_eraseIdx_perm hk).symm.trans (perm_append_singleton _ _).symm).map entry

/-- `remove_process` takes a process off a list. -/
theorem withdraw_spec {a : CountedArray Waiting} (h : a.Holds l) (pt : Endpoint) :
    ∃ (a' : CountedArray Waiting) (l' gone : List Waiting),
      withdraw pt a = some (a', gone.map fun w => ⟨w.who, .eintr⟩) ∧ a'.Holds l' ∧ (∀ w ∈ l', w ∈ l) ∧
      ∀ entry : Waiting → Entry, Leaves (l.map entry) (gone.map entry) (l'.map entry) := by
  unfold withdraw
  rw [h.search]
  cases hfind : l.findIdx? fun w => w.who = pt with
  | none => exact ⟨a, l, [], rfl, h, fun _ hw => hw, fun entry => .refl _⟩
  | some k =>
    obtain ⟨hk, hpt, -⟩ := findIdx?_eq_some_iff_getElem.mp hfind
    obtain ⟨a', hremove, hholds⟩ := h.remove hk
    have hwho : l[k].who = pt := by simpa using hpt
    simp only [hremove, map_some]
    exact ⟨a', l.eraseIdx k, [l[k]], by simp [hwho], hholds, fun w hw => mem_of_mem_eraseIdx hw, leaves_eraseIdx hk⟩

namespace Semaphore

variable {s s' : Semaphore}

theorem queue_eq {z n : List Waiting} (hz : s.zlist.Holds z) (hn : s.nlist.Holds n) (id : Int) (num : Nat) :
    s.queue id num = z.map (zeroEntry id num) ++ n.map (increaseEntry id num) := by
  rw [queue, zeros_eq hz, increases_eq hn]

/-- `remove_process` for one semaphore. -/
theorem Listed.removeProcess (h : s.Listed) (pt : Endpoint) : ∃ s' sent, s.removeProcess pt = some (s', sent) ∧
    ∀ id num, ∃ left, sent = left.map (Entry.message .eintr) ∧ Drops .eintr id num s left s' := by
  obtain ⟨z, lz, gz, hzeq, hz, -, hzleaves⟩ := withdraw_spec h.zlist pt
  obtain ⟨n, ln, gn, hneq, hn, hsub, hnleaves⟩ := withdraw_spec h.nlist pt
  simp only [Semaphore.removeProcess, hzeq, hneq, bind_some, map_some]
  refine ⟨_, _, rfl, fun id num => ⟨gz.map (zeroEntry id num) ++ gn.map (increaseEntry id num), ?_, ?_, ?_, ?_, ?_, by simp⟩⟩
  · simp [Entry.message, zeroEntry, increaseEntry, Function.comp_def]
  · exact .of_holds hz hn (fun w hw => h.pos w (hsub w hw)) h.semval
  · rw [queue_eq h.zlist h.nlist, queue_eq hz hn]
    exact (hzleaves _).append (hnleaves _)
  · intro e he
    simp only [mem_append, List.mem_map] at he
    rcases he with ⟨w, -, rfl⟩ | ⟨w, -, rfl⟩
    · rfl
    · rfl
  · simp [total]

/-! ## Waking -/

/-- The first process of a semaphore that can go on. -/
def first (s : Semaphore) (id : Int) (num : Nat) : Option Entry := (s.queue id num).find? fun e => e.Enabled s.semval

theorem Drops.refl (h : s.Listed) {id : Int} {num : Nat} : Drops .ok id num s [] s := ⟨h, .refl _, by simp, by simp, by simp⟩

theorem enabled_zero {id : Int} {num : Nat} {w : Waiting} : (zeroEntry id num w).Enabled s.semval ↔ s.semval = 0 := by
  simp [zeroEntry, Enabled]

theorem enabled_increase {id : Int} {num : Nat} {w : Waiting} (hpos : 0 < w.val) :
    (increaseEntry id num w).Enabled s.semval ↔ w.val ≤ (s.semval : Int) := by
  simp only [increaseEntry, Enabled, Int.neg_neg]
  rw [if_neg (by omega)]

theorem Listed.first_eq (h : s.Listed) (id : Int) (num : Nat) : s.first id num =
    ((s.zeros.find? fun _ => s.semval = 0).map (zeroEntry id num)).or
      ((s.increases.find? fun w => w.val ≤ (s.semval : Int)).map (increaseEntry id num)) := by
  rw [first, queue, find?_append, find?_map, find?_map]
  refine congrArg₂ _ (congrArg _ (find?_congr fun w _ => ?_)) (congrArg _ (find?_congr fun w hw => ?_))
  · simp only [Function.comp_apply, enabled_zero]
  · simp only [Function.comp_apply, enabled_increase (h.pos w hw)]

/-- A semaphore of value zero. -/
theorem Listed.updateZero (h : s.Listed) (heq : s.updateZero = some (s', sent)) :
    (s' = s ∧ sent = [] ∧ (s.semval = 0 → s.zeros = [])) ∨
      ∃ w, s.semval = 0 ∧ s.zeros.head? = some w ∧ sent = [⟨w.who, .ok⟩] ∧ s'.semval = 0 ∧
        ∀ id num, Drops .ok id num s [zeroEntry id num w] s' := by
  unfold Semaphore.updateZero at heq
  split_ifs at heq with hif
  · simp only [bind_eq_some_iff, map_eq_some_iff] at heq
    obtain ⟨w, hget, z, hremove, heq⟩ := heq
    obtain ⟨rfl, rfl⟩ := Prod.mk.inj heq
    have hpos : 0 < s.zeros.length := by
      by_contra hzero
      rw [CountedArray.remove_eq_none (by rw [h.zlist.count]; omega)] at hremove
      simp at hremove
    obtain ⟨z', hz', hholds⟩ := h.zlist.remove hpos
    obtain rfl := some.inj (hremove.symm.trans hz')
    rw [h.zlist.get hpos] at hget
    have hw : s.zeros[0] = w := some.inj ((getElem?_eq_getElem hpos).symm.trans hget)
    refine .inr ⟨w, hif.2, head?_eq_getElem?.trans hget, rfl, hif.2, fun id num => ?_⟩
    refine ⟨.of_holds hholds h.nlist h.pos h.semval, ?_, ?_, ?_, fun _ => ⟨by simp, ?_⟩⟩
    · rw [queue_eq h.zlist h.nlist, queue_eq (s := { s with zlist := z }) hholds h.nlist, ← hw]
      have happ := (leaves_eraseIdx hpos (zeroEntry id num)).append (.refl (s.increases.map (increaseEntry id num)))
      simpa using happ
    · simp [zeroEntry, Entry.place]
    · simp [total, zeroEntry, Entry.place]
    · simpa only [mem_singleton, forall_eq, enabled_zero] using hif.2
  · obtain ⟨rfl, rfl⟩ := Prod.mk.inj (some.inj heq)
    refine .inl ⟨rfl, rfl, fun hzero => ?_⟩
    by_contra hne
    obtain ⟨b, hb⟩ := h.zlist.block_of_pos (length_pos_iff.mpr hne)
    exact hif ⟨by simp [hb], hzero⟩

/-- A semaphore that has enough for a process. -/
theorem Listed.updateIncrease (h : s.Listed) : ∃ s' sent, s.updateIncrease = some (s', sent) ∧
    ((s' = s ∧ sent = [] ∧ ∀ w ∈ s.increases, (s.semval : Int) < w.val) ∨
      ∃ w, s.increases.find? (fun w => w.val ≤ (s.semval : Int)) = some w ∧ sent = [⟨w.who, .ok⟩] ∧
        ∀ id num, Drops .ok id num s [increaseEntry id num w] s') := by
  unfold Semaphore.updateIncrease
  split_ifs with hblock
  · rw [h.nlist.search]
    cases hfind : s.increases.findIdx? fun w => w.val ≤ (s.semval : Int) with
    | none =>
      rw [findIdx?_eq_none_iff] at hfind
      exact ⟨s, [], rfl, .inl ⟨rfl, rfl, by simpa using hfind⟩⟩
    | some j =>
      obtain ⟨hj, hle, hbefore⟩ := findIdx?_eq_some_iff_getElem.mp hfind
      obtain ⟨n, hremove, hholds⟩ := h.nlist.remove hj
      have hval : s.increases[j].val ≤ (s.semval : Int) := by simpa using hle
      have hpos := h.pos _ (getElem_mem hj)
      have hlt := h.semval
      unfold ushortSize at hlt
      simp only [hremove, h.nlist.get hj, getElem?_eq_getElem hj, bind_some, map_some]
      have hmod : ((((s.semval : Int) - s.increases[j].val) % (ushortSize : Int)).toNat : Int) = (s.semval : Int) - s.increases[j].val := by
        unfold ushortSize
        omega
      refine ⟨_, _, rfl, .inr ⟨s.increases[j], ?_, rfl, fun id num => ⟨?_, ?_, ?_, ?_, fun _ => ⟨by simp, ?_⟩⟩⟩⟩
      · exact find?_eq_some_iff_getElem.mpr ⟨hle, j, hj, rfl, fun k hk => by simpa using hbefore k hk⟩
      · refine .of_holds h.zlist hholds (fun w hw => h.pos w (mem_of_mem_eraseIdx hw)) ?_
        show Int.toNat _ < ushortSize
        unfold ushortSize at hmod ⊢
        omega
      · have hnew : queue { s with
              semval := (((s.semval : Int) - s.increases[j].val) % (ushortSize : Int)).toNat, nlist := n } id num =
            s.zeros.map (zeroEntry id num) ++ (s.increases.eraseIdx j).map (increaseEntry id num) :=
          queue_eq (s := { s with semval := _, nlist := n }) h.zlist hholds id num
        rw [queue_eq h.zlist h.nlist, hnew]
        have happ := (Leaves.refl (s.zeros.map (zeroEntry id num))).append (leaves_eraseIdx hj (increaseEntry id num))
        simpa using happ
      · simp [increaseEntry, Entry.place]
      · simp only [total, increaseEntry, Entry.place, if_true, decide_true, filter_cons_of_pos, filter_nil,
          map_cons, map_nil, sum_cons, sum_nil]
        omega
      · simpa only [mem_singleton, forall_eq, enabled_increase hpos] using hval
  · refine ⟨s, [], rfl, .inl ⟨rfl, rfl, fun w hw => ?_⟩⟩
    obtain ⟨b, hb⟩ := h.nlist.block_of_pos (length_pos_of_mem hw)
    simp [hb] at hblock

/-- `update_one_semaphore` for one semaphore wakes the first process that can go on, and no other. -/
theorem Listed.update (h : s.Listed) (heq : s.update = some (s', sent)) (id : Int) (num : Nat) :
    sent = (s.first id num).toList.map (Entry.message .ok) ∧ Drops .ok id num s (s.first id num).toList s' := by
  unfold Semaphore.update at heq
  simp only [bind_eq_some_iff, map_eq_some_iff, Prod.exists] at heq
  obtain ⟨s1, sent1, hzero, s2, sent2, hincrease, heq⟩ := heq
  obtain ⟨rfl, rfl⟩ := Prod.mk.inj heq
  rw [h.first_eq]
  rcases h.updateZero hzero with ⟨rfl, rfl, hnil⟩ | ⟨w, hval, hhead, rfl, hval1, hdrops⟩
  · have hzeros : s1.zeros.find? (fun _ => s1.semval = 0) = none := by
      rw [find?_eq_none]
      intro w hw
      by_cases hval : s1.semval = 0
      · simp [hnil hval] at hw
      · simpa using hval
    rw [hzeros]
    obtain ⟨s2', sent2', hincrease', hor⟩ := h.updateIncrease
    obtain ⟨rfl, rfl⟩ := Prod.mk.inj (some.inj (hincrease.symm.trans hincrease'))
    rcases hor with ⟨rfl, rfl, hall⟩ | ⟨w, hfind, rfl, hdrops⟩
    · rw [find?_eq_none.mpr (by simpa using hall)]
      exact ⟨rfl, .refl h⟩
    · rw [hfind]
      exact ⟨rfl, hdrops id num⟩
  · obtain ⟨s2', sent2', hincrease', hor⟩ := (hdrops id num).listed.updateIncrease
    obtain ⟨rfl, rfl⟩ := Prod.mk.inj (some.inj (hincrease.symm.trans hincrease'))
    have hzeros : s.zeros.find? (fun _ => s.semval = 0) = some w := by
      obtain ⟨rest, hrest⟩ := head?_eq_some_iff.mp hhead
      simp [hrest, hval]
    rw [hzeros]
    rcases hor with ⟨rfl, rfl, -⟩ | ⟨w', hfind, -⟩
    · exact ⟨rfl, hdrops id num⟩
    · -- Nothing is enough at zero.
      have hpos := (hdrops id num).listed.pos w' (mem_of_find?_eq_some hfind)
      have hle : w'.val ≤ (s1.semval : Int) := by simpa using find?_some hfind
      omega

/-- The list of those that wait for zero is not left behind empty. -/
def Settled (s : Semaphore) : Prop := s.zlist.block.isSome → s.semval = 0 → 0 < s.zlist.count

instance (s : Semaphore) : Decidable s.Settled := inferInstanceAs (Decidable (_ → _ → _))

/-- A semaphore is updated without leaving its lists exactly when `zlist` is not left behind empty. -/
theorem Listed.update_isSome_iff (h : s.Listed) : s.update.isSome ↔ s.Settled := by
  have hiff : s.updateZero.isSome ↔ s.Settled := by
    unfold Semaphore.updateZero Settled
    by_cases hif : s.zlist.block.isSome ∧ s.semval = 0
    · rw [if_pos hif]
      by_cases hcount : 0 < s.zlist.count
      · have hpos : 0 < s.zeros.length := h.zlist.count ▸ hcount
        obtain ⟨z, hremove, -⟩ := h.zlist.remove hpos
        simp [hremove, h.zlist.get hpos, getElem?_eq_getElem hpos, hcount]
      · rw [CountedArray.remove_eq_none (by omega)]
        simp only [map_none, bind_fun_none, isSome_none, Bool.false_eq_true, false_iff]
        exact fun hall => hcount (hall hif.1 hif.2)
    · rw [if_neg hif]
      simp only [isSome_some, true_iff]
      exact fun hb hv => absurd ⟨hb, hv⟩ hif
  rw [← hiff]
  unfold Semaphore.update
  cases hzero : s.updateZero with
  | none => simp
  | some out =>
    obtain ⟨s1, sent⟩ := out
    have hlisted : s1.Listed := by
      rcases h.updateZero hzero with ⟨rfl, -⟩ | ⟨w, -, -, -, -, hdrops⟩
      · exact h
      · exact (hdrops 0 0).listed
    obtain ⟨s2, more, hincrease, -⟩ := hlisted.updateIncrease
    simp [hincrease]

end Semaphore

/-! ## The whole table -/

/-- The sets have different identifiers, all of them given out before. -/
structure State.Sound (s : State) : Prop where
  listed : s.Listed
  ids : (s.semList.map (·.id)).Nodup
  given : ∀ sem ∈ s.semList, sem.id < s.identifier

/-- A change of the table that takes entries off the queue. -/
structure State.Drops (type : Status) (s : State) (left : List Entry) (s' : State) : Prop where
  identifier : s'.identifier = s.identifier
  sets : DropsSets type s.semList left s'.semList

theorem mem_ids {l : List SemStruct} (h : sem ∈ l) : sem.id ∈ l.map (·.id) := mem_map.mpr ⟨sem, h, rfl⟩

namespace State

variable {s s' s'' : State} {type : Status} {left more : List Entry}

theorem Drops.queue (h : s.Drops type left s') : Leaves s.queue left s'.queue := h.sets.queue

theorem Drops.sound (h : s.Drops type left s') (hs : s.Sound) : s'.Sound where
  listed := h.sets.listed
  ids := h.sets.ids ▸ hs.ids
  given sem hsem := by
    have hmem := mem_ids hsem
    rw [h.sets.ids] at hmem
    obtain ⟨sem0, hsem0, hid⟩ := mem_map.mp hmem
    rw [h.identifier, ← hid]
    exact hs.given sem0 hsem0

theorem Sound.shm (hs : s.Sound) (ids : Nat) : Sound { s with identifier := s.identifier + ids } :=
  ⟨hs.listed, hs.ids, fun sem hsem => by
    have hlt := hs.given sem hsem
    simp only []
    omega⟩

theorem Drops.value (h : s.Drops type left s') (id : Int) (num : Nat) :
    (s'.value id num : Int) = s.value id num + total type left id num := h.sets.value id num

theorem Sound.drops_refl (hs : s.Sound) {type : Status} : s.Drops type [] s :=
  ⟨rfl, hs.listed, rfl, .refl _, by simp, by simp, by simp, by simp⟩

/-- `remove_process` -/
theorem Sound.removeProcess (hs : s.Sound) (pt : Endpoint) : ∃ s' left,
    s.removeProcess pt = some (s', left.map (Entry.message .eintr)) ∧ s.Drops .eintr left s' := by
  have hset : ∀ sem ∈ s.semList, ∀ k sem' sent, sem.removeProcess pt = some (sem', sent) →
      ∃ left, sent = left.map (Entry.message .eintr) ∧ (fun _ : Nat => SemStruct.Drops .eintr) k sem left sem' := by
    intro sem hsem k sem' sent heq
    simp only [SemStruct.removeProcess, map_eq_some_iff, Prod.exists] at heq
    obtain ⟨sems, sent', hsweep, heq⟩ := heq
    obtain ⟨rfl, rfl⟩ := Prod.mk.inj heq
    obtain ⟨left, rfl, hsweeps⟩ := sweep_sweeps .eintr (R := Semaphore.Drops .eintr sem.id) 0
      (fun x hx k x' sent hx' => by
        obtain ⟨x1, sent1, heq1, hdrops⟩ := (hs.listed sem hsem x hx).removeProcess pt
        obtain ⟨rfl, rfl⟩ := Prod.mk.inj (some.inj (hx'.symm.trans heq1))
        exact hdrops sem.id k) hsweep
    exact ⟨left, rfl, rfl, hsweeps.drops⟩
  have hsome : (sweep (SemStruct.removeProcess pt) s.semList).isSome := by
    refine sweep_isSome fun sem hsem => ?_
    have hsems : (sweep (Semaphore.removeProcess pt) sem.sems).isSome := sweep_isSome fun x hx => by
      obtain ⟨x1, sent1, heq1, -⟩ := (hs.listed sem hsem x hx).removeProcess pt
      simp [heq1]
    simpa [SemStruct.removeProcess] using hsems
  obtain ⟨⟨l, sent⟩, hsweep⟩ := isSome_iff_exists.mp hsome
  obtain ⟨left, rfl, hsweeps⟩ := sweep_sweeps .eintr 0 hset hsweep
  exact ⟨{ s with semList := l }, left, by simp [State.removeProcess, hsweep], rfl, hsweeps.drops_sets hs.ids⟩

theorem Drops.trans_eintr (h : s.Drops .eintr left s') (h' : s'.Drops .eintr more s'') : s.Drops .eintr (left ++ more) s'' := by
  refine ⟨h'.identifier.trans h.identifier, h'.sets.listed, h'.sets.ids.trans h.sets.ids, h.sets.queue.trans h'.sets.queue, ?_,
    fun id num => (h'.sets.has id num).trans (h.sets.has id num), ?_, by simp⟩
  · intro e he
    rcases mem_append.mp he with he | he
    · exact h.sets.place e he
    · exact (h.sets.has _ _).mp (h'.sets.place e he)
  · intro id num
    rw [h'.sets.value, h.sets.value]
    simp [total]

/-- The queries after a notification. -/
theorem Sound.semProcessVmNotify (hs : s.Sound) (pts : List Endpoint) : ∃ s' left,
    s.semProcessVmNotify pts = some (s', left.map (Entry.message .eintr)) ∧ s.Drops .eintr left s' := by
  induction pts generalizing s with
  | nil => exact ⟨s, [], rfl, hs.drops_refl⟩
  | cons pt pts ih =>
    obtain ⟨s1, left, heq, hdrops⟩ := hs.removeProcess pt
    obtain ⟨s2, more, heq', hdrops'⟩ := ih (hdrops.sound hs)
    exact ⟨s2, left ++ more, by simp [semProcessVmNotify, heq, heq'], hdrops.trans_eintr hdrops'⟩

/-- No list of processes that wait for zero is left behind empty. -/
def Settled (s : State) : Prop := ∀ sem ∈ s.semList, ∀ x ∈ sem.sems, x.Settled

instance (s : State) : Decidable s.Settled := inferInstanceAs (Decidable (∀ _ ∈ _, _))

/-- `update_semaphores` -/
theorem Sound.updateSemaphores (hs : s.Sound) (heq : s.updateSemaphores = some (s', sent)) :
    ∃ left, sent = left.map (Entry.message .ok) ∧ s.Drops .ok left s' := by
  simp only [State.updateSemaphores, map_eq_some_iff, Prod.exists] at heq
  obtain ⟨l, sent', hsweep, heq⟩ := heq
  obtain ⟨rfl, rfl⟩ := Prod.mk.inj heq
  obtain ⟨left, rfl, hsweeps⟩ := sweep_sweeps .ok (R := fun _ => SemStruct.Drops .ok) 0
    (fun sem hsem k sem' sent heq => by
      simp only [SemStruct.update, map_eq_some_iff, Prod.exists] at heq
      obtain ⟨sems, sent', hsweep, heq⟩ := heq
      obtain ⟨rfl, rfl⟩ := Prod.mk.inj heq
      obtain ⟨left, rfl, hsweeps⟩ := sweep_sweeps .ok (R := Semaphore.Drops .ok sem.id) 0
        (fun x hx k x' sent hx' => ⟨_, (hs.listed sem hsem x hx).update hx' sem.id k⟩) hsweep
      exact ⟨left, rfl, rfl, hsweeps.drops⟩) hsweep
  exact ⟨left, rfl, rfl, hsweeps.drops_sets hs.ids⟩

theorem Sound.updateSemaphores_isSome (hs : s.Sound) (h : s.Settled) : s.updateSemaphores.isSome := by
  have hall : (sweep SemStruct.update s.semList).isSome := by
    refine sweep_isSome fun sem hsem => ?_
    have hsems : (sweep Semaphore.update sem.sems).isSome :=
      sweep_isSome fun x hx => (hs.listed sem hsem x hx).update_isSome_iff.mpr (h sem hsem x hx)
    simpa [SemStruct.update] using hsems
  simpa [State.updateSemaphores] using hall

end State

/-! ## Removing a set -/

theorem SemStruct.Listed.dismiss (h : sem.Listed) : sem.dismiss = some (sem.queue.map (Entry.message .eidrm)) := by
  have hsome : (sweep (fun s : Semaphore => s.dismiss.map fun sent => (s, sent)) sem.sems).isSome := by
    refine sweep_isSome fun s hs => ?_
    simp [Semaphore.dismiss, (h s hs).zlist.read, (h s hs).nlist.read]
  obtain ⟨⟨l, sent⟩, hsweep⟩ := isSome_iff_exists.mp hsome
  obtain ⟨left, rfl, hsweeps⟩ := sweep_sweeps .eidrm (R := fun k s left _ => left = s.queue sem.id k) 0
    (fun s hs k s' sent heq => by
      simp only [Semaphore.dismiss, (h s hs).zlist.read, (h s hs).nlist.read, bind_some, map_some,
        some.injEq, Prod.mk.injEq] at heq
      obtain ⟨-, rfl⟩ := heq
      refine ⟨s.queue sem.id k, ?_, rfl⟩
      simp [Semaphore.queue, Entry.message, Semaphore.zeroEntry, Semaphore.increaseEntry, Function.comp_def]) hsweep
  have hleft : ∀ {k l left l'}, Sweeps (fun k (s : Semaphore) left (_ : Semaphore) => left = s.queue sem.id k) k l left l' →
      left = queueFrom sem.id k l := by
    intro k l left l' hsw
    induction hsw with
    | nil k => rfl
    | cons hx _ ih => rw [queueFrom, ih, hx]
  simp only [SemStruct.dismiss, hsweep, map_some, hleft hsweeps, queue]

/-- The last entry takes the place of another one. -/
theorem set_dropLast_perm {α : Type} {l : List α} {last : α} (hlast : l.getLast? = some last) {i : Nat} (hi : i < l.length) :
    l.Perm ((l.set i last).dropLast ++ [l[i]]) := by
  have hne : l.set i last ≠ [] := by
    intro hnil
    have hlen := congrArg length hnil
    simp only [length_set, length_nil] at hlen
    omega
  have hget : (l.set i last).getLast hne = last := by
    rw [getLast_eq_getElem, getElem_set]
    split
    · rfl
    · rw [getLast?_eq_getElem?, getElem?_eq_some_iff] at hlast
      obtain ⟨hlt, hlast⟩ := hlast
      simpa [length_set] using hlast
  have hset : (l.set i last).Perm (last :: l.eraseIdx i) := set_perm_cons_eraseIdx hi last
  rw [← dropLast_append_getLast hne, hget] at hset
  have hrest : (l.set i last).dropLast.Perm (l.eraseIdx i) :=
    ((perm_append_singleton last _).symm.trans hset).cons_inv
  exact ((getElem_cons_eraseIdx_perm hi).symm.trans (perm_append_singleton _ _).symm).trans
    ((hrest.symm).append_right [l[i]])

theorem valueOf_of_mem {l : List SemStruct} (hids : (l.map (·.id)).Nodup) (hmem : sem ∈ l) {num : Nat} :
    valueOf l sem.id num = valueAt sem.sems num := by
  induction l with
  | nil => simp at hmem
  | cons x l ih =>
    obtain ⟨hnot, hids⟩ := nodup_cons.mp hids
    rw [valueOf]
    rcases mem_cons.mp hmem with rfl | hmem
    · rw [if_pos rfl]
    · have hne : x.id ≠ sem.id := by
        intro heq
        simp only [heq] at hnot
        exact hnot (mem_ids hmem)
      rw [if_neg hne, ih hids hmem]

theorem valueOf_of_not_mem {l : List SemStruct} (h : id ∉ l.map (·.id)) {num : Nat} : valueOf l id num = 0 := by
  induction l with
  | nil => rfl
  | cons x l ih =>
    simp only [map_cons, mem_cons, not_or] at h
    rw [valueOf, if_neg (Ne.symm h.1), ih h.2]

namespace State

variable {s : State} {i : Nat} {sem : SemStruct}

/-- The table without a set. -/
theorem Sound.removeSemaphore (hs : s.Sound) (hi : s.semList[i]? = some sem) :
    (s.removeSemaphore i).Sound ∧ Leaves s.queue sem.queue (s.removeSemaphore i).queue ∧
      (s.removeSemaphore i).identifier = s.identifier ∧ (∀ x ∈ (s.removeSemaphore i).semList, x ∈ s.semList ∧ x.id ≠ sem.id) ∧
      ∀ id num, (s.removeSemaphore i).value id num = if id = sem.id then 0 else s.value id num := by
  obtain ⟨hlt, rfl⟩ := List.getElem?_eq_some_iff.mp hi
  have hne : s.semList ≠ [] := by
    intro hnil
    simp [hnil] at hlt
  have hlast : s.semList.getLast? = some (s.semList.getLast hne) := getLast?_eq_some_getLast hne
  have hperm := set_dropLast_perm hlast hlt
  have heq : s.removeSemaphore i = { s with semList := (s.semList.set i (s.semList.getLast hne)).dropLast } := by
    simp only [removeSemaphore, hlast]
  rw [heq]
  generalize (s.semList.set i (s.semList.getLast hne)).dropLast = l at hperm
  have hids := (hperm.map (·.id)).nodup_iff.mp hs.ids
  rw [map_append, map_singleton, nodup_append] at hids
  have hmem : ∀ sem ∈ l, sem ∈ s.semList := fun sem hsem => hperm.mem_iff.mpr (mem_append_left _ hsem)
  refine ⟨⟨fun sem hsem => hs.listed sem (hmem sem hsem), hids.1, fun sem hsem => hs.given sem (hmem sem hsem)⟩, ?_, rfl, ?_, ?_⟩
  · have hq := hperm.flatMap_right SemStruct.queue
    rw [flatMap_append, flatMap_singleton] at hq
    exact hq
  · exact fun x hx => ⟨hmem x hx, hids.2.2 x.id (mem_ids hx) _ (by simp)⟩
  intro id num
  show valueOf l id num = if id = s.semList[i].id then 0 else valueOf s.semList id num
  by_cases hid : id = s.semList[i].id
  · rw [if_pos hid, valueOf_of_not_mem]
    intro hin
    exact hids.2.2 id hin _ (by simp) hid
  · rw [if_neg hid]
    by_cases hin : id ∈ l.map (·.id)
    · obtain ⟨sem, hsem, rfl⟩ := mem_map.mp hin
      rw [valueOf_of_mem hids.1 hsem, valueOf_of_mem hs.ids (hmem sem hsem)]
    rw [valueOf_of_not_mem hin, valueOf_of_not_mem]
    intro hin'
    obtain ⟨sem, hsem, rfl⟩ := mem_map.mp hin'
    rcases mem_append.mp (hperm.mem_iff.mp hsem) with h | h
    · exact hin (mem_ids h)
    · exact hid (congrArg SemStruct.id (mem_singleton.mp h))

end State

end Minix.IpcServer
