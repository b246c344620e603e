/-
  IpcServer/SemAtomic.lean --- `semop` calls as single steps on the values of the semaphores.

  The books of a run hold, for each semaphore, the value it was last set to plus the
  operations of the calls that have been answered with success since.  Calls are serial when
  each of them finds all its operations possible and does them all at once.
-/
import Mathlib.Algebra.BigOperators.Group.List.Lemmas
import Mathlib.Data.List.TakeWhile
import Minix.IpcServer.SemRun

set_option autoImplicit false

namespace Minix.IpcServer

open Minix.Foundation List Option State
open Entry (total)

variable {o : Sembuf} {e : Entry} {calls : List (Int × List Sembuf)} {queue left : List Entry}
  {id : Int} {i : Input} {c : Caller} {a : SemopArgs} {cmd : SemctlCmd} {sent : List Send}

/-- The values of all semaphores, by set and number. -/
abbrev Values := Int → Nat → Int

/-- All operations of a call can be done. -/
def Possible (v : Values) (id : Int) (ops : List Sembuf) : Prop :=
  ∀ o ∈ ops, if o.semOp = 0 then v id o.semNum = 0 else 0 ≤ v id o.semNum + o.semOp

/-- All operations of a call, at once. -/
def perform (v : Values) (call : Int × List Sembuf) : Values :=
  fun id num => v id num + if id = call.1 then sumAt call.2 num else 0

/-- Calls one after the other, each of them at once. -/
inductive Serial : Values → List (Int × List Sembuf) → Values → Prop
  | nil (v : Values) : Serial v [] v
  | cons {v v' : Values} {call : Int × List Sembuf} {rest : List (Int × List Sembuf)} (h : Possible v call.1 call.2)
      (hrest : Serial (perform v call) rest v') : Serial v (call :: rest) v'

theorem Serial.append {v v1 v2 : Values} {l l' : List (Int × List Sembuf)} (h : Serial v l v1) (h' : Serial v1 l' v2) :
    Serial v (l ++ l') v2 := by
  induction h with
  | nil v => exact h'
  | cons hp _ ih => exact .cons hp (ih h')

/-- A run with its books. -/
structure Books where
  world : World
  sums : Values

/-- The call that is complete with a message to its process. -/
def completedBy (calls : List Call) (m : Send) : Option (Int × List Sembuf) :=
  if m.type = .ok then (calls.find? fun c => c.who = m.dest).map fun c => (c.id, c.ops) else none

/-- The calls that a message completes: that of the caller, and those of the processes that are told
that they are done. -/
def World.completed (w : World) (i : Input) (out : Outcome) : List (Int × List Sembuf) :=
  (match i with
    | .semop _ id a => if out.reply = some .ok then [(id, a.ops)] else []
    | _ => []) ++
  out.sent.filterMap (completedBy (w.calls ++ w.begun out i))

/-- `SETVAL` and `SETALL` begin a new sum. -/
def World.assigned (w : World) (v : Values) : Input → Values
  | .semctl c id num cmd =>
      if (w.server.semctl c id num cmd).any (·.2.2.2) then
        fun id' n => if id' = id then ((cmd.stores num n).map fun val : Nat => (val : Int)).getD (v id n) else v id' n
      else v
  | _ => v

namespace Books

def boot : Books := ⟨World.boot, fun _ _ => 0⟩

/-- The calls that a message completes. -/
def completed (b : Books) (i : Input) : List (Int × List Sembuf) :=
  match b.world.server.handle i with
  | none => []
  | some out => b.world.completed i out

/-- A message and what it does to the books. -/
def step (b : Books) (i : Input) : Option Books :=
  (b.world.step i).map fun w => ⟨w, (b.completed i).foldl perform (b.world.assigned b.sums i)⟩

/-- Every semaphore has the value that the books say. -/
def Balanced (b : Books) : Prop :=
  ∀ sem ∈ b.world.server.semList, ∀ n < sem.sems.length, (valueAt sem.sems n : Int) = b.sums sem.id n

instance (b : Books) : Decidable b.Balanced :=
  inferInstanceAs (Decidable (∀ sem ∈ b.world.server.semList, ∀ n < sem.sems.length, _))

end Books

/-- A `semop` request that has to wait has one operation, and there is memory for its entry; one that
does not wait stays within the range of the values. -/
def World.AtOnce (w : World) : Input → Prop
  | .semop c id a =>
      (w.server.semopWaits c id a ≠ [] → a.ops.length = 1 ∧ ∀ o ∈ w.server.semopWaits c id a, a.alloc o.semNum = true) ∧
        (w.server.semopReply c id a = some .ok → ∀ o ∈ a.ops, (w.server.value id o.semNum : Int) + o.semOp < ushortSize)
  | _ => True

/-! ## The operations of a request -/

section Request

variable {alter : Bool} {sems : List Semaphore} {ops : List Sembuf}

/-- An operation that the caller has no permission for is not a test for zero, and those before it
are. -/
theorem reached_of_refused (h : reached alter ops ≠ ops) : ∀ o ∈ reached alter ops, o.semOp = 0 := by
  intro o ho
  have hturn := mem_takeWhile_imp ho
  cases alter with
  | true =>
    refine absurd ?_ h
    unfold reached
    simp
  | false => simpa using hturn

theorem sumAt_eq_zero {done : List Sembuf} (h : ∀ o ∈ done, o.semOp = 0) (num : Nat) : sumAt done num = 0 := by
  refine sum_eq_zero fun x hx => ?_
  obtain ⟨o, ho, rfl⟩ := mem_map.mp hx
  exact h o (mem_filter.mp ho).1

/-- Without waiting and with permission all operations are done. -/
theorem performed_eq (hreached : reached alter ops = ops) (hqueued : queued alter sems ops = []) :
    performed alter sems ops = ops ∧ ∀ o ∈ ops, o.possible (valueAt sems o.semNum) = true := by
  unfold queued at hqueued
  rw [hreached, filter_eq_nil_iff] at hqueued
  have hall : ∀ o ∈ ops, o.possible (valueAt sems o.semNum) = true := fun o ho => by simpa using hqueued o ho
  refine ⟨?_, hall⟩
  unfold performed
  rw [hreached, filter_eq_self]
  exact hall

/-- A call of one operation that waits does nothing. -/
theorem performed_of_one (h : queued alter sems [o] ≠ []) : queued alter sems [o] = [o] ∧ performed alter sems [o] = [] ∧
    reached alter [o] = [o] := by
  have hturn : (alter || decide (o.semOp = 0)) = true := by
    cases hno : (alter || decide (o.semOp = 0)) with
    | true => rfl
    | false => exact absurd (by simp only [queued, reached, takeWhile_cons, hno, Bool.false_eq_true, if_false, filter_nil]) h
  have hreached : reached alter [o] = [o] := by simp only [reached, takeWhile_cons, hturn, if_true, takeWhile_nil]
  unfold queued performed at *
  rw [hreached] at h ⊢
  cases hp : o.possible (valueAt sems o.semNum) with
  | true => exact absurd (by simp [hp]) h
  | false => exact ⟨by simp [hp], by simp [hp], rfl⟩

theorem sumAt_of_not_mem {num : Nat} (h : ∀ o ∈ ops, o.semNum ≠ num) : sumAt ops num = 0 := by
  have hnil : ops.filter (fun o => decide (o.semNum = num)) = [] := by
    rw [filter_eq_nil_iff]
    intro o ho heq
    exact h o ho (of_decide_eq_true heq)
  simp [sumAt, hnil]

/-- What one operation of different ones adds. -/
theorem sumAt_of_mem (hnodup : (ops.map (·.semNum)).Nodup) (ho : o ∈ ops) : sumAt ops o.semNum = o.semOp := by
  induction ops with
  | nil => simp at ho
  | cons x ops ih =>
    obtain ⟨hnot, hnodup⟩ := nodup_cons.mp hnodup
    have hcons : sumAt (x :: ops) o.semNum = (if x.semNum = o.semNum then x.semOp else 0) + sumAt ops o.semNum := by
      unfold sumAt
      split <;> simp_all
    rw [hcons]
    rcases mem_cons.mp ho with rfl | ho
    · rw [if_pos rfl, sumAt_of_not_mem fun y hy heq => hnot (mem_map.mpr ⟨y, hy, heq⟩), Int.add_zero]
    · have hne : x.semNum ≠ o.semNum := fun heq => hnot (mem_map.mpr ⟨o, ho, heq.symm⟩)
      rw [if_neg hne, ih hnodup ho, Int.zero_add]

end Request

/-! ## Calls that are woken -/

/-- The call of one operation that an entry stands for. -/
def Does (call : Int × List Sembuf) (e : Entry) : Prop := ∃ o : Sembuf, call = (e.id, [o]) ∧ o.semNum = e.num ∧ o.semOp = e.op

section Woken

variable {v : Values} {calls : List (Int × List Sembuf)} {left : List Entry}

theorem perform_does {call : Int × List Sembuf} (h : Does call e) (id : Int) (num : Nat) :
    perform v call id num = v id num + if e.place = (id, num) then e.op else 0 := by
  obtain ⟨o, rfl, hnum, hop⟩ := h
  unfold perform
  by_cases hid : id = e.id
  · subst hid
    by_cases hn : e.num = num
    · subst hn
      simp [sumAt, Entry.place, hnum, hop]
    · simp [sumAt, Entry.place, hnum, hn]
  · have hne : e.place ≠ (id, num) := fun heq => hid (Prod.mk.inj heq).1.symm
    rw [if_neg hid, if_neg hne]

/-- What woken calls add up to. -/
theorem foldl_perform (h : List.Forall₂ Does calls left) (id : Int) (num : Nat) :
    calls.foldl perform v id num = v id num + total .ok left id num := by
  induction h generalizing v with
  | nil => simp
  | @cons call e calls left hdoes _ ih =>
    rw [foldl_cons, ih, perform_does hdoes]
    have hcons : total .ok (e :: left) id num = (if e.place = (id, num) then e.op else 0) + total .ok left id num := by
      simp only [total, if_true, filter_cons]
      split <;> simp_all
    omega

/-- Calls on different semaphores that are possible are serial. -/
theorem serial_woken (h : List.Forall₂ Does calls left) (hplaces : (left.map Entry.place).Nodup)
    (henabled : ∀ e ∈ left, ∃ val : Nat, e.Enabled val ∧ (val : Int) = v e.id e.num) : Serial v calls (calls.foldl perform v) := by
  induction h generalizing v with
  | nil => exact .nil v
  | @cons call e calls left hdoes _ ih =>
    obtain ⟨hnot, hplaces⟩ := nodup_cons.mp hplaces
    obtain ⟨⟨val, hen, hval⟩, hrest⟩ := forall_mem_cons.mp henabled
    refine .cons ?_ (ih hplaces fun e' he' => ?_)
    · obtain ⟨o, rfl, hnum, hop⟩ := hdoes
      intro o' ho'
      obtain rfl := mem_singleton.mp ho'
      unfold Entry.Enabled at hen
      rw [hnum, hop, ← hval]
      by_cases hzero : e.op = 0
      · rw [if_pos hzero] at hen ⊢
        omega
      · rw [if_neg hzero] at hen ⊢
        omega
    · obtain ⟨val', hen', hval'⟩ := hrest e' he'
      have hne : e.place ≠ (e'.id, e'.num) := fun heq => hnot (mem_map.mpr ⟨e', he', heq.symm⟩)
      exact ⟨val', hen', by rw [perform_does hdoes, if_neg hne, Int.add_zero, hval']⟩

end Woken

/-- The call of a process that is in a list. -/
theorem find_call {calls : List Call} (hnodup : (calls.map (·.who)).Nodup) (hone : ∀ c ∈ calls, c.waits.length = 1)
    (hperm : queue.Perm (calls.flatMap Call.entries)) (he : e ∈ queue) :
    ∃ c ∈ calls, calls.find? (fun c => c.who = e.who) = some c ∧ c.entries = [e] := by
  obtain ⟨c, hc, hec⟩ := mem_flatMap.mp (hperm.mem_iff.mp he)
  obtain ⟨o, ho⟩ := length_eq_one_iff.mp (hone c hc)
  have hentries : c.entries = [Sembuf.entry c.who c.id o] := by rw [Call.entries, ho, map_singleton]
  rw [hentries] at hec
  obtain rfl := mem_singleton.mp hec
  refine ⟨c, hc, ?_, hentries⟩
  show calls.find? (fun x => decide (x.who = c.who)) = some c
  have hsome : (calls.find? fun x => decide (x.who = c.who)).isSome := find?_isSome.mpr ⟨c, hc, by simp⟩
  obtain ⟨c', hfind⟩ := isSome_iff_exists.mp hsome
  have hwho : c'.who = c.who := by
    have hp := find?_some hfind
    simpa using hp
  rw [hfind, inj_on_of_nodup_map hnodup (mem_of_find?_eq_some hfind) hc hwho]

/-- The calls of the processes that are told that they are done. -/
theorem told_does {calls calls' : List Call} (hsub : ∀ c ∈ calls', c ∈ calls)
    (hnodup : (calls.map (·.who)).Nodup) (hone : ∀ c ∈ calls, c.waits.length = 1) (hops : ∀ c ∈ calls, c.ops = c.waits)
    (hperm : queue.Perm (calls'.flatMap Call.entries)) (hleft : ∀ e ∈ left, e ∈ queue) :
    List.Forall₂ Does ((left.map (Entry.message .ok)).filterMap (completedBy calls)) left := by
  induction left with
  | nil => exact .nil
  | cons e left ih =>
    obtain ⟨he, hrest⟩ := forall_mem_cons.mp hleft
    obtain ⟨c, hc, hec⟩ := mem_flatMap.mp (hperm.mem_iff.mp he)
    obtain ⟨c', hc', hfind, hentries⟩ := find_call hnodup hone (.refl _) (mem_flatMap.mpr ⟨c, hsub c hc, hec⟩)
    obtain ⟨o, ho⟩ := length_eq_one_iff.mp (hone c' hc')
    rw [Call.entries, ho, map_singleton] at hentries
    obtain rfl : Sembuf.entry c'.who c'.id o = e := by simpa using hentries
    have hcall : completedBy calls (Entry.message .ok (Sembuf.entry c'.who c'.id o)) = some (c'.id, [o]) := by
      rw [← ho, ← hops c' hc']
      exact congrArg (Option.map fun c : Call => (c.id, c.ops)) hfind
    rw [map_cons, filterMap_cons_some hcall]
    exact .cons ⟨o, rfl, rfl, rfl⟩ (ih hrest)

/-! ## Runs -/

namespace Books

/-- The values of the semaphores and the books. -/
def Agrees (s : State) (v : Values) : Prop := ∀ id num, Has s.semList id num → (s.value id num : Int) = v id num

/-- The books of a run. -/
structure Tallied (b : Books) : Prop where
  sound : b.world.Sound
  ops : ∀ c ∈ b.world.calls, c.ops = c.waits
  agrees : Agrees b.world.server b.sums
  fresh : ∀ id num, b.world.server.identifier ≤ id → b.sums id num = 0

variable {s s' : State} {v : Values}

section

variable (h : Agrees s v) (hdrops : s.Drops .ok left s') (hdoes : List.Forall₂ Does calls left)
include h hdrops hdoes

theorem serial_drops : Serial v calls (calls.foldl perform v) := by
  obtain ⟨hplaces, henabled⟩ := hdrops.sets.enabled rfl
  exact serial_woken hdoes hplaces fun e he => ⟨_, henabled e he, h _ _ (hdrops.sets.place e he)⟩

end

/-- Nothing is added for identifiers that have not been given out. -/
theorem foldl_fresh (hs : s.Sound) (hdrops : s.Drops .ok left s')
    (hdoes : List.Forall₂ Does calls left) (hid : s.identifier ≤ id) {num : Nat} :
    calls.foldl perform v id num = v id num := by
  rw [foldl_perform hdoes, Entry.total_eq_zero, Int.add_zero]
  intro e he hplace
  obtain ⟨sem, hsem, heq, -⟩ := hdrops.sets.place e he
  have hlt := hs.given sem hsem
  rw [heq, (Prod.mk.inj hplace).1] at hlt
  omega

variable {w : World}

/-- A call that waits only when it has a single operation. -/
theorem oneWait_of_single (hwait : w.server.semopWaits c id a ≠ [] →
      a.ops.length = 1 ∧ ∀ o ∈ w.server.semopWaits c id a, a.alloc o.semNum = true) : w.OneWait (.semop c id a) := by
  by_cases hnil : w.server.semopWaits c id a = []
  · exact ⟨by simp [hnil], by simp [hnil], fun _ => hnil⟩
  obtain ⟨hone, halloc⟩ := hwait hnil
  obtain ⟨o, ho⟩ := length_eq_one_iff.mp hone
  unfold semopWaits at hnil halloc
  cases hset : w.server.semopSet c id a with
  | error r => simp [hset] at hnil
  | ok found =>
    simp only [hset, ho] at hnil halloc
    obtain ⟨hq, -, hreached⟩ := performed_of_one hnil
    refine ⟨?_, ?_, ?_⟩
    · simp only [semopWaits, hset, ho, hq, length_singleton, Nat.le_refl]
    · simpa only [semopWaits, hset, ho] using halloc
    · simp only [semopRefused, hset, ho, hreached, ne_eq, not_true_eq_false, decide_false, Bool.false_eq_true, false_imp_iff]

theorem AtOnce.oneWait (h : w.AtOnce i) : w.OneWait i := by
  cases i with
  | semop c id a => exact oneWait_of_single h.1
  | _ => trivial

/-- A call without a reply waits for its only operation. -/
theorem ops_eq_waits (hat : w.AtOnce (.semop c id a))
    (hnone : w.server.semopReply c id a = none) : a.ops = w.server.semopWaits c id a := by
  unfold semopReply at hnone
  obtain ⟨hwait, -⟩ := hat
  unfold semopWaits at hwait hnone ⊢
  cases hset : w.server.semopSet c id a with
  | error r => simp [hset] at hnone
  | ok found =>
    simp only [hset] at hnone hwait ⊢
    split_ifs at hnone with hrefused hnil
    obtain ⟨o, ho⟩ := length_eq_one_iff.mp (hwait hnil).1
    rw [ho] at hnil ⊢
    exact (performed_of_one hnil).1.symm

/-- The caller's own operations: all of them when the reply says so, and none of them otherwise. -/
theorem semop_values (hs : w.server.Sound) (hat : w.AtOnce (.semop c id a))
    (hag : Agrees w.server v) (hvalue : ∀ id' num, (s.value id' num : Int) =
      if id' = id then ((w.server.value id num : Int) + sumAt (w.server.semopDone c id a) num) % ushortSize
      else w.server.value id' num) {own : List (Int × List Sembuf)}
    (hown : own = if w.server.semopReply c id a = some .ok then [(id, a.ops)] else []) :
    Serial v own (own.foldl perform v) ∧
      (∀ id' num, Has w.server.semList id' num → (s.value id' num : Int) = own.foldl perform v id' num) ∧
      ∀ id' num, w.server.identifier ≤ id' → own.foldl perform v id' num = v id' num := by
  have hlt := hs.value_lt
  -- With nothing done the values are the old ones.
  have hnothing : own = [] → (∀ o ∈ w.server.semopDone c id a, o.semOp = 0) → Serial v own (own.foldl perform v) ∧
      (∀ id' num, Has w.server.semList id' num → (s.value id' num : Int) = own.foldl perform v id' num) ∧
      ∀ id' num, w.server.identifier ≤ id' → own.foldl perform v id' num = v id' num := by
    rintro rfl hdone
    refine ⟨.nil v, fun id' num hh => ?_, fun _ _ _ => rfl⟩
    rw [hvalue, sumAt_eq_zero hdone, foldl_nil, ← hag id' num hh]
    split_ifs with heq
    · rw [heq]
      exact (eq_emod_ushort (hlt id num)).symm
    · rfl
  obtain ⟨hwait, hrange⟩ := hat
  unfold semopReply semopRefused semopWaits semopDone at *
  cases hset : w.server.semopSet c id a with
  | error r =>
    simp only [hset, some.injEq, if_neg (semopSet_eq_error hset)] at hown hnothing
    exact hnothing hown (by simp)
  | ok found =>
    obtain ⟨i, sem⟩ := found
    obtain ⟨hsem, hin, hnodup⟩ := semopSet_eq_ok hset
    obtain ⟨hi, rfl⟩ := semAt_eq_some hsem
    simp only [hset] at hown hnothing hwait hrange hvalue
    by_cases hreached : reached (checkPerm sem.semPerm c 0o222) a.ops = a.ops
    · by_cases hnil : queued (checkPerm sem.semPerm c 0o222) sem.sems a.ops = []
      · simp only [hreached, hnil, ne_eq, not_true_eq_false, decide_false, Bool.false_eq_true, if_false, if_true, forall_const]
          at hown hrange
        subst hown
        obtain ⟨hdone, hpossible⟩ := performed_eq hreached hnil
        have hp : ∀ o ∈ a.ops, if o.semOp = 0 then w.server.value sem.id o.semNum = 0
            else 0 ≤ (w.server.value sem.id o.semNum : Int) + o.semOp := fun o ho => by
          rw [hs.value_eq hi]
          exact Sembuf.possible_iff.mp (hpossible o ho)
        refine ⟨.cons (fun o ho => ?_) (.nil _), fun id' num hh => ?_, fun id' num hid => ?_⟩
        · have hpo := hp o ho
          rw [← hag _ _ ⟨sem, mem_of_getElem? hi, rfl, hin o ho⟩]
          split at hpo
          · rw [if_pos ‹_›]
            omega
          · rw [if_neg ‹_›]
            exact hpo
        · rw [hvalue, hdone]
          show _ = perform v (sem.id, a.ops) id' num
          unfold perform
          by_cases hid : id' = sem.id
          · subst hid
            rw [if_pos rfl, if_pos rfl, ← hag _ _ hh]
            have hl := hlt sem.id num
            unfold ushortSize at hl hrange ⊢
            by_cases hmem : ∃ o ∈ a.ops, o.semNum = num
            · obtain ⟨o, ho, rfl⟩ := hmem
              have hpo := hp o ho
              have hr := hrange o ho
              rw [sumAt_of_mem hnodup ho]
              split at hpo
              all_goals omega
            · rw [sumAt_of_not_mem fun o ho heq => hmem ⟨o, ho, heq⟩]
              omega
          · rw [if_neg hid, if_neg hid, hag _ _ hh, Int.add_zero]
        · have hgiven := hs.given sem (mem_of_getElem? hi)
          show perform v (sem.id, a.ops) id' num = v id' num
          unfold perform
          rw [if_neg (by omega), Int.add_zero]
      · simp only [hreached, hnil, ne_eq, not_true_eq_false, decide_false, Bool.false_eq_true, if_false, reduceCtorEq] at hown
        obtain ⟨o, ho⟩ := length_eq_one_iff.mp (hwait hnil).1
        rw [ho] at hnil hnothing
        refine hnothing hown ?_
        rw [(performed_of_one hnil).2.1]
        simp
    · simp only [hreached, ne_eq, not_false_eq_true, decide_true, if_true, some.injEq, reduceCtorEq, if_false] at hown
      exact hnothing hown fun o ho => reached_of_refused hreached o (mem_filter.mp ho).1

/-- Messages that say something else complete nothing. -/
theorem completedBy_of_ne {calls : List Call} {type : Status} (h : type ≠ .ok) :
    (left.map (Entry.message type)).filterMap (completedBy calls) = [] := by
  rw [filterMap_eq_nil_iff]
  intro m hm
  obtain ⟨e, -, rfl⟩ := mem_map.mp hm
  exact if_neg h

/-- Control requests and the books. -/
theorem agrees_assigned {num : Int} {answer : Answer}
    {update : Bool} (hag : Agrees w.server v) (hctl : w.server.semctl c id num cmd = some (answer, s, sent, update))
    (hcontrolled : w.server.Controlled id num cmd s left update) : Agrees s (w.assigned v (.semctl c id num cmd)) := by
  rintro id' n ⟨sem, hsem, rfl, hn⟩
  have hhas : Has w.server.semList sem.id n := hcontrolled.has _ _ ⟨sem, hsem, rfl, hn⟩
  rw [hcontrolled.value sem hsem n hn]
  simp only [World.assigned, hctl]
  cases update with
  | false =>
    simp only [any_some, Bool.false_eq_true, and_false, if_false]
    exact hag _ _ hhas
  | true =>
    simp only [any_some, and_true, if_true]
    by_cases hid : sem.id = id
    · rw [if_pos hid, if_pos hid]
      cases cmd.stores num n with
      | none =>
        exact hag _ _ (hid ▸ hhas)
      | some val => rfl
    · rw [if_neg hid, if_neg hid]
      exact hag _ _ hhas

/-- Nothing is set for identifiers that have not been given out. -/
theorem assigned_fresh (hs : w.server.Sound) {num : Int} {id' : Int} (hid : w.server.identifier ≤ id')
    (n : Nat) : w.assigned v (.semctl c id num cmd) id' n = v id' n := by
  unfold World.assigned
  simp only []
  have hcontrols := semctl_controls w.server c id num cmd
  generalize w.server.semctl c id num cmd = out at hcontrols
  have hother : ∀ {i : Nat} {sem : SemStruct}, w.server.semAt id = some (i, sem) → id' ≠ id := by
    rintro i sem hat rfl
    obtain ⟨hi, rfl⟩ := semAt_eq_some hat
    have hlt := hs.given sem (mem_of_getElem? hi)
    omega
  cases hcontrols with
  | same cmd answer => rfl
  | perm hat answer perm => rfl
  | @removed i sem hat answer =>
    cases sem.dismiss with
    | none => rfl
    | some sent => rfl
  | all hat answer => simp [hother hat]
  | val hat answer hx hval => simp [hother hat]

/-- `update_semaphores` and the books. -/
theorem agrees_woken (hs : s.Sound) (hag : Agrees s v) (hdrops : s.Drops .ok left s') {calls calls' : List Call}
    (hsub : ∀ c ∈ calls', c ∈ calls) (hnodup : (calls.map (·.who)).Nodup) (hone : ∀ c ∈ calls, c.waits.length = 1)
    (hops : ∀ c ∈ calls, c.ops = c.waits) (hperm : s.queue.Perm (calls'.flatMap Call.entries)) :
    Agrees s' (((left.map (Entry.message .ok)).filterMap (completedBy calls)).foldl perform v) ∧
      Serial v ((left.map (Entry.message .ok)).filterMap (completedBy calls))
        (((left.map (Entry.message .ok)).filterMap (completedBy calls)).foldl perform v) ∧
      ∀ id num, s.identifier ≤ id →
        ((left.map (Entry.message .ok)).filterMap (completedBy calls)).foldl perform v id num = v id num := by
  have hleft : ∀ e ∈ left, e ∈ s.queue := fun e he => hdrops.queue.mem_iff.mpr (mem_append_right _ he)
  have hdoes := told_does hsub hnodup hone hops hperm hleft
  refine ⟨fun id num hhas => ?_, serial_drops hag hdrops hdoes, fun id num hid => foldl_fresh hs hdrops hdoes hid⟩
  rw [hdrops.value, foldl_perform hdoes, hag id num ((hdrops.sets.has id num).mp hhas)]

theorem mem_deliver {calls : List Call} {c : Call} (h : c ∈ World.deliver calls sent) : c ∈ calls :=
  mem_of_mem_filter h

variable {b b' : Books}

/-- A message keeps the books, and what it completes is serial. -/
theorem Tallied.step (h : b.Tallied) (hlegal : b.world.Legal i) (hat : b.world.AtOnce i) (hstep : b.step i = some b') :
    b'.Tallied ∧ Serial (b.world.assigned b.sums i) (b.completed i) b'.sums := by
  obtain ⟨w', hw', rfl⟩ := map_eq_some_iff.mp hstep
  have hsound := h.sound.step hlegal (AtOnce.oneWait hat) hw'
  obtain ⟨out, hout, rfl⟩ := map_eq_some_iff.mp hw'
  have hcompleted : b.completed i = b.world.completed i out := by
    unfold Books.completed
    rw [hout]
  rw [hcompleted]
  -- Calls that go on are old ones or the one of the caller.
  have hold : b.world.begun out i = [] → ∀ c ∈ World.deliver (b.world.calls ++ b.world.begun out i) out.sent, c.ops = c.waits := by
    intro hnil c hc
    rw [hnil, append_nil] at hc
    exact h.ops c (mem_deliver hc)
  cases i with
  | semget c key nsems flag =>
    obtain ⟨-, -, hident, hhas, hvalue⟩ := h.sound.server.doSemget c key nsems flag
    have hstate : out = ⟨(b.world.server.doSemget c key nsems flag).2.2,
        some ⟨(b.world.server.doSemget c key nsems flag).1, (b.world.server.doSemget c key nsems flag).2.1, none⟩, none, []⟩ :=
      (some.inj hout).symm
    subst hstate
    refine ⟨⟨hsound, hold rfl, fun id num hh => ?_, fun id num hid => ?_⟩, .nil _⟩
    · rw [hvalue]
      rcases hhas id num hh with hh | hid
      · exact h.agrees id num hh
      · rw [h.sound.server.value_fresh hid]
        exact (h.fresh id num hid).symm
    · exact h.fresh id num (Int.le_trans hident hid)
  | semctl c id num cmd =>
    obtain ⟨answer, s1, gone, update, hctl, hcontrolled⟩ := h.sound.server.semctl c id num cmd
    simp only [handle, hctl, bind_some, map_eq_some_iff, Prod.exists] at hout
    obtain ⟨s2, sent, hafter, rfl⟩ := hout
    obtain ⟨left, rfl, hdrops⟩ := hcontrolled.sound.afterwards hafter
    have hfirst := h.sound.leaves hcontrolled.sound gone hcontrolled.queue .eidrm
    have hag := agrees_assigned h.agrees hctl hcontrolled
    obtain ⟨hagrees, hserial, hfresh⟩ := agrees_woken hcontrolled.sound hag hdrops
      (show ∀ c ∈ World.deliver b.world.calls (gone.map (Entry.message .eidrm)), c ∈ b.world.calls from fun c hc => mem_deliver hc)
      h.sound.callers h.sound.one h.ops hfirst.queue
    have hdone : b.world.completed (.semctl c id num cmd)
          ⟨s2, some answer, none, gone.map (Entry.message .eidrm) ++ left.map (Entry.message .ok)⟩ =
        (left.map (Entry.message .ok)).filterMap (completedBy b.world.calls) := by
      simp only [World.completed, World.begun, append_nil, nil_append, filterMap_append]
      rw [completedBy_of_ne (by simp), nil_append]
    rw [hdone]
    refine ⟨⟨hsound, hold rfl, hagrees, fun id' n hid => ?_⟩, hserial⟩
    have hid' : b.world.server.identifier ≤ id' := by
      rw [← hcontrolled.identifier, ← hdrops.identifier]
      exact hid
    show foldl perform _ _ id' n = 0
    rw [hfresh id' n (hcontrolled.identifier ▸ hid'), assigned_fresh h.sound.server hid']
    exact h.fresh id' n hid'
  | semop c id a =>
    obtain ⟨s1, hop, hs1, hbegin, hident, hhas, hvalue⟩ := h.sound.begin hlegal (AtOnce.oneWait hat)
    simp only [handle, hop, bind_some, map_eq_some_iff, Prod.exists] at hout
    obtain ⟨s2, sent, hafter, rfl⟩ := hout
    obtain ⟨left, rfl, hdrops⟩ := hs1.afterwards hafter
    -- The call of a process that goes into a list has one operation.
    have hops : ∀ x ∈ (b.world.begin c id a s1 (b.world.server.semopReply c id a)).calls, x.ops = x.waits := by
      intro x hx
      rcases mem_append.mp hx with hx | hx
      · exact h.ops x hx
      · split_ifs at hx with hnone
        · obtain rfl := mem_singleton.mp hx
          exact ops_eq_waits hat hnone
        · simp at hx
    generalize hown : (if b.world.server.semopReply c id a = some .ok then [(id, a.ops)] else []) = own
    obtain ⟨hownSerial, hownValue, hownFresh⟩ := semop_values h.sound.server hat h.agrees hvalue hown.symm
    have hag : Agrees s1 (own.foldl perform b.sums) := fun id' num hh => hownValue id' num (hhas id' num hh)
    obtain ⟨hagrees, hserial, hfresh⟩ := agrees_woken hs1 hag hdrops (fun _ hc => hc) hbegin.callers hbegin.one hops hbegin.queue
    have hdone : b.world.completed (.semop c id a)
          ⟨s2, none, b.world.server.semopReply c id a, left.map (Entry.message .ok)⟩ = own ++ (left.map (Entry.message .ok)).filterMap
          (completedBy (b.world.begin c id a s1 (b.world.server.semopReply c id a)).calls) := by
      rw [← hown]
      rfl
    rw [hdone, foldl_append]
    refine ⟨⟨hsound, fun x hx => hops x (mem_deliver hx), hagrees, fun id' n hid => ?_⟩, hownSerial.append hserial⟩
    have hid' : b.world.server.identifier ≤ id' := by
      rw [← hident, ← hdrops.identifier]
      exact hid
    exact (hfresh id' n (hident ▸ hid')).trans ((hownFresh id' n hid').trans (h.fresh id' n hid'))
  | exits pts =>
    obtain ⟨s1, left, hnotify, hdrops⟩ := h.sound.server.semProcessVmNotify pts
    simp only [handle, hnotify, map_some, some.injEq] at hout
    subst hout
    have hdone : b.world.completed (.exits pts) ⟨s1, none, none, left.map (Entry.message .eintr)⟩ = [] := by
      exact completedBy_of_ne (by simp)
    rw [hdone]
    refine ⟨⟨hsound, hold rfl, fun id num hh => ?_, fun id num hid => ?_⟩, .nil _⟩
    · have hvalue := hdrops.value id num
      rw [hvalue]
      exact h.agrees id num ((hdrops.sets.has id num).mp hh)
    · exact h.fresh id num (hdrops.identifier ▸ hid)
  | shm ids =>
    obtain rfl := some.inj hout
    refine ⟨⟨hsound, hold rfl, h.agrees, fun id num hid => h.fresh id num ?_⟩, .nil _⟩
    have hle : b.world.server.identifier + (ids : Int) ≤ id := hid
    omega

theorem tallied_boot : boot.Tallied where
  sound := World.sound_boot
  ops := by simp [boot, World.boot]
  agrees := by
    rintro id num ⟨sem, hsem, -⟩
    simp [boot, World.boot] at hsem
  fresh _ _ _ := rfl

/-- The books after messages that meet a condition. -/
inductive Reached (P : World → Input → Prop) : Books → Prop
  | boot : Reached P boot
  | step {b b' : Books} {i : Input} (h : Reached P b) (hlegal : b.world.Legal i) (hP : P b.world i) (hstep : b.step i = some b') :
      Reached P b'

theorem Reached.tallied (h : Reached World.AtOnce b) : b.Tallied := by
  induction h with
  | boot => exact tallied_boot
  | step _ hlegal hp hstep ih => exact (ih.step hlegal hp hstep).1

theorem Tallied.balanced (h : b.Tallied) : b.Balanced := by
  intro sem hsem n hn
  rw [← h.agrees sem.id n ⟨sem, hsem, rfl, hn⟩]
  exact congrArg _ (valueOf_of_mem h.sound.server.ids hsem).symm

/-- The books after a message. -/
def after (b : Books) (i : Input) : Books := (b.step i).getD b

theorem Reached.after {P : World → Input → Prop} (h : Reached P b) (hlegal : b.world.Legal i) (hP : P b.world i)
    (hsome : (b.step i).isSome) : Reached P (b.after i) := by
  obtain ⟨b', hstep⟩ := isSome_iff_exists.mp hsome
  unfold Books.after
  rw [hstep]
  exact h.step hlegal hP hstep

end Books

/-- In every run in which a call that has to wait has one operation and no value leaves its range,
every semaphore has the value it was last set to plus the operations of the completed calls, and
each call is done at once, when all its operations are possible. -/
theorem semop_atomic {b : Books} (h : Books.Reached World.AtOnce b) :
    b.Balanced ∧ ∀ i b', b.world.Legal i → b.world.AtOnce i → b.step i = some b' →
      b'.Balanced ∧ Serial (b.world.assigned b.sums i) (b.completed i) b'.sums := by
  refine ⟨h.tallied.balanced, fun i b' hlegal hat hstep => ?_⟩
  obtain ⟨htallied, hserial⟩ := h.tallied.step hlegal hat hstep
  exact ⟨htallied.balanced, hserial⟩

/-- A process takes from two semaphores at once. -/
theorem semop_atomic_two : ((((Books.boot.after twoSems).after (setVal 0 3)).after (setVal 1 2)).after
      (semopOf (superuser 2) [⟨0, -1, false⟩, ⟨1, -2, false⟩])).Balanced ∧
    ((((Books.boot.after twoSems).after (setVal 0 3)).after (setVal 1 2)).after
      (semopOf (superuser 2) [⟨0, -1, false⟩, ⟨1, -2, false⟩])).sums 0x1234 0 = 2 := by
  refine ⟨(semop_atomic ?_).1, by decide +kernel⟩
  refine .after (.after (.after (.after .boot ?_ trivial ?_) ?_ trivial ?_) ?_ trivial ?_) ?_ ⟨?_, ?_⟩ ?_
  all_goals decide +kernel

/-- A call that waits for its second operation has done its first one; a value beyond the range of
`unsigned short` starts again; a call without memory for its entry is answered and not done. -/
theorem semop_partly :
    (Books.Reached (fun _ _ => True) (((Books.boot.after twoSems).after (setVal 0 1)).after
        (semopOf (superuser 2) [⟨0, -1, false⟩, ⟨1, -1, false⟩])) ∧
      ¬ (((Books.boot.after twoSems).after (setVal 0 1)).after
        (semopOf (superuser 2) [⟨0, -1, false⟩, ⟨1, -1, false⟩])).Balanced) ∧
    (Books.Reached (fun _ _ => True) ((((Books.boot.after twoSems).after (setVal 0 32767)).after
        (semopOf (superuser 2) [⟨0, 32767, false⟩])).after (semopOf (superuser 2) [⟨0, 2, false⟩])) ∧
      ¬ ((((Books.boot.after twoSems).after (setVal 0 32767)).after
        (semopOf (superuser 2) [⟨0, 32767, false⟩])).after (semopOf (superuser 2) [⟨0, 2, false⟩])).Balanced) ∧
    (Books.Reached (fun _ _ => True) ((Books.boot.after twoSems).after
        (.semop (superuser 2) 0x1234 ⟨[⟨0, -1, false⟩], true, true, fun _ => false⟩)) ∧
      ¬ ((Books.boot.after twoSems).after (.semop (superuser 2) 0x1234 ⟨[⟨0, -1, false⟩], true, true, fun _ => false⟩)).Balanced) := by
  refine ⟨⟨.after (.after (.after .boot ?_ trivial ?_) ?_ trivial ?_) ?_ trivial ?_, ?_⟩,
    ⟨.after (.after (.after (.after .boot ?_ trivial ?_) ?_ trivial ?_) ?_ trivial ?_) ?_ trivial ?_, ?_⟩,
    ⟨.after (.after .boot ?_ trivial ?_) ?_ trivial ?_, ?_⟩⟩
  all_goals decide +kernel

end Minix.IpcServer
