/-
  IpcServer/SemRun.lean --- runs of the server with the processes that call it.

  Beside the tables stand the `semop` calls that have not been answered, each with the
  operations it waits for, and how often each process has called and has been answered.  A
  process that waits for the answer to `semop` makes no request.
-/
import Minix.IpcServer.SemCalls

set_option autoImplicit false

namespace Minix.IpcServer

open Minix.Foundation List
open Entry (total)

variable {s : State} {i : Input} {e : Entry} {sems : List Semaphore} {x : Semaphore}

/-- A `semop` call that has not been answered. -/
structure Call where
  who : Endpoint
  id : Int
  ops : List Sembuf
  waits : List Sembuf
deriving DecidableEq, Repr

variable {calls : List Call}

/-- The entries that belong to a call. -/
def Call.entries (c : Call) : List Entry := c.waits.map (Sembuf.entry c.who c.id)

/-- The server and its callers. -/
structure World where
  server : State
  calls : List Call
  made : Endpoint → Nat
  replied : Endpoint → Nat

variable {w : World}

namespace World

/-- The server after its start. -/
def boot : World := ⟨⟨[], 0x1234⟩, [], fun _ => 0, fun _ => 0⟩

/-- The call that a `semop` request without a reply begins. -/
def begun (w : World) (out : Outcome) : Input → List Call
  | .semop c id a => if out.reply = none then [⟨c.who, id, a.ops, w.server.semopWaits c id a⟩] else []
  | _ => []

/-- The caller of a `semop` request. -/
def caller : Input → Option Endpoint
  | .semop c _ _ => some c.who
  | _ => none

/-- Messages to processes that wait end their calls. -/
def deliver (calls : List Call) (sent : List Send) : List Call := calls.filter fun c => c.who ∉ sent.map (·.dest)

/-- The server handles a message. -/
def step (w : World) (i : Input) : Option World :=
  (w.server.handle i).map fun out =>
    { server := out.state
      calls := deliver (w.calls ++ w.begun out i) out.sent
      made := fun e => w.made e + if caller i = some e then 1 else 0
      replied := fun e => w.replied e + (if caller i = some e ∧ out.reply.isSome then 1 else 0) + (out.sent.map (·.dest)).count e }

/-- The process waits for no answer. -/
def Idle (w : World) (e : Endpoint) : Prop := ∀ c ∈ w.calls, c.who ≠ e

/-- A message can come in this state: a process that waits for an answer makes no request, and there
are at most `NR_PROCS` processes. -/
def Legal (w : World) : Input → Prop
  | .semget c _ _ _ => w.Idle c.who
  | .semctl c _ _ _ => w.Idle c.who
  | .semop c _ _ => w.Idle c.who ∧ w.calls.length < nrProcs
  | _ => True

/-- A `semop` request waits for one operation at most: it is entered into one list, and it is not
refused after that. -/
def OneWait (w : World) : Input → Prop
  | .semop c id a =>
      (w.server.semopWaits c id a).length ≤ 1 ∧ (∀ o ∈ w.server.semopWaits c id a, a.alloc o.semNum = true) ∧
        (w.server.semopRefused c id a → w.server.semopWaits c id a = [])
  | _ => True

/-- When the processes that wait are looked at, no list of processes that wait for zero is there
that has become empty while the value is zero. -/
def NoneEmptied (w : World) : Input → Prop
  | .semop c id a => ∀ s r, w.server.semop c id a = some (s, r) → s.Settled
  | .semctl c id num cmd => ∀ answer s sent, w.server.semctl c id num cmd = some (answer, s, sent, true) → s.Settled
  | _ => True

/-- The queue of the server has an entry for each call. -/
structure Sound (w : World) : Prop where
  server : w.server.Sound
  callers : (w.calls.map (·.who)).Nodup
  one : ∀ c ∈ w.calls, c.waits.length = 1
  queue : w.server.queue.Perm (w.calls.flatMap Call.entries)
  replies : ∀ e, w.replied e + (if e ∈ w.calls.map (·.who) then 1 else 0) = w.made e

/-! ## Delivery -/

section Deliver

variable {calls : List Call} {queue left : List Entry}

theorem entries_who (hone : ∀ c ∈ calls, c.waits.length = 1) : (calls.flatMap Call.entries).map (·.who) = calls.map (·.who) := by
  induction calls with
  | nil => rfl
  | cons c calls ih =>
    obtain ⟨hc, hcalls⟩ := forall_mem_cons.mp hone
    obtain ⟨o, ho⟩ := length_eq_one_iff.mp hc
    rw [flatMap_cons, map_append, ih hcalls, Call.entries, ho]
    rfl

section

variable (hnodup : (calls.map (·.who)).Nodup) (hone : ∀ c ∈ calls, c.waits.length = 1)
    (hperm : (calls.flatMap Call.entries).Perm (queue ++ left)) (type : Status)
include hnodup hone hperm

/-- The calls that are left belong to the entries that are left. -/
theorem deliver_perm :
    queue.Perm ((deliver calls (left.map (Entry.message type))).flatMap Call.entries) := by
  have hdest : (left.map (Entry.message type)).map (·.dest) = left.map (·.who) := by simp [Entry.message]
  have hwho : ((queue ++ left).map (·.who)).Nodup := by
    refine (hperm.map (·.who)).nodup_iff.mp ?_
    rw [entries_who hone]
    exact hnodup
  rw [map_append, nodup_append] at hwho
  have hfilter := hperm.filter fun e => e.who ∉ left.map (·.who)
  have hqueue : queue.filter (fun e => decide (e.who ∉ left.map (·.who))) = queue := by
    rw [filter_eq_self]
    intro e he
    have hnot : e.who ∉ left.map (·.who) := fun hin => hwho.2.2 e.who (mem_map.mpr ⟨e, he, rfl⟩) _ hin rfl
    simpa using hnot
  have hleft : left.filter (fun e => decide (e.who ∉ left.map (·.who))) = [] := by
    rw [filter_eq_nil_iff]
    intro e he
    have hin : e.who ∈ left.map (·.who) := mem_map.mpr ⟨e, he, rfl⟩
    simpa using hin
  rw [filter_append, hqueue, hleft, append_nil] at hfilter
  refine hfilter.symm.trans (Perm.of_eq ?_)
  rw [filter_flatMap, deliver, hdest]
  -- All entries of a call have its process.
  clear hfilter hqueue hleft hperm hnodup hone hwho hdest
  induction calls with
  | nil => rfl
  | cons c calls ih =>
    rw [flatMap_cons, ih, filter_cons]
    by_cases hin : c.who ∈ left.map (·.who)
    · have hnil : c.entries.filter (fun e => decide (e.who ∉ left.map (·.who))) = [] := by
        rw [filter_eq_nil_iff]
        intro e he
        obtain ⟨o, -, rfl⟩ := mem_map.mp he
        simpa [Sembuf.entry] using hin
      rw [hnil, nil_append, if_neg (by simpa using hin)]
    · have hall : c.entries.filter (fun e => decide (e.who ∉ left.map (·.who))) = c.entries := by
        rw [filter_eq_self]
        intro e he
        obtain ⟨o, -, rfl⟩ := mem_map.mp he
        simpa [Sembuf.entry] using hin
      rw [hall, if_pos (by simpa using hin), flatMap_cons]

/-- Every call that ends gets one message. -/
theorem count_message (e : Endpoint) : ((left.map (Entry.message type)).map (·.dest)).count e +
        (if e ∈ (deliver calls (left.map (Entry.message type))).map (·.who) then 1 else 0) =
      if e ∈ calls.map (·.who) then 1 else 0 := by
  have hdest : (left.map (Entry.message type)).map (·.dest) = left.map (·.who) := by simp [Entry.message]
  have hwho := (hperm.map (·.who)).trans (Perm.of_eq map_append)
  rw [entries_who hone] at hwho
  have hcount := hwho.count_eq e
  rw [count_append] at hcount
  have hle : (calls.map (·.who)).count e ≤ 1 := nodup_iff_count_le_one.mp hnodup e
  have hmem : e ∈ (deliver calls (left.map (Entry.message type))).map (·.who) ↔ e ∈ calls.map (·.who) ∧ e ∉ left.map (·.who) := by
    rw [deliver, hdest]
    constructor
    · intro h
      obtain ⟨c, hc, rfl⟩ := mem_map.mp h
      obtain ⟨hc, hnot⟩ := mem_filter.mp hc
      exact ⟨mem_map.mpr ⟨c, hc, rfl⟩, by simpa using hnot⟩
    · rintro ⟨h, hnot⟩
      obtain ⟨c, hc, rfl⟩ := mem_map.mp h
      exact mem_map.mpr ⟨c, mem_filter.mpr ⟨hc, by simpa using hnot⟩, rfl⟩
  rw [hdest]
  by_cases hin : e ∈ left.map (·.who)
  · have hpos : 0 < (left.map (·.who)).count e := count_pos_iff.mpr hin
    have hcalls : e ∈ calls.map (·.who) := count_pos_iff.mp (by omega)
    rw [if_neg fun h => (hmem.mp h).2 hin, if_pos hcalls]
    omega
  · rw [count_eq_zero_of_not_mem hin, Nat.zero_add]
    by_cases hcalls : e ∈ calls.map (·.who)
    · rw [if_pos (hmem.mpr ⟨hcalls, hin⟩), if_pos hcalls]
    · rw [if_neg fun h => hcalls (hmem.mp h).1, if_neg hcalls]

end

theorem deliver_append (calls : List Call) (sent more : List Send) :
    deliver calls (sent ++ more) = deliver (deliver calls sent) more := by
  unfold deliver
  rw [filter_filter]
  refine filter_congr fun c _ => ?_
  rw [Bool.and_comm]
  simp

theorem deliver_nil (calls : List Call) : deliver calls [] = calls := by
  unfold deliver
  simp

end Deliver

/-- Entries leave the queue and their processes are told. -/
theorem Sound.leaves (h : w.Sound) (hs : s.Sound) (left : List Entry) (hleaves : Leaves w.server.queue left s.queue)
    (type : Status) : Sound
      { server := s
        calls := deliver w.calls (left.map (Entry.message type))
        made := w.made
        replied := fun e => w.replied e + ((left.map (Entry.message type)).map (·.dest)).count e } := by
  have hperm := h.queue.symm.trans hleaves
  have hsub : (deliver w.calls (left.map (Entry.message type))).Sublist w.calls := filter_sublist
  refine ⟨hs, (hsub.map _).nodup h.callers, fun c hc => h.one c (hsub.mem hc), deliver_perm h.callers h.one hperm type, fun e => ?_⟩
  have hcount := count_message h.callers h.one hperm type e
  have hreplies := h.replies e
  simp only []
  omega

/-- A `semop` request before anybody is woken. -/
def begin (w : World) (c : Caller) (id : Int) (a : SemopArgs) (s : State) (reply : Option Status) : World :=
  { server := s
    calls := w.calls ++ if reply = none then [⟨c.who, id, a.ops, w.server.semopWaits c id a⟩] else []
    made := fun e => w.made e + if some c.who = some e then 1 else 0
    replied := fun e => w.replied e + if some c.who = some e ∧ reply.isSome then 1 else 0 }

variable {w w' : World}

theorem Sound.queue_length (h : w.Sound) : w.server.queue.length = w.calls.length := by
  have hlen := congrArg length (entries_who h.one)
  rw [length_map, length_map] at hlen
  rw [h.queue.length_eq, hlen]

/-- The caller gets its reply or goes into one list. -/
theorem Sound.begin (h : w.Sound) {c : Caller} {id : Int} {a : SemopArgs} (hlegal : w.Legal (.semop c id a))
    (hone : w.OneWait (.semop c id a)) : ∃ s, w.server.semop c id a = some (s, w.server.semopReply c id a) ∧ s.Sound ∧
      (w.begin c id a s (w.server.semopReply c id a)).Sound ∧ s.identifier = w.server.identifier ∧
      (∀ id num, Has s.semList id num → Has w.server.semList id num) ∧
      ∀ id' num, (s.value id' num : Int) =
        if id' = id then ((w.server.value id num : Int) + sumAt (w.server.semopDone c id a) num) % ushortSize
        else w.server.value id' num := by
  obtain ⟨hidle, hroom⟩ := hlegal
  obtain ⟨hle, halloc, hrefused⟩ := hone
  obtain ⟨s, heq, hsound, hqueue, hident, hhas, hvalue⟩ := h.server.semop
    (by rw [h.queue_length]; unfold nrProcs at hroom; unfold ushortSize; omega) halloc
  refine ⟨s, heq, hsound, ?_, hident, hhas, hvalue⟩
  have hfresh : c.who ∉ w.calls.map (·.who) := by
    intro hin
    obtain ⟨call, hcall, hwho⟩ := mem_map.mp hin
    exact hidle call hcall hwho
  -- There is no reply exactly when the caller has gone into a list.
  have hreply : w.server.semopReply c id a = none ↔ w.server.semopWaits c id a ≠ [] := by
    unfold State.semopReply
    cases hset : w.server.semopSet c id a with
    | error r => simp [State.semopWaits, hset]
    | ok found =>
      by_cases hno : w.server.semopRefused c id a = true
      · simp [hno, hrefused hno]
      · simp only [hno, Bool.false_eq_true, if_false]
        by_cases hwaits : w.server.semopWaits c id a = [] <;> simp [hwaits]
  unfold World.begin
  by_cases hnone : w.server.semopReply c id a = none
  · obtain ⟨o, ho⟩ : ∃ o, w.server.semopWaits c id a = [o] := by
      have hne := length_pos_iff.mpr (hreply.mp hnone)
      exact length_eq_one_iff.mp (by omega)
    simp only [hnone, if_true]
    refine ⟨hsound, ?_, ?_, ?_, fun e => ?_⟩
    · rw [map_append, nodup_append]
      refine ⟨h.callers, by simp, fun x hx y hy heq => ?_⟩
      obtain rfl : y = c.who := by simpa using hy
      exact hfresh (heq ▸ hx)
    · intro call hcall
      rcases mem_append.mp hcall with hcall | hcall
      · exact h.one call hcall
      · obtain rfl := mem_singleton.mp hcall
        simp [ho]
    · rw [flatMap_append, flatMap_singleton]
      exact hqueue.trans (h.queue.append_right _)
    have hreplies := h.replies e
    simp only [map_append, mem_append, map_cons, map_nil, mem_singleton, Option.isSome_none,
      Bool.false_eq_true, and_false, if_false, Option.some.injEq] at hreplies ⊢
    by_cases he : c.who = e
    · subst he
      rw [if_neg hfresh] at hreplies
      simp
      omega
    · simp only [he, Ne.symm he, or_false, if_false]
      omega
  · have hwaits : w.server.semopWaits c id a = [] := by
      by_contra hne
      exact hnone (hreply.mpr hne)
    have hsome : (w.server.semopReply c id a).isSome = true := Option.isSome_iff_ne_none.mpr hnone
    simp only [if_neg hnone, append_nil, hsome, and_true]
    refine ⟨hsound, h.callers, h.one, ?_, fun e => ?_⟩
    · rw [hwaits, map_nil, append_nil] at hqueue
      exact hqueue.trans h.queue
    · have hreplies := h.replies e
      simp only []
      omega

/-- Handling a message keeps the queue and the calls together. -/
theorem Sound.step (h : w.Sound) (hlegal : w.Legal i) (hone : w.OneWait i) (hstep : w.step i = some w') : w'.Sound := by
  obtain ⟨out, hout, rfl⟩ := Option.map_eq_some_iff.mp hstep
  cases i with
  | semget c key nsems flag =>
    obtain ⟨hsound, hqueue, -⟩ := h.server.doSemget c key nsems flag
    have hstate : out = ⟨(w.server.doSemget c key nsems flag).2.2,
        some ⟨(w.server.doSemget c key nsems flag).1, (w.server.doSemget c key nsems flag).2.1, none⟩, none, []⟩ :=
      (Option.some.inj hout).symm
    subst hstate
    have hnext := h.leaves hsound [] (by rw [hqueue]; exact .refl _) .ok
    simpa [caller, begun, deliver_nil] using hnext
  | semctl c id num cmd =>
    obtain ⟨answer, s1, left, update, hctl, hcontrolled⟩ := h.server.semctl c id num cmd
    simp only [State.handle, hctl, Option.bind_some, Option.map_eq_some_iff, Prod.exists] at hout
    obtain ⟨s2, sent, hafter, rfl⟩ := hout
    obtain ⟨more, rfl, hdrops⟩ := hcontrolled.sound.afterwards hafter
    have hfirst := h.leaves hcontrolled.sound left hcontrolled.queue .eidrm
    have hnext := hfirst.leaves (hdrops.sound hcontrolled.sound) more hdrops.queue .ok
    simpa [caller, begun, deliver_append, Nat.add_assoc] using hnext
  | semop c id a =>
    obtain ⟨s1, hop, hs1, hbegin, -⟩ := h.begin hlegal hone
    simp only [State.handle, hop, Option.bind_some, Option.map_eq_some_iff, Prod.exists] at hout
    obtain ⟨s2, sent, hafter, rfl⟩ := hout
    obtain ⟨left, rfl, hdrops⟩ := hs1.afterwards hafter
    exact hbegin.leaves (hdrops.sound hs1) left hdrops.queue .ok
  | exits pts =>
    obtain ⟨s1, left, hnotify, hdrops⟩ := h.server.semProcessVmNotify pts
    simp only [State.handle, hnotify, Option.map_some, Option.some.injEq] at hout
    subst hout
    have hnext := h.leaves (hdrops.sound h.server) left hdrops.queue .eintr
    simpa [caller, begun] using hnext
  | shm ids =>
    obtain rfl := Option.some.inj hout
    have hnext := h.leaves (h.server.shm ids) [] (.refl _) .ok
    simpa [caller, begun, deliver_nil] using hnext

/-- The lists are never left when no emptied list is looked at. -/
theorem Sound.step_isSome (h : w.Sound) (hlegal : w.Legal i) (hone : w.OneWait i) (hkept : w.NoneEmptied i) :
    (w.step i).isSome := by
  unfold World.step
  cases i with
  | semget c key nsems flag => rfl
  | semctl c id num cmd =>
    obtain ⟨answer, s1, left, update, hctl, hcontrolled⟩ := h.server.semctl c id num cmd
    have hafter : (s1.afterwards update).isSome := hcontrolled.sound.afterwards_isSome fun hup => by
      subst hup
      exact hkept answer s1 _ hctl
    simpa [State.handle, hctl] using hafter
  | semop c id a =>
    obtain ⟨s1, hop, hs1, -⟩ := h.begin hlegal hone
    have hafter : (s1.afterwards true).isSome := hs1.afterwards_isSome fun _ => hkept s1 _ hop
    simpa [State.handle, hop] using hafter
  | exits pts =>
    obtain ⟨s1, left, hnotify, -⟩ := h.server.semProcessVmNotify pts
    simp [State.handle, hnotify]
  | shm ids => rfl

theorem sound_boot : boot.Sound where
  server := ⟨by simp [State.Listed, boot], by simp [boot], by simp [boot]⟩
  callers := by simp [boot]
  one := by simp [boot]
  queue := by simp [boot, State.queue]
  replies := by simp [boot]

end World

/-! ## The lists and the calls -/

namespace Call

/-- The call waits for the semaphore to become zero. -/
def waitsZero (c : Call) (id : Int) (num : Nat) : Bool := c.id = id ∧ ∃ o ∈ c.waits, o.semNum = num ∧ o.semOp = 0

/-- The call waits for the semaphore to increase. -/
def waitsIncrease (c : Call) (id : Int) (num : Nat) : Bool := c.id = id ∧ ∃ o ∈ c.waits, o.semNum = num ∧ o.semOp ≠ 0

end Call

namespace World

/-- A list of a semaphore has as many entries as its count says, one for each of the calls. -/
structure Lists (a : CountedArray Waiting) (calls : List Call) : Prop where
  holds : ∃ l, a.Holds l ∧ (l.map (·.who)).Perm (calls.map (·.who))
  count : a.count = calls.length

/-- The waiting lists are exact. -/
structure Exact (w : World) : Prop where
  callers : (w.calls.map (·.who)).Nodup
  zero : ∀ sem ∈ w.server.semList, ∀ num x, sem.sems[num]? = some x → Lists x.zlist (w.calls.filter fun c => c.waitsZero sem.id num)
  increase : ∀ sem ∈ w.server.semList, ∀ num x, sem.sems[num]? = some x →
    Lists x.nlist (w.calls.filter fun c => c.waitsIncrease sem.id num)
  waiting : ∀ e, w.server.queue.countP (fun entry => entry.who = e) =
    ((w.calls.filter fun c => c.who = e).map (·.waits.length)).sum
  replies : ∀ e, w.replied e + (if e ∈ w.calls.map (·.who) then 1 else 0) = w.made e

section Exact

variable {id : Int} {num : Nat}

/-- The entries of a set have its identifier and the numbers of its semaphores. -/
theorem mem_queueFrom {k : Nat} (h : e ∈ queueFrom id k sems) : e.id = id ∧ k ≤ e.num := by
  induction sems generalizing k with
  | nil => simp [queueFrom] at h
  | cons x sems ih =>
    rcases mem_append.mp h with h | h
    · rcases mem_append.mp h with h | h
      · obtain ⟨w, -, rfl⟩ := mem_map.mp h
        exact ⟨rfl, Nat.le_refl _⟩
      · obtain ⟨w, -, rfl⟩ := mem_map.mp h
        exact ⟨rfl, Nat.le_refl _⟩
    · obtain ⟨hid, hk⟩ := ih h
      exact ⟨hid, by omega⟩

/-- All entries of one semaphore. -/
theorem mem_queue_place (h : e ∈ x.queue id num) : e.place = (id, num) := by
  rcases mem_append.mp h with h | h
  · obtain ⟨w, -, rfl⟩ := mem_map.mp h
    rfl
  · obtain ⟨w, -, rfl⟩ := mem_map.mp h
    rfl

theorem filter_queueFrom (id : Int) {j : Nat} (k : Nat) (hx : sems[j]? = some x) :
    (queueFrom id k sems).filter (fun e => e.place = (id, k + j)) = x.queue id (k + j) := by
  induction sems generalizing j k with
  | nil => simp at hx
  | cons y sems ih =>
    rw [queueFrom, filter_append]
    cases j with
    | zero =>
      obtain rfl : y = x := by simpa using hx
      have hmine : (y.queue id k).filter (fun e => e.place = (id, k + 0)) = y.queue id k := by
        rw [filter_eq_self]
        intro e he
        simpa using mem_queue_place he
      have hrest : (queueFrom id (k + 1) sems).filter (fun e => e.place = (id, k + 0)) = [] := by
        rw [filter_eq_nil_iff]
        intro e he hplace
        have hnum := (Prod.mk.inj (of_decide_eq_true hplace)).2
        have hk := (mem_queueFrom he).2
        omega
      rw [hmine, hrest, append_nil, Nat.add_zero]
    | succ j =>
      have hmine : (y.queue id k).filter (fun e => e.place = (id, k + (j + 1))) = [] := by
        rw [filter_eq_nil_iff]
        intro e he hplace
        have heq := (mem_queue_place he).symm.trans (of_decide_eq_true hplace)
        have hnum := (Prod.mk.inj heq).2
        omega
      have hrest := ih (k + 1) (by simpa using hx)
      rw [show k + 1 + j = k + (j + 1) by omega] at hrest
      rw [hmine, hrest, nil_append]

theorem filter_queue (hids : (s.semList.map (·.id)).Nodup) {sem : SemStruct} (hsem : sem ∈ s.semList)
    (hx : sem.sems[num]? = some x) : s.queue.filter (fun e => e.place = (sem.id, num)) = x.queue sem.id num := by
  unfold State.queue
  generalize s.semList = l at hids hsem
  induction l with
  | nil => simp at hsem
  | cons y l ih =>
    obtain ⟨hnot, hids⟩ := nodup_cons.mp hids
    rw [flatMap_cons, filter_append]
    have hmem : ∀ e ∈ l.flatMap SemStruct.queue, e.id ∈ l.map (·.id) := by
      intro e he
      obtain ⟨z, hz, he⟩ := mem_flatMap.mp he
      rw [(mem_queueFrom he).1]
      exact mem_ids hz
    rcases mem_cons.mp hsem with rfl | hsem
    · have hmine : sem.queue.filter (fun e => e.place = (sem.id, num)) = x.queue sem.id num := by
        have hfrom := filter_queueFrom sem.id 0 hx
        rwa [Nat.zero_add] at hfrom
      have hrest : (l.flatMap SemStruct.queue).filter (fun e => e.place = (sem.id, num)) = [] := by
        rw [filter_eq_nil_iff]
        intro e he hplace
        have hid : e.id = sem.id := (Prod.mk.inj (of_decide_eq_true hplace)).1
        have hin := hmem e he
        rw [hid] at hin
        exact hnot hin
      rw [hmine, hrest, append_nil]
    · have hmine : y.queue.filter (fun e => e.place = (sem.id, num)) = [] := by
        rw [filter_eq_nil_iff]
        intro e he hplace
        have hid : e.id = sem.id := (Prod.mk.inj (of_decide_eq_true hplace)).1
        have hy := (mem_queueFrom he).1
        rw [hy] at hid
        simp only [hid] at hnot
        exact hnot (mem_ids hsem)
      rw [hmine, ih hids hsem, nil_append]

/-- The calls with an entry that has a property. -/
theorem filter_entries (hone : ∀ c ∈ calls, c.waits.length = 1) {p : Entry → Bool} {q : Call → Bool}
    (hpq : ∀ c ∈ calls, q c = c.entries.any p) :
    ((calls.flatMap Call.entries).filter p).map (·.who) = (calls.filter q).map (·.who) := by
  induction calls with
  | nil => rfl
  | cons c calls ih =>
    obtain ⟨hc, hcalls⟩ := forall_mem_cons.mp hone
    obtain ⟨hq, hqs⟩ := forall_mem_cons.mp hpq
    obtain ⟨o, ho⟩ := length_eq_one_iff.mp hc
    have hentries : c.entries = [Sembuf.entry c.who c.id o] := by rw [Call.entries, ho, map_singleton]
    rw [flatMap_cons, filter_append, map_append, ih hcalls hqs, filter_cons, hq, hentries]
    cases hp : p (Sembuf.entry c.who c.id o) with
    | false =>
      simp only [filter_cons, hp, filter_nil, any_cons, any_nil, Bool.or_false, Bool.false_eq_true, if_false,
        map_nil, nil_append]
    | true =>
      simp only [filter_cons, hp, filter_nil, any_cons, any_nil, Bool.or_false, if_true, map_cons,
        map_nil, cons_append, nil_append]
      rfl

/-- A process has as many entries as its calls wait for operations. -/
theorem countP_entries {calls : List Call} {e : Endpoint} : (calls.flatMap Call.entries).countP (fun entry => entry.who = e) =
    ((calls.filter fun c => c.who = e).map (·.waits.length)).sum := by
  induction calls with
  | nil => rfl
  | cons c calls ih =>
    rw [flatMap_cons, countP_append, ih, filter_cons, Call.entries, countP_map]
    by_cases hc : c.who = e
    · have hall : c.waits.countP ((fun entry : Entry => decide (entry.who = e)) ∘ Sembuf.entry c.who c.id) = c.waits.length := by
        rw [countP_eq_length]
        intro o _
        exact decide_eq_true hc
      rw [hall, if_pos (decide_eq_true hc), map_cons, sum_cons]
    · have hnone : c.waits.countP ((fun entry : Entry => decide (entry.who = e)) ∘ Sembuf.entry c.who c.id) = 0 := by
        rw [countP_eq_zero]
        intro o _ h
        exact hc (of_decide_eq_true h)
      rw [hnone, Nat.zero_add, if_neg fun h => hc (of_decide_eq_true h)]

theorem filter_zeros (h : x.Listed) (id : Int) (num : Nat) :
    (x.queue id num).filter (fun e => e.op = 0) = x.zeros.map (Semaphore.zeroEntry id num) := by
  have hz : (x.zeros.map (Semaphore.zeroEntry id num)).filter (fun e => e.op = 0) = x.zeros.map (Semaphore.zeroEntry id num) := by
    rw [filter_eq_self]
    intro e he
    obtain ⟨w, -, rfl⟩ := mem_map.mp he
    rfl
  have hn : (x.increases.map (Semaphore.increaseEntry id num)).filter (fun e => e.op = 0) = [] := by
    rw [filter_eq_nil_iff]
    intro e he hop
    obtain ⟨w, hw, rfl⟩ := mem_map.mp he
    have hpos := h.pos w hw
    have hzero : -w.val = 0 := of_decide_eq_true hop
    omega
  rw [Semaphore.queue, filter_append, hz, hn, append_nil]

theorem filter_increases (h : x.Listed) (id : Int) (num : Nat) :
    (x.queue id num).filter (fun e => e.op ≠ 0) = x.increases.map (Semaphore.increaseEntry id num) := by
  have hz : (x.zeros.map (Semaphore.zeroEntry id num)).filter (fun e => e.op ≠ 0) = [] := by
    rw [filter_eq_nil_iff]
    intro e he hop
    obtain ⟨w, -, rfl⟩ := mem_map.mp he
    exact of_decide_eq_true hop rfl
  have hn : (x.increases.map (Semaphore.increaseEntry id num)).filter (fun e => e.op ≠ 0) =
      x.increases.map (Semaphore.increaseEntry id num) := by
    rw [filter_eq_self]
    intro e he
    obtain ⟨w, hw, rfl⟩ := mem_map.mp he
    have hpos := h.pos w hw
    refine decide_eq_true fun hzero : -w.val = 0 => ?_
    omega
  rw [Semaphore.queue, filter_append, hz, hn, nil_append]

end Exact

variable {w w' : World}

/-- A list with the processes of these calls. -/
theorem lists_of_perm {a : CountedArray Waiting} {l : List Waiting} (h : a.Holds l)
    (hperm : (l.map (·.who)).Perm (calls.map (·.who))) : Lists a calls := by
  have hlen := hperm.length_eq
  rw [length_map, length_map] at hlen
  exact ⟨⟨l, h, hperm⟩, by rw [h.count, hlen]⟩

/-- In a sound state the waiting lists are exact. -/
theorem Sound.exact (h : w.Sound) : w.Exact := by
  -- The entries of a semaphore, and the calls that wait for it.
  have hat : ∀ sem ∈ w.server.semList, ∀ num x, sem.sems[num]? = some x → ∀ p : Entry → Bool, ∀ q : Call → Bool,
      (∀ c, q c = true ↔ ∃ e ∈ c.entries, p e = true ∧ e.place = (sem.id, num)) →
      (((x.queue sem.id num).filter p).map (·.who)).Perm ((w.calls.filter q).map (·.who)) := by
    intro sem hsem num x hx p q hpq
    rw [← filter_queue h.server.ids hsem hx, filter_filter, ← filter_entries h.one fun c _ => ?_]
    · exact (h.queue.filter _).map _
    · rw [Bool.eq_iff_iff, hpq, any_eq_true]
      simp only [Bool.and_eq_true, decide_eq_true_eq]
  refine ⟨h.callers, fun sem hsem num x hx => ?_, fun sem hsem num x hx => ?_, fun e => ?_, h.replies⟩
  · have hx' := h.server.listed sem hsem x (mem_of_getElem? hx)
    have hperm := hat sem hsem num x hx (fun e => e.op = 0) (fun c => c.waitsZero sem.id num) fun c => by
      rw [Call.waitsZero, decide_eq_true_eq]
      constructor
      · rintro ⟨hid, o, ho, hnum, hop⟩
        exact ⟨_, mem_map.mpr ⟨o, ho, rfl⟩, decide_eq_true hop, Prod.ext hid hnum⟩
      · rintro ⟨e, he, hop, hplace⟩
        obtain ⟨o, ho, rfl⟩ := mem_map.mp he
        exact ⟨(Prod.mk.inj hplace).1, o, ho, (Prod.mk.inj hplace).2, of_decide_eq_true hop⟩
    rw [filter_zeros hx', map_map] at hperm
    exact lists_of_perm hx'.zlist hperm
  · have hx' := h.server.listed sem hsem x (mem_of_getElem? hx)
    have hperm := hat sem hsem num x hx (fun e => e.op ≠ 0) (fun c => c.waitsIncrease sem.id num) fun c => by
      rw [Call.waitsIncrease, decide_eq_true_eq]
      constructor
      · rintro ⟨hid, o, ho, hnum, hop⟩
        exact ⟨_, mem_map.mpr ⟨o, ho, rfl⟩, decide_eq_true hop, Prod.ext hid hnum⟩
      · rintro ⟨e, he, hop, hplace⟩
        obtain ⟨o, ho, rfl⟩ := mem_map.mp he
        exact ⟨(Prod.mk.inj hplace).1, o, ho, (Prod.mk.inj hplace).2, of_decide_eq_true hop⟩
    rw [filter_increases hx', map_map] at hperm
    exact lists_of_perm hx'.nlist hperm
  · rw [h.queue.countP_eq]
    exact countP_entries

/-! ## Runs -/

/-- The states reached from the start of the server by messages that meet a condition. -/
inductive Reached (P : World → Input → Prop) : World → Prop
  | boot : Reached P boot
  | step {w w' : World} {i : Input} (h : Reached P w) (hlegal : w.Legal i) (hP : P w i) (hstep : w.step i = some w') : Reached P w'

variable {P : World → Input → Prop}

/-- Where no request waits for two operations, the queue and the calls stay together. -/
theorem Reached.sound (h : Reached P w) (hP : ∀ w i, P w i → w.OneWait i) : w.Sound := by
  induction h with
  | boot => exact sound_boot
  | step _ hlegal hp hstep ih => exact ih.step hlegal (hP _ _ hp) hstep

/-- What a request must be like for the lists to stay exact: it waits for one operation at most, and
no emptied list is looked at. -/
def Orderly (w : World) (i : Input) : Prop := w.OneWait i ∧ w.NoneEmptied i

/-- The state after a message. -/
def after (w : World) (i : Input) : World := (w.step i).getD w

theorem Reached.after (h : Reached P w) (hlegal : w.Legal i) (hP : P w i) (hsome : (w.step i).isSome) :
    Reached P (w.after i) := by
  obtain ⟨w', hstep⟩ := Option.isSome_iff_exists.mp hsome
  unfold World.after
  rw [hstep]
  exact h.step hlegal hP hstep

/-- Legality is about the processes with calls. -/
instance (w : World) (i : Input) : Decidable (w.Legal i) := by
  cases i <;> unfold Legal Idle <;> infer_instance

end World

open World

/-- In every run of orderly requests the waiting lists are exact in every state, and the server does
not leave its lists. -/
theorem waiting_lists_exact {w : World} (h : Reached Orderly w) :
    w.Exact ∧ ∀ i, w.Legal i → w.Orderly i → ∃ w', w.step i = some w' := by
  have hsound := h.sound fun _ _ hp => hp.1
  refine ⟨hsound.exact, fun i hlegal horderly => ?_⟩
  exact Option.isSome_iff_exists.mp (hsound.step_isSome hlegal horderly.1 horderly.2)

/-- A process of the superuser. -/
def superuser (e : Endpoint) : Caller := ⟨e, 0, 0, e⟩

/-- A set of two semaphores that others can read. -/
def twoSems : Input := .semget (superuser 1) 7 2 (ipcCreat ||| 0o444)

def setVal (num val : Int) : Input := .semctl (superuser 1) 0x1234 num (.setval val)

/-- A request for the set, with memory for the lists. -/
def semopOf (c : Caller) (ops : List Sembuf) : Input := .semop c 0x1234 ⟨ops, true, true, fun _ => true⟩

/-- A process waits for an increase, another one gives it. -/
theorem waiting_lists_exact_increase :
    ((boot.after twoSems).after (semopOf (superuser 2) [⟨0, -1, false⟩])).calls ≠ [] ∧
      ((boot.after twoSems).after (semopOf (superuser 2) [⟨0, -1, false⟩])).Exact := by
  refine ⟨by decide +kernel, (waiting_lists_exact ?_).1⟩
  refine Reached.after (.after .boot (by decide +kernel) ⟨trivial, trivial⟩ (by decide +kernel)) (by decide +kernel) ⟨?_, ?_⟩
    (by decide +kernel)
  · exact ⟨by decide +kernel, fun _ _ => rfl, by decide +kernel⟩
  · intro s r hs
    have hkept : ∀ out, (boot.after twoSems).server.semop (superuser 2) 0x1234 ⟨[⟨0, -1, false⟩], true, true, fun _ => true⟩ = some out →
        out.1.Settled := by
      decide +kernel
    exact hkept (s, r) hs

/-- The states after messages that can come. -/
def Runs (w : World) : List Input → Prop
  | [] => True
  | i :: rest => w.Legal i ∧ (w.step i).isSome ∧ Runs (w.after i) rest

instance decidableRuns : (w : World) → (l : List Input) → Decidable (Runs w l)
  | _, [] => inferInstanceAs (Decidable True)
  | w, i :: rest =>
      have := decidableRuns (w.after i) rest
      inferInstanceAs (Decidable (_ ∧ _ ∧ _))

theorem reached_runs {P : World → Input → Prop} {l : List Input} (h : Reached P w) (hl : Runs w l) (hP : ∀ i ∈ l, ∀ w, P w i) :
    Reached P (l.foldl World.after w) := by
  induction l generalizing w with
  | nil => exact h
  | cons i rest ih =>
    obtain ⟨hi, hrest⟩ := forall_mem_cons.mp hP
    exact ih (h.after hl.1 (hi w) hl.2.1) hl.2.2 hrest

/-- A semaphore of value zero whose `zlist` has become empty. -/
def emptied : List Input := [twoSems, setVal 0 1, semopOf (superuser 2) [⟨0, 0, false⟩], semopOf (superuser 3) [⟨0, -1, false⟩]]

/-- A process that waits for two semaphores, and one that gives to both. -/
def twice : List Input :=
  [twoSems, semopOf (superuser 2) [⟨0, -1, false⟩, ⟨1, -1, false⟩], semopOf (superuser 3) [⟨0, 1, false⟩, ⟨1, 1, false⟩]]

/-- A process without permission to alter that waits for zero first. -/
def refusedLate : List Input := [twoSems, setVal 0 1, semopOf ⟨2, 5, 5, 2⟩ [⟨0, 0, false⟩, ⟨1, 1, false⟩]]

/-- There is no memory for the list. -/
def listLost : List Input := [twoSems, .semop (superuser 2) 0x1234 ⟨[⟨0, -1, false⟩], true, true, fun _ => false⟩]

/-- After a list of processes that wait for zero has become empty, the next request moves memory
outside of it; a call that waits for two semaphores is answered twice; a refused call stays in a
list; a call for which there is no memory is answered and counted. -/
theorem waiting_lists_broken :
    (Reached (fun _ _ => True) (emptied.foldl World.after boot) ∧
      (emptied.foldl World.after boot).Legal (semopOf (superuser 3) [⟨1, 1, false⟩]) ∧
      ((emptied.foldl World.after boot).step (semopOf (superuser 3) [⟨1, 1, false⟩])).isNone) ∧
    (Reached (fun _ _ => True) (twice.foldl World.after boot) ∧ (twice.foldl World.after boot).made 2 = 1 ∧
      (twice.foldl World.after boot).replied 2 = 2) ∧
    (Reached (fun _ _ => True) (refusedLate.foldl World.after boot) ∧ (refusedLate.foldl World.after boot).calls = [] ∧
      (refusedLate.foldl World.after boot).server.queue = [⟨2, 0x1234, 0, 0⟩]) ∧
    (Reached (fun _ _ => True) (listLost.foldl World.after boot) ∧ (listLost.foldl World.after boot).calls = [] ∧
      (listLost.foldl World.after boot).server.semList.map (·.sems.map (·.nlist.count)) = [[1, 0]]) := by
  have hreached : ∀ l, Runs boot l → Reached (fun _ _ => True) (l.foldl World.after boot) := fun l hl =>
    reached_runs .boot hl fun _ _ _ => trivial
  refine ⟨⟨hreached _ ?_, ?_⟩, ⟨hreached _ ?_, ?_⟩, ⟨hreached _ ?_, ?_⟩, ⟨hreached _ ?_, ?_⟩⟩
  all_goals decide +kernel

end Minix.IpcServer
