/-
  Kernel/ReadyQueue.lean --- what the queue operations do to the state, and the
  representation invariant of the ready queues.

  The first part says which fields each operation may change.  Two erasures make
  that one equation per operation: `State.unlinked` forgets the links and pointers
  of the ready queues, and `State.unsched` forgets all that the scheduler writes.
  Every other field of the result is equal by congruence.

  The second part is the invariant.  `ReadyRep s on Q` says that the lists of the
  state `s` are `Q`, and that queue `q` holds exactly the processes in `on` with
  priority `q`.  The set `on` is a parameter because the operations link and
  unlink a process at a different moment than its flags change.
-/
import Minix.Kernel.Sched

set_option autoImplicit false

namespace Minix.Kernel

open Minix.Foundation State List Links

variable {α : Type} {f : Proc → Proc} {q q' : Int} {l : List Slot} {rp : Slot}

/-! ## Frames -/

/-- An entry without its ready link. -/
def Proc.unlinked (p : Proc) : Proc := { p with pNextready := none }

/-- An entry without the fields the scheduler writes. -/
def Proc.unsched (p : Proc) : Proc :=
  { p with pRtsFlags := 0#16, pPriority := 0, pTicksLeft := 0, pNextready := none }

namespace State

/-- The state without the links of the ready queues. -/
def unlinked (s : State) : State :=
  { s with
    proc := fun i => (s.proc i).unlinked
    rdyHead := fun _ => none
    rdyTail := fun _ => none
    halt := none }

/-- The state without what the scheduler writes. -/
def unsched (s : State) : State :=
  { s with
    proc := fun i => (s.proc i).unsched
    rdyHead := fun _ => none
    rdyTail := fun _ => none
    halt := none }

variable {s s' : State} {rp : Slot}

/-- What does not read the part that is forgotten is the same in states that differ in that part
only. -/
theorem frame_congr {E : State → State} (g : State → α) (h : E s' = E s)
    (hg : g ∘ E = g) : g s' = g s := by
  rw [← hg]
  exact congrArg g h

theorem frame_proc {E : State → State} (g : Proc → α) (h : E s' = E s) (i : Slot)
    (hg : (fun t => g ((E t).proc i)) = fun t => g (t.proc i)) :
    g (s'.proc i) = g (s.proc i) :=
  frame_congr (fun t => g (t.proc i)) h hg

theorem unsched_of_unlinked (h : s'.unlinked = s.unlinked) : s'.unsched = s.unsched :=
  frame_congr unsched h rfl

theorem unlinked_modProc (h : s'.unlinked = s.unlinked)
    (hf : ∀ p p' : Proc, p'.unlinked = p.unlinked → (f p').unlinked = (f p).unlinked) :
    (s'.modProc rp f).unlinked = (s.modProc rp f).unlinked := by
  have hproc : ∀ i, ((s'.modProc rp f).proc i).unlinked = ((s.modProc rp f).proc i).unlinked := by
    intro i
    by_cases hi : i = rp
    · subst hi
      simpa using hf _ _ (frame_proc Proc.unlinked h i rfl)
    · simpa [hi] using frame_proc Proc.unlinked h i rfl
  have hrest := congrArg (fun t : State => { t with proc := fun i =>
    ((s.modProc rp f).proc i).unlinked }) h
  simp only [unlinked, hproc]
  exact hrest

@[simp] theorem unlinked_setReadyLink (r : Ref Int Slot) (v : Option Slot) :
    (s.setReadyLink r v).unlinked = s.unlinked := by
  cases r with
  | head q => rfl
  | next n =>
    simp only [setReadyLink, unlinked, modProc, Function.update_apply]
    congr 1
    funext i
    by_cases hi : i = n
    · subst hi; simp [Proc.unlinked]
    · simp [hi]

@[simp] theorem unlinked_setRdyTail (q : Int) (v : Option Slot) :
    (s.setRdyTail q v).unlinked = s.unlinked := rfl

@[simp] theorem unlinked_stop (h : Halt) : (s.stop h).unlinked = s.unlinked := rfl

/-- Unqueueing a process writes links only. -/
@[simp] theorem unlinked_dequeue : (s.dequeue rp).unlinked = s.unlinked := by
  unfold dequeue
  dsimp only
  split
  · simp
  · split
    · rfl
    · split <;> simp

@[simp] theorem unlinked_linkReady {q : Int} {front : Bool} :
    (s.linkReady rp q front).unlinked = s.unlinked := by
  unfold linkReady
  split
  · simp
  · split
    · simp
    · split <;> simp

@[simp] theorem unlinked_enqueueHead : (s.enqueueHead rp).unlinked = s.unlinked := by
  unfold enqueueHead
  dsimp only
  split <;> simp

variable (s rp)

/-- Setting a flag changes the flag word of the process and links. -/
theorem unlinked_rtsSet (f : BitVec 16) :
    (s.rtsSet rp f).unlinked =
      (s.modProc rp fun p => p.setRts (p.pRtsFlags ||| f)).unlinked := by
  unfold rtsSet
  refine unlinked_modProc ?_ ?_
  · split <;> simp
  · intro p p' h
    exact congrArg (fun x : Proc => x.setRts (x.pRtsFlags ||| f)) h

theorem unlinked_rtsSetflags (f : BitVec 16) :
    (s.rtsSetflags rp f).unlinked = (s.modProc rp fun p => p.setRts f).unlinked := by
  unfold rtsSetflags
  refine unlinked_modProc ?_ ?_
  · split <;> simp
  · intro p p' h
    exact congrArg (fun x : Proc => x.setRts f) h

/-- What `enqueue` does apart from the links: the new quantum, priority and the
preemption of the current process. -/
def requeued (s : State) (rp : Slot) : State :=
  let s1 := s.modProc rp Proc.sched
  if s1.preempts rp then
    s1.modProc s.procPtr fun p => p.setRts (p.pRtsFlags ||| rtsPreempted)
  else s1

theorem unlinked_enqueue : (s.enqueue rp).unlinked = (s.requeued rp).unlinked := by
  unfold enqueue requeued
  dsimp only
  set front := decide (0 < (s.proc rp).pTicksLeft)
  set s1 := s.modProc rp Proc.sched
  set s2 := s1.linkReady rp (s1.proc rp).pPriority front
  have hlink : s2.unlinked = s1.unlinked := by
    exact unlinked_linkReady
  have hptr : s2.procPtr = s1.procPtr := frame_congr procPtr hlink rfl
  have hpre : s2.preempts rp = s1.preempts rp :=
    frame_congr (fun t => t.preempts rp) hlink rfl
  rw [hpre]
  split
  · rw [unlinked_rtsSet, hptr]
    refine unlinked_modProc hlink ?_
    intro p p' h
    exact congrArg (fun x : Proc => x.setRts (x.pRtsFlags ||| rtsPreempted)) h
  · exact hlink

theorem unsched_modProc (s : State) {rp : Slot} {f : Proc → Proc}
    (hf : ∀ p : Proc, (f p).unsched = p.unsched) : (s.modProc rp f).unsched = s.unsched := by
  have hproc : ∀ i, ((s.modProc rp f).proc i).unsched = (s.proc i).unsched := by
    intro i
    by_cases hi : i = rp
    · subst hi
      simpa using hf _
    · simp [hi]
  simp only [unsched, hproc]
  rfl

@[simp] theorem unsched_rtsSet (f : BitVec 16) : (s.rtsSet rp f).unsched = s.unsched := by
  have h := unsched_of_unlinked (unlinked_rtsSet s rp f)
  rw [h]
  exact unsched_modProc _ fun _ => rfl

@[simp] theorem unsched_enqueue : (s.enqueue rp).unsched = s.unsched := by
  have h := unsched_of_unlinked (unlinked_enqueue s rp)
  rw [h]
  unfold requeued
  dsimp only
  have hsched : (s.modProc rp Proc.sched).unsched = s.unsched :=
    unsched_modProc _ fun _ => rfl
  split
  · refine Eq.trans (unsched_modProc _ fun _ => ?_) hsched
    rfl
  · exact hsched

@[simp] theorem unsched_rtsUnset (f : BitVec 16) : (s.rtsUnset rp f).unsched = s.unsched := by
  unfold rtsUnset
  dsimp only
  have hclear : (s.modProc rp fun p =>
      p.setRts (clearBits p.pRtsFlags f)).unsched = s.unsched :=
    unsched_modProc _ fun _ => rfl
  split
  · rw [unsched_enqueue, hclear]
  · exact hclear

@[simp] theorem unsched_rtsSetflags (f : BitVec 16) :
    (s.rtsSetflags rp f).unsched = s.unsched :=
  (unsched_of_unlinked (unlinked_rtsSetflags s rp f)).trans (unsched_modProc _ fun _ => rfl)

/-! ### Flag words -/

theorem flags_rtsSet (f : BitVec 16) (j : Slot) :
    ((s.rtsSet rp f).proc j).pRtsFlags =
      if j = rp then (s.proc rp).pRtsFlags ||| f else (s.proc j).pRtsFlags := by
  have h := frame_proc Proc.pRtsFlags (unlinked_rtsSet s rp f) j rfl
  rw [h, modProc_proc]
  split <;> rfl

theorem rtsSet_procPtr {f : BitVec 16} : (s.rtsSet rp f).procPtr = s.procPtr :=
  frame_congr procPtr (unsched_rtsSet s rp f) rfl

theorem rtsUnset_procPtr {f : BitVec 16} : (s.rtsUnset rp f).procPtr = s.procPtr :=
  frame_congr procPtr (unsched_rtsUnset s rp f) rfl

/-- Choosing a scheduler changes nothing else. -/
theorem setScheduler_rule {P : State → Prop} {schedulerType : Int}
    (h : ∀ type, P { s with schedType := type }) : P (s.setScheduler schedulerType) := by
  unfold setScheduler
  repeat' split
  all_goals exact h _

theorem flags_rtsSetflags (f : BitVec 16) (j : Slot) :
    ((s.rtsSetflags rp f).proc j).pRtsFlags = if j = rp then f else (s.proc j).pRtsFlags := by
  have h := frame_proc Proc.pRtsFlags (unlinked_rtsSetflags s rp f) j rfl
  rw [h, modProc_proc]
  split <;> rfl

theorem flags_enqueue {j : Slot} :
    ((s.enqueue rp).proc j).pRtsFlags = (s.proc j).pRtsFlags ∨
      j = s.procPtr ∧ j ≠ rp ∧
        ((s.enqueue rp).proc j).pRtsFlags = (s.proc j).pRtsFlags ||| rtsPreempted := by
  rw [frame_proc Proc.pRtsFlags (unlinked_enqueue s rp) j rfl]
  have hsched : ((s.modProc rp Proc.sched).proc j).pRtsFlags = (s.proc j).pRtsFlags := by
    rw [modProc_proc]
    split_ifs with hj
    · subst hj
      rfl
    · rfl
  unfold requeued
  dsimp only
  split_ifs with hpre
  · by_cases hj : j = s.procPtr
    · refine .inr ⟨hj, ?_, ?_⟩
      · -- a process does not preempt itself: its priority would be below its own
        rintro rfl
        have hlt : (s.modProc j Proc.sched).preempts j = true := hpre
        simp [preempts, ← hj] at hlt
      · rw [modProc_proc, if_pos hj, ← hj, hsched]
        rfl
    · left
      rw [modProc_proc, if_neg hj, hsched]
  · exact .inl hsched

/-- Clearing a flag changes the flag word of the process; if that makes the process
ready, the current process may be preempted. -/
theorem flags_rtsUnset {f : BitVec 16} {j : Slot} :
    ((s.rtsUnset rp f).proc j).pRtsFlags =
        (if j = rp then clearBits (s.proc rp).pRtsFlags f else (s.proc j).pRtsFlags) ∨
      j = s.procPtr ∧ j ≠ rp ∧
        ((s.rtsUnset rp f).proc j).pRtsFlags = (s.proc j).pRtsFlags ||| rtsPreempted := by
  have hclear : ((s.modProc rp fun p =>
      p.setRts (clearBits p.pRtsFlags f)).proc j).pRtsFlags =
        if j = rp then clearBits (s.proc rp).pRtsFlags f else (s.proc j).pRtsFlags := by
    rw [modProc_proc]
    split <;> rfl
  unfold rtsUnset
  dsimp only
  split
  · rcases flags_enqueue (s.modProc rp fun p =>
      p.setRts (clearBits p.pRtsFlags f)) rp with h | ⟨hptr, hne, h⟩
    · exact .inl (h.trans hclear)
    · refine .inr ⟨hptr, hne, ?_⟩
      rw [h, hclear, if_neg hne]
  · exact .inl hclear

end State

/-! ## The representation -/

/-- The ready queues of `s` are the lists `Q`, and they hold the processes `on`. -/
structure ReadyRep (s : State) (on : Slot → Prop) (Q : Int → List Slot) : Prop where
  path : ∀ q, s.readyLinks.Path (.head q) (Q q)
  tail : ∀ q, s.rdyTail q = (Q q).getLast?
  mem : ∀ q i, i ∈ Q q ↔ on i ∧ (s.proc i).pPriority = q

namespace State

variable (s : State)

@[simp] theorem get_readyLinks_setReadyLink (r c : Ref Int Slot) (v : Option Slot) :
    (s.setReadyLink r v).readyLinks.get c = if c = r then v else s.readyLinks.get c := by
  cases r with
  | head q =>
    cases c with
    | head q' => simp [setReadyLink, readyLinks, get_head, Function.update_apply]
    | next n => simp [setReadyLink, readyLinks, get_next]
  | next m =>
    cases c with
    | head q => simp [setReadyLink, readyLinks, get_head]
    | next n =>
      simp only [setReadyLink, readyLinks, get_next, modProc_proc, Ref.next.injEq]
      split
      · rfl
      · rfl

theorem readyLinks_modProc {rp : Slot} (hf : (f (s.proc rp)).pNextready = (s.proc rp).pNextready) :
    (s.modProc rp f).readyLinks = s.readyLinks := by
  unfold readyLinks
  congr 1
  funext i
  rw [modProc_proc]
  split_ifs with hi
  · rw [hi, hf]
  · rfl

@[simp] theorem readyLinks_setRdyTail (q : Int) (v : Option Slot) :
    (s.setRdyTail q v).readyLinks = s.readyLinks := rfl

@[simp] theorem rdyTail_setReadyLink (r : Ref Int Slot) (v : Option Slot) :
    (s.setReadyLink r v).rdyTail = s.rdyTail := by
  cases r <;> rfl

@[simp] theorem rdyTail_setRdyTail (q q' : Int) (v : Option Slot) :
    (s.setRdyTail q v).rdyTail q' = if q' = q then v else s.rdyTail q' := by
  simp [setRdyTail, Function.update_apply]

end State

namespace ReadyRep

variable {s s' : State} {on : Slot → Prop} {Q : Int → List Slot}

section

variable (h : ReadyRep s on Q)
include h

/-- Only links, tails and the priorities of queued processes matter. -/
theorem congr {on' : Slot → Prop}
    (hlinks : s'.readyLinks = s.readyLinks) (htail : s'.rdyTail = s.rdyTail)
    (hon : ∀ i, on' i ↔ on i) (hpri : ∀ i, on i → (s'.proc i).pPriority = (s.proc i).pPriority) :
    ReadyRep s' on' Q := by
  refine ⟨?_, ?_, ?_⟩
  · intro q
    rw [hlinks]
    exact h.path q
  · intro q
    rw [htail]
    exact h.tail q
  · intro q i
    rw [h.mem q i, hon i]
    constructor
    · rintro ⟨hi, hq⟩
      exact ⟨hi, (hpri i hi).trans hq⟩
    · rintro ⟨hi, hq⟩
      exact ⟨hi, (hpri i hi).symm.trans hq⟩

/-- Queues of different priorities share no process. -/
theorem apart : Links.Apart Q := apart_of_key h.mem

theorem dequeue (hrp : on rp) :
    ReadyRep (s.dequeue rp) (fun i => on i ∧ i ≠ rp) fun q => (Q q).erase rp := by
  set q := (s.proc rp).pPriority with hq
  have hmem : rp ∈ Q q := (h.mem q rp).mpr ⟨hrp, rfl⟩
  obtain ⟨before, after, hsplit⟩ := append_of_mem hmem
  have hpath : s.readyLinks.Path (.head q) (before ++ rp :: after) := hsplit ▸ h.path q
  have hnodup : (before ++ rp :: after).Nodup := hpath.nodup
  have hnot : rp ∉ before := fun hb =>
    (disjoint_of_nodup_append hnodup) hb (mem_cons_self)
  have hnot' : rp ∉ after := by
    have hcons := (nodup_append.mp hnodup).2.1
    exact (nodup_cons.mp hcons).1
  set xpp := lastRef (Ref.head (N := Slot) q) before with hxpp
  have hseek : s.readyLinks.seek (fun xp => xp == rp) (nrSlots + 1) (.head q) = some xpp := by
    refine hpath.seek_eq ?_ ?_ ?_
    · intro x hx
      have hne : x ≠ rp := fun hxr => hnot (hxr ▸ hx)
      simpa using hne
    · intro x hx
      have hxr : rp = x := by simpa using hx
      simp [hxr]
    · have hlen := hpath.length_le
      simp only [length_append, length_cons, Fintype.card_fin] at hlen
      omega
  have hget : s.readyLinks.get xpp = some rp := by
    simpa using hpath.get_lastRef
  have hlinks : ∀ c, (s.dequeue rp).readyLinks.get c =
      if c = xpp then (s.proc rp).pNextready else s.readyLinks.get c := by
    intro c
    unfold State.dequeue
    simp only [← hq, hseek, hget]
    split <;> simp
  have htail : ∀ q', (s.dequeue rp).rdyTail q' =
      if q' = q ∧ s.rdyTail q = some rp then xpp.owner else s.rdyTail q' := by
    intro q'
    unfold State.dequeue
    simp only [← hq, hseek, hget, rdyTail_setReadyLink]
    split
    · rename_i hlast
      simp [hlast]
    · rename_i hlast
      simp [hlast]
  have hpri : ∀ i, ((s.dequeue rp).proc i).pPriority = (s.proc i).pPriority := fun i =>
    frame_proc Proc.pPriority unlinked_dequeue i rfl
  refine ⟨?_, ?_, ?_⟩
  · intro q'
    refine (h.path q').erase h.apart hsplit ?_ fun c hc => ?_
    · rw [hlinks, if_pos hxpp.symm]
      rfl
    · rw [hlinks, if_neg hc]
  · intro q'
    rw [htail]
    by_cases hqq : q' = q
    · rw [hqq, h.tail q, hsplit, erase_append_right _ hnot, erase_cons_head]
      cases after using reverseRecOn with
      | nil =>
        have hlast : (before ++ [rp]).getLast? = some rp := getLast?_concat
        rw [if_pos ⟨rfl, hlast⟩, append_nil, owner_lastRef_head]
      | append_singleton after z =>
        have hz : z ≠ rp := fun hzr => hnot' (by simp [hzr])
        have hlast : (before ++ rp :: (after ++ [z])).getLast? = some z := by
          rw [← cons_append, ← append_assoc, getLast?_concat]
        have hlast' : (before ++ (after ++ [z])).getLast? = some z := by
          rw [← append_assoc, getLast?_concat]
        have hne : ¬ (q = q ∧ some z = some rp) := by simpa using hz
        rw [hlast, hlast', if_neg hne]
    · rw [if_neg fun heq => hqq heq.1, h.tail q', erase_of_not_mem fun hin =>
        hqq (h.apart hin hmem)]
  · intro q' i
    rw [hpri i, (h.path q').nodup.mem_erase_iff, h.mem]
    tauto

/-- Linking a process in at a position of the queue of its priority. -/
theorem link {s' : State} (hrp : ¬ on rp) {before after : List Slot}
    (hsplit : Q (s.proc rp).pPriority = before ++ after)
    (hlink : s'.readyLinks.get (Links.lastRef (.head (s.proc rp).pPriority) before) = some rp)
    (hnext : (s'.proc rp).pNextready = after.head?)
    (hsame : ∀ c, c ≠ Links.lastRef (.head (s.proc rp).pPriority) before → c ≠ .next rp →
      s'.readyLinks.get c = s.readyLinks.get c)
    (htail : ∀ q, s'.rdyTail q = if q = (s.proc rp).pPriority then (before ++ rp :: after).getLast?
      else s.rdyTail q) (hpri : ∀ i, (s'.proc i).pPriority = (s.proc i).pPriority) :
    ReadyRep s' (fun i => on i ∨ i = rp)
      (Function.update Q (s.proc rp).pPriority (before ++ rp :: after)) := by
  refine ⟨fun q => ?_, fun q => ?_, fun q i => ?_⟩
  · exact (h.path q).link h.apart hsplit (fun q hin => hrp ((h.mem q rp).mp hin).1) hlink hnext hsame
  · rw [htail, h.tail, Function.update_apply]
    split <;> rfl
  rw [mem_link hsplit, h.mem, hpri]
  constructor
  · rintro (⟨hi, hp⟩ | ⟨rfl, rfl⟩)
    · exact ⟨.inl hi, hp⟩
    · exact ⟨.inr rfl, rfl⟩
  · rintro ⟨hi | rfl, hp⟩
    · exact .inl ⟨hi, hp⟩
    · exact .inr ⟨rfl, hp.symm⟩

end

/-- `enqueue` links a process in at the head of its queue, or at the tail. -/
theorem linkReady (h : ReadyRep s on Q) (hrp : ¬ on rp) {front : Bool} :
    ReadyRep (s.linkReady rp (s.proc rp).pPriority front) (fun i => on i ∨ i = rp)
      (Function.update Q (s.proc rp).pPriority
        (if front then rp :: Q (s.proc rp).pPriority
          else Q (s.proc rp).pPriority ++ [rp])) := by
  have hpri : ∀ i, ((s.linkReady rp (s.proc rp).pPriority front).proc i).pPriority = (s.proc i).pPriority :=
    fun i => frame_proc Proc.pPriority unlinked_linkReady i rfl
  have hold : s.rdyHead (s.proc rp).pPriority = (Q (s.proc rp).pPriority).head? :=
    (h.path _).get_eq
  cases hQ : Q (s.proc rp).pPriority with
  | nil =>
    have hs' : s.linkReady rp (s.proc rp).pPriority front =
        ((s.setReadyLink (.head (s.proc rp).pPriority) (some rp)).setRdyTail (s.proc rp).pPriority
          (some rp)).setReadyLink (.next rp) none := by
      simp only [State.linkReady, hold, hQ, head?_nil]
    have hrep := h.link hrp (hQ.trans (append_nil []).symm) (by rw [hs']; simp)
      (by rw [hs']; simp [setReadyLink])
      (by rw [hs']; intro c hc hc'; simp only [lastRef_nil] at hc; simp [hc, hc'])
      (by rw [hs']; simp) hpri
    simpa using hrep
  | cons head rest =>
    cases front with
    | true =>
      have hs' : s.linkReady rp (s.proc rp).pPriority true =
          (s.setReadyLink (.next rp) (some head)).setReadyLink (.head (s.proc rp).pPriority)
            (some rp) := by
        simp only [State.linkReady, hold, hQ, head?_cons, if_true]
      have htail := h.tail (s.proc rp).pPriority
      have hrep := h.link hrp (hQ.trans (nil_append _).symm) (by rw [hs']; simp)
        (by rw [hs']; simp [setReadyLink])
        (by rw [hs']; intro c hc hc'; simp only [lastRef_nil] at hc; simp [hc, hc'])
        (by rw [hs']; intro q'; split <;> simp_all) hpri
      simpa using hrep
    | false =>
      obtain ⟨tail, htail⟩ : ∃ tail, (Q (s.proc rp).pPriority).getLast? = some tail := by
        rw [hQ]
        exact ⟨_, getLast?_eq_some_getLast (by simp)⟩
      have hlast : lastRef (.head (s.proc rp).pPriority) (Q (s.proc rp).pPriority) =
          Ref.next tail := by
        have howner := owner_lastRef_head (s.proc rp).pPriority (Q (s.proc rp).pPriority)
        rw [htail] at howner
        cases hr : lastRef (Ref.head (N := Slot) (s.proc rp).pPriority)
            (Q (s.proc rp).pPriority) with
        | head q' => rw [hr] at howner; simp [Ref.owner] at howner
        | next n => rw [hr] at howner; simpa [Ref.owner] using howner
      have hne : tail ≠ rp := by
        rintro rfl
        exact hrp ((h.mem _ tail).mp (mem_of_getLast? htail)).1
      have hs' : s.linkReady rp (s.proc rp).pPriority false =
          ((s.setReadyLink (.next tail) (some rp)).setRdyTail (s.proc rp).pPriority
            (some rp)).setReadyLink (.next rp) none := by
        simp only [State.linkReady, hold, hQ, head?_cons, h.tail, hQ ▸ htail,
          Bool.false_eq_true, if_false]
      have hrep := h.link hrp (append_nil _).symm (by rw [hlast, hs']; simp [hne])
        (by rw [hs']; simp [setReadyLink])
        (by rw [hlast, hs']; intro c hc hc'; simp [hc, hc']) (by rw [hs']; simp) hpri
      rwa [hQ] at hrep

theorem enqueueHead (h : ReadyRep s on Q) (hrp : ¬ on rp) :
    ReadyRep (s.enqueueHead rp) (fun i => on i ∨ i = rp)
      (Function.update Q (s.proc rp).pPriority (rp :: Q (s.proc rp).pPriority)) := by
  have hpri : ∀ i, ((s.enqueueHead rp).proc i).pPriority = (s.proc i).pPriority := fun i =>
    frame_proc Proc.pPriority unlinked_enqueueHead i rfl
  have hold : s.rdyHead (s.proc rp).pPriority = (Q (s.proc rp).pPriority).head? :=
    (h.path _).get_eq
  have htail := h.tail (s.proc rp).pPriority
  refine h.link hrp (nil_append _).symm ?_ ?_ ?_ ?_ hpri
  · cases hhead : s.rdyHead (s.proc rp).pPriority <;> simp [State.enqueueHead, hhead]
  · rw [← hold]
    cases hhead : s.rdyHead (s.proc rp).pPriority <;>
      simp [State.enqueueHead, hhead, setReadyLink]
  · intro c hc hc'
    rw [lastRef_nil] at hc
    cases hhead : s.rdyHead (s.proc rp).pPriority <;> simp [State.enqueueHead, hhead, hc, hc']
  · intro q'
    cases hQ : Q (s.proc rp).pPriority <;> rw [hQ] at hold htail
    · simp [State.enqueueHead, hold]
    · by_cases hq : q' = (s.proc rp).pPriority <;> simp [State.enqueueHead, hold, htail, hq]

end ReadyRep

/-! ## The invariant -/

/-- The ready queues hold exactly the runnable processes, each on the queue of its
priority. -/
structure ReadyInv (s : State) : Prop where
  rep : ∃ Q, ReadyRep s (fun i => (s.proc i).pRtsFlags = 0#16) Q
  priority : ∀ i, 0 ≤ (s.proc i).pPriority ∧ (s.proc i).pPriority ≤ 15
  maxPriority : ∀ i, 0 ≤ (s.proc i).pMaxPriority

namespace ReadyInv

variable {s s' : State}

theorem rtsSet (h : ReadyInv s) {rp : Slot} {f : BitVec 16} (hf : f ≠ 0#16) :
    ReadyInv (s.rtsSet rp f) := by
  obtain ⟨Q, hQ⟩ := h.rep
  have hpri : ∀ i, ((s.rtsSet rp f).proc i).pPriority = (s.proc i).pPriority := by
    intro i
    rw [frame_proc Proc.pPriority (unlinked_rtsSet s rp f) i rfl, modProc_proc]
    split_ifs with hi
    · subst hi
      rfl
    · rfl
  refine ⟨?_, fun i => by rw [hpri i]; exact h.priority i,
    fun i => by rw [frame_proc Proc.pMaxPriority (unsched_rtsSet s rp f) i rfl]; exact h.maxPriority i⟩
  have hne : (s.proc rp).pRtsFlags ||| f ≠ 0#16 := or_ne_zero hf
  by_cases hrun : (s.proc rp).pRtsFlags = 0#16
  · -- the process leaves its queue before the flag is set
    have hs' : s.rtsSet rp f =
        (s.dequeue rp).modProc rp fun p => p.setRts (p.pRtsFlags ||| f) := by
      simp [State.rtsSet, procIsRunnable, hrun]
    refine ⟨_, (hQ.dequeue hrun).congr ?_ ?_ ?_ ?_⟩
    · rw [hs']
      exact readyLinks_modProc _ rfl
    · rw [hs']
      rfl
    · intro i
      rw [flags_rtsSet]
      by_cases hi : i = rp
      · simp [hi, hne]
      · simp [hi]
    · intro i _
      rw [hpri i]
      exact (frame_proc Proc.pPriority unlinked_dequeue i rfl).symm
  · have hs' : s.rtsSet rp f = s.modProc rp fun p => p.setRts (p.pRtsFlags ||| f) := by
      simp [State.rtsSet, procIsRunnable, hrun]
    refine ⟨Q, hQ.congr ?_ ?_ ?_ fun i _ => hpri i⟩
    · rw [hs']
      exact readyLinks_modProc _ rfl
    · rw [hs']
      rfl
    · intro i
      rw [flags_rtsSet]
      by_cases hi : i = rp
      · simp [hi, hne, hrun]
      · simp [hi]

/-- A change that writes neither queues nor priorities, and keeps which flag words
are zero. -/
theorem congr (h : ReadyInv s) (hlinks : s'.readyLinks = s.readyLinks)
    (htail : s'.rdyTail = s.rdyTail)
    (hflags : ∀ i, (s'.proc i).pRtsFlags = 0#16 ↔ (s.proc i).pRtsFlags = 0#16)
    (hpri : ∀ i, (s'.proc i).pPriority = (s.proc i).pPriority)
    (hmax : ∀ i, (s'.proc i).pMaxPriority = (s.proc i).pMaxPriority) : ReadyInv s' := by
  obtain ⟨Q, hQ⟩ := h.rep
  refine ⟨⟨Q, hQ.congr hlinks htail hflags fun i _ => hpri i⟩, ?_, ?_⟩
  · intro i
    rw [hpri i]
    exact h.priority i
  · intro i
    rw [hmax i]
    exact h.maxPriority i

theorem sched_priority_range {p : Proc} (h : 0 ≤ p.pPriority ∧ p.pPriority ≤ 15) :
    0 ≤ p.sched.pPriority ∧ p.sched.pPriority ≤ 15 := by
  simp only [Proc.sched]
  split
  · omega
  · split
    · exact h
    · split <;> omega

/-- Queueing a runnable process that is the only one missing from the queues. -/
theorem enqueue {Q : Int → List Slot}
    (hQ : ReadyRep s (fun i => (s.proc i).pRtsFlags = 0#16 ∧ i ≠ rp) Q)
    (hrp : (s.proc rp).pRtsFlags = 0#16)
    (hpri : ∀ i, 0 ≤ (s.proc i).pPriority ∧ (s.proc i).pPriority ≤ 15)
    (hmax : ∀ i, 0 ≤ (s.proc i).pMaxPriority) : ReadyInv (s.enqueue rp) := by
  set s1 := s.modProc rp Proc.sched with hs1
  set front := decide (0 < (s.proc rp).pTicksLeft)
  set s2 := s1.linkReady rp (s1.proc rp).pPriority front
  have hflags1 : ∀ i, (s1.proc i).pRtsFlags = (s.proc i).pRtsFlags := by
    intro i
    rw [hs1, modProc_proc]
    split_ifs with hi
    · subst hi
      rfl
    · rfl
  have hlinked : s2.unlinked = s1.unlinked := unlinked_linkReady
  have hflags2 : ∀ i, (s2.proc i).pRtsFlags = (s.proc i).pRtsFlags := fun i =>
    (frame_proc Proc.pRtsFlags hlinked i rfl).trans
      (hflags1 i)
  have hpri2 : ∀ i, (s2.proc i).pPriority = (s1.proc i).pPriority := fun i =>
    frame_proc Proc.pPriority hlinked i rfl
  have hmax2 : ∀ i, (s2.proc i).pMaxPriority = (s.proc i).pMaxPriority := by
    intro i
    rw [frame_proc Proc.pMaxPriority hlinked i rfl,
      hs1, modProc_proc]
    split_ifs with hi
    · subst hi
      rfl
    · rfl
  -- the new priority of `rp` does not disturb the lists, for `rp` is on none of them
  have hrep1 : ReadyRep s1 (fun i => (s.proc i).pRtsFlags = 0#16 ∧ i ≠ rp) Q := by
    refine hQ.congr (readyLinks_modProc _ rfl) rfl (fun _ => Iff.rfl) ?_
    rintro i ⟨_, hi⟩
    rw [hs1, modProc_proc_of_ne _ _ _ hi]
  have hnot : ¬ ((s.proc rp).pRtsFlags = 0#16 ∧ rp ≠ rp) := fun hon => hon.2 rfl
  have hinv2 : ReadyInv s2 := by
    refine ⟨⟨_, (hrep1.linkReady hnot).congr rfl rfl ?_
      (fun _ _ => rfl)⟩, ?_, ?_⟩
    · intro i
      rw [hflags2 i]
      by_cases hi : i = rp
      · simp [hi, hrp]
      · simp [hi]
    · intro i
      rw [hpri2 i, hs1, modProc_proc]
      split
      · exact sched_priority_range (hpri rp)
      · exact hpri i
    · intro i
      rw [hmax2 i]
      exact hmax i
  have hs' : s.enqueue rp = if s2.preempts rp then s2.rtsSet s2.procPtr rtsPreempted else s2 :=
    rfl
  rw [hs']
  split
  · exact hinv2.rtsSet (by decide)
  · exact hinv2

theorem rtsUnset (h : ReadyInv s) (rp : Slot) (f : BitVec 16) : ReadyInv (s.rtsUnset rp f) := by
  set s1 := s.modProc rp fun p => p.setRts (clearBits p.pRtsFlags f) with hs1
  have hs' : s.rtsUnset rp f =
      if !s.procIsRunnable rp && s1.procIsRunnable rp then s1.enqueue rp else s1 := rfl
  have hflags : ∀ i, (s1.proc i).pRtsFlags =
      if i = rp then clearBits (s.proc rp).pRtsFlags f else (s.proc i).pRtsFlags := by
    intro i
    rw [hs1, modProc_proc]
    split <;> rfl
  have hlinks : s1.readyLinks = s.readyLinks := readyLinks_modProc _ rfl
  have hpri : ∀ i, (s1.proc i).pPriority = (s.proc i).pPriority := by
    intro i
    rw [hs1, modProc_proc]
    split_ifs with hi
    · subst hi
      rfl
    · rfl
  have hmax : ∀ i, (s1.proc i).pMaxPriority = (s.proc i).pMaxPriority := by
    intro i
    rw [hs1, modProc_proc]
    split_ifs with hi
    · subst hi
      rfl
    · rfl
  rw [hs']
  split_ifs with hready
  · simp only [procIsRunnable, hflags rp, if_true, Bool.and_eq_true, Bool.not_eq_true',
      beq_eq_false_iff_ne, beq_iff_eq] at hready
    obtain ⟨Q, hQ⟩ := h.rep
    refine enqueue (Q := Q) (hQ.congr hlinks rfl ?_ fun i _ => hpri i) ?_ ?_ ?_
    · intro i
      by_cases hi : i = rp
      · simp [hi, hready.1]
      · simp [hflags i, hi]
    · rw [hflags rp, if_pos rfl]
      exact hready.2
    · intro i
      rw [hpri i]
      exact h.priority i
    · intro i
      rw [hmax i]
      exact h.maxPriority i
  · refine h.congr hlinks rfl ?_ hpri hmax
    intro i
    rw [hflags i]
    by_cases hi : i = rp
    · subst hi
      rw [if_pos rfl]
      constructor
      · intro hz
        by_contra hne
        exact hready (by simp [procIsRunnable, hflags, hne, hz])
      · intro hz
        rw [hz, clearBits_zero]
    · rw [if_neg hi]

end ReadyInv

end Minix.Kernel
