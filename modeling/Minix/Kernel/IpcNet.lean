/-
  Kernel/IpcNet.lean --- message passing in the kernel as a system of blocked
  processes.

  `State.net` reads a `Net` off the process table: who is blocked sending to whom and
  receiving from whom, with the queues as the history says they should be.  `IpcInv`
  says that the linked lists in the table are those queues and that the system is
  well formed.  Every elementary change of the kernel state is a step of the system
  or leaves it alone (`Step.ipc`).
-/
import Mathlib.Data.Option.Basic
import Minix.Foundation.Rendezvous
import Minix.Kernel.Calls

set_option autoImplicit false

namespace Minix.Kernel

open Minix.Foundation Relation State Function

variable {e : Event} {i d rp caller dst : Slot} {x src wanted : Option Slot} {f g : BitVec 16}
  {s' s : State} {srcE dstE : Int} {L' : Links Slot Slot} {xpp : Ref Slot Slot}

/-! ## The history of blocked senders -/

/-- The senders that are blocked on `d` after the events of a log, in the order in
which they blocked.  The last event of a log comes first. -/
def pendingSenders : List Event → Slot → List Slot
  | [], _ => []
  | .blocked src dst :: log, d =>
      if d = dst then pendingSenders log d ++ [src] else pendingSenders log d
  | .taken src dst _ :: log, d | .orphaned src dst :: log, d | .withdrawn src dst :: log, d =>
      if d = dst then (pendingSenders log d).erase src else pendingSenders log d
  | .died _ :: log, d | .queued _ _ :: log, d | .copied _ _ :: log, d | .discarded _ _ :: log, d =>
      pendingSenders log d

/-- An event that concerns blocked senders fits the events before it: a sender blocks
once at a time, the first sender that a receiver asks for is taken, and a blocked
sender is released in another way only after its destination or it itself has lost its
endpoint. -/
def Event.Fits (log : List Event) : Event → Prop
  | .blocked src _ => ∀ d, src ∉ pendingSenders log d
  | .taken src dst wanted =>
      (pendingSenders log dst).find? (fun p => wanted.all (· == p)) = some src
  | .orphaned src dst => src ∈ pendingSenders log dst ∧ .died dst ∈ log
  | .withdrawn src dst => src ∈ pendingSenders log dst ∧ .died src ∈ log
  | .died _ | .queued _ _ | .copied _ _ | .discarded _ _ => True

/-- Every event of a log fits the events before it. -/
def Served : List Event → Prop
  | [] => True
  | e :: log => e.Fits log ∧ Served log

/-- An event that does not concern blocked senders. -/
def Event.aside : Event → Bool
  | .died _ | .queued _ _ | .copied _ _ | .discarded _ _ => true
  | .blocked _ _ | .taken _ _ _ | .orphaned _ _ | .withdrawn _ _ => false

theorem pendingSenders_aside (h : e.aside = true) {log : List Event} :
    pendingSenders (e :: log) = pendingSenders log := by
  cases e with
  | died _ | queued _ _ | copied _ _ | discarded _ _ => rfl
  | blocked _ _ | taken _ _ _ | orphaned _ _ | withdrawn _ _ => exact nomatch h

theorem served_aside (h : e.aside = true) {log : List Event} (hlog : Served log) :
    Served (e :: log) := by
  refine ⟨?_, hlog⟩
  cases e with
  | died _ | queued _ _ | copied _ _ | discarded _ _ => trivial
  | blocked _ _ | taken _ _ _ | orphaned _ _ | withdrawn _ _ => exact nomatch h

/-! ## Endpoints -/

namespace State

variable (s : State)

/-- The slot that has the endpoint `e`. -/
def named (e : Int) : Option Slot :=
  (procAddr (endpointP e)).filter fun i => (s.proc i).pEndpoint == e

theorem named_eq_some_iff {e : Int} :
    s.named e = some i ↔ procNr i = endpointP e ∧ (s.proc i).pEndpoint = e := by
  unfold named
  rw [Option.filter_eq_some_iff, beq_iff_eq]
  constructor
  · rintro ⟨haddr, hep⟩
    exact ⟨procNr_of_procAddr haddr, hep⟩
  · rintro ⟨hnr, hep⟩
    exact ⟨by rw [← hnr, procAddr_procNr], hep⟩

/-- `ANY` is no endpoint. -/
theorem named_any : s.named endptAny = none := by
  rfl

/-- Endpoints encode their slots. -/
def EndpointsOk : Prop := ∀ i, endpointP (s.proc i).pEndpoint = procNr i

variable {s} in
theorem EndpointsOk.named (h : s.EndpointsOk) {i : Slot} :
    s.named (s.proc i).pEndpoint = some i :=
  s.named_eq_some_iff.mpr ⟨(h i).symm, rfl⟩

/-! ## The system of blocked processes -/

/-- The sources that a receive from `e` asks for: any, or the process with this
endpoint if there is one. -/
def source (e : Int) : Option (Option Slot) :=
  if e = endptAny then some none else (s.named e).map some

/-- The blocked processes of the kernel. -/
def net : Net Slot where
  sending i := if s.rtsIsset i rtsSending then s.named (s.proc i).pSendtoE else none
  receiving i := if s.rtsIsset i rtsReceiving then s.source (s.proc i).pGetfromE else none
  queue := pendingSenders s.log

theorem net_sending_eq_some_iff : s.net.sending i = some d ↔
      s.rtsIsset i rtsSending = true ∧ s.named (s.proc i).pSendtoE = some d := by
  simp [net]

theorem net_sending_of_not (h : s.rtsIsset i rtsSending = false) : s.net.sending i = none := by
  simp [net, h]

theorem net_receiving_eq_some_iff : s.net.receiving i = some x ↔
      s.rtsIsset i rtsReceiving = true ∧ s.source (s.proc i).pGetfromE = some x := by
  simp [net]

theorem net_receiving_of_not (h : s.rtsIsset i rtsReceiving = false) :
    s.net.receiving i = none := by
  simp [net, h]

/-- A free slot has no other flag. -/
def FreeExact : Prop := ∀ i, s.rtsIsset i rtsSlotFree = true → (s.proc i).pRtsFlags = rtsSlotFree

/-- The links of the process table are the queues of the system, and the system is
well formed. -/
structure IpcInv : Prop where
  endpoints : s.EndpointsOk
  free : s.FreeExact
  current : s.Alive s.procPtr
  /-- A blocked sender names a process. -/
  target : ∀ i, s.rtsIsset i rtsSending = true →
    ∃ d, s.named (s.proc i).pSendtoE = some d ∧ s.Alive d
  path : ∀ d, s.Alive d → s.rtsIsset d rtsNoEndpoint = false →
    s.callerLinks.Path (.head d) (pendingSenders s.log d)
  wf : s.net.Wf
  served : Served s.log

/-- The destination of every blocked sender has its endpoint. -/
def Attended : Prop := ∀ i d, s.net.sending i = some d → s.rtsIsset d rtsNoEndpoint = false

/-- Every receiver waits for any message or for one from a process that exists. -/
def SourcesOk : Prop :=
  ∀ i, s.rtsIsset i rtsReceiving = true →
    ∃ x, s.source (s.proc i).pGetfromE = some x ∧ ∀ j, x = some j → s.Alive j

/-! ## Flags that concern messages -/

/-- The flags that the system of blocked processes is read off. -/
def ipcFlags : List (BitVec 16) := [rtsSending, rtsReceiving, rtsNoEndpoint, rtsSlotFree]

/-- The same flags as one word. -/
def ipcMask : BitVec 16 := rtsSending ||| rtsReceiving ||| rtsNoEndpoint ||| rtsSlotFree

theorem disjoint_of_ipcFlags (hg : g ∈ ipcFlags) (hd : ipcMask &&& f = 0#16) : g &&& f = 0#16 := by
  refine disjoint_of_isSet ?_ hd
  simp only [ipcFlags, List.mem_cons, List.not_mem_nil, or_false] at hg
  rcases hg with rfl | rfl | rfl | rfl <;> decide

theorem preempted_of_ipcFlags (hg : g ∈ ipcFlags) : g &&& rtsPreempted = 0#16 :=
  disjoint_of_ipcFlags hg (by decide)

theorem rtsIsset_rtsSet_eq (rp i : Slot) (f : BitVec 16) :
    (s.rtsSet rp f).rtsIsset i f = if i = rp then true else s.rtsIsset i f := by
  simp only [rtsIsset, flags_rtsSet]
  split
  · rw [isSet_or_self]
  · rfl

variable {s}

variable (h : s.FreeExact)
include h

theorem FreeExact.of_flags
    (hflags : ∀ i, (s'.proc i).pRtsFlags = (s.proc i).pRtsFlags) : s'.FreeExact := by
  intro i hi
  rw [rtsIsset, hflags i] at hi
  rw [hflags i]
  exact h i hi

theorem FreeExact.rtsSet (halive : s.Alive rp)
    (hd : rtsSlotFree &&& f = 0#16) : (s.rtsSet rp f).FreeExact := by
  intro i hi
  rw [rtsIsset_rtsSet_of_disjoint s rp i hd] at hi
  have hne : i ≠ rp := by
    rintro rfl
    exact nomatch halive.symm.trans hi
  rw [flags_rtsSet, if_neg hne]
  exact h i hi

/-- Clearing a flag may preempt the current process, which is not free. -/
theorem FreeExact.rtsUnset (hcur : s.Alive s.procPtr) {rp : Slot}
    (hd : rtsSlotFree &&& f = 0#16) : (s.rtsUnset rp f).FreeExact := by
  intro i hi
  rw [rtsIsset_rtsUnset_of_disjoint s rp i hd (by decide)] at hi
  have hfree := h i hi
  rcases flags_rtsUnset s rp with hflags | ⟨hptr, _, _⟩
  · rw [hflags]
    split_ifs with hrp
    · rw [← hrp, hfree, clearBits_eq_self hd]
    · exact hfree
  · rw [hptr] at hi
    exact nomatch hcur.symm.trans hi

/-- A process with another flag is not free. -/
theorem FreeExact.alive
    (hset : s.rtsIsset i f = true) (hf : isSet rtsSlotFree f = false) : s.Alive i := by
  by_contra hfree
  have hflags := h i (by simpa [Alive] using hfree)
  rw [rtsIsset, hflags] at hset
  cases hf.symm.trans hset

end State

/-! ## Changes that leave the system alone -/

/-- Two states with the same blocked processes and queues. -/
structure SameIpc (s s' : State) : Prop where
  links : s'.callerLinks = s.callerLinks
  endpoint : ∀ i, (s'.proc i).pEndpoint = (s.proc i).pEndpoint
  sendto : ∀ i, (s'.proc i).pSendtoE = (s.proc i).pSendtoE
  getfrom : ∀ i, (s'.proc i).pGetfromE = (s.proc i).pGetfromE
  flags : ∀ i, ∀ f ∈ State.ipcFlags, s'.rtsIsset i f = s.rtsIsset i f
  queue : pendingSenders s'.log = pendingSenders s.log
  served : Served s.log → Served s'.log
  kept : s.log ⊆ s'.log
  procPtr : s'.procPtr = s.procPtr
  free : s.FreeExact → s.Alive s.procPtr → s'.FreeExact

namespace SameIpc

variable {s s' : State}

section

variable (h : SameIpc s s')
include h

theorem sending {i : Slot} : s'.rtsIsset i rtsSending = s.rtsIsset i rtsSending := h.flags i _ (by simp [ipcFlags])

theorem receiving {i : Slot} : s'.rtsIsset i rtsReceiving = s.rtsIsset i rtsReceiving := h.flags i _ (by simp [ipcFlags])

theorem noEndpoint (i : Slot) : s'.rtsIsset i rtsNoEndpoint = s.rtsIsset i rtsNoEndpoint :=
  h.flags i _ (by simp [ipcFlags])

theorem alive (i : Slot) : s'.Alive i ↔ s.Alive i := by
  rw [Alive, Alive, h.flags i _ (by simp [ipcFlags])]

theorem named : s'.named = s.named := by
  funext e
  simp only [State.named, h.endpoint]

theorem net : s'.net = s.net := by
  simp only [State.net, source, h.sending, h.receiving, h.named, h.sendto, h.getfrom,
    h.queue]

theorem attended (hatt : s.Attended) : s'.Attended := by
  intro i d hi
  rw [h.noEndpoint]
  exact hatt i d (h.net ▸ hi)

theorem sources (hsrc : s.SourcesOk) : s'.SourcesOk := by
  intro i hi
  obtain ⟨x, hx, hlive⟩ := hsrc i ((h.receiving).symm.trans hi)
  refine ⟨x, ?_, fun j hj => (h.alive j).mpr (hlive j hj)⟩
  rwa [source, h.named, h.getfrom]

theorem trans {s'' : State} (h' : SameIpc s' s'') : SameIpc s s'' where
  links := h'.links.trans h.links
  endpoint i := (h'.endpoint i).trans (h.endpoint i)
  sendto i := (h'.sendto i).trans (h.sendto i)
  getfrom i := (h'.getfrom i).trans (h.getfrom i)
  flags i f hf := (h'.flags i f hf).trans (h.flags i f hf)
  queue := h'.queue.trans h.queue
  served hlog := h'.served (h.served hlog)
  kept := List.Subset.trans h.kept h'.kept
  procPtr := h'.procPtr.trans h.procPtr
  free hfree hcur := h'.free (h.free hfree hcur) ((h.alive _).mpr (h.procPtr ▸ hcur))

end

theorem of_erase (h : s'.erase = s.erase) : SameIpc s s' where
  links := frame_congr callerLinks h rfl
  endpoint i := frame_proc Proc.pEndpoint h i rfl
  sendto i := frame_proc Proc.pSendtoE h i rfl
  getfrom i := frame_proc Proc.pGetfromE h i rfl
  flags i f _ := frame_congr (fun t => t.rtsIsset i f) h rfl
  queue := frame_congr (fun t => pendingSenders t.log) h rfl
  served hlog := (frame_congr (fun t => Served t.log) h rfl).mpr hlog
  kept := (frame_congr (fun t => s.log ⊆ t.log) h rfl).mpr (List.Subset.refl _)
  procPtr := frame_congr State.procPtr h rfl
  free hfree _ := hfree.of_flags fun i =>
    frame_proc Proc.pRtsFlags h i rfl

/-- A change of what the scheduler writes, and of no flag that concerns messages. -/
theorem of_unsched (h : s'.unsched = s.unsched)
    (hflags : ∀ i, ∀ f ∈ State.ipcFlags, s'.rtsIsset i f = s.rtsIsset i f)
    (hfree : s.FreeExact → s.Alive s.procPtr → s'.FreeExact) : SameIpc s s' where
  links := frame_congr callerLinks h rfl
  endpoint i := frame_proc Proc.pEndpoint h i rfl
  sendto i := frame_proc Proc.pSendtoE h i rfl
  getfrom i := frame_proc Proc.pGetfromE h i rfl
  flags := hflags
  queue := frame_congr (fun t => pendingSenders t.log) h rfl
  served hlog := (frame_congr (fun t => Served t.log) h rfl).mpr hlog
  kept := (frame_congr (fun t => s.log ⊆ t.log) h rfl).mpr (List.Subset.refl _)
  procPtr := frame_congr State.procPtr h rfl
  free := hfree

variable (s : State)

theorem rtsSet (halive : s.Alive rp) (hd : State.ipcMask &&& f = 0#16) : SameIpc s (s.rtsSet rp f) := by
  refine of_unsched (unsched_rtsSet s rp f) ?_ ?_
  · intro i g hg
    exact rtsIsset_rtsSet_of_disjoint s rp i (disjoint_of_ipcFlags hg hd)
  · intro hfree _
    exact hfree.rtsSet halive (disjoint_of_ipcFlags (by simp [ipcFlags]) hd)

theorem rtsUnset {rp : Slot} (hd : State.ipcMask &&& f = 0#16) : SameIpc s (s.rtsUnset rp f) := by
  refine of_unsched (unsched_rtsUnset s rp f) ?_ ?_
  · intro i g hg
    exact rtsIsset_rtsUnset_of_disjoint s rp i (disjoint_of_ipcFlags hg hd)
      (preempted_of_ipcFlags hg)
  · intro hfree hcur
    exact hfree.rtsUnset hcur (disjoint_of_ipcFlags (by simp [ipcFlags]) hd)

/-- A change of fields of one entry that have nothing to do with messages. -/
theorem modProc {rp : Slot} {f : Proc → Proc}
    (hf : ∀ p : Proc, (f p).pRtsFlags = p.pRtsFlags ∧ (f p).pEndpoint = p.pEndpoint ∧
      (f p).pSendtoE = p.pSendtoE ∧ (f p).pGetfromE = p.pGetfromE ∧
      (f p).pCallerQ = p.pCallerQ ∧ (f p).pQLink = p.pQLink) : SameIpc s (s.modProc rp f) := by
  have hflags : ∀ i, ((s.modProc rp f).proc i).pRtsFlags = (s.proc i).pRtsFlags :=
    modProc_congr s rp Proc.pRtsFlags (hf _).1
  refine ⟨?_, modProc_congr s rp _ (hf _).2.1, modProc_congr s rp _ (hf _).2.2.1,
    modProc_congr s rp _ (hf _).2.2.2.1, ?_, rfl, id, List.Subset.refl _, rfl,
    fun hfree _ => hfree.of_flags hflags⟩
  · have hhead := modProc_congr s rp Proc.pCallerQ (hf (s.proc rp)).2.2.2.2.1
    have hnext := modProc_congr s rp Proc.pQLink (hf (s.proc rp)).2.2.2.2.2
    simp only [callerLinks, hhead, hnext]
  · intro i g _
    rw [rtsIsset, hflags]
    rfl

theorem record (h : e.aside = true) : SameIpc s (s.record e) where
  links := rfl
  endpoint _ := rfl
  sendto _ := rfl
  getfrom _ := rfl
  flags _ _ _ := rfl
  queue := pendingSenders_aside h
  served := served_aside h
  kept := List.subset_cons_self _ _
  procPtr := rfl
  free hfree _ := hfree

theorem queueMess (ep : Int) (m : Message) (dst : Slot) : SameIpc s (s.queueMess ep (some m) dst).2 := by
  refine trans (modProc s ?_) (record _ rfl)
  exact fun _ => ⟨rfl, rfl, rfl, rfl, rfl, rfl⟩

end SameIpc

theorem State.IpcInv.same (h : s.IpcInv) (hsame : SameIpc s s') : s'.IpcInv where
  endpoints i := by
    rw [hsame.endpoint i]
    exact h.endpoints i
  free := hsame.free h.free h.current
  current := by
    rw [hsame.procPtr, hsame.alive]
    exact h.current
  target i hi := by
    obtain ⟨d, hd, halive⟩ := h.target i ((hsame.sending).symm.trans hi)
    exact ⟨d, by rwa [hsame.named, hsame.sendto], (hsame.alive d).mpr halive⟩
  path d halive hend := by
    rw [hsame.links, hsame.queue]
    exact h.path d ((hsame.alive d).mp halive) ((hsame.noEndpoint d).symm.trans hend)
  wf := hsame.net ▸ h.wf
  served := hsame.served h.served

/-! ## Changes of one process -/

/-- Two states with the same endpoints and the same processes that have one. -/
structure SameNames (s s' : State) : Prop where
  endpoint : ∀ i, (s'.proc i).pEndpoint = (s.proc i).pEndpoint
  alive : ∀ i, s'.Alive i ↔ s.Alive i
  noEndpoint : ∀ i, s'.rtsIsset i rtsNoEndpoint = s.rtsIsset i rtsNoEndpoint
  procPtr : s'.procPtr = s.procPtr

theorem SameNames.named (h : SameNames s s') : s'.named = s.named := by
  funext e
  simp only [State.named, h.endpoint]

theorem SameNames.source (h : SameNames s s') : s'.source = s.source := by
  funext e
  simp only [State.source, h.named]

theorem SameNames.trans {s'' : State} (h : SameNames s s') (h' : SameNames s' s'') :
    SameNames s s'' where
  endpoint i := (h'.endpoint i).trans (h.endpoint i)
  alive i := (h'.alive i).trans (h.alive i)
  noEndpoint i := (h'.noEndpoint i).trans (h.noEndpoint i)
  procPtr := h'.procPtr.trans h.procPtr

namespace State

variable {s : State} {k : Proc → Int}

/-- The endpoints that the processes with the flag `f` wait for. -/
def waiting (s : State) (f : BitVec 16) (k : Proc → Int) (i : Slot) : Option Int :=
  if s.rtsIsset i f then some (k (s.proc i)) else none

/-- The destinations of the blocked senders. -/
abbrev sendsTo (s : State) : Slot → Option Int := s.waiting rtsSending Proc.pSendtoE

/-- The sources of the blocked receivers. -/
abbrev receivesFrom (s : State) : Slot → Option Int := s.waiting rtsReceiving Proc.pGetfromE

theorem waiting_eq_some_iff {n : Int} :
    s.waiting f k i = some n ↔ s.rtsIsset i f = true ∧ k (s.proc i) = n := by
  unfold waiting
  split <;> simp_all

theorem waiting_congr (hflag : ∀ i, s'.rtsIsset i f = s.rtsIsset i f)
    (hk : ∀ i, k (s'.proc i) = k (s.proc i)) : s'.waiting f k = s.waiting f k := by
  funext i
  rw [waiting, waiting, hflag, hk]

theorem waiting_off (hflag : ∀ i, s'.rtsIsset i f = if i = rp then false else s.rtsIsset i f)
    (hk : ∀ i, k (s'.proc i) = k (s.proc i)) :
    s'.waiting f k = update (s.waiting f k) rp none := by
  funext i
  rw [waiting, hflag, hk, update_apply]
  split <;> rfl

theorem waiting_on {n : Int}
    (hflag : ∀ i, s'.rtsIsset i f = if i = rp then true else s.rtsIsset i f)
    (hk : ∀ i, k (s'.proc i) = if i = rp then n else k (s.proc i)) :
    s'.waiting f k = update (s.waiting f k) rp (some n) := by
  funext i
  rw [waiting, hflag, hk, update_apply]
  split <;> rfl

theorem net_eq (s : State) :
    s.net = ⟨fun i => (s.sendsTo i).bind s.named, fun i => (s.receivesFrom i).bind s.source,
      pendingSenders s.log⟩ := by
  simp only [net, waiting]
  congr 1 <;> funext i <;> split <;> rfl

end State

theorem bind_update {α : Type} (a : Slot → Option Int) (rp : Slot) (o : Option Int)
    (k : Int → Option α) : (fun i => (update a rp o i).bind k) =
      update (fun i => (a i).bind k) rp (o.bind k) :=
  funext fun i => apply_update (fun _ o => o.bind k) a rp o i

theorem of_update_none {a : Slot → Option Int} {n : Int}
    (h : update a rp none i = some n) : a i = some n := by
  rw [update_apply] at h
  split at h
  · simp at h
  · exact h

variable {t u : State} {a b : Slot → Option Int} {L : Links Slot Slot} {l : List Event}

/-- A change that keeps endpoints: afterwards the senders wait for `sends` and the
receivers for `recvs`, with these links and this log. -/
structure Changes (s s' : State) (sends recvs : Slot → Option Int) (links : Links Slot Slot)
    (log : List Event) : Prop where
  names : SameNames s s'
  sends : s'.sendsTo = sends
  recvs : s'.receivesFrom = recvs
  links : s'.callerLinks = links
  log : s'.log = log
  free : s.FreeExact → s.Alive s.procPtr → s'.FreeExact

/-- The flag `f` of `rp` is cleared, and nothing else changes that concerns messages. -/
structure FlagOff (f : BitVec 16) (rp : Slot) (t u : State) : Prop where
  unsched : u.unsched = t.unsched
  off : ∀ i, u.rtsIsset i f = if i = rp then false else t.rtsIsset i f
  rest : ∀ i, ∀ g ∈ State.ipcFlags, g &&& f = 0#16 → u.rtsIsset i g = t.rtsIsset i g
  free : t.FreeExact → t.Alive t.procPtr → u.FreeExact

theorem FlagOff.rtsUnset (t : State) (rp : Slot) (hf : f ≠ 0#16) (hpre : f &&& rtsPreempted = 0#16)
    (hfree : rtsSlotFree &&& f = 0#16) : FlagOff f rp t (t.rtsUnset rp f) where
  unsched := t.unsched_rtsUnset rp f
  off i := by
    split_ifs with hi
    · rw [hi, rtsIsset_rtsUnset_self t rp hf]
    · exact t.rtsIsset_rtsUnset_of_ne rp i hi hpre
  rest i _ hg hd := t.rtsIsset_rtsUnset_of_disjoint rp i hd (preempted_of_ipcFlags hg)
  free h hcur := h.rtsUnset hcur hfree

theorem FlagOff.names (h : FlagOff f rp t u) (hend : rtsNoEndpoint &&& f = 0#16)
    (hfree : rtsSlotFree &&& f = 0#16) : SameNames t u where
  endpoint i := frame_proc Proc.pEndpoint h.unsched i rfl
  alive i := by rw [Alive, Alive, h.rest i _ (by simp [ipcFlags]) hfree]
  noEndpoint i := h.rest i _ (by simp [ipcFlags]) hend
  procPtr := frame_congr procPtr h.unsched rfl

namespace Changes

theorem refl (s : State) : Changes s s s.sendsTo s.receivesFrom s.callerLinks s.log :=
  ⟨⟨fun _ => rfl, fun _ => Iff.rfl, fun _ => rfl, rfl⟩, rfl, rfl, rfl, rfl, fun h _ => h⟩

theorem comp {a' b' : Slot → Option Int} {l' : List Event} (h : Changes s t a b L l)
    (h' : Changes t u a' b' L' l') : Changes s u a' b' L' l' where
  names := h.names.trans h'.names
  sends := h'.sends
  recvs := h'.recvs
  links := h'.links
  log := h'.log
  free hfree hcur := h'.free (h.free hfree hcur) ((h.names.alive _).mpr (h.names.procPtr ▸ hcur))

theorem net (h : Changes s s' a b L l) :
    s'.net = ⟨fun i => (a i).bind s.named, fun i => (b i).bind s.source, pendingSenders l⟩ := by
  rw [net_eq, h.sends, h.recvs, h.log, h.names.named, h.names.source]

variable (h : Changes s t a b L l)
include h

theorem record (e : Event) : Changes s (t.record e) a b L (e :: l) :=
  h.comp ⟨⟨fun _ => rfl, fun _ => Iff.rfl, fun _ => rfl, rfl⟩, h.sends, h.recvs, h.links,
    congrArg (e :: ·) h.log, fun hfree _ => hfree⟩

theorem stopSending (hoff : FlagOff rtsSending rp t u) :
    Changes s u (update a rp none) b L l := by
  refine h.comp ⟨hoff.names (by decide) (by decide), ?_, ?_, ?_, ?_, hoff.free⟩
  · rw [← h.sends]
    exact waiting_off hoff.off fun i =>
      frame_proc Proc.pSendtoE hoff.unsched i rfl
  · rw [← h.recvs]
    exact waiting_congr (fun i => hoff.rest i _ (by simp [ipcFlags]) (by decide))
      fun i => frame_proc Proc.pGetfromE hoff.unsched i rfl
  · exact (frame_congr callerLinks hoff.unsched rfl).trans h.links
  · exact (frame_congr State.log hoff.unsched rfl).trans h.log

theorem stopReceiving (hoff : FlagOff rtsReceiving rp t u) :
    Changes s u a (update b rp none) L l := by
  refine h.comp ⟨hoff.names (by decide) (by decide), ?_, ?_, ?_, ?_, hoff.free⟩
  · rw [← h.sends]
    exact waiting_congr (fun i => hoff.rest i _ (by simp [ipcFlags]) (by decide))
      fun i => frame_proc Proc.pSendtoE hoff.unsched i rfl
  · rw [← h.recvs]
    exact waiting_off hoff.off fun i =>
      frame_proc Proc.pGetfromE hoff.unsched i rfl
  · exact (frame_congr callerLinks hoff.unsched rfl).trans h.links
  · exact (frame_congr State.log hoff.unsched rfl).trans h.log

end Changes

/-! ## Every change is a step -/

/-- A change of the kernel state is a step of the system of blocked processes or
leaves the system alone. -/
structure IpcStep (careful : Prop) (s s' : State) : Prop where
  inv : s'.IpcInv
  net : s'.net = s.net ∨ Net.Step careful s.net s'.net
  attended : s.Attended → s'.Attended
  sources : s.SourcesOk → s'.SourcesOk

namespace IpcStep

variable {careful : Prop} {s s' : State}

theorem same (h : s.IpcInv) (hsame : SameIpc s s') : IpcStep careful s s' :=
  ⟨h.same hsame, .inl hsame.net, hsame.attended, hsame.sources⟩

/-- A change that keeps endpoints, and starts waits only for processes that exist; the
destination of a new sender has its endpoint. -/
theorem of_changes (h : s.IpcInv) (hc : Changes s s' a b L l)
    (hsends : ∀ i n, a i = some n → s.sendsTo i = some n ∨
      ∃ d, s.named n = some d ∧ s.Alive d ∧ s.rtsIsset d rtsNoEndpoint = false)
    (hrecvs : ∀ i n, b i = some n → s.receivesFrom i = some n ∨
      ∃ x, s.source n = some x ∧ ∀ j, x = some j → s.Alive j)
    (hpath : ∀ d, s.Alive d → s.rtsIsset d rtsNoEndpoint = false →
      L.Path (.head d) (pendingSenders l d))
    (hserved : Served l) (hstep : Net.Step careful s.net s'.net) : IpcStep careful s s' := by
  have hnames := hc.names
  refine ⟨⟨?_, hc.free h.free h.current, ?_, ?_, ?_, h.wf.step hstep, hc.log ▸ hserved⟩,
    .inr hstep, ?_, ?_⟩
  · intro i
    rw [hnames.endpoint i]
    exact h.endpoints i
  · rw [hnames.procPtr, hnames.alive]
    exact h.current
  · intro i hi
    have hto : s'.sendsTo i = some _ := waiting_eq_some_iff.mpr ⟨hi, rfl⟩
    rw [hc.sends] at hto
    rw [hnames.named]
    rcases hsends i _ hto with hold | ⟨d, hd, halive, _⟩
    · obtain ⟨hset, hn⟩ := waiting_eq_some_iff.mp hold
      obtain ⟨d, hd, halive⟩ := h.target i hset
      exact ⟨d, hn ▸ hd, (hnames.alive d).mpr halive⟩
    · exact ⟨d, hd, (hnames.alive d).mpr halive⟩
  · intro d halive hend
    rw [hc.links, hc.log]
    exact hpath d ((hnames.alive d).mp halive) ((hnames.noEndpoint d).symm.trans hend)
  · intro hatt i d hi
    rw [hnames.noEndpoint]
    rw [hc.net] at hi
    obtain ⟨n, hn, hd⟩ := Option.bind_eq_some_iff.mp hi
    rcases hsends i n hn with hold | ⟨d', hd', _, hend⟩
    · obtain ⟨hset, hn⟩ := waiting_eq_some_iff.mp hold
      exact hatt i d (s.net_sending_eq_some_iff.mpr ⟨hset, hn ▸ hd⟩)
    · rw [← Option.some.inj (hd'.symm.trans hd)]
      exact hend
  · intro hsrc i hi
    have hfrom : s'.receivesFrom i = some _ := waiting_eq_some_iff.mpr ⟨hi, rfl⟩
    rw [hc.recvs] at hfrom
    rw [hnames.source]
    rcases hrecvs i _ hfrom with hold | ⟨x, hx, hlive⟩
    · obtain ⟨hset, hn⟩ := waiting_eq_some_iff.mp hold
      obtain ⟨x, hx, hlive⟩ := hsrc i hset
      exact ⟨x, hn ▸ hx, fun j hj => (hnames.alive j).mpr (hlive j hj)⟩
    · exact ⟨x, hx, fun j hj => (hnames.alive j).mpr (hlive j hj)⟩

theorem trans_same {t : State} (hsame : SameIpc s t) (h : IpcStep careful t s') :
    IpcStep careful s s' :=
  ⟨h.inv, hsame.net ▸ h.net, fun hatt => h.attended (hsame.attended hatt),
    fun hsrc => h.sources (hsame.sources hsrc)⟩

end IpcStep

namespace State

variable {s : State}

/-! ### Ending a receive -/

theorem changes_unblock (s : State) {rp : Slot} :
    Changes s (s.rtsUnset rp rtsReceiving) s.sendsTo (update s.receivesFrom rp none)
      s.callerLinks s.log :=
  (Changes.refl s).stopReceiving (.rtsUnset s rp (by decide) (by decide) (by decide))

theorem net_rtsUnset_receiving (rp : Slot) :
    (s.rtsUnset rp rtsReceiving).net = s.net.unblock rp := by
  rw [(s.changes_unblock).net, s.net_eq]
  simp only [Net.unblock, bind_update]
  rfl

end State

theorem IpcStep.unblock {careful : Prop} (h : s.IpcInv) {rp : Slot} :
    IpcStep careful s (s.rtsUnset rp rtsReceiving) := by
  refine .of_changes h (s.changes_unblock) (fun _ _ => .inl) ?_ h.path h.served ?_
  · exact fun _ _ hi => .inl (of_update_none hi)
  · rw [s.net_rtsUnset_receiving]
    exact .unblock rp

namespace State

variable {s : State}

/-! ### Starting a receive -/

/-- The state in which `caller` is blocked in a receive from `srcE`. -/
def receivingState (s : State) (caller : Slot) (srcE : Int) : State :=
  (s.modProc caller fun p => { p with pGetfromE := srcE }).rtsSet caller rtsReceiving

theorem rtsIsset_receivingState {caller : Slot} {srcE : Int} {i : Slot}
    (hg : g &&& rtsReceiving = 0#16) :
    (s.receivingState caller srcE).rtsIsset i g = s.rtsIsset i g := by
  rw [receivingState, rtsIsset_rtsSet_of_disjoint _ _ _ hg]
  exact modProc_congr s caller (fun p => isSet p.pRtsFlags g) rfl i

theorem changes_receivingState (halive : s.Alive caller) {srcE : Int} :
    Changes s (s.receivingState caller srcE) s.sendsTo
      (update s.receivesFrom caller (some srcE)) s.callerLinks s.log := by
  set t := s.modProc caller fun p => { p with pGetfromE := srcE } with ht
  have hun : (s.receivingState caller srcE).unsched = t.unsched := unsched_rtsSet _ _ _
  refine ⟨⟨?_, ?_, fun i => rtsIsset_receivingState (by decide), ?_⟩, ?_, ?_, ?_, ?_, ?_⟩
  · intro i
    rw [frame_proc Proc.pEndpoint hun i rfl]
    exact modProc_congr s caller Proc.pEndpoint rfl i
  · intro i
    rw [Alive, Alive, rtsIsset_receivingState (by decide)]
  · exact (frame_congr procPtr hun rfl).trans rfl
  · refine waiting_congr (fun i => rtsIsset_receivingState (by decide)) fun i => ?_
    rw [frame_proc Proc.pSendtoE hun i rfl]
    exact modProc_congr s caller Proc.pSendtoE rfl i
  · refine waiting_on (fun i => ?_) fun i => ?_
    · rw [receivingState, rtsIsset_rtsSet_eq]
      split
      · rfl
      · exact modProc_congr s caller (fun p => isSet p.pRtsFlags rtsReceiving) rfl i
    · rw [frame_proc Proc.pGetfromE hun i rfl, ht, modProc_proc]
      split <;> rfl
  · rw [frame_congr callerLinks hun rfl]
    exact congrArg₂ Links.mk (funext (modProc_congr s caller Proc.pCallerQ rfl))
      (funext (modProc_congr s caller Proc.pQLink rfl))
  · exact (frame_congr log hun rfl).trans rfl
  · intro hfree _
    refine FreeExact.rtsSet (hfree.of_flags (modProc_congr s caller Proc.pRtsFlags rfl)) ?_
      (by decide)
    exact (modProc_congr s caller (fun p => isSet p.pRtsFlags rtsSlotFree) rfl caller).trans halive

/-! ### Queues -/

theorem callerLinks_setCallerLink (s : State) (r : Ref Slot Slot) (v : Option Slot) :
    (s.setCallerLink r v).callerLinks = s.callerLinks.set r v := by
  cases r with
  | head rp =>
    refine congrArg₂ Links.mk (funext fun i => ?_) (funext
      (modProc_congr s rp (f := fun p => { p with pCallerQ := v }) Proc.pQLink rfl))
    rw [setCallerLink, modProc_proc, update_apply]
    split <;> rfl
  | next rp =>
    refine congrArg₂ Links.mk (funext
      (modProc_congr s rp (f := fun p => { p with pQLink := v }) Proc.pCallerQ rfl))
      (funext fun i => ?_)
    rw [setCallerLink, modProc_proc, update_apply]
    split <;> rfl

end State

theorem Changes.setCallerLink (h : Changes s t a b L l) (r : Ref Slot Slot) (v : Option Slot) :
    Changes s (t.setCallerLink r v) a b (L.set r v) l := by
  have hflag : ∀ i f, (t.setCallerLink r v).rtsIsset i f = t.rtsIsset i f := fun i f =>
    t.setCallerLink_congr (fun p => isSet p.pRtsFlags f) (fun _ _ _ => rfl) r v i
  refine h.comp ⟨⟨t.setCallerLink_congr Proc.pEndpoint (fun _ _ _ => rfl) r v, ?_,
    fun i => hflag i _, ?_⟩, ?_, ?_, ?_, ?_, ?_⟩
  · intro i
    rw [Alive, Alive, hflag]
  · cases r <;> rfl
  · rw [← h.sends]
    exact waiting_congr (fun i => hflag i _)
      (t.setCallerLink_congr Proc.pSendtoE (fun _ _ _ => rfl) r v)
  · rw [← h.recvs]
    exact waiting_congr (fun i => hflag i _)
      (t.setCallerLink_congr Proc.pGetfromE (fun _ _ _ => rfl) r v)
  · rw [t.callerLinks_setCallerLink, h.links]
  · rw [← h.log]
    cases r <;> rfl
  · exact fun hfree _ => hfree.of_flags
      (t.setCallerLink_congr Proc.pRtsFlags (fun _ _ _ => rfl) r v)

namespace State

variable {s : State}

/-- A process is on the queue of one destination. -/
theorem IpcInv.queue_unique (h : s.IpcInv) {p e : Slot} (hd : p ∈ pendingSenders s.log d)
    (he : p ∈ pendingSenders s.log e) : d = e := by
  have hsent := (h.wf.mem p d).mp hd
  rw [(h.wf.mem p e).mp he] at hsent
  exact (Option.some.inj hsent).symm

/-- A queue fits into the table. -/
theorem IpcInv.length_lt (h : s.IpcInv) {d : Slot} :
    (pendingSenders s.log d).length < nrSlots + 1 := by
  have hlen := (h.wf.nodup d).length_le_card
  have hcard : Fintype.card Slot = nrSlots := Fintype.card_fin _
  rw [hcard] at hlen
  exact Nat.lt_succ_of_le hlen

theorem IpcInv.apart (h : s.IpcInv) : Links.Apart (pendingSenders s.log) :=
  fun _ _ _ hd he => h.queue_unique hd he

/-- A sender leaves its queue: the link in front of it takes its own link. -/
theorem IpcInv.path_unlink (h : s.IpcInv) {src : Slot} {before after : List Slot}
    (hqueue : pendingSenders s.log dst = before ++ src :: after)
    (hL : ∀ c, L'.get c = if c = Links.lastRef (.head dst) before then s.callerLinks.next src
      else s.callerLinks.get c) (hpath : s.callerLinks.Path (.head d) (pendingSenders s.log d)) :
    L'.Path (.head d) ((pendingSenders s.log d).erase src) := by
  refine hpath.erase h.apart hqueue ?_ fun c hc => ?_
  · rw [hL, if_pos rfl]
  · rw [hL, if_neg hc]

/-! ### Releasing a sender -/

end State

/-- The event is the end of a send of `src` to `dst`. -/
def Event.Ends (src dst : Slot) (e : Event) : Prop :=
  (∃ wanted, e = .taken src dst wanted) ∨ e = .orphaned src dst ∨ e = .withdrawn src dst

namespace State

variable {s : State}

/-- The end of a send takes the sender out of every queue, as it is on no other one. -/
theorem IpcInv.pending_ends (h : s.IpcInv) {src : Slot} (he : e.Ends src dst)
    (hmem : src ∈ pendingSenders s.log dst) (d : Slot) :
    pendingSenders (e :: s.log) d = (pendingSenders s.log d).erase src := by
  have hif : pendingSenders (e :: s.log) d =
      if d = dst then (pendingSenders s.log d).erase src else pendingSenders s.log d := by
    rcases he with ⟨wanted, rfl⟩ | rfl | rfl <;> rfl
  rw [hif]
  split_ifs with hd
  · rfl
  · rw [List.erase_of_not_mem fun hin => hd (h.queue_unique hin hmem)]

/-- The state after the first sender that `caller` asks for has been released. -/
def takenState (s : State) (caller src : Slot) (wanted : Option Slot) (xpp : Ref Slot Slot) :
    State :=
  ((s.rtsUnset src rtsSending).setCallerLink xpp
    ((s.rtsUnset src rtsSending).proc src).pQLink).record (.taken src caller wanted)

/-- The first sender that `caller` asks for is released. -/
theorem changes_takenState (s : State) (caller src : Slot) (wanted : Option Slot)
    (xpp : Ref Slot Slot) :
    Changes s (s.takenState caller src wanted xpp) (update s.sendsTo src none)
      s.receivesFrom (s.callerLinks.set xpp (s.callerLinks.next src))
      (.taken src caller wanted :: s.log) := by
  have hoff := FlagOff.rtsUnset s src (f := rtsSending) (by decide) (by decide) (by decide)
  have hnext : ((s.rtsUnset src rtsSending).proc src).pQLink = s.callerLinks.next src :=
    frame_proc Proc.pQLink hoff.unsched src rfl
  have hc := (((Changes.refl s).stopSending hoff).setCallerLink xpp (s.callerLinks.next src)).record
    (.taken src caller wanted)
  rw [← hnext] at hc ⊢
  exact hc

theorem IpcInv.net_takenState (h : s.IpcInv) {src : Slot} {wanted : Option Slot}
    {xpp : Ref Slot Slot} (hmem : src ∈ pendingSenders s.log caller) :
    (s.takenState caller src wanted xpp).net = s.net.take src caller := by
  rw [(s.changes_takenState caller src wanted xpp).net, s.net_eq]
  simp only [Net.take, bind_update]
  congr 1
  funext d
  rw [h.pending_ends (.inl ⟨wanted, rfl⟩) hmem, update_apply]
  split_ifs with hd
  · rw [hd]
  · exact List.erase_of_not_mem fun hin => hd (h.queue_unique hin hmem)

/-! ### Joining a queue -/

theorem source_any (s : State) : s.source endptAny = some none := if_pos rfl

theorem source_of_named {e : Int} (h : s.named e = some i) : s.source e = some (some i) := by
  have hne : e ≠ endptAny := by
    rintro rfl
    exact nomatch s.named_any.symm.trans h
  rw [source, if_neg hne, h]
  rfl

/-- Only a process that is not blocked in a send is ready for a message. -/
theorem IpcInv.sending_none_iff (h : s.IpcInv) :
    s.net.sending i = none ↔ s.rtsIsset i rtsSending = false := by
  refine ⟨fun hnone => ?_, s.net_sending_of_not⟩
  by_contra hset
  have hset' : s.rtsIsset i rtsSending = true := by simpa using hset
  obtain ⟨d, hd, _⟩ := h.target i hset'
  exact nomatch hnone.symm.trans (s.net_sending_eq_some_iff.mpr ⟨hset', hd⟩)

/-- `WILLRECEIVE` tests whether the destination waits for the caller. -/
theorem IpcInv.willReceive_of_net (h : s.IpcInv) {p : Slot} (hwill : s.net.WillReceive d p) :
    s.willReceive d (s.proc p).pEndpoint = true := by
  obtain ⟨hsend, x, hx, hacc⟩ := hwill
  obtain ⟨hrecv, hsource⟩ := s.net_receiving_eq_some_iff.mp hx
  rw [h.sending_none_iff] at hsend
  have hfrom : (s.proc d).pGetfromE = endptAny ∨ (s.proc d).pGetfromE = (s.proc p).pEndpoint := by
    unfold source at hsource
    split_ifs at hsource with hany
    · exact .inl hany
    · obtain ⟨q, hq, rfl⟩ := Option.map_eq_some_iff.mp hsource
      have hqp : q = p := by simpa [Net.accepts] using hacc
      exact .inr (hqp ▸ ((s.named_eq_some_iff.mp hq).2).symm)
  simpa [willReceive, hrecv, hsend] using hfrom

section

variable (caller : Slot) (dstE : Int) (msg : Message) (i : Slot)

theorem rtsIsset_markSending (hf : f &&& rtsSending = 0#16) :
    (s.markSending caller dstE msg).rtsIsset i f = s.rtsIsset i f := by
  rw [rtsIsset, flags_markSending]
  split_ifs with hi
  · rw [isSet_or_of_disjoint hf, hi]
    rfl
  · rfl

theorem sending_markSending : (s.markSending caller dstE msg).rtsIsset i rtsSending =
      if i = caller then true else s.rtsIsset i rtsSending := by
  rw [rtsIsset, flags_markSending]
  split
  · rw [isSet_or_self]
  · rfl

end

theorem changes_markSending (hcaller : s.Alive caller) {dstE : Int} {msg : Message} :
    Changes s (s.markSending caller dstE msg) (update s.sendsTo caller (some dstE))
      s.receivesFrom s.callerLinks s.log := by
  have hcongr := fun {α : Type} (k : Proc → α) hk hun =>
    s.markSending_congr caller dstE msg k hk hun
  have hset := unsched_rtsSet (s.modProc caller fun p => { p with pSendmsg := msg }) caller rtsSending
  refine ⟨⟨hcongr Proc.pEndpoint (fun _ _ _ => rfl) fun _ => rfl, ?_,
    fun i => rtsIsset_markSending _ _ _ _ (by decide), ?_⟩, ?_, ?_, ?_, ?_, ?_⟩
  · intro i
    rw [Alive, Alive, rtsIsset_markSending _ _ _ _ (by decide)]
  · exact (frame_congr procPtr hset rfl).trans rfl
  · exact waiting_on (s.sending_markSending caller dstE msg)
      (s.sendto_markSending caller dstE msg)
  · exact waiting_congr (fun i => rtsIsset_markSending _ _ _ _ (by decide))
      (hcongr Proc.pGetfromE (fun _ _ _ => rfl) fun _ => rfl)
  · exact congrArg₂ Links.mk (funext (hcongr Proc.pCallerQ (fun _ _ _ => rfl) fun _ => rfl))
      (funext (hcongr Proc.pQLink (fun _ _ _ => rfl) fun _ => rfl))
  · exact (frame_congr log hset rfl).trans rfl
  intro hfree _ i hi
  rw [rtsIsset_markSending _ _ _ _ (by decide)] at hi
  have hne : i ≠ caller := by
    rintro rfl
    cases hcaller.symm.trans hi
  rw [flags_markSending, if_neg hne]
  exact hfree i hi

/-- A new sender is on no queue. -/
theorem IpcInv.not_mem_queue (h : s.IpcInv)
    (hsend : s.rtsIsset caller rtsSending = false) (d : Slot) :
    caller ∉ pendingSenders s.log d := by
  intro hmem
  have hsent := (h.wf.mem caller d).mp hmem
  exact nomatch (s.net_sending_of_not hsend).symm.trans hsent

theorem pendingSenders_blocked (log : List Event) (caller dst d : Slot) :
    pendingSenders (.blocked caller dst :: log) d =
      if d = dst then pendingSenders log d ++ [caller] else pendingSenders log d := rfl

/-- A process blocks in a send: the walk over the queue ends at its last link. -/
theorem IpcInv.changes_blockSender (h : s.IpcInv) (hcaller : s.Alive caller) {dstE : Int}
    {msg : Message} (hend : s.rtsIsset dst rtsNoEndpoint = false) (halive : s.Alive dst) :
    Changes s (s.blockSender caller dst dstE msg) (update s.sendsTo caller (some dstE))
      s.receivesFrom ((s.callerLinks.set (Links.lastRef (.head dst) (pendingSenders s.log dst))
        (some caller)).set (.next caller) none) (.blocked caller dst :: s.log) := by
  have hpath : s.callerLinks.Path (.head dst) (pendingSenders s.log dst ++ []) := by
    rw [List.append_nil]
    exact h.path dst halive hend
  have hseek : s.callerLinks.seek (fun _ => false) (nrSlots + 1) (.head dst) =
      some (Links.lastRef (.head dst) (pendingSenders s.log dst)) :=
    hpath.seek_eq (fun _ _ => rfl) (by simp) (h.length_lt)
  unfold blockSender
  dsimp only
  rw [(changes_markSending hcaller).links, hseek]
  exact (((changes_markSending hcaller).setCallerLink _ _).setCallerLink _ _).record _

theorem IpcInv.net_blockSender (h : s.IpcInv) (hcaller : s.Alive caller) {msg : Message}
    (hdst : s.named dstE = some dst) (hend : s.rtsIsset dst rtsNoEndpoint = false)
    (halive : s.Alive dst) :
    (s.blockSender caller dst dstE msg).net = s.net.blockSend caller dst := by
  rw [(h.changes_blockSender hcaller hend halive).net, s.net_eq]
  simp only [Net.blockSend, bind_update, Option.bind_some, hdst]
  congr 1
  funext d
  rw [pendingSenders_blocked, update_apply]
  split_ifs with hd
  · rw [hd]
  · rfl

end State

section Simulation

variable {μ : Mode} {careful : Prop} {s s' : State}

theorem Light.ipc (hzombie : ¬ μ.zombie) (h : s.IpcInv) (hlight : Light μ s s') :
    IpcStep careful s s' := by
  cases hlight with
  | quiet herase => exact .same h (.of_erase herase)
  | set rp _ hd hlive =>
    exact .same h (.rtsSet s (hlive.resolve_left hzombie) (disjoint_of_isSet (by decide) hd))
  | unset rp hd => exact .same h (.rtsUnset s (disjoint_of_isSet (by decide) hd))
  | endksig rp _ _ => exact .same h (.rtsUnset s (by decide))
  | pend rp sigs _ => exact .same h (.modProc s fun _ => ⟨rfl, rfl, rfl, rfl, rfl, rfl⟩)
  | @signal rp sigs _ hlive =>
    have hpend : SameIpc s (s.modProc rp fun p => { p with pPending := p.pPending ||| sigs }) :=
      .modProc s fun _ => ⟨rfl, rfl, rfl, rfl, rfl, rfl⟩
    refine .same h (hpend.trans (.rtsSet _ ?_ (by decide)))
    exact (hpend.alive rp).mpr (hlive.resolve_left hzombie)
  | deliver src dst m _ =>
    have hqueue := SameIpc.queueMess s (s.proc src).pEndpoint m dst
    exact .trans_same hqueue (.unblock (h.same hqueue))

theorem MayBlockReceive.source
    (hmay : MayBlockReceive μ s caller srcE src) : s.source srcE = some src := by
  cases src with
  | none =>
    rw [hmay.any rfl]
    exact s.source_any
  | some x =>
    have hnames := hmay.names x rfl
    exact s.source_of_named (s.named_eq_some_iff.mpr ⟨hnames.nr, hnames.endpoint⟩)

/-- Either the receiver is blocked in the send of a SENDREC to the same process, or no
sender that it asks for is queued. -/
theorem MayBlockReceive.guard (h : s.IpcInv) (hmay : MayBlockReceive μ s caller srcE src) :
    s.net.sending caller = src ∧ src ≠ none ∨
      s.net.sending caller = none ∧ ∀ q ∈ s.net.queue caller, Net.accepts src q = false := by
  rcases hmay.sender with ⟨hsend, hto, hsrc⟩ | ⟨hsend, hnone⟩
  · obtain ⟨x, hx⟩ := Option.ne_none_iff_exists'.mp hsrc
    have hnames := hmay.names x hx
    refine .inl ⟨?_, hsrc⟩
    rw [hx, s.net_sending_eq_some_iff]
    exact ⟨hsend, hto ▸ s.named_eq_some_iff.mpr ⟨hnames.nr, hnames.endpoint⟩⟩
  · -- The receiver has looked through its queue and found nobody.
    refine .inr ⟨s.net_sending_of_not hsend, ?_⟩
    obtain ⟨xpp, hseek, hget⟩ := hnone
    rcases (h.path caller hmay.alive hmay.noEndpoint).seek_cases (h.length_lt) hseek with
      ⟨_, n, _, _, _, hn, _⟩ | ⟨_, _, hall⟩
    · exact nomatch hget.symm.trans hn
    · exact hall

theorem IpcStep.blockRecv (hzombie : ¬ μ.zombie) (h : s.IpcInv)
    (hmay : MayBlockReceive μ s caller srcE src)
    (hsafe : careful → s.net.sending caller = none → ∀ d, src = some d →
      ¬ ReflTransGen s.net.Waits d caller) : IpcStep careful s (s.receivingState caller srcE) := by
  have hsource := hmay.source
  refine .of_changes h (changes_receivingState hmay.alive) (fun _ _ => .inl) ?_ h.path
    h.served ?_
  · intro i n hi
    rw [update_apply] at hi
    split at hi
    · cases hi
      exact .inr ⟨src, hsource, fun j hj => (hmay.names j hj).alive.resolve_left hzombie⟩
    · exact .inl hi
  · have hnet : (s.receivingState caller srcE).net = s.net.blockRecv caller src := by
      rw [(changes_receivingState hmay.alive).net, s.net_eq]
      simp only [Net.blockRecv, bind_update, Option.bind_some, hsource]
    rw [hnet]
    exact .blockRecv (s.net_receiving_of_not hmay.receiving) (hmay.guard h) hsafe

theorem IpcStep.blockSend (hzombie : ¬ μ.zombie) (h : s.IpcInv)
    {msg : Message} (hmay : MayBlockSend μ s caller dst dstE)
    (hsafe : careful → ¬ ReflTransGen s.net.Waits dst caller) :
    IpcStep careful s (s.blockSender caller dst dstE msg) := by
  have hdst : s.named dstE = some dst :=
    s.named_eq_some_iff.mpr ⟨hmay.names.nr, hmay.names.endpoint⟩
  have halive := hmay.names.alive.resolve_left hzombie
  have hsend := hmay.can.sending
  refine .of_changes h (h.changes_blockSender hmay.can.alive hmay.noEndpoint halive) ?_
    (fun _ _ => .inl) ?_ ⟨h.not_mem_queue hsend, h.served⟩ ?_
  · intro i n hi
    rw [update_apply] at hi
    split at hi
    · cases hi
      exact .inr ⟨dst, hdst, halive, hmay.noEndpoint⟩
    · exact .inl hi
  · intro d hlive hd
    have hnot := h.not_mem_queue hsend
    have hlast := Links.lastRef_head_ne dst (hnot dst)
    have hlink : ((s.callerLinks.set (Links.lastRef (.head dst) (pendingSenders s.log dst)) (some caller)).set (.next caller)
        none).Path (.head d) (update (pendingSenders s.log) dst (pendingSenders s.log dst ++ [caller]) d) :=
      (h.path d hlive hd).link h.apart (List.append_nil _).symm hnot
        (by rw [Links.get_set, if_neg hlast, Links.get_set, if_pos rfl]) (Links.get_set_self (.next caller) none)
        fun c hc hc' => by rw [Links.get_set, if_neg hc', Links.get_set, if_neg hc]
    rw [update_apply] at hlink
    rw [pendingSenders_blocked]
    by_cases heq : d = dst
    · subst heq
      rwa [if_pos rfl] at hlink ⊢
    · rwa [if_neg heq] at hlink ⊢
  · rw [h.net_blockSender hmay.can.alive hdst hmay.noEndpoint halive]
    refine .blockSend (s.net_sending_of_not hsend) (s.net_receiving_of_not hmay.can.receiving) ?_
      hsafe
    intro hwill
    exact nomatch hmay.willReceive.symm.trans (h.willReceive_of_net hwill)

theorem IpcStep.take (h : s.IpcInv) {src : Slot} (hsend : s.rtsIsset caller rtsSending = false)
    (hend : s.rtsIsset caller rtsNoEndpoint = false) (halive : s.Alive caller)
    (hseek : s.callerLinks.seek (fun xp => wanted.all (· == xp)) (nrSlots + 1) (.head caller) =
      some xpp) (hget : s.callerLinks.get xpp = some src) :
    IpcStep careful s (s.takenState caller src wanted xpp) := by
  rcases (h.path caller halive hend).seek_cases (h.length_lt) hseek with
    ⟨before, n, after, hqueue, hxpp, hn, hfind⟩ | ⟨_, hnone, _⟩
  · have hsrc : n = src := Option.some.inj (hn.symm.trans hget)
    subst hsrc
    have hmem : n ∈ pendingSenders s.log caller := by simp [hqueue]
    refine .of_changes h (s.changes_takenState caller n wanted xpp)
      (fun _ _ hi => .inl (of_update_none hi)) (fun _ _ => .inl) ?_ ⟨hfind, h.served⟩ ?_
    · intro d hlive hd
      rw [h.pending_ends (.inl ⟨wanted, rfl⟩) hmem]
      refine h.path_unlink hqueue (fun c => ?_) (h.path d hlive hd)
      rw [Links.get_set, hxpp]
    · rw [h.net_takenState hmem]
      exact .take (s.net_sending_of_not hsend) hmem
  · exact nomatch hnone.symm.trans hget

/-- Every elementary change other than a death is a step of the system. -/
theorem Step.ipc (hzombie : ¬ μ.zombie) (hdeaths : ¬ μ.deaths) (h : s.IpcInv)
    (hstep : Step μ s s')
    (hsend : ∀ {caller dst dstE}, MayBlockSend μ s caller dst dstE → careful →
      ¬ ReflTransGen s.net.Waits dst caller)
    (hrecv : ∀ {caller srcE src}, MayBlockReceive μ s caller srcE src → careful →
      s.net.sending caller = none → ∀ d, src = some d → ¬ ReflTransGen s.net.Waits d caller) :
    IpcStep careful s s' := by
  cases hstep with
  | light hlight => exact hlight.ipc hzombie h
  | getksig rp _ =>
    have hpend : SameIpc s (s.modProc rp fun p => { p with pPending := 0 }) :=
      .modProc s fun _ => ⟨rfl, rfl, rfl, rfl, rfl, rfl⟩
    exact .same h (hpend.trans (.rtsUnset _ (by decide)))
  | fill ep m _ => exact .same h (.queueMess s ep m _)
  | copyOut rp _ | discard rp _ _ =>
    refine .same h (SameIpc.trans (.modProc s ?_) (.record _ rfl))
    exact fun _ => ⟨rfl, rfl, rfl, rfl, rfl, rfl⟩
  | blockSend msg hmay => exact .blockSend hzombie h hmay (hsend hmay)
  | blockRecv hmay => exact .blockRecv hzombie h hmay (hrecv hmay)
  | take hnot hend halive hseek hget => exact .take h hnot hend halive hseek hget
  | stopRecv rp => exact .unblock h
  | die rc hd _ => exact absurd hd hdeaths
  | withdraw hd _ _ _ _ => exact absurd hd hdeaths
  | endRecv hd _ => exact absurd hd hdeaths
  | orphan hd _ _ _ => exact absurd hd hdeaths

end Simulation

end Minix.Kernel
