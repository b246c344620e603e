import Minix.Kernel.Calls

/-!
# Pending notifications

A receive looks for a pending notification before anything else.  Of every 16 bits of the map
only the lowest one that is set is tried, so that a notification of the wanted source is found
exactly if no other source before it in its 16 bits has one pending.
-/

set_option autoImplicit false

namespace Minix.Kernel

open Minix.Foundation State

namespace State

/-! ## The search for messages leaves the maps alone -/

section Tables

variable (s : State) (env : TableEnv)

/-- The maps of pending notifications. -/
def notifyMap (k : PrivPtr) : BitVec 32 := (s.priv k).sNotifyPending

theorem notifyMap_modPriv {k : PrivPtr} {f : Priv → Priv}
    (hf : ∀ sp, (f sp).sNotifyPending = sp.sNotifyPending) :
    (s.modPriv k f).notifyMap = s.notifyMap := by
  funext i
  simp only [notifyMap, modPriv_priv]
  split_ifs with hi
  · rw [hf, hi]
  · rfl

theorem notifyMap_endTable {rp : Slot} :
    (s.modPriv (s.proc rp).pPriv fun sp => { sp with sAsynsize := 0 }).notifyMap = s.notifyMap :=
  s.notifyMap_modPriv fun _ => rfl

theorem notifyMap_dataCopy (owner : Slot) (addr : Nat) (field : TableField) :
    (s.dataCopy env owner addr field).2.notifyMap = s.notifyMap := by
  unfold dataCopy
  repeat' split
  all_goals first
    | rfl
    | exact frame_congr notifyMap (s.unsched_rtsUnset _ _) rfl

theorem notifyMap_finishEntry (owner : Slot) (addr : Nat) {flags : BitVec 32} {result : Int} :
    (s.finishEntry env owner addr flags result).2.notifyMap = s.notifyMap := by
  have hfirst := s.notifyMap_dataCopy env owner addr .putResult
  unfold finishEntry
  dsimp only
  split
  · exact hfirst
  · split
    · exact (notifyMap_dataCopy _ env owner addr .putFlags).trans hfirst
    · exact (notifyMap_dataCopy _ env owner addr .putFlags).trans hfirst

theorem notifyMap_tryEntry (src dst : Slot) (addr : Nat) :
    (s.tryEntry env src dst addr).2.notifyMap = s.notifyMap := by
  have hflags := s.notifyMap_dataCopy env src addr .getFlags
  have hdst := (notifyMap_dataCopy _ env src addr .getDst).trans hflags
  have hmsg := (notifyMap_dataCopy _ env src addr .getMsg).trans hdst
  unfold tryEntry tryDeliver
  dsimp only
  repeat' split
  all_goals first
    | exact hflags
    | exact hdst
    | exact hmsg
    | exact (notifyMap_endTable _).trans hflags
    | exact (notifyMap_finishEntry _ env src addr).trans hmsg

theorem notifyMap_tryTable (src dst : Slot) (size addr : Nat) (done postponed : Bool) :
    (s.tryTable env src dst size addr done postponed).2.notifyMap = s.notifyMap := by
  induction size generalizing s addr done postponed with
  | zero => rfl
  | succ size ih =>
    have hentry := s.notifyMap_tryEntry env src dst addr
    rw [tryTable]
    split
    all_goals
      rename_i s1 heq
      rw [heq] at hentry
    case h_4 => exact hentry
    all_goals exact (ih s1 _ _ _).trans hentry

theorem notifyMap_tryOne (src dst : Slot) : (s.tryOne env src dst).2.notifyMap = s.notifyMap := by
  have htable := s.notifyMap_tryTable env src dst (s.privOf src).sAsynsize (s.privOf src).sAsyntab
    true false
  unfold tryOne
  dsimp only
  repeat' split
  case h_2 =>
    rename_i s1 heq
    rw [heq] at htable
    exact (s1.notifyMap_endTable).trans htable
  all_goals first
    | rfl
    | (rename_i heq
       rw [heq] at htable
       exact htable)

theorem notifyMap_tryAsync {caller : Slot} : (s.tryAsync env caller).2.notifyMap = s.notifyMap := by
  have hall : ∀ ids postponed, (s.tryAll env caller ids postponed).2.notifyMap = s.notifyMap := by
    intro ids
    induction ids generalizing s with
    | nil => exact fun _ => rfl
    | cons id ids ih =>
      intro postponed
      rw [tryAll]
      repeat' split
      · exact ih s _
      · rfl
      · dsimp only
        split
        · exact s.notifyMap_tryOne env _ caller
        · exact (ih _ _).trans (s.notifyMap_tryOne env _ caller)
  unfold tryAsync
  dsimp only
  repeat' split
  all_goals exact hall _ _

theorem notifyMap_blockReceiver (caller : Slot) (srcE srcP : Int) :
    (s.blockReceiver caller srcE srcP).2.notifyMap = s.notifyMap := by
  have hset := fun t : State => frame_congr notifyMap (unsched_rtsSet t caller rtsReceiving) rfl
  unfold blockReceiver
  repeat' split
  all_goals first
    | rfl
    | exact hset _

end Tables

/-! ## The notification that is found -/

/-- A notification from `p` is pending under `id`, and a receive from `src` (`none` for any
source) asks for it. -/
structure Awaits (s : State) (caller : Slot) (src : Option Slot) (id : Fin nrSysProcs) (p : Slot) :
    Prop where
  pending : (s.privOf caller).sNotifyPending.getLsbD id.val = true
  source : procAddr (s.priv (some id)).sProcNr = some p
  wanted : ∀ q, src = some q → p = q

/-- No other notification hides the one of `id`: in its 16 bits, or in all of the map if any
source is wanted. -/
def Foremost (s : State) (caller : Slot) (src : Option Slot) (id : Fin nrSysProcs) : Prop :=
  ∀ j : Fin nrSysProcs, (s.privOf caller).sNotifyPending.getLsbD j.val = true →
    j.val / 16 = id.val / 16 ∨ src = none → id ≤ j

instance (s : State) (caller : Slot) (src : Option Slot) (id : Fin nrSysProcs) :
    Decidable (s.Foremost caller src id) := inferInstanceAs (Decidable (∀ _, _))

section Pending

variable {s : State} {caller : Slot} {src : Option Slot} {id : Fin nrSysProcs} {p : Slot}

theorem chunk_cases (id : Fin nrSysProcs) : id.val / 16 = 0 ∨ id.val / 16 = 1 := by
  have hlt : id.val < 32 := id.isLt
  omega

/-- The lowest bit of a chunk, if it is of the wanted source. -/
def chunkNotify (s : State) (caller : Slot) (src : Option Slot) (c : Nat) : Option (Fin nrSysProcs) :=
  (lowestPending (s.privOf caller).sNotifyPending c).filter fun id =>
    src.all fun q => procNr q = (s.priv (some id)).sProcNr

theorem pendingNotify_eq :
    s.pendingNotify caller src = (s.chunkNotify caller src 0).or (s.chunkNotify caller src 1) := by
  have htwo : ∀ f : Nat → Option (Fin nrSysProcs), [0, 1].findSome? f = (f 0).or (f 1) := by
    intro f
    simp only [List.findSome?_cons, List.findSome?_nil]
    cases f 0 <;> cases f 1 <;> rfl
  rw [pendingNotify, htwo]
  unfold chunkNotify
  congr 1
  · cases lowestPending (s.privOf caller).sNotifyPending 0 <;> cases src <;> simp [Option.filter]
  · cases lowestPending (s.privOf caller).sNotifyPending 1 <;> cases src <;> simp [Option.filter]

theorem chunkNotify_eq_some_iff {c : Nat} : s.chunkNotify caller src c = some id ↔
    ((id.val / 16 = c ∧ (s.privOf caller).sNotifyPending.getLsbD id.val = true) ∧ ∀ j < id,
      j.val / 16 = c → (s.privOf caller).sNotifyPending.getLsbD j.val = false) ∧
      ∀ q, src = some q → procNr q = (s.priv (some id)).sProcNr := by
  rw [chunkNotify, Option.filter_eq_some_iff, lowestPending, ← Fin.find?_eq_find?_finRange,
    Fin.find?_eq_some_iff]
  simp [Option.all_eq_true]

theorem chunkNotify_eq_none {c : Nat} (h : s.chunkNotify caller none c = none) {j : Fin nrSysProcs}
    (hj : j.val / 16 = c) : (s.privOf caller).sNotifyPending.getLsbD j.val = false := by
  rw [chunkNotify, Option.filter_eq_none_iff] at h
  by_contra hset
  obtain ⟨i, hi⟩ : ∃ i, lowestPending (s.privOf caller).sNotifyPending c = some i := by
    rw [← Option.isSome_iff_exists, lowestPending, List.find?_isSome]
    exact ⟨j, List.mem_finRange j, by simpa [hj] using hset⟩
  exact h i hi rfl

/-- What is found is pending, from the source that is wanted if there is one, and not hidden. -/
theorem pendingNotify_spec (h : s.pendingNotify caller src = some id) :
    (s.privOf caller).sNotifyPending.getLsbD id.val = true ∧
      (∀ q, src = some q → procNr q = (s.priv (some id)).sProcNr) ∧ s.Foremost caller src id := by
  rw [pendingNotify_eq, Option.or_eq_some_iff] at h
  rcases h with hzero | ⟨hzero, hone⟩
  · obtain ⟨⟨⟨hchunk, hset⟩, hleast⟩, hsrc⟩ := chunkNotify_eq_some_iff.mp hzero
    refine ⟨hset, hsrc, fun j hj _ => not_lt.mp fun hlt => ?_⟩
    exact absurd hj (by simp [hleast j hlt (by omega)])
  · obtain ⟨⟨⟨hchunk, hset⟩, hleast⟩, hsrc⟩ := chunkNotify_eq_some_iff.mp hone
    refine ⟨hset, hsrc, fun j hj hscope => not_lt.mp fun hlt => ?_⟩
    rcases chunk_cases j with hlow | hhigh
    · obtain rfl : src = none := hscope.resolve_left (by omega)
      exact absurd hj (by simp [chunkNotify_eq_none hzero hlow])
    · exact absurd hj (by simp [hleast j hlt hhigh])

/-- A notification that is asked for and not hidden, or one of the chunk below, is found. -/
theorem Awaits.found (h : s.Awaits caller src id p) (hfore : s.Foremost caller src id) :
    ∃ id p, s.pendingNotify caller src = some id ∧ procAddr (s.priv (some id)).sProcNr = some p := by
  have hself : s.chunkNotify caller src (id.val / 16) = some id := by
    refine chunkNotify_eq_some_iff.mpr ⟨⟨⟨rfl, h.pending⟩, fun j hlt hc => ?_⟩, fun q hq => ?_⟩
    · by_contra hset
      exact absurd (hfore j (by simpa using hset) (.inl hc)) (not_le.mpr hlt)
    · rw [← h.wanted q hq, procNr_of_procAddr h.source]
  rw [pendingNotify_eq]
  rcases chunk_cases id with hc | hc
  · rw [hc] at hself
    exact ⟨id, p, by rw [hself, Option.some_or], h.source⟩
  rw [hc] at hself
  rcases hzero : s.chunkNotify caller src 0 with _ | id0
  · exact ⟨id, p, hself, h.source⟩
  obtain ⟨⟨⟨hchunk, hset⟩, -⟩, hsrc⟩ := chunkNotify_eq_some_iff.mp hzero
  cases src with
  | none =>
    have := hfore id0 hset (.inr rfl)
    omega
  | some q => exact ⟨id0, q, rfl, hsrc q rfl ▸ procAddr_procNr q⟩

end Pending

/-! ## What a receive does with it -/

/-- The notification of `p` under `id` has been put into the delivery slot of `caller`, and
nothing but its bit has been cleared. -/
structure TakesNotify (s s' : State) (caller : Slot) (id : Fin nrSysProcs) (p : Slot) (m : Message) :
    Prop where
  cleared : ∀ k, s'.notifyMap k = if k = (s.proc caller).pPriv then
    s.notifyMap k &&& ~~~(1#32 <<< id.val) else s.notifyMap k
  message : m.mSource = (s.proc p).pEndpoint ∧ m.mType = notifyFrom (procNr p)
  delivered : (s'.proc caller).pDelivermsg = m ∧ s'.mfIsset caller mfDelivermsg = true
  log : s'.log = .queued caller m :: s.log
  flags : ∀ i, (s'.proc i).pRtsFlags = (s.proc i).pRtsFlags
  queues : s'.callerLinks = s.callerLinks
  tables : s'.amem = s.amem

section Take

variable {s : State} {caller : Slot} {src : Option Slot} {id : Fin nrSysProcs} {p : Slot}

theorem buildNotifyMessage_spec (s : State) (src dst : Slot) :
    (s.buildNotifyMessage src dst).1.mType = notifyFrom (procNr src) ∧
      (s.buildNotifyMessage src dst).2.notifyMap = s.notifyMap ∧
      (s.buildNotifyMessage src dst).2.proc = s.proc ∧
      (s.buildNotifyMessage src dst).2.log = s.log ∧
      (s.buildNotifyMessage src dst).2.amem = s.amem := by
  unfold buildNotifyMessage
  repeat' split
  all_goals
    dsimp only
    exact ⟨rfl, by first | rfl | exact s.notifyMap_modPriv fun _ => rfl, rfl, rfl, rfl⟩

theorem takesNotify_takeNotify (caller : Slot) (hp : procAddr (s.priv (some id)).sProcNr = some p) :
    ∃ m, s.TakesNotify (s.takeNotify caller id) caller id p m := by
  set s1 := s.modPriv (s.proc caller).pPriv fun sp =>
    { sp with sNotifyPending := sp.sNotifyPending &&& ~~~(1#32 <<< id.val) } with hs1
  obtain ⟨htype, hmap, hproc, hlog, hamem⟩ := s1.buildNotifyMessage_spec p caller
  have hlinks : (s1.buildNotifyMessage p caller).2.callerLinks = s.callerLinks := by
    simp only [callerLinks, hproc]
    rfl
  unfold takeNotify
  rw [hp]
  dsimp only
  generalize s1.buildNotifyMessage p caller = built at *
  refine ⟨{ built.1 with mSource := (built.2.proc p).pEndpoint }, ?_, ⟨?_, htype⟩, ⟨?_, ?_⟩, ?_, ?_, ?_, hamem⟩
  · intro k
    refine (congrFun hmap k).trans ?_
    simp only [hs1, notifyMap, modPriv_priv]
    split_ifs with hk
    · rw [hk]
    · rfl
  · rw [hproc]
    rfl
  · simp [queueMess]
  · simp [queueMess, mfIsset, isSet_or_self]
  · exact congrArg _ hlog
  · intro i
    rw [queueMess_congr _ Proc.pRtsFlags (fun _ _ _ => rfl), hproc]
    rfl
  · exact (callerLinks_queueMess _ _ _ _).trans hlinks

theorem TakesNotify.map_ne {s' : State} {m : Message} (h : s.TakesNotify s' caller id p m)
    (hset : (s.privOf caller).sNotifyPending.getLsbD id.val = true) : s'.notifyMap ≠ s.notifyMap := by
  intro hsame
  have hclear := h.cleared (s.proc caller).pPriv
  rw [hsame, if_pos rfl] at hclear
  have hbit : (s.notifyMap (s.proc caller).pPriv).getLsbD id.val = true := hset
  rw [hclear] at hbit
  simp at hbit

/-- A search that finds no notification takes the message of a sender, or leaves the maps alone. -/
theorem receiveNow_of_none {env : TableEnv} (h : s.pendingNotify caller src = none) :
    (∃ sender log, (s.receiveNow env caller src).1 = true ∧
        (s.receiveNow env caller src).2.log = .taken sender caller src :: log) ∨
      (s.receiveNow env caller src).2.notifyMap = s.notifyMap := by
  unfold receiveNow
  rw [h, ite_self]
  dsimp only
  split
  · exact .inr rfl
  split
  · exact .inl ⟨_, _, rfl, rfl⟩
  · split
    · split
      · exact .inr (s.notifyMap_tryOne env _ caller)
      · exact .inr (s.notifyMap_tryAsync env)
    · exact .inr rfl

end Take

end State

section Receive

variable {s : State} {env : TableEnv} {caller : Slot} {srcE : Int} {src : Option Slot} {m : Buffer}

/-- A receive from any source, or from a process that is there. -/
def State.Source (s : State) (srcE : Int) (src : Option Slot) : Prop :=
  srcE = endptAny ∧ src = none ∨ srcE ≠ endptAny ∧
    ∃ p, s.isokendpt srcE = some p ∧ s.rtsIsset p rtsNoEndpoint = false ∧ src = some p

/-- A receive takes a pending notification exactly if one that it asks for is not hidden. -/
theorem miniReceive_takes_iff (hm : m.lin ≠ 0) (hsend : s.rtsIsset caller rtsSending = false)
    (hreply : s.mfIsset caller mfReplyPend = false) (hsrc : s.Source srcE src) :
    ((s.miniReceive env caller srcE m).1 = ok ∧ ∃ id p msg, s.Awaits caller src id p ∧
        s.TakesNotify (s.miniReceive env caller srcE m).2 caller id p msg) ↔
      ∃ id p, s.Awaits caller src id p ∧ s.Foremost caller src id := by
  set s1 := s.modProc caller fun p =>
    { p with pDelivermsgLin := m.lin, pDelivermsgVir := m.vir } with hs1
  have herase : s1.erase = s.erase := erase_modProc _ _ _ fun _ => rfl
  have hpriv := frame_proc Proc.pPriv herase caller rfl
  have hok := frame_congr (fun t => t.isokendpt srcE) herase rfl
  have hisset := fun i f => frame_congr (fun t => t.rtsIsset i f) herase rfl
  have hmisc : s1.mfIsset caller mfReplyPend = false := by
    rw [← hreply, mfIsset, s.modProc_congr caller Proc.pMiscFlags rfl]
    rfl
  have hfound : s1.pendingNotify caller src = s.pendingNotify caller src := by
    unfold pendingNotify privOf
    rw [hpriv]
    rfl
  have hback : ∀ {t id p msg}, s1.TakesNotify t caller id p msg → s.TakesNotify t caller id p msg :=
    fun {t id p msg} h => ⟨hpriv ▸ h.cleared, frame_proc Proc.pEndpoint herase p rfl ▸ h.message,
      h.delivered, h.log, fun i => (h.flags i).trans (frame_proc Proc.pRtsFlags herase i rfl),
      h.queues.trans (frame_congr (fun t => t.callerLinks) herase rfl), h.tables⟩
  have hmini : s.miniReceive env caller srcE m =
      if (s1.receiveNow env caller src).1 then (ok, (s1.receiveNow env caller src).2)
      else (s1.receiveNow env caller src).2.blockReceiver caller srcE ((src.map procNr).getD endptAny) := by
    unfold miniReceive
    rw [if_neg hm]
    dsimp only
    rw [← hs1, hok, hisset, hsend]
    rcases hsrc with ⟨rfl, rfl⟩ | ⟨hne, p, hp, hend, rfl⟩
    · simp
    · simp [hne, hp, hisset, hend]
  rw [hmini]
  rcases hid : s.pendingNotify caller src with _ | id
  · -- Without a notification the call takes a message elsewhere, or blocks.
    refine iff_of_false ?_ ?_
    · rintro ⟨-, id, p, msg, hawaits, htakes⟩
      refine absurd ?_ (htakes.map_ne hawaits.pending)
      rcases receiveNow_of_none (hfound.trans hid) with ⟨sender, log, htrue, hlog⟩ | hmap
      · rw [if_pos htrue] at htakes
        cases htakes.log.symm.trans hlog
      · split
        · exact hmap
        · exact (notifyMap_blockReceiver ..).trans hmap
    · rintro ⟨id, p, hawaits, hfore⟩
      obtain ⟨id', _, hsome, _⟩ := hawaits.found hfore
      cases hid.symm.trans hsome
  · obtain ⟨hset, hwanted, hfore⟩ := pendingNotify_spec hid
    have hnow : s1.receiveNow env caller src = (true, s1.takeNotify caller id) := by
      unfold receiveNow
      rw [hmisc, hfound, hid]
      rfl
    rw [hnow, if_pos rfl]
    rcases hp : procAddr (s.priv (some id)).sProcNr with _ | p
    · -- The lowest bit is that of no process.
      refine iff_of_false ?_ ?_
      · rintro ⟨-, id', p, msg, -, htakes⟩
        have hlog : (s1.takeNotify caller id).log = s.log := by
          unfold takeNotify
          rw [show s1.priv = s.priv from rfl, hp]
          rfl
        exact absurd (htakes.log.symm.trans hlog) (by simp)
      · rintro ⟨id', p, hawaits, hfore⟩
        obtain ⟨id'', _, hsome, hproc⟩ := hawaits.found hfore
        obtain rfl := Option.some.inj (hid.symm.trans hsome)
        cases hp.symm.trans hproc
    · have hawaits : s.Awaits caller src id p := ⟨hset, hp, fun q hq =>
        procNr_injective ((procNr_of_procAddr hp).trans (hwanted q hq).symm)⟩
      obtain ⟨msg, htakes⟩ := takesNotify_takeNotify (s := s1) caller hp
      exact iff_of_true ⟨rfl, id, p, msg, hawaits, hback htakes⟩ ⟨id, p, hawaits, hfore⟩

end Receive

/-- RS, with pending notifications from CLOCK and from SYSTEM. -/
def rsNotified : State := (boot.setNotifyPending clockSlot rsSlot).setNotifyPending systemSlot rsSlot

def rsBuffer : Buffer := { vir := 4096, lin := 4096, contents := none }

theorem miniReceive_takes_clock :
    (rsNotified.miniReceive (fun _ _ _ => .done) rsSlot endptAny rsBuffer).1 = ok ∧
      ∃ id p msg, rsNotified.Awaits rsSlot none id p ∧ rsNotified.TakesNotify
        (rsNotified.miniReceive (fun _ _ _ => .done) rsSlot endptAny rsBuffer).2 rsSlot id p msg :=
  (miniReceive_takes_iff (by decide) (by decide +kernel) (by decide +kernel) (.inl ⟨rfl, rfl⟩)).mpr
    ⟨⟨1, by decide⟩, clockSlot, ⟨by decide +kernel, by decide +kernel, by simp⟩, by decide +kernel⟩

/-- A receive from SYSTEM finds the bit of CLOCK in the same chunk, and blocks. -/
theorem miniReceive_misses_system :
    rsNotified.Source (-2) (some systemSlot) ∧
      rsNotified.Awaits rsSlot (some systemSlot) ⟨2, by decide⟩ systemSlot ∧
      ¬ ∃ id p msg, rsNotified.TakesNotify
        (rsNotified.miniReceive (fun _ _ _ => .done) rsSlot (-2) rsBuffer).2 rsSlot id p msg := by
  refine ⟨.inr ⟨by decide, systemSlot, by decide +kernel, by decide +kernel, rfl⟩,
    ⟨by decide +kernel, by decide +kernel, by simp⟩, ?_⟩
  rintro ⟨id, p, msg, htakes⟩
  exact absurd (htakes.flags rsSlot) (by decide +kernel)

end Minix.Kernel
