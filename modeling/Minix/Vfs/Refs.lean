/-
  Vfs/Refs.lean --- who refers to what: descriptors to filps, filps to vnodes, and suspended
  processes to the file that they wait for.

  The processes that go on are woken up in small steps (`Micro`); what all of these leave
  alone is `Frame`.  `Refs` holds in all runs.
-/
import Minix.Foundation.Tally
import Minix.Vfs.Main

set_option autoImplicit false

namespace Minix.Vfs

open Foundation Relation Function

variable {f : Fproc} {p : ProcNr} {e : Endpoint} {fd : Fd} {n : FilpNr} {v : VnodeNr}

/-! ## The invariant -/

/-- How many descriptors of a process are for the filp. -/
def Fproc.refs (f : Fproc) (n : FilpNr) : Nat := tallyOf (fun o => o = some n) f.fds

/-- Nothing but what select keeps differs. -/
structure Filp.Same (f g : Filp) : Prop where
  mode : f.readable = g.readable ∧ f.writable = g.writable
  flags : f.nonblock = g.nonblock ∧ f.append = g.append ∧ f.reopen = g.reopen
  needsReopen : f.needsReopen = g.needsReopen
  count : f.count = g.count
  vnode : f.vnode = g.vnode
  pos : f.pos = g.pos
  selBusy : f.selBusy = g.selBusy

theorem Filp.Same.refl {f : Filp} : f.Same f :=
  ⟨⟨rfl, rfl⟩, ⟨rfl, rfl, rfl⟩, rfl, rfl, rfl, rfl, rfl⟩

theorem Filp.Same.trans {f g k : Filp} (h : f.Same g) (h' : g.Same k) : f.Same k :=
  ⟨⟨h.mode.1.trans h'.mode.1, h.mode.2.trans h'.mode.2⟩,
    ⟨h.flags.1.trans h'.flags.1, h.flags.2.1.trans h'.flags.2.1, h.flags.2.2.trans h'.flags.2.2⟩,
    h.needsReopen.trans h'.needsReopen, h.count.trans h'.count, h.vnode.trans h'.vnode, h.pos.trans h'.pos,
    h.selBusy.trans h'.selBusy⟩

/-- The vnode is the same unless it is free. -/
structure Vnode.Same (x y : Vnode) : Prop where
  file : x.type = y.type ∧ x.fs = y.fs ∧ x.inode = y.inode
  size : x.size = y.size
  pos : x.rdPos = y.rdPos ∧ x.wrPos = y.wrPos
  used : 0 < x.refCount → 0 < y.refCount ∧ x.pipe = y.pipe ∧ x.mapped = y.mapped ∧ x.sdev = y.sdev

theorem Vnode.Same.refl {x : Vnode} : x.Same x :=
  ⟨⟨rfl, rfl, rfl⟩, rfl, ⟨rfl, rfl⟩, fun h => ⟨h, rfl, rfl, rfl⟩⟩

theorem Vnode.Same.trans {x y z : Vnode} (h : x.Same y) (h' : y.Same z) : x.Same z where
  file := ⟨h.file.1.trans h'.file.1, h.file.2.1.trans h'.file.2.1, h.file.2.2.trans h'.file.2.2⟩
  size := h.size.trans h'.size
  pos := ⟨h.pos.1.trans h'.pos.1, h.pos.2.trans h'.pos.2⟩
  used hx := by
    obtain ⟨h1, h2, h3, h4⟩ := h.used hx
    obtain ⟨h5, h6, h7, h8⟩ := h'.used h1
    exact ⟨h5, h2.trans h6, h3.trans h7, h4.trans h8⟩

/-- What becomes of the slot of a process while suspended processes go on: nothing if it is not
suspended, and a process that stays suspended is at most marked. -/
structure Fproc.Woken (f g : Fproc) : Prop where
  idle : f.blockedOn = .none → g = f
  slot : g.pid = f.pid ∧ g.endpoint = f.endpoint ∧ g.cumIoPartial = f.cumIoPartial
  fds : ∀ fd n, g.fds fd = some n → f.fds fd = some n
  asleep : g.blockedOn ≠ .none → g = f ∨ g = { f with revived := true }

namespace Fproc.Woken

@[refl]
theorem refl {f : Fproc} : f.Woken f :=
  ⟨fun _ => rfl, ⟨rfl, rfl, rfl⟩, fun _ _ h => h, fun _ => .inl rfl⟩

theorem trans {g k : Fproc} (h : f.Woken g) (h' : g.Woken k) : f.Woken k where
  idle hf := by
    have hg := h.idle hf
    rw [h'.idle (hg ▸ hf), hg]
  slot := ⟨h'.slot.1.trans h.slot.1, h'.slot.2.1.trans h.slot.2.1, h'.slot.2.2.trans h.slot.2.2⟩
  fds fd n hk := h.fds fd n (h'.fds fd n hk)
  asleep hk := by
    have hg : g.blockedOn ≠ .none := by
      rcases h'.asleep hk with rfl | rfl
      · exact hk
      · exact hk
    rcases h.asleep hg with rfl | rfl
    · exact h'.asleep hk
    · rcases h'.asleep hk with rfl | rfl
      · exact .inr rfl
      · exact .inr rfl

/-- A process that goes on. -/
theorem of_idle {g : Fproc} (hf : f.blockedOn ≠ .none) (hg : g.blockedOn = .none)
    (hslot : g.pid = f.pid ∧ g.endpoint = f.endpoint ∧ g.cumIoPartial = f.cumIoPartial)
    (hfds : ∀ fd n, g.fds fd = some n → f.fds fd = some n) : f.Woken g :=
  ⟨fun h => absurd h hf, hslot, hfds, fun h => absurd hg h⟩

end Fproc.Woken

/-- The vnode has this inode of the pipe file system. -/
def Vnode.Uses (x : Vnode) (i : Nat) : Prop := x.mapped = some i ∨ (x.fs = .pfs ∧ x.inode = i)

namespace State

/-- How many descriptors are for the filp. -/
def fdRefs (s : State) (n : FilpNr) : Nat := tally (fun f => Fproc.refs f n) s.proc

/-- How many filps in use are for the vnode. -/
def held (s : State) (v : VnodeNr) : Nat := tallyOf (fun f : Filp => 0 < f.count ∧ f.vnode = some v) s.filp

/-- A select that a driver has not answered yet keeps a filp. -/
def busyRefs (s : State) (n : FilpNr) : Nat := tallyOf (fun o => o = some n ∧ (s.filp n).selBusy = true) s.selFilp

/-- What the call of a suspended process is for. -/
def Waits (s : State) (p : ProcNr) : Prop :=
  let f := s.proc p
  match f.blockedOn with
  | .none => True
  | .pipe => (f.saved.call = .read ∨ f.saved.call = .write) ∧ ∃ v, s.savedVnode p = some v ∧ (s.vnode v).type = .fifo
  | .popen =>
      (f.saved.call = .openCall ∨ f.saved.call = .creat) ∧ ∃ v, s.savedVnode p = some v ∧ (s.vnode v).type = .fifo
  | .lock => f.saved.call = .fcntl ∧ f.suspReopen = false
  | .select => f.saved.call = .select ∧ f.suspReopen = false
  | .dopen => ∀ v, s.savedVnode p = some v → (s.vnode v).type = .charSpecial
  | .other => ∀ v, s.savedVnode p = some v → (s.vnode v).type = .charSpecial ∨ (s.vnode v).type = .blockSpecial

structure Refs (s : State) : Prop where
  slot : ∀ p e, (s.proc p).endpoint = some e → e.nr = p.val
  free : ∀ p, s.live p = false → (s.proc p).endpoint = none ∧ ∀ fd, (s.proc p).fds fd = none
  counted : ∀ n, s.fdRefs n ≤ (s.filp n).count
  busy : ∀ n, 0 < (s.filp n).count → s.fdRefs n + s.busyRefs n ≤ (s.filp n).count
  held : ∀ v, s.held v ≤ (s.vnode v).refCount
  fifo : ∀ v, (s.vnode v).pipe = true → (s.vnode v).type = .fifo
  piped : ∀ v, 0 < (s.vnode v).refCount → (s.vnode v).type = .fifo →
    (s.vnode v).pipe = true ∧ (s.vnode v).mapped.isSome = true
  mapped : ∀ v, ((s.vnode v).mapped.isSome = true ∨ (s.vnode v).fs = .pfs) → (s.vnode v).type = .fifo
  asynch : ∀ d n, s.selFilp d = some n → d.val = 15
  waits : ∀ p, s.live p = true → s.Waits p

variable {s s' s'' : State}

theorem live_congr (h : (s'.proc p).pid = (s.proc p).pid) : s'.live p = s.live p := by
  unfold live
  rw [h]

theorem isokendpt_eq_some (h : s.isokendpt e = some p) :
    (s.proc p).endpoint = some e ∧ e.nr = p.val := by
  unfold isokendpt at h
  split at h
  · simp only [Option.ite_none_right_eq_some, Option.some.injEq] at h
    obtain ⟨hend, rfl⟩ := h
    refine ⟨hend, ?_⟩
    simp only []
    omega
  · simp at h

theorem Refs.isokendpt_iff (h : s.Refs) :
    s.isokendpt e = some p ↔ (s.proc p).endpoint = some e := by
  refine ⟨fun hp => (isokendpt_eq_some hp).1, fun hend => ?_⟩
  have hnr := h.slot p e hend
  have hp : (⟨e.nr.toNat, by omega⟩ : ProcNr) = p := Fin.ext (by simp only []; omega)
  unfold isokendpt
  rw [dif_pos ⟨by omega, by omega⟩]
  simp only [hp, hend, if_true]

/-- A filp that a descriptor is for is in use. -/
theorem Refs.count_pos (h : s.Refs) (hfd : (s.proc p).fds fd = some n) : 0 < (s.filp n).count := by
  have hone : 1 ≤ (s.proc p).refs n := by
    have := le_tally (fun o => if o = some n then 1 else 0) (s.proc p).fds fd
    rw [if_pos hfd] at this
    exact this
  have hall : (s.proc p).refs n ≤ s.fdRefs n := le_tally (fun f => Fproc.refs f n) s.proc p
  have := h.counted n
  omega

/-- A vnode that a filp in use is for is in use. -/
theorem Refs.refCount_pos (h : s.Refs) (hn : 0 < (s.filp n).count)
    (hv : (s.filp n).vnode = some v) : 0 < (s.vnode v).refCount := by
  have hone := le_tally (fun f : Filp => if 0 < f.count ∧ f.vnode = some v then 1 else 0) s.filp n
  rw [if_pos ⟨hn, hv⟩] at hone
  have := h.held v
  have hheld : 1 ≤ s.held v := hone
  omega

/-- The call of a suspended process is for the same as before. -/
theorem Waits.congr (h : s.Waits p) (hblocked : (s'.proc p).blockedOn = (s.proc p).blockedOn)
    (hsaved : (s'.proc p).saved = (s.proc p).saved) (hreopen : (s'.proc p).suspReopen = (s.proc p).suspReopen)
    (hvnode : s'.savedVnode p = s.savedVnode p)
    (htype : ∀ v, s.savedVnode p = some v → (s'.vnode v).type = (s.vnode v).type) : s'.Waits p := by
  unfold Waits at h ⊢
  simp only [hblocked, hsaved, hreopen, hvnode] at h ⊢
  cases hb : (s.proc p).blockedOn with
  | none => trivial
  | lock | select => rwa [hb] at h
  | pipe | popen =>
    rw [hb] at h
    obtain ⟨hcall, v, hv, hfifo⟩ := h
    exact ⟨hcall, v, hv, (htype v hv).trans hfifo⟩
  | dopen =>
    rw [hb] at h
    exact fun v hv => (htype v hv).trans (h v hv)
  | other =>
    rw [hb] at h
    exact fun v hv => htype v hv ▸ h v hv

theorem Waits.idle (h : (s.proc p).blockedOn = .none) : s.Waits p := by
  unfold Waits
  simp only [h]

/-- A process that has the same descriptors as before waits for the same vnode. -/
theorem savedVnode_congr (hsaved : (s'.proc p).saved = (s.proc p).saved)
    (hfds : (s'.proc p).fds = (s.proc p).fds)
    (hfilp : ∀ fd n, (s.proc p).fds fd = some n → (s'.filp n).vnode = (s.filp n).vnode) :
    s'.savedVnode p = s.savedVnode p := by
  unfold savedVnode
  rw [hsaved, hfds]
  rcases fdOf (s.proc p).saved.fd with _ | fd
  · rfl
  · rcases hfd : (s.proc p).fds fd with _ | n
    · simp [hfd]
    · simp [hfd, hfilp fd n hfd]

theorem savedVnode_eq_some (h : s.savedVnode p = some v) :
    ∃ fd n, fdOf (s.proc p).saved.fd = some fd ∧ (s.proc p).fds fd = some n ∧ (s.filp n).vnode = some v := by
  obtain ⟨n, hn, hv⟩ := Option.bind_eq_some_iff.mp h
  obtain ⟨fd, hfd, hn⟩ := Option.bind_eq_some_iff.mp hn
  exact ⟨fd, n, hfd, hn, hv⟩

/-- The vnode that a process waits for is in use. -/
theorem Refs.saved_pos (h : s.Refs) (hv : s.savedVnode p = some v) : 0 < (s.vnode v).refCount := by
  obtain ⟨fd, n, -, hn, hv⟩ := savedVnode_eq_some hv
  exact h.refCount_pos (h.count_pos hn) hv

/-- A process of which the slot is not written waits for the same as before. -/
theorem Refs.waits_of_proc (h : s.Refs) (hproc : s'.proc p = s.proc p)
    (hfilp : ∀ fd n, (s.proc p).fds fd = some n → (s'.filp n).vnode = (s.filp n).vnode)
    (htype : ∀ v, s.savedVnode p = some v → (s'.vnode v).type = (s.vnode v).type) (hp : s'.live p = true) : s'.Waits p := by
  have hlive : s.live p = true := (live_congr (congrArg Fproc.pid hproc)).symm.trans hp
  refine (h.waits p hlive).congr ?_ ?_ ?_ (savedVnode_congr ?_ ?_ hfilp) htype
  all_goals rw [hproc]

theorem Refs.live_of_endpoint (h : s.Refs) (he : (s.proc p).endpoint = some e) :
    s.live p = true := by
  by_contra hlive
  have := (h.free p (by simpa using hlive)).1
  exact nomatch he.symm.trans this

/-! ### One entry of a table -/

theorem fdRefs_setProc (s : State) (p : ProcNr) (f : Fproc) (n : FilpNr) :
    (s.setProc p f).fdRefs n + (s.proc p).refs n = s.fdRefs n + f.refs n :=
  tally_update (fun f => Fproc.refs f n) s.proc p f

theorem fdRefs_setFd (s : State) (p : ProcNr) (fd : Fd) (o : Option FilpNr) (b : Bool) (n : FilpNr) :
    (s.setFd p fd o b).fdRefs n + (if (s.proc p).fds fd = some n then 1 else 0) =
      s.fdRefs n + if o = some n then 1 else 0 := by
  have hproc := s.fdRefs_setProc p
    { s.proc p with
      fds := update (s.proc p).fds fd o
      inuse := update (s.proc p).inuse fd b } n
  have hfds := tally_update (fun o => if o = some n then 1 else 0) (s.proc p).fds fd o
  have hnew : ∀ b', Fproc.refs { s.proc p with fds := update (s.proc p).fds fd o, inuse := b' } n =
      tally (fun o => if o = some n then 1 else 0) (update (s.proc p).fds fd o) := fun _ => rfl
  have hold : (s.proc p).refs n = tally (fun o => if o = some n then 1 else 0) (s.proc p).fds := rfl
  rw [hnew, hold] at hproc
  change (s.setFd p fd o b).fdRefs n + _ = _ at hproc
  omega

theorem held_setFilp (s : State) (n : FilpNr) (f : Filp) (v : VnodeNr) :
    (s.setFilp n f).held v + (if 0 < (s.filp n).count ∧ (s.filp n).vnode = some v then 1 else 0) =
      s.held v + if 0 < f.count ∧ f.vnode = some v then 1 else 0 :=
  tally_update (fun f : Filp => if 0 < f.count ∧ f.vnode = some v then 1 else 0) s.filp n f

/-! ### Changes that do not matter -/

/-- Nobody refers to anything else than before. -/
structure SameRefs (s s' : State) : Prop where
  pid : ∀ p, (s'.proc p).pid = (s.proc p).pid
  endpoint : ∀ p, (s'.proc p).endpoint = (s.proc p).endpoint
  fds : ∀ p, (s'.proc p).fds = (s.proc p).fds
  count : ∀ n, (s'.filp n).count = (s.filp n).count
  vnode : ∀ n, (s'.filp n).vnode = (s.filp n).vnode
  selBusy : ∀ n, (s'.filp n).selBusy = (s.filp n).selBusy
  file : ∀ v, (s'.vnode v).type = (s.vnode v).type ∧ (s'.vnode v).refCount = (s.vnode v).refCount ∧
    (s'.vnode v).pipe = (s.vnode v).pipe ∧ (s'.vnode v).mapped = (s.vnode v).mapped ∧ (s'.vnode v).fs = (s.vnode v).fs
  selFilp : s'.selFilp = s.selFilp

namespace SameRefs

@[refl]
theorem refl (s : State) : s.SameRefs s :=
  ⟨fun _ => rfl, fun _ => rfl, fun _ => rfl, fun _ => rfl, fun _ => rfl, fun _ => rfl, fun _ => ⟨rfl, rfl, rfl, rfl, rfl⟩, rfl⟩

theorem trans (h : s.SameRefs s') (h' : s'.SameRefs s'') : s.SameRefs s'' where
  pid p := (h'.pid p).trans (h.pid p)
  endpoint p := (h'.endpoint p).trans (h.endpoint p)
  fds p := (h'.fds p).trans (h.fds p)
  count n := (h'.count n).trans (h.count n)
  vnode n := (h'.vnode n).trans (h.vnode n)
  selBusy n := (h'.selBusy n).trans (h.selBusy n)
  file v := by
    obtain ⟨h1, h2, h3, h4, h5⟩ := h.file v
    obtain ⟨h1', h2', h3', h4', h5'⟩ := h'.file v
    exact ⟨h1'.trans h1, h2'.trans h2, h3'.trans h3, h4'.trans h4, h5'.trans h5⟩
  selFilp := h'.selFilp.trans h.selFilp

variable (h : s.SameRefs s')
include h

theorem live {p : ProcNr} : s'.live p = s.live p := by
  unfold State.live
  rw [h.pid]

theorem fdRefs (n : FilpNr) : s'.fdRefs n = s.fdRefs n :=
  tally_congr fun p => tally_congr fun fd => by rw [h.fds]

theorem held (v : VnodeNr) : s'.held v = s.held v :=
  tally_congr fun n => by simp only [h.count, h.vnode]

theorem busyRefs (n : FilpNr) : s'.busyRefs n = s.busyRefs n :=
  tally_congr fun d => by simp only [h.selFilp, h.selBusy]

theorem savedVnode (hsaved : (s'.proc p).saved = (s.proc p).saved) :
    s'.savedVnode p = s.savedVnode p :=
  savedVnode_congr hsaved (h.fds p) fun _ n _ => h.vnode n

/-- A process that stays suspended in the same call waits for the same as before. -/
theorem waits (hw : s.Waits p) (hblocked : (s'.proc p).blockedOn = (s.proc p).blockedOn)
    (hsaved : (s'.proc p).saved = (s.proc p).saved) (hreopen : (s'.proc p).suspReopen = (s.proc p).suspReopen) :
    s'.Waits p :=
  hw.congr hblocked hsaved hreopen (h.savedVnode hsaved) fun v _ => (h.file v).1

end SameRefs

/-- Only how processes wait has changed. -/
theorem Refs.of_same (h : s.Refs) (hsame : s.SameRefs s') (hwaits : ∀ p, s.live p = true → s'.Waits p) : s'.Refs where
  slot p e he := h.slot p e ((hsame.endpoint p).symm.trans he)
  free p hp := by
    rw [hsame.live] at hp
    rw [hsame.endpoint, hsame.fds]
    exact h.free p hp
  counted n := by
    rw [hsame.fdRefs, hsame.count]
    exact h.counted n
  busy n hn := by
    rw [hsame.fdRefs, hsame.busyRefs, hsame.count] at *
    exact h.busy n hn
  held v := by
    rw [hsame.held, (hsame.file v).2.1]
    exact h.held v
  fifo v hv := by
    rw [(hsame.file v).2.2.1] at hv
    rw [(hsame.file v).1]
    exact h.fifo v hv
  piped v hv htype := by
    obtain ⟨h1, h2, h3, h4, -⟩ := hsame.file v
    rw [h2] at hv
    rw [h1] at htype
    rw [h3, h4]
    exact h.piped v hv htype
  mapped v hv := by
    obtain ⟨h1, -, -, h4, h5⟩ := hsame.file v
    rw [h4, h5] at hv
    rw [h1]
    exact h.mapped v hv
  asynch d n hd := h.asynch d n (hsame.selFilp ▸ hd)
  waits p hp := hwaits p ((hsame.live).symm.trans hp)

/-- Nothing that is counted is written. -/
theorem Refs.of_quiet (h : s.Refs) (hsame : s.SameRefs s') (hproc : s'.proc = s.proc) : s'.Refs :=
  h.of_same hsame fun p hp => hsame.waits (h.waits p hp) (by rw [hproc]) (by rw [hproc]) (by rw [hproc])

/-! ### Rules for tables of which one entry is written: what holds of the new entry, and of
the other ones as they were, holds of all. -/

@[elab_as_elim]
theorem setProc_rule {motive : ProcNr → Fproc → Prop} (self : motive p f)
    (other : ∀ q, q ≠ p → motive q (s.proc q)) (q : ProcNr) : motive q ((s.setProc p f).proc q) :=
  (forall_update_iff s.proc motive).2 ⟨self, other⟩ q

@[elab_as_elim]
theorem setFd_rule {o : Option FilpNr} {b : Bool} {motive : ProcNr → Fproc → Prop}
    (self : motive p { s.proc p with
      fds := update (s.proc p).fds fd o
      inuse := update (s.proc p).inuse fd b })
    (other : ∀ q, q ≠ p → motive q (s.proc q)) {q : ProcNr} : motive q ((s.setFd p fd o b).proc q) :=
  setProc_rule self other q

theorem setFd_proc_self (s : State) (p : ProcNr) (fd : Fd) (o : Option FilpNr) (b : Bool) : (s.setFd p fd o b).proc p =
    { s.proc p with fds := update (s.proc p).fds fd o, inuse := update (s.proc p).inuse fd b } :=
  update_self ..

@[elab_as_elim]
theorem setFilp_rule {f : Filp} {motive : FilpNr → Filp → Prop} (self : motive n f)
    (other : ∀ m, m ≠ n → motive m (s.filp m)) (m : FilpNr) : motive m ((s.setFilp n f).filp m) :=
  (forall_update_iff s.filp motive).2 ⟨self, other⟩ m

@[elab_as_elim]
theorem setVnode_rule {x : Vnode} {motive : VnodeNr → Vnode → Prop} (self : motive v x)
    (other : ∀ w, w ≠ v → motive w (s.vnode w)) (w : VnodeNr) : motive w ((s.setVnode v x).vnode w) :=
  (forall_update_iff s.vnode motive).2 ⟨self, other⟩ w

@[elab_as_elim]
theorem setSel_rule {i : SelNr} {x : SelectEntry} {motive : SelNr → SelectEntry → Prop}
    (self : motive i x) (other : ∀ j, j ≠ i → motive j (s.sel j)) (j : SelNr) :
    motive j ((s.setSel i x).sel j) :=
  (forall_update_iff s.sel motive).2 ⟨self, other⟩ j

/-- The slot of one process is written, with the same descriptors. -/
theorem SameRefs.setProc {s : State} {p : ProcNr} (hpid : f.pid = (s.proc p).pid)
    (hend : f.endpoint = (s.proc p).endpoint) (hfds : f.fds = (s.proc p).fds) : s.SameRefs (s.setProc p f) :=
  { refl s with
    pid := setProc_rule hpid fun _ _ => rfl
    endpoint := setProc_rule hend fun _ _ => rfl
    fds := setProc_rule hfds fun _ _ => rfl }

theorem setProc_proc_self (s : State) (p : ProcNr) (f : Fproc) : (s.setProc p f).proc p = f :=
  update_self ..

theorem setProc_proc_of_ne (s : State) {q : ProcNr} (f : Fproc) (h : q ≠ p) : (s.setProc p f).proc q = s.proc q :=
  update_of_ne h ..

/-- The slot of one process is written, and it goes on or waits as it is told. -/
theorem Refs.setProc (h : s.Refs) {p : ProcNr} (hpid : f.pid = (s.proc p).pid)
    (hend : f.endpoint = (s.proc p).endpoint) (hfds : f.fds = (s.proc p).fds) (hwaits : (s.setProc p f).Waits p) :
    (s.setProc p f).Refs := by
  have hsame := SameRefs.setProc hpid hend hfds
  refine h.of_same hsame fun q hq => ?_
  by_cases hqp : q = p
  · exact hqp ▸ hwaits
  · exact h.waits_of_proc (setProc_proc_of_ne s f hqp) (fun _ _ _ => rfl) (fun _ _ => rfl) ((hsame.live).trans hq)

/-! ## Processes that go on -/

/-- What is left alone when suspended processes go on. -/
structure Frame (s s' : State) : Prop where
  proc : ∀ p, (s.proc p).Woken (s'.proc p)
  filp : ∀ n, 0 < (s'.filp n).count → (s'.filp n).Same (s.filp n)
  vnode : ∀ v, (s'.vnode v).Same (s.vnode v)
  pfs : s'.pfs = s.pfs
  drivers : s'.dmap = s.dmap ∧ s'.selFilp = s.selFilp
  locks : s'.locks = s.locks
  sel : ∀ i, (s'.sel i).endpt = (s.sel i).endpt ∧
    ((s'.sel i).requestor = (s.sel i).requestor ∨ (s'.sel i).requestor = none)
  log : ∃ new, s'.log = new ++ s.log ∧ ∀ x ∈ new, ∃ e r, x = .reply e r
  panics : ∃ new, s'.panics = new ++ s.panics ∧ ∀ x ∈ new, x = .suspNegative ∨ x = .filpCount

/-- Two times something of a kind is put before a list. -/
theorem adds_trans {α : Type} {P : α → Prop} {l l' l'' : List α}
    (h : ∃ new, l' = new ++ l ∧ ∀ x ∈ new, P x) (h' : ∃ new, l'' = new ++ l' ∧ ∀ x ∈ new, P x) :
    ∃ new, l'' = new ++ l ∧ ∀ x ∈ new, P x := by
  obtain ⟨new, rfl, hall⟩ := h
  obtain ⟨new', rfl, hall'⟩ := h'
  refine ⟨new' ++ new, (List.append_assoc ..).symm, fun x hx => ?_⟩
  rcases List.mem_append.mp hx with hx | hx
  · exact hall' x hx
  · exact hall x hx

namespace Frame

@[refl]
theorem refl (s : State) : s.Frame s where
  proc p := .refl
  filp n _ := .refl
  vnode v := .refl
  pfs := rfl
  drivers := ⟨rfl, rfl⟩
  locks := rfl
  sel i := ⟨rfl, .inl rfl⟩
  log := ⟨[], rfl, by simp⟩
  panics := ⟨[], rfl, by simp⟩

theorem trans (h : s.Frame s') (h' : s'.Frame s'') : s.Frame s'' where
  proc p := (h.proc p).trans (h'.proc p)
  filp n hn := by
    have h2 := h'.filp n hn
    exact h2.trans (h.filp n (h2.count ▸ hn))
  vnode v := (h'.vnode v).trans (h.vnode v)
  pfs := h'.pfs.trans h.pfs
  drivers := ⟨h'.drivers.1.trans h.drivers.1, h'.drivers.2.trans h.drivers.2⟩
  locks := h'.locks.trans h.locks
  sel i := by
    obtain ⟨hend, hreq⟩ := h.sel i
    obtain ⟨hend', hreq'⟩ := h'.sel i
    refine ⟨hend'.trans hend, ?_⟩
    rcases hreq' with hreq' | hreq'
    · rw [hreq']
      exact hreq
    · exact .inr hreq'
  log := adds_trans h.log h'.log
  panics := adds_trans h.panics h'.panics

/-- The slot of a suspended process is written. -/
theorem setProc {s : State} (hf : (s.proc p).Woken f) : s.Frame (s.setProc p f) :=
  { refl s with proc := setProc_rule hf fun _ _ => .refl }

theorem reply {s : State} {e : Endpoint} {r : Int} : s.Frame (s.reply e r) :=
  { refl s with log := ⟨[.reply e r], rfl, fun _ hx => ⟨e, r, List.mem_singleton.mp hx⟩⟩ }

end Frame

theorem SameRefs.reply {s : State} {e : Endpoint} {r : Int} : s.SameRefs (s.reply e r) :=
  { refl s with }

/-- No descriptor is for a filp that none is counted for. -/
theorem fds_ne_of_fdRefs_eq_zero (h : s.fdRefs n = 0) {p : ProcNr} {fd : Fd} :
    (s.proc p).fds fd ≠ some n := by
  intro hfd
  have hp : (s.proc p).refs n = 0 := tally_eq_zero.mp h p
  have := tally_eq_zero.mp hp fd
  rw [if_pos hfd] at this
  exact one_ne_zero this

theorem setFilp_filp_self (s : State) (n : FilpNr) (f : Filp) : (s.setFilp n f).filp n = f :=
  update_self ..

theorem setFilp_filp_of_ne {s : State} {m : FilpNr} {f : Filp} (h : m ≠ n) : (s.setFilp n f).filp m = s.filp m :=
  update_of_ne h ..

theorem setVnode_vnode_self {s : State} {v : VnodeNr} {x : Vnode} : (s.setVnode v x).vnode v = x :=
  update_self ..

theorem setVnode_vnode_of_ne {s : State} {w : VnodeNr} {x : Vnode} (h : w ≠ v) : (s.setVnode v x).vnode w = s.vnode w :=
  update_of_ne h ..

/-- A filp is written, and its vnode has a reference for it. -/
theorem Refs.setFilp (h : s.Refs) {f : Filp} (hcount : (s.fdRefs n : Int) ≤ f.count)
    (hbusy : 0 < f.count → (s.fdRefs n : Int) + (s.setFilp n f).busyRefs n ≤ f.count)
    (hheld : ∀ v, 0 < f.count → f.vnode = some v → ¬ (0 < (s.filp n).count ∧ (s.filp n).vnode = some v) →
      (s.held v : Int) + 1 ≤ (s.vnode v).refCount)
    (hvnode : f.vnode = (s.filp n).vnode ∨ s.fdRefs n = 0) : (s.setFilp n f).Refs := by
  refine ⟨h.slot, h.free, setFilp_rule hcount fun m _ => h.counted m, ?_, fun v => ?_,
    h.fifo, h.piped, h.mapped, h.asynch, fun p => h.waits_of_proc rfl (fun fd => ?_) fun _ _ => rfl⟩
  · refine setFilp_rule hbusy fun m hmn hm => ?_
    rw [show (s.setFilp n f).busyRefs m = s.busyRefs m from tally_congr fun d => by rw [setFilp_filp_of_ne hmn]; rfl]
    exact h.busy m hm
  · have hset := s.held_setFilp n f v
    have hold := h.held v
    show ((s.setFilp n f).held v : Int) ≤ (s.vnode v).refCount
    by_cases hnew : 0 < f.count ∧ f.vnode = some v
    · by_cases hwas : 0 < (s.filp n).count ∧ (s.filp n).vnode = some v
      · rw [if_pos hnew, if_pos hwas] at hset
        omega
      · have := hheld v hnew.1 hnew.2 hwas
        rw [if_pos hnew, if_neg hwas] at hset
        omega
    · rw [if_neg hnew] at hset
      omega
  · exact setFilp_rule (fun hfd => hvnode.resolve_right fun h0 => fds_ne_of_fdRefs_eq_zero h0 hfd) fun _ _ _ => rfl

/-- A filp that no descriptor is for becomes free. -/
theorem Refs.setFilp_free (h : s.Refs) (hrefs : s.fdRefs n = 0) {f : Filp} (hf : f.count = 0) :
    (s.setFilp n f).Refs :=
  h.setFilp (by omega) (fun _ => by omega) (fun _ _ => by omega) (.inr hrefs)

/-- Only inodes that the vnode has are given back. -/
theorem putPfs_eq (s : State) (x : Vnode) :
    ∃ pfs, s.putPfs x = { s with pfs := pfs } ∧ ∀ i, pfs i ≠ s.pfs i → x.Uses i := by
  have hone : ∀ {i j : Nat}, update s.pfs j none i ≠ s.pfs i → j = i := fun {i j} hi => by
    by_contra hij
    exact hi (update_of_ne (Ne.symm hij) ..)
  unfold putPfs
  split
  · rename_i hfs
    exact ⟨_, rfl, fun i hi => .inr ⟨hfs, hone hi⟩⟩
  · rename_i hmapped
    split
    · exact ⟨s.pfs, rfl, fun i hi => absurd rfl hi⟩
    · exact ⟨_, rfl, fun i hi => .inl (hone hi ▸ hmapped)⟩
  · exact ⟨s.pfs, rfl, fun i hi => absurd rfl hi⟩

/-- A vnode loses a reference, or it becomes free and its inodes are given back. -/
inductive Put (s : State) (v : VnodeNr) : State → Prop
  | less (hone : 1 < (s.vnode v).refCount) : Put s v (s.setVnode v { s.vnode v with refCount := (s.vnode v).refCount - 1 })
  | last (hone : ¬ 1 < (s.vnode v).refCount) (pfs : Nat → Option PfsInode)
      (hpfs : ∀ i, pfs i ≠ s.pfs i → (s.vnode v).Uses i) :
      Put s v (setVnode { s with pfs := pfs } v
        { s.vnode v with refCount := 0, pipe := false, sdev := none, mapped := none })

theorem putVnode_put (s : State) (v : VnodeNr) : s.Put v (s.putVnode v) := by
  obtain ⟨pfs, heq, hpfs⟩ := s.putPfs_eq (s.vnode v)
  unfold putVnode
  simp only [heq]
  split
  · exact .less ‹_›
  · exact .last ‹_› pfs hpfs

/-- A vnode is written.  If a process waits for it, it has to be of the same type. -/
theorem Refs.writeVnode (h : s.Refs) {x : Vnode} (htype : 0 < (s.vnode v).refCount → x.type = (s.vnode v).type)
    (hheld : (s.held v : Int) ≤ x.refCount) (hpipe : x.pipe = true → x.type = .fifo)
    (hmapped : (x.mapped.isSome = true ∨ x.fs = .pfs) → x.type = .fifo)
    (hpiped : 0 < x.refCount → x.type = .fifo → x.pipe = true ∧ x.mapped.isSome = true) : (s.setVnode v x).Refs where
  slot := h.slot
  free := h.free
  counted := h.counted
  busy := h.busy
  held := setVnode_rule hheld fun w _ => h.held w
  fifo := setVnode_rule hpipe fun w _ => h.fifo w
  piped := setVnode_rule hpiped fun w _ => h.piped w
  mapped := setVnode_rule hmapped fun w _ => h.mapped w
  asynch := h.asynch
  waits _ := h.waits_of_proc rfl (fun _ _ _ => rfl) (setVnode_rule (fun hv => htype (h.saved_pos hv)) fun _ _ _ => rfl)

/-- A vnode is written, with the same type. -/
theorem Refs.setVnode (h : s.Refs) {x : Vnode} (htype : x.type = (s.vnode v).type)
    (hfs : x.fs = (s.vnode v).fs) (hheld : (s.held v : Int) ≤ x.refCount) (hpipe : x.pipe = true → x.type = .fifo)
    (hmapped : x.mapped.isSome = true → x.type = .fifo)
    (hpiped : 0 < x.refCount → x.type = .fifo → x.pipe = true ∧ x.mapped.isSome = true) : (s.setVnode v x).Refs := by
  refine h.writeVnode (fun _ => htype) hheld hpipe (fun hx => ?_) hpiped
  rcases hx with hx | hx
  · exact hmapped hx
  · exact htype.trans (h.mapped v (.inr (hfs ▸ hx)))

/-- A reference to a vnode that no filp has is given back. -/
theorem Refs.putVnode (h : s.Refs) (hv : (s.held v : Int) < (s.vnode v).refCount) : (s.putVnode v).Refs := by
  have hput := s.putVnode_put v
  generalize s.putVnode v = t at hput
  cases hput with
  | less hone =>
    exact h.setVnode rfl rfl (by simp only []; omega) (h.fifo v) (fun hx => h.mapped v (.inl hx))
      fun _ hfifo => h.piped v (by omega) hfifo
  | last hone pfs _ =>
    have hpfs : ({ s with pfs := pfs } : State).Refs := h.of_quiet { SameRefs.refl s with } rfl
    exact hpfs.setVnode rfl rfl (by simp only []; exact (by omega : (s.held v : Int) ≤ 0)) (by simp) (by simp) (by simp)

/-- The rest of the state. -/
theorem putVnode_rest (s : State) (v : VnodeNr) :
    ∃ vnode pfs, s.putVnode v = { s with vnode := vnode, pfs := pfs } := by
  have hput := s.putVnode_put v
  generalize s.putVnode v = t at hput
  cases hput with
  | less | last => exact ⟨_, _, rfl⟩

theorem putVnode_filp (s : State) (v : VnodeNr) : (s.putVnode v).filp = s.filp := by
  obtain ⟨vnode, pfs, heq⟩ := s.putVnode_rest v
  rw [heq]

theorem putVnode_proc (s : State) (v : VnodeNr) : (s.putVnode v).proc = s.proc := by
  obtain ⟨vnode, pfs, heq⟩ := s.putVnode_rest v
  rw [heq]

/-- A slot is written, also that of a process that starts or ends. -/
theorem Refs.writeProc (h : s.Refs) (hslot : ∀ e, f.endpoint = some e → e.nr = p.val)
    (hfree : f.pid = 0 → f.endpoint = none ∧ ∀ fd, f.fds fd = none)
    (hrefs : ∀ n, (s.setProc p f).fdRefs n ≤ s.fdRefs n ∨
      ((s.setProc p f).fdRefs n : Int) + s.busyRefs n ≤ (s.filp n).count)
    (hwaits : f.pid ≠ 0 → (s.setProc p f).Waits p) : (s.setProc p f).Refs := by
  refine ⟨setProc_rule hslot fun q _ => h.slot q, ?_, fun n => ?_, fun n hn => ?_, h.held, h.fifo, h.piped, h.mapped,
    h.asynch, fun q hq => ?_⟩
  · unfold live
    exact setProc_rule (fun hp => hfree (by simpa using hp)) fun q _ => h.free q
  · have hset := hrefs n
    have hold := h.counted n
    show ((s.setProc p f).fdRefs n : Int) ≤ (s.filp n).count
    omega
  · have hset := hrefs n
    have hold := h.busy n hn
    show ((s.setProc p f).fdRefs n : Int) + s.busyRefs n ≤ (s.filp n).count
    omega
  · by_cases hqp : q = p
    · subst hqp
      refine hwaits ?_
      unfold live at hq
      rw [setProc_proc_self] at hq
      simpa using hq
    · exact h.waits_of_proc (setProc_proc_of_ne s f hqp) (fun _ _ _ => rfl) (fun _ _ => rfl) hq

/-- A descriptor is written.  A process that waits has to wait for a file of the same kind. -/
theorem Refs.setFd (h : s.Refs) {o : Option FilpNr} {b : Bool} (hlive : s.live p = true ∨ o = none)
    (hcount : ∀ n, o = some n → (s.fdRefs n : Int) + s.busyRefs n + 1 ≤ (s.filp n).count)
    (hwaits : (s.setFd p fd o b).Waits p) : (s.setFd p fd o b).Refs := by
  refine h.writeProc (h.slot p) (fun hp => ?_) (fun n => ?_) fun _ => hwaits
  · obtain ⟨h1, h2⟩ := h.free p (by simpa [live] using hp)
    obtain rfl := hlive.resolve_left fun hlive => by simp [live] at hlive; exact hlive hp
    exact ⟨h1, (forall_update_iff _ fun _ o => o = none).2 ⟨rfl, fun fd' _ => h2 fd'⟩⟩
  · have hset := s.fdRefs_setFd p fd o b n
    show (s.setFd p fd o b).fdRefs n ≤ s.fdRefs n ∨
      ((s.setFd p fd o b).fdRefs n : Int) + s.busyRefs n ≤ (s.filp n).count
    by_cases ho : o = some n
    · have := hcount n ho
      rw [if_pos ho] at hset
      omega
    · rw [if_neg ho] at hset
      omega

/-- A process that goes on has no descriptor any more. -/
theorem Refs.clearFd (h : s.Refs) (hidle : (s.proc p).blockedOn = .none) (fd : Fd) (b : Bool) :
    (s.setFd p fd none b).Refs :=
  h.setFd (.inr rfl) (fun _ hn => nomatch hn)
    (Waits.idle ((congrArg Fproc.blockedOn (setProc_proc_self ..)).trans hidle))

/-- A filp that becomes free held its vnode. -/
theorem held_setCount_zero (hcount : 0 < (s.filp n).count) (hv : (s.filp n).vnode = some v) :
    (s.setCount n 0).held v + 1 = s.held v := by
  have hheld := s.held_setFilp n { s.filp n with count := 0 } v
  have hnew : ¬ ((0 : Int) < 0 ∧ (s.filp n).vnode = some v) := by simp
  rw [if_pos ⟨hcount, hv⟩, if_neg hnew] at hheld
  exact hheld

/-- A filp that no descriptor is for goes with its vnode. -/
theorem Refs.dropFilp (h : s.Refs) (hrefs : s.fdRefs n = 0) (hcount : 0 < (s.filp n).count)
    (hv : (s.filp n).vnode = some v) : (s.dropFilp n v).Refs := by
  have hfree : (s.setCount n 0).Refs := h.setFilp_free hrefs rfl
  have hheld := held_setCount_zero hcount hv
  have hold := h.held v
  have hput : ((s.setCount n 0).putVnode v).Refs := by
    refine hfree.putVnode ?_
    show ((s.setCount n 0).held v : Int) < (s.vnode v).refCount
    omega
  refine hput.setFilp_free ?_ ?_
  · show tally _ _ = 0
    rw [putVnode_proc]
    exact hrefs
  · rw [putVnode_filp]
    exact congrArg Filp.count (setFilp_filp_self ..)

/-- The last descriptor of a filp goes. -/
theorem Refs.fdRefs_clear (h : s.Refs) (hfd : (s.proc p).fds fd = some n)
    (hcount : (s.filp n).count = 1) (b : Bool) : (s.setFd p fd none b).fdRefs n = 0 := by
  have hset := s.fdRefs_setFd p fd none b n
  rw [if_pos hfd, if_neg (by simp)] at hset
  have := h.counted n
  omega

theorem Refs.dropOpen (h : s.Refs) (hidle : (s.proc p).blockedOn = .none) : (s.dropOpen p).Refs := by
  unfold State.dropOpen
  rcases fdOf (s.proc p).saved.fd with _ | fd
  · exact h
  simp only []
  rcases hfd : (s.proc p).fds fd with _ | n
  · exact h
  simp only []
  have hclear := h.clearFd hidle fd false
  by_cases hcount : (s.filp n).count = 1
  · rw [if_neg (not_not.mpr hcount)]
    have hrefs := h.fdRefs_clear hfd hcount false
    rcases hv : (s.filp n).vnode with _ | v
    · exact hclear.setFilp_free hrefs rfl
    · exact hclear.dropFilp hrefs (by show 0 < (s.filp n).count; omega) hv
  · rw [if_pos hcount]
    exact hclear.of_quiet { SameRefs.refl _ with } rfl

/-- A process that cannot be revived once more: it is not suspended, or it is marked already. -/
def Settled (s : State) (e : Endpoint) : Prop :=
  ∀ p, s.isokendpt e = some p → (s.proc p).revived = true ∨ (s.proc p).blockedOn = .none

/-- What `revive` can do: nothing, mark a process that waits for a pipe or for a lock, or let a
process go on. -/
inductive Revives (s : State) (e : Endpoint) (r : Int) : State → Prop
  | same (hsettled : s.Settled e) : Revives s e r s
  | marked (p : ProcNr) (hend : (s.proc p).endpoint = some e)
      (hblocked : (s.proc p).blockedOn = .pipe ∨ (s.proc p).blockedOn = .lock) (hrev : (s.proc p).revived = false) :
      Revives s e r (s.mark p)
  | went (p : ProcNr) (r' : Int) (hend : (s.proc p).endpoint = some e)
      (hblocked : (s.proc p).blockedOn = .popen ∨ (s.proc p).blockedOn = .select ∨ (s.proc p).blockedOn = .dopen)
      (hrev : (s.proc p).revived = false) : Revives s e r ((s.goOn p).reply e r')
  | ended (p : ProcNr) (hend : (s.proc p).endpoint = some e) (hblocked : (s.proc p).blockedOn = .other)
      (hrev : (s.proc p).revived = false) : Revives s e r (((s.endIo p r).goOn p).reply e r)
  | dropped (p : ProcNr) (hend : (s.proc p).endpoint = some e) (hblocked : (s.proc p).blockedOn = .dopen)
      (hrev : (s.proc p).revived = false) (hr : r < 0) : Revives s e r (((s.goOn p).dropOpen p).reply e r)

theorem revive_revives (s : State) (e : Endpoint) (r : Int) : Revives s e r (s.revive e r) := by
  unfold revive
  rcases hp : s.isokendpt e with _ | p
  · refine .same fun q hq => ?_
    rw [hp] at hq
    simp at hq
  · simp only []
    have hend := (isokendpt_eq_some hp).1
    have hsettled : (s.proc p).revived = true ∨ (s.proc p).blockedOn = .none → s.Settled e := by
      intro h q hq
      rw [hp] at hq
      exact Option.some.inj hq ▸ h
    by_cases hrev : (s.proc p).revived = true
    · rw [if_pos hrev]
      exact .same (hsettled (.inl hrev))
    rw [if_neg hrev]
    have hrev : (s.proc p).revived = false := by simpa using hrev
    rcases hb : (s.proc p).blockedOn with _ | _ | _ | _ | _ | _ | _
    · exact .same (hsettled (.inr hb))
    · exact .marked p hend (.inl hb) hrev
    · exact .marked p hend (.inr hb) hrev
    · exact .went p _ hend (by simp [hb]) hrev
    · exact .went p _ hend (by simp [hb]) hrev
    · simp only []
      split_ifs with hr
      · exact .dropped p hend hb hrev hr
      · exact .went p _ hend (by simp [hb]) hrev
    · exact .ended p hend hb hrev

/-- What a process waits for is not written. -/
theorem Refs.setProc_waiting (h : s.Refs) {p : ProcNr} (hpid : f.pid = (s.proc p).pid)
    (hend : f.endpoint = (s.proc p).endpoint) (hfds : f.fds = (s.proc p).fds)
    (hblocked : f.blockedOn = (s.proc p).blockedOn) (hsaved : f.saved = (s.proc p).saved)
    (hreopen : f.suspReopen = (s.proc p).suspReopen) : (s.setProc p f).Refs := by
  have hsame := SameRefs.setProc hpid hend hfds
  exact h.of_same hsame fun q hq => hsame.waits (h.waits q hq)
    (setProc_rule hblocked (fun _ _ => rfl) q) (setProc_rule hsaved (fun _ _ => rfl) q)
    (setProc_rule hreopen (fun _ _ => rfl) q)

theorem Refs.unmark (h : s.Refs) (p : ProcNr) : (s.unmark p).Refs :=
  (h.setProc_waiting (f := { s.proc p with revived := false }) rfl rfl rfl rfl rfl rfl).of_quiet
    { SameRefs.refl _ with } rfl

section

variable (s : State) (p : ProcNr)

theorem goOn_blockedOn : ((s.goOn p).proc p).blockedOn = .none := by
  unfold goOn
  rw [setProc_proc_self]

theorem SameRefs.goOn : s.SameRefs (s.goOn p) :=
  setProc rfl rfl rfl

theorem SameRefs.endIo {r : Int} : s.SameRefs (s.endIo p r) :=
  setProc rfl rfl rfl

theorem SameRefs.mark : s.SameRefs (s.mark p) :=
  (setProc (f := { s.proc p with revived := true }) rfl rfl rfl).trans { refl _ with }

end

theorem Refs.goOn (h : s.Refs) {p : ProcNr} : (s.goOn p).Refs :=
  h.setProc rfl rfl rfl (Waits.idle (goOn_blockedOn s p))

theorem endIo_goOn (s : State) (p : ProcNr) (r : Int) : (s.endIo p r).goOn p =
    s.setProc p { s.proc p with
      saved := { (s.proc p).saved with nbytes := r }, grant := none, blockedOn := .none } := by
  simp only [goOn, endIo, setProc, update_self, update_idem]

theorem Refs.reply (h : s.Refs) (e : Endpoint) (r : Int) : (s.reply e r).Refs :=
  h.of_quiet SameRefs.reply rfl

theorem Refs.revive (h : s.Refs) (e : Endpoint) (r : Int) : (s.revive e r).Refs := by
  have hrev := s.revive_revives e r
  generalize s.revive e r = t at hrev
  cases hrev with
  | same => exact h
  | marked p =>
    exact (h.setProc_waiting (f := { s.proc p with revived := true }) rfl rfl rfl rfl rfl rfl).of_quiet { SameRefs.refl _ with } rfl
  | went p r' => exact (h.goOn).reply e r'
  | ended p =>
    rw [endIo_goOn]
    refine .reply (h.setProc ?_ ?_ ?_ (Waits.idle (congrArg Fproc.blockedOn (setProc_proc_self ..)))) e r <;> rfl
  | dropped p => exact ((h.goOn).dropOpen (goOn_blockedOn s p)).reply e r

theorem putVnode_same (s : State) (v w : VnodeNr) : ((s.putVnode v).vnode w).Same (s.vnode w) := by
  have hput := s.putVnode_put v
  generalize s.putVnode v = t at hput
  cases hput with
  | less hone =>
    refine setVnode_rule ?_ (fun w _ => .refl) w
    exact ⟨⟨rfl, rfl, rfl⟩, rfl, ⟨rfl, rfl⟩, fun _ => ⟨by omega, rfl, rfl, rfl⟩⟩
  | last =>
    refine setVnode_rule ?_ (fun w _ => .refl) w
    exact ⟨⟨rfl, rfl, rfl⟩, rfl, ⟨rfl, rfl⟩, fun hx => absurd hx (lt_irrefl 0)⟩

theorem putVnode_pfs_uses (s : State) {v : VnodeNr} {i : Nat} (hi : (s.putVnode v).pfs i ≠ s.pfs i) : (s.vnode v).Uses i := by
  have hput := s.putVnode_put v
  generalize s.putVnode v = t at hput hi
  cases hput with
  | less => exact absurd rfl hi
  | last _ _ hpfs => exact hpfs i hi

/-- Only a pipe has an inode of the pipe file system. -/
theorem Refs.uses_fifo (h : s.Refs) {i : Nat} (hv : (s.vnode v).Uses i) : (s.vnode v).type = .fifo :=
  h.mapped v (hv.imp (fun h => by simp [h]) fun h => h.1)

theorem Frame.panic {s : State} {why : Panic} (h : why = .suspNegative ∨ why = .filpCount) : s.Frame (s.panic why) :=
  { refl s with panics := ⟨[why], rfl, fun _ hx => List.mem_singleton.mp hx ▸ h⟩ }

/-- A filp becomes free. -/
theorem Frame.setFilp_free {s : State} {n : FilpNr} {f : Filp} (hf : f.count = 0) : s.Frame (s.setFilp n f) := by
  refine { refl s with filp := setFilp_rule (fun hpos => ?_) fun m _ _ => .refl }
  exact absurd (hf ▸ hpos) (lt_irrefl 0)

theorem Refs.putVnode_frame (h : s.Refs) (hv : (s.vnode v).type ≠ .fifo) : s.Frame (s.putVnode v) := by
  have hsame := s.putVnode_same v
  have hpfs : (s.putVnode v).pfs = s.pfs := by
    funext i
    by_contra hi
    exact hv (h.uses_fifo (s.putVnode_pfs_uses hi))
  obtain ⟨vnode, pfs, heq⟩ := s.putVnode_rest v
  rw [heq] at hsame hpfs ⊢
  exact { Frame.refl s with vnode := hsame, pfs := hpfs }

theorem Refs.dropFilp_frame (h : s.Refs) (hrefs : s.fdRefs n = 0)
    (hv : (s.vnode v).type ≠ .fifo) : s.Frame (s.dropFilp n v) := by
  have hfree : (s.setCount n 0).Refs := h.setFilp_free hrefs rfl
  have hput : (s.setCount n 0).Frame ((s.setCount n 0).putVnode v) := hfree.putVnode_frame hv
  refine ((Frame.setFilp_free rfl).trans hput).trans (Frame.setFilp_free ?_)
  rw [putVnode_filp]
  exact congrArg Filp.count (setFilp_filp_self ..)

theorem Frame.goOn (s : State) (hp : (s.proc p).blockedOn ≠ .none) : s.Frame (s.goOn p) :=
  setProc (.of_idle hp rfl ⟨rfl, rfl, rfl⟩ fun _ _ h => h)

/-- An open that has failed in the driver goes, with its descriptor. -/
theorem Refs.dropOpen_frame (h : s.Refs) (hblocked : (s.proc p).blockedOn = .dopen) (hlive : s.live p = true) :
    s.Frame ((s.goOn p).dropOpen p) := by
  have hon := Frame.goOn s (p := p) (by simp [hblocked])
  have hproc : (s.goOn p).proc p = { s.proc p with blockedOn := .none } := setProc_proc_self ..
  unfold State.dropOpen
  rw [hproc]
  rcases hsaved : fdOf (s.proc p).saved.fd with _ | fd
  · exact hon
  simp only []
  rcases hfd : (s.proc p).fds fd with _ | n
  · exact hon
  simp only []
  have hclear : s.Frame ((s.goOn p).setFd p fd none false) := by
    have hset : (s.goOn p).setFd p fd none false =
        s.setProc p { s.proc p with
          blockedOn := .none
          fds := update (s.proc p).fds fd none
          inuse := update (s.proc p).inuse fd false } := by
      unfold State.setFd
      rw [hproc]
      simp only [State.goOn, State.setProc, update_idem]
    rw [hset]
    refine Frame.setProc (.of_idle (by simp [hblocked]) rfl ⟨rfl, rfl, rfl⟩ fun fd' m hm => ?_)
    by_cases hfd' : fd' = fd
    · subst hfd'
      simp at hm
    · simpa [hfd'] using hm
  have hrefs : ((s.goOn p).setFd p fd none false).Refs := (h.goOn).clearFd (goOn_blockedOn s p) fd false
  have hn : (s.goOn p).filp n = s.filp n := rfl
  rw [hn]
  by_cases hcount : (s.filp n).count = 1
  · rw [if_neg (not_not.mpr hcount)]
    rcases hv : (s.filp n).vnode with _ | v
    · exact hclear.trans (Frame.setFilp_free rfl)
    have hwait := h.waits p hlive
    simp only [Waits, hblocked] at hwait
    have hchar := hwait v (by simp [savedVnode, hsaved, hfd, hv])
    have hzero := (h.goOn).fdRefs_clear (p := p) (n := n) (by rw [hproc]; exact hfd) hcount false
    refine hclear.trans (hrefs.dropFilp_frame hzero ?_)
    show (s.vnode v).type ≠ .fifo
    simp [hchar]
  · rw [if_pos hcount]
    exact hclear.trans (Frame.panic (.inr rfl))

theorem Refs.revive_frame (h : s.Refs) (e : Endpoint) (r : Int) : s.Frame (s.revive e r) := by
  have hrev := s.revive_revives e r
  generalize s.revive e r = t at hrev
  cases hrev with
  | same => exact .refl s
  | marked p hend hblocked =>
    have hset := Frame.setProc (p := p) (f := { s.proc p with revived := true })
      ⟨fun h => absurd h (by rcases hblocked with hb | hb <;> simp [hb]), ⟨rfl, rfl, rfl⟩, fun _ _ h => h,
        fun _ => .inr rfl⟩
    exact hset.trans { Frame.refl _ with }
  | went p r' hend hblocked =>
    have hset := Frame.goOn s (p := p) (by rcases hblocked with hb | hb | hb <;> simp [hb])
    exact hset.trans Frame.reply
  | ended p hend hblocked =>
    rw [endIo_goOn]
    refine Frame.trans (Frame.setProc ?_) Frame.reply
    exact .of_idle (by simp [hblocked]) rfl ⟨rfl, rfl, rfl⟩ fun _ _ h => h
  | dropped p hend hblocked => exact (h.dropOpen_frame hblocked (h.live_of_endpoint hend)).trans Frame.reply

end State

end Minix.Vfs
