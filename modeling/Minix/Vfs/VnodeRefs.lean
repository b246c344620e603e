/-
  Vfs/VnodeRefs.lean --- the references to inodes that the file servers give out: `vnode.c`,
  `map_vnode`, and where `advance`, `new_node` and `do_pipe` fill in a vnode.

  The vnode of a FIFO has references at two servers.  Beside the counts of a vnode stand the
  references that the servers have given out for it and that REQ_PUTNODE has not taken back.
-/
import Minix.Vfs.State

set_option autoImplicit false

namespace Minix.Vfs.VnodeRefs

open Function

/-- `PFS_PROC_NR` -/
def pfsProcNr : Int := 9

/-- The endpoint of a server and the number of an inode there. -/
abbrev Inode := Int × Nat

/-- The fields of `struct vnode` that are about references: `v_fs_e` with `v_inode_nr`, `v_mapfs_e`
with `v_mapinode_nr`, and the counts.  The endpoint 0 is no server. -/
structure Node where
  inode : Inode
  mapped : Inode
  refCount : Nat
  fsCount : Nat
  mapfsCount : Nat

/-- The references of the counts. -/
def Node.held (x : Node) : Inode → Nat :=
  update (if x.mapped.1 = 0 then 0 else update 0 x.mapped x.mapfsCount) x.inode x.fsCount

structure Table where
  vnode : VnodeNr → Node
  /-- The references that have been given out for a vnode. -/
  given : VnodeNr → Inode → Nat

/-- Requests `req_putnode(fs_e, inode_nr, count)`. -/
abbrev Putnodes := List (Inode × Nat)

/-- The references to an inode that requests give back. -/
def Putnodes.received (reqs : Putnodes) (i : Inode) : Nat := (reqs.map fun r => if r.1 = i then r.2 else 0).sum

namespace Table

def set (t : Table) (v : VnodeNr) (x : Node) (g : Inode → Nat) : Table :=
  ⟨update t.vnode v x, update t.given v g⟩

/-- A server gives out a reference. -/
def give (t : Table) (v : VnodeNr) (i : Inode) : Inode → Nat := update (t.given v) i (t.given v i + 1)

/-- The servers take references back. -/
def reqPutnode (t : Table) (v : VnodeNr) (reqs : Putnodes) : Inode → Nat := fun i => t.given v i - reqs.received i

/-- `get_free_vnode()`: the vnode stands for no inode. -/
def getFreeVnode (t : Table) : Option (VnodeNr × Table) :=
  ((List.finRange nrVnodes).find? fun v => decide ((t.vnode v).refCount = 0)).map fun v =>
    (v, t.set v { t.vnode v with mapped := (0, 0) } 0)

/-- `find_vnode(fs_e, numb)` -/
def findVnode (t : Table) (i : Inode) : Option VnodeNr :=
  (List.finRange nrVnodes).find? fun v => decide (0 < (t.vnode v).refCount ∧ (t.vnode v).inode = i)

/-- `dup_vnode(vp)` -/
def dupVnode (t : Table) (v : VnodeNr) : Table :=
  t.set v { t.vnode v with refCount := (t.vnode v).refCount + 1 } (t.given v)

/-- A free vnode is filled in with an inode of a file system. -/
def fill (t : Table) (v : VnodeNr) (i : Inode) : Table :=
  t.set v { t.vnode v with inode := i, fsCount := 1, refCount := 1 } (t.give v i)

/-- `advance` after a lookup that is answered with an inode. -/
def advance (t : Table) (i : Inode) : Table :=
  match t.getFreeVnode with
  | none => t
  | some (new, t1) =>
      match t1.findVnode i with
      | some v =>
          let t2 := t1.dupVnode v
          t2.set v { t2.vnode v with fsCount := (t2.vnode v).fsCount + 1 } (t2.give v i)
      | none => t1.fill new i

/-- `new_node` with an inode that has been created. -/
def newNode (t : Table) (i : Inode) : Table :=
  match t.getFreeVnode with
  | none => t
  | some (v, t1) => t1.fill v i

/-- `do_pipe` with an inode that the pipe file system has made. -/
def doPipe (t : Table) (nr : Nat) : Table :=
  match t.getFreeVnode with
  | none => t
  | some (v, t1) =>
      (t1.set v ⟨(pfsProcNr, nr), (pfsProcNr, nr), 1, 1, 1⟩ (t1.give v (pfsProcNr, nr))).dupVnode v

/-- `map_vnode(vp)` with an inode that the pipe file system has made. -/
def mapVnode (t : Table) (v : VnodeNr) (nr : Nat) : Table :=
  if (t.vnode v).mapped.1 ≠ 0 then t
  else t.set v { t.vnode v with mapped := (pfsProcNr, nr), mapfsCount := 1 } (t.give v (pfsProcNr, nr))

/-- `vnode_clean_refs(vp)`, with the requests that it makes. -/
def vnodeCleanRefs (t : Table) (v : VnodeNr) : Putnodes × Table :=
  let x := t.vnode v
  if x.fsCount ≤ 1 then ([], t)
  else
    let reqs := [(x.inode, x.fsCount - 1)]
    (reqs, t.set v { x with fsCount := 1 } (t.reqPutnode v reqs))

/-- The requests of `put_vnode` for the last reference. -/
def lastRequests (x : Node) : Putnodes :=
  if x.mapped.1 ≠ 0 ∧ x.mapped.2 ≠ x.inode.2 ∧ x.mapped.1 ≠ x.inode.1 then
    [(x.inode, x.fsCount), (x.mapped, x.mapfsCount)]
  else [(x.inode, x.fsCount)]

/-- `put_vnode(vp)`, with the requests that it makes; `none` is the panic. -/
def putVnode (t : Table) (v : VnodeNr) : Option (Putnodes × Table) :=
  let x := t.vnode v
  if 1 < x.refCount then
    let t1 := t.set v { x with refCount := x.refCount - 1 } (t.given v)
    some (if 256 < x.fsCount then t1.vnodeCleanRefs v else ([], t1))
  else if x.refCount = 0 ∨ x.fsCount = 0 then none
  else
    let reqs := lastRequests x
    some (reqs, t.set v { x with fsCount := 0, refCount := 0, mapped := (0, 0), mapfsCount := 0 } (t.reqPutnode v reqs))

/-! ## Runs -/

/-- No vnode is in use. -/
def empty : Table := ⟨fun _ => ⟨(0, 0), (0, 0), 0, 0, 0⟩, fun _ => 0⟩

/-- What happens to vnodes.  The servers choose the numbers. -/
inductive Step (t : Table) : Table → Prop where
  | advance (i : Inode) (hi : i.1 ≠ pfsProcNr) : Step t (t.advance i)
  | newNode (i : Inode) (hi : i.1 ≠ pfsProcNr) : Step t (t.newNode i)
  | doPipe (nr : Nat) : Step t (t.doPipe nr)
  | mapVnode (v : VnodeNr) (nr : Nat) : Step t (t.mapVnode v nr)
  | dupVnode (v : VnodeNr) (hused : (t.vnode v).refCount ≠ 0) : Step t (t.dupVnode v)
  | vnodeCleanRefs (v : VnodeNr) : Step t (t.vnodeCleanRefs v).2
  | putVnode (v : VnodeNr) (r : Putnodes × Table) (hput : t.putVnode v = some r) : Step t r.2

def Reached (t : Table) : Prop := Relation.ReflTransGen Step empty t

/-- The counts of a vnode are those of the servers.  A FIFO may be mapped, and an unnamed pipe is
mapped to itself. -/
structure Exact (x : Node) (g : Inode → Nat) : Prop where
  fsCount : 0 < x.fsCount
  mapped : x.mapped.1 = 0 ∨ x.mapped.1 = pfsProcNr ∧ 0 < x.mapfsCount
  pipe : x.inode.1 = pfsProcNr → x.mapped = x.inode
  given : g = x.held

/-- Every vnode in use has exact counts. -/
def Sound (t : Table) : Prop := ∀ v, (t.vnode v).refCount ≠ 0 → Exact (t.vnode v) (t.given v)

variable {t t1 : Table} {v : VnodeNr} {x : Node} {g : Inode → Nat} {i : Inode}

theorem pfsProcNr_ne : pfsProcNr ≠ 0 := by decide

theorem Sound.set (h : Sound t) (hx : x.refCount ≠ 0 → Exact x g) : Sound (t.set v x g) := by
  intro w hw
  by_cases hwv : w = v
  · subst hwv
    simp only [set, update_self] at hw ⊢
    exact hx hw
  · simp only [Table.set, update_of_ne hwv] at hw ⊢
    exact h w hw

/-- The vnode has been given another number of references to its own inode. -/
theorem Exact.recount (h : Exact x g) {n : Nat} {m : Nat} (hm : 0 < m) :
    Exact { x with refCount := n, fsCount := m } (update g x.inode m) :=
  ⟨hm, h.mapped, h.pipe, by rw [h.given, Node.held, Node.held, update_idem]⟩

theorem Exact.own (h : Exact x g) : g x.inode = x.fsCount := by rw [h.given, Node.held, update_self]

theorem Exact.users (h : Exact x g) (n : Nat) : Exact { x with refCount := n } g :=
  ⟨h.fsCount, h.mapped, h.pipe, h.given⟩

theorem getFreeVnode_eq_some (ht1 : t.getFreeVnode = some (v, t1)) (h : Sound t) :
    Sound t1 ∧ (t1.vnode v).mapped = (0, 0) ∧ t1.given v = 0 := by
  unfold getFreeVnode at ht1
  obtain ⟨w, hw, heq⟩ := Option.map_eq_some_iff.mp ht1
  obtain ⟨rfl, rfl⟩ := Prod.mk.inj heq
  have hfree := List.find?_some hw
  simp only [decide_eq_true_eq] at hfree
  exact ⟨h.set fun hne => absurd hfree hne, by simp only [set, update_self], by simp only [set, update_self]⟩

theorem Sound.fill (h : Sound t) (hmap : (t.vnode v).mapped = (0, 0)) (hgiven : t.given v = 0) (hi : i.1 ≠ pfsProcNr) :
    Sound (t.fill v i) := by
  refine h.set fun _ => ⟨Nat.one_pos, .inl (by rw [hmap]), fun hp => absurd hp hi, ?_⟩
  rw [Node.held, hmap, if_pos rfl, give, hgiven]
  rfl

theorem Sound.newNode (h : Sound t) (hi : i.1 ≠ pfsProcNr) : Sound (t.newNode i) := by
  unfold Table.newNode
  split
  · exact h
  · rename_i ht1
    obtain ⟨h1, hmap, hgiven⟩ := getFreeVnode_eq_some ht1 h
    exact h1.fill hmap hgiven hi

theorem Sound.dupVnode (h : Sound t) (hused : (t.vnode v).refCount ≠ 0) : Sound (t.dupVnode v) :=
  h.set fun _ => (h v hused).users _

theorem Sound.advance (h : Sound t) (hi : i.1 ≠ pfsProcNr) : Sound (t.advance i) := by
  unfold Table.advance
  split
  · exact h
  · rename_i ht1
    obtain ⟨h1, hmap, hgiven⟩ := getFreeVnode_eq_some ht1 h
    split
    · rename_i w hw
      unfold findVnode at hw
      have hfound := List.find?_some hw
      simp only [decide_eq_true_eq] at hfound
      obtain ⟨hpos, rfl⟩ := hfound
      have hex := h1 w (Nat.ne_of_gt hpos)
      refine (h1.dupVnode (Nat.ne_of_gt hpos)).set fun _ => ?_
      simp only [Table.dupVnode, Table.set, give, update_self, hex.own]
      exact hex.recount (Nat.succ_pos _)
    · exact h1.fill hmap hgiven hi

theorem Sound.doPipe (h : Sound t) {nr : Nat} : Sound (t.doPipe nr) := by
  unfold Table.doPipe
  split
  · exact h
  · rename_i ht1
    obtain ⟨h1, _, hgiven⟩ := getFreeVnode_eq_some ht1 h
    refine Sound.dupVnode (h1.set fun _ => ⟨Nat.one_pos, .inr ⟨rfl, Nat.one_pos⟩, fun _ => rfl, ?_⟩) ?_
    · rw [Node.held, if_neg pfsProcNr_ne, update_idem, give, hgiven]
      rfl
    · simp only [Table.set, update_self, ne_eq, Nat.one_ne_zero, not_false_eq_true]

theorem Sound.mapVnode (h : Sound t) {nr : Nat} : Sound (t.mapVnode v nr) := by
  unfold Table.mapVnode
  split_ifs with hmap
  · exact h
  · rw [not_not] at hmap
    refine h.set fun hused => ?_
    have hex := h v hused
    have hfs : (t.vnode v).inode.1 ≠ pfsProcNr := fun hp => by
      rw [hex.pipe hp, hp] at hmap
      exact pfsProcNr_ne hmap
    have hne : (pfsProcNr, nr) ≠ (t.vnode v).inode := fun heq => hfs (heq ▸ rfl)
    refine ⟨hex.fsCount, .inr ⟨rfl, Nat.one_pos⟩, fun hp => absurd hp hfs, ?_⟩
    rw [give, hex.given, Node.held, Node.held, if_pos hmap, if_neg pfsProcNr_ne, update_of_ne hne, update_comm hne]
    rfl

theorem Sound.vnodeCleanRefs (h : Sound t) : Sound (t.vnodeCleanRefs v).2 := by
  unfold Table.vnodeCleanRefs
  dsimp only
  split_ifs with hcount
  · exact h
  · refine h.set fun hused => ?_
    have hex := h v hused
    have hput : t.reqPutnode v [((t.vnode v).inode, (t.vnode v).fsCount - 1)] = update (t.given v) (t.vnode v).inode 1 := by
      funext i
      by_cases hi : (t.vnode v).inode = i
      · subst hi
        simp only [reqPutnode, Putnodes.received, List.map_cons, List.map_nil, List.sum_cons, List.sum_nil, if_true,
          update_self, hex.own]
        omega
      · simp [reqPutnode, Putnodes.received, hi, update_of_ne (Ne.symm hi)]
    rw [hput]
    exact hex.recount Nat.one_pos

theorem Sound.putVnode (h : Sound t) {r : Putnodes × Table} (hput : t.putVnode v = some r) : Sound r.2 := by
  unfold Table.putVnode at hput
  dsimp only at hput
  split at hput
  · rename_i hmore
    have h1 := h.set (v := v) fun _ => (h v (by omega)).users ((t.vnode v).refCount - 1)
    rw [← Option.some.inj hput]
    split
    · exact h1.vnodeCleanRefs
    · exact h1
  · split at hput
    · cases hput
    · rw [← Option.some.inj hput]
      exact h.set fun hne => absurd rfl hne

theorem Reached.sound (h : Reached t) : Sound t := by
  induction h with
  | refl => exact fun _ hused => absurd rfl hused
  | tail _ hstep ih =>
    cases hstep with
    | advance i hi => exact ih.advance hi
    | newNode i hi => exact ih.newNode hi
    | doPipe nr => exact ih.doPipe
    | mapVnode v nr => exact ih.mapVnode
    | dupVnode v hused => exact ih.dupVnode hused
    | vnodeCleanRefs v => exact ih.vnodeCleanRefs
    | putVnode v r hput => exact ih.putVnode hput

/-- The requests for the last reference give back the references of the vnode, unless two inodes
at different servers have one number. -/
theorem Exact.received_iff (h : Exact x g) : (∀ i, (lastRequests x).received i = g i) ↔
    ¬ (x.mapped.1 ≠ 0 ∧ x.mapped.1 ≠ x.inode.1 ∧ x.mapped.2 = x.inode.2) := by
  rw [h.given]
  constructor
  · -- The pipe file system is not asked, and has given out a reference.
    rintro hall ⟨hmap, hfs, hnr⟩
    have hne : x.inode ≠ x.mapped := fun heq => hfs (congrArg Prod.fst heq).symm
    have hrec := hall x.mapped
    rw [lastRequests, if_neg fun hc => hc.2.1 hnr, Node.held, if_neg hmap, update_of_ne hne.symm, update_self] at hrec
    simp only [Putnodes.received, List.map_cons, List.map_nil, List.sum_cons, List.sum_nil, if_neg hne] at hrec
    have hpos := (h.mapped.resolve_left hmap).2
    omega
  · intro hgood i
    unfold lastRequests Node.held
    by_cases hmap : x.mapped.1 = 0
    · rw [if_neg fun hc => hc.1 hmap, if_pos hmap]
      simp [Putnodes.received, update_apply, eq_comm]
    · by_cases hfs : x.mapped.1 = x.inode.1
      · have hpipe := h.pipe (hfs ▸ (h.mapped.resolve_left hmap).1)
        rw [if_neg fun hc => hc.2.2 hfs, if_neg hmap, hpipe, update_idem]
        simp [Putnodes.received, update_apply, eq_comm]
      · have hnr : x.mapped.2 ≠ x.inode.2 := fun hnr => hgood ⟨hmap, hfs, hnr⟩
        rw [if_pos ⟨hmap, hnr, hfs⟩, if_neg hmap]
        have hne : x.mapped ≠ x.inode := fun heq => hfs (congrArg Prod.fst heq)
        by_cases hi : i = x.inode
        · simp [Putnodes.received, hi, hne]
        · simp [Putnodes.received, update_apply, hi, eq_comm]

/-- The last reference to a vnode gives back what the servers have given out for it, and no more,
unless the vnode is that of a FIFO and the inode that is mapped for it has the number of the FIFO.
An unnamed pipe takes one request. -/
theorem putVnode_releases_iff (h : Reached t) (hlast : (t.vnode v).refCount = 1) :
    ∃ reqs t1, t.putVnode v = some (reqs, t1) ∧
      ((∀ i, reqs.received i = t.given v i) ↔
        ¬ ((t.vnode v).mapped.1 ≠ 0 ∧ (t.vnode v).mapped.1 ≠ (t.vnode v).inode.1 ∧
          (t.vnode v).mapped.2 = (t.vnode v).inode.2)) ∧
      ((t.vnode v).inode.1 = pfsProcNr → reqs = [((t.vnode v).inode, t.given v (t.vnode v).inode)]) := by
  have hex := h.sound v (by omega)
  unfold putVnode
  dsimp only
  rw [if_neg (by omega), if_neg (by have := hex.fsCount; omega)]
  refine ⟨_, _, rfl, hex.received_iff, fun hpipe => ?_⟩
  rw [lastRequests, if_neg fun hc => hc.2.2 (congrArg Prod.fst (hex.pipe hpipe)), hex.own]

/-- A FIFO with this inode number that is open once, and the inode that is mapped for it. -/
def fifo (i j : Nat) : Table := (empty.advance (7, i)).mapVnode ⟨0, by decide⟩ j

theorem reached_fifo (i j : Nat) : Reached (fifo i j) :=
  .tail (.single (.advance (7, i) (by simp [pfsProcNr]))) (.mapVnode _ j)

theorem putVnode_releases_fifo : ∃ reqs t1, (fifo 3 5).putVnode ⟨0, by decide⟩ = some (reqs, t1) ∧
    ∀ i, reqs.received i = (fifo 3 5).given ⟨0, by decide⟩ i := by
  obtain ⟨reqs, t1, hput, hiff, _⟩ := putVnode_releases_iff (v := ⟨0, by decide⟩) (reached_fifo 3 5) (by decide +kernel)
  exact ⟨reqs, t1, hput, hiff.mpr (by decide +kernel)⟩

/-- Two inodes with the number 1: the pipe file system is not asked to take its inode back. -/
theorem fifo_same_number : Reached (fifo 1 1) ∧ ((fifo 1 1).vnode ⟨0, by decide⟩).refCount = 1 ∧
    (fifo 1 1).given ⟨0, by decide⟩ (pfsProcNr, 1) = 1 ∧
    ((fifo 1 1).putVnode ⟨0, by decide⟩).map Prod.fst = some [((7, 1), 1)] :=
  ⟨reached_fifo 1 1, by decide +kernel, by decide +kernel, by decide +kernel⟩

end Table
end Minix.Vfs.VnodeRefs
