/-
  Mfs/CacheRun.lean --- the buffer cache stands for the devices.

  What a block holds is what was last stored in a buffer for it.  A buffer that was acquired
  without being read holds nothing of the kind until it has been overwritten; such buffers
  are pending.  A buffer that is being read ahead has no device, and becomes valid only if
  no other buffer is valid for the block.  The cache keeps, over any run of calls that
  respect this, at most one valid buffer for a block, with what was stored in it, and on the
  device what was stored in the blocks without a dirty buffer.
-/
import Mathlib.Data.Finset.Basic
import Mathlib.Logic.Relation
import Minix.Mfs.Cache

set_option autoImplicit false

namespace Minix.Mfs

open Minix.Foundation Relation Function List Option

variable {dev fuel block ahead : Nat} {q q' : List BufNr} {env : DiskEnv} {pending : Finset BufNr}
  {bp x : BufNr} {onlySearch : Search}

namespace Cache

variable {α : Type} {c c' : Cache α} {stored : Nat → Nat → α}

/-! ## The sort -/

theorem swap_perm (q : Array BufNr) (i j : Nat) : (q.swapIfInBounds i j).toList.Perm q.toList := by
  rw [Array.swapIfInBounds_def]
  split
  · split
    · exact (Array.swap_perm _ _).toList
    · exact .refl _
  · exact .refl _

section

variable (key : BufNr → Nat)

theorem sift_perm (gap fuel i : Nat) (q : Array BufNr) :
    (sift key gap fuel i q).toList.Perm q.toList := by
  induction fuel generalizing i q with
  | zero => exact .refl _
  | succ fuel ih =>
    unfold sift
    split
    · split
      · exact swap_perm q i (i + gap)
      · exact (ih _ _).trans (swap_perm q i (i + gap))
    · exact .refl _

theorem sortPass_perm (gap : Nat) (q : Array BufNr) : (sortPass key gap q).toList.Perm q.toList := by
  unfold sortPass
  generalize range' gap (q.size - gap) = places
  induction places generalizing q with
  | nil => exact .refl _
  | cons j places ih => exact (ih _).trans (sift_perm key gap (j + 1) (j - gap) q)

theorem sortGaps_perm (fuel gap : Nat) (q : Array BufNr) :
    (sortGaps key fuel gap q).toList.Perm q.toList := by
  induction fuel generalizing gap q with
  | zero => exact .refl _
  | succ fuel ih =>
    unfold sortGaps
    split
    · exact .refl _
    · exact (ih _ _).trans (sortPass_perm key (gap / 3) q)

theorem sortBufs_perm (q : List BufNr) : (sortBufs key q).Perm q :=
  sortGaps_perm key _ _ q.toArray

end

/-! ## Buffers that are written -/

/-- The buffers `q` of the device are on the device now, and clean. -/
structure Flushed (dev : Nat) (q : List BufNr) (c c' : Cache α) : Prop where
  hash : c'.hash = c.hash
  lru : c'.lru = c.lru
  inUse : c'.bufsInUse = c.bufsInUse
  buf : ∀ x, c'.buf x = if x ∈ q then { c.buf x with dirt := false } else c.buf x
  written : ∀ x ∈ q, c'.disk dev (c.buf x).blocknr = (c.buf x).data
  other : ∀ d b, (∀ x ∈ q, d = dev → (c.buf x).blocknr ≠ b) → c'.disk d b = c.disk d b

theorem Flushed.refl {dev : Nat} {c : Cache α} : Flushed dev [] c c :=
  ⟨rfl, rfl, rfl, by simp, by simp, fun _ _ _ => rfl⟩

theorem Flushed.tick (h : Flushed dev q c.tick c') :
    Flushed dev q c c' := ⟨h.hash, h.lru, h.inUse, h.buf, h.written, h.other⟩

/-- Two buffers with the same block and the same contents. -/
structure SameBlock (b b' : Buf α) : Prop where
  dev : b'.dev = b.dev
  blocknr : b'.blocknr = b.blocknr
  data : b'.data = b.data

theorem SameBlock.trans {b b' b'' : Buf α} (h : SameBlock b b') (h' : SameBlock b' b'') :
    SameBlock b b'' :=
  ⟨h'.dev.trans h.dev, h'.blocknr.trans h.blocknr, h'.data.trans h.data⟩

theorem Flushed.same (h : Flushed dev q c c') (x : BufNr) : SameBlock (c.buf x) (c'.buf x) := by
  rw [h.buf]
  split <;> exact ⟨rfl, rfl, rfl⟩

theorem Flushed.count (h : Flushed dev q c c') (x : BufNr) : (c'.buf x).count = (c.buf x).count := by
  rw [h.buf]
  split <;> rfl

/-- Two lists of buffers for different blocks, one after the other. -/
theorem Flushed.append {c c1 c2 : Cache α} (h : Flushed dev q c c1) (h' : Flushed dev q' c1 c2)
    (hapart : ∀ x ∈ q, ∀ y ∈ q', (c.buf x).blocknr ≠ (c.buf y).blocknr) : Flushed dev (q ++ q') c c2 := by
  refine ⟨h'.hash.trans h.hash, h'.lru.trans h.lru, h'.inUse.trans h.inUse, ?_, ?_, ?_⟩
  · intro x
    rw [h'.buf, h.buf]
    by_cases hx : x ∈ q <;> by_cases hx' : x ∈ q' <;> simp [hx, hx']
  · intro x hx
    by_cases hx' : x ∈ q'
    · rw [← (h.same x).blocknr, h'.written x hx', (h.same x).data]
    · have hxq : x ∈ q := (mem_append.mp hx).resolve_right hx'
      rw [h'.other, h.written x hxq]
      intro y hy _
      rw [(h.same y).blocknr]
      exact (hapart x hxq y hy).symm
  · intro d b hb
    rw [h'.other, h.other]
    · intro x hx
      exact hb x (mem_append_left _ hx)
    · intro x hx
      rw [(h.same x).blocknr]
      exact hb x (mem_append_right _ hx)

theorem flushed_writeOut (dev : Nat) (c : Cache α) (bp : BufNr) : Flushed dev [bp] c (writeOut dev c bp) where
  hash := rfl
  lru := rfl
  inUse := rfl
  buf x := by
    by_cases hx : x = bp
    · subst hx
      simp [writeOut, setBuf]
    · simp [writeOut, setBuf, hx]
  written x hx := by
    obtain rfl := mem_singleton.mp hx
    simp [writeOut]
  other d b hb := by
    by_cases hd : d = dev
    · subst hd
      have hne := hb bp (by simp) rfl
      simp [writeOut, Ne.symm hne]
    · simp [writeOut, hd]

/-- The blocks of the buffers are all different. -/
def Apart (c : Cache α) (q : List BufNr) : Prop :=
  q.Pairwise fun x y => (c.buf x).blocknr ≠ (c.buf y).blocknr

theorem Apart.flushed (h : Apart c q) (hf : Flushed dev q' c c') : Apart c' q := by
  refine h.imp ?_
  intro x y hxy
  rwa [(hf.same x).blocknr, (hf.same y).blocknr]

theorem flushed_foldl (h : Apart c q) : Flushed dev q c (q.foldl (writeOut dev) c) := by
  induction q generalizing c with
  | nil => exact .refl
  | cons bp q ih =>
    obtain ⟨hfirst, hrest⟩ := pairwise_cons.mp h
    have hone := flushed_writeOut dev c bp
    refine hone.append (ih (Apart.flushed hrest hone)) ?_
    intro x hx y hy
    obtain rfl := mem_singleton.mp hx
    exact hfirst y hy

theorem nextBatch_pos {c : Cache α} (h : q ≠ []) : 0 < c.nextBatch q := by
  cases q with
  | nil => exact absurd rfl h
  | cons bp q => simp [nextBatch, batchLen, nrIoreqs]

/-- All buffers are written if the device always writes something. -/
theorem flushed_scatter (hwrites : ∀ n, 0 < env.writes n) (dev : Nat)
    (hfuel : q.length ≤ fuel) (h : Apart c q) : Flushed dev q c (scatter env dev fuel q c) := by
  induction fuel generalizing q c with
  | zero =>
    obtain rfl := length_eq_zero_iff.mp (Nat.le_zero.mp hfuel)
    exact .refl
  | succ fuel ih =>
    unfold scatter
    split
    · rename_i hnil
      rw [hnil]
      exact .refl
    · rename_i hne
      have hpos : 0 < min (c.nextBatch q) (env.writes c.clock) :=
        Nat.lt_min.mpr ⟨nextBatch_pos hne, hwrites _⟩
      generalize min (c.nextBatch q) (env.writes c.clock) = i at hpos ⊢
      have hsplit : q.take i ++ q.drop i = q := take_append_drop i q
      have hparts : Apart c (q.take i ++ q.drop i) := by rwa [hsplit]
      obtain ⟨htake, hdrop, hacross⟩ := pairwise_append.mp hparts
      have hfirst : Flushed dev (q.take i) c ((q.take i).foldl (writeOut dev) c.tick) :=
        (flushed_foldl (c := c.tick) htake).tick
      rw [if_neg (Nat.ne_of_gt hpos)]
      have hrest := ih (q := q.drop i) (by rw [length_drop]; omega) (Apart.flushed hdrop hfirst)
      have happ := hfirst.append hrest hacross
      rwa [hsplit] at happ

/-! ## The invariant -/

/-- Every buffer is on the chain of its block number, and the LRU list has the buffers that
nobody uses. -/
structure Linked (c : Cache α) : Prop where
  hash : c.hash.Filed (fun x => bufhash (c.buf x).blocknr) fun _ => True
  lru : ∃ l, c.lru.Holds l ∧ (∀ x, x ∈ l ↔ (c.buf x).count = 0#8) ∧ c.bufsInUse + l.length = nrBufs

/-- There is at most one valid buffer for a block, and it holds what was stored unless it is
pending; the device holds what was stored in a block without a dirty buffer. -/
structure Faithful (c : Cache α) (stored : Nat → Nat → α) (pending : Finset BufNr) : Prop where
  unique : ∀ x y, (c.buf x).dev ≠ noDev → (c.buf y).dev = (c.buf x).dev →
    (c.buf y).blocknr = (c.buf x).blocknr → y = x
  data : ∀ x, (c.buf x).dev ≠ noDev → x ∉ pending → (c.buf x).data = stored (c.buf x).dev (c.buf x).blocknr
  clean : ∀ x, (c.buf x).dev ≠ noDev → x ∉ pending → (c.buf x).dirt = false →
    c.disk (c.buf x).dev (c.buf x).blocknr = stored (c.buf x).dev (c.buf x).blocknr
  absent : ∀ d b, d ≠ noDev → (∀ x, (c.buf x).dev = d → (c.buf x).blocknr ≠ b) → c.disk d b = stored d b

/-- A cache in order.  Pending buffers are in use. -/
structure CacheOk (c : Cache α) (stored : Nat → Nat → α) (pending : Finset BufNr) : Prop where
  linked : Linked c
  faithful : Faithful c stored pending
  pending : ∀ x ∈ pending, (c.buf x).count ≠ 0#8 ∧ (c.buf x).dev ≠ noDev

/-- `flushall` writes all dirty buffers of the device. -/
theorem Faithful.flushall (h : Faithful c stored pending) (hwrites : ∀ n, 0 < env.writes n) (hdev : dev ≠ noDev) :
    ∃ q, (∀ x, x ∈ q ↔ (c.buf x).dirt = true ∧ (c.buf x).dev = dev) ∧ Flushed dev q c (c.flushall env dev) := by
  unfold Cache.flushall scatterBufs
  have hmem : ∀ x, x ∈ (finRange nrBufs).filter (fun bp => (c.buf bp).dirt && (c.buf bp).dev == dev) ↔
      (c.buf x).dirt = true ∧ (c.buf x).dev = dev := by
    intro x
    simp
  have hnodup : ((finRange nrBufs).filter fun bp => (c.buf bp).dirt && (c.buf bp).dev == dev).Nodup :=
    (nodup_finRange nrBufs).filter _
  generalize (finRange nrBufs).filter (fun bp => (c.buf bp).dirt && (c.buf bp).dev == dev) = q
    at hmem hnodup ⊢
  have hperm := sortBufs_perm (fun x => (c.buf x).blocknr) q
  have hmem' : ∀ x, x ∈ sortBufs (fun x => (c.buf x).blocknr) q ↔
      (c.buf x).dirt = true ∧ (c.buf x).dev = dev := fun x => hperm.mem_iff.trans (hmem x)
  refine ⟨_, hmem', flushed_scatter hwrites dev (Nat.le_of_eq hperm.length_eq) ?_⟩
  refine (hperm.nodup_iff.mpr hnodup).imp_of_mem ?_
  intro x y hx hy hne heq
  have hx' := ((hmem' x).mp hx).2
  exact hne (h.unique x y (hx' ▸ hdev) (((hmem' y).mp hy).2.trans hx'.symm) heq.symm).symm

theorem Linked.congr (h : Linked c) (hhash : c'.hash = c.hash) (hlru : c'.lru = c.lru)
    (hinUse : c'.bufsInUse = c.bufsInUse) (hblocknr : ∀ x, (c'.buf x).blocknr = (c.buf x).blocknr)
    (hcount : ∀ x, (c'.buf x).count = 0#8 ↔ (c.buf x).count = 0#8) : Linked c' where
  hash := by
    rw [hhash]
    exact h.hash.congr (fun _ => Iff.rfl) fun x _ => by rw [hblocknr]
  lru := by
    obtain ⟨l, hl, hmem, hlen⟩ := h.lru
    exact ⟨l, hlru ▸ hl, fun x => (hmem x).trans (hcount x).symm, hinUse ▸ hlen⟩

/-- Buffers keep their blocks; a valid one is as good as it was, and so is the device for a
block without a buffer. -/
theorem Faithful.congr (h : Faithful c stored pending) (hbuf : ∀ x, SameBlock (c.buf x) (c'.buf x))
    (hclean : ∀ x, (c.buf x).dev ≠ noDev → x ∉ pending → (c'.buf x).dirt = false →
      c'.disk (c.buf x).dev (c.buf x).blocknr = stored (c.buf x).dev (c.buf x).blocknr)
    (habsent : ∀ d b, (∀ x, (c.buf x).dev = d → (c.buf x).blocknr ≠ b) → c'.disk d b = c.disk d b) :
    Faithful c' stored pending where
  unique x y := by
    rw [(hbuf x).dev, (hbuf y).dev, (hbuf x).blocknr, (hbuf y).blocknr]
    exact h.unique x y
  data x := by
    rw [(hbuf x).dev, (hbuf x).blocknr, (hbuf x).data]
    exact h.data x
  clean x := by
    rw [(hbuf x).dev, (hbuf x).blocknr]
    exact hclean x
  absent d b hd hx := by
    have hx' : ∀ x, (c.buf x).dev = d → (c.buf x).blocknr ≠ b := by
      intro x
      have := hx x
      rwa [(hbuf x).dev, (hbuf x).blocknr] at this
    rw [habsent d b hx']
    exact h.absent d b hd hx'

/-- The contents do not depend on the lists and the counts. -/
theorem Faithful.same (h : Faithful c stored pending) (hdisk : c'.disk = c.disk)
    (hbuf : ∀ x, SameBlock (c.buf x) (c'.buf x)) (hdirt : ∀ x, (c'.buf x).dirt = (c.buf x).dirt) :
    Faithful c' stored pending := by
  refine h.congr hbuf ?_ fun _ _ _ => by rw [hdisk]
  intro x hdev hx hclean
  rw [hdisk]
  exact h.clean x hdev hx ((hdirt x).symm.trans hclean)

theorem Faithful.flushed (h : Faithful c stored pending) (hf : Flushed dev q c c')
    (hq : ∀ x ∈ q, (c.buf x).dev = dev) : Faithful c' stored pending := by
  refine h.congr hf.same ?_ ?_
  · intro x hx hpending hclean
    by_cases hxq : x ∈ q
    · rw [← h.data x hx hpending, hq x hxq]
      exact hf.written x hxq
    · rw [hf.buf, if_neg hxq] at hclean
      rw [hf.other, h.clean x hx hpending hclean]
      -- Another buffer for the block would be this one.
      intro y hy hd hb
      exact hxq (h.unique x y hx ((hq y hy).trans hd.symm) hb ▸ hy)
  · intro d b hx
    exact hf.other d b fun y hy hdd => hx y ((hq y hy).trans hdd.symm)

theorem CacheOk.flushed (h : CacheOk c stored pending) (hf : Flushed dev q c c')
    (hq : ∀ x ∈ q, (c.buf x).dev = dev) : CacheOk c' stored pending where
  linked := h.linked.congr hf.hash hf.lru hf.inUse (fun x => (hf.same x).blocknr)
    fun x => by rw [hf.count]
  faithful := h.faithful.flushed hf hq
  pending x hx := by
    rw [hf.count, (hf.same x).dev]
    exact h.pending x hx

theorem CacheOk.flushall (h : CacheOk c stored pending) (hwrites : ∀ n, 0 < env.writes n)
    (hdev : dev ≠ noDev) : CacheOk (c.flushall env dev) stored pending := by
  obtain ⟨q, hmem, hf⟩ := h.faithful.flushall hwrites hdev
  exact h.flushed hf fun x hx => ((hmem x).mp hx).2

/-! ## Buffers that are released -/

@[simp] theorem setBuf_buf_self (c : Cache α) (bp : BufNr) {b : Buf α} : (c.setBuf bp b).buf bp = b := by
  simp [setBuf]

theorem setBuf_buf_of_ne (c : Cache α) (b : Buf α) (h : x ≠ bp) :
    (c.setBuf bp b).buf x = c.buf x := by
  simp [setBuf, h]

/-- A property of all buffers after one is written. -/
@[elab_as_elim]
theorem setBuf_rule {b : Buf α} {P : BufNr → Buf α → Prop} (hself : P bp b)
    (hother : ∀ x, x ≠ bp → P x (c.buf x)) (x : BufNr) : P x ((c.setBuf bp b).buf x) :=
  (forall_update_iff c.buf P).mpr ⟨hself, hother⟩ x

/-- A property of all buffers after one count has changed. -/
@[elab_as_elim]
theorem setCount_rule {n : BitVec 8} {P : BufNr → Buf α → Prop} (hself : P bp { c.buf bp with count := n })
    (hother : ∀ x, x ≠ bp → P x (c.buf x)) (x : BufNr) : P x ((c.setCount bp n).buf x) :=
  setBuf_rule hself hother x

section

variable (c : Cache α) (bp : BufNr) (n : BitVec 8) (x : BufNr)

theorem setCount_block : SameBlock (c.buf x) ((c.setCount bp n).buf x) :=
  setCount_rule ⟨rfl, rfl, rfl⟩ (fun _ _ => ⟨rfl, rfl, rfl⟩) x

theorem setCount_dirt : ((c.setCount bp n).buf x).dirt = (c.buf x).dirt :=
  setCount_rule rfl (fun _ _ => rfl) x

theorem setCount_count : ((c.setCount bp n).buf x).count = if x = bp then n else (c.buf x).count :=
  setCount_rule (if_pos rfl).symm (fun _ hx => (if_neg hx).symm) x

end

/-- A buffer in use has another number of users. -/
theorem CacheOk.setCount {n : BitVec 8} (h : CacheOk c stored pending) (hold : (c.buf bp).count ≠ 0#8)
    (hnew : n ≠ 0#8) : CacheOk (c.setCount bp n) stored pending where
  linked := h.linked.congr rfl rfl rfl (fun x => (setCount_block c bp n x).blocknr)
    (setCount_rule (iff_of_false hnew hold) fun _ _ => Iff.rfl)
  faithful := h.faithful.same rfl (setCount_block c bp n) (setCount_dirt c bp n)
  pending := setCount_rule (fun hx => ⟨hnew, (h.pending bp hx).2⟩) fun x _ => h.pending x

/-- What `put_block` does: the count goes down, the buffer may go to the LRU list and may be
written. -/
theorem putBlock_cases {c : Cache α} {bp : BufNr} {t : BitVec 16} :
    ((c.buf bp).count - 1#8 ≠ 0#8 ∧ c.putBlock bp t = c.setCount bp ((c.buf bp).count - 1#8)) ∨
      ((c.buf bp).count - 1#8 = 0#8 ∧ ∃ front,
        (c.putBlock bp t = (c.setCount bp 0#8).addLru bp front ∨
          ((c.buf bp).dev ≠ noDev ∧
            c.putBlock bp t = writeOut (c.buf bp).dev ((c.setCount bp 0#8).addLru bp front).tick bp))) := by
  unfold putBlock
  by_cases hcount : (c.buf bp).count - 1#8 = 0#8
  · right
    rw [if_neg (not_not.mpr hcount), hcount]
    refine ⟨rfl, decide ((c.buf bp).dev = devRam ∨ t &&& oneShot ≠ 0#16), ?_⟩
    generalize decide ((c.buf bp).dev = devRam ∨ t &&& oneShot ≠ 0#16) = front
    split_ifs with hwrite
    · right
      refine ⟨hwrite.2.2, ?_⟩
      have hdev : (((c.setCount bp 0#8).addLru bp front).buf bp).dev = (c.buf bp).dev :=
        (setCount_block c bp 0#8 bp).dev
      unfold writeBlock
      dsimp only
      rw [hdev, if_pos hwrite.2.2]
    · exact .inl rfl
  · left
    rw [if_pos hcount]
    exact ⟨hcount, rfl⟩

/-- A buffer that becomes free goes to the LRU list. -/
theorem Linked.addLru (h : Linked c) (hcount : (c.buf bp).count ≠ 0#8)
    (front : Bool) : Linked ((c.setCount bp 0#8).addLru bp front) := by
  refine ⟨h.hash.congr (fun _ => Iff.rfl) fun x _ => ?_, ?_⟩
  · exact congrArg bufhash (setCount_block c bp 0#8 x).blocknr
  obtain ⟨l, hl, hmem, hlen⟩ := h.lru
  have hnot : bp ∉ l := fun hbp => hcount ((hmem bp).mp hbp)
  have hiff : ∀ x, (x = bp ∨ x ∈ l) ↔ ((c.setCount bp 0#8).buf x).count = 0#8 :=
    setCount_rule (by simp) fun x hx => by simp [hx, hmem]
  cases front with
  | true =>
    refine ⟨bp :: l, hl.pushFront hnot, fun x => mem_cons.trans (hiff x), ?_⟩
    show c.bufsInUse - 1 + ((bp :: l).length : Int) = nrBufs
    rw [length_cons]
    omega
  | false =>
    refine ⟨l ++ [bp], hl.pushBack hnot, fun x => ?_, ?_⟩
    · rw [mem_append, mem_singleton, or_comm]
      exact hiff x
    · show c.bufsInUse - 1 + ((l ++ [bp]).length : Int) = nrBufs
      rw [length_append, length_singleton]
      omega

/-- `put_block` of a buffer in use.  The last user of a pending buffer does not release it. -/
theorem CacheOk.putBlock (h : CacheOk c stored pending) (hcount : (c.buf bp).count ≠ 0#8)
    (hpending : bp ∈ pending → (c.buf bp).count ≠ 1#8) (t : BitVec 16) :
    CacheOk (c.putBlock bp t) stored pending := by
  rcases putBlock_cases with ⟨hmore, heq⟩ | ⟨hlast, front, hput⟩
  · rw [heq]
    exact h.setCount hcount hmore
  have hone : (c.buf bp).count = 1#8 := by
    bv_omega
  have hnot : bp ∉ pending := fun hbp => hpending hbp hone
  have hfree : CacheOk ((c.setCount bp 0#8).addLru bp front) stored pending :=
    ⟨h.linked.addLru hcount front,
      h.faithful.same rfl (setCount_block c bp 0#8) (setCount_dirt c bp 0#8),
      setCount_rule (fun hx => absurd hx hnot) fun x _ => h.pending x⟩
  rcases hput with heq | ⟨hdev, heq⟩
  · rw [heq]
    exact hfree
  · rw [heq]
    refine hfree.flushed (flushed_writeOut (c.buf bp).dev _ bp).tick ?_
    intro x hx
    obtain rfl := mem_singleton.mp hx
    exact (setCount_block c x 0#8 x).dev

/-- What `put_block` leaves of the buffers. -/
theorem putBlock_buf_of_ne (c : Cache α) (t : BitVec 16) (h : x ≠ bp) :
    (c.putBlock bp t).buf x = c.buf x := by
  have hset := fun n => setBuf_buf_of_ne c { c.buf bp with count := n } h
  rcases putBlock_cases with ⟨-, heq⟩ | ⟨-, front, heq | ⟨-, heq⟩⟩
  · rw [heq]
    exact hset _
  · rw [heq]
    exact hset _
  · rw [heq, (flushed_writeOut _ _ bp).buf, if_neg (by simpa using h)]
    exact hset _

theorem putBlock_fields (c : Cache α) (bp : BufNr) (t : BitVec 16) :
    ((c.putBlock bp t).buf bp).dev = (c.buf bp).dev ∧
      ((c.putBlock bp t).buf bp).blocknr = (c.buf bp).blocknr ∧
      ((c.putBlock bp t).buf bp).count = (c.buf bp).count - 1#8 := by
  have hblock := fun n => setCount_block c bp n bp
  have hcount : ∀ n, ((c.setCount bp n).buf bp).count = n := fun n => congrArg Buf.count (setBuf_buf_self c bp)
  rcases putBlock_cases with ⟨-, heq⟩ | ⟨hlast, front, heq | ⟨-, heq⟩⟩
  · rw [heq]
    exact ⟨(hblock _).dev, (hblock _).blocknr, hcount _⟩
  · rw [heq, hlast]
    exact ⟨(hblock _).dev, (hblock _).blocknr, hcount _⟩
  · rw [heq, hlast]
    have hout := flushed_writeOut (c.buf bp).dev ((c.setCount bp 0#8).addLru bp front).tick bp
    exact ⟨(hout.same bp).dev.trans (hblock _).dev, (hout.same bp).blocknr.trans (hblock _).blocknr,
      (hout.count bp).trans (hcount _)⟩

/-! ## Buffers that are acquired -/

theorem search_some (h : Linked c)
    (hs : c.search dev block = some bp) : (c.buf bp).dev = dev ∧ (c.buf bp).blocknr = block := by
  obtain ⟨htest, -⟩ := h.hash.find_some (by simp [nrBufs]) hs
  simp only [Bool.and_eq_true, beq_iff_eq] at htest
  exact ⟨htest.2, htest.1⟩

theorem search_none (h : Linked c) (hs : c.search dev block = none) :
    ∀ x, (c.buf x).dev = dev → (c.buf x).blocknr ≠ block := by
  intro x hdev hblock
  have htest := h.hash.find_none (by simp [nrBufs]) hs (x := x) trivial (by rw [hblock])
  simp [hdev, hblock] at htest

/-- The LRU list without a buffer on it. -/
theorem Linked.lru_remove (h : Linked c) (hfree : (c.buf bp).count = 0#8) :
    ∃ l, (c.lru.remove bp).Holds l ∧ (∀ x, x ∈ l ↔ (c.buf x).count = 0#8 ∧ x ≠ bp) ∧
      c.bufsInUse + 1 + l.length = nrBufs := by
  obtain ⟨l, hl, hmem, hlen⟩ := h.lru
  obtain ⟨lo, hi, rfl⟩ := append_of_mem ((hmem bp).mpr hfree)
  have hnodup := hl.nodup
  rw [nodup_append, nodup_cons] at hnodup
  refine ⟨lo ++ hi, hl.remove, ?_, ?_⟩
  · intro x
    rw [← hmem]
    by_cases hx : x = bp
    · subst hx
      refine iff_of_false ?_ (by simp)
      rw [mem_append]
      rintro (hlo | hhi)
      · exact hnodup.2.2 x hlo x (by simp) rfl
      · exact hnodup.2.1.1 hhi
    · simp [hx]
  · simp only [length_append, length_cons] at hlen ⊢
    omega

/-- A buffer is used that has been found. -/
theorem CacheOk.use (h : CacheOk c stored pending) (hmax : (c.buf bp).count ≠ 255#8) :
    CacheOk (c.use bp) stored pending := by
  have hcount : (c.buf bp).count + 1#8 ≠ 0#8 := by bv_omega
  unfold Cache.use
  by_cases hfree : (c.buf bp).count = 0#8
  · rw [if_pos hfree]
    obtain ⟨l, hl, hmem, hlen⟩ := h.linked.lru_remove hfree
    have hblock := setCount_block c bp ((c.buf bp).count + 1#8)
    refine ⟨⟨h.linked.hash.congr (fun _ => Iff.rfl) fun x _ => congrArg bufhash (hblock x).blocknr,
      l, hl, setCount_rule ?_ ?_, hlen⟩, h.faithful.same rfl hblock (setCount_dirt c bp _),
      setCount_rule (fun hx => ⟨hcount, (h.pending bp hx).2⟩) fun x _ => h.pending x⟩
    · exact iff_of_false (fun hin => ((hmem bp).mp hin).2 rfl) hcount
    · intro x hx
      rw [hmem]
      exact and_iff_left hx
  · rw [if_neg hfree]
    exact h.setCount hfree hcount

theorem use_buf (c : Cache α) (bp : BufNr) : (c.use bp).buf = (c.setCount bp ((c.buf bp).count + 1#8)).buf := by
  unfold Cache.use
  split <;> rfl

/-- The caches are the same but for the memory that buffers have. -/
structure SameBufs (c c' : Cache α) : Prop where
  hash : c'.hash = c.hash
  lru : c'.lru = c.lru
  inUse : c'.bufsInUse = c.bufsInUse
  disk : c'.disk = c.disk
  buf : ∀ x, { c'.buf x with allocated := true } = { c.buf x with allocated := true }

theorem SameBufs.same (h : SameBufs c c') (x : BufNr) : SameBlock (c.buf x) (c'.buf x) :=
  ⟨(congrArg Buf.dev (h.buf x) :), (congrArg Buf.blocknr (h.buf x) :), (congrArg Buf.data (h.buf x) :)⟩

theorem SameBufs.count (h : SameBufs c c') {x : BufNr} : (c'.buf x).count = (c.buf x).count :=
  (congrArg Buf.count (h.buf x) :)

theorem CacheOk.sameBufs
    (h : CacheOk c stored pending) (hs : SameBufs c c') : CacheOk c' stored pending where
  linked := h.linked.congr hs.hash hs.lru hs.inUse (fun x => (hs.same x).blocknr)
    fun x => by rw [hs.count]
  faithful := h.faithful.same hs.disk hs.same fun x => (congrArg Buf.dirt (hs.buf x) :)
  pending x hx := by
    rw [(hs.same x).dev, hs.count]
    exact h.pending x hx

/-- The search for a buffer with memory stays on the LRU list. -/
theorem withMemory_mem {p : Option BufNr} {l : List BufNr} (h : c.lru.Seg p l)
    (hw : c.withMemory fuel l.head? = some bp) : bp ∈ l := by
  induction l generalizing p fuel with
  | nil => cases fuel <;> exact absurd hw (by simp [withMemory])
  | cons n l ih =>
    cases fuel with
    | zero => exact absurd hw (by simp [withMemory])
    | succ fuel =>
      simp only [head?_cons, withMemory] at hw
      split at hw
      · exact mem_cons.mpr (.inl (some.inj hw).symm)
      · rw [h.2.1] at hw
        exact mem_cons_of_mem _ (ih h.2.2 hw)

theorem victim_spec {c c1 : Cache α} (h : Linked c)
    (hv : c.victim env = some (bp, c1)) : (c.buf bp).count = 0#8 ∧ SameBufs c c1 := by
  obtain ⟨l, hl, hmem, -⟩ := h.lru
  unfold victim at hv
  rcases hfront : c.lru.front with _ | first
  · rw [hfront] at hv
    simp at hv
  rw [hfront] at hv
  have hfirst : (c.buf first).count = 0#8 :=
    (hmem first).mp (mem_of_mem_head? (hl.front.symm.trans hfront))
  dsimp only at hv
  split at hv
  · obtain ⟨rfl, rfl⟩ := Prod.mk.inj (some.inj hv)
    exact ⟨hfirst, rfl, rfl, rfl, rfl, fun _ => rfl⟩
  split at hv
  · obtain ⟨rfl, rfl⟩ := Prod.mk.inj (some.inj hv)
    exact ⟨hfirst, rfl, rfl, rfl, rfl, setBuf_rule rfl fun _ _ => rfl⟩
  rcases hw : c.withMemory (nrBufs + 1) (some first) with _ | x
  · rw [hw] at hv
    simp at hv
  · rw [hw] at hv
    obtain ⟨rfl, rfl⟩ := Prod.mk.inj (some.inj hv)
    rw [← hfront, hl.front] at hw
    exact ⟨(hmem x).mp (withMemory_mem hl.seg hw), rfl, rfl, rfl, rfl, fun _ => rfl⟩

/-- The lists when one buffer is off them. -/
structure OffLists (c : Cache α) (bp : BufNr) : Prop where
  hash : c.hash.Filed (fun x => bufhash (c.buf x).blocknr) fun x => True ∧ x ≠ bp
  lru : ∃ l, c.lru.Holds l ∧ (∀ x, x ∈ l ↔ (c.buf x).count = 0#8 ∧ x ≠ bp) ∧
    c.bufsInUse + l.length = nrBufs

theorem Linked.offLists (h : Linked c) (hfree : (c.buf bp).count = 0#8) :
    OffLists ((c.rmLru bp).unhash bp) bp :=
  ⟨h.hash.takeOut (by simp [nrBufs]) trivial, h.lru_remove hfree⟩

theorem OffLists.flushed (h : OffLists c bp) (hf : Flushed dev q c c') : OffLists c' bp where
  hash := by
    rw [hf.hash]
    exact h.hash.congr (fun _ => Iff.rfl) fun x _ => by rw [(hf.same x).blocknr]
  lru := by
    obtain ⟨l, hl, hmem, hlen⟩ := h.lru
    refine ⟨l, hf.lru ▸ hl, ?_, hf.inUse ▸ hlen⟩
    intro x
    rw [hf.count]
    exact hmem x

/-- A buffer that is off its lists, and clean. -/
structure Evicted (c c' : Cache α) (stored : Nat → Nat → α) (pending : Finset BufNr) (bp : BufNr) : Prop where
  offLists : OffLists c' bp
  faithful : Faithful c' stored pending
  clean : (c'.buf bp).dev ≠ noDev → (c'.buf bp).dirt = false
  inUse : c'.bufsInUse = c.bufsInUse + 1
  same : ∀ x, SameBlock (c.buf x) (c'.buf x)
  count : ∀ x, (c'.buf x).count = (c.buf x).count

theorem evict_spec (h : CacheOk c stored pending) (hwrites : ∀ n, 0 < env.writes n)
    (hfree : (c.buf bp).count = 0#8) : Evicted c (c.evict env bp) stored pending bp := by
  have hoff := h.linked.offLists hfree
  have hfaithful : Faithful ((c.rmLru bp).unhash bp) stored pending :=
    h.faithful.same rfl (fun _ => ⟨rfl, rfl, rfl⟩) fun _ => rfl
  unfold evict
  dsimp only
  split
  · rename_i hdirty
    obtain ⟨q, hq, hf⟩ := hfaithful.flushall hwrites hdirty.1
    refine ⟨hoff.flushed hf, hfaithful.flushed hf fun x hx => ((hq x).mp hx).2, ?_, hf.inUse,
      hf.same, hf.count⟩
    intro _
    rw [hf.buf, if_pos ((hq bp).mpr ⟨hdirty.2, rfl⟩)]
  · rename_i hclean
    refine ⟨hoff, hfaithful, ?_, rfl, fun _ => ⟨rfl, rfl, rfl⟩, fun _ => rfl⟩
    intro hdev
    have hdirt : ¬ (c.buf bp).dirt = true := fun hd => hclean ⟨hdev, hd⟩
    exact Bool.eq_false_iff.mpr hdirt

/-- A clean buffer is used for another block. -/
theorem Faithful.replace {pending' : Finset BufNr}
    (h : Faithful c stored pending) {b : Buf α} (hbuf : c'.buf = update c.buf bp b)
    (hdisk : c'.disk = c.disk) (hnot : bp ∉ pending)
    (hclean : (c.buf bp).dev ≠ noDev → (c.buf bp).dirt = false)
    (hpending : ∀ x, x ≠ bp → (x ∈ pending' ↔ x ∈ pending))
    (hnew : b.dev ≠ noDev → ∀ x, x ≠ bp → (c.buf x).dev = b.dev → (c.buf x).blocknr ≠ b.blocknr)
    (hdata : b.dev ≠ noDev → bp ∉ pending' →
      b.data = stored b.dev b.blocknr ∧ (b.dirt = false → c.disk b.dev b.blocknr = stored b.dev b.blocknr)) :
    Faithful c' stored pending' := by
  have hset : c'.buf = (c.setBuf bp b).buf := hbuf
  constructor
  · rw [hset]
    refine setBuf_rule (fun y hdev => ?_) fun x hx y hdev => ?_
    · revert y
      exact setBuf_rule (fun _ _ => rfl) fun y hy hsame hblock => absurd hblock (hnew hdev y hy hsame)
    · revert y
      exact setBuf_rule (fun hsame hblock => absurd hblock.symm (hnew (hsame ▸ hdev) x hx hsame.symm))
        fun y _ => h.unique x y hdev
  · rw [hset]
    exact setBuf_rule (fun hdev hx' => (hdata hdev hx').1) fun x hx hdev hx' => h.data x hdev fun hp => hx' ((hpending x hx).mpr hp)
  · rw [hset, hdisk]
    exact setBuf_rule (fun hdev hx' => (hdata hdev hx').2) fun x hx hdev hx' => h.clean x hdev fun hp => hx' ((hpending x hx).mpr hp)
  · intro d blk hd habsent
    rw [hset] at habsent
    rw [hdisk]
    -- The block may be the one that the buffer was for.
    by_cases hwas : (c.buf bp).dev = d ∧ (c.buf bp).blocknr = blk
    · obtain ⟨rfl, rfl⟩ := hwas
      exact h.clean bp hd hnot (hclean hd)
    refine h.absent d blk hd fun x => ?_
    by_cases hx : x = bp
    · subst hx
      exact fun hdev hblock => hwas ⟨hdev, hblock⟩
    · have := habsent x
      rwa [setBuf_buf_of_ne c b hx] at this

/-- The buffer that `get_block` ends with when the block was not in the cache. -/
structure Fills (c c' : Cache α) (bp : BufNr) (dev block : Nat) (onlySearch : Search) (b : Buf α) : Prop where
  buf : c'.buf = update c.buf bp b
  hash : c'.hash = c.hash.fileAt (bufhash block) bp
  lru : c'.lru = c.lru
  inUse : c'.bufsInUse = c.bufsInUse
  disk : c'.disk = c.disk
  blocknr : b.blocknr = block
  count : b.count = (c.buf bp).count + 1#8
  dev_eq : b.dev = if onlySearch = .prefetch then noDev else dev
  normal : onlySearch = .normal → dev ≠ noDev → b.data = c.disk dev block ∧ b.dirt = false

theorem fills_assign {c : Cache α} {bp : BufNr} {dev block : Nat} {onlySearch : Search} :
    ∃ b, Fills c ((c.assign bp dev block).fill bp dev onlySearch) bp dev block onlySearch b := by
  have hbuf : (c.assign bp dev block).buf = update c.buf bp
      { c.buf bp with dev := dev, blocknr := block, count := (c.buf bp).count + 1#8 } := rfl
  have hhash : (c.assign bp dev block).hash = c.hash.fileAt (bufhash block) bp := by
    simp [assign, rehash, setBuf]
  have hself : (c.assign bp dev block).buf bp
      = { c.buf bp with dev := dev, blocknr := block, count := (c.buf bp).count + 1#8 } := by
    rw [hbuf, update_self]
  unfold fill
  split_ifs with hdev
  · refine ⟨_, hbuf, hhash, rfl, rfl, rfl, rfl, rfl, ?_, fun _ hne => absurd hdev hne⟩
    rw [hdev]
    split <;> rfl
  · cases onlySearch with
    | prefetch =>
      refine ⟨{ c.buf bp with dev := noDev, blocknr := block, count := (c.buf bp).count + 1#8 },
        ?_, hhash, rfl, rfl, rfl, rfl, rfl, rfl, fun h => nomatch h⟩
      simp only [setBuf, hself, hbuf, update_idem]
    | normal =>
      refine ⟨{ c.buf bp with
          data := c.disk dev block, dev := dev, blocknr := block, dirt := false,
          count := (c.buf bp).count + 1#8 }, ?_, ?_, ?_, ?_, ?_, rfl, rfl, rfl, fun _ _ => ⟨rfl, rfl⟩⟩
      all_goals simp only [readBlock, hself, if_pos (show dev ≠ noDev from hdev)]
      · simp only [setBuf, tick, hbuf, update_idem]
        rfl
      · exact hhash
      · rfl
      · rfl
      · rfl
    | noRead => exact ⟨_, hbuf, hhash, rfl, rfl, rfl, rfl, rfl, rfl, fun h => nomatch h⟩

/-- What `get_block` does: it finds the block, or takes a free buffer for it. -/
theorem getBlock_cases (h : CacheOk c stored pending) (hwrites : ∀ n, 0 < env.writes n)
    (hget : c.getBlock env dev block onlySearch = some (bp, c')) :
    (dev ≠ noDev ∧ c.search dev block = some bp ∧ c' = c.use bp) ∨
      ((dev ≠ noDev → c.search dev block = none) ∧ (c.buf bp).count = 0#8 ∧
        ∃ c1 b, Evicted c c1 stored pending bp ∧ Fills c1 c' bp dev block onlySearch b) := by
  unfold getBlock at hget
  rcases hfound : (if dev ≠ noDev then c.search dev block else none) with _ | x
  · rw [hfound] at hget
    rcases hvictim : c.victim env with _ | ⟨v, c0⟩
    · rw [hvictim] at hget
      simp at hget
    rw [hvictim] at hget
    obtain ⟨rfl, rfl⟩ := Prod.mk.inj (some.inj hget)
    obtain ⟨hfree, hsame⟩ := victim_spec h.linked hvictim
    have hfree' : (c0.buf v).count = 0#8 := (hsame.count).trans hfree
    have hevicted := evict_spec (h.sameBufs hsame) hwrites hfree'
    obtain ⟨b, hfills⟩ := fills_assign
    refine .inr ⟨?_, hfree, _, b, ⟨hevicted.offLists, hevicted.faithful, hevicted.clean,
      hevicted.inUse.trans (congrArg (· + 1) hsame.inUse),
      fun x => (hsame.same x).trans (hevicted.same x),
      fun x => (hevicted.count x).trans (hsame.count)⟩, hfills⟩
    intro hdev
    rwa [if_pos hdev] at hfound
  · rw [hfound] at hget
    obtain ⟨rfl, rfl⟩ := Prod.mk.inj (some.inj hget)
    split at hfound
    · rename_i hdev
      exact .inl ⟨hdev, hfound, rfl⟩
    · simp at hfound

/-- The pending buffers after `get_block`: one that is new and not read is. -/
def pendingAfter (c : Cache α) (pending : Finset BufNr) (dev block : Nat) (onlySearch : Search) (bp : BufNr) :
    Finset BufNr :=
  if onlySearch = .noRead ∧ dev ≠ noDev ∧ c.search dev block = none then insert bp pending else pending

theorem Linked.fills {b : Buf α}
    (h : OffLists c bp) (hf : Fills c c' bp dev block onlySearch b) (hcount : b.count ≠ 0#8) : Linked c' where
  hash := by
    have hfiled := h.hash.fileAt (n := bp) (by simp) (bufhash block)
    rw [hf.hash]
    refine hfiled.congr ?_ ?_
    · intro x
      by_cases hx : x = bp <;> simp [hx]
    intro x _
    rw [hf.buf]
    by_cases hx : x = bp
    · subst hx
      rw [update_self, update_self, hf.blocknr]
    · rw [update_of_ne hx, update_of_ne hx]
  lru := by
    obtain ⟨l, hl, hmem, hlen⟩ := h.lru
    refine ⟨l, hf.lru ▸ hl, ?_, hf.inUse ▸ hlen⟩
    intro x
    rw [hmem, hf.buf]
    by_cases hx : x = bp
    · subst hx
      rw [update_self]
      exact iff_of_false (by simp) hcount
    · simp [hx]

section

variable (h : CacheOk c stored pending) (hwrites : ∀ n, 0 < env.writes n)
include h hwrites

theorem CacheOk.getBlock (hmax : ∀ x, (c.buf x).count ≠ 255#8)
    (hget : c.getBlock env dev block onlySearch = some (bp, c')) :
    CacheOk c' stored (pendingAfter c pending dev block onlySearch bp) := by
  rcases getBlock_cases h hwrites hget with ⟨hdev, hfound, rfl⟩ | ⟨hnone, hfree, c1, b, hev, hf⟩
  · have hsame : pendingAfter c pending dev block onlySearch bp = pending := by
      simp [pendingAfter, hfound]
    rw [hsame]
    exact h.use (hmax bp)
  · have hfree1 : (c1.buf bp).count = 0#8 := (hev.count bp).trans hfree
    have hcount : b.count ≠ 0#8 := by
      rw [hf.count, hfree1]
      decide
    have hnot : bp ∉ pending := fun hp => (h.pending bp hp).1 hfree
    have hothers : ∀ x, x ≠ bp →
        (x ∈ pendingAfter c pending dev block onlySearch bp ↔ x ∈ pending) := by
      intro x hx
      unfold pendingAfter
      split
      · simp [hx]
      · exact Iff.rfl
    have hdev : b.dev ≠ noDev → dev ≠ noDev ∧ b.dev = dev ∧ onlySearch ≠ .prefetch := by
      intro hb
      rw [hf.dev_eq] at hb
      split_ifs at hb with hmode
      · exact absurd rfl hb
      · rw [hf.dev_eq, if_neg hmode]
        exact ⟨hb, rfl, hmode⟩
    have hempty : dev ≠ noDev → ∀ x, (c1.buf x).dev = dev → (c1.buf x).blocknr ≠ block := by
      intro hne x hx
      rw [(hev.same x).dev] at hx
      rw [(hev.same x).blocknr]
      exact search_none h.linked (hnone hne) x hx
    refine ⟨Linked.fills hev.offLists hf hcount, ?_, ?_⟩
    · refine hev.faithful.replace hf.buf hf.disk hnot hev.clean hothers ?_ ?_
      · intro hb x _ hx
        obtain ⟨hne, heq, -⟩ := hdev hb
        rw [hf.blocknr]
        exact hempty hne x (hx.trans heq)
      · intro hb hpend
        obtain ⟨hne, heq, hmode⟩ := hdev hb
        -- Only a block that has been read is left.
        have hnormal : onlySearch = .normal := by
          cases onlySearch with
          | normal => rfl
          | prefetch => exact absurd rfl hmode
          | noRead => exact absurd (by simp [pendingAfter, hne, hnone hne]) hpend
        obtain ⟨hdata, hdirt⟩ := hf.normal hnormal hne
        have habsent : c1.disk dev block = stored dev block := hev.faithful.absent dev block hne (hempty hne)
        rw [hdata, heq, hf.blocknr]
        exact ⟨habsent, fun _ => habsent⟩
    · intro x hx
      by_cases hxb : x = bp
      · subst hxb
        rw [hf.buf, update_self]
        refine ⟨hcount, ?_⟩
        unfold pendingAfter at hx
        split_ifs at hx with hmode
        · rw [hf.dev_eq, if_neg (by simp [hmode.1])]
          exact hmode.2.1
        · exact absurd hx hnot
      · rw [hf.buf, update_of_ne hxb, (hev.same x).dev, hev.count x]
        exact h.pending x ((hothers x hxb).mp hx)

/-- The other buffers keep their blocks. -/
theorem getBlock_other (hget : c.getBlock env dev block onlySearch = some (bp, c')) (hx : x ≠ bp) :
    (c'.buf x).dev = (c.buf x).dev ∧ (c'.buf x).blocknr = (c.buf x).blocknr ∧
      (c'.buf x).count = (c.buf x).count := by
  rcases getBlock_cases h hwrites hget with ⟨-, -, rfl⟩ | ⟨-, -, c1, b, hev, hf⟩
  · rw [use_buf]
    have hset := setCount_block c bp ((c.buf bp).count + 1#8) x
    exact ⟨hset.dev, hset.blocknr, (setCount_count c bp _ x).trans (if_neg hx)⟩
  · rw [hf.buf, update_of_ne hx]
    exact ⟨(hev.same x).dev, (hev.same x).blocknr, hev.count x⟩

/-- The buffer is for the block, and valid unless it is read ahead. -/
theorem getBlock_self (hget : c.getBlock env dev block onlySearch = some (bp, c')) :
    (dev ≠ noDev → (c'.buf bp).blocknr = block) ∧ (onlySearch ≠ .prefetch → (c'.buf bp).dev = dev) := by
  rcases getBlock_cases h hwrites hget with ⟨hdev, hfound, rfl⟩ | ⟨-, -, c1, b, hev, hf⟩
  · rw [use_buf, setCount, setBuf_buf_self]
    obtain ⟨hd, hb⟩ := search_some h.linked hfound
    exact ⟨fun _ => hb, fun _ => hd⟩
  · rw [hf.buf, update_self]
    refine ⟨fun _ => hf.blocknr, ?_⟩
    intro hmode
    rw [hf.dev_eq, if_neg hmode]

end

/-! ## Blocks that are read ahead -/

/-- Buffers that may be read ahead: in use once, for different blocks, and no buffer is valid
for these. -/
structure Prefetched (c : Cache α) (dev : Nat) (q : List BufNr) : Prop where
  dev_eq : ∀ x ∈ q, (c.buf x).dev = noDev
  count : ∀ x ∈ q, (c.buf x).count = 1#8
  apart : Apart c q
  absent : ∀ x ∈ q, ∀ y, (c.buf y).dev = dev → (c.buf y).blocknr ≠ (c.buf x).blocknr

theorem Prefetched.tail (h : Prefetched c dev (bp :: q)) : Prefetched c dev q :=
  ⟨fun x hx => h.dev_eq x (mem_cons_of_mem _ hx), fun x hx => h.count x (mem_cons_of_mem _ hx),
    (pairwise_cons.mp h.apart).2, fun x hx => h.absent x (mem_cons_of_mem _ hx)⟩

theorem Prefetched.perm (h : Prefetched c dev q) (hp : q'.Perm q) : Prefetched c dev q' where
  dev_eq x hx := h.dev_eq x (hp.mem_iff.mp hx)
  count x hx := h.count x (hp.mem_iff.mp hx)
  apart := (hp.pairwise_iff fun hne => Ne.symm hne).mpr h.apart
  absent x hx := h.absent x (hp.mem_iff.mp hx)

/-- One buffer more, for a block that is in no other. -/
theorem Prefetched.snoc (h : Prefetched c dev q)
    (hdev : (c.buf bp).dev = noDev) (hcount : (c.buf bp).count = 1#8)
    (hapart : ∀ x ∈ q, (c.buf x).blocknr ≠ (c.buf bp).blocknr)
    (habsent : ∀ y, (c.buf y).dev = dev → (c.buf y).blocknr ≠ (c.buf bp).blocknr) :
    Prefetched c dev (q ++ [bp]) := by
  refine ⟨forall_mem_append.mpr ⟨h.dev_eq, forall_mem_singleton.mpr hdev⟩,
    forall_mem_append.mpr ⟨h.count, forall_mem_singleton.mpr hcount⟩, ?_,
    forall_mem_append.mpr ⟨h.absent, forall_mem_singleton.mpr habsent⟩⟩
  refine pairwise_append.mpr ⟨h.apart, pairwise_singleton _ _, ?_⟩
  intro x hx y hy
  obtain rfl := mem_singleton.mp hy
  exact hapart x hx

/-- What the buffers that are read ahead depend on. -/
theorem Prefetched.congr (h : Prefetched c dev q)
    (hq : ∀ x ∈ q, (c'.buf x).dev = (c.buf x).dev ∧ (c'.buf x).blocknr = (c.buf x).blocknr ∧
      (c'.buf x).count = (c.buf x).count) (hvalid : ∀ y, (c'.buf y).dev = dev →
      ((c.buf y).dev = dev ∧ (c'.buf y).blocknr = (c.buf y).blocknr) ∨
        ∀ x ∈ q, (c'.buf y).blocknr ≠ (c.buf x).blocknr) : Prefetched c' dev q where
  dev_eq x hx := by
    rw [(hq x hx).1]
    exact h.dev_eq x hx
  count x hx := by
    rw [(hq x hx).2.2]
    exact h.count x hx
  apart := by
    refine h.apart.imp_of_mem ?_
    intro x y hx hy hxy
    rw [(hq x hx).2.1, (hq y hy).2.1]
    exact hxy
  absent x hx y hy := by
    rw [(hq x hx).2.1]
    rcases hvalid y hy with ⟨hdev, hblock⟩ | hne
    · rw [hblock]
      exact h.absent x hx y hdev
    · exact hne x hx

section

variable (h : Prefetched c dev (bp :: q))
include h

/-- One of the buffers is done with; the others stay as they are. -/
theorem Prefetched.step (hother : ∀ x, x ≠ bp → c'.buf x = c.buf x)
    (hblock : (c'.buf bp).blocknr = (c.buf bp).blocknr) : Prefetched c' dev q := by
  have hfirst := (pairwise_cons.mp h.apart).1
  refine h.tail.congr (fun x hx => ?_) fun y hy => ?_
  · rw [hother x fun hxb => hfirst x hx (by rw [hxb])]
    exact ⟨rfl, rfl, rfl⟩
  by_cases hyb : y = bp
  · subst hyb
    rw [hblock]
    exact .inr hfirst
  · rw [hother y hyb] at hy ⊢
    exact .inl ⟨hy, rfl⟩

theorem Prefetched.validate : Prefetched (c.validate dev bp) dev q := by
  refine h.step (fun x hx => ?_) ?_
  · exact (putBlock_buf_of_ne _ _ hx).trans (setBuf_buf_of_ne c _ hx)
  · refine (putBlock_fields _ bp _).2.1.trans ?_
    rw [setBuf_buf_self]

end

theorem CacheOk.release (h : CacheOk c stored pending) (hcount : (c.buf bp).count = 1#8)
    (hnot : bp ∉ pending) : CacheOk (c.release bp) stored pending :=
  h.putBlock (by rw [hcount]; decide) (fun hp => absurd hp hnot) partialDataBlock

/-- A block that has been read becomes valid. -/
theorem CacheOk.validate
    (h : CacheOk c stored pending) (hdev : dev ≠ noDev) (hq : Prefetched c dev (bp :: q)) :
    CacheOk (c.validate dev bp) stored pending := by
  have hnone := hq.dev_eq bp (by simp)
  have hnot : bp ∉ pending := fun hp => (h.pending bp hp).2 hnone
  have habsent := hq.absent bp (by simp)
  refine CacheOk.release ⟨h.linked.congr rfl rfl rfl ?_ ?_, ?_, ?_⟩ ?_ hnot
  · exact setBuf_rule rfl fun _ _ => rfl
  · exact setBuf_rule Iff.rfl fun _ _ => Iff.rfl
  · refine h.faithful.replace rfl rfl hnot (fun hne => absurd hnone hne) (fun _ _ => Iff.rfl)
      (fun _ x _ hx => habsent x hx) fun _ _ => ?_
    have hdisk := h.faithful.absent dev (c.buf bp).blocknr hdev habsent
    exact ⟨hdisk, fun _ => hdisk⟩
  · exact setBuf_rule (fun hx => absurd hx hnot) fun x _ => h.pending x
  · rw [setBuf_buf_self]
    exact hq.count bp (by simp)

/-- What `rw_scattered` for reading keeps: what is read becomes valid, and the rest is
released. -/
theorem gatherBufs_rule {P : Cache α → Prop} (env : DiskEnv) (htick : P c.tick)
    (hvalidate : ∀ c bp q, P c → Prefetched c dev (bp :: q) → P (c.validate dev bp))
    (hrelease : ∀ c bp q, P c → Prefetched c dev (bp :: q) → P (c.release bp))
    (hq : Prefetched c dev q) : P (c.gatherBufs env dev q) := by
  have hreleases : ∀ q c, P c → Prefetched c dev q → P (q.foldl Cache.release c) := by
    intro q
    induction q with
    | nil => exact fun _ h _ => h
    | cons bp q ih => exact fun c h hq => ih _ (hrelease c bp q h hq) (hq.step (fun _ hx => putBlock_buf_of_ne c _ hx) (putBlock_fields c bp _).2.1)
  have hvalidates : ∀ q q' c, P c → Prefetched c dev (q ++ q') →
      P (q.foldl (Cache.validate dev) c) ∧ Prefetched (q.foldl (Cache.validate dev) c) dev q' := by
    intro q q'
    induction q with
    | nil => exact fun _ h hq => ⟨h, hq⟩
    | cons bp q ih => exact fun c h hq => ih _ (hvalidate c bp _ h hq) hq.validate
  unfold Cache.gatherBufs gather
  have hsorted := hq.perm (sortBufs_perm (fun x => (c.buf x).blocknr) q)
  generalize sortBufs (fun x => (c.buf x).blocknr) q = sorted at hsorted ⊢
  generalize min (c.nextBatch sorted) (env.reads c.clock) = i
  have hparts : Prefetched c.tick dev (sorted.take i ++ sorted.drop i) := by
    rw [take_append_drop]
    exact ⟨hsorted.dev_eq, hsorted.count, hsorted.apart, hsorted.absent⟩
  obtain ⟨hok, hrest⟩ := hvalidates _ _ _ htick hparts
  exact hreleases _ _ hok hrest

/-- `rw_scattered` for reading. -/
theorem CacheOk.gatherBufs (h : CacheOk c stored pending) {env : DiskEnv} (hdev : dev ≠ noDev)
    (hq : Prefetched c dev q) : CacheOk (c.gatherBufs env dev q) stored pending := by
  refine gatherBufs_rule (P := fun c => CacheOk c stored pending) env
    (h.sameBufs ⟨rfl, rfl, rfl, rfl, fun _ => rfl⟩) (fun _ _ _ h hq => h.validate hdev hq) ?_ hq
  intro c bp q h hq
  exact h.release (hq.count bp (by simp)) fun hp => (h.pending bp hp).2 (hq.dev_eq bp (by simp))

/-- No buffer has as many users as the count can hold. -/
def Bounded (c : Cache α) : Prop := ∀ x, (c.buf x).count ≠ 255#8

theorem Bounded.putBlock (h : ∀ x, x ≠ bp → (c.buf x).count ≠ 255#8)
    (hcount : (c.buf bp).count ≠ 0#8) (t : BitVec 16) : Bounded (c.putBlock bp t) := by
  intro x
  by_cases hx : x = bp
  · subst hx
    rw [(putBlock_fields c x t).2.2]
    bv_omega
  · rw [putBlock_buf_of_ne c t hx]
    exact h x hx

theorem Bounded.gatherBufs (h : Bounded c) {env : DiskEnv} (hq : Prefetched c dev q) :
    Bounded (c.gatherBufs env dev q) := by
  have hone : ∀ {c : Cache α} {bp q}, Prefetched c dev (bp :: q) → (c.buf bp).count ≠ 0#8 := by
    intro c bp q hq
    rw [hq.count bp (by simp)]
    decide
  refine gatherBufs_rule (P := Bounded) env h (fun c bp q h hq => ?_)
    (fun c bp q h hq => Bounded.putBlock (fun x _ => h x) (hone hq) _) hq
  refine Bounded.putBlock (fun x hx => ?_) ?_ partialDataBlock
  · rw [setBuf_buf_of_ne c _ hx]
    exact h x
  · rw [setBuf_buf_self]
    exact hone hq

section

variable (hwrites : ∀ n, 0 < env.writes n) (hdev : dev ≠ noDev) (h : CacheOk c stored pending)
    (hmax : Bounded c)
include hwrites hdev h hmax

/-- A buffer is acquired to be read ahead after those in `q`: the block is in the cache, or
there is one buffer more. -/
theorem prefetch_cases (hq : Prefetched c dev q) (hbelow : ∀ x ∈ q, (c.buf x).blocknr < block)
    (hget : c.getBlock env dev block .prefetch = some (bp, c')) :
    ((c'.buf bp).dev ≠ noDev ∧ CacheOk c' stored pending ∧
        CacheOk (c'.putBlock bp fullDataBlock) stored pending ∧ Bounded (c'.putBlock bp fullDataBlock) ∧
        Prefetched (c'.putBlock bp fullDataBlock) dev q) ∨
      ((c'.buf bp).dev = noDev ∧ CacheOk c' stored pending ∧ Bounded c' ∧ Prefetched c' dev (q ++ [bp]) ∧
        (∀ x ∈ q ++ [bp], (c'.buf x).blocknr < block + 1) ∧ c'.bufsInUse = c.bufsInUse + 1) := by
  have hok := h.getBlock hwrites hmax hget
  have hblock := (getBlock_self h hwrites hget).1 hdev
  have hother := fun x (hx : x ≠ bp) => getBlock_other h hwrites hget hx
  rcases getBlock_cases h hwrites hget with ⟨-, hfound, rfl⟩ | ⟨hnone, hfree, c0, b, hev, hf⟩
  · left
    obtain ⟨hd, -⟩ := search_some h.linked hfound
    have hself := congrFun (use_buf c bp) bp
    rw [setCount, setBuf_buf_self] at hself
    have hdev1 : ((c.use bp).buf bp).dev = dev := by rw [hself, hd]
    have hcount1 : ((c.use bp).buf bp).count = (c.buf bp).count + 1#8 := by rw [hself]
    have hused : ((c.use bp).buf bp).count ≠ 0#8 := by
      have := hmax bp
      bv_omega
    have hnotq : ∀ x ∈ q, x ≠ bp := by
      rintro x hx rfl
      exact hdev (hd.symm.trans (hq.dev_eq x hx))
    refine ⟨hdev1 ▸ hdev, hok, hok.putBlock hused ?_ fullDataBlock,
      Bounded.putBlock (fun x hx => (hother x hx).2.2 ▸ hmax x) hused fullDataBlock, hq.congr ?_ ?_⟩
    · intro hp
      have hin := (h.pending bp hp).1
      bv_omega
    · intro x hx
      rw [putBlock_buf_of_ne _ _ (hnotq x hx)]
      exact hother x (hnotq x hx)
    · intro y hy
      by_cases hyb : y = bp
      · subst hyb
        right
        intro x hx
        rw [(putBlock_fields _ y fullDataBlock).2.1, hblock]
        exact Nat.ne_of_gt (hbelow x hx)
      · rw [putBlock_buf_of_ne _ _ hyb] at hy ⊢
        rw [(hother y hyb).1] at hy
        exact .inl ⟨hy, (hother y hyb).2.1⟩
  · right
    have hself : c'.buf bp = b := by rw [hf.buf, update_self]
    have hdev1 : (c'.buf bp).dev = noDev := by
      rw [hself, hf.dev_eq, if_pos rfl]
    have hcount1 : (c'.buf bp).count = 1#8 := by
      rw [hself, hf.count, (hev.count bp), hfree]
      rfl
    have hnotq : ∀ x ∈ q, x ≠ bp := by
      rintro x hx rfl
      have hone := hq.count x hx
      rw [hfree] at hone
      exact nomatch hone
    have hvalid : ∀ y, (c'.buf y).dev = dev → (c.buf y).dev = dev ∧ (c'.buf y).blocknr = (c.buf y).blocknr := by
      intro y hy
      by_cases hyb : y = bp
      · subst hyb
        exact absurd (hy.symm.trans hdev1) hdev
      · rw [(hother y hyb).1] at hy
        exact ⟨hy, (hother y hyb).2.1⟩
    have hold : Prefetched c' dev q :=
      hq.congr (fun x hx => hother x (hnotq x hx)) fun y hy => .inl (hvalid y hy)
    have hbelow1 : ∀ x ∈ q, (c'.buf x).blocknr < block := by
      intro x hx
      rw [(hother x (hnotq x hx)).2.1]
      exact hbelow x hx
    refine ⟨hdev1, hok, ?_, ?_, ?_, hf.inUse.trans hev.inUse⟩
    · intro x
      by_cases hx : x = bp
      · subst hx
        rw [hcount1]
        decide
      · rw [(hother x hx).2.2]
        exact hmax x
    · refine hold.snoc hdev1 hcount1 (fun x hx => ?_) ?_
      · rw [hblock]
        exact Nat.ne_of_lt (hbelow1 x hx)
      · intro y hy
        obtain ⟨hd, hb⟩ := hvalid y hy
        rw [hblock, hb]
        exact search_none h.linked (hnone hdev) y hd
    · intro x hx
      rcases mem_append.mp hx with hx | hx
      · exact Nat.lt_succ_of_lt (hbelow1 x hx)
      · obtain rfl := mem_singleton.mp hx
        rw [hblock]
        exact Nat.lt_succ_self _

/-- The loop of `rahead`: the buffers that it acquires may be read ahead. -/
theorem raheadLoop_spec (hq : Prefetched c dev (q ++ [bp])) (hbelow : ∀ x ∈ q ++ [bp], (c.buf x).blocknr < block + 1)
    (hloop : raheadLoop env dev fuel block ahead bp q c = some (q', c')) :
    CacheOk c' stored pending ∧ Bounded c' ∧ Prefetched c' dev q' := by
  induction fuel generalizing block ahead bp q c with
  | zero => exact absurd hloop (by simp [raheadLoop])
  | succ fuel ih =>
    unfold raheadLoop at hloop
    dsimp only at hloop
    split at hloop
    · obtain ⟨rfl, rfl⟩ := Prod.mk.inj (some.inj hloop)
      exact ⟨h, hmax, hq⟩
    split at hloop
    · obtain ⟨rfl, rfl⟩ := Prod.mk.inj (some.inj hloop)
      exact ⟨h, hmax, hq⟩
    rcases hget : c.getBlock env dev (block + 1) .prefetch with _ | ⟨bp1, c1⟩
    · rw [hget] at hloop
      simp at hloop
    rw [hget] at hloop
    dsimp only at hloop
    rcases prefetch_cases hwrites hdev h hmax hq hbelow hget with
      ⟨hdev1, -, hok, hmax1, hq1⟩ | ⟨hdev1, hok, hmax1, hq1, hbelow1, -⟩
    · rw [if_pos hdev1] at hloop
      obtain ⟨rfl, rfl⟩ := Prod.mk.inj (some.inj hloop)
      exact ⟨hok, hmax1, hq1⟩
    · rw [if_neg (not_not.mpr hdev1)] at hloop
      exact ih hok hmax1 hq1 hbelow1 hloop

end

/-- `get_block` does not fail while there is a free buffer, and memory for it. -/
theorem getBlock_isSome (h : Linked c) (hallocs : ∀ n, env.allocs n = true)
    (hfree : c.bufsInUse < nrBufs) {dev block : Nat} {onlySearch : Search} :
    (c.getBlock env dev block onlySearch).isSome := by
  unfold getBlock
  rcases (if dev ≠ noDev then c.search dev block else none) with _ | bp
  · obtain ⟨l, hl, -, hlen⟩ := h.lru
    cases l with
    | nil =>
      simp at hlen
      omega
    | cons first l =>
      have hfront : c.lru.front = some first := hl.front
      unfold victim
      rw [hfront]
      dsimp only
      by_cases halloc : (c.buf first).allocated = true
      · rw [if_pos halloc]
        rfl
      · rw [if_neg halloc, if_pos (hallocs _)]
        rfl
  · rfl

/-- The loop of `rahead` ends: it leaves four buffers free. -/
theorem raheadLoop_isSome (hwrites : ∀ n, 0 < env.writes n)
    (hallocs : ∀ n, env.allocs n = true) (hdev : dev ≠ noDev)
    (h : CacheOk c stored pending) (hmax : Bounded c) (hq : Prefetched c dev (q ++ [bp]))
    (hbelow : ∀ x ∈ q ++ [bp], (c.buf x).blocknr < block + 1)
    (hfuel : (nrBufs : Int) < c.bufsInUse + fuel) : (raheadLoop env dev fuel block ahead bp q c).isSome := by
  induction fuel generalizing block ahead bp q c with
  | zero =>
    obtain ⟨l, -, -, hlen⟩ := h.linked.lru
    omega
  | succ fuel ih =>
    unfold raheadLoop
    dsimp only
    split
    · rfl
    split
    · rfl
    obtain ⟨⟨bp1, c1⟩, hget⟩ := isSome_iff_exists.mp
      (getBlock_isSome h.linked hallocs (by omega))
    rw [hget]
    dsimp only
    rcases prefetch_cases hwrites hdev h hmax hq hbelow hget with
      ⟨hdev1, -⟩ | ⟨hdev1, hok, hmax1, hq1, hbelow1, hinUse⟩
    · rw [if_pos hdev1]
      rfl
    · rw [if_neg (not_not.mpr hdev1)]
      refine ih hok hmax1 hq1 hbelow1 ?_
      omega

theorem CacheOk.rahead {baseblock : Nat} (h : CacheOk c stored pending) (hmax : Bounded c)
    (hwrites : ∀ n, 0 < env.writes n) (hdev : dev ≠ noDev)
    (hr : c.rahead env dev baseblock ahead = some (bp, c')) : CacheOk c' stored pending := by
  unfold Cache.rahead at hr
  rcases hget : c.getBlock env dev baseblock .prefetch with _ | ⟨bp1, c1⟩
  · rw [hget] at hr
    simp at hr
  rw [hget] at hr
  dsimp only at hr
  have hnone : Prefetched c dev [] := ⟨by simp, by simp, .nil, by simp⟩
  rcases prefetch_cases hwrites hdev h hmax hnone (by simp) hget with
    ⟨hdev1, hok, -⟩ | ⟨hdev1, hok, hmax1, hq1, hbelow1, -⟩
  · rw [if_pos hdev1] at hr
    obtain ⟨rfl, rfl⟩ := Prod.mk.inj (some.inj hr)
    exact hok
  · rw [if_neg (not_not.mpr hdev1)] at hr
    rcases hloop : raheadLoop env dev nrBufs baseblock ahead bp1 [] c1 with _ | ⟨q, c2⟩
    · rw [hloop] at hr
      simp at hr
    rw [hloop] at hr
    obtain ⟨hok2, hmax2, hq2⟩ := raheadLoop_spec hwrites hdev hok hmax1 hq1 hbelow1 hloop
    have hend := (hok2.gatherBufs hdev hq2).getBlock hwrites
      (hmax2.gatherBufs hq2) hr
    have hsame : pendingAfter (c2.gatherBufs env dev q) pending dev baseblock .normal bp = pending := by
      simp [pendingAfter]
    rwa [hsame] at hend

/-! ## Blocks that are stored -/

/-- What is stored when the buffer is modified; a buffer without a device is for no block. -/
def storedAfter (c : Cache α) (stored : Nat → Nat → α) (bp : BufNr) (x : α) : Nat → Nat → α :=
  if (c.buf bp).dev = noDev then stored
  else update stored (c.buf bp).dev (update (stored (c.buf bp).dev) (c.buf bp).blocknr x)

theorem storedAfter_of_ne {c : Cache α} {stored : Nat → Nat → α} {bp : BufNr} {x : α} {d b : Nat}
    (h : (c.buf bp).dev = d → (c.buf bp).blocknr ≠ b) : storedAfter c stored bp x d b = stored d b := by
  unfold storedAfter
  split
  · rfl
  · by_cases hd : d = (c.buf bp).dev
    · subst hd
      rw [update_self, update_of_ne (h rfl).symm]
    · rw [update_of_ne hd]

theorem CacheOk.modify (h : CacheOk c stored pending) (bp : BufNr) (x : α) :
    CacheOk (c.modify bp x) (storedAfter c stored bp x) (pending.erase bp) := by
  unfold Cache.modify
  generalize hb : ({ c.buf bp with data := x, dirt := true } : Buf α) = b
  have hfields : ∀ y, ((c.setBuf bp b).buf y).dev = (c.buf y).dev ∧
      ((c.setBuf bp b).buf y).blocknr = (c.buf y).blocknr ∧ ((c.setBuf bp b).buf y).count = (c.buf y).count :=
    hb ▸ setBuf_rule ⟨rfl, rfl, rfl⟩ fun _ _ => ⟨rfl, rfl, rfl⟩
  -- Another valid buffer is for another block.
  have hapart : ∀ y, y ≠ bp → (c.buf y).dev ≠ noDev →
      storedAfter c stored bp x (c.buf y).dev (c.buf y).blocknr = stored (c.buf y).dev (c.buf y).blocknr := by
    intro y hy hdev
    refine storedAfter_of_ne ?_
    intro hd hb
    exact hy (h.faithful.unique y bp hdev hd hb).symm
  refine ⟨h.linked.congr rfl rfl rfl (fun y => (hfields y).2.1) (fun y => by rw [(hfields y).2.2]),
    ⟨?_, ?_, ?_, ?_⟩, ?_⟩
  · intro y z
    rw [(hfields y).1, (hfields z).1, (hfields y).2.1, (hfields z).2.1]
    exact h.faithful.unique y z
  · subst hb
    exact setBuf_rule (fun hdev _ => by rw [storedAfter, if_neg hdev, update_self, update_self]) fun y hyb hdev hy =>
      (h.faithful.data y hdev fun hp => hy (Finset.mem_erase.mpr ⟨hyb, hp⟩)).trans (hapart y hyb hdev).symm
  · subst hb
    exact setBuf_rule (fun _ _ hdirt => nomatch hdirt) fun y hyb hdev hy hdirt =>
      (h.faithful.clean y hdev (fun hp => hy (Finset.mem_erase.mpr ⟨hyb, hp⟩)) hdirt).trans (hapart y hyb hdev).symm
  · intro d b hd habsent
    have habsent' : ∀ y, (c.buf y).dev = d → (c.buf y).blocknr ≠ b := by
      intro y
      have := habsent y
      rwa [(hfields y).1, (hfields y).2.1] at this
    rw [storedAfter_of_ne (habsent' bp)]
    exact h.faithful.absent d b hd habsent'
  · intro y hy
    rw [(hfields y).1, (hfields y).2.2]
    exact h.pending y (Finset.mem_of_mem_erase hy)

/-! ## The start -/

theorem nrBufs_pos : 0 < nrBufs := by decide

variable (disk : Nat → Nat → α) (garbage : BufNr → α)

theorem bufPool_linked : Linked (bufPool disk garbage) where
  hash := by
    intro h
    by_cases hzero : h.val = 0
    · obtain ⟨l, hpath, hall⟩ := Links.path_inOrder nrBufs_pos (fun h : BufNr => h.val == 0) (c := h)
        (by simpa using hzero)
      refine ⟨l, hpath, ?_⟩
      intro x
      exact iff_of_true (hall x) ⟨trivial, Fin.ext hzero.symm⟩
    · refine ⟨[], if_neg (by simpa using hzero), ?_⟩
      intro x
      refine iff_of_false (by simp) ?_
      rintro ⟨-, hx⟩
      exact hzero (congrArg Fin.val hx).symm
  lru := by
    refine ⟨finRange nrBufs, DLinks.holds_inOrder _, ?_, ?_⟩
    · intro x
      exact iff_of_true (mem_finRange x) rfl
    · rw [length_finRange]
      exact Int.zero_add _

theorem bufPool_ok : CacheOk (bufPool disk garbage) disk ∅ where
  linked := bufPool_linked disk garbage
  faithful := ⟨fun _ _ h => absurd rfl h, fun _ h => absurd rfl h, fun _ h => absurd rfl h, fun _ _ _ _ => rfl⟩
  pending := by simp

end Cache

/-! ## Runs -/

/-- The cache with what has been stored in the blocks, and the buffers that were acquired
without being read and not overwritten yet. -/
structure CacheRun (α : Type) where
  cache : Cache α
  stored : Nat → Nat → α
  pending : Finset BufNr

/-- The calls of the file system. -/
inductive CacheOp (α : Type) where
  | get (dev block : Nat) (onlySearch : Search)
  | modify (bp : BufNr) (x : α)
  | put (bp : BufNr) (blockType : BitVec 16)
  | rwScattered (dev : Nat) (q : List BufNr)
  | rahead (dev baseblock blocksAhead : Nat)
  | flushall (dev : Nat)

namespace CacheRun

open Cache

variable {α : Type}

/-- The effect of a call; without one MFS has panicked. -/
def step (env : DiskEnv) (s : CacheRun α) : CacheOp α → Option (CacheRun α)
  | .get dev block onlySearch =>
      (s.cache.getBlock env dev block onlySearch).map fun (bp, c) =>
        ⟨c, s.stored, pendingAfter s.cache s.pending dev block onlySearch bp⟩
  | .modify bp x => some ⟨s.cache.modify bp x, storedAfter s.cache s.stored bp x, s.pending.erase bp⟩
  | .put bp blockType => some { s with cache := s.cache.putBlock bp blockType }
  | .rwScattered dev q => some { s with cache := s.cache.gatherBufs env dev q }
  | .rahead dev baseblock blocksAhead =>
      (s.cache.rahead env dev baseblock blocksAhead).map fun (_, c) => { s with cache := c }
  | .flushall dev => some { s with cache := s.cache.flushall env dev }

/-- How the file system uses the cache: it releases what it has acquired, and the last user
of a buffer that was acquired without being read has overwritten it; what it reads ahead has
been acquired for that, and nobody has got the block in between. -/
def Allowed (s : CacheRun α) : CacheOp α → Prop
  | .get _ _ _ => Bounded s.cache
  | .modify bp _ => (s.cache.buf bp).count ≠ 0#8
  | .put bp _ => (s.cache.buf bp).count ≠ 0#8 ∧ (bp ∈ s.pending → (s.cache.buf bp).count ≠ 1#8)
  | .rwScattered dev q => dev ≠ noDev ∧ Prefetched s.cache dev q
  | .rahead dev _ _ => dev ≠ noDev ∧ Bounded s.cache
  | .flushall dev => dev ≠ noDev

/-- A call that is allowed.  Devices write at least one block of a request. -/
def Follows (s s' : CacheRun α) : Prop :=
  ∃ env op, (∀ n, 0 < env.writes n) ∧ Allowed s op ∧ s.step env op = some s'

theorem step_ok {s s' : CacheRun α} (h : CacheOk s.cache s.stored s.pending) (hf : Follows s s') :
    CacheOk s'.cache s'.stored s'.pending := by
  obtain ⟨env, op, hwrites, hallowed, hstep⟩ := hf
  cases op with
  | get dev block onlySearch =>
    obtain ⟨⟨bp, c⟩, hget, rfl⟩ := map_eq_some_iff.mp hstep
    exact h.getBlock hwrites hallowed hget
  | modify bp x =>
    obtain rfl := some.inj hstep
    exact h.modify bp x
  | put bp blockType =>
    obtain rfl := some.inj hstep
    exact h.putBlock hallowed.1 hallowed.2 blockType
  | rwScattered dev q =>
    obtain rfl := some.inj hstep
    exact h.gatherBufs hallowed.1 hallowed.2
  | rahead dev baseblock blocksAhead =>
    obtain ⟨⟨bp, c⟩, hr, rfl⟩ := map_eq_some_iff.mp hstep
    exact h.rahead hallowed.2 hwrites hallowed.1 hr
  | flushall dev =>
    obtain rfl := some.inj hstep
    dsimp only
    exact h.flushall hwrites hallowed

/-- The start: what is on the devices counts as stored. -/
def start (disk : Nat → Nat → α) (garbage : BufNr → α) : CacheRun α := ⟨bufPool disk garbage, disk, ∅⟩

/-- A run of allowed calls. -/
def Reaches (disk : Nat → Nat → α) (garbage : BufNr → α) (s : CacheRun α) : Prop :=
  ReflTransGen Follows (start disk garbage) s

theorem Reaches.ok {disk : Nat → Nat → α} {garbage : BufNr → α} {s : CacheRun α}
    (h : Reaches disk garbage s) : CacheOk s.cache s.stored s.pending := by
  induction h with
  | refl => exact bufPool_ok disk garbage
  | tail _ hf ih => exact step_ok ih hf

/-- The cache stands for the devices.  In every state of a run: a block that is got holds
what was last stored in it, unless somebody has yet to overwrite it; at most one buffer is
valid for a block; every buffer is on exactly the chain of its block number; the LRU list
has exactly the buffers that nobody uses; and `flushall` brings to the device what was
stored. -/
theorem cache_refines_disk {disk : Nat → Nat → α} {garbage : BufNr → α} {s : CacheRun α}
    (hrun : Reaches disk garbage s) :
    (∀ env dev block bp c, (∀ n, 0 < env.writes n) → dev ≠ noDev → Bounded s.cache →
        s.cache.getBlock env dev block .normal = some (bp, c) →
        (c.buf bp).dev = dev ∧ (c.buf bp).blocknr = block ∧
          (bp ∉ s.pending → (c.buf bp).data = s.stored dev block)) ∧
      (∀ x y, (s.cache.buf x).dev ≠ noDev → (s.cache.buf y).dev = (s.cache.buf x).dev →
        (s.cache.buf y).blocknr = (s.cache.buf x).blocknr → y = x) ∧
      (∀ h, ∃ l, s.cache.hash.Path (.head h) l ∧ ∀ x, x ∈ l ↔ bufhash (s.cache.buf x).blocknr = h) ∧
      (∃ l, s.cache.lru.Holds l ∧ ∀ x, x ∈ l ↔ (s.cache.buf x).count = 0#8) ∧
      ∀ env dev, (∀ n, 0 < env.writes n) → dev ≠ noDev → ∀ block,
        (∀ x ∈ s.pending, (s.cache.buf x).dev = dev → (s.cache.buf x).blocknr ≠ block) →
        (s.cache.flushall env dev).disk dev block = s.stored dev block := by
  have hok := hrun.ok
  refine ⟨?_, hok.faithful.unique, ?_, ?_, ?_⟩
  · intro env dev block bp c hwrites hdev hmax hget
    obtain ⟨hblock, hvalid⟩ := getBlock_self hok hwrites hget
    have hbp := hvalid (by simp)
    refine ⟨hbp, hblock hdev, ?_⟩
    intro hnot
    have hok' := hok.getBlock hwrites hmax hget
    have hdata := hok'.faithful.data bp (hbp ▸ hdev) hnot
    rwa [hbp, hblock hdev] at hdata
  · intro h
    obtain ⟨l, hpath, hmem⟩ := hok.linked.hash h
    exact ⟨l, hpath, fun x => (hmem x).trans (by simp)⟩
  · obtain ⟨l, hl, hmem, -⟩ := hok.linked.lru
    exact ⟨l, hl, hmem⟩
  intro env dev hwrites hdev block hnone
  obtain ⟨q, hq, hf⟩ := hok.faithful.flushall hwrites hdev
  have hok' := hok.flushall hwrites hdev
  by_cases hcached : ∃ x, (s.cache.buf x).dev = dev ∧ (s.cache.buf x).blocknr = block
  · obtain ⟨x, hx, hb⟩ := hcached
    have hnot : x ∉ s.pending := fun hp => hnone x hp hx hb
    have hx' := (hf.same x).dev.trans hx
    have hb' := (hf.same x).blocknr.trans hb
    have hclean : ((s.cache.flushall env dev).buf x).dirt = false := by
      rw [hf.buf]
      split_ifs with hxq
      · rfl
      · exact Bool.eq_false_iff.mpr fun hd => hxq ((hq x).mpr ⟨hd, hx⟩)
    have hdisk := hok'.faithful.clean x (by rw [hx']; exact hdev) hnot hclean
    rwa [hx', hb'] at hdisk
  · push Not at hcached
    refine hok'.faithful.absent dev block hdev ?_
    intro x hx hb
    exact hcached x ((hf.same x).dev.symm.trans hx) ((hf.same x).blocknr.symm.trans hb)

/-- Nothing fails, and requests are done as a whole. -/
def willing : DiskEnv := ⟨fun _ => true, fun _ => nrIoreqs, fun _ => nrIoreqs⟩

/-- The contents of the block that a normal `get_block` returns. -/
def contents (c : Cache Nat) (dev block : Nat) : Option Nat :=
  (c.getBlock willing dev block .normal).map fun (bp, c') => (c'.buf bp).data

/-- Devices that hold zeros, in memory that does not. -/
def zeroDisk : CacheRun Nat := start (fun _ _ => 0) fun _ => 7

/-- What is stored in a block is got again. -/
theorem cache_refines_disk_stored :
    ∃ s : CacheRun Nat, Reaches (fun _ _ => 0) (fun _ => 7) s ∧ s.stored 1 5 = 3 ∧
      contents s.cache 1 5 = some 3 ∧
      (∃ l, s.cache.lru.Holds l ∧ ∀ x, x ∈ l ↔ (s.cache.buf x).count = 0#8) ∧
      (s.cache.flushall willing 1).disk 1 5 = 3 := by
  have hcalls : (zeroDisk.step willing (.get 1 5 .normal)).any fun s =>
      (s.cache.buf 0).count ≠ 0#8 ∧
        (s.step willing (.modify 0 3)).any fun s' =>
          s'.stored 1 5 = 3 ∧ contents s'.cache 1 5 = some 3 ∧ s'.pending = ∅ := by decide +kernel
  obtain ⟨s1, hget, h1⟩ := (any_eq_true _ _).mp hcalls
  obtain ⟨hused, h2⟩ := of_decide_eq_true h1
  obtain ⟨s2, hmodify, h3⟩ := (any_eq_true _ _).mp h2
  obtain ⟨hstored, hcontents, hpending⟩ := of_decide_eq_true h3
  have hpos : 0 < nrIoreqs := by decide
  have hwrites : ∀ n, 0 < willing.writes n := fun _ => hpos
  have hbounded : Bounded zeroDisk.cache := fun _ => by
    show (0#8 : BitVec 8) ≠ 255#8
    decide
  have hrun : Reaches (fun _ _ => 0) (fun _ => 7) s2 :=
    (ReflTransGen.single ⟨willing, .get 1 5 .normal, hwrites, hbounded, hget⟩).tail
      ⟨willing, .modify 0 3, hwrites, hused, hmodify⟩
  obtain ⟨-, -, -, hlru, hflush⟩ := cache_refines_disk hrun
  refine ⟨s2, hrun, hstored, hcontents, hlru, ?_⟩
  rw [hflush willing 1 hwrites (by decide) 5 (by simp [hpending]), hstored]

/-- A block that is acquired without being read and released as it is: it holds what was in
the memory, and not what is on the device. -/
theorem getBlock_noRead_garbage :
    contents zeroDisk.cache 1 5 = some 0 ∧
      ((zeroDisk.step willing (.get 1 5 .noRead)).bind (step willing · (.put 0 partialDataBlock))).any
        fun s => s.stored 1 5 = 0 ∧ contents s.cache 1 5 = some 7 := by
  decide +kernel

end CacheRun

end Minix.Mfs
