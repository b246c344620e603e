/-
  Kernel/IrqHooks.lean --- isolation of interrupt hooks.

  In order means: the list of a line has exactly the hooks that have been installed and not
  removed since, each with a bit of its own; a line in use is unmasked iff none of the bits
  is active; and the slots of hooks that are not installed are free.  `IrqOp.step` says
  which operations keep this.  A removed policy does not: the slot keeps its owner.  Nor
  does an exit, when the line of a hook is shared and idle: `rm_irq_handler` masks the line,
  and nobody unmasks it.
-/
import Minix.Kernel.Irq

set_option autoImplicit false

namespace Minix.Kernel

open Minix.Foundation Relation Function List Links

variable {k i : Nat} {x h : HookSlot} {s'' s : IrqState} {Q : IrqLine → List HookSlot}
  {hooks : List HookSlot} {bitmap : BitVec 32} {e source : Int}

namespace IrqState

variable {s s' : IrqState}

/-! ## What the lists say -/

/-- The hook is for the process with this endpoint. -/
def Owns (s : IrqState) (endpt : Int) (h : HookSlot) : Prop :=
  h ≠ timerHook ∧ (s.hook h).procNrE = endpt

instance (s : IrqState) (endpt : Int) (h : HookSlot) : Decidable (s.Owns endpt h) :=
  inferInstanceAs (Decidable (_ ∧ _))

/-- The bit of the hook is set. -/
def active (s : IrqState) (irq : IrqLine) (h : HookSlot) : Bool := isSet (s.irqActids irq) (s.hook h).id

/-- The lists of the lines are `Q`: exactly the installed hooks, with a bit each that no
other has, and no other bits are active. -/
structure IrqRep (s : IrqState) (Q : IrqLine → List HookSlot) : Prop where
  path : ∀ irq, s.links.Path (.head irq) (Q irq)
  mem : ∀ irq h, h ∈ Q irq ↔ s.installed h = some irq
  irq : ∀ irq h, h ∈ Q irq → (s.hook h).irq = irq
  bit : ∀ irq h, h ∈ Q irq → ∃ k < 32, (s.hook h).id = 1#32 <<< k
  distinct : ∀ irq h h', h ∈ Q irq → h' ∈ Q irq → (s.hook h).id = (s.hook h').id → h = h'
  actids : ∀ irq k, (s.irqActids irq).getLsbD k = true →
    ∃ h ∈ Q irq, (s.hook h).id.getLsbD k = true

/-- A line in use is unmasked iff no bit is active. -/
def MaskOk (s : IrqState) : Prop :=
  ∀ irq, (∃ h, s.installed h = some irq) → (s.masked irq = false ↔ s.irqActids irq = 0#32)

/-- The hooks in the table that are free are those that are not installed. -/
def SlotsOk (s : IrqState) : Prop :=
  ∀ h, h ≠ timerHook → ((s.hook h).procNrE = endptNone ↔ s.installed h = none)

/-- The interrupt system in order. -/
structure HooksOk (s : IrqState) : Prop where
  lists : ∃ Q, s.IrqRep Q
  mask : s.MaskOk
  slots : s.SlotsOk

theorem getLsbD_bit {j : Nat} (hk : k < 32) : (1#32 <<< k).getLsbD j = decide (j = k) := by
  by_cases hj : j < 32
  · have h := getLsbD_or_bit (0#32) (i := k) hj
    simpa using h
  · have hne : j ≠ k := by omega
    rw [BitVec.getLsbD_of_ge _ _ (by omega)]
    simp [hne]

namespace IrqRep

variable {Q : IrqLine → List HookSlot}

theorem apart (h : s.IrqRep Q) : Links.Apart Q := fun irq irq' x hx hx' =>
  Option.some.inj (((h.mem irq x).mp hx).symm.trans ((h.mem irq' x).mp hx'))

theorem id_ne_zero (h : s.IrqRep Q) {irq : IrqLine} (hx : x ∈ Q irq) : (s.hook x).id ≠ 0#32 := by
  obtain ⟨k, hk, hid⟩ := h.bit irq x hx
  intro hzero
  have hbit := congrArg (fun x : BitVec 32 => x.getLsbD k) (hid.symm.trans hzero)
  simp [getLsbD_bit hk] at hbit

/-- The bits of two hooks of a line are different. -/
theorem disjoint (h : s.IrqRep Q) {irq : IrqLine} {y : HookSlot} (hx : x ∈ Q irq)
    (hy : y ∈ Q irq) (hne : x ≠ y) : (s.hook x).id &&& (s.hook y).id = 0#32 := by
  obtain ⟨j, hj, hxid⟩ := h.bit irq x hx
  obtain ⟨k, hk, hyid⟩ := h.bit irq y hy
  have hjk : j ≠ k := by
    rintro rfl
    exact hne (h.distinct irq x y hx hy (hxid.trans hyid.symm))
  apply BitVec.eq_of_getLsbD_eq
  intro i _
  rw [hxid, hyid, BitVec.getLsbD_and, getLsbD_bit hj, getLsbD_bit hk]
  by_cases hij : i = j
  · simp [hij, hjk]
  · simp [hij]

/-- Some bit is active iff that of some hook is. -/
theorem actids_eq_zero (h : s.IrqRep Q) {irq : IrqLine} :
    s.irqActids irq = 0#32 ↔ ∀ x ∈ Q irq, s.active irq x = false := by
  constructor
  · intro hzero x hx
    rw [active, hzero]
    exact isSet_zero (h.id_ne_zero hx)
  · intro hall
    by_contra hne
    obtain ⟨k, hk⟩ := exists_getLsbD_of_ne_zero hne
    obtain ⟨x, hx, hbit⟩ := h.actids irq k hk
    obtain ⟨j, hj, hid⟩ := h.bit irq x hx
    have hset : s.active irq x = true := by
      rw [active, isSet_iff]
      intro i hi
      rw [hid, getLsbD_bit hj] at hi hbit
      have hij : i = j := by simpa using hi
      have hkj : k = j := by simpa using hbit
      rw [hij, ← hkj]
      exact hk
    exact nomatch (hall x hx).symm.trans hset

/-- Some of the hooks stay, on the same lines and with the same bits. -/
theorem shrink (h : s.IrqRep Q) {Q' : IrqLine → List HookSlot}
    (hpath : ∀ irq, s'.links.Path (.head irq) (Q' irq)) (hmem : ∀ irq x, x ∈ Q' irq ↔ s'.installed x = some irq)
    (hsub : ∀ irq x, x ∈ Q' irq → x ∈ Q irq) (hirq : ∀ x, (s'.hook x).irq = (s.hook x).irq)
    (hid : ∀ x, (s'.hook x).id = (s.hook x).id) (hact : ∀ irq k, (s'.irqActids irq).getLsbD k = true →
      ∃ x ∈ Q' irq, (s.hook x).id.getLsbD k = true) : s'.IrqRep Q' where
  path := hpath
  mem := hmem
  irq irq x hx := (hirq x).trans (h.irq irq x (hsub irq x hx))
  bit irq x hx := by rw [hid]; exact h.bit irq x (hsub irq x hx)
  distinct irq x y hx hy heq := by
    rw [hid, hid] at heq
    exact h.distinct irq x y (hsub irq x hx) (hsub irq y hy) heq
  actids irq k hk := by
    obtain ⟨x, hx, hbit⟩ := hact irq k hk
    exact ⟨x, hx, by rw [hid]; exact hbit⟩

end IrqRep

/-! ## The single functions -/

theorem links_get_setLine (s : IrqState) (line c : Ref IrqLine HookSlot) (v : Option HookSlot) :
    (s.setLine line v).links.get c = if c = line then v else s.links.get c := by
  cases line with
  | head irq => cases c <;> simp [setLine, links, Links.get, update_apply]
  | next n => cases c <;> simp [setLine, modHook, links, Links.get, update_apply, apply_ite IrqHook.next]

/-- The hooks are the same but for the links. -/
def SameHooks (s s' : IrqState) : Prop :=
  ∀ x, { s'.hook x with next := none } = { s.hook x with next := none }

namespace SameHooks

theorem id (h : SameHooks s s') (x : HookSlot) : (s'.hook x).id = (s.hook x).id :=
  (congrArg IrqHook.id (h x) :)

theorem irq (h : SameHooks s s') (x : HookSlot) : (s'.hook x).irq = (s.hook x).irq :=
  (congrArg IrqHook.irq (h x) :)

theorem procNrE (h : SameHooks s s') (x : HookSlot) : (s'.hook x).procNrE = (s.hook x).procNrE :=
  (congrArg IrqHook.procNrE (h x) :)

theorem setLine (s : IrqState) (line : Ref IrqLine HookSlot) (v : Option HookSlot) :
    SameHooks s (s.setLine line v) := by
  intro x
  cases line with
  | head irq => rfl
  | next n => by_cases h : x = n <;> simp [IrqState.setLine, modHook, h]

end SameHooks

/-- A line is unmasked iff no bit is active. -/
def MaskAt (s : IrqState) (irq : IrqLine) : Prop := s.masked irq = false ↔ s.irqActids irq = 0#32

/-- What the functions on the bits of a line do: nothing but to the bits and the mask of
this line. -/
structure OnLine (s s' : IrqState) (irq : IrqLine) : Prop where
  hook : s'.hook = s.hook
  handlers : s'.irqHandlers = s.irqHandlers
  installed : s'.installed = s.installed
  actids : ∀ irq', irq' ≠ irq → s'.irqActids irq' = s.irqActids irq'
  masked : ∀ irq', irq' ≠ irq → s'.masked irq' = s.masked irq'

namespace OnLine

variable {irq : IrqLine}

theorem refl {s : IrqState} {irq : IrqLine} : OnLine s s irq :=
  ⟨rfl, rfl, rfl, fun _ _ => rfl, fun _ _ => rfl⟩

theorem trans (h : OnLine s s' irq) (h' : OnLine s' s'' irq) : OnLine s s'' irq where
  hook := h'.hook.trans h.hook
  handlers := h'.handlers.trans h.handlers
  installed := h'.installed.trans h.installed
  actids irq' hne := (h'.actids irq' hne).trans (h.actids irq' hne)
  masked irq' hne := (h'.masked irq' hne).trans (h.masked irq' hne)

theorem modActids (s : IrqState) (irq : IrqLine) (f : BitVec 32 → BitVec 32) :
    OnLine s (s.modActids irq f) irq where
  hook := rfl
  handlers := rfl
  installed := rfl
  actids _ hne := update_of_ne hne _ _
  masked _ _ := rfl

theorem setMasked (s : IrqState) (irq : IrqLine) (m : Bool) : OnLine s (s.setMasked irq m) irq where
  hook := rfl
  handlers := rfl
  installed := rfl
  actids _ _ := rfl
  masked _ hne := update_of_ne hne _ _

theorem slots (h : OnLine s s' irq) (hs : s.SlotsOk) : s'.SlotsOk := by
  intro x hx
  rw [h.hook, h.installed]
  exact hs x hx

/-- The masks are right if that of the line is. -/
theorem mask (h : OnLine s s' irq) (hs : s.MaskOk) (hirq : s'.MaskAt irq) : s'.MaskOk := by
  rintro irq' ⟨x, hx⟩
  by_cases hne : irq' = irq
  · exact hne ▸ hirq
  · rw [h.masked irq' hne, h.actids irq' hne]
    exact hs irq' ⟨x, h.installed ▸ hx⟩

/-- The lists are kept if all active bits of the line are of its hooks. -/
theorem rep (h : OnLine s s' irq) (hs : s.IrqRep Q)
    (hact : ∀ k, (s'.irqActids irq).getLsbD k = true →
      (s.irqActids irq).getLsbD k = true ∨ ∃ x ∈ Q irq, (s.hook x).id.getLsbD k = true) :
    s'.IrqRep Q := by
  have hlinks : s'.links = s.links := by rw [links, links, h.handlers, h.hook]
  refine hs.shrink (fun irq => hlinks ▸ hs.path irq) (by rw [h.installed]; exact hs.mem) (fun _ _ hx => hx)
    (fun _ => by rw [h.hook]) (fun _ => by rw [h.hook]) fun irq' k hk => Or.elim ?_ (hs.actids irq' k) id
  by_cases hne : irq' = irq
  · subst hne
    exact hact k hk
  · exact .inl (by rw [← h.actids irq' hne]; exact hk)

end OnLine

theorem getLsbD_of_clearBits {x m : BitVec 32} (h : (clearBits x m).getLsbD k = true) :
    x.getLsbD k = true := by
  rw [clearBits, BitVec.getLsbD_and, Bool.and_eq_true] at h
  exact h.1

theorem clearBits_or_self (x m : BitVec 32) : clearBits (x ||| m) m = clearBits x m := by
  apply BitVec.eq_of_getLsbD_eq
  intro i hi
  simp only [clearBits, BitVec.getLsbD_and, BitVec.getLsbD_or, BitVec.getLsbD_not, hi]
  cases x.getLsbD i <;> cases m.getLsbD i <;> rfl

section

variable (s : IrqState) (h : HookSlot)

theorem enableIrq_onLine :
    OnLine s (s.enableIrq h) (s.hook h).irq := by
  unfold enableIrq
  dsimp only
  split
  · exact (OnLine.modActids _ _ _).trans (OnLine.setMasked _ _ _)
  · exact OnLine.modActids _ _ _

theorem enableIrq_actids :
    (s.enableIrq h).irqActids (s.hook h).irq
      = clearBits (s.irqActids (s.hook h).irq) (s.hook h).id := by
  unfold enableIrq
  dsimp only
  split <;> simp [modActids]

theorem enableIrq_maskAt
    (hmasked : s.irqActids (s.hook h).irq ≠ 0#32 → s.masked (s.hook h).irq = true) :
    (s.enableIrq h).MaskAt (s.hook h).irq := by
  unfold enableIrq MaskAt
  dsimp only
  split
  · rename_i hzero
    simp [setMasked, hzero]
  rename_i hne
  have hold : s.irqActids (s.hook h).irq ≠ 0#32 := by
    intro hzero
    refine hne ?_
    simp [modActids, hzero]
  simp [hmasked hold, hne]

theorem disableIrq_onLine :
    OnLine s (s.disableIrq h).2 (s.hook h).irq := by
  unfold disableIrq
  dsimp only
  split
  · exact OnLine.refl
  · exact (OnLine.modActids _ _ _).trans (OnLine.setMasked _ _ _)

/-- The bits after `disable_irq`. -/
theorem disableIrq_actids :
    (s.disableIrq h).2.irqActids (s.hook h).irq = s.irqActids (s.hook h).irq
      ∨ (s.disableIrq h).2.irqActids (s.hook h).irq
        = s.irqActids (s.hook h).irq ||| (s.hook h).id := by
  unfold disableIrq
  dsimp only
  split
  · exact .inl rfl
  · exact .inr (by simp [modActids])

end

/-- The hooks of a line are called one by one. -/
theorem callHandlers_spec {irq : IrqLine} {result : HookSlot → Bool}
    (hmem : ∀ x ∈ hooks, x ∈ Q irq) (hs : s.IrqRep Q) :
    OnLine s (hooks.foldl (callHandler irq result) s) irq ∧
      (hooks.foldl (callHandler irq result) s).masked irq = s.masked irq ∧
      (hooks.foldl (callHandler irq result) s).IrqRep Q := by
  induction hooks generalizing s with
  | nil => exact ⟨OnLine.refl, rfl, hs⟩
  | cons h hooks ih =>
    have hQ : h ∈ Q irq := hmem h (by simp)
    -- The handler's own line is the one that is handled.
    have hone : OnLine s (callHandler irq result s h) irq := by
      unfold callHandler
      dsimp only
      split
      · refine (OnLine.modActids s irq fun x => x ||| (s.hook h).id).trans ?_
        have hirq : ((s.modActids irq fun x => x ||| (s.hook h).id).hook h).irq = irq :=
          hs.irq irq h hQ
        rw [hirq]
        exact OnLine.modActids _ _ _
      · exact OnLine.modActids _ _ _
    have hmasked : (callHandler irq result s h).masked irq = s.masked irq := by
      unfold callHandler
      split <;> rfl
    have hrep : (callHandler irq result s h).IrqRep Q := by
      refine hone.rep hs ?_
      intro k hk
      have hor : (s.irqActids irq ||| (s.hook h).id).getLsbD k = true := by
        unfold callHandler at hk
        split at hk
        · simp only [modActids, hs.irq irq h hQ, update_self] at hk
          exact getLsbD_of_clearBits hk
        · simpa [modActids] using hk
      rw [BitVec.getLsbD_or, Bool.or_eq_true] at hor
      rcases hor with hold | hnew
      · exact .inl hold
      · exact .inr ⟨h, hQ, hnew⟩
    obtain ⟨honline, hmask, hok⟩ := ih (fun x hx => hmem x (mem_cons_of_mem _ hx)) hrep
    exact ⟨hone.trans honline, hmask.trans hmasked, hok⟩

theorem nodes_eq (hs : s.IrqRep Q) {irq : IrqLine} :
    s.links.nodes 18 (.head irq) = some (Q irq) := by
  have hpath := hs.path irq
  have hlen := hpath.length_le
  rw [Fintype.card_fin] at hlen
  exact hpath.nodes_eq (by omega)

theorem irqHandle_spec (hs : s.IrqRep Q) {irq : IrqLine} {result : HookSlot → Bool} :
    OnLine s (s.irqHandle irq result) irq ∧ (s.irqHandle irq result).IrqRep Q ∧
      (s.irqHandle irq result).MaskAt irq := by
  have honline := OnLine.setMasked s irq true
  have hrep : (s.setMasked irq true).IrqRep Q := honline.rep hs fun _ hk => .inl hk
  obtain ⟨hcalls, hmasked, hcallsRep⟩ := callHandlers_spec (fun _ hx => hx) hrep
  have htrue : (s.setMasked irq true).masked irq = true := by simp [setMasked]
  unfold irqHandle
  dsimp only
  rw [nodes_eq hrep]
  dsimp only
  generalize (Q irq).foldl (callHandler irq result) (s.setMasked irq true) = s2 at *
  split
  · rename_i hzero
    have hunmask := OnLine.setMasked s2 irq false
    refine ⟨(honline.trans hcalls).trans hunmask, hunmask.rep hcallsRep fun _ hk => .inl hk, ?_⟩
    simp [MaskAt, setMasked, hzero]
  · rename_i hne
    refine ⟨honline.trans hcalls, hcallsRep, ?_⟩
    simp [MaskAt, hmasked.trans htrue, hne]

/-! ## Installing a hook -/

theorem getLsbD_foldl_or {id : HookSlot → BitVec 32} {hooks : List HookSlot} {x : BitVec 32} {k : Nat} :
    (hooks.foldl (fun bitmap h => bitmap ||| id h) x).getLsbD k = true ↔
      x.getLsbD k = true ∨ ∃ h ∈ hooks, (id h).getLsbD k = true := by
  induction hooks generalizing x with
  | nil => simp
  | cons h hooks ih =>
    rw [foldl_cons, ih, BitVec.getLsbD_or, Bool.or_eq_true, exists_mem_cons_iff, or_assoc]

/-- There are more bits than hooks. -/
theorem exists_lowestFree (hs : s.IrqRep Q) {irq : IrqLine} :
    ∃ i < 32, lowestFree ((Q irq).foldl (fun bitmap h => bitmap ||| (s.hook h).id) 0#32) = some i ∧
      ∀ x ∈ Q irq, (s.hook x).id.getLsbD i = false := by
  rcases hfree : lowestFree ((Q irq).foldl (fun bitmap h => bitmap ||| (s.hook h).id) 0#32) with _ | i
  · exfalso
    have hused : ∀ i : Fin 32, ∃ x ∈ Q irq, (s.hook x).id.getLsbD i = true := by
      intro i
      have hbit := find?_eq_none.mp hfree i.val (mem_range.mpr i.isLt)
      rw [Bool.not_eq_true', Bool.not_eq_false, getLsbD_foldl_or] at hbit
      rcases hbit with hzero | hsome
      · simp at hzero
      · exact hsome
    choose user huser using hused
    have hinj : Injective user := by
      intro i j hij
      obtain ⟨k, hk, hid⟩ := hs.bit irq (user i) (huser i).1
      have hi := (huser i).2
      have hj := (huser j).2
      rw [← hij] at hj
      rw [hid, getLsbD_bit hk, decide_eq_true_eq] at hi hj
      exact Fin.ext (hi.trans hj.symm)
    have hcard := Fintype.card_le_of_injective user hinj
    simp at hcard
  · have hclear := find?_some hfree
    refine ⟨i, mem_range.mp (mem_of_find?_eq_some hfree), rfl, ?_⟩
    intro x hx
    rw [Bool.not_eq_true', ← Bool.not_eq_true] at hclear
    rw [← Bool.not_eq_true]
    intro hset
    exact hclear (getLsbD_foldl_or.mpr (.inr ⟨x, hx, hset⟩))

/-- What the installation of `h` on `irq` does. -/
structure Installs (s s' : IrqState) (h : HookSlot) (irq : IrqLine) : Prop where
  lists : ∃ Q, s'.IrqRep Q
  installed : s'.installed = update s.installed h (some irq)
  other : ∀ x, x ≠ h → (s'.hook x).id = (s.hook x).id ∧ (s'.hook x).procNrE = (s.hook x).procNrE
  procNrE : (s'.hook h).procNrE = (s.hook h).procNrE
  active : ∀ irq' x, s.installed x = some irq' → s'.active irq' x = s.active irq' x
  mask : s.MaskOk → s'.MaskOk

/-- The bits of the hooks of a line have no part in a bit that none of them has. -/
theorem and_bit_eq_zero {x : BitVec 32} (hi : i < 32) (h : x.getLsbD i = false) :
    x &&& 1#32 <<< i = 0#32 := by
  apply BitVec.eq_of_getLsbD_eq
  intro k _
  rw [BitVec.getLsbD_and, getLsbD_bit hi]
  by_cases hk : k = i
  · simp [hk, h]
  · simp [hk]

section Link

variable (s : IrqState) (h : HookSlot) (irq : IrqLine) (id : BitVec 32) (hooks : List HookSlot)

theorem setLine_keeps (line : Ref IrqLine HookSlot) (v : Option HookSlot) :
    (s.setLine line v).irqActids = s.irqActids ∧ (s.setLine line v).masked = s.masked ∧
      (s.setLine line v).installed = s.installed := by
  unfold setLine
  split <;> exact ⟨rfl, rfl, rfl⟩

theorem linkHook_keeps :
    (s.linkHook h irq hooks id).irqActids = s.irqActids ∧
      (s.linkHook h irq hooks id).masked = s.masked ∧
      (s.linkHook h irq hooks id).installed = update s.installed h (some irq) := by
  obtain ⟨hact, hmasked, hinst⟩ := setLine_keeps
    (s.modHook h fun r => { r with next := none, irq := irq, id := id })
    (lastRef (.head irq) hooks) (some h)
  refine ⟨hact, hmasked, ?_⟩
  simp only [linkHook, setInstalled]
  rw [hinst]
  rfl

theorem linkHook_get (c : Ref IrqLine HookSlot) :
    (s.linkHook h irq hooks id).links.get c =
      if c = Links.lastRef (.head irq) hooks then some h
      else if c = .next h then none else s.links.get c := by
  have hget := links_get_setLine
    (s.modHook h fun r => { r with next := none, irq := irq, id := id })
    (lastRef (.head irq) hooks) c (some h)
  refine hget.trans ?_
  congr 1
  cases c with
  | head irq' => simp [links, Links.get]
  | next x => by_cases hx : x = h <;> simp [modHook, links, Links.get, hx]

/-- The fields of the hooks but for the link: the owners are as before. -/
theorem linkHook_fields (x : HookSlot) :
    ((s.linkHook h irq hooks id).hook x).irq = (if x = h then irq else (s.hook x).irq) ∧
      ((s.linkHook h irq hooks id).hook x).id = (if x = h then id else (s.hook x).id) ∧
      ((s.linkHook h irq hooks id).hook x).procNrE = (s.hook x).procNrE := by
  have hsame := SameHooks.setLine (s.modHook h fun r => { r with next := none, irq := irq, id := id })
    (lastRef (.head irq) hooks) (some h)
  refine ⟨(hsame.irq x).trans ?_, (hsame.id x).trans ?_, (hsame.procNrE x).trans ?_⟩
  all_goals by_cases hx : x = h <;> simp [modHook, hx]

variable {s h irq id} {Q : IrqLine → List HookSlot}

theorem IrqRep.notMem (hs : s.IrqRep Q) (hfree : s.installed h = none) : h ∉ Q irq := by
  intro hmem
  rw [hs.mem, hfree] at hmem
  simp at hmem

theorem ne_of_installed (hfree : s.installed h = none) (hx : s.installed x = some irq) : x ≠ h := by
  rintro rfl
  exact nomatch hfree.symm.trans hx

/-- A hook that is on no line goes to the end of a line. -/
theorem linkHook_path (hs : s.IrqRep Q) (hnot : ∀ irq', h ∉ Q irq') (irq' : IrqLine) :
    (s.linkHook h irq (Q irq) id).links.Path (.head irq')
      (update Q irq (Q irq ++ [h]) irq') := by
  have hget := linkHook_get s h irq id (Q irq)
  refine (hs.path irq').link hs.apart (append_nil _).symm hnot ?_ ?_ fun c hc hch => ?_
  · rw [hget, if_pos rfl]
  · have hnext := hget (.next h)
    rw [if_neg (lastRef_head_ne irq (hnot irq)).symm, if_pos rfl] at hnext
    exact hnext
  · rw [hget, if_neg hc, if_neg hch]

theorem linkHook_rep (hs : s.IrqRep Q) (hfree : s.installed h = none) (hi : i < 32)
    (hbits : ∀ x ∈ Q irq, (s.hook x).id.getLsbD i = false) :
    (s.linkHook h irq (Q irq) (1#32 <<< i)).IrqRep (update Q irq (Q irq ++ [h])) := by
  have hnot : ∀ irq', h ∉ Q irq' := fun _ => hs.notMem hfree
  have hne : ∀ irq' x, x ∈ Q irq' → x ≠ h := by
    rintro irq' x hx rfl
    exact hnot irq' hx
  have hfields := linkHook_fields s h irq (1#32 <<< i) (Q irq)
  have hidh := (hfields h).2.1
  rw [if_pos rfl] at hidh
  have hid : ∀ irq' x, x ∈ Q irq' →
      ((s.linkHook h irq (Q irq) (1#32 <<< i)).hook x).id = (s.hook x).id := fun irq' x hx =>
    (hfields x).2.1.trans (if_neg (hne irq' x hx))
  obtain ⟨hact, _, hinst⟩ := linkHook_keeps s h irq (1#32 <<< i) (Q irq)
  have hnew : ∀ x ∈ Q irq, (s.hook x).id ≠ 1#32 <<< i := by
    intro x hx heq
    have hbit := hbits x hx
    rw [heq, getLsbD_bit hi] at hbit
    simp at hbit
  have hmem : ∀ irq' x, x ∈ update Q irq (Q irq ++ [h]) irq' ↔ x ∈ Q irq' ∨ x = h ∧ irq' = irq :=
    fun irq' x => mem_link (append_nil _).symm
  refine ⟨linkHook_path hs hnot, ?_, ?_, ?_, ?_, ?_⟩
  · intro irq' x
    rw [hmem, hinst]
    by_cases hx : x = h
    · subst hx
      simp [hnot irq', eq_comm]
    · simp [hx, hs.mem irq' x]
  · intro irq' x hx
    rw [(hfields x).1]
    rcases (hmem irq' x).mp hx with hold | ⟨rfl, rfl⟩
    · rw [if_neg (hne irq' x hold)]
      exact hs.irq irq' x hold
    · exact if_pos rfl
  · intro irq' x hx
    rcases (hmem irq' x).mp hx with hold | ⟨rfl, rfl⟩
    · rw [hid irq' x hold]
      exact hs.bit irq' x hold
    · exact ⟨i, hi, hidh⟩
  · intro irq' x y hx hy heq
    rcases (hmem irq' x).mp hx with hxold | ⟨rfl, rfl⟩
    · rw [hid irq' x hxold] at heq
      rcases (hmem irq' y).mp hy with hyold | ⟨rfl, rfl⟩
      · rw [hid irq' y hyold] at heq
        exact hs.distinct irq' x y hxold hyold heq
      · rw [hidh] at heq
        exact absurd heq (hnew x hxold)
    · rw [hidh] at heq
      rcases (hmem irq' y).mp hy with hyold | ⟨rfl, _⟩
      · rw [hid irq' y hyold] at heq
        exact absurd heq.symm (hnew y hyold)
      · rfl
  · intro irq' k hk
    rw [hact] at hk
    obtain ⟨x, hx, hbit⟩ := hs.actids irq' k hk
    refine ⟨x, (hmem irq' x).mpr (.inl hx), ?_⟩
    rw [hid irq' x hx]
    exact hbit

end Link

theorem putIrqHandler_spec (hs : s.IrqRep Q) (hfree : s.installed h = none) (irq : IrqLine) :
    Installs s (s.putIrqHandler h irq) h irq := by
  obtain ⟨i, hi, hlow, hbits⟩ := exists_lowestFree hs
  have hrep := linkHook_rep hs hfree hi hbits
  have hfields := linkHook_fields s h irq (1#32 <<< i) (Q irq)
  obtain ⟨hirqh, hidh, _⟩ := hfields h
  obtain ⟨hact, hmasked, hinst⟩ := linkHook_keeps s h irq (1#32 <<< i) (Q irq)
  unfold putIrqHandler
  rw [nodes_eq hs]
  dsimp only
  rw [if_neg (hs.notMem hfree), hlow]
  dsimp only
  generalize s.linkHook h irq (Q irq) (1#32 <<< i) = s1 at *
  have hline := enableIrq_onLine s1 h
  have hbitsAfter := enableIrq_actids s1 h
  have hmaskAt := enableIrq_maskAt s1 h
  rw [hirqh, if_pos rfl] at hline hbitsAfter hmaskAt
  rw [hidh, if_pos rfl, hact] at hbitsAfter
  rw [hact, hmasked] at hmaskAt
  refine ⟨⟨_, hline.rep hrep ?_⟩, hline.installed.trans hinst, ?_, ?_, ?_, ?_⟩
  · intro k hk
    rw [hbitsAfter] at hk
    rw [hact]
    exact .inl (getLsbD_of_clearBits hk)
  · intro x hx
    rw [hline.hook]
    exact ⟨(hfields x).2.1.trans (if_neg hx), (hfields x).2.2⟩
  · rw [hline.hook]
    exact (hfields h).2.2
  · intro irq' x hx
    have hmem : x ∈ Q irq' := (hs.mem irq' x).mpr hx
    rw [active, active, hline.hook, (hfields x).2.1, if_neg (ne_of_installed hfree hx)]
    by_cases hne : irq' = irq
    · subst hne
      rw [hbitsAfter]
      refine isSet_clearBits_of_disjoint ?_
      exact and_bit_eq_zero hi (hbits x hmem)
    · rw [hline.actids irq' hne, hact]
  · intro hmask irq' hused
    by_cases hne : irq' = irq
    · subst hne
      refine hmaskAt ?_
      -- A line with active bits has hooks already, so its mask was right before.
      intro hactive
      have huser : ∃ x, s.installed x = some irq' := by
        obtain ⟨k, hk⟩ := exists_getLsbD_of_ne_zero hactive
        obtain ⟨x, hx, _⟩ := hs.actids irq' k hk
        exact ⟨x, (hs.mem irq' x).mp hx⟩
      rw [← Bool.not_eq_false, hmask irq' huser]
      exact hactive
    · rw [hline.masked irq' hne, hline.actids irq' hne, hmasked, hact]
      refine hmask irq' ?_
      obtain ⟨x, hx⟩ := hused
      rw [hline.installed, hinst] at hx
      by_cases hxh : x = h
      · subst hxh
        rw [update_self] at hx
        exact absurd (Option.some.inj hx).symm hne
      · exact ⟨x, by rwa [update_of_ne hxh] at hx⟩

/-! ## Removing a hook -/

/-- What the removal of `h` from `irq` does: the line is masked, and the bit of the hook is
no longer active. -/
structure Removes (s s' : IrqState) (h : HookSlot) (irq : IrqLine) : Prop where
  lists : ∃ Q, s'.IrqRep Q
  hooks : SameHooks s s'
  installed : s'.installed = update s.installed h none
  masked : s'.masked = update s.masked irq true
  actids : s'.irqActids = update s.irqActids irq (clearBits (s.irqActids irq) (s.hook h).id)

/-- The state in which `rm_irq_handler` ends when it has found the hook at `line`. -/
theorem rmIrqHandler_found {h' : HookSlot} {line : Ref IrqLine HookSlot}
    (hseek : s.links.seek (fun x => (s.hook x).id == (s.hook h).id) 18 (.head (s.hook h).irq) = some line)
    (hget : s.links.get line = some h') (hid : (s.hook h).id ≠ 0#32) :
    ∃ used, s.rmIrqHandler h = { s.setLine line (s.hook h').next with
      irqUse := used, masked := update s.masked (s.hook h).irq true
      irqActids := update s.irqActids (s.hook h).irq
        (clearBits (s.irqActids (s.hook h).irq) (s.hook h).id) } := by
  have hset : (s.irqActids (s.hook h).irq ||| (s.hook h).id) &&& (s.hook h).id ≠ 0#32 := by
    have hall := isSet_or_self (s.irqActids (s.hook h).irq) (s.hook h).id
    rw [isSet, beq_iff_eq] at hall
    rw [hall]
    exact hid
  have hline : ((s.modActids (s.hook h).irq fun x => x ||| (s.hook h).id).setMasked (s.hook h).irq true).setLine line
      (s.hook h').next = { s.setLine line (s.hook h').next with
        masked := update s.masked (s.hook h).irq true
        irqActids := update s.irqActids (s.hook h).irq (s.irqActids (s.hook h).irq ||| (s.hook h).id) } := by
    cases line <;> rfl
  have hlinks : ((s.modActids (s.hook h).irq fun x => x ||| (s.hook h).id).setMasked (s.hook h).irq true).links = s.links := rfl
  unfold rmIrqHandler
  simp only [hlinks, setMasked_hook, modActids_hook, hseek, hget, hline]
  -- Whether the line has hooks left matters only for `irq_use`.
  split
  all_goals
    rw [if_pos (by simpa using hset)]
    simp only [modActids, update_self, update_idem, clearBits_or_self]
    exact ⟨_, rfl⟩

theorem rmIrqHandler_spec (hs : s.IrqRep Q)
    {irq : IrqLine} (hmem : h ∈ Q irq) : Removes s ((s.rmIrqHandler h).setInstalled h none) h irq := by
  obtain ⟨before, after, hQ⟩ := append_of_mem hmem
  have hpath := hs.path irq
  have hnodup := hpath.nodup
  have hlen := hpath.length_le
  rw [hQ] at hpath hnodup hlen
  rw [Fintype.card_fin] at hlen
  have hirq := hs.irq irq h hmem
  have hid := hs.id_ne_zero hmem
  have hbefore : ∀ x ∈ before, ((s.hook x).id == (s.hook h).id) = false := by
    intro x hx
    rw [beq_eq_false_iff_ne]
    intro heq
    have hxh := hs.distinct irq x h (by rw [hQ]; simp [hx]) hmem heq
    subst hxh
    exact (nodup_append.mp hnodup).2.2 x hx x (by simp) rfl
  have hseek : s.links.seek (fun x => (s.hook x).id == (s.hook h).id) 18 (.head irq)
      = some (lastRef (.head irq) before) := by
    refine hpath.seek_eq hbefore ?_ ?_
    · intro x hx
      simp only [head?_cons, Option.some.injEq] at hx
      simp [hx]
    · simp only [length_append, length_cons] at hlen
      omega
  have hget : s.links.get (lastRef (.head irq) before) = some h := by
    rw [hpath.get_lastRef]
    rfl
  rw [← hirq] at hseek hget
  obtain ⟨used, heq⟩ := rmIrqHandler_found hseek hget hid
  rw [heq, hirq]
  have hsame := SameHooks.setLine s (lastRef (.head irq) before) (s.hook h).next
  have hlinks := fun c => links_get_setLine s (lastRef (.head irq) before) c (s.hook h).next
  have hkeeps := (setLine_keeps s (lastRef (.head irq) before) (s.hook h).next).2.2
  refine ⟨⟨fun irq' => (Q irq').erase h, ?_⟩, hsame, by simp only [setInstalled, hkeeps], rfl, rfl⟩
  have hmem' : ∀ irq' x, x ∈ (Q irq').erase h ↔ x ≠ h ∧ x ∈ Q irq' := fun irq' x =>
    (hs.path irq').nodup.mem_erase_iff
  refine hs.shrink (fun irq' => (hs.path irq').erase hs.apart hQ ?_ fun c hc => ?_) (fun irq' x => ?_)
    (fun irq' x hx => ((hmem' irq' x).mp hx).2) hsame.irq hsame.id fun irq' k hk => ?_
  · have hskip := hlinks (lastRef (.head irq) before)
    rwa [if_pos rfl] at hskip
  · have hother := hlinks c
    rwa [if_neg hc] at hother
  · rw [hmem', hs.mem]
    show _ ↔ update (s.setLine _ _).installed h none x = _
    rw [hkeeps]
    by_cases hx : x = h <;> simp [hx]
  · change (update s.irqActids irq (clearBits (s.irqActids irq) (s.hook h).id) irq').getLsbD k = true at hk
    have hold : (s.irqActids irq').getLsbD k = true := by
      by_cases hne : irq' = irq
      · subst hne
        rw [update_self] at hk
        exact getLsbD_of_clearBits hk
      · rwa [update_of_ne hne] at hk
    obtain ⟨x, hx, hbit⟩ := hs.actids irq' k hold
    refine ⟨x, (hmem' irq' x).mpr ⟨?_, hx⟩, hbit⟩
    -- The bit of the removed hook has been cleared.
    rintro rfl
    have hline : irq' = irq := (hs.irq irq' x hx).symm.trans hirq
    subst hline
    rw [update_self, clearBits, BitVec.getLsbD_and, BitVec.getLsbD_not, hbit] at hk
    simp at hk

/-! ## Exits -/

/-- What an exit of the process `e` does: its hooks go, with their bits, and the lines they
were on are masked. -/
structure Releases (e : Int) (s s' : IrqState) : Prop where
  others : ∀ x, ¬ s.Owns e x → (s'.hook x).procNrE = (s.hook x).procNrE ∧ s'.installed x = s.installed x
  kept : ∀ x irq, s'.installed x = some irq →
    s.installed x = some irq ∧ (s'.hook x).procNrE = (s.hook x).procNrE ∧
      s'.active irq x = s.active irq x
  lines : ∀ irq, (s'.masked irq = s.masked irq ∧ s'.irqActids irq = s.irqActids irq ∧
      ∀ x, s.installed x = some irq → s'.installed x = some irq) ∨
    s'.masked irq = true ∧ ∃ x, s.Owns e x ∧ s.installed x = some irq

namespace Releases

variable {e : Int}

theorem refl {e : Int} {s : IrqState} : Releases e s s where
  others _ _ := ⟨rfl, rfl⟩
  kept _ _ h := ⟨h, rfl, rfl⟩
  lines _ := .inl ⟨rfl, rfl, fun _ h => h⟩

theorem not_owns (h : Releases e s s') (hx : ¬ s.Owns e x) : ¬ s'.Owns e x := by
  rw [Owns, (h.others x hx).1]
  exact hx

theorem trans (h : Releases e s s') (h' : Releases e s' s'') : Releases e s s'' where
  others x hx := by
    obtain ⟨hproc, hinst⟩ := h.others x hx
    obtain ⟨hproc', hinst'⟩ := h'.others x (h.not_owns hx)
    exact ⟨hproc'.trans hproc, hinst'.trans hinst⟩
  kept x irq hx := by
    obtain ⟨hinst', hproc', hact'⟩ := h'.kept x irq hx
    obtain ⟨hinst, hproc, hact⟩ := h.kept x irq hinst'
    exact ⟨hinst, hproc'.trans hproc, hact'.trans hact⟩
  lines irq := by
    rcases h'.lines irq with ⟨hmasked', hact', hall'⟩ | ⟨hmasked', x, howns, hx⟩
    · rcases h.lines irq with ⟨hmasked, hact, hall⟩ | ⟨hmasked, howner⟩
      · exact .inl ⟨hmasked'.trans hmasked, hact'.trans hact, fun x hx => hall' x (hall x hx)⟩
      · exact .inr ⟨hmasked'.trans hmasked, howner⟩
    · obtain ⟨hinst, hproc, _⟩ := h.kept x irq hx
      exact .inr ⟨hmasked', x, ⟨howns.1, hproc.symm.trans howns.2⟩, hinst⟩

end Releases

theorem IrqRep.modHook (hs : s.IrqRep Q) (h : HookSlot)
    {f : IrqHook → IrqHook} (hnext : ∀ r, (f r).next = r.next) (hirq : ∀ r, (f r).irq = r.irq)
    (hid : ∀ r, (f r).id = r.id) : (s.modHook h f).IrqRep Q := by
  have hhook : ∀ x, ((s.modHook h f).hook x).next = (s.hook x).next ∧
      ((s.modHook h f).hook x).irq = (s.hook x).irq ∧
      ((s.modHook h f).hook x).id = (s.hook x).id := by
    intro x
    by_cases hx : x = h <;> simp [IrqState.modHook, hx, hnext, hirq, hid]
  have hlinks : (s.modHook h f).links = s.links := by
    unfold links
    congr 1
    exact funext fun x => (hhook x).1
  exact hs.shrink (fun irq => hlinks ▸ hs.path irq) hs.mem (fun _ _ hx => hx) (fun x => (hhook x).2.1)
    (fun x => (hhook x).2.2) hs.actids

/-- One turn of the loop. -/
theorem releaseHook_spec (he : e ≠ endptNone)
    (hs : s.IrqRep Q) (hslots : s.SlotsOk) (hdriver : h ≠ timerHook) :
    (∃ Q', (releaseHook e s h).IrqRep Q') ∧ (releaseHook e s h).SlotsOk ∧
      Releases e s (releaseHook e s h) ∧ ¬ (releaseHook e s h).Owns e h := by
  unfold releaseHook
  split_ifs with howner
  · obtain ⟨irq, hirq⟩ : ∃ irq, s.installed h = some irq := by
      refine Option.ne_none_iff_exists'.mp ?_
      intro hnone
      exact he (howner.symm.trans ((hslots h hdriver).mpr hnone))
    have hmem : h ∈ Q irq := (hs.mem irq h).mpr hirq
    obtain ⟨⟨Q', hrep⟩, hsame, hinst, hmasked, hact⟩ := rmIrqHandler_spec hs hmem
    generalize (s.rmIrqHandler h).setInstalled h none = s1 at hrep hsame hinst hmasked hact ⊢
    have hhook : ∀ x, x ≠ h →
        (s1.modHook h fun r => { r with procNrE := endptNone }).hook x = s1.hook x := by
      intro x hx
      exact update_of_ne hx _ _
    have hself : ((s1.modHook h fun r => { r with procNrE := endptNone }).hook h).procNrE
        = endptNone := by simp [modHook]
    refine ⟨⟨Q', hrep.modHook h (fun _ => rfl) (fun _ => rfl) fun _ => rfl⟩, ?_, ?_, ?_⟩
    · intro x hx
      by_cases hxh : x = h
      · subst hxh
        simp [hself, hinst]
      · rw [hhook x hxh, hsame.procNrE, modHook_installed, hinst, update_of_ne hxh]
        exact hslots x hx
    · refine ⟨?_, ?_, ?_⟩
      · intro x hx
        have hxh : x ≠ h := by
          rintro rfl
          exact hx ⟨hdriver, howner⟩
        rw [hhook x hxh, hsame.procNrE, modHook_installed, hinst, update_of_ne hxh]
        exact ⟨rfl, rfl⟩
      · intro x irq' hx
        rw [modHook_installed, hinst] at hx
        have hxh : x ≠ h := by
          rintro rfl
          simp at hx
        rw [update_of_ne hxh] at hx
        refine ⟨hx, ?_, ?_⟩
        · rw [hhook x hxh, hsame.procNrE]
        rw [active, active, hhook x hxh, hsame.id, modHook_irqActids, hact]
        by_cases hne : irq' = irq
        · subst hne
          rw [update_self]
          refine isSet_clearBits_of_disjoint ?_
          exact hs.disjoint ((hs.mem irq' x).mpr hx) hmem hxh
        · rw [update_of_ne hne]
      · intro irq'
        by_cases hne : irq' = irq
        · right
          rw [modHook_masked, hmasked, hne, update_self]
          exact ⟨rfl, h, ⟨hdriver, howner⟩, hirq⟩
        · left
          rw [modHook_masked, modHook_irqActids, hmasked, hact, update_of_ne hne,
            update_of_ne hne]
          refine ⟨rfl, rfl, ?_⟩
          intro x hx
          rw [modHook_installed, hinst, update_of_ne, hx]
          rintro rfl
          exact hne (Option.some.inj (hx.symm.trans hirq))
    · rintro ⟨_, howns⟩
      exact he (howns.symm.trans hself)
  · exact ⟨⟨Q, hs⟩, hslots, Releases.refl, fun h => howner h.2⟩

/-- The loop over a part of the table. -/
theorem releaseHooks_fold (he : e ≠ endptNone)
    (hdriver : ∀ h ∈ hooks, h ≠ timerHook) (hs : ∃ Q, s.IrqRep Q) (hslots : s.SlotsOk) :
    (∃ Q, (hooks.foldl (releaseHook e) s).IrqRep Q) ∧ (hooks.foldl (releaseHook e) s).SlotsOk ∧
      Releases e s (hooks.foldl (releaseHook e) s) ∧
      ∀ h ∈ hooks, ¬ (hooks.foldl (releaseHook e) s).Owns e h := by
  induction hooks generalizing s with
  | nil => exact ⟨hs, hslots, Releases.refl, by simp⟩
  | cons h hooks ih =>
    obtain ⟨Q, hrep⟩ := hs
    obtain ⟨hrep', hslots', hrel, hgone⟩ := releaseHook_spec he hrep hslots (hdriver h (by simp))
    obtain ⟨hrep'', hslots'', hrel', hrest⟩ :=
      ih (fun x hx => hdriver x (mem_cons_of_mem _ hx)) hrep' hslots'
    refine ⟨hrep'', hslots'', hrel.trans hrel', ?_⟩
    intro x hx
    rcases mem_cons.mp hx with rfl | hx
    · exact hrel'.not_owns hgone
    · exact hrest x hx

end IrqState

/-! ## Isolation, masks and slots -/

/-- The condition on a step.  A policy is not removed, and when a process exits that shares
a line, a hook that stays on the line is active. -/
def SafeIrqOp (s : IrqState) : IrqOp → Prop
  | .request source (.rmPolicy hookId) => ∀ h, s.ownHook source hookId ≠ .ok h
  | .exit endpt =>
      ∀ irq, (∃ h, s.installed h = some irq ∧ s.Owns endpt h) →
        (∃ h, s.installed h = some irq ∧ ¬ s.Owns endpt h) →
        ∃ h, s.installed h = some irq ∧ ¬ s.Owns endpt h ∧ s.active irq h = true
  | _ => True

instance (s : IrqState) (op : IrqOp) : Decidable (SafeIrqOp s op) := by
  unfold SafeIrqOp
  split <;> infer_instance

/-- The hooks of other processes than the one that an operation is for stay installed, and
neither become active nor cease to be. -/
def Isolated (s : IrqState) (op : IrqOp) : Prop :=
  ∀ e, op.actor = some e → ∀ h irq, s.installed h = some irq → ¬ s.Owns e h →
    (op.run s).installed h = some irq ∧ (op.run s).active irq h = s.active irq h

namespace IrqState

variable {s : IrqState}

section

variable (hs : s.HooksOk)
include hs

theorem HooksOk.maskAt {irq : IrqLine} (h : s.installed h = some irq) : s.MaskAt irq := hs.mask irq ⟨_, h⟩

/-- A hook that a request may name is installed on its line. -/
theorem ownHook_ok {hookId : Int} (hown : s.ownHook source hookId = .ok h) :
    s.Owns source h ∧ s.installed h = some (s.hook h).irq ∧ (s.hook h).procNrE ≠ endptNone := by
  unfold ownHook at hown
  rcases haddr : hookAddr (hookId - 1) with _ | x
  · rw [haddr] at hown
    simp at hown
  rw [haddr] at hown
  dsimp only at hown
  split at hown
  · simp at hown
  rename_i hnone
  split at hown
  · simp at hown
  rename_i howner
  obtain rfl : x = h := by simpa using hown
  have hdriver := hookAddr_ne_timer haddr
  obtain ⟨irq, hirq⟩ : ∃ irq, s.installed x = some irq := by
    refine Option.ne_none_iff_exists'.mp ?_
    intro hinst
    exact hnone ((hs.slots x hdriver).mpr hinst)
  obtain ⟨Q, hrep⟩ := hs.lists
  have hline := hrep.irq irq x ((hrep.mem irq x).mpr hirq)
  exact ⟨⟨hdriver, not_ne_iff.mp howner⟩, hirq.trans (by rw [hline]), hnone⟩

/-- A request of the owner of `h` that changes no bits of the line but those of `h`. -/
theorem ownLine_step {s' : IrqState} {hookId : Int} (hown : s.ownHook source hookId = .ok h)
    (hline : OnLine s s' (s.hook h).irq)
    (hbits : ∀ k, (s'.irqActids (s.hook h).irq).getLsbD k = true →
      (s.irqActids (s.hook h).irq).getLsbD k = true ∨ (s.hook h).id.getLsbD k = true)
    (hmask : s'.MaskAt (s.hook h).irq) (hact : ∀ m, m &&& (s.hook h).id = 0#32 →
      isSet (s'.irqActids (s.hook h).irq) m = isSet (s.irqActids (s.hook h).irq) m) :
    s'.HooksOk ∧ ∀ e, some source = some e → ∀ x irq, s.installed x = some irq → ¬ s.Owns e x →
      s'.installed x = some irq ∧ s'.active irq x = s.active irq x := by
  obtain ⟨howns, hinst, _⟩ := ownHook_ok hs hown
  obtain ⟨Q, hrep⟩ := hs.lists
  have hmem : h ∈ Q (s.hook h).irq := (hrep.mem _ h).mpr hinst
  refine ⟨⟨⟨Q, hline.rep hrep fun k hk => ?_⟩, hline.mask hs.mask hmask, hline.slots hs.slots⟩, ?_⟩
  · exact (hbits k hk).imp_right fun hnew => ⟨h, hmem, hnew⟩
  rintro _ ⟨⟩ x irq hx hnot
  have hne : x ≠ h := by
    rintro rfl
    exact hnot howns
  refine ⟨hline.installed ▸ hx, ?_⟩
  rw [active, active, hline.hook]
  by_cases hirq : irq = (s.hook h).irq
  · subst hirq
    exact hact _ (hrep.disjoint ((hrep.mem _ x).mpr hx) hmem hne)
  · rw [hline.actids irq hirq]

theorem enable_step {source hookId : Int} :
    (IrqOp.run s (.request source (.enable hookId))).HooksOk ∧
      Isolated s (.request source (.enable hookId)) := by
  unfold Isolated
  dsimp only [IrqOp.run, doIrqctl]
  rcases hown : s.ownHook source hookId with r | h
  · exact ⟨hs, fun _ _ h irq hh _ => ⟨hh, rfl⟩⟩
  have hact := enableIrq_actids s h
  refine ownLine_step hs hown (enableIrq_onLine s h) ?_ (enableIrq_maskAt s h ?_) ?_
  · intro k hk
    rw [hact] at hk
    exact .inl (getLsbD_of_clearBits hk)
  · intro hne
    rw [← Bool.not_eq_false]
    exact fun hunmasked => hne ((hs.maskAt (ownHook_ok hs hown).2.1).mp hunmasked)
  · intro m hm
    rw [hact]
    exact isSet_clearBits_of_disjoint hm

theorem disable_step {source hookId : Int} :
    (IrqOp.run s (.request source (.disable hookId))).HooksOk ∧
      Isolated s (.request source (.disable hookId)) := by
  unfold Isolated
  dsimp only [IrqOp.run, doIrqctl]
  rcases hown : s.ownHook source hookId with r | h
  · exact ⟨hs, fun _ _ h irq hh _ => ⟨hh, rfl⟩⟩
  obtain ⟨_, hinst, _⟩ := ownHook_ok hs hown
  obtain ⟨Q, hrep⟩ := hs.lists
  have hid := hrep.id_ne_zero ((hrep.mem _ h).mpr hinst)
  refine ownLine_step hs hown (disableIrq_onLine s h) ?_ ?_ ?_
  · intro k hk
    rcases disableIrq_actids s h with hact | hact
    · exact .inl (hact ▸ hk)
    · rwa [hact, BitVec.getLsbD_or, Bool.or_eq_true] at hk
  · unfold disableIrq
    dsimp only
    split
    · exact hs.maskAt hinst
    · simp [MaskAt, setMasked, modActids, or_ne_zero hid]
  · intro m hm
    rcases disableIrq_actids s h with hact | hact
    · rw [hact]
    · rw [hact]
      exact isSet_or_of_disjoint hm

theorem interrupt_step {irq : IrqLine} {result : HookSlot → Bool} :
    (IrqOp.run s (.interrupt irq result)).HooksOk := by
  obtain ⟨Q, hrep⟩ := hs.lists
  obtain ⟨hline, hrep', hmask⟩ := irqHandle_spec hrep
  exact ⟨⟨Q, hrep'⟩, hline.mask hs.mask hmask, hline.slots hs.slots⟩

end

/-- IRQ_SETPOLICY takes a free slot, or changes nothing. -/
theorem setPolicy_cases (s : IrqState) (source irqVec notifyId policy : Int) (grant : IrqGrant) :
    (s.setPolicy source irqVec notifyId policy grant).2.2 = s ∨
      ∃ h irq, h ≠ timerHook ∧ (s.hook h).procNrE = endptNone ∧
        (s.setPolicy source irqVec notifyId policy grant).2.2
          = (s.modHook h fun r =>
              { r with procNrE := source, notifyId := notifyId, policy := policy }).putIrqHandler h irq := by
  unfold setPolicy
  split
  · split
    · exact .inl rfl
    rcases hfind : irqHooks.find? fun h => (s.hook h).procNrE == endptNone with _ | h
    · exact .inl rfl
    · dsimp only
      split
      · exact .inl rfl
      · refine .inr ⟨h, _, mem_irqHooks.mp (mem_of_find?_eq_some hfind), ?_, rfl⟩
        simpa using find?_some hfind
  · exact .inl rfl

theorem setPolicy_step (hs : s.HooksOk) (hsource : source ≠ endptNone)
    (irqVec notifyId policy : Int) (grant : IrqGrant) :
    (IrqOp.run s (.request source (.setPolicy irqVec notifyId policy grant))).HooksOk ∧
      Isolated s (.request source (.setPolicy irqVec notifyId policy grant)) := by
  unfold Isolated
  simp only [IrqOp.run, doIrqctl]
  rcases setPolicy_cases s source irqVec notifyId policy grant with heq | ⟨h, irq, hdriver, hfree, heq⟩
  · rw [heq]
    exact ⟨hs, fun _ _ h irq hh _ => ⟨hh, rfl⟩⟩
  rw [heq]
  obtain ⟨Q, hrep⟩ := hs.lists
  have hnone : s.installed h = none := (hs.slots h hdriver).mp hfree
  have hrep1 := hrep.modHook h
    (f := fun r => { r with procNrE := source, notifyId := notifyId, policy := policy })
    (fun _ => rfl) (fun _ => rfl) fun _ => rfl
  have hput := putIrqHandler_spec hrep1 (h := h) hnone irq
  refine ⟨⟨hput.lists, hput.mask hs.mask, ?_⟩, ?_⟩
  · intro x hx
    rw [hput.installed]
    by_cases hxh : x = h
    · subst hxh
      rw [hput.procNrE]
      simp [modHook, hsource]
    · rw [(hput.other x hxh).2]
      simpa [modHook, hxh] using hs.slots x hx
  · intro e _ x irq' hx _
    have hxh := ne_of_installed hnone hx
    refine ⟨?_, ?_⟩
    · rw [hput.installed, update_of_ne hxh]
      exact hx
    · rw [hput.active irq' x hx]
      simp [active, modHook, hxh]

/-- A policy that is removed leaves the slot with its owner. -/
theorem rmPolicy_step (hs : s.HooksOk) {hookId : Int} :
    ((IrqOp.run s (.request source (.rmPolicy hookId))).HooksOk ↔
        ∀ h, s.ownHook source hookId ≠ .ok h) ∧
      ((∀ h, s.ownHook source hookId ≠ .ok h) → Isolated s (.request source (.rmPolicy hookId))) := by
  unfold Isolated
  dsimp only [IrqOp.run, doIrqctl]
  rcases hown : s.ownHook source hookId with r | h
  · exact ⟨⟨fun _ => by simp, fun _ => hs⟩, fun _ _ _ h irq hh _ => ⟨hh, rfl⟩⟩
  obtain ⟨howns, hinst, hproc⟩ := ownHook_ok hs hown
  obtain ⟨Q, hrep⟩ := hs.lists
  have hrm := rmIrqHandler_spec hrep ((hrep.mem _ h).mpr hinst)
  refine ⟨⟨?_, fun hnot => absurd rfl (hnot h)⟩, fun hnot => absurd rfl (hnot h)⟩
  intro hok
  have hslot := hok.slots h howns.1
  rw [hrm.hooks.procNrE, hrm.installed, update_self] at hslot
  exact absurd (hslot.mpr rfl) hproc

theorem exit_step (hs : s.HooksOk) (he : e ≠ endptNone) :
    ((IrqOp.run s (.exit e)).HooksOk ↔ SafeIrqOp s (.exit e)) ∧ Isolated s (.exit e) := by
  obtain ⟨⟨Q, hrep⟩, hslots, hrel, hgone⟩ :=
    releaseHooks_fold he (fun h hh => mem_irqHooks.mp hh) hs.lists hs.slots
  rw [← releaseHooks] at *
  have hother : ∀ x irq, (s.releaseHooks e).installed x = some irq → ¬ s.Owns e x := by
    rintro x irq hx ⟨hdriver, howner⟩
    exact hgone x (mem_irqHooks.mpr hdriver) ⟨hdriver, (hrel.kept x irq hx).2.1.trans howner⟩
  refine ⟨⟨?_, ?_⟩, ?_⟩
  · -- A line without active hooks that has been masked is not unmasked again.
    rintro hok irq ⟨x, hx, howns⟩ ⟨z, hz, hnot⟩
    by_contra hidle
    push Not at hidle
    have hz' : (s.releaseHooks e).installed z = some irq := (hrel.others z hnot).2.trans hz
    have hzero : (s.releaseHooks e).irqActids irq = 0#32 := by
      rw [hrep.actids_eq_zero]
      intro y hy
      have hy' := (hrep.mem irq y).mp hy
      obtain ⟨hold, _, hact⟩ := hrel.kept y irq hy'
      rw [hact, ← Bool.not_eq_true]
      exact hidle y hold (hother y irq hy')
    have hunmasked : (s.releaseHooks e).masked irq = false := (hok.mask irq ⟨z, hz'⟩).mpr hzero
    rcases hrel.lines irq with ⟨_, _, hall⟩ | hmasked
    · exact hother x irq (hall x hx) howns
    · exact nomatch hunmasked.symm.trans hmasked.1
  · intro hsafe
    refine ⟨⟨Q, hrep⟩, ?_, hslots⟩
    rintro irq ⟨x, hx⟩
    change (s.releaseHooks e).masked irq = false ↔ (s.releaseHooks e).irqActids irq = 0#32
    rcases hrel.lines irq with ⟨hmasked, hact, _⟩ | ⟨hmasked, y, howns, hy⟩
    · rw [hmasked, hact]
      exact hs.mask irq ⟨x, (hrel.kept x irq hx).1⟩
    obtain ⟨z, hz, hnot, hactive⟩ :=
      hsafe irq ⟨y, hy, howns⟩ ⟨x, (hrel.kept x irq hx).1, hother x irq hx⟩
    have hz' : (s.releaseHooks e).installed z = some irq := (hrel.others z hnot).2.trans hz
    have hset := (hrel.kept z irq hz').2.2.trans hactive
    have hne := ne_zero_of_isSet (hrep.id_ne_zero ((hrep.mem irq z).mpr hz')) hset
    simp [hmasked, hne]
  · intro e' he' x irq hx hnot
    obtain rfl : e = e' := by simpa [IrqOp.actor] using he'
    have hx' : (s.releaseHooks e).installed x = some irq := (hrel.others x hnot).2.trans hx
    exact ⟨hx', (hrel.kept x irq hx').2.2⟩

end IrqState

/-- The interrupt system stays in order in exactly the steps that meet the condition, and
these are isolated. -/
theorem IrqOp.step (hs : s.HooksOk) {op : IrqOp} (hactor : op.actor ≠ some endptNone) :
    ((op.run s).HooksOk ↔ SafeIrqOp s op) ∧ (SafeIrqOp s op → Isolated s op) := by
  -- Most steps meet the condition in every state.
  have always : ∀ {op : IrqOp}, SafeIrqOp s op → (op.run s).HooksOk ∧ Isolated s op →
      ((op.run s).HooksOk ↔ SafeIrqOp s op) ∧ (SafeIrqOp s op → Isolated s op) :=
    fun hsafe h => ⟨⟨fun _ => hsafe, fun _ => h.1⟩, fun _ => h.2⟩
  cases op with
  | request source req =>
    have hsource : source ≠ endptNone := fun h => hactor (congrArg some h)
    cases req with
    | enable hookId => exact always trivial (IrqState.enable_step hs)
    | disable hookId => exact always trivial (IrqState.disable_step hs)
    | setPolicy irqVec notifyId policy grant =>
      exact always trivial (IrqState.setPolicy_step hs hsource irqVec notifyId policy grant)
    | rmPolicy hookId => exact IrqState.rmPolicy_step hs
    | other => exact always trivial ⟨hs, fun _ _ h irq hh _ => ⟨hh, rfl⟩⟩
  | interrupt irq result =>
    exact always trivial ⟨IrqState.interrupt_step hs, fun e he => absurd he (by simp [IrqOp.actor])⟩
  | exit e =>
    have he : e ≠ endptNone := fun h => hactor (congrArg some h)
    obtain ⟨hiff, hiso⟩ := IrqState.exit_step hs he
    exact ⟨hiff, fun _ => hiso⟩

theorem hooksOk_boot : IrqState.boot.HooksOk := by
  have hrep : IrqState.empty.IrqRep fun _ => [] := by
    refine ⟨fun _ => rfl, ?_, ?_, ?_, ?_, ?_⟩ <;> simp [IrqState.empty]
  have hput := IrqState.putIrqHandler_spec hrep (h := timerHook) rfl clockIrq
  refine ⟨hput.lists, hput.mask ?_, ?_⟩
  · rintro irq ⟨h, hh⟩
    exact absurd hh (by simp [IrqState.empty])
  · intro h hne
    rw [IrqState.boot, (hput.other h hne).2, hput.installed, update_of_ne hne]
    simp [IrqState.empty]

/-- In a run whose steps all meet the condition, every line has exactly the installed hooks,
with a bit each, is unmasked iff none of them is active, and the slots of all other hooks
are free; no step touches a hook of another process.  A step that does not meet the
condition breaks this. -/
theorem irqHooks_isolated {s : IrqState} (hrun : IrqReaches SafeIrqOp IrqState.boot s) :
    s.HooksOk ∧ ∀ op : IrqOp, op.actor ≠ some endptNone →
      ((op.run s).HooksOk ↔ SafeIrqOp s op) ∧ (SafeIrqOp s op → Isolated s op) := by
  have hok : s.HooksOk := by
    induction hrun with
    | refl => exact hooksOk_boot
    | tail _ hstep ih =>
      obtain ⟨op, hactor, hsafe, rfl⟩ := hstep
      exact (IrqOp.step ih hactor).1.mpr hsafe
  exact ⟨hok, fun op hactor => IrqOp.step hok hactor⟩

/-- Two drivers on line 5.  One has finished with an interrupt and the other has not when
the first exits. -/
def sharedLine : List IrqOp :=
  [.request 9 (.setPolicy 5 0 1 .unchecked), .request 10 (.setPolicy 5 0 1 (.table [5])),
   .interrupt ⟨5, by decide⟩ fun h => h.val = 0, .exit 9]

/-- Every operation of the list is for a process, and allowed when its turn comes. -/
def SafeIrqRun (s : IrqState) : List IrqOp → Prop
  | [] => True
  | op :: ops => op.actor ≠ some endptNone ∧ SafeIrqOp s op ∧ SafeIrqRun (op.run s) ops

instance (s : IrqState) (ops : List IrqOp) : Decidable (SafeIrqRun s ops) := by
  induction ops generalizing s with
  | nil => exact .isTrue trivial
  | cons op ops ih => exact @instDecidableAnd _ _ _ (@instDecidableAnd _ _ _ (ih _))

theorem irqReaches_runIrqOps {ops : List IrqOp} (h : SafeIrqRun s ops) :
    IrqReaches SafeIrqOp s (runIrqOps s ops) := by
  induction ops generalizing s with
  | nil => exact .refl
  | cons op ops ih => exact ReflTransGen.head ⟨op, h.1, h.2.1, rfl⟩ (ih h.2.2)

theorem sharedLine_safe : SafeIrqRun IrqState.boot sharedLine := by decide +kernel

theorem irqHooks_isolated_sharedLine :
    IrqReaches SafeIrqOp IrqState.boot (runIrqOps IrqState.boot sharedLine) ∧
      (runIrqOps IrqState.boot sharedLine).HooksOk ∧
      Isolated (runIrqOps IrqState.boot sharedLine) (.request 11 (.enable 2)) := by
  have hrun := irqReaches_runIrqOps sharedLine_safe
  obtain ⟨hok, hstep⟩ := irqHooks_isolated hrun
  exact ⟨hrun, hok, (hstep (.request 11 (.enable 2)) (by decide)).2 trivial⟩

/-- Process 9 removes its policy on line 5; the slot stays taken.  Process 10 then sets one
on the same line, and a second removal by 9 takes the hook of 10 off the line. -/
theorem rmPolicy_removes_other :
    let removed := runIrqOps IrqState.boot
      [.request 9 (.setPolicy 5 0 1 .unchecked), .request 9 (.rmPolicy 1)]
    let again := runIrqOps removed
      [.request 10 (.setPolicy 5 0 1 .unchecked), .request 9 (.rmPolicy 1)]
    let left := runIrqOps IrqState.boot
      [.request 9 (.setPolicy 5 0 1 .unchecked), .request 10 (.setPolicy 5 0 1 .unchecked), .exit 9]
    (removed.installed 0 = none ∧ (removed.hook 0).procNrE = 9) ∧
      (again.installed 1 = some 5 ∧ (again.hook 1).procNrE = 10 ∧ again.irqHandlers 5 = none) ∧
      (left.installed 1 = some 5 ∧ left.irqActids 5 = 0#32 ∧ left.masked 5 = true) := by
  decide +kernel

end Minix.Kernel
