/-
  Kernel/Irq.lean --- interrupt hooks: `interrupt.c`, `do_irqctl` and the part of
  `clear_proc` that releases hooks.

  Every interrupt line has a list of hooks.  A hook has a bit of its own on the line, its
  id; the bits of the hooks that are busy or disabled are in `irq_actids`, and the line is
  to be masked while there are any.  A hook is found by its id when it is removed, and by
  its slot otherwise.

  IRQ_RMPOLICY takes a hook off its line but leaves the slot to its owner, with the id and
  the line it had.  The slot is lost until the owner exits, and the owner can still act on
  the line with an id that may be another hook's by then.  The removal of a hook masks the
  line and leaves it so, whoever else uses it.
-/
import Mathlib.Logic.Relation
import Minix.Foundation.IntrusiveList
import Minix.Kernel.Types

set_option autoImplicit false

namespace Minix.Kernel

open Minix.Foundation Relation Function

/-! ## Hooks and lines -/

/-- The interrupt lines, `NR_IRQ_VECTORS` of them. -/
abbrev IrqLine := Fin 16

/-- The hooks: `irq_hooks[0]` to `irq_hooks[15]`, and `pic_timer_hook`. -/
abbrev HookSlot := Fin 17

/-- `pic_timer_hook`, the hook of the kernel's own clock. -/
def timerHook : HookSlot := 16

/-- `CLOCK_IRQ` -/
def clockIrq : IrqLine := 0

/-- The table `irq_hooks`. -/
def irqHooks : List HookSlot := (List.finRange 16).map Fin.castSucc

theorem mem_irqHooks {h : HookSlot} : h ∈ irqHooks ↔ h ≠ timerHook := by
  revert h
  decide

/-- `&irq_hooks[n]`, if that is an entry. -/
def hookAddr (n : Int) : Option HookSlot :=
  if h : 0 ≤ n ∧ n < 16 then some ⟨n.toNat, by omega⟩ else none

theorem hookAddr_ne_timer {n : Int} {h : HookSlot} (hn : hookAddr n = some h) : h ≠ timerHook := by
  unfold hookAddr at hn
  split at hn
  · have hval : n.toNat = h.val := congrArg Fin.val (Option.some.inj hn)
    rintro rfl
    simp only [timerHook] at hval
    omega
  · simp at hn

/-- `irq_hook_t`, without the handler: drivers' hooks have `generic_handler`. -/
structure IrqHook where
  next : Option HookSlot
  irq : IrqLine
  id : BitVec 32
  procNrE : Int
  notifyId : Int
  policy : Int
  deriving DecidableEq, Repr

/-- The interrupt system.  `masked` is the state of the interrupt controller, and
`installed` is history: the line of each hook that has been installed and not removed
since. -/
structure IrqState where
  hook : HookSlot → IrqHook
  irqHandlers : IrqLine → Option HookSlot
  irqActids : IrqLine → BitVec 32
  irqUse : BitVec 32
  masked : IrqLine → Bool
  installed : HookSlot → Option IrqLine
  halt : Option Halt

namespace IrqState

/-! ## interrupt.c -/

@[simps irqHandlers irqActids irqUse masked installed halt]
def modHook (s : IrqState) (h : HookSlot) (f : IrqHook → IrqHook) : IrqState :=
  { s with hook := update s.hook h (f (s.hook h)) }

@[simps hook irqHandlers irqUse masked installed halt]
def modActids (s : IrqState) (irq : IrqLine) (f : BitVec 32 → BitVec 32) : IrqState :=
  { s with irqActids := update s.irqActids irq (f (s.irqActids irq)) }

/-- `hw_intr_mask(irq)` and `hw_intr_unmask(irq)` -/
@[simps hook irqHandlers irqActids irqUse installed halt]
def setMasked (s : IrqState) (irq : IrqLine) (m : Bool) : IrqState :=
  { s with masked := update s.masked irq m }

/-- History: a hook is installed on a line, or removed. -/
@[simps hook irqHandlers irqActids irqUse masked halt]
def setInstalled (s : IrqState) (h : HookSlot) (irq : Option IrqLine) : IrqState :=
  { s with installed := update s.installed h irq }

def stop (s : IrqState) (h : Halt) : IrqState := { s with halt := some h }

def links (s : IrqState) : Links IrqLine HookSlot := ⟨s.irqHandlers, fun h => (s.hook h).next⟩

/-- `*line = v` -/
def setLine (s : IrqState) (line : Ref IrqLine HookSlot) (v : Option HookSlot) : IrqState :=
  match line with
  | .head irq => { s with irqHandlers := update s.irqHandlers irq v }
  | .next h => s.modHook h fun r => { r with next := v }

/-- `enable_irq(hook)` -/
def enableIrq (s : IrqState) (hook : HookSlot) : IrqState :=
  let irq := (s.hook hook).irq
  let s1 := s.modActids irq fun x => clearBits x (s.hook hook).id
  if s1.irqActids irq = 0#32 then s1.setMasked irq false else s1

/-- `disable_irq(hook)`: whether the hook was enabled, and the state. -/
def disableIrq (s : IrqState) (hook : HookSlot) : Bool × IrqState :=
  let irq := (s.hook hook).irq
  if s.irqActids irq &&& (s.hook hook).id ≠ 0#32 then (false, s)
  else (true, (s.modActids irq fun x => x ||| (s.hook hook).id).setMasked irq true)

/-- The lowest bit that is not in the map. -/
def lowestFree (bitmap : BitVec 32) : Option Nat :=
  (List.range 32).find? fun i => !bitmap.getLsbD i

/-- The hook gets the bit and goes to the end of the list of its line. -/
def linkHook (s : IrqState) (hook : HookSlot) (irq : IrqLine) (hooks : List HookSlot)
    (id : BitVec 32) : IrqState :=
  let s1 := s.modHook hook fun r => { r with next := none, irq := irq, id := id }
  let s2 := s1.setLine (Links.lastRef (.head irq) hooks) (some hook)
  let s3 := { s2 with irqUse := s2.irqUse ||| 1#32 <<< irq.val }
  s3.setInstalled hook (some irq)

/-- `put_irq_handler(hook, irq, handler)` -/
def putIrqHandler (s : IrqState) (hook : HookSlot) (irq : IrqLine) : IrqState :=
  match s.links.nodes 18 (.head irq) with
  | none => s.stop .hang
  | some hooks =>
      if hook ∈ hooks then s
      else
        match lowestFree (hooks.foldl (fun bitmap h => bitmap ||| (s.hook h).id) 0#32) with
        | none => s.stop .panic
        | some i => (s.linkHook hook irq hooks (1#32 <<< i)).enableIrq hook

/-- `rm_irq_handler(hook)`: the first hook with the same id goes off the line. -/
def rmIrqHandler (s : IrqState) (hook : HookSlot) : IrqState :=
  let irq := (s.hook hook).irq
  let id := (s.hook hook).id
  let s1 := (s.modActids irq fun x => x ||| id).setMasked irq true
  match s1.links.seek (fun h => (s1.hook h).id == id) 18 (.head irq) with
  | none => s1.stop .hang
  | some line =>
      match s1.links.get line with
      | none => s1
      | some h =>
          let s2 := s1.setLine line (s1.hook h).next
          let s3 :=
            if s2.irqHandlers irq = none then
              { s2 with irqUse := s2.irqUse &&& ~~~(1#32 <<< irq.val) }
            else s2
          if s3.irqActids irq &&& id ≠ 0#32 then s3.modActids irq fun x => clearBits x id else s3

/-- One turn of the loop of `irq_handle`; `result` is what the handler returns. -/
def callHandler (irq : IrqLine) (result : HookSlot → Bool) (s : IrqState) (h : HookSlot) : IrqState :=
  let s1 := s.modActids irq fun x => x ||| (s.hook h).id
  if result h then s1.modActids (s1.hook h).irq fun x => clearBits x (s1.hook h).id else s1

/-- `irq_handle(irq)` -/
def irqHandle (s : IrqState) (irq : IrqLine) (result : HookSlot → Bool) : IrqState :=
  let s1 := s.setMasked irq true
  match s1.links.nodes 18 (.head irq) with
  | none => s1.stop .hang
  | some hooks =>
      let s2 := hooks.foldl (callHandler irq result) s1
      if s2.irqActids irq = 0#32 then s2.setMasked irq false else s2

/-! ## do_irqctl and clear_proc -/

/-- What the privileges of the caller say about interrupt lines: it has no structure, its
lines are not checked, or they are in a table. -/
inductive IrqGrant where
  | noPriv
  | unchecked
  | table (irqs : List Int)

/-- `IRQ_REQUEST` with the fields it uses. -/
inductive IrqRequest where
  | enable (hookId : Int)
  | disable (hookId : Int)
  | setPolicy (irqVec notifyId policy : Int) (grant : IrqGrant)
  | rmPolicy (hookId : Int)
  | other

/-- The hook that a request names, if `source` may use it. -/
def ownHook (s : IrqState) (source hookId : Int) : Except Int HookSlot :=
  match hookAddr (hookId - 1) with
  | none => .error einval
  | some h =>
      if (s.hook h).procNrE = endptNone then .error einval
      else if (s.hook h).procNrE ≠ source then .error eperm
      else .ok h

/-- The check of the line in IRQ_SETPOLICY. -/
def checkGrant (irqVec : Int) : IrqGrant → Int
  | .noPriv => eperm
  | .unchecked => ok
  | .table irqs => if irqVec ∈ irqs then ok else eperm

/-- IRQ_SETPOLICY: the result, `IRQ_HOOK_ID` of the reply, and the state. -/
def setPolicy (s : IrqState) (source irqVec notifyId policy : Int) (grant : IrqGrant) :
    Int × Int × IrqState :=
  if hvec : 0 ≤ irqVec ∧ irqVec < 16 then
    if checkGrant irqVec grant ≠ ok then (eperm, notifyId, s)
    else
      match irqHooks.find? fun h => (s.hook h).procNrE == endptNone with
      | none => (enospc, notifyId, s)
      | some h =>
          if notifyId < 0 ∨ 31 < notifyId then (einval, notifyId, s)
          else
            let s1 := s.modHook h fun r =>
              { r with procNrE := source, notifyId := notifyId, policy := policy }
            (ok, (h.val : Int) + 1, s1.putIrqHandler h ⟨irqVec.toNat, by omega⟩)
  else (einval, notifyId, s)

/-- `do_irqctl(m_ptr)` for a request of `source`: the result, `IRQ_HOOK_ID`, and the state. -/
def doIrqctl (s : IrqState) (source : Int) : IrqRequest → Int × Int × IrqState
  | .enable hookId =>
      match s.ownHook source hookId with
      | .error r => (r, hookId, s)
      | .ok h => (ok, hookId, s.enableIrq h)
  | .disable hookId =>
      match s.ownHook source hookId with
      | .error r => (r, hookId, s)
      | .ok h => (ok, hookId, (s.disableIrq h).2)
  | .setPolicy irqVec notifyId policy grant => s.setPolicy source irqVec notifyId policy grant
  | .rmPolicy hookId =>
      match s.ownHook source hookId with
      | .error r => (r, hookId, s)
      | .ok h => (ok, hookId, (s.rmIrqHandler h).setInstalled h none)
  | .other => (einval, 0, s)

/-- One turn of the loop of `clear_proc` over the hooks. -/
def releaseHook (endpt : Int) (s : IrqState) (h : HookSlot) : IrqState :=
  if (s.hook h).procNrE = endpt then
    ((s.rmIrqHandler h).setInstalled h none).modHook h fun r => { r with procNrE := endptNone }
  else s

/-- What `clear_proc` does for the hooks of the process with endpoint `endpt`. -/
def releaseHooks (s : IrqState) (endpt : Int) : IrqState := irqHooks.foldl (releaseHook endpt) s

end IrqState

/-! ## Runs -/

/-- What happens to the interrupt system. -/
inductive IrqOp where
  | request (source : Int) (req : IrqState.IrqRequest)
  | interrupt (irq : IrqLine) (result : HookSlot → Bool)
  | exit (endpt : Int)

def IrqOp.run (s : IrqState) : IrqOp → IrqState
  | .request source req => (s.doIrqctl source req).2.2
  | .interrupt irq result => s.irqHandle irq result
  | .exit endpt => s.releaseHooks endpt

/-- The process that an operation is for. -/
def IrqOp.actor : IrqOp → Option Int
  | .request source _ => some source
  | .interrupt _ _ => none
  | .exit endpt => some endpt

/-- The hooks as `system_init` leaves them. -/
def IrqState.empty : IrqState where
  hook _ := ⟨none, 0, 0, endptNone, 0, 0⟩
  irqHandlers _ := none
  irqActids _ := 0
  irqUse := 0
  masked _ := true
  installed _ := none
  halt := none

/-- The clock has its hook. -/
def IrqState.boot : IrqState := IrqState.empty.putIrqHandler timerHook clockIrq

/-- A run of operations of processes, whose endpoints are not NONE, that the condition
allows. -/
def IrqReaches (allowed : IrqState → IrqOp → Prop) : IrqState → IrqState → Prop :=
  ReflTransGen fun s s' => ∃ op : IrqOp, op.actor ≠ some endptNone ∧ allowed s op ∧ s' = op.run s

/-- Running a list of operations. -/
def runIrqOps (s : IrqState) (ops : List IrqOp) : IrqState := ops.foldl IrqOp.run s

end Minix.Kernel
