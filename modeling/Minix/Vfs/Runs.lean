/-
  Vfs/Runs.lean --- runs of the main loop from the start of the file system.

  A property of the states of a run is proved for the start and for every kind of step.
-/
import Minix.Vfs.MainSteps

set_option autoImplicit false

namespace Minix.Vfs

open Foundation Relation

namespace State

/-- The state after the file system has been initialised: no process has a descriptor or is
suspended, and no file is a pipe. -/
structure Initial (s : State) : Prop where
  slot : ∀ p e, (s.proc p).endpoint = some e → e.nr = p.val
  pid : ∀ p, (s.proc p).endpoint.isSome = s.live p
  fds : ∀ p fd, (s.proc p).fds fd = none
  idle : ∀ p, (s.proc p).blockedOn = .none ∧ (s.proc p).revived = false ∧ (s.proc p).suspReopen = false ∧
    (s.proc p).cumIoPartial = 0
  filp : ∀ n, (s.filp n).count = 0
  vnode : ∀ v, 0 ≤ (s.vnode v).refCount ∧ (s.vnode v).pipe = false ∧ (s.vnode v).mapped = none ∧ (s.vnode v).fs ≠ .pfs ∧
    (s.vnode v).type ≠ .fifo
  pfs : ∀ i, s.pfs i = none
  sel : ∀ i, (s.sel i).requestor = none
  selFilp : ∀ d, s.selFilp d = none
  counters : s.suspCount = 0 ∧ s.reviving = 0
  log : s.log = []
  panics : s.panics = []

theorem Initial.refs {s : State} (h : s.Initial) : s.Refs := by
  have hrefs : ∀ n, s.fdRefs n = 0 := fun n =>
    tally_eq_zero.mpr fun p => tally_eq_zero.mpr fun fd => if_neg (by rw [h.fds]; simp)
  refine ⟨h.slot, fun p hp => ⟨?_, h.fds p⟩, fun n => ?_, fun n hn => ?_, fun v => ?_, fun v hv => ?_, fun v _ hv => ?_, fun v hv => ?_,
    fun d n hd => ?_, fun p _ => Waits.idle (h.idle p).1⟩
  · have := h.pid p
    rw [hp] at this
    simpa using this
  · rw [hrefs, h.filp]
    simp
  · rw [h.filp] at hn
    exact absurd hn (lt_irrefl 0)
  · have hheld : s.held v = 0 := tally_eq_zero.mpr fun n => if_neg fun hn : 0 < (s.filp n).count ∧ (s.filp n).vnode = some v => by
      rw [h.filp] at hn
      exact absurd hn.1 (lt_irrefl 0)
    rw [hheld]
    exact (h.vnode v).1
  · rw [(h.vnode v).2.1] at hv
    simp at hv
  · exact absurd hv (h.vnode v).2.2.2.2
  · obtain ⟨-, -, hmapped, hfs, -⟩ := h.vnode v
    rcases hv with hv | hv
    · rw [hmapped] at hv
      simp at hv
    · exact absurd hv hfs
  · rw [h.selFilp] at hd
    simp at hd

end State

/-- A run in which every iteration meets a condition. -/
def Runs (P : State → Input → Prop) : State → State → Prop := ReflTransGen fun s s' => ∃ input, P s input ∧ Iterates s input s'

/-- The states of the runs from the start in which every iteration meets a condition. -/
def Reached (P : State → Input → Prop) (s : State) : Prop := ∃ s0 : State, s0.Initial ∧ Runs P s0 s

variable {P : State → Input → Prop} {s s' : State}

theorem Reached.step (h : Reached P s) {input : Input} (hP : P s input) (hit : Iterates s input s') : Reached P s' := by
  obtain ⟨s0, hinit, hrun⟩ := h
  exact ⟨s0, hinit, hrun.tail ⟨input, hP, hit⟩⟩

theorem Reached.mono {Q : State → Input → Prop} (h : Reached P s) (hPQ : ∀ s input, P s input → Q s input) : Reached Q s := by
  obtain ⟨s0, hinit, hrun⟩ := h
  refine ⟨s0, hinit, ReflTransGen.mono (fun s s' hstep => ?_) _ _ hrun⟩
  obtain ⟨input, hP, hit⟩ := hstep
  exact ⟨input, hPQ s input hP, hit⟩

/-- What the start has and every iteration keeps holds in all states reached. -/
theorem Reached.invariant {I : State → Prop} (hinit : ∀ s : State, s.Initial → I s)
    (hstep : ∀ (s s' : State) (input : Input), I s → P s input → Iterates s input s' → I s') (h : Reached P s) : I s := by
  obtain ⟨s0, hs0, hrun⟩ := h
  induction hrun with
  | refl => exact hinit s0 hs0
  | tail _ hlast ih =>
    obtain ⟨input, hP, hit⟩ := hlast
    exact hstep _ _ input ih hP hit

/-- Who refers to what is known in all states reached. -/
theorem Reached.refs (h : Reached P s) : s.Refs :=
  h.invariant (fun _ hs => hs.refs) fun _ _ _ hs _ hit => (hs.iterates_steps hit).refs hs

/-- What every step keeps is kept by a sequence of steps. -/
theorem State.Steps.invariant {C : Cause → Prop} {I : State → Prop}
    (hstep : ∀ s s' : State, s.Refs → I s → s.Op C s' → I s') (h : State.Steps C s s') (hrefs : s.Refs) (hI : I s) : I s' := by
  induction h with
  | refl => exact hI
  | tail hrun hlast ih => exact hstep _ _ (Steps.refs hrun hrefs) ih hlast.1

/-- An invariant of the runs, from what every step keeps. -/
theorem Reached.of_steps {I : State → Prop} (hinit : ∀ s : State, s.Initial → I s)
    (hstep : ∀ (s0 : State) (input : Input), P s0 input → ∀ s s' : State, s.Refs → I s → s.Op (input.Causes s0) s' → I s')
    (h : Reached P s) : I s := by
  have hboth : s.Refs ∧ I s := by
    refine h.invariant (I := fun s => s.Refs ∧ I s) (fun s hs => ⟨hs.refs, hinit s hs⟩) fun s s' input hI hP hit => ?_
    have hsteps := hI.1.iterates_steps hit
    exact ⟨hsteps.refs hI.1, hsteps.invariant (hstep s input hP) hI.1 hI.2⟩
  exact hboth.2

/-! ## A start -/

/-- The slot of a process that has no files. -/
def Fproc.fresh (pid : Nat) (endpoint : Option Endpoint) : Fproc where
  pid := pid
  endpoint := endpoint
  fds := fun _ => none
  inuse := fun _ => false
  saved := ⟨0, .read, 0, 0⟩
  cumIoPartial := 0
  revived := false
  task := ⟨0, 0⟩
  blockedOn := .none
  grant := none
  suspReopen := false

/-- The file system with a driver of terminals in slot 5 and two processes in the slots 11
and 12. -/
def boot : State where
  proc := fun p =>
    if p.val = 5 ∨ p.val = 11 ∨ p.val = 12 then .fresh p.val (some ⟨p.val, 0⟩) else .fresh 0 none
  filp := fun _ => ⟨false, false, false, false, false, false, 0, none, 0, 0, .empty, false, false, false, .empty⟩
  vnode := fun _ => ⟨.other 0, 0, none, .regular, 0, 0, false, 0, 0, none⟩
  pfs := fun _ => none
  sel := fun _ => ⟨none, ⟨0, 0⟩, fun _ => .empty, fun _ => .empty, fun _ => none, false, 0, 0, 0, false, false⟩
  dmap := fun d => if d.val = 4 then some ⟨5, 0⟩ else none
  selFilp := fun _ => none
  locks := ⟨fun _ => none, 0⟩
  suspCount := 0
  reviving := 0
  log := []
  panics := []

/-- The process in slot 11. -/
def bootA : ProcNr := ⟨11, by decide⟩

/-- The process in slot 12. -/
def bootB : ProcNr := ⟨12, by decide⟩

theorem boot_initial : boot.Initial := by
  have hproc : ∀ p : ProcNr, boot.proc p = .fresh p.val (some ⟨p.val, 0⟩) ∧ p.val ≠ 0 ∨ boot.proc p = .fresh 0 none := by
    intro p
    by_cases hp : p.val = 5 ∨ p.val = 11 ∨ p.val = 12
    · exact .inl ⟨if_pos hp, by omega⟩
    · exact .inr (if_neg hp)
  refine ⟨fun p e he => ?_, fun p => ?_, fun p fd => ?_, fun p => ?_, fun _ => rfl, fun _ => ⟨le_rfl, rfl, rfl, by simp [boot], by simp [boot]⟩,
    fun _ => rfl, fun _ => rfl, fun _ => rfl, ⟨rfl, rfl⟩, rfl, rfl⟩
  all_goals rcases hproc p with ⟨hp, hne⟩ | hp
  · rw [hp] at he
    exact (Option.some.inj he) ▸ rfl
  · rw [hp] at he
    exact absurd he (by simp [Fproc.fresh])
  · simp [State.live, hp, Fproc.fresh, hne]
  · simp [State.live, hp, Fproc.fresh]
  · rw [hp]
    rfl
  · rw [hp]
    rfl
  · rw [hp]
    exact ⟨rfl, rfl, rfl, rfl⟩
  · rw [hp]
    exact ⟨rfl, rfl, rfl, rfl⟩

theorem reached_boot {P : State → Input → Prop} : Reached P boot := ⟨boot, boot_initial, ReflTransGen.refl⟩

/-- The answers for a read or a write that meets no fault. -/
def IoEnv.plain : IoEnv := ⟨⟨false, fun _ => 0⟩, ⟨none, false, 0, 0⟩, ⟨0, 0, 0⟩, (0, 0, 0)⟩

/-- A process of the start makes a pipe. -/
def bootPipe : State := boot.iterate (.message (.call bootA (.pipe (some 0))))

theorem reached_bootPipe {P : State → Input → Prop} (hP : P boot (.message (.call bootA (.pipe (some 0))))) : Reached P bootPipe :=
  reached_boot.step hP (.message boot _ rfl rfl ⟨by decide, by decide⟩)

end Minix.Vfs
