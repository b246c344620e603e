/-
  Kernel/Endpoint.lean --- an endpoint names one process that a slot has had.

  An endpoint is a generation and a process number.  `do_fork` gives the child the next
  generation of its slot; a generation comes back when all others have been used.  What
  else the kernel does changes no endpoint and begins no process (`Elsewhere`).
-/
import Minix.Kernel.DeliverySlot
import Minix.Kernel.PrivilegeRun

set_option autoImplicit false

namespace Minix.Kernel

open Minix.Foundation State Relation

/-! ## Encoding -/

section Encoding

variable {g : Int} (hpos : 0 ≤ g) (hmax : g < endpointMaxGeneration)
include hpos hmax

/-- Every generation and every slot can be read off an endpoint, within 32 bits. -/
theorem endpoint_decode (i : Slot) : endpointP (endpoint g (procNr i)) = procNr i ∧
    endpointG (endpoint g (procNr i)) = g ∧ -2 ^ 31 ≤ endpoint g (procNr i) ∧
    endpoint g (procNr i) + 1023 < 2 ^ 31 := by
  have hlt : i.val < 260 := i.isLt
  have hsum : 0 ≤ endpoint g (procNr i) + 1023 := by
    unfold endpoint endpointGenerationSize procNr
    omega
  rw [endpointP, endpointG, Int.tmod_eq_emod_of_nonneg hsum, Int.tdiv_eq_ediv_of_nonneg hsum]
  unfold endpoint endpointGenerationSize procNr
  unfold endpointMaxGeneration at hmax
  omega

theorem nextGeneration_eq : nextGeneration g = g % (endpointMaxGeneration - 1) + 1 := by
  unfold nextGeneration
  unfold endpointMaxGeneration at hmax ⊢
  split <;> omega

/-- The generation after one fork and `k` more. -/
theorem iterate_nextGeneration (k : Nat) :
    nextGeneration^[k + 1] g = (g + k) % (endpointMaxGeneration - 1) + 1 := by
  induction k with
  | zero => simpa using nextGeneration_eq hpos hmax
  | succ k ih =>
    unfold endpointMaxGeneration at ih ⊢
    rw [Function.iterate_succ_apply', ih, nextGeneration_eq (by omega) (by unfold endpointMaxGeneration; omega)]
    unfold endpointMaxGeneration
    omega

theorem iterate_mem {k : Nat} :
    0 ≤ nextGeneration^[k] g ∧ nextGeneration^[k] g < endpointMaxGeneration := by
  cases k with
  | zero => exact ⟨hpos, hmax⟩
  | succ k =>
    rw [iterate_nextGeneration hpos hmax]
    unfold endpointMaxGeneration
    omega

end Encoding

/-- `_ENDPOINT_P(e)`, with an addition that wraps around. -/
def endpointP32 (e : Int) : Int := (wrap32 (e + 1023)).tmod endpointGenerationSize - 1023

namespace State

variable {s s' : State} {i j rc : Slot}

/-! ## Tables -/

/-- Every slot has an endpoint that `do_fork` could have given it, and a free slot has no flag
but that. -/
structure Encoded (s : State) : Prop where
  endpoint : ∀ i, ∃ g, 0 ≤ g ∧ g < endpointMaxGeneration ∧ (s.proc i).pEndpoint = endpoint g (procNr i)
  free : s.FreeExact

theorem FreeExact.isemptyp_iff (h : s.FreeExact) : s.isemptyp i = false ↔ s.Alive i := by
  have hbit : isSet rtsSlotFree rtsSlotFree = true := by decide
  rw [isemptyp, Alive, rtsIsset, beq_eq_false_iff_ne, ← Bool.not_eq_true]
  exact not_congr ⟨fun hflags => hflags ▸ hbit, h i⟩

namespace Encoded

variable (h : s.Encoded)
include h

theorem injective (heq : (s.proc i).pEndpoint = (s.proc j).pEndpoint) : i = j := by
  obtain ⟨g, hpos, hmax, hi⟩ := h.endpoint i
  obtain ⟨g', hpos', hmax', hj⟩ := h.endpoint j
  refine procNr_injective ?_
  rw [← (endpoint_decode hpos hmax i).1, ← (endpoint_decode hpos' hmax' j).1, ← hi, ← hj, heq]

theorem ne_special (i : Slot) : (s.proc i).pEndpoint ∉ [endptAny, endptNone, endptSelf] := by
  obtain ⟨g, hpos, hmax, hi⟩ := h.endpoint i
  have hlt : i.val < 260 := i.isLt
  simp only [List.mem_cons, List.not_mem_nil, hi, or_false, not_or]
  unfold Kernel.endpoint endpointGenerationSize procNr endptAny endptNone endptSelf
  omega

theorem isokendpt_iff {e : Int} : s.isokendpt e = some i ↔ s.Alive i ∧ (s.proc i).pEndpoint = e := by
  rw [isokendpt_eq_some_iff, h.free.isemptyp_iff]
  refine ⟨And.right, fun hi => ⟨?_, hi⟩⟩
  obtain ⟨g, hpos, hmax, hg⟩ := h.endpoint i
  rw [← hi.2, hg, (endpoint_decode hpos hmax i).1]

/-- It makes no difference that the arithmetic of `isokendpt` has 32 bits. -/
theorem wraps {e : Int} (hge : -2 ^ 31 ≤ e) (hlt : e < 2 ^ 31) :
    endpointP32 e = endpointP e ∨ procAddr (endpointP32 e) = none ∧ s.isokendpt e = none := by
  by_cases hover : 2 ^ 31 ≤ e + 1023
  · -- An addition that overflows leads out of the process table.
    have hwrap : wrap32 (e + 1023) = -(2 ^ 32 - (e + 1023)) := by
      rw [wrap32, Int.bmod_def]
      split <;> omega
    have hneg := Int.tmod_nonneg endpointGenerationSize (show (0 : Int) ≤ 2 ^ 32 - (e + 1023) by omega)
    refine .inr ⟨by rw [procAddr, endpointP32, hwrap, Int.neg_tmod, dif_neg (by omega)], ?_⟩
    rw [Option.eq_none_iff_forall_ne_some]
    intro i hi
    obtain ⟨g, hpos, hmax, hg⟩ := h.endpoint i
    have := (endpoint_decode hpos hmax i).2.2.2
    rw [← hg, ((h.isokendpt_iff).mp hi).2] at this
    omega
  · have hwrap : wrap32 (e + 1023) = e + 1023 := by
      rw [wrap32, Int.bmod_def]
      split <;> omega
    exact .inl (by rw [endpointP32, hwrap, endpointP])

end Encoded

/-! ## What else the kernel does -/

/-- No endpoint changes, and no process begins. -/
structure Elsewhere (s s' : State) : Prop where
  endpoint : ∀ i, (s'.proc i).pEndpoint = (s.proc i).pEndpoint
  alive : ∀ i, s'.Alive i → s.Alive i
  free : s'.FreeExact

section

variable {μ : Mode}

theorem endpoint_write (h : Write μ s s') {i : Slot} : (s'.proc i).pEndpoint = (s.proc i).pEndpoint := by
  have hset := fun (t : State) rp f => frame_proc Proc.pEndpoint (t.unsched_rtsSet rp f) i rfl
  have hunset := fun (t : State) rp f => frame_proc Proc.pEndpoint (t.unsched_rtsUnset rp f) i rfl
  cases h with
  | other h => exact frame_proc Proc.pEndpoint h i rfl
  | set rp _ _ _ => exact hset s rp _
  | unset rp _ => exact hunset s rp _
  | endksig rp _ => exact hunset s rp _
  | mask rp _ _ | pend rp _ _ => exact s.modProc_congr rp Proc.pEndpoint rfl i
  | signal rp _ _ => exact (hset _ rp _).trans (s.modProc_congr rp Proc.pEndpoint rfl i)
  | getksig rp _ => exact (hunset _ rp _).trans (s.modProc_congr rp Proc.pEndpoint rfl i)

/-- Only a live process gets flags. -/
theorem FreeExact.write (h : s.FreeExact) (hzombie : ¬ μ.zombie) (hcur : s.Alive s.procPtr) (hw : Write μ s s') :
    s'.FreeExact := by
  have hpend : ∀ rp (g : Proc → BitVec 32), (s.modProc rp fun p => { p with pPending := g p }).FreeExact ∧
      ∀ i, (s.modProc rp fun p => { p with pPending := g p }).Alive i ↔ s.Alive i := by
    intro rp g
    have hflags := s.modProc_congr rp (f := fun p => { p with pPending := g p }) Proc.pRtsFlags rfl
    exact ⟨h.of_flags hflags, fun i => by rw [Alive, rtsIsset, hflags]; rfl⟩
  cases hw with
  | other hsame => exact h.of_flags fun i => frame_proc Proc.pRtsFlags hsame i rfl
  | set rp _ hd hlive => exact h.rtsSet (hlive.resolve_left hzombie) (disjoint_of_isSet (by decide) hd)
  | unset rp hd => exact h.rtsUnset hcur (disjoint_of_isSet (by decide) hd)
  | endksig rp _ => exact h.rtsUnset hcur (by decide)
  | mask rp hd _ => exact h.clear (disjoint_of_isSet (by decide) hd)
  | pend rp _ _ => exact (hpend rp _).1
  | signal rp _ hlive =>
    exact (hpend rp _).1.rtsSet (((hpend rp _).2 rp).mpr (hlive.resolve_left hzombie)) (by decide)
  | getksig rp _ => exact (hpend rp _).1.rtsUnset (((hpend rp _).2 _).mpr hcur) (by decide)

theorem Elsewhere.of_writes (hzombie : ¬ μ.zombie) (hfree : s.FreeExact) (hcur : s.Alive s.procPtr)
    (h : Writes μ s s') : Elsewhere s s' := by
  have hsame : ∀ {t}, Writes μ s t → Elsewhere s t ∧ t.Alive t.procPtr := by
    intro t ht
    induction ht with
    | refl => exact ⟨⟨fun _ => rfl, fun _ => id, hfree⟩, hcur⟩
    | tail _ hw ih =>
      have hrights := SameRights.of_write hw
      refine ⟨⟨fun i => (endpoint_write hw).trans (ih.1.endpoint i),
        fun i hi => ih.1.alive i ((hrights.free i).symm.trans hi), ih.1.free.write hzombie ih.2 hw⟩, ?_⟩
      rw [Alive, hrights.free, SchedSteps.procPtr hw.sched]
      exact ih.2
  exact (hsame h).1

end

/-! ## Exit -/

/-- The flags of `rc` are replaced by the one of a free slot. -/
theorem Elsewhere.freed {t : State} (h : Elsewhere s s') (hend : ∀ i, (t.proc i).pEndpoint = (s'.proc i).pEndpoint)
    (hflags : ∀ i, (t.proc i).pRtsFlags = if i = rc then rtsSlotFree else (s'.proc i).pRtsFlags) :
    Elsewhere s t ∧ ¬ t.Alive rc := by
  have hdead : ¬ t.Alive rc := by
    rw [Alive, rtsIsset, hflags, if_pos rfl]
    decide
  refine ⟨⟨fun i => (hend i).trans (h.endpoint i), fun i hi => ?_, fun i hi => ?_⟩, hdead⟩
  · by_cases hic : i = rc
    · exact absurd (hic ▸ hi) hdead
    · rw [Alive, rtsIsset, hflags, if_neg hic] at hi
      exact h.alive i hi
  · by_cases hic : i = rc
    · rw [hflags, if_pos hic]
    · rw [rtsIsset, hflags, if_neg hic] at hi
      rw [hflags, if_neg hic]
      exact h.free i hi

/-- The process ends, unless the kernel panics. -/
theorem clearProc_elsewhere (hfree : s.FreeExact) (hcur : s.Alive s.procPtr) {rc : Slot} :
    Elsewhere s (s.clearProc rc) ∧ ((s.clearProc rc).halt = none → ¬ (s.clearProc rc).Alive rc) := by
  unfold clearProc
  by_cases hempty : s.isemptyp rc = true
  · rw [if_pos hempty, ← hfree.isemptyp_iff, hempty]
    exact ⟨⟨fun _ => rfl, fun _ => id, hfree⟩, fun _ => Bool.noConfusion⟩
  rw [if_neg hempty]
  dsimp only
  have hclear : Elsewhere s (s.clearEndpoint rc) :=
    .of_writes id hfree hcur (Steps.writes (s.steps_clearEndpoint (μ := slotMode) trivial rc fun he =>
      .inr (hfree.isemptyp_iff.mp he)))
  generalize s.clearEndpoint rc = s1 at hclear
  split
  · rename_i hhalt
    exact ⟨hclear, fun h => absurd h hhalt⟩
  generalize hs3 : ((s1.resetTimer (.alarm (s1.proc rc).pPriv)).resetTimer (.deadline rc)).modTimer (.deadline rc) _ = s3
  have huntimed : s3.untimed = s1.untimed := by
    rw [← hs3]
    simp
  have hlast : ∀ t : State, t.proc = ((s3.rtsSetflags rc rtsSlotFree).modProc rc fun p =>
      p.setMisc (clearBits p.pMiscFlags mfFpuInitialized)).proc → Elsewhere s t ∧ (t.halt = none → ¬ t.Alive rc) := by
    intro t ht
    refine (hclear.freed (fun i => ?_) fun i => ?_).imp_right fun hdead _ => hdead
    · rw [ht, modProc_congr _ rc Proc.pEndpoint (by rfl) i,
        frame_proc Proc.pEndpoint (unsched_rtsSetflags _ rc _) i rfl]
      exact frame_proc Proc.pEndpoint huntimed i rfl
    · rw [ht, modProc_congr _ rc Proc.pRtsFlags (by rfl) i, flags_rtsSetflags,
        frame_proc Proc.pRtsFlags huntimed i rfl]
  split
  · exact hlast _ rfl
  · exact hlast _ rfl

/-- A process exits, or nothing happens. -/
theorem exit_elsewhere (hfree : s.FreeExact) (hcur : s.Alive s.procPtr) (endpt : Int) :
    Elsewhere s (s.doExit endpt).2 :=
  doExit_rule ⟨fun _ => rfl, fun _ => id, hfree⟩ fun rc _ => (clearProc_elsewhere hfree hcur).1

theorem exit_dead (hfree : s.FreeExact) (hcur : s.Alive s.procPtr) {endpt : Int}
    (htarget : s.exitTarget endpt = some rc) (hhalt : (s.doExit endpt).2.halt = none) :
    ¬ (s.doExit endpt).2.Alive rc := by
  have hrun : (s.doExit endpt).2 = s.clearProc rc := by
    unfold exitTarget at htarget
    unfold doExit
    split_ifs with hpm
    · rw [if_pos hpm] at htarget
      rw [htarget]
    · rw [if_neg hpm] at htarget
      rw [Option.some.inj htarget]
  rw [hrun] at hhalt ⊢
  exact (clearProc_elsewhere hfree hcur).2 hhalt

/-! ## Runs -/

/-- `do_fork` puts a child into the slot. -/
def ForksInto (s : State) (parentE slot : Int) (i : Slot) : Prop := ∃ rpp, s.Forks parentE slot rpp i

open Classical in
/-- A sequence of forks and exits, and of what else the kernel does, with the number of forks
into each slot. -/
inductive Turns (s : State) : (Slot → Nat) → State → Prop
  | refl : Turns s (fun _ => 0) s
  | fork {n : Slot → Nat} {t : State} (h : Turns s n t) (parentE slot : Int) (env : ForkEnv) :
      Turns s (fun i => n i + if t.ForksInto parentE slot i then 1 else 0)
        (t.doFork parentE slot env).2
  | exit {n : Slot → Nat} {t : State} (h : Turns s n t) (hcur : t.Alive t.procPtr) (endpt : Int) :
      Turns s n (t.doExit endpt).2
  | elsewhere {n : Slot → Nat} {t t' : State} (h : Turns s n t) (hother : Elsewhere t t') : Turns s n t'

/-- A fork that does not take slot `i` leaves it alone. -/
theorem forkOther_slot {parentE slot : Int} (hf : ¬ s.ForksInto parentE slot i) {env : ForkEnv} :
    ((s.doFork parentE slot env).2.proc i).pEndpoint = (s.proc i).pEndpoint ∧
      ((s.doFork parentE slot env).2.Alive i → s.Alive i) := by
  rcases doFork_cases (s := s) env parentE slot with heq | heq | ⟨rpp, rpc, hforks⟩
  · rw [heq]
    exact ⟨rfl, id⟩
  · rw [heq]
    exact ⟨rfl, id⟩
  · have hne : i ≠ rpc := by
      rintro rfl
      exact hf ⟨rpp, hforks⟩
    refine ⟨fork_others env hforks Proc.pEndpoint (fun _ _ => rfl) hne, fun hi => ?_⟩
    exact (fork_others env hforks (fun p => isSet p.pRtsFlags rtsSlotFree) (fun _ _ => rfl) hne).symm.trans hi

namespace Turns

variable {n : Slot → Nat}

variable (h : Turns s n s')
include h

theorem free (hfree : s.FreeExact) : s'.FreeExact := by
  induction h with
  | refl => exact hfree
  | @fork n t _ parentE slot env ih =>
    rcases doFork_cases (s := t) env parentE slot with heq | heq | ⟨rpp, rpc, hforks⟩
    · rwa [heq]
    · rw [heq]
      exact ih
    · exact ih.fork hforks
  | exit _ hcur endpt ih => exact (exit_elsewhere ih hcur endpt).free
  | elsewhere _ hother _ => exact hother.free

/-- The generation of a slot counts the forks into it; without one a free slot stays free. -/
theorem generation (hfree : s.FreeExact) {g : Int} (hpos : 0 ≤ g) (hmax : g < endpointMaxGeneration)
    (hend : (s.proc i).pEndpoint = endpoint g (procNr i)) :
    (s'.proc i).pEndpoint = endpoint (nextGeneration^[n i] g) (procNr i) ∧ (n i = 0 → s'.Alive i → s.Alive i) := by
  induction h with
  | refl => exact ⟨hend, fun _ => id⟩
  | @fork n t _ parentE slot env ih =>
    by_cases hf : t.ForksInto parentE slot i
    · obtain ⟨rpp, hforks⟩ := id hf
      obtain ⟨hpos', hmax'⟩ := iterate_mem hpos hmax
      simp only [if_pos hf]
      refine ⟨?_, fun h0 => absurd h0 (Nat.succ_ne_zero _)⟩
      rw [fork_child env hforks, Function.iterate_succ_apply']
      show endpoint (nextGeneration (endpointG (t.proc i).pEndpoint)) (procNr i) = _
      rw [ih.1, (endpoint_decode hpos' hmax' i).2.1]
    · obtain ⟨hsame, halive⟩ := forkOther_slot hf
      simp only [if_neg hf]
      exact ⟨hsame.trans ih.1, fun h0 hi => ih.2 h0 (halive hi)⟩
  | exit h hcur endpt ih =>
    have hother := exit_elsewhere (h.free hfree) hcur endpt
    exact ⟨(hother.endpoint i).trans ih.1, fun h0 hi => ih.2 h0 (hother.alive i hi)⟩
  | elsewhere _ hother ih => exact ⟨(hother.endpoint i).trans ih.1, fun h0 hi => ih.2 h0 (hother.alive i hi)⟩

theorem encoded (hs : s.Encoded) : s'.Encoded := by
  refine ⟨fun i => ?_, h.free hs.free⟩
  obtain ⟨g, hpos, hmax, hg⟩ := hs.endpoint i
  obtain ⟨hpos', hmax'⟩ := iterate_mem hpos hmax
  exact ⟨_, hpos', hmax', (h.generation hs.free hpos hmax hg).1⟩

/-- The endpoint of a free slot is not accepted before its generation comes back. -/
theorem stale (hs : s.Encoded) (hdead : ¬ s.Alive i) (hn : (n i : Int) < endpointMaxGeneration - 1) :
    s'.isokendpt (s.proc i).pEndpoint = none := by
  obtain ⟨g, hpos, hmax, hg⟩ := hs.endpoint i
  obtain ⟨hend, hstays⟩ := h.generation hs.free hpos hmax hg
  rw [Option.eq_none_iff_forall_ne_some]
  intro j hj
  obtain ⟨halive, hsame⟩ := ((h.encoded hs).isokendpt_iff).mp hj
  obtain ⟨hnr, -, -⟩ := (s'.isokendpt_eq_some_iff j).mp hj
  rw [hg, (endpoint_decode hpos hmax i).1] at hnr
  obtain rfl := procNr_injective hnr
  by_cases h0 : n j = 0
  · exact hdead (hstays h0 halive)
  · obtain ⟨hpos', hmax'⟩ := iterate_mem hpos hmax
    have hgen := congrArg endpointG (hend.symm.trans (hsame.trans hg))
    rw [(endpoint_decode hpos' hmax' j).2.1, (endpoint_decode hpos hmax j).2.1] at hgen
    -- A generation does not come back before all others have been used.
    obtain ⟨k, hk⟩ := Nat.exists_eq_succ_of_ne_zero h0
    rw [hk] at hgen hn
    rw [iterate_nextGeneration hpos hmax] at hgen
    unfold endpointMaxGeneration at *
    omega

end Turns

/-- Endpoints are different and ordinary, exactly those of live processes are accepted, and
that of a process that exits is not accepted again before all other generations of its slot
have been used. -/
structure EndpointsExact (s : State) : Prop where
  distinct : ∀ i j, (s.proc i).pEndpoint = (s.proc j).pEndpoint → i = j
  ordinary : ∀ i, (s.proc i).pEndpoint ∉ [endptAny, endptNone, endptSelf]
  accepted : ∀ e i, s.isokendpt e = some i ↔ s.Alive i ∧ (s.proc i).pEndpoint = e
  wraps : ∀ e, -2 ^ 31 ≤ e → e < 2 ^ 31 →
    endpointP32 e = endpointP e ∨ procAddr (endpointP32 e) = none ∧ s.isokendpt e = none
  stale : ∀ endpt i, s.exitTarget endpt = some i → s.Alive s.procPtr → (s.doExit endpt).2.halt = none →
    ∀ n s', Turns (s.doExit endpt).2 n s' → (n i : Int) < endpointMaxGeneration - 1 →
      s'.isokendpt (s.proc i).pEndpoint = none

/-- The generations that `do_fork` produces go through a cycle, and each can be read off the
endpoints of all slots. -/
structure GenerationExact (g : Int) : Prop where
  decode : ∀ i, endpointP (endpoint g (procNr i)) = procNr i ∧ endpointG (endpoint g (procNr i)) = g ∧
    -2 ^ 31 ≤ endpoint g (procNr i) ∧ endpoint g (procNr i) + 1023 < 2 ^ 31
  next : 0 < nextGeneration g ∧ nextGeneration g < endpointMaxGeneration
  cycle : 0 < g → nextGeneration^[(endpointMaxGeneration - 1).toNat] g = g

/-- In every run of forks, exits and what else the kernel does, an endpoint names one process
that its slot has had. -/
theorem endpoints_exact {s₀ : State} {n : Slot → Nat} (hstart : s₀.Encoded) (hrun : Turns s₀ n s) :
    s.EndpointsExact ∧ ∀ g, 0 ≤ g → g < endpointMaxGeneration → GenerationExact g := by
  have h := hrun.encoded hstart
  refine ⟨⟨fun _ _ => h.injective, h.ne_special, fun e _ => h.isokendpt_iff, fun _ => h.wraps, ?_⟩, ?_⟩
  · intro endpt i htarget hcur hhalt n s' hrest hn
    have hexit := exit_elsewhere h.free hcur endpt
    rw [← hexit.endpoint i]
    exact hrest.stale ((Turns.refl.exit hcur endpt).encoded h) (exit_dead h.free hcur htarget hhalt) hn
  · intro g hpos hmax
    refine ⟨endpoint_decode hpos hmax, ?_, fun hg => ?_⟩
    · rw [nextGeneration_eq hpos hmax]
      unfold endpointMaxGeneration
      omega
    · rw [show (endpointMaxGeneration - 1).toNat = 58738 + 1 from rfl, iterate_nextGeneration hpos hmax]
      unfold endpointMaxGeneration at hmax ⊢
      omega

theorem endpoints_exact_fork :
    queuedForkState.EndpointsExact ∧ queuedForkState.isokendpt (endpoint 1 20) = some childSlot := by
  have hstart : (runOps (bootWith 0) queuedForkOps).Encoded := by
    refine ⟨fun i => ⟨0, by decide, by decide, ?_⟩, ?_⟩
    · revert i
      decide +kernel
    · unfold FreeExact
      decide +kernel
  exact ⟨(endpoints_exact hstart (.fork .refl 2 20 forkEnv)).1, by decide +kernel⟩

end State

end Minix.Kernel
