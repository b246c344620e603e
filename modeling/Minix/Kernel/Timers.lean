/-
  Kernel/Timers.lean --- what the timer functions write, and the list they keep.

  The functions of `lib/timers` write timer records and the head of the list, and
  nothing else.  The erasure `State.untimed` forgets these fields; every other field
  is equal by congruence.

  Of the timer records themselves they write links and, for the timer they are about,
  the expiration time and the watchdog.  So a function is described by what it does to
  the list of the active timers and to the records without their links.
-/
import Mathlib.Data.Fintype.Sum
import Mathlib.Data.Fintype.Option
import Mathlib.Data.Fintype.Card
import Mathlib.Data.List.TakeWhile
import Minix.Kernel.Clock

set_option autoImplicit false

namespace Minix.Kernel

open Minix.Foundation Links

/-- An entry without its deadline timer. -/
def Proc.untimed (p : Proc) : Proc := { p with pDeadline := ⟨none, 0, none, 0⟩ }

/-- A privilege structure without its alarm timer. -/
def Priv.untimed (sp : Priv) : Priv := { sp with sAlarmTimer := ⟨none, 0, none, 0⟩ }

namespace State

/-- The state without the timers. -/
def untimed (s : State) : State :=
  { s with
    proc := fun i => (s.proc i).untimed
    priv := fun sp => (s.priv sp).untimed
    clockTimers := none
    nextTimeout := 0
    queueTimer := ⟨none, 0, none, 0⟩
    halt := none }

variable {s s' : State}

variable (s)

@[simp] theorem untimed_modTimer (tp : TimerId) {f : Timer → Timer} :
    (s.modTimer tp f).untimed = s.untimed := by
  cases tp with
  | deadline rp =>
    have hproc : ∀ i, ((s.modTimer (.deadline rp) f).proc i).untimed =
        (s.proc i).untimed := by
      intro i
      unfold modTimer
      exact s.modProc_congr rp Proc.untimed rfl i
    simp only [untimed, hproc]
    rfl
  | alarm sp =>
    have hpriv : ∀ p, ((s.modTimer (.alarm sp) f).priv p).untimed = (s.priv p).untimed := by
      intro p
      simp only [modTimer, modPriv_priv]
      split_ifs with hp
      · rw [hp]
        rfl
      · rfl
    simp only [untimed, hpriv]
    rfl
  | queue => rfl

@[simp] theorem untimed_setTimerLink (r : Ref Unit TimerId) (v : Option TimerId) :
    (s.setTimerLink r v).untimed = s.untimed := by
  cases r with
  | head _ => rfl
  | next tp => exact untimed_modTimer s tp

@[simp] theorem untimed_tmrsClrtimer {tp : TimerId} :
    (s.tmrsClrtimer tp).untimed = s.untimed := by
  unfold tmrsClrtimer
  dsimp only
  split
  · exact untimed_modTimer s tp
  · split
    · exact untimed_modTimer s tp
    · rw [untimed_setTimerLink, untimed_modTimer]

@[simp] theorem untimed_tmrsSettimer {tp : TimerId} {expTime : Int} {watchdog : Watchdog} :
    (s.tmrsSettimer tp expTime watchdog).untimed = s.untimed := by
  unfold tmrsSettimer
  dsimp only
  split
  · exact (untimed_modTimer _ tp).trans (untimed_tmrsClrtimer s)
  · rw [untimed_setTimerLink, untimed_setTimerLink, untimed_modTimer, untimed_tmrsClrtimer]

@[simp] theorem untimed_setTimer (tp : TimerId) (expTime : Int) (watchdog : Watchdog) :
    (s.setTimer tp expTime watchdog).untimed = s.untimed :=
  untimed_tmrsSettimer s

@[simp] theorem untimed_resetTimer (tp : TimerId) : (s.resetTimer tp).untimed = s.untimed :=
  untimed_tmrsClrtimer s

end State

/-! ## The list of active timers -/

/-- A timer without its link. -/
def Timer.unlinked (t : Timer) : Timer := { t with tmrNext := none }

/-- The places where timers are. -/
def TimerId.place : TimerId ≃ (Slot ⊕ PrivPtr) ⊕ Unit where
  toFun
    | .deadline rp => .inl (.inl rp)
    | .alarm sp => .inl (.inr sp)
    | .queue => .inr ()
  invFun
    | .inl (.inl rp) => .deadline rp
    | .inl (.inr sp) => .alarm sp
    | .inr () => .queue
  left_inv tp := by cases tp <;> rfl
  right_inv p := by rcases p with (rp | sp) | _ <;> rfl

instance : Fintype TimerId := Fintype.ofEquiv _ TimerId.place.symm

theorem card_timerId : Fintype.card TimerId = State.nrTimers := by
  rw [Fintype.card_congr TimerId.place]
  simp only [Fintype.card_sum, Fintype.card_option, Fintype.card_fin, Fintype.card_unit]
  rfl

namespace State

variable (s : State) (tp : TimerId)

@[simp] theorem timer_modTimer (f : Timer → Timer) (tq : TimerId) :
    (s.modTimer tp f).timer tq = if tq = tp then f (s.timer tp) else s.timer tq := by
  cases tp <;> cases tq <;> simp [modTimer, timer]
  all_goals split <;> simp_all

@[simp] theorem clockTimers_modTimer (f : Timer → Timer) :
    (s.modTimer tp f).clockTimers = s.clockTimers := by
  cases tp <;> rfl

theorem get_timerLinks_setTimerLink (r c : Ref Unit TimerId) (v : Option TimerId) :
    (s.setTimerLink r v).timerLinks.get c = if c = r then v else s.timerLinks.get c := by
  cases r with
  | head _ =>
    cases c with
    | head _ => simp [setTimerLink, timerLinks, get_head]
    | next tq =>
      have htimer : ({ s with clockTimers := v } : State).timer tq = s.timer tq := by
        cases tq <;> rfl
      simp [setTimerLink, timerLinks, get_next, htimer]
  | next tp =>
    cases c with
    | head _ => simp [setTimerLink, timerLinks, get_head]
    | next tq =>
      simp only [setTimerLink, timerLinks, get_next, timer_modTimer, Ref.next.injEq]
      split <;> rfl

theorem unlinked_timer_setTimerLink {r : Ref Unit TimerId} {v : Option TimerId} {tq : TimerId} :
    ((s.setTimerLink r v).timer tq).unlinked = (s.timer tq).unlinked := by
  cases r with
  | head _ => cases tq <;> rfl
  | next tp =>
    simp only [setTimerLink, timer_modTimer]
    split_ifs with htq
    · rw [htq]
      rfl
    · rfl

/-- A change of a timer that leaves its link alone leaves the list alone. -/
theorem timerLinks_modTimer {f : Timer → Timer}
    (hf : (f (s.timer tp)).tmrNext = (s.timer tp).tmrNext) :
    (s.modTimer tp f).timerLinks = s.timerLinks := by
  simp only [timerLinks, clockTimers_modTimer, timer_modTimer, Links.mk.injEq, true_and]
  funext tq
  split_ifs with htq
  · rw [htq, hf]
  · rfl

/-- A timer is taken off the list, if it is on it. -/
theorem path_tmrsClrtimer {L : List TimerId} (h : s.timerLinks.Path (.head ()) L) :
    (s.tmrsClrtimer tp).timerLinks.Path (.head ()) (L.erase tp) := by
  have hlinks : (s.modTimer tp fun t => { t with tmrExpTime := tmrNever }).timerLinks =
      s.timerLinks := timerLinks_modTimer s tp rfl
  have hlength : L.length ≤ nrTimers := card_timerId ▸ h.length_le
  unfold tmrsClrtimer
  dsimp only
  rw [hlinks]
  by_cases hmem : tp ∈ L
  · obtain ⟨before, after, rfl, hnot⟩ := List.eq_append_cons_of_mem hmem
    have hseek : s.timerLinks.seek (fun x => x == tp) (nrTimers + 1) (.head ()) =
        some (lastRef (.head ()) before) := by
      refine h.seek_eq ?_ ?_ ?_
      · intro x hx
        exact beq_eq_false_iff_ne.mpr fun heq => hnot (heq ▸ hx)
      · rintro x ⟨⟩
        simp
      · rw [List.length_append] at hlength
        omega
    have hget : s.timerLinks.get (lastRef (.head ()) before) = some tp := h.get_lastRef
    rw [hseek]
    dsimp only
    rw [hget, List.erase_append_right _ hnot, List.erase_cons_head]
    refine h.unlink ?_ ?_ ?_
    · rw [get_timerLinks_setTimerLink, if_pos rfl]
      simp [timerLinks]
    · intro x _ hx
      have hother := get_timerLinks_setTimerLink
        (s.modTimer tp fun t => { t with tmrExpTime := tmrNever })
        (lastRef (.head ()) before) (.next x)
      simpa [hx, hlinks, get_next] using hother _
    · intro hne
      rw [get_timerLinks_setTimerLink, if_neg hne, hlinks]
  · have hseek : s.timerLinks.seek (fun x => x == tp) (nrTimers + 1) (.head ()) =
        some (lastRef (.head ()) L) := by
      have hpath : s.timerLinks.Path (.head ()) (L ++ []) := by rwa [List.append_nil]
      refine hpath.seek_eq ?_ (by simp) (by omega)
      intro x hx
      exact beq_eq_false_iff_ne.mpr fun heq => hmem (heq ▸ hx)
    have hget : s.timerLinks.get (lastRef (.head ()) L) = none := by
      have hpath : s.timerLinks.Path (.head ()) (L ++ []) := by rwa [List.append_nil]
      exact hpath.get_lastRef
    rw [hseek]
    dsimp only
    rw [hget, List.erase_of_not_mem hmem, hlinks]
    exact h

/-- Unlinking a timer marks it as inactive and leaves the other records alone. -/
theorem unlinked_timer_tmrsClrtimer (tq : TimerId) :
    ((s.tmrsClrtimer tp).timer tq).unlinked =
      if tq = tp then { (s.timer tp).unlinked with tmrExpTime := tmrNever }
      else (s.timer tq).unlinked := by
  have hmod : ((s.modTimer tp fun t => { t with tmrExpTime := tmrNever }).timer tq).unlinked =
      if tq = tp then { (s.timer tp).unlinked with tmrExpTime := tmrNever }
      else (s.timer tq).unlinked := by
    rw [timer_modTimer]
    split <;> rfl
  rw [← hmod]
  unfold tmrsClrtimer
  dsimp only
  split
  · cases tq <;> rfl
  · split
    · rfl
    · exact unlinked_timer_setTimerLink _

/-- A timer is put on the list, behind those that expire no later than it and in front of
the first that expires later.  If it is on the list, it is taken off first. -/
theorem path_tmrsSettimer {L : List TimerId} (h : s.timerLinks.Path (.head ()) L)
    {expTime : Int} {watchdog : Watchdog} :
    ∃ before after, before ++ after = L.erase tp ∧
      (∀ x ∈ before, (s.timer x).tmrExpTime ≤ expTime) ∧
      (∀ x, after.head? = some x → expTime < (s.timer x).tmrExpTime) ∧
      (s.tmrsSettimer tp expTime watchdog).timerLinks.Path (.head ()) (before ++ tp :: after) := by
  have hclear := path_tmrsClrtimer s tp h
  set s1 := (s.tmrsClrtimer tp).modTimer tp fun t =>
    { t with tmrExpTime := expTime, tmrFunc := some watchdog } with hs1
  have hlinks : s1.timerLinks = (s.tmrsClrtimer tp).timerLinks := timerLinks_modTimer _ tp rfl
  rw [← hlinks] at hclear
  set later : TimerId → Bool := fun x => decide (expTime < (s1.timer x).tmrExpTime) with hlater
  -- the walk stops in front of the first later timer
  have hsplit : (L.erase tp).takeWhile (fun x => !later x) ++
      (L.erase tp).dropWhile (fun x => !later x) = L.erase tp := List.takeWhile_append_dropWhile
  set before := (L.erase tp).takeWhile fun x => !later x
  set after := (L.erase tp).dropWhile fun x => !later x with hafter
  rw [← hsplit] at hclear
  have hlength : (before ++ after).length ≤ nrTimers := card_timerId ▸ hclear.length_le
  have hnot : tp ∉ before ++ after := by
    rw [hsplit]
    exact h.nodup.not_mem_erase
  have hearly : ∀ x ∈ before, later x = false := by
    intro x hx
    simpa using List.mem_takeWhile_imp hx
  have hlate : ∀ x, after.head? = some x → later x = true := by
    intro x hx
    have hhead := List.head?_dropWhile_not (fun x => !later x) (L.erase tp)
    rw [← hafter, hx] at hhead
    simpa using hhead
  have hseek : s1.timerLinks.seek later (nrTimers + 1) (.head ()) =
      some (lastRef (.head ()) before) := by
    refine hclear.seek_eq hearly hlate ?_
    rw [List.length_append] at hlength
    omega
  have hexp : ∀ x ∈ before ++ after, (s1.timer x).tmrExpTime = (s.timer x).tmrExpTime := by
    intro x hx
    have hne : x ≠ tp := fun heq => hnot (heq ▸ hx)
    have hother := s.unlinked_timer_tmrsClrtimer tp x
    rw [if_neg hne] at hother
    have hsame := congrArg Timer.tmrExpTime hother
    rw [hs1, timer_modTimer, if_neg hne]
    exact hsame
  have hresult : s.tmrsSettimer tp expTime watchdog =
      (s1.setTimerLink (.next tp) (s1.timerLinks.get (lastRef (.head ()) before))).setTimerLink
        (lastRef (.head ()) before) (some tp) := by
    unfold tmrsSettimer
    dsimp only
    rw [← hs1, ← hlater, hseek]
  have hne : Ref.next tp ≠ lastRef (.head ()) before := by
    intro heq
    cases hcase : before with
    | nil => rw [hcase] at heq; simp at heq
    | cons x xs =>
      obtain ⟨y, hy, hend⟩ := exists_lastRef_cons (Ref.head ()) x xs
      rw [hcase, hend] at heq
      rw [Ref.next.injEq] at heq
      exact hnot (List.mem_append_left _ (hcase ▸ heq ▸ hy))
  refine ⟨before, after, hsplit, ?_, ?_, ?_⟩
  · intro x hx
    rw [← hexp x (List.mem_append_left _ hx)]
    simpa [hlater] using hearly x hx
  · intro x hx
    rw [← hexp x (List.mem_append_right _ (List.mem_of_head? hx))]
    simpa [hlater] using hlate x hx
  · rw [hresult]
    refine hclear.insert hnot (by simp) ?_ ?_ ?_
    · rw [get_timerLinks_setTimerLink, if_pos rfl]
    · rw [← get_next, get_timerLinks_setTimerLink, if_neg hne, get_timerLinks_setTimerLink,
        if_pos rfl]
    · intro c hc hc'
      rw [get_timerLinks_setTimerLink, if_neg hc, get_timerLinks_setTimerLink, if_neg hc']

/-- Linking a timer sets its expiration time and its watchdog. -/
theorem unlinked_timer_tmrsSettimer {expTime : Int} {watchdog : Watchdog} {tq : TimerId} :
    ((s.tmrsSettimer tp expTime watchdog).timer tq).unlinked =
      if tq = tp then
        { (s.timer tp).unlinked with tmrExpTime := expTime, tmrFunc := some watchdog }
      else (s.timer tq).unlinked := by
  have hmod : (((s.tmrsClrtimer tp).modTimer tp fun t =>
      { t with tmrExpTime := expTime, tmrFunc := some watchdog }).timer tq).unlinked =
        if tq = tp then
          { (s.timer tp).unlinked with tmrExpTime := expTime, tmrFunc := some watchdog }
        else (s.timer tq).unlinked := by
    have hclear := unlinked_timer_tmrsClrtimer s tp
    rw [timer_modTimer]
    split_ifs with hne
    · have hself := hclear tp
      rw [if_pos rfl] at hself
      have harg : ((s.tmrsClrtimer tp).timer tp).tmrArg = (s.timer tp).tmrArg := by
        have hargs := congrArg Timer.tmrArg hself
        exact hargs
      simp [Timer.unlinked, harg]
    · rw [hclear tq, if_neg hne]
  rw [← hmod]
  unfold tmrsSettimer
  dsimp only
  split
  · cases tq <;> rfl
  · rw [unlinked_timer_setTimerLink, unlinked_timer_setTimerLink]

theorem path_setTimer {L : List TimerId} (h : s.timerLinks.Path (.head ()) L)
    (expTime : Int) (watchdog : Watchdog) :
    ∃ L', (s.setTimer tp expTime watchdog).timerLinks.Path (.head ()) L' ∧
      ∀ x, x ∈ L' ↔ x = tp ∨ x ∈ L := by
  obtain ⟨before, after, hsplit, -, -, hpath⟩ := path_tmrsSettimer s tp h
  refine ⟨_, hpath, fun x => ?_⟩
  have hmem : x ∈ before ++ after ↔ x ≠ tp ∧ x ∈ L := by
    rw [hsplit]
    exact h.nodup.mem_erase_iff
  rw [List.mem_append] at hmem
  rw [List.mem_append, List.mem_cons, or_left_comm, hmem]
  tauto

theorem path_resetTimer {L : List TimerId} (h : s.timerLinks.Path (.head ()) L) :
    (s.resetTimer tp).timerLinks.Path (.head ()) (L.erase tp) := by
  exact path_tmrsClrtimer s tp h

theorem unlinked_timer_setTimer (expTime : Int) (watchdog : Watchdog) (tq : TimerId) :
    ((s.setTimer tp expTime watchdog).timer tq).unlinked =
      if tq = tp then
        { (s.timer tp).unlinked with tmrExpTime := expTime, tmrFunc := some watchdog }
      else (s.timer tq).unlinked := by
  exact unlinked_timer_tmrsSettimer s tp

theorem unlinked_timer_resetTimer (tq : TimerId) :
    ((s.resetTimer tp).timer tq).unlinked =
      if tq = tp then { (s.timer tp).unlinked with tmrExpTime := tmrNever }
      else (s.timer tq).unlinked := by
  exact unlinked_timer_tmrsClrtimer s tp tq

end State

end Minix.Kernel
