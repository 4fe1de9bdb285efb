import SysprogLabs.FileSort.Sort
import Mathlib.Algebra.BigOperators.Group.Finset.Basic

/-! # Sharing the files

Each file is unclaimed, in the hands of one coroutine, or its slot is filled.  The invariant carries
a budget of steps for each coroutine, which bounds the run under every schedule.
-/

namespace SysprogLabs.FileSort

open Prog

variable {setup : Setup} {w : Nat → Nat} {s s' : Pool} {c i n : Nat} {label : Label} {labels : List Label}

/-- The file a coroutine has taken. -/
def Control.file : Control → Option Nat
  | .sorting i _ => some i
  | _ => none

/-- What holds of a coroutine by its place in the code; it needs at most `n` more steps for its file. -/
def Control.Fits (setup : Setup) (t : Times) (nextFileIdx c n : Nat) : Control → Prop
  | .start => True
  | .head => t.Started (some c)
  | .sorting i rest => t.Started (some c) ∧ ∃ numbers, setup.files.data[i]? = some numbers ∧
      Sorts (some c) n rest (· = numbers.mergeSort)
  | .finished => nextFileIdx = setup.filesTotal

/-- The slot `i` is empty, with its file unclaimed or in someone's hands, or holds what it should. -/
def Pool.SlotFits (setup : Setup) (s : Pool) (i : Nat) : Prop :=
  (s.destinations[i]? = some none ∧ (s.nextFileIdx ≤ i ∨ ∃ c, (s.control c).file = some i)) ∨
    (i < s.nextFileIdx ∧ ∃ numbers, setup.files.data[i]? = some numbers ∧
      s.destinations[i]? = some (some numbers.mergeSort))

structure Pool.Inv (setup : Setup) (w : Nat → Nat) (s : Pool) : Prop where
  length_eq : s.destinations.length = setup.filesTotal
  next_le : s.nextFileIdx ≤ setup.filesTotal
  fits : ∀ c, (s.control c).Fits setup s.times s.nextFileIdx c (w c)
  slots : ∀ i < setup.filesTotal, s.SlotFits setup i
  taken : ∀ c i, (s.control c).file = some i → i < s.nextFileIdx ∧ s.destinations[i]? = some none
  apart : ∀ c d i, (s.control c).file = some i → (s.control d).file = some i → c = d
  runs : ∀ c, s.running = some c → c < setup.corosTotal ∧ s.control c ≠ .finished
  outside : ∀ c, setup.corosTotal ≤ c → s.control c = .start

theorem Pool.init_inv (setup : Setup) : (Pool.init setup).Inv setup fun _ => 0 where
  length_eq := List.length_replicate
  next_le := Nat.zero_le _
  fits c := trivial
  slots i lt := .inl ⟨by simp [Pool.init, lt], .inl (Nat.zero_le _)⟩
  taken c i holds := by cases holds
  apart c d i holds := by cases holds
  runs c running := by cases running
  outside c _ := rfl

/-! ## One step -/

theorem Pool.goto_control (s : Pool) (c d : Nat) (control : Control) :
    (s.goto c control).control d = if d = c then control else s.control d :=
  Function.update_apply s.control c control d

/-- Started coroutines stay so while another one works. -/
theorem Control.Fits.others {d next : Nat} {control : Control} {t t' : Times} (fits : control.Fits setup t next d n)
    (only : t.OnlyOf (some c) t') (other : d ≠ c) : control.Fits setup t' next d n := by
  have started : t.Started (some d) → t'.Started (some d) := by
    rintro started _ ⟨⟩
    rw [only d (by simpa using Ne.symm other)]
    exact started d rfl
  cases control with
  | start => trivial
  | head => exact started fits
  | sorting i rest => exact ⟨started fits.1, fits.2⟩
  | finished => exact fits

/-- A coroutine that keeps its file goes on, and only touches its own times. -/
theorem Pool.Inv.go_on (inv : s.Inv setup w) {control : Control} {t : Times} {running : Option Nat}
    (same : control.file = (s.control c).file) (only : s.times.OnlyOf (some c) t)
    (fits : control.Fits setup t s.nextFileIdx c n) (inside : c < setup.corosTotal)
    (runs : running = none ∨ running = some c ∧ control ≠ .finished) :
    Pool.Inv setup (Function.update w c n) (Pool.goto { s with times := t, running := running } c control) := by
  have files : ∀ d, ((Pool.goto { s with times := t, running := running } c control).control d).file =
      (s.control d).file := by
    intro d
    rw [Pool.goto_control]
    split
    · next here => rw [here, same]
    · rfl
  refine ⟨inv.length_eq, inv.next_le, fun d => ?_, fun i lt => ?_, fun d i holds => ?_, fun d e i left right => ?_,
    fun d running' => ?_, fun d beyond => ?_⟩
  · rw [Pool.goto_control, Function.update_apply]
    split
    · next here => exact here ▸ fits
    · next other => exact (inv.fits d).others only other
  · simp only [Pool.SlotFits, files]
    exact inv.slots i lt
  · rw [files] at holds
    exact inv.taken d i holds
  · rw [files] at left right
    exact inv.apart d e i left right
  · obtain rfl | ⟨rfl, more⟩ := runs
    · cases running'
    · cases running'
      refine ⟨inside, ?_⟩
      rw [Pool.goto_control, if_pos rfl]
      exact more
  · rw [Pool.goto_control, if_neg (by omega)]
    exact inv.outside d beyond

/-! ## Budgets -/

def Control.weight (n : Nat) : Control → Nat
  | .start => 3
  | .head => 2
  | .sorting _ _ => 2 * n + 3
  | .finished => 0

/-- What the files that are left cost. -/
def Pool.left (setup : Setup) (s : Pool) : Nat :=
  ((setup.files.data.drop s.nextFileIdx).map fun numbers => 16 * numbers.length + 2).sum

/-- The step in which the schedule chooses. -/
def Pool.idle (s : Pool) : Nat := if s.running = none then 1 else 0

/-- How many steps are left, at most. -/
def Pool.measure (setup : Setup) (w : Nat → Nat) (s : Pool) : Nat :=
  ∑ c ∈ Finset.range setup.corosTotal, (s.control c).weight (w c) + (s.left setup + s.idle)

/-- Only the weight of `c` changes. -/
theorem weight_goto (inside : c < setup.corosTotal) (control : Control) (same : s'.control = s.control) :
    ∑ d ∈ Finset.range setup.corosTotal, ((s'.goto c control).control d).weight (Function.update w c n d) +
        (s.control c).weight (w c) =
      ∑ d ∈ Finset.range setup.corosTotal, (s.control d).weight (w d) + control.weight n := by
  have mem : c ∈ Finset.range setup.corosTotal := Finset.mem_range.mpr inside
  rw [← Finset.add_sum_erase _ _ mem, ← Finset.add_sum_erase _ _ mem]
  have others : ∀ d ∈ (Finset.range setup.corosTotal).erase c,
      ((s'.goto c control).control d).weight (Function.update w c n d) = (s.control d).weight (w d) := by
    intro d other
    have apart := Finset.ne_of_mem_erase other
    rw [Pool.goto_control, if_neg apart, Function.update_of_ne apart, same]
  rw [Finset.sum_congr rfl others, Pool.goto_control, if_pos rfl, Function.update_self]
  omega

theorem measure_goto (inside : c < setup.corosTotal) (control : Control) (same : s'.control = s.control)
    (less : control.weight n + (s'.left setup + s'.idle) < (s.control c).weight (w c) + (s.left setup + s.idle)) :
    (s'.goto c control).measure setup (Function.update w c n) < s.measure setup w := by
  have weights := weight_goto (w := w) (n := n) inside control same
  have other : (s'.goto c control).left setup = s'.left setup ∧ (s'.goto c control).idle = s'.idle := ⟨rfl, rfl⟩
  simp only [Pool.measure, other]
  omega

theorem left_claim {numbers : List Int} (file : setup.files.data[s.nextFileIdx]? = some numbers) :
    s.left setup = 16 * numbers.length + 2 + Pool.left setup { s with nextFileIdx := s.nextFileIdx + 1 } := by
  obtain ⟨lt, rfl⟩ := List.getElem?_eq_some_iff.mp file
  rw [Pool.left, List.drop_eq_getElem_cons lt, List.map_cons, List.sum_cons, Pool.left]

/-! ## The steps -/

theorem Setup.sorts (setup : Setup) {numbers : List Int} (file : setup.files.data[i]? = some numbers) :
    Sorts (some c) (8 * numbers.length - 4) (getSortedNumbers setup.clock (some c) setup.depth numbers)
      (· = numbers.mergeSort) := by
  have len := setup.files.len numbers (List.mem_of_getElem? file)
  exact getSortedNumbers_ends len.1 len.2 len.2.le setup.deep

/-- `c` takes the next file. -/
theorem Pool.Inv.claim (inv : s.Inv setup w) {numbers : List Int} {rest : Code Times (List Int)}
    (runs : s.running = some c) (control : s.control c = .head)
    (file : setup.files.data[s.nextFileIdx]? = some numbers) (sorts : Sorts (some c) n rest (· = numbers.mergeSort)) :
    Pool.Inv setup (Function.update w c n)
      (Pool.goto { s with nextFileIdx := s.nextFileIdx + 1 } c (.sorting s.nextFileIdx rest)) := by
  have inside := (inv.runs c runs).1
  have lt : s.nextFileIdx < setup.filesTotal := (List.getElem?_eq_some_iff.mp file).1
  have started : s.times.Started (some c) := by
    have fits := inv.fits c
    rwa [control] at fits
  have fresh : s.destinations[s.nextFileIdx]? = some none := by
    obtain ⟨empty, -⟩ | ⟨before, -⟩ := inv.slots s.nextFileIdx lt
    · exact empty
    · exact absurd before (Nat.lt_irrefl _)
  have files : ∀ d i, ((Pool.goto { s with nextFileIdx := s.nextFileIdx + 1 } c
      (.sorting s.nextFileIdx rest)).control d).file = some i →
        d = c ∧ i = s.nextFileIdx ∨ d ≠ c ∧ (s.control d).file = some i := by
    intro d i holds
    rw [Pool.goto_control] at holds
    split at holds
    · next here =>
      cases holds
      exact .inl ⟨here, rfl⟩
    · next other => exact .inr ⟨other, holds⟩
  refine ⟨inv.length_eq, lt, fun d => ?_, fun i within => ?_, fun d i holds => ?_, fun d e i left right => ?_,
    fun d running => ?_, fun d beyond => ?_⟩
  · rw [Pool.goto_control, Function.update_apply]
    split
    · next here =>
      subst here
      exact ⟨started, numbers, file, sorts⟩
    · next other =>
      have fits := inv.fits d
      cases place : s.control d with
      | finished =>
        rw [place] at fits
        exact absurd fits (Nat.ne_of_lt lt)
      | start | head | sorting =>
        rw [place] at fits
        exact fits
  · obtain ⟨empty, later | ⟨d, holds⟩⟩ | ⟨before, filled⟩ := inv.slots i within
    · refine .inl ⟨empty, ?_⟩
      obtain rfl | later := Nat.eq_or_lt_of_le later
      · exact .inr ⟨c, by rw [Pool.goto_control, if_pos rfl]; rfl⟩
      · exact .inl later
    · refine .inl ⟨empty, .inr ⟨d, ?_⟩⟩
      have other : d ≠ c := by
        rintro rfl
        rw [control] at holds
        cases holds
      rwa [Pool.goto_control, if_neg other]
    · exact .inr ⟨Nat.lt_succ_of_lt before, filled⟩
  · obtain ⟨rfl, rfl⟩ | ⟨other, holds⟩ := files d i holds
    · exact ⟨Nat.lt_succ_self _, fresh⟩
    · exact ⟨Nat.lt_succ_of_lt (inv.taken d i holds).1, (inv.taken d i holds).2⟩
  · obtain ⟨rfl, rfl⟩ | ⟨-, old⟩ := files d i left
    · obtain ⟨rfl, -⟩ | ⟨-, old'⟩ := files e _ right
      · rfl
      · exact absurd (inv.taken e _ old').1 (Nat.lt_irrefl _)
    · obtain ⟨rfl, rfl⟩ | ⟨-, old'⟩ := files e i right
      · exact absurd (inv.taken d _ old).1 (Nat.lt_irrefl _)
      · exact inv.apart d e i old old'
  · have here : d = c := Option.some.inj (running.symm.trans runs)
    subst here
    exact ⟨inside, by simp [Pool.goto_control]⟩
  · rw [Pool.goto_control, if_neg (by omega)]
    exact inv.outside d beyond

/-- `c` fills the slot of its file. -/
theorem Pool.Inv.write (inv : s.Inv setup w) {numbers : List Int} (runs : s.running = some c)
    (control : s.control c = .sorting i (.done numbers)) :
    Pool.Inv setup w (Pool.goto { s with destinations := s.destinations.set i (some numbers) } c .head) := by
  have inside := (inv.runs c runs).1
  have mine : (s.control c).file = some i := by rw [control]; rfl
  obtain ⟨before, empty⟩ := inv.taken c i mine
  have fits := inv.fits c
  rw [control] at fits
  obtain ⟨started, data, file, sorts⟩ := fits
  have sorted := sorts.result
  have files : ∀ d j, ((Pool.goto { s with destinations := s.destinations.set i (some numbers) } c
      .head).control d).file = some j → d ≠ c ∧ (s.control d).file = some j := by
    intro d j holds
    rw [Pool.goto_control] at holds
    split at holds
    · cases holds
    · next other => exact ⟨other, holds⟩
  refine ⟨?_, inv.next_le, fun d => ?_, fun j within => ?_, fun d j holds => ?_, fun d e j left right => ?_,
    fun d running => ?_, fun d beyond => ?_⟩
  · exact List.length_set.trans inv.length_eq
  · rw [Pool.goto_control]
    split
    · next here => exact here ▸ started
    · exact inv.fits d
  · by_cases here : j = i
    · subst here
      refine .inr ⟨before, data, file, ?_⟩
      have room : j < s.destinations.length := (List.getElem?_eq_some_iff.mp empty).1
      change (s.destinations.set j (some numbers))[j]? = _
      rw [List.getElem?_set_self room, sorted]
    · have same : (s.destinations.set i (some numbers))[j]? = s.destinations[j]? := List.getElem?_set_ne (Ne.symm here)
      obtain ⟨empty, later | ⟨d, holds⟩⟩ | ⟨before, data, file, filled⟩ := inv.slots j within
      · exact .inl ⟨same.trans empty, .inl later⟩
      · refine .inl ⟨same.trans empty, .inr ⟨d, ?_⟩⟩
        have other : d ≠ c := by
          rintro rfl
          exact here (Option.some.inj (holds.symm.trans mine))
        rwa [Pool.goto_control, if_neg other]
      · exact .inr ⟨before, data, file, same.trans filled⟩
  · obtain ⟨other, holds⟩ := files d j holds
    have apart : i ≠ j := by
      rintro rfl
      exact other (inv.apart d c i holds mine)
    obtain ⟨before, empty⟩ := inv.taken d j holds
    exact ⟨before, (List.getElem?_set_ne apart).trans empty⟩
  · exact inv.apart d e j (files d j left).2 (files e j right).2
  · have here : d = c := Option.some.inj (running.symm.trans runs)
    subst here
    exact ⟨inside, by simp [Pool.goto_control]⟩
  · rw [Pool.goto_control, if_neg (by omega)]
    exact inv.outside d beyond

/-- Each step keeps the invariant and spends some of the budget. -/
theorem Step.inv (step : Step setup s label s') (inv : s.Inv setup w) :
    ∃ w', s'.Inv setup w' ∧ s'.measure setup w' < s.measure setup w := by
  cases step with
  | @resume c idle valid more =>
    refine ⟨w, ⟨inv.length_eq, inv.next_le, inv.fits, inv.slots, inv.taken, inv.apart, ?_, inv.outside⟩, ?_⟩
    · rintro d ⟨⟩
      exact ⟨valid, more⟩
    · simp [Pool.measure, Pool.left, Pool.idle, idle]
  | @start c t runs control set =>
    have after := setCoroTimestamp_returns.of_returns set
    have inside := (inv.runs c runs).1
    refine ⟨_, inv.go_on (n := 0) (by rw [control]; rfl) after.2 after.1 inside (.inr ⟨runs, by simp⟩), ?_⟩
    refine measure_goto inside _ (by rfl) ?_
    simp [control, Control.weight, Pool.left, Pool.idle]
  | @claim c numbers runs control left file =>
    have inside := (inv.runs c runs).1
    refine ⟨_, inv.claim runs control file (setup.sorts file), ?_⟩
    refine measure_goto inside _ (by rfl) ?_
    rw [left_claim file, control]
    simp only [Control.weight, Pool.idle]
    omega
  | @act c i β p rest b t runs control returned =>
    have inside := (inv.runs c runs).1
    have fits := inv.fits c
    rw [control] at fits
    obtain ⟨started, numbers, file, sorts⟩ := fits
    cases budget : w c with
    | zero =>
      rw [budget] at sorts
      exact sorts.elim
    | succ n =>
      rw [budget] at sorts
      obtain ⟨started', only, sorts'⟩ := (sorts s.times started).of_returns returned
      refine ⟨_, inv.go_on (by rw [control]; rfl) only ⟨started', numbers, file, sorts'⟩ inside (.inr ⟨runs, by simp⟩), ?_⟩
      refine measure_goto inside _ (by rfl) ?_
      simp [control, Control.weight, Pool.left, Pool.idle, budget]
  | @yield c i rest runs control =>
    have inside := (inv.runs c runs).1
    have fits := inv.fits c
    rw [control] at fits
    obtain ⟨started, numbers, file, sorts⟩ := fits
    cases budget : w c with
    | zero =>
      rw [budget] at sorts
      exact sorts.elim
    | succ n =>
      rw [budget] at sorts
      have same : Times.OnlyOf (some c) s.times s.times := fun _ _ => rfl
      refine ⟨_, inv.go_on (by rw [control]; rfl) same ⟨started, numbers, file, sorts⟩ inside (.inl rfl), ?_⟩
      refine measure_goto inside _ (by rfl) ?_
      simp only [control, Control.weight, Pool.left, Pool.idle, budget, runs]
      simp
      omega
  | @write c i numbers runs control room =>
    have inside := (inv.runs c runs).1
    refine ⟨w, inv.write runs control, ?_⟩
    have less : Pool.measure setup (Function.update w c (w c))
        (Pool.goto { s with destinations := s.destinations.set i (some numbers) } c .head) < s.measure setup w := by
      refine measure_goto inside _ (by rfl) ?_
      simp [control, Control.weight, Pool.left, Pool.idle]
    rwa [Function.update_eq_self] at less
  | @finish c t runs control none_left updated =>
    have inside := (inv.runs c runs).1
    have fits := inv.fits c
    rw [control] at fits
    have after := (updateCoroWorkTime_returns fits).of_returns updated
    have all : s.nextFileIdx = setup.filesTotal := Nat.le_antisymm inv.next_le none_left
    refine ⟨_, inv.go_on (n := 0) (by rw [control]; rfl) after.2 all inside (.inl rfl), ?_⟩
    refine measure_goto inside _ (by rfl) ?_
    simp only [control, Control.weight, Pool.left, Pool.idle, runs, reduceCtorEq, if_true, if_false]
    omega

end SysprogLabs.FileSort
