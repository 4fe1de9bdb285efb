import SysprogLabs.FileSort.Schedules

/-! # The recursion of the sort

`get_sorted_numbers` halves its array unless the length is 1 or 2.  From a length of at least one it
gets to shorter arrays only; the array without elements is its own half, and `main` passes it on when
there is no file.
-/

namespace SysprogLabs.FileSort

open Prog

variable {clock : Nat → Timespec} {ctx : Option Nat} {numbers half : List Int} {t : Times}

/-! ## The calls -/

/-- A call with `numbers` calls itself with `half`. -/
inductive Calls (numbers : List Int) : List Int → Prop where
  | left (one : numbers.length ≠ 1) (two : numbers.length ≠ 2) : Calls numbers (numbers.take (numbers.length / 2))
  | right (one : numbers.length ≠ 1) (two : numbers.length ≠ 2) : Calls numbers (numbers.drop (numbers.length / 2))

/-- There are no other calls. -/
theorem sortBody_congr {self self' : List Int → Code Times (List Int)}
    (same : ∀ half, Calls numbers half → self half = self' half) :
    sortBody clock ctx self numbers = sortBody clock ctx self' numbers := by
  by_cases one : numbers.length = 1
  · simp only [sortBody, if_pos one]
  · by_cases two : numbers.length = 2
    · simp only [sortBody, if_neg one, if_pos two]
    · simp only [sortBody, if_neg one, if_neg two]
      rw [same _ (.left one two), same _ (.right one two)]

theorem Calls.nonempty (calls : Calls numbers half) (some : 1 ≤ numbers.length) :
    1 ≤ half.length ∧ half.length < numbers.length := by
  cases calls with
  | left one two =>
    rw [List.length_take]
    omega
  | right one two =>
    rw [List.length_drop]
    omega

/-! ## The array without elements -/

/-- Whatever room the stack has, it is used up. -/
theorem empty_never_returns (depth : Nat) : (getSortedNumbers clock ctx depth []).straight.NoReturn t := by
  have never : (getSortedNumbers clock ctx depth []).straight.Yields t fun _ _ => False := by
    induction depth generalizing t with
    | zero => exact yields_bind.mpr yields_fault
    | succ depth ih =>
      rw [getSortedNumbers, sortBody]
      -- The first call has the same array.
      exact Code.yields_straight_bind.mpr (Code.yields_straight_bind.mpr (ih.mono fun _ _ absurd => absurd.elim))
  exact fun sorted t' returned => never sorted t' returned

/-! ## What is passed on -/

/-- The arrays that are passed to `get_sorted_numbers` in runs with these files. -/
inductive Passed (files : Files) : List Int → Prop where
  /-- By a coroutine. -/
  | file {numbers : List Int} (mem : numbers ∈ files.data) : Passed files numbers
  /-- By `main`, with `final_length`. -/
  | final {setup : Setup} {labels : List Label} {s : Pool} {t t' : Times} {finalLength : Int} {numbers : List Int}
      (files_eq : setup.files = files) (run : Run (Step setup) (.init setup) labels s) (finished : s.Finished setup)
      (sum : (sumLengths s.destinations setup.filesTotal).Returns t finalLength t')
      (length_eq : numbers.length = finalLength) : Passed files numbers
  /-- By `get_sorted_numbers`. -/
  | inner {numbers half : List Int} (passed : Passed files numbers) (calls : Calls numbers half) : Passed files half

/-- Without coroutines nothing is filled. -/
theorem no_coroutine {setup : Setup} {labels : List Label} {s : Pool} (run : Run (Step setup) (.init setup) labels s)
    (none : setup.corosTotal = 0) : s = .init setup := by
  cases run with
  | nil => rfl
  | cons one rest =>
    cases one with
    | resume idle valid more => omega
    | _ runs => cases runs

theorem sumLengths_unfilled {n : Nat} {total : Int} {t' : Times} (some : 0 < n) :
    ¬ (sumLengths (List.replicate n none) n).Returns t total t' := by
  have stuck : (sumLengths (List.replicate n none) n : Prog Times Int).Yields t fun _ _ => False := by
    -- The first slot is read, and has no value.
    refine yields_loop (fun a _ => a = (0, 0)) ?_ rfl
    rintro a t rfl
    simp [sumRound, slot, some]
  exact stuck total t'

theorem Passed.length {files : Files} (passed : Passed files numbers) (some : files.data ≠ []) :
    1 ≤ numbers.length ∧ numbers.length < 2 ^ 31 := by
  induction passed with
  | file mem => exact files.len _ mem
  | @final setup labels s t t' finalLength numbers files_eq run finished sum length_eq =>
    obtain rfl := files_eq
    obtain none | coros := Nat.eq_zero_or_pos setup.corosTotal
    · obtain rfl := no_coroutine run none
      exact absurd sum (sumLengths_unfilled (List.length_pos_of_ne_nil some))
    · have slots := Runs.slots_eq ⟨rfl, coros, run⟩ finished
      rw [slots, ← setup.slots_length] at sum
      have fits := sumLengths_fits sum
      have total := (sumLengths_returns fits).of_returns sum
      have one := one_le_flatten some fun numbers mem => (setup.files.len numbers mem).1
      rw [← slots_length_eq] at one
      omega
  | inner passed calls ih =>
    obtain ⟨nonempty, shorter⟩ := calls.nonempty ih.1
    exact ⟨nonempty, shorter.trans ih.2⟩

/-- Without a file `main` does not come back from the sort. -/
theorem main_never_returns {setup : Setup} (none : setup.files.data = []) : (mainEnd setup []).NoReturn t := by
  have no_files : setup.filesTotal = 0 := by rw [Setup.filesTotal, none, List.length_nil]
  have empty : (concatenation [] 0 : Prog Times _).Ensures t fun cells t' => t' = t ∧ cells = [] :=
    @concatenation_returns Times t [] (by simp)
  have never : (mainEnd setup []).Yields t fun _ _ => False := by
    rw [mainEnd, no_files]
    refine yields_bind.mpr (empty.yields.mono fun cells t' read => ?_)
    obtain ⟨rfl, rfl⟩ := read
    refine yields_bind.mpr (yields_require.mpr fun numbers loaded => ?_)
    obtain rfl : [] = numbers := Option.some.inj loaded
    exact fun sorted t' returned => (empty_never_returns setup.depth sorted t' returned).elim
  exact fun written t' returned => never written t' returned

end SysprogLabs.FileSort
