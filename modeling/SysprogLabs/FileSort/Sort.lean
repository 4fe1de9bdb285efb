import SysprogLabs.FileSort.Merge
import Mathlib.Data.List.Sort
import Mathlib.Data.Nat.Log

/-! # Sorting

`get_sorted_numbers` ends with the sorted array, whoever runs at its yields.  It only merges halves of
an array whose length is an `int`; `merge_sorted_arrays` by itself is right, and writes each cell of its
result once, if and only if the two lengths add up to an `int`.
-/

namespace SysprogLabs.FileSort

open Prog

variable {clock : Nat → Timespec} {ctx : Option Nat} {t : Times} {c : Nat}

/-! ## Times -/

/-- The context has a timestamp. -/
def Times.Started (ctx : Option Nat) (t : Times) : Prop := ∀ c, ctx = some c → (t.ctx c).prevTimestamp ≠ none

/-- The other contexts stay as they are. -/
def Times.OnlyOf (ctx : Option Nat) (t t' : Times) : Prop := ∀ c, ctx ≠ some c → t'.ctx c = t.ctx c

theorem setCoroTimestamp_returns :
    (setCoroTimestamp clock c).Ensures t fun _ t' => Times.Started (some c) t' ∧ Times.OnlyOf (some c) t t' := by
  simp [setCoroTimestamp, clockGettime, setCtx, Times.Started, Times.OnlyOf, Function.update_apply, eq_comm]
  exact fun d other same => absurd same other

theorem updateCoroWorkTime_returns (started : Times.Started (some c) t) :
    (updateCoroWorkTime clock c).Ensures t fun _ t' => Times.Started (some c) t' ∧ Times.OnlyOf (some c) t t' := by
  obtain ⟨prev, set⟩ := Option.ne_none_iff_exists'.mp (started c rfl)
  simp [updateCoroWorkTime, clockGettime, setCtx, Times.Started, Times.OnlyOf, set, Function.update_apply, eq_comm]
  exact fun d other same => absurd same other

/-- Code that only touches the times of its own context. -/
def Sorts (ctx : Option Nat) (n : Nat) {α : Type} (code : Code Times α) (Q : α → Prop) : Prop :=
  code.Ends (Times.Started ctx) (Times.OnlyOf ctx) Q n

theorem Sorts.result {α : Type} {n : Nat} {a : α} {Q : α → Prop} (sorts : Sorts ctx n (.done a) Q) : Q a :=
  Code.Ends.result sorts

theorem sorts_pure {α : Type} {p : Prog Times α} {Q : α → Prop} (ensured : ∀ t, p.Ensures t fun a t' => t' = t ∧ Q a) :
    Sorts ctx 1 (.lift p) Q := by
  refine Code.Ends.lift fun t started => (ensured t).mono fun a t' after => ?_
  obtain ⟨rfl, holds⟩ := after
  exact ⟨started, fun _ _ => rfl, holds⟩

theorem whenCtx_ends {f : Nat → Prog Times Unit}
    (ensured : ∀ c t, Times.Started (some c) t → (f c).Ensures t fun _ t' =>
      Times.Started (some c) t' ∧ Times.OnlyOf (some c) t t') : Sorts ctx 1 (whenCtx ctx f) fun _ => True := by
  cases ctx with
  | none => exact Code.Ends.pure trivial 1
  | some c =>
    refine Code.Ends.lift fun t started => (ensured c t started).mono fun _ t' after => ?_
    exact ⟨after.1, after.2, trivial⟩

/-! ## Lists -/

theorem eq_mergeSort {xs ys : List Int} (perm : ys.Perm xs) (sorted : ys.Pairwise (· ≤ ·)) : ys = xs.mergeSort :=
  (perm.trans (List.mergeSort_perm xs _).symm).eq_of_pairwise' sorted (List.pairwise_mergeSort' (· ≤ ·) xs)

theorem merge_halves (xs ys : List Int) : xs.mergeSort.merge ys.mergeSort = (xs ++ ys).mergeSort := by
  apply eq_mergeSort
  · exact (List.merge_perm_append _).trans ((List.mergeSort_perm xs _).append (List.mergeSort_perm ys _))
  · exact (List.pairwise_mergeSort' (· ≤ ·) xs).merge (List.pairwise_mergeSort' (· ≤ ·) ys)

theorem sorted_pair (x y : Int) : (if x > y then [y, x] else [x, y]) = [x, y].mergeSort := by
  apply eq_mergeSort
  · split
    · exact List.Perm.swap x y []
    · exact .refl _
  · split
    · next greater => simpa using Int.le_of_lt greater
    · next least => simpa using least

/-! ## The recursion -/

/-- The end of each call. -/
theorem pause_ends {result : List Int} {Q : List Int → Prop} (holds : Q result) :
    Sorts ctx 3 (do
      whenCtx ctx (updateCoroWorkTime clock)
      .pause
      whenCtx ctx (setCoroTimestamp clock)
      return result) Q := by
  have update : Sorts ctx 1 (whenCtx ctx (updateCoroWorkTime clock)) fun _ => True :=
    whenCtx_ends fun c t started => updateCoroWorkTime_returns started
  have set : Sorts ctx 1 (whenCtx ctx (setCoroTimestamp clock)) fun _ => True :=
    whenCtx_ends fun c t _ => setCoroTimestamp_returns
  have last : Sorts ctx 1 (do
      whenCtx ctx (setCoroTimestamp clock)
      return result) Q := set.bind fun _ _ => Code.Ends.pure holds 0
  have paused : Sorts ctx 1 .pause fun _ => True := Code.Ends.pause
  exact update.bind fun _ _ => paused.bind fun _ _ => last

theorem one_ends {numbers : List Int} (one : numbers.length = 1) :
    Sorts ctx 1 (.lift do
      let x ← .require numbers[0]?
      return [x]) (· = numbers.mergeSort) := by
  obtain ⟨x, rfl⟩ := List.length_eq_one_iff.mp one
  exact sorts_pure fun t => by simp

theorem two_ends {numbers : List Int} (two : numbers.length = 2) :
    Sorts ctx 1 (.lift do
      let x ← .require numbers[0]?
      let y ← .require numbers[1]?
      return if x > y then [y, x] else [x, y]) (· = numbers.mergeSort) := by
  obtain ⟨x, y, rfl⟩ := List.length_eq_two.mp two
  refine sorts_pure fun t => ?_
  simp only [ensures_bind, ensures_require, ensures_pure]
  exact ⟨x, rfl, y, rfl, trivial, sorted_pair x y⟩

/-- From an array whose length is at least one, with room for the recursion. -/
theorem getSortedNumbers_ends {d depth : Nat} {numbers : List Int} (some : 1 ≤ numbers.length)
    (fits : numbers.length < 2 ^ 31) (le : numbers.length ≤ 2 ^ d) (room : d < depth) :
    Sorts ctx (8 * numbers.length - 4) (getSortedNumbers clock ctx depth numbers) (· = numbers.mergeSort) := by
  induction d generalizing depth numbers with
  | zero =>
    obtain ⟨depth, rfl⟩ := Nat.exists_eq_succ_of_ne_zero (Nat.ne_of_gt room)
    have one : numbers.length = 1 := Nat.le_antisymm le some
    rw [getSortedNumbers, sortBody, if_pos one, one]
    exact (one_ends one).bind fun sorted same => pause_ends same
  | succ d ih =>
    obtain ⟨depth, rfl⟩ := Nat.exists_eq_succ_of_ne_zero (Nat.ne_of_gt (Nat.lt_of_le_of_lt (Nat.zero_le _) room))
    rw [getSortedNumbers, sortBody]
    by_cases one : numbers.length = 1
    · rw [if_pos one, one]
      exact (one_ends one).bind fun sorted same => pause_ends same
    · rw [if_neg one]
      by_cases two : numbers.length = 2
      · rw [if_pos two, two]
        refine Code.Ends.mono ((two_ends two).bind fun sorted same => pause_ends same) (m := 8 * 2 - 4) (by omega) ?_
        exact fun _ same => same
      · rw [if_neg two]
        have power : 2 ^ (d + 1) = 2 ^ d + 2 ^ d := by omega
        have left_len : (numbers.take (numbers.length / 2)).length = numbers.length / 2 := by
          rw [List.length_take]
          omega
        have right_len : (numbers.drop (numbers.length / 2)).length = numbers.length - numbers.length / 2 :=
          List.length_drop
        -- Both halves are not empty, and shorter.
        have left : Sorts ctx _ (getSortedNumbers clock ctx depth (numbers.take (numbers.length / 2))) _ :=
          ih (by omega) (by omega) (by omega) (by omega)
        have right : Sorts ctx _ (getSortedNumbers clock ctx depth (numbers.drop (numbers.length / 2))) _ :=
          ih (by omega) (by omega) (by omega) (by omega)
        have merge : ∀ l r, l = (numbers.take (numbers.length / 2)).mergeSort →
            r = (numbers.drop (numbers.length / 2)).mergeSort →
            Sorts ctx 1 (.lift (mergeSortedArrays l r)) (· = numbers.mergeSort) := by
          rintro l r rfl rfl
          have int : (numbers.take (numbers.length / 2)).mergeSort.length +
              (numbers.drop (numbers.length / 2)).mergeSort.length < 2 ^ 31 := by
            rw [List.length_mergeSort, List.length_mergeSort]
            omega
          refine sorts_pure fun t => (mergeSortedArrays_returns int).mono fun merged t' after => ⟨after.1, ?_⟩
          rw [after.2, merge_halves, List.take_append_drop]
        refine Code.Ends.mono ((left.bind fun l same_l => right.bind fun r same_r => merge l r same_l same_r).bind
          fun sorted same => pause_ends same) ?_ fun _ same => same
        omega

/-- `get_sorted_numbers` with nobody else at its yields. -/
theorem getSortedNumbers_returns {depth : Nat} {numbers : List Int} (some : 1 ≤ numbers.length)
    (fits : numbers.length < 2 ^ 31) (deep : 32 ≤ depth) :
    (getSortedNumbers clock none depth numbers).straight.Ensures t fun sorted _ => sorted = numbers.mergeSort := by
  have ends : Sorts none _ (getSortedNumbers clock none depth numbers) _ := getSortedNumbers_ends some fits fits.le deep
  exact (ends.straight fun c same => by cases same).mono fun _ _ after => after.2

/-! ## The stores of a merge -/

/-- `array[i] = v;`, and `i` is recorded. -/
def storeLogged (cells : List (Option Int)) (i : Nat) (v : Int) : Prog (List Nat) (List (Option Int)) := do
  .update (· ++ [i])
  store cells i v

theorem storeLogged_puts : Puts storeLogged fun n log => log = List.range n := by
  rintro cells numbers v log filled room rfl
  simp only [storeLogged, ensures_bind, ensures_update]
  refine (filled.store room v).mono fun cells' log' stored => ?_
  obtain ⟨rfl, filled', same⟩ := stored
  exact ⟨List.range_succ.symm, filled', same⟩

/-! ## Sorted arrays -/

/-- The elements of `numbers` in order. -/
structure SortedOf (numbers sorted : List Int) : Prop where
  length_eq : sorted.length = numbers.length
  ordered : sorted.Pairwise (· ≤ ·)
  perm : sorted.Perm numbers

theorem SortedOf.mergeSort (numbers : List Int) : SortedOf numbers numbers.mergeSort where
  length_eq := List.length_mergeSort numbers
  ordered := List.pairwise_mergeSort' (· ≤ ·) numbers
  perm := List.mergeSort_perm numbers _

theorem SortedOf.merge {a b : List Int} (a_ordered : a.Pairwise (· ≤ ·)) (b_ordered : b.Pairwise (· ≤ ·)) :
    SortedOf (a ++ b) (a.merge b) where
  length_eq := (List.merge_perm_append _).length_eq
  ordered := a_ordered.merge b_ordered
  perm := List.merge_perm_append _

/-- The merge of `a` and `b` ends with the elements of both in order, and writes each cell once. -/
structure Merges (a b : List Int) : Prop where
  returns : ∀ t : Times, (mergeSortedArrays a b).Ensures t fun merged t' => t' = t ∧ SortedOf (a ++ b) merged
  writes : (mergeSortedArraysWith storeLogged a b).Ensures [] fun merged log =>
    SortedOf (a ++ b) merged ∧ log = List.range (a.length + b.length)

section

variable {a b : List Int}

theorem Merges.fits (merges : Merges a b) : a.length + b.length < 2 ^ 31 := by
  obtain ⟨merged, log, returned, -⟩ := merges.writes
  exact mergeSortedArraysWith_fits merged log returned

theorem merges_of_fits (a_ordered : a.Pairwise (· ≤ ·)) (b_ordered : b.Pairwise (· ≤ ·))
    (fits : a.length + b.length < 2 ^ 31) : Merges a b where
  returns t := by
    refine (mergeSortedArrays_returns fits).mono fun merged t' after => ?_
    obtain ⟨rfl, rfl⟩ := after
    exact ⟨rfl, .merge a_ordered b_ordered⟩
  writes := by
    refine (mergeSortedArraysWith_returns storeLogged_puts fits rfl).mono fun merged log after => ?_
    obtain ⟨rfl, rfl⟩ := after
    have merged := SortedOf.merge a_ordered b_ordered
    exact ⟨merged, by rw [merged.length_eq, List.length_append]⟩

end

/-- For an array of any length but 0 and a stack with room for the recursion; and the merge of any two
    arrays in order is right if and only if their lengths add up to an `int`. -/
theorem getSortedNumbers_sorts {depth : Nat} {numbers : List Int} (some : 1 ≤ numbers.length)
    (int : numbers.length < 2 ^ 31) (room : Nat.clog 2 numbers.length < depth) (ctx : Option Nat) :
    (∃ n, Sorts ctx n (getSortedNumbers clock ctx depth numbers) (SortedOf numbers)) ∧
    (∀ t, Times.Started ctx t →
      (getSortedNumbers clock ctx depth numbers).straight.Ensures t fun sorted _ => SortedOf numbers sorted) ∧
    ∀ a b : List Int, a.Pairwise (· ≤ ·) → b.Pairwise (· ≤ ·) → (Merges a b ↔ a.length + b.length < 2 ^ 31) := by
  have ends : Sorts ctx _ (getSortedNumbers clock ctx depth numbers) _ :=
    getSortedNumbers_ends some int (Nat.le_pow_clog (by decide) _) room
  have sorts : Sorts ctx _ (getSortedNumbers clock ctx depth numbers) (SortedOf numbers) :=
    Code.Ends.mono ends le_rfl fun sorted same => same ▸ SortedOf.mergeSort numbers
  refine ⟨⟨_, sorts⟩, fun t started => ?_, fun a b a_ordered b_ordered => ?_⟩
  · exact (Code.Ends.straight sorts started).mono fun _ _ after => after.2
  · exact ⟨Merges.fits, merges_of_fits a_ordered b_ordered⟩

theorem getSortedNumbers_sorts_three :
    (∃ n, Sorts (some 0) n (getSortedNumbers (fun _ => ⟨0, 0⟩) (some 0) 3 [3, 1, 2]) (SortedOf [3, 1, 2])) ∧
    (∀ t, Times.Started (some 0) t → (getSortedNumbers (fun _ => ⟨0, 0⟩) (some 0) 3 [3, 1, 2]).straight.Ensures t
      fun sorted _ => SortedOf [3, 1, 2] sorted) ∧
    ∀ a b : List Int, a.Pairwise (· ≤ ·) → b.Pairwise (· ≤ ·) → (Merges a b ↔ a.length + b.length < 2 ^ 31) :=
  getSortedNumbers_sorts (by decide) (by decide) (Nat.lt_succ_of_le (Nat.clog_le_of_le_pow (by decide))) (some 0)

/-- Two arrays in order, with lengths that are `int`s. -/
theorem merge_overflows : (List.replicate (2 ^ 30) (0 : Int)).Pairwise (· ≤ ·) ∧
    (List.replicate (2 ^ 30) (0 : Int)).length < 2 ^ 31 ∧
    ¬ Merges (List.replicate (2 ^ 30) 0) (List.replicate (2 ^ 30) 0) := by
  refine ⟨List.pairwise_replicate.mpr (.inr le_rfl), ?_, fun merges => ?_⟩
  · rw [List.length_replicate]
    decide
  · have fits := merges.fits
    rw [List.length_replicate] at fits
    exact absurd fits (by decide)

end SysprogLabs.FileSort
