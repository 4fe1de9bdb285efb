import SysprogLabs.FileSort.Sort
import Mathlib.Data.Int.Cast.Lemmas

/-! # The end of `main`

With all slots filled, `main` sums up the lengths as an `int`, copies the slots one behind the other
and sorts the whole.
-/

namespace SysprogLabs.FileSort

open Prog

variable {σ : Type} {s s' : σ} {xs : List (List Int)} {i : Nat}

theorem slot_returns (lt : i < xs.length) :
    (slot (xs.map some) i).Ensures s fun numbers s' => s' = s ∧ numbers = xs[i] := by
  simp only [slot, ensures_bind, ensures_require]
  exact ⟨some xs[i], by rw [List.getElem?_map, List.getElem?_eq_getElem lt, Option.map_some], xs[i], rfl, trivial, rfl⟩

/-- The lengths of the first slots. -/
def lengthUpTo (xs : List (List Int)) (i : Nat) : Nat := (xs.take i).flatten.length

theorem lengthUpTo_succ (lt : i < xs.length) : lengthUpTo xs (i + 1) = lengthUpTo xs i + xs[i].length := by
  rw [lengthUpTo, lengthUpTo, List.take_succ_eq_append_getElem lt, List.flatten_append, List.flatten_singleton,
    List.length_append]

theorem lengthUpTo_all : lengthUpTo xs xs.length = xs.flatten.length := by
  rw [lengthUpTo, List.take_length]

theorem lengthUpTo_le (i : Nat) : lengthUpTo xs i ≤ xs.flatten.length := by
  rw [lengthUpTo]
  conv_rhs => rw [← List.take_append_drop i xs, List.flatten_append, List.length_append]
  exact Nat.le_add_right _ _

theorem lengthUpTo_lt (fits : xs.flatten.length < 2 ^ 31) (i : Nat) : (lengthUpTo xs i : Int) < 2 ^ 31 := by
  have := @lengthUpTo_le xs i
  omega

theorem sumLengths_returns (fits : xs.flatten.length < 2 ^ 31) :
    (sumLengths (xs.map some) xs.length).Ensures s fun total s' => s' = s ∧ total = xs.flatten.length := by
  rw [sumLengths]
  refine ensures_loop_of_measure (fun a s' => s' = s ∧ a.1 ≤ xs.length ∧ a.2 = (lengthUpTo xs a.1 : Int))
    (fun a _ => xs.length - a.1) ?_ ⟨rfl, Nat.zero_le _, rfl⟩
  rintro ⟨i, finalLength⟩ s₁ ⟨rfl, le, sum⟩
  simp only at le sum
  subst sum
  simp only [sumRound]
  split
  · next lt =>
    have below := lengthUpTo_lt fits (i + 1)
    rw [lengthUpTo_succ lt] at below
    refine ensures_bind.mpr ((slot_returns lt).mono fun numbers s' read => ?_)
    obtain ⟨rfl, rfl⟩ := read
    refine ensures_bind.mpr ((addInt_returns (by exact_mod_cast below)).mono fun sum s₂ added => ?_)
    obtain ⟨rfl, rfl⟩ := added
    refine ensures_pure.mpr ⟨⟨rfl, lt, ?_⟩, by simp only; omega⟩
    rw [lengthUpTo_succ lt]
  · next done =>
    have all : i = xs.length := Nat.le_antisymm le (Nat.not_lt.mp done)
    subst all
    exact ensures_pure.mpr ⟨rfl, by rw [lengthUpTo_all]⟩

/-- An `int` does not hold more. -/
theorem sumLengths_fits {total : Int} (returned : (sumLengths (xs.map some) xs.length).Returns s total s') :
    xs.flatten.length < 2 ^ 31 := by
  rw [sumLengths] at returned
  refine Returns.loop_induct (Q := fun _ _ => xs.flatten.length < 2 ^ 31)
    (fun a _ => a.1 ≤ xs.length ∧ a.2 = (lengthUpTo xs a.1 : Int) ∧ lengthUpTo xs a.1 < 2 ^ 31) ?_
    ⟨Nat.zero_le _, rfl, by simp [lengthUpTo]⟩ returned
  rintro ⟨i, finalLength⟩ s₁ ⟨le, sum, fits⟩
  simp only at le sum fits
  subst sum
  change Yields (sumRound _ _ _ _) _ _
  simp only [sumRound]
  split
  · next lt =>
    have read := (slot_returns (s := s₁) lt).yields
    refine yields_bind.mpr (read.mono fun numbers s' read => ?_)
    obtain ⟨rfl, rfl⟩ := read
    refine yields_bind.mpr (addInt_fits.mono fun sum s₂ added => yields_pure.mpr ⟨lt, ?_, ?_⟩)
    · rw [added.2.1, lengthUpTo_succ lt]
    · rw [lengthUpTo_succ lt]
      exact added.2.2
  · next done =>
    have all : i = xs.length := Nat.le_antisymm le (Nat.not_lt.mp done)
    subst all
    rw [lengthUpTo_all] at fits
    exact yields_pure.mpr fits

theorem memcpy_returns {cells : List (Option Int)} {written numbers : List Int} (filled : Filled cells written)
    (room : written.length + numbers.length ≤ cells.length) :
    (memcpy cells written.length numbers).Ensures s fun cells' s' =>
      s' = s ∧ Filled cells' (written ++ numbers) ∧ cells'.length = cells.length := by
  have split : cells = written.map some ++ List.replicate (cells.length - written.length) none := filled
  have front : cells.take written.length = written.map some := by
    rw [split]
    simp
  have back : cells.drop (written.length + numbers.length) =
      List.replicate (cells.length - (written.length + numbers.length)) none := by
    rw [split, ← List.drop_drop, List.drop_left' (List.length_map _)]
    simp
    omega
  simp only [memcpy, if_pos room, ensures_pure, true_and]
  rw [front, back]
  constructor
  · simp [Filled]
    omega
  · simp
    omega

/-- The slots stand one behind the other, in the order of the files. -/
theorem concatenate_returns :
    (concatenate (xs.map some) xs.length xs.flatten.length).Ensures s fun cells s' =>
      s' = s ∧ cells = xs.flatten.map some := by
  rw [concatenate, Int.toNat_natCast]
  refine ensures_loop_of_measure (fun a s' => s' = s ∧ a.1 ≤ xs.length ∧ a.2.1 = lengthUpTo xs a.1 ∧
      a.2.2.length = xs.flatten.length ∧ Filled a.2.2 (xs.take a.1).flatten)
    (fun a _ => xs.length - a.1) ?_ ⟨rfl, Nat.zero_le _, rfl, List.length_replicate, .empty _⟩
  rintro ⟨i, idx, allNumbers⟩ s₁ ⟨rfl, le, at_idx, size, filled⟩
  simp only at le at_idx size filled
  subst at_idx
  simp only [copyRound]
  split
  · next lt =>
    have room : (xs.take i).flatten.length + xs[i].length ≤ allNumbers.length := by
      have total := @lengthUpTo_le xs (i + 1)
      rwa [lengthUpTo_succ lt, lengthUpTo, ← size] at total
    refine ensures_bind.mpr ((slot_returns lt).mono fun numbers s' read => ?_)
    obtain ⟨rfl, rfl⟩ := read
    refine ensures_bind.mpr ((memcpy_returns filled room).mono fun cells s' copied => ?_)
    obtain ⟨rfl, filled', same⟩ := copied
    refine ensures_pure.mpr ⟨⟨rfl, lt, (lengthUpTo_succ lt).symm, same.trans size, ?_⟩, by omega⟩
    rw [List.take_succ_eq_append_getElem lt, List.flatten_append, List.flatten_singleton]
    exact filled'
  · next done =>
    have all : i = xs.length := Nat.le_antisymm le (Nat.not_lt.mp done)
    subst all
    rw [List.take_length, Filled, size, Nat.sub_self, List.replicate_zero, List.append_nil] at filled
    exact ensures_pure.mpr ⟨rfl, filled⟩

theorem concatenation_returns (fits : xs.flatten.length < 2 ^ 31) :
    (concatenation (xs.map some) xs.length).Ensures s fun cells s' => s' = s ∧ cells = xs.flatten.map some := by
  refine ensures_bind.mpr ((sumLengths_returns fits).mono fun total s' sum => ?_)
  obtain ⟨rfl, rfl⟩ := sum
  exact concatenate_returns

theorem concatenation_fits {cells : List (Option Int)}
    (returned : (concatenation (xs.map some) xs.length).Returns s cells s') :
    xs.flatten.length < 2 ^ 31 := by
  obtain ⟨total, s₁, sum, -⟩ := returns_bind.mp returned
  exact sumLengths_fits sum

/-! ## The result -/

variable {setup : Setup} {t : Times}

/-- What the slots hold when all files have been sorted. -/
def Setup.slots (setup : Setup) : List (List Int) := setup.files.data.map fun numbers => numbers.mergeSort

theorem Setup.slots_length (setup : Setup) : setup.slots.length = setup.filesTotal := List.length_map _

theorem slots_perm (setup : Setup) : setup.slots.flatten.Perm setup.files.data.flatten := by
  rw [Setup.slots]
  induction setup.files.data with
  | nil => exact .refl _
  | cons numbers data ih =>
    simp only [List.map_cons, List.flatten_cons]
    exact (List.mergeSort_perm numbers _).append ih

/-- The result does not depend on how the files are split. -/
theorem slots_sorted (setup : Setup) : setup.slots.flatten.mergeSort = setup.files.data.flatten.mergeSort :=
  eq_mergeSort ((List.mergeSort_perm _ _).trans (slots_perm setup)) (List.pairwise_mergeSort' (· ≤ ·) _)

theorem one_le_flatten {data : List (List Int)} (some : data ≠ []) (len : ∀ numbers ∈ data, 1 ≤ numbers.length) :
    1 ≤ data.flatten.length := by
  obtain ⟨numbers, rest, rfl⟩ := List.exists_cons_of_ne_nil some
  have := len numbers List.mem_cons_self
  rw [List.flatten_cons, List.length_append]
  omega

/-- `main` writes the numbers of all files, sorted. -/
theorem mainEnd_returns (some : setup.files.data ≠ []) (fits : setup.files.data.flatten.length < 2 ^ 31) :
    (mainEnd setup (setup.slots.map .some)).Ensures t fun written _ => written = setup.files.data.flatten.mergeSort := by
  have same : setup.slots.flatten.length = setup.files.data.flatten.length := (slots_perm setup).length_eq
  have one : 1 ≤ setup.slots.flatten.length := same ▸ one_le_flatten some fun numbers mem => (setup.files.len numbers mem).1
  rw [← same] at fits
  rw [mainEnd, ← setup.slots_length]
  refine ensures_bind.mpr ((concatenation_returns fits).mono fun cells t' concatenated => ?_)
  obtain ⟨rfl, rfl⟩ := concatenated
  have filled : Filled (setup.slots.flatten.map .some) setup.slots.flatten := by
    rw [Filled, List.length_map, Nat.sub_self, List.replicate_zero, List.append_nil]
  refine ensures_bind.mpr ((filled.loadAll (List.length_map _)).mono fun numbers t' read => ?_)
  obtain ⟨rfl, rfl⟩ := read
  rw [← slots_sorted]
  exact getSortedNumbers_returns one fits setup.deep

end SysprogLabs.FileSort
