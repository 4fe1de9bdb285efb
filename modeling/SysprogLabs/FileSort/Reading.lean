import SysprogLabs.FileSort.Merge
import Mathlib.Algebra.Order.GroupWithZero.Basic

/-! # Reading a file

`read_numbers_from_file` over the characters of the file.  `fscanf("%d")` skips blanks; where no
digit follows them, it stores nothing and consumes at most a sign.
-/

namespace SysprogLabs.FileSort

open Prog

variable {σ : Type}

/-! ## `fscanf` -/

/-- `isspace` -/
def isBlank (c : Char) : Bool := c.toNat == 32 || (9 ≤ c.toNat && c.toNat ≤ 13)

def isSign (c : Char) : Bool := c == '+' || c == '-'

def digitsValue (digits : List Char) : Nat := digits.foldl (fun n c => 10 * n + (c.toNat - 48)) 0

/-- What `fscanf` returns, and what it leaves of the input. -/
inductive Scan where
  | eof
  /-- It returns 0. -/
  | miss (rest : List Char)
  /-- It returns 1. -/
  | number (n : Int) (rest : List Char)
  deriving DecidableEq

/-- `fscanf(file, "%d", …)` -/
def fscanf (input : List Char) : Scan :=
  match input.dropWhile isBlank with
  | [] => .eof
  | c :: rest =>
    if c.isDigit then .number (digitsValue (c :: rest.takeWhile Char.isDigit)) (rest.dropWhile Char.isDigit)
    else if isSign c then
      if rest.takeWhile Char.isDigit = [] then .miss rest
      else
        let value : Int := digitsValue (rest.takeWhile Char.isDigit)
        .number (if c = '-' then -value else value) (rest.dropWhile Char.isDigit)
    else .miss (c :: rest)

/-! ## `read_numbers_from_file` -/

/-- A `struct array_of_ints`, with the whole memory its pointer leads to. -/
structure ArrayOfInts where
  array : List (Option Int)
  len : Nat

/-- The variables of `read_numbers_from_file`. -/
structure Reader where
  /-- What is left of the file. -/
  input : List Char
  maxLength : Int
  numbers : List (Option Int)
  idx : Nat

/-- The multiplication of two `int`s. -/
def mulInt (x y : Int) : Prog σ Int :=
  if -2 ^ 31 ≤ x * y ∧ x * y < 2 ^ 31 then return x * y else .fault

/-- What `fscanf` stores: a number that is no `int` leaves the cell without a known value. -/
def storeScanned (cells : List (Option Int)) (i : Nat) (n : Int) : Prog σ (List (Option Int)) :=
  if i < cells.length then return cells.set i (if -2 ^ 31 ≤ n ∧ n < 2 ^ 31 then some n else none) else .fault

/-- `memcpy` between two buffers of the function. -/
def copyCells (target source : List (Option Int)) (n : Nat) : Prog σ (List (Option Int)) :=
  if n ≤ target.length ∧ n ≤ source.length then return source.take n ++ target.drop n else .fault

-- The body of the loop, with its `idx++`.
def readBody (r : Reader) : Prog σ Reader :=
  if (r.idx : Int) = r.maxLength - 1 then do
    let maxLength ← mulInt r.maxLength 2
    let numbers ← copyCells (List.replicate maxLength.toNat none) r.numbers (r.idx + 1)
    return { r with maxLength := maxLength, numbers := numbers, idx := r.idx + 1 }
  else return { r with idx := r.idx + 1 }

/-- One round of the loop. -/
def readRound (r : Reader) : Prog σ (Flow Reader Reader) :=
  match fscanf r.input with
  | .eof => return .done r
  | .miss rest => do
    let r ← readBody { r with input := rest }
    return .again r
  | .number n rest => do
    let numbers ← storeScanned r.numbers r.idx n
    let r ← readBody { r with input := rest, numbers := numbers }
    return .again r

def Reader.init (content : List Char) : Reader :=
  { input := content, maxLength := 10000, numbers := List.replicate 10000 none, idx := 0 }

def readNumbersFromFile (content : List Char) : Prog σ ArrayOfInts := do
  let r ← .loop readRound (Reader.init content)
  return { array := r.numbers, len := r.idx + 1 }

/-! ## Files of integers -/

/-- The spelling of an integer. -/
inductive Numeral : List Char → Int → Prop where
  | plain {digits : List Char} (some : digits ≠ []) (all : ∀ c ∈ digits, c.isDigit = true) :
      Numeral digits (digitsValue digits)
  | plus {digits : List Char} (some : digits ≠ []) (all : ∀ c ∈ digits, c.isDigit = true) :
      Numeral ('+' :: digits) (digitsValue digits)
  | minus {digits : List Char} (some : digits ≠ []) (all : ∀ c ∈ digits, c.isDigit = true) :
      Numeral ('-' :: digits) (-digitsValue digits)

/-- The file consists of these `int`s, with blanks between them. -/
inductive Spells : List Char → List Int → Prop where
  | nil : Spells [] []
  | blank {c : Char} {rest : List Char} {numbers : List Int} (blank : isBlank c = true) (later : Spells rest numbers) :
      Spells (c :: rest) numbers
  | number {token rest : List Char} {n : Int} {numbers : List Int} (numeral : Numeral token n)
      (fits : -2 ^ 31 ≤ n ∧ n < 2 ^ 31) (separated : ∀ c ∈ rest.head?, isBlank c = true)
      (later : Spells rest numbers) : Spells (token ++ rest) (n :: numbers)

theorem isDigit_not_blank {c : Char} (digit : c.isDigit = true) : isBlank c = false := by
  simp only [Char.isDigit, Bool.and_eq_true, decide_eq_true_eq, UInt32.le_iff_toNat_le] at digit
  have lower : 48 ≤ c.toNat := digit.1
  simp [isBlank]
  omega

theorem isBlank_not_digit {c : Char} (blank : isBlank c = true) : c.isDigit = false := by
  cases digit : c.isDigit with
  | false => rfl
  | true =>
    rw [isDigit_not_blank digit] at blank
    cases blank

theorem fscanf_blank {c : Char} (blank : isBlank c = true) (rest : List Char) : fscanf (c :: rest) = fscanf rest := by
  rw [fscanf, fscanf, List.dropWhile_cons_of_pos blank]

/-- The digits in front of something else. -/
theorem span_digits {digits rest : List Char} (all : ∀ c ∈ digits, c.isDigit = true)
    (separated : ∀ c ∈ rest.head?, isBlank c = true) :
    (digits ++ rest).takeWhile Char.isDigit = digits ∧ (digits ++ rest).dropWhile Char.isDigit = rest := by
  rw [List.takeWhile_append_of_pos all, List.dropWhile_append_of_pos all]
  cases rest with
  | nil => simp
  | cons c rest =>
    have other : ¬ c.isDigit = true := by simp [isBlank_not_digit (separated c rfl)]
    rw [List.takeWhile_cons_of_neg other, List.dropWhile_cons_of_neg other]
    simp

theorem fscanf_numeral {token rest : List Char} {n : Int} (numeral : Numeral token n)
    (separated : ∀ c ∈ rest.head?, isBlank c = true) : fscanf (token ++ rest) = .number n rest := by
  cases numeral with
  | @plain digits some all =>
    obtain ⟨d, ds, rfl⟩ := List.exists_cons_of_ne_nil some
    have digit := all d List.mem_cons_self
    obtain ⟨taken, dropped⟩ := span_digits (fun c mem => all c (List.mem_cons_of_mem d mem)) separated
    rw [fscanf, List.cons_append, List.dropWhile_cons_of_neg (by simp [isDigit_not_blank digit])]
    simp [digit, taken, dropped]
  | @plus digits some all =>
    obtain ⟨taken, dropped⟩ := span_digits all separated
    rw [fscanf, List.cons_append, List.dropWhile_cons_of_neg (by decide)]
    simp [isSign, taken, dropped, some]
  | @minus digits some all =>
    obtain ⟨taken, dropped⟩ := span_digits all separated
    rw [fscanf, List.cons_append, List.dropWhile_cons_of_neg (by decide)]
    simp [isSign, taken, dropped, some]

theorem Spells.fscanf_eof {content : List Char} (spells : Spells content []) : fscanf content = .eof := by
  generalize same : ([] : List Int) = numbers at spells
  induction spells with
  | nil => rfl
  | blank blank _ ih => rw [fscanf_blank blank, ih same]
  | number => cases same

theorem Spells.fscanf_number {content : List Char} {n : Int} {numbers : List Int} (spells : Spells content (n :: numbers)) :
    (-2 ^ 31 ≤ n ∧ n < 2 ^ 31) ∧ ∃ rest, fscanf content = .number n rest ∧ Spells rest numbers := by
  generalize same : n :: numbers = all at spells
  induction spells with
  | nil => cases same
  | blank blank _ ih =>
    rw [fscanf_blank blank]
    exact ih same
  | @number token rest m later numeral fits separated spells _ =>
    cases same
    exact ⟨fits, rest, fscanf_numeral numeral separated, spells⟩

/-! ## The buffer -/

/-- The largest `max_length` that is an `int`. -/
def lengthLimit : Nat := 10000 * 2 ^ 17

/-- The buffer has doubled some times, and there is room for the next number. -/
structure Reader.Sized (r : Reader) : Prop where
  doubled : ∃ j, j ≤ 17 ∧ r.maxLength = 10000 * 2 ^ j
  size : r.numbers.length = r.maxLength
  room : r.idx < r.maxLength

theorem Reader.Sized.init (content : List Char) : (Reader.init content).Sized where
  doubled := ⟨0, by decide, rfl⟩
  size := by
    show ((List.replicate 10000 (none : Option Int)).length : Int) = 10000
    rw [List.length_replicate]
    rfl
  room := by
    show ((0 : Nat) : Int) < 10000
    decide

theorem lengthLimit_eq : lengthLimit = 1310720000 := by decide

/-- `max_length` does not get beyond the limit. -/
theorem doubled_limit {j : Nat} : (10000 * 2 ^ j : Int) ≤ lengthLimit ↔ j ≤ 17 := by
  have power : (2 : Int) ^ 17 = 131072 := by decide
  rw [lengthLimit_eq]
  constructor
  · intro le
    by_contra more
    have grows : (2 : Int) ^ 18 ≤ 2 ^ j := pow_le_pow_right₀ (by decide) (by omega)
    have next : (2 : Int) ^ 18 = 262144 := by decide
    omega
  · intro le
    have grows : (2 : Int) ^ j ≤ 2 ^ 17 := pow_le_pow_right₀ (by decide) le
    omega

theorem Reader.Sized.limit {r : Reader} (sized : r.Sized) : r.maxLength ≤ lengthLimit := by
  obtain ⟨j, le, doubled⟩ := sized.doubled
  exact doubled ▸ doubled_limit.mpr le

/-- What the body of the loop makes of the buffer. -/
structure Grown (r r' : Reader) : Prop where
  input : r'.input = r.input
  idx : r'.idx = r.idx + 1
  sized : r'.Sized
  cells : ∃ k, r'.numbers = r.numbers ++ List.replicate k none

/-- The body with the doubled buffer. -/
theorem Reader.Sized.grow {r : Reader} (sized : r.Sized) (last : (r.idx : Int) = r.maxLength - 1)
    (more : r.maxLength * 2 ≤ lengthLimit) {numbers : List (Option Int)}
    (copied : numbers = r.numbers.take (r.idx + 1) ++ (List.replicate (r.maxLength * 2).toNat none).drop (r.idx + 1)) :
    Grown r { r with maxLength := r.maxLength * 2, numbers := numbers, idx := r.idx + 1 } := by
  obtain ⟨⟨j, le, doubled⟩, size, room⟩ := sized
  have full : r.numbers.length = r.idx + 1 := by omega
  have cells : numbers = r.numbers ++ List.replicate ((r.maxLength * 2).toNat - (r.idx + 1)) none := by
    rw [copied, List.take_of_length_le (by omega), List.drop_replicate]
  have twice : r.maxLength * 2 = 10000 * 2 ^ (j + 1) := by
    rw [doubled, Int.pow_succ]
    omega
  refine ⟨rfl, rfl, ⟨⟨j + 1, doubled_limit.mp (twice ▸ more), twice⟩, ?_, ?_⟩, _, cells⟩
  · simp only [cells, List.length_append, List.length_replicate]
    omega
  · simp only
    omega

theorem readBody_yields {r : Reader} {s : σ} (sized : r.Sized) : (readBody r).Yields s fun r' _ => Grown r r' := by
  simp only [readBody, mulInt, copyCells, yields_ite, yields_bind, yields_pure, yields_fault, implies_true, and_true]
  constructor
  · intro last fits enough
    apply sized.grow last _ rfl
    -- Twice the limit is no `int`.
    obtain ⟨j, le, doubled⟩ := sized.doubled
    have := sized.limit
    rw [lengthLimit_eq] at this ⊢
    by_contra beyond
    have top : ¬ j + 1 ≤ 17 := by
      rw [← doubled_limit, lengthLimit_eq, Int.pow_succ]
      omega
    obtain rfl : j = 17 := by omega
    omega
  · intro more
    have room := sized.room
    exact ⟨rfl, rfl, ⟨sized.doubled, sized.size, by simp only; omega⟩, 0, by simp⟩

theorem readBody_returns {r : Reader} {s : σ} (sized : r.Sized) (room : r.idx + 1 < lengthLimit) :
    (readBody r).Ensures s fun r' s' => s' = s ∧ Grown r r' := by
  have small := lengthLimit_eq
  obtain ⟨j, le, doubled⟩ := sized.doubled
  rw [readBody]
  split
  · next last =>
    have more : r.maxLength * 2 ≤ lengthLimit := by
      have below : r.maxLength < lengthLimit := by omega
      have next : j + 1 ≤ 17 := by
        by_contra top
        obtain rfl : j = 17 := by omega
        rw [doubled, small] at below
        omega
      rw [doubled]
      have := doubled_limit.mpr next
      rw [Int.pow_succ] at this
      omega
    have size := sized.size
    have pos : 0 ≤ (r.idx : Int) := Int.natCast_nonneg _
    simp only [mulInt, copyCells, ensures_bind, ensures_ite, ensures_pure, List.length_replicate]
    rw [if_pos (by omega), if_pos (by omega)]
    exact ⟨trivial, sized.grow last more rfl⟩
  · next more =>
    have inside := sized.room
    exact ensures_pure.mpr ⟨rfl, rfl, rfl, ⟨sized.doubled, sized.size, by simp only; omega⟩, 0, by simp⟩

/-! ## What is returned -/

/-- The array is the numbers of the file, and nothing else. -/
def ReadsExactly (s : σ) (content : List Char) (numbers : List Int) : Prop :=
  (readNumbersFromFile content).Ensures s fun result _ =>
    result.len = numbers.length ∧ result.array.take result.len = numbers.map some

theorem Filled.append_none {cells : List (Option Int)} {numbers : List Int} (filled : Filled cells numbers) (k : Nat) :
    Filled (cells ++ List.replicate k none) numbers := by
  have le := filled.le
  have more : (cells ++ List.replicate k none).length - numbers.length = cells.length - numbers.length + k := by
    rw [List.length_append, List.length_replicate]
    omega
  rw [Filled, more, List.replicate_add, ← List.append_assoc, ← filled]

/-- A round that reads a number. -/
theorem readRound_number {r : Reader} {read numbers : List Int} {n : Int} {s : σ} (sized : r.Sized)
    (filled : Filled r.numbers read) (count : read.length = r.idx) (spells : Spells r.input (n :: numbers))
    (few : r.idx + 1 < lengthLimit) : (readRound r).Ensures s fun flow s' => s' = s ∧ ∃ r', flow = .again r' ∧
      r'.Sized ∧ Filled r'.numbers (read ++ [n]) ∧ r'.idx = r.idx + 1 ∧ Spells r'.input numbers := by
  obtain ⟨fits, rest, scanned, later⟩ := spells.fscanf_number
  have room : read.length < r.numbers.length := by
    have := sized.size
    have := sized.room
    omega
  rw [readRound, scanned]
  simp only [ensures_bind]
  have stores : (storeScanned r.numbers r.idx n).Ensures s fun cells s' =>
      s' = s ∧ Filled cells (read ++ [n]) ∧ cells.length = r.numbers.length := by
    rw [storeScanned, if_pos fits, ← count]
    exact filled.store room n
  refine stores.mono fun cells s' stored => ?_
  obtain ⟨rfl, filled', same⟩ := stored
  have sized' : Reader.Sized { r with input := rest, numbers := cells } :=
    ⟨sized.doubled, by rw [← sized.size, same], sized.room⟩
  refine (readBody_returns sized' few).mono fun r' s' grown => ?_
  obtain ⟨rfl, grown⟩ := grown
  obtain ⟨k, cells'⟩ := grown.cells
  rw [ensures_pure]
  refine ⟨rfl, r', rfl, grown.sized, ?_, grown.idx, ?_⟩
  · rw [cells']
    exact filled'.append_none k
  · rw [grown.input]
    exact later

/-- From any round on, the rest of the numbers. -/
theorem readLoop_spelled {r : Reader} {read numbers : List Int} {s : σ} (sized : r.Sized) (filled : Filled r.numbers read)
    (count : read.length = r.idx) (spells : Spells r.input numbers) (few : read.length + numbers.length < lengthLimit) :
    (loop readRound r).Ensures s fun r' s' =>
      s' = s ∧ r'.Sized ∧ Filled r'.numbers (read ++ numbers) ∧ r'.idx = read.length + numbers.length := by
  induction numbers generalizing r read with
  | nil =>
    refine ensures_loop.mpr ?_
    rw [readRound, spells.fscanf_eof, List.append_nil]
    exact ensures_pure.mpr ⟨rfl, sized, filled, by simp [count]⟩
  | cons n numbers ih =>
    rw [List.length_cons] at few
    refine ensures_loop.mpr ((readRound_number sized filled count spells (by omega)).mono fun flow s' after => ?_)
    obtain ⟨rfl, r', rfl, sized', filled', idx, later⟩ := after
    have rest := ih sized' filled' (by simp [count, idx]) later (by simp; omega)
    refine rest.mono fun r'' s' result => ?_
    obtain ⟨rfl, sized'', filled'', idx'⟩ := result
    rw [List.append_assoc] at filled''
    refine ⟨rfl, sized'', filled'', ?_⟩
    rw [idx', List.length_append, List.length_singleton, List.length_cons]
    omega

/-- The array has one cell too many, which nothing has been stored in. -/
theorem readNumbersFromFile_spelled {content : List Char} {numbers : List Int} (s : σ) (spells : Spells content numbers)
    (few : numbers.length < lengthLimit) : (readNumbersFromFile content).Ensures s fun result _ =>
      result.len = numbers.length + 1 ∧ result.array.take result.len = numbers.map some ++ [none] := by
  have empty : Filled (Reader.init content).numbers [] := .empty 10000
  have read := readLoop_spelled (s := s) (.init content) empty rfl spells (by simpa using few)
  refine ensures_bind.mpr (read.mono fun r s' result => ?_)
  obtain ⟨rfl, sized, filled, idx⟩ := result
  rw [List.length_nil, Nat.zero_add] at idx
  rw [List.nil_append] at filled
  refine ensures_pure.mpr ⟨by rw [idx], ?_⟩
  have room := sized.room
  rw [← sized.size] at room
  obtain ⟨k, left⟩ : ∃ k, r.numbers.length - numbers.length = k + 1 := ⟨r.numbers.length - numbers.length - 1, by omega⟩
  rw [Filled, left] at filled
  have front : (numbers.map some).take (numbers.length + 1) = numbers.map some := List.take_of_length_le (by simp)
  rw [filled, idx, List.take_append, front]
  simp [List.replicate_succ]

/-- What the body of the loop does to the index and the input, whatever the buffer is. -/
theorem readBody_goes_on {r : Reader} (s : σ) :
    (readBody r).Yields s fun r' _ => r'.idx = r.idx + 1 ∧ r'.input = r.input := by
  simp [readBody, mulInt, copyCells]

/-- Whenever the function returns, it has counted the call at the end of the file. -/
theorem readNumbersFromFile_len {content : List Char} {numbers : List Int} (s : σ) (spells : Spells content numbers) :
    (readNumbersFromFile content).Yields s fun result _ => result.len = numbers.length + 1 := by
  have round : ∀ (r : Reader) (s : σ), (∃ left, Spells r.input left ∧ r.idx + left.length = numbers.length) →
      (readRound r).Yields s fun flow _ => match flow with
        | .again r' => ∃ left, Spells r'.input left ∧ r'.idx + left.length = numbers.length
        | .done r' => r'.idx = numbers.length := by
    rintro r s ⟨left, spells, count⟩
    cases left with
    | nil =>
      rw [readRound, spells.fscanf_eof, yields_pure]
      exact count
    | cons n left =>
      obtain ⟨-, rest, scanned, later⟩ := spells.fscanf_number
      rw [readRound, scanned]
      simp only [yields_bind, yields_pure]
      intro cells s' _
      refine (readBody_goes_on s').mono fun r' s'' after => ⟨left, ?_, ?_⟩
      · rw [after.2]
        exact later
      · rw [after.1, ← count, List.length_cons]
        exact Nat.succ_add_eq_add_succ r.idx left.length
  rw [readNumbersFromFile, yields_bind]
  intro r s' returned
  have idx : r.idx = numbers.length := by
    refine Returns.loop_induct (Q := fun r _ => r.idx = numbers.length)
      (fun r _ => ∃ left, Spells r.input left ∧ r.idx + left.length = numbers.length) ?_ ⟨numbers, spells, ?_⟩ returned
    · intro r s reading flow s' returned
      have after := round r s reading flow s' returned
      cases flow <;> exact after
    · exact Nat.zero_add _
  rw [yields_pure, idx]

/-- No file of integers is read as it is: behind its numbers the array has a cell that nothing has
    been stored in. -/
theorem reads_one_more (s : σ) {content : List Char} {numbers : List Int} (spells : Spells content numbers) :
    ¬ ReadsExactly s content numbers ∧ (numbers.length < lengthLimit →
      (readNumbersFromFile content).Ensures s fun result _ =>
        result.len = numbers.length + 1 ∧ result.array.take result.len = numbers.map some ++ [none]) := by
  refine ⟨fun reads => ?_, readNumbersFromFile_spelled s spells⟩
  obtain ⟨result, s', returned, len, -⟩ := reads
  have more := readNumbersFromFile_len s spells result s' returned
  omega

theorem reads_one_more_two : ¬ ReadsExactly () [' ', '7', ' ', '-', '1', '2', '\n'] [7, -12] := by
  have seven : Numeral ['7'] 7 := .plain (by decide) (by simp [Char.isDigit])
  have minus : Numeral ['-', '1', '2'] (-12) := .minus (by decide) (by simp [Char.isDigit])
  have spells : Spells [' ', '7', ' ', '-', '1', '2', '\n'] [7, -12] :=
    .blank (by decide) (.number seven (by decide) (by simp [isBlank]) (.blank (by decide)
      (.number minus (by decide) (by simp [isBlank]) (.blank (by decide) .nil))))
  exact (reads_one_more () spells).1

/-- Of an empty file one number is returned. -/
theorem empty_file_read : Spells [] [] ∧ ¬ ReadsExactly () [] [] := by
  refine ⟨.nil, fun reads => ?_⟩
  obtain ⟨result, s', returned, len, -⟩ := reads
  have more := readNumbersFromFile_len () .nil result s' returned
  simp only [List.length_nil] at len more
  omega

end SysprogLabs.FileSort
