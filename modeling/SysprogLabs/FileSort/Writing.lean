import SysprogLabs.FileSort.Checker

/-! # Files of numbers

`write_numbers_to_file` and `generator.py` write numbers, `read_numbers_from_file` and the
`split` of `checker.py` read them again.
-/

namespace SysprogLabs.FileSort

open Prog

variable {σ : Type}

/-! ## Writing -/

/-- What `fprintf(file, "%d", n)` writes. -/
def fprintf : Int → List Char
  | .ofNat n => Nat.toDigits 10 n
  | .negSucc n => '-' :: Nat.toDigits 10 (n + 1)

/-- One round of the loop; `file` is what has been written. -/
def writeRound (numbers : List Int) (len i : Nat) (file : List Char) : Prog σ (Flow (Nat × List Char) (List Char)) :=
  if i < len then do
    let n ← .require numbers[i]?
    return .again (i + 1, file ++ fprintf n ++ [' '])
  else return .done file

/-- The content of the file, which `fopen` has emptied. -/
def writeNumbersToFile (numbers : List Int) (len : Nat) : Prog σ (List Char) :=
  .loop (fun a => writeRound numbers len a.1 a.2) (0, [])

/-- `generator.py`, with what `random.randint` returns. -/
def generator (randint : Nat → Int) (c : Int) : List Char :=
  (List.range c.toNat).foldl (fun file i =>
    let file := file ++ fprintf (randint i)
    if (i : Int) + 1 ≠ c then file ++ [' '] else file) []

/-! ## What is written -/

theorem digitsValue_toDigits (n : Nat) : digitsValue (Nat.toDigits 10 n) = n :=
  Nat.ofDigitChars_ten_toDigits

theorem toDigits_isDigit {n : Nat} {c : Char} (mem : c ∈ Nat.toDigits 10 n) : c.isDigit = true :=
  Nat.isDigit_of_mem_toDigits (by decide) (by decide) mem

theorem fprintf_numeral (n : Int) : Numeral (fprintf n) n := by
  cases n with
  | ofNat n =>
    have numeral := Numeral.plain (Nat.toDigits_ne_nil (n := n)) fun c mem => toDigits_isDigit mem
    rw [digitsValue_toDigits] at numeral
    exact numeral
  | negSucc n =>
    have numeral := Numeral.minus (Nat.toDigits_ne_nil (n := n + 1)) fun c mem => toDigits_isDigit mem
    rw [digitsValue_toDigits] at numeral
    exact numeral

/-- Every number with a blank behind it. -/
def listed (numbers : List Int) : List Char := numbers.flatMap fun n => fprintf n ++ [' ']

/-- The numbers with a blank between each two of them. -/
def separated (numbers : List Int) : List Char := [' '].intercalate (numbers.map fprintf)

theorem writeNumbersToFile_returns (numbers : List Int) (s : σ) :
    (writeNumbersToFile numbers numbers.length).Ensures s fun file s' => s' = s ∧ file = listed numbers := by
  -- What is left to be written is listed behind what the file has.
  refine ensures_loop_of_measure (fun a s' => s' = s ∧ a.1 ≤ numbers.length ∧ a.2 = listed (numbers.take a.1))
    (fun a _ => numbers.length - a.1) ?_ ⟨rfl, Nat.zero_le _, rfl⟩
  rintro ⟨i, file⟩ s' ⟨rfl, inside, written⟩
  dsimp only at inside written ⊢
  rw [writeRound, ensures_ite]
  split
  · next more =>
    rw [ensures_bind, ensures_require]
    refine ⟨numbers[i], List.getElem?_eq_getElem more, ensures_pure.mpr ⟨⟨rfl, more, ?_⟩, by omega⟩⟩
    rw [written, listed, listed, List.take_add_one, List.getElem?_eq_getElem more, Option.toList_some, List.flatMap_append,
      List.flatMap_singleton, List.append_assoc]
  · next done =>
    rw [ensures_pure]
    refine ⟨rfl, ?_⟩
    rw [written, List.take_of_length_le (by omega)]

theorem separated_concat (numbers : List Int) (n : Int) : separated (numbers ++ [n]) = listed numbers ++ fprintf n := by
  induction numbers with
  | nil => simp [separated, listed]
  | cons m numbers ih =>
    rw [separated] at ih ⊢
    rw [List.cons_append, List.map_cons, List.intercalate_cons_of_ne_nil (by simp), ih]
    simp [listed]

/-- The generator writes a blank behind each number but the last one. -/
theorem generator_eq (randint : Nat → Int) (c : Int) :
    generator randint c = separated ((List.range c.toNat).map randint) := by
  -- The rounds in front of the last one.
  have front : ∀ n : Nat, (n : Int) < c → (List.range n).foldl (fun file i =>
      let file := file ++ fprintf (randint i)
      if (i : Int) + 1 ≠ c then file ++ [' '] else file) [] = listed ((List.range n).map randint) := by
    intro n inside
    induction n with
    | zero => rfl
    | succ n ih =>
      have goes_on : (n : Int) + 1 ≠ c := by omega
      rw [List.range_succ, List.foldl_append, ih (by omega)]
      simp [goes_on, listed]
  rw [generator]
  cases count : c.toNat with
  | zero => rfl
  | succ n =>
    have last : (n : Int) + 1 = c := by omega
    rw [List.range_succ, List.foldl_append, front n (by omega), List.map_append, List.map_singleton, separated_concat]
    simp [last]

/-! ## Reading again -/

/-- The values of an `int`. -/
def IsInt (n : Int) : Prop := -2 ^ 31 ≤ n ∧ n < 2 ^ 31

instance {n : Int} : Decidable (IsInt n) := inferInstanceAs (Decidable (_ ∧ _))

theorem Spells.ints {content : List Char} {numbers : List Int} (spells : Spells content numbers) :
    ∀ n ∈ numbers, IsInt n := by
  induction spells with
  | nil => simp
  | blank _ _ ih => exact ih
  | number _ fits _ _ ih => simpa using ⟨fits, ih⟩

/-- What is written is a file of these integers, if an `int` holds each of them. -/
theorem listed_spells {numbers : List Int} : Spells (listed numbers) numbers ↔ ∀ n ∈ numbers, IsInt n := by
  constructor
  · exact Spells.ints
  · intro fits
    induction numbers with
    | nil => exact .nil
    | cons n numbers ih =>
      have later := ih fun m mem => fits m (List.mem_cons_of_mem n mem)
      have first := Spells.number (fprintf_numeral n) (fits n List.mem_cons_self) (by simp [isBlank])
        (.blank (c := ' ') (by decide) later)
      simpa [listed] using first

theorem separated_spells {numbers : List Int} : Spells (separated numbers) numbers ↔ ∀ n ∈ numbers, IsInt n := by
  constructor
  · exact Spells.ints
  · intro fits
    induction numbers with
    | nil => exact .nil
    | cons n numbers ih =>
      have later := ih fun m mem => fits m (List.mem_cons_of_mem n mem)
      cases numbers with
      | nil =>
        have only := Spells.number (fprintf_numeral n) (fits n List.mem_cons_self) (by simp) .nil
        simpa [separated] using only
      | cons m numbers =>
        have first := Spells.number (fprintf_numeral n) (fits n List.mem_cons_self) (by simp [isBlank])
          (.blank (c := ' ') (by decide) later)
        simpa [separated] using first

/-- The array holds the numbers, and one cell behind them that nothing has been stored in. -/
def Holds (numbers : List Int) (a : ArrayOfInts) : Prop :=
  a.len = numbers.length + 1 ∧ a.array.take a.len = numbers.map some ++ [none]

/-- Numbers that are written by the program or by the generator are read again. -/
theorem numbers_read_back {numbers : List Int} (s : σ) (fits : ∀ n ∈ numbers, IsInt n) (few : numbers.length < lengthLimit) :
    (do let file ← writeNumbersToFile numbers numbers.length
        readNumbersFromFile file : Prog σ ArrayOfInts).Ensures s (fun a _ => Holds numbers a) ∧
    ∀ randint c, numbers = (List.range c.toNat).map randint →
      (readNumbersFromFile (generator randint c)).Ensures s fun a _ => Holds numbers a := by
  constructor
  · refine ensures_bind.mpr ((writeNumbersToFile_returns numbers s).mono fun file s' written => ?_)
    obtain ⟨rfl, rfl⟩ := written
    exact readNumbersFromFile_spelled s' (listed_spells.mpr fits) few
  · intro randint c drawn
    rw [generator_eq, ← drawn]
    exact readNumbersFromFile_spelled s (separated_spells.mpr fits) few

theorem numbers_read_back_two : (readNumbersFromFile (generator (fun i => 7 * i) 2)).Ensures () fun a _ => Holds [0, 7] a :=
  (numbers_read_back () (by decide) (by simp [lengthLimit_eq])).2 (fun i => 7 * i) 2 (by decide)

namespace Checker

/-- What Python's `split` takes for a blank. -/
def isSpace (c : Char) : Bool :=
  (9 ≤ c.toNat && c.toNat ≤ 13) || (28 ≤ c.toNat && c.toNat ≤ 32) || c.toNat == 0x85 || c.toNat == 0xa0 ||
    c.toNat == 0x1680 || (0x2000 ≤ c.toNat && c.toNat ≤ 0x200a) || c.toNat == 0x2028 || c.toNat == 0x2029 ||
    c.toNat == 0x202f || c.toNat == 0x205f || c.toNat == 0x3000

/-- `data.split()` -/
def split (data : List Char) : List Token := (data.splitOnP isSpace).filter fun token => !token.isEmpty

theorem isDigit_not_space {c : Char} (digit : c.isDigit = true) : isSpace c = false := by
  simp only [Char.isDigit, Bool.and_eq_true, decide_eq_true_eq, UInt32.le_iff_toNat_le] at digit
  have lower : 48 ≤ c.toNat := digit.1
  have upper : c.toNat ≤ 57 := digit.2
  simp [isSpace]
  omega

/-- A numeral is a token. -/
theorem numeral_token {token : Token} {n : Int} (numeral : Numeral token n) :
    token ≠ [] ∧ ∀ c ∈ token, isSpace c = false := by
  have digits : ∀ digits : List Char, (∀ c ∈ digits, c.isDigit = true) → ∀ c ∈ digits, isSpace c = false :=
    fun digits all c mem => isDigit_not_space (all c mem)
  cases numeral with
  | plain some all => exact ⟨some, digits _ all⟩
  | plus some all => simpa using ⟨by decide, digits _ all⟩
  | minus some all => simpa using ⟨by decide, digits _ all⟩

/-- The tokens of a file with a blank behind each number. -/
theorem split_listed (numbers : List Int) : split (listed numbers) = numbers.map fprintf := by
  induction numbers with
  | nil => rfl
  | cons n numbers ih =>
    obtain ⟨nonempty, token⟩ := numeral_token (fprintf_numeral n)
    have whole : listed (n :: numbers) = fprintf n ++ ' ' :: listed numbers := by simp [listed]
    rw [split] at ih ⊢
    rw [whole, List.splitOnP_append_cons_of_forall_mem token ' ' (by decide), List.filter_cons, ih]
    simp [nonempty]

/-- `int(str(n))` -/
theorem decimal_fprintf (n : Int) : decimal (fprintf n) = some n := by
  cases n with
  | ofNat n =>
    have digits : ∀ c ∈ Nat.toDigits 10 n, c.isDigit = true := fun c mem => toDigits_isDigit mem
    have value := digitsValue_toDigits n
    have nonempty := Nat.toDigits_ne_nil (n := n) (b := 10)
    rw [fprintf]
    generalize Nat.toDigits 10 n = token at digits value nonempty
    cases token with
    | nil => exact absurd rfl nonempty
    | cons c token =>
      have first : c ≠ '-' := by
        rintro rfl
        have digit := digits '-' List.mem_cons_self
        cases digit
      unfold decimal
      split
      · next same => exact absurd (List.cons.inj same).1 first
      · next other _ =>
        rw [if_pos ⟨nonempty, by simpa using digits⟩, value]
        rfl
  | negSucc n =>
    have digits : ∀ c ∈ Nat.toDigits 10 (n + 1), c.isDigit = true := fun c mem => toDigits_isDigit mem
    rw [fprintf, decimal, if_pos ⟨Nat.toDigits_ne_nil, by simpa using digits⟩, digitsValue_toDigits]
    rfl

/-! ## What the checker prints -/

/-- The errors: the numbers that are less than the largest one before them. -/
def errors (prevNumber : Int) : List Int → List Line
  | [] => []
  | v :: rest => if v < prevNumber then .errorOnNumbers prevNumber v :: errors prevNumber rest else errors v rest

variable {int : Token → Option Int}

/-- What a token does, given what `int` makes of it. -/
def World.read (w : World) : Option Int → World
  | none => w
  | some v => if v < w.prevNumber then { w with printed := w.printed ++ [.errorOnNumbers w.prevNumber v] }
      else { w with prevNumber := v }

/-- What was done before an exception stays done. -/
theorem tryPass_run (body : Py Unit) (w : World) : (tryPass body).run.run w = (.ok (), (body.run.run w).2) := by
  simp only [tryPass, tryCatch, tryCatchThe, MonadExceptOf.tryCatch, ExceptT.tryCatch, ExceptT.run, ExceptT.mk,
    StateT.run_bind]
  generalize StateT.run body w = result
  obtain ⟨outcome, w'⟩ := result
  cases outcome <;> rfl

theorem checkToken_run (token : Token) (w : World) : ((checkToken int token).run.run w).2 = w.read (int token) := by
  rw [checkToken, toInt]
  cases int token with
  | none => rfl
  | some v =>
    show (StateT.run (ExceptT.run (if v < w.prevNumber then _ else _ : Py Unit)) w).2 = _
    rw [World.read]
    split
    · rfl
    · rfl

theorem loop_run (data : List Token) (w : World) :
    (data.forM fun token => tryPass (checkToken int token)).run.run w = (.ok (), (data.map int).foldl World.read w) := by
  induction data generalizing w with
  | nil => rfl
  | cons token data ih =>
    have first : (tryPass (checkToken int token)).run.run w = (.ok (), w.read (int token)) := by
      rw [tryPass_run, checkToken_run]
    exact (run_bind_ok first).trans (ih _)

theorem read_printed (values : List (Option Int)) (w : World) :
    (values.foldl World.read w).printed = w.printed ++ errors w.prevNumber (values.filterMap id) := by
  induction values generalizing w with
  | nil => simp [errors]
  | cons value values ih =>
    rw [List.foldl_cons, ih]
    cases value with
    | none => simp [World.read]
    | some v =>
      by_cases less : v < w.prevNumber
      · simp [World.read, errors, less]
      · simp [World.read, errors, less]

/-- The checker prints an error for every number that is less than the largest one before it,
    counted from -(1 << 30), and that all is ok. -/
theorem checker_prints (data : List Token) : (checker int data).1 = .ok () ∧
    (checker int data).2.printed = errors (-2 ^ 30) (numbers int data) ++ [.allIsOk] := by
  have loop : (data.forM fun token => tryPass (checkToken int token)).run.run _ = _ :=
    loop_run data { prevNumber := -((1 : Int) <<< (31 - 1)), printed := [] }
  have ends : checker int data = _ := run_bind_ok loop
  rw [ends]
  refine ⟨rfl, ?_⟩
  have printed := read_printed (data.map int) { prevNumber := -((1 : Int) <<< (31 - 1)), printed := [] }
  have start : -((1 : Int) <<< (31 - 1)) = -2 ^ 30 := by decide
  simp only [start, List.nil_append, List.filterMap_map, Function.id_comp] at printed
  show _ ++ [Line.allIsOk] = _
  rw [start, printed]
  rfl

theorem errors_eq_nil {prevNumber : Int} {values : List Int} :
    errors prevNumber values = [] ↔ (prevNumber :: values).Pairwise (· ≤ ·) := by
  induction values generalizing prevNumber with
  | nil => simp [errors]
  | cons v values ih =>
    rw [errors, List.pairwise_cons]
    split
    · next less => simp [less]
    · next le =>
      rw [ih, List.forall_mem_cons, List.pairwise_cons]
      constructor
      · intro sorted
        refine ⟨⟨by omega, fun n mem => ?_⟩, sorted⟩
        have later := sorted.1 n mem
        omega
      · exact fun both => both.2

/-- Of numbers in order those are reported that are less than the one to begin with. -/
theorem errors_sorted {prevNumber : Int} {values : List Int} (sorted : values.Pairwise (· ≤ ·)) :
    errors prevNumber values = (values.filter (· < prevNumber)).map (.errorOnNumbers prevNumber) := by
  induction values with
  | nil => rfl
  | cons v values ih =>
    rw [errors]
    split
    · next less => simp [less, ih (List.pairwise_cons.mp sorted).2]
    · next le =>
      have later : (v :: values).filter (· < prevNumber) = [] := by
        rw [List.filter_eq_nil_iff]
        intro n mem
        have above := List.pairwise_cons.mp sorted
        rcases List.mem_cons.mp mem with rfl | mem
        · simpa using le
        · have := above.1 n mem
          simp
          omega
      rw [later, errors_eq_nil.mpr sorted]
      rfl

/-- It prints nothing else exactly if the numbers are in order and none of them is less than -(1 << 30). -/
theorem prints_only_ok (data : List Token) :
    (checker int data).2.printed = [.allIsOk] ↔ (-2 ^ 30 :: numbers int data).Pairwise (· ≤ ·) := by
  rw [(checker_prints data).2, ← errors_eq_nil]
  simp

end Checker

end SysprogLabs.FileSort
