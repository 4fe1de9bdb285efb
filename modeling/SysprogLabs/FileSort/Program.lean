import SysprogLabs.FileSort.Schedules
import SysprogLabs.FileSort.Writing

/-! # From the files to `result.txt`

The whole program: the coroutines read and sort the files, `main` sorts what they have sorted and
writes it.  Every file adds one number that is not in it, whatever its last cell holds.
-/

namespace SysprogLabs.FileSort

open Prog

variable {σ : Type}

/-! ## What is read -/

/-- What the array may be read as: a cell that nothing has been stored in holds any `int`. -/
structure ArrayOfInts.ReadsAs (a : ArrayOfInts) (numbers : List Int) : Prop where
  len : numbers.length = a.len
  ints : ∀ n ∈ numbers, IsInt n
  stored : ∀ (i : Nat) n m, a.array[i]? = some (some n) → numbers[i]? = some m → m = n

/-- The coroutines work on what `read_numbers_from_file` returns for these contents. -/
def Files.ReadFrom (files : Files) (contents : List (List Char)) : Prop :=
  List.Forall₂ (fun content numbers =>
    (readNumbersFromFile content : Prog Unit ArrayOfInts).Ensures () fun a _ => a.ReadsAs numbers) contents files.data

/-- A file of integers is read as its numbers and one more. -/
theorem reads_spelled {content : List Char} {numbers data : List Int} (spells : Spells content numbers)
    (few : numbers.length < lengthLimit)
    (reads : (readNumbersFromFile content : Prog Unit ArrayOfInts).Ensures () fun a _ => a.ReadsAs data) :
    ∃ n, IsInt n ∧ data = numbers ++ [n] := by
  obtain ⟨a, s, returned, readsAs⟩ := reads
  obtain ⟨a', s', returned', len, cells⟩ := readNumbersFromFile_spelled () spells few
  obtain ⟨rfl, -⟩ := returned.unique returned'
  have length : data.length = numbers.length + 1 := readsAs.len.trans len
  have front : data.take numbers.length = numbers := by
    apply List.ext_getElem (by simp; omega)
    intro i _ inside
    -- The cell that the number has been stored in.
    have cell : a.array[i]? = some (some numbers[i]) := by
      have taken : (a.array.take a.len)[i]? = a.array[i]? := List.getElem?_take_of_lt (by omega)
      rw [← taken, cells, List.getElem?_append_left (by simpa using inside)]
      simp [inside]
    rw [List.getElem_take]
    exact readsAs.stored i _ _ cell (List.getElem?_eq_getElem (by omega))
  obtain ⟨n, last⟩ : ∃ n, data.drop numbers.length = [n] := List.length_eq_one_iff.mp (by simp [length])
  have whole : data = numbers ++ [n] := by
    calc data = data.take numbers.length ++ data.drop numbers.length := (List.take_append_drop _ _).symm
      _ = numbers ++ [n] := by rw [front, last]
  exact ⟨n, readsAs.ints n (by simp [whole]), whole⟩

/-- That one is any `int`. -/
theorem spelled_reads {content : List Char} {numbers : List Int} (spells : Spells content numbers)
    (few : numbers.length < lengthLimit) {n : Int} (fits : IsInt n) :
    (readNumbersFromFile content : Prog Unit ArrayOfInts).Ensures () fun a _ => a.ReadsAs (numbers ++ [n]) := by
  refine (readNumbersFromFile_spelled () spells few).mono fun a s' read => ?_
  obtain ⟨len, cells⟩ := read
  constructor
  · simp [len]
  · simpa [or_imp, forall_and] using ⟨spells.ints, fits⟩
  · intro i m k stored read
    have inside : i < numbers.length + 1 := by simpa using (List.getElem?_eq_some_iff.mp read).1
    rw [← List.getElem?_take_of_lt (j := a.len) (by omega), cells] at stored
    by_cases last : i < numbers.length
    · rw [List.getElem?_append_left (by simpa using last), List.getElem?_map] at stored
      rw [List.getElem?_append_left last] at read
      simpa [read] using stored
    · obtain rfl : i = numbers.length := by omega
      simp at stored

/-- The numbers of all files together, and one more for each of them. -/
theorem read_all {contents : List (List Char)} {numbers data : List (List Int)}
    (spelled : List.Forall₂ Spells contents numbers)
    (few : ∀ ns ∈ numbers, ns.length < lengthLimit)
    (reads : List.Forall₂ (fun content numbers =>
      (readNumbersFromFile content : Prog Unit ArrayOfInts).Ensures () fun a _ => a.ReadsAs numbers) contents data) :
    ∃ extra : List Int, extra.length = numbers.length ∧ (∀ n ∈ extra, IsInt n) ∧
    data.flatten.Perm (numbers.flatten ++ extra) := by
  induction spelled generalizing data with
  | nil =>
    cases reads
    exact ⟨[], rfl, by simp, .refl _⟩
  | @cons content ns contents numbers spells spelled ih =>
    cases reads with
    | cons first rest =>
      obtain ⟨n, fits, rfl⟩ := reads_spelled spells (few ns List.mem_cons_self) first
      obtain ⟨extra, count, ints, perm⟩ := ih (fun ns mem => few ns (List.mem_cons_of_mem _ mem)) rest
      refine ⟨n :: extra, by simp [count], by simpa using ⟨fits, ints⟩, ?_⟩
      rw [List.flatten_cons, List.flatten_cons, List.append_assoc, List.append_assoc]
      apply List.Perm.append_left
      exact (List.Perm.cons n perm).trans List.perm_middle.symm

theorem spelled_ints {contents : List (List Char)} {numbers : List (List Int)}
    (spelled : List.Forall₂ Spells contents numbers) :
    ∀ n ∈ numbers.flatten, IsInt n := by
  induction spelled with
  | nil => simp
  | cons spells _ ih =>
    intro n mem
    rcases List.mem_append.mp mem with first | later
    · exact spells.ints n first
    · exact ih n later

/-! ## What is written -/

/-- The end of `main`, up to the content of `result.txt`. -/
def mainWrites (setup : Setup) (destinations : List (Option (List Int))) : Prog Times (List Char) := do
  let result ← mainEnd setup destinations
  writeNumbersToFile result result.length

/-- The text consists of the numbers in order and of one `int` more for each file; the checker reports
    those that are less than -(1 << 30). -/
structure Result (numbers : List (List Int)) (text : List Char) (written : List Int) : Prop where
  sorted : ∃ extra : List Int, extra.length = numbers.length ∧ (∀ n ∈ extra, IsInt n) ∧
    SortedOf (numbers.flatten ++ extra) written
  spelled : text = listed written ∧ Spells text written
  checked : (Checker.checker Checker.decimal (Checker.split text)).2.printed =
    (written.filter (· < -2 ^ 30)).map (.errorOnNumbers (-2 ^ 30)) ++ [.allIsOk]

/-- Every schedule of every number of coroutines comes to the end, and then the files are sorted. -/
structure SortsFiles (files : Files) (numbers : List (List Int)) : Prop where
  goes_on : ∀ setup labels s, Runs files setup labels s → ¬ s.Finished setup → ∃ label s', Step setup s label s'
  bounded : ∀ setup : Setup, ∃ bound, ∀ labels s, Runs files setup labels s → labels.length ≤ bound
  writes : ∀ setup labels s, Runs files setup labels s → s.Finished setup → ∀ t,
    (mainWrites setup s.destinations).Ensures t fun text _ => ∃ written, Result numbers text written

/-- The checker reads what has been written. -/
theorem numbers_listed (written : List Int) :
    Checker.numbers Checker.decimal (Checker.split (listed written)) = written := by
  rw [Checker.split_listed, Checker.numbers, List.filterMap_map]
  have same : Checker.decimal ∘ fprintf = some := funext Checker.decimal_fprintf
  rw [same, List.filterMap_some]

theorem files_sorted {files : Files} {contents : List (List Char)} {numbers : List (List Int)}
    (some : contents ≠ []) (spelled : List.Forall₂ Spells contents numbers)
    (few : ∀ ns ∈ numbers, ns.length < lengthLimit) (fits : numbers.flatten.length + numbers.length < 2 ^ 31)
    (reads : files.ReadFrom contents) : SortsFiles files numbers := by
  obtain ⟨extra, count, ints, perm⟩ := read_all spelled few reads
  have nonempty : files.data ≠ [] := by
    intro none
    rw [Files.ReadFrom, none] at reads
    exact some (List.forall₂_nil_right_iff.mp reads)
  have total : files.data.flatten.length < 2 ^ 31 := by
    rw [perm.length_eq, List.length_append, count]
    exact fits
  have shares := shares_files files
  constructor
  · intro setup labels s runs unfinished
    cases running : s.running with
    | some c => exact shares.goes_on setup labels s runs c running
    | none =>
      simp only [Pool.Finished, not_forall] at unfinished
      obtain ⟨c, inside, more⟩ := unfinished
      exact ⟨_, _, .resume running inside more⟩
  · exact shares.bounded
  · intro setup labels s runs finished t
    obtain rfl := runs.files_eq
    have result := mainEnd_returns (t := t) nonempty total
    rw [← runs.slots_eq finished] at result
    refine ensures_bind.mpr (result.mono fun written t' same => ?_)
    refine (writeNumbersToFile_returns written t').mono fun text t'' file => ⟨written, ?_⟩
    obtain ⟨-, rfl⟩ := file
    have sorted : SortedOf setup.files.data.flatten written := same ▸ SortedOf.mergeSort _
    have all : SortedOf (numbers.flatten ++ extra) written :=
      ⟨sorted.length_eq.trans perm.length_eq, sorted.ordered, sorted.perm.trans perm⟩
    refine ⟨⟨extra, count, ints, all⟩, ⟨rfl, listed_spells.mpr ?_⟩, ?_⟩
    · intro n mem
      rcases List.mem_append.mp (all.perm.mem_iff.mp mem) with one | more
      · exact spelled_ints spelled n one
      · exact ints n more
    · rw [(Checker.checker_prints _).2, numbers_listed, Checker.errors_sorted sorted.ordered]

/-- Two files, with what the cells behind their numbers may hold. -/
theorem files_sorted_two : SortsFiles ⟨[[3, 1, 2, 9], [-7, 0]], by decide⟩ [[3, 1, 2], [-7]] := by
  have small := lengthLimit_eq
  have first : Spells (separated [3, 1, 2]) [3, 1, 2] := separated_spells.mpr (by decide)
  have second : Spells (separated [-7]) [-7] := separated_spells.mpr (by decide)
  have some : [separated [3, 1, 2], separated [-7]] ≠ [] := by simp
  refine files_sorted some (.cons first (.cons second .nil)) ?_ (by decide) ?_
  · intro ns mem
    simp only [List.mem_cons, List.not_mem_nil, or_false] at mem
    rcases mem with rfl | rfl
    · simp [small]
    · simp [small]
  · exact .cons (spelled_reads first (by simp [small]) (by decide))
      (.cons (spelled_reads second (by simp [small]) (by decide)) .nil)

end SysprogLabs.FileSort
