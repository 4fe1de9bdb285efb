import SysprogLabs.FileSort.Reading
import Mathlib.Data.List.TakeWhile

/-! # When reading ends

The loop of `read_numbers_from_file` is left at the end of the file only.  A character that cannot
start an integer is never consumed, so a file that has one is read forever.
-/

namespace SysprogLabs.FileSort

open Prog

variable {σ : Type}

/-- A blank, or a part of an integer. -/
def isReadable (c : Char) : Bool := isBlank c || c.isDigit || isSign c

/-- The items of a text, an integer or a sign without digits each: a sign starts one, and so does a
    digit unless it is `inside` of one. -/
def itemsFrom (inside : Bool) : List Char → Nat
  | [] => 0
  | c :: rest => (if isSign c || (c.isDigit && !inside) then 1 else 0) + itemsFrom (isSign c || c.isDigit) rest

def items (content : List Char) : Nat := itemsFrom false content

/-- The function gets to its `return`. -/
def ReadingEnds (s : σ) (content : List Char) : Prop := (readNumbersFromFile content).Ensures s fun _ _ => True

/-! ## What `fscanf` consumes -/

theorem isBlank_not_sign {c : Char} (blank : isBlank c = true) : isSign c = false := by
  simp only [isSign, Bool.or_eq_false_iff, beq_eq_false_iff_ne]
  constructor <;> (rintro rfl; cases blank)

theorem isDigit_not_sign {c : Char} (digit : c.isDigit = true) : isSign c = false := by
  simp only [isSign, Bool.or_eq_false_iff, beq_eq_false_iff_ne]
  constructor <;> (rintro rfl; cases digit)

theorem items_blanks (content : List Char) : items (content.dropWhile isBlank) = items content := by
  induction content with
  | nil => rfl
  | cons c rest ih =>
    cases blank : isBlank c with
    | false => rw [List.dropWhile_cons_of_neg (by simp [blank])]
    | true =>
      rw [List.dropWhile_cons_of_pos blank, ih, items, items, itemsFrom]
      simp [isBlank_not_sign blank, isBlank_not_digit blank]

/-- The digits that go on an item. -/
theorem items_inside (rest : List Char) : itemsFrom true rest = items (rest.dropWhile Char.isDigit) := by
  induction rest with
  | nil => rfl
  | cons c rest ih =>
    cases digit : c.isDigit with
    | false =>
      rw [List.dropWhile_cons_of_neg (by simp [digit]), items, itemsFrom, itemsFrom]
      simp [digit]
    | true =>
      rw [List.dropWhile_cons_of_pos digit, ← ih, itemsFrom]
      simp [digit, isDigit_not_sign digit]

/-- `fscanf` leaves the rest behind a part of the input that it can read. -/
structure Consumes (input rest : List Char) : Prop where
  part : ∃ consumed, input = consumed ++ rest ∧ ∀ c ∈ consumed, isReadable c = true
  /-- Except in front of a character that cannot be read. -/
  progress : (∀ c ∈ input, isReadable c = true) → rest.length < input.length ∧ items input = items rest + 1

/-- What a call of `fscanf` does to the input. -/
def Scans (input : List Char) : Scan → Prop
  | .eof => (∀ c ∈ input, isReadable c = true) ∧ items input = 0
  | .miss rest => Consumes input rest
  | .number _ rest => Consumes input rest

/-- The blanks and one item. -/
theorem consumes_item {input front rest : List Char} {c : Char} (start : input.dropWhile isBlank = c :: (front ++ rest))
    (first : c.isDigit = true ∨ isSign c = true) (digits : ∀ d ∈ front, d.isDigit = true)
    (left : itemsFrom true (front ++ rest) = items rest) : Consumes input rest := by
  have whole : input = input.takeWhile isBlank ++ c :: (front ++ rest) := by
    rw [← start, List.takeWhile_append_dropWhile]
  have one : items (c :: (front ++ rest)) = items rest + 1 := by
    rw [items, itemsFrom, ← left]
    obtain digit | sign := first
    · simp [digit, Nat.add_comm]
    · simp [sign, Nat.add_comm]
  refine ⟨⟨input.takeWhile isBlank ++ c :: front, ?_, fun d mem => ?_⟩, fun _ => ⟨?_, ?_⟩⟩
  · rw [List.append_assoc, List.cons_append]
    exact whole
  · rcases List.mem_append.mp mem with blank | mem
    · simp [isReadable, List.mem_takeWhile_imp blank]
    · rcases List.mem_cons.mp mem with rfl | mem
      · obtain digit | sign := first
        · simp [isReadable, digit]
        · simp [isReadable, sign]
      · simp [isReadable, digits d mem]
  · rw [whole]
    simp
    omega
  · rw [← items_blanks, start, one]

theorem fscanf_scans (input : List Char) : Scans input (fscanf input) := by
  rw [fscanf]
  cases start : input.dropWhile isBlank with
  | nil =>
    have blank := List.dropWhile_eq_nil_iff.mp start
    refine ⟨fun c mem => ?_, ?_⟩
    · simp [isReadable, blank c mem]
    · rw [← items_blanks, start]
      rfl
  | cons c rest =>
    have split : rest.takeWhile Char.isDigit ++ rest.dropWhile Char.isDigit = rest := List.takeWhile_append_dropWhile
    have digits : ∀ d ∈ rest.takeWhile Char.isDigit, d.isDigit = true := fun d mem => List.mem_takeWhile_imp mem
    have item : c.isDigit = true ∨ isSign c = true → Consumes input (rest.dropWhile Char.isDigit) := by
      intro first
      apply consumes_item _ first digits
      · rw [split]
        exact items_inside rest
      · rw [split]
        exact start
    simp only
    by_cases digit : c.isDigit = true
    · rw [if_pos digit]
      exact item (.inl digit)
    · rw [if_neg digit]
      by_cases sign : isSign c = true
      · rw [if_pos sign]
        split
        · next none =>
          rw [none, List.nil_append] at split
          exact split ▸ item (.inr sign)
        · exact item (.inr sign)
      · rw [if_neg sign]
        -- Nothing but blanks is consumed, and the character stays.
        have blank : isBlank c = false := by
          have first := List.head?_dropWhile_not isBlank input
          rw [start] at first
          exact first
        have whole : input.takeWhile isBlank ++ c :: rest = input := by
          rw [← start, List.takeWhile_append_dropWhile]
        refine ⟨⟨_, whole.symm, fun d mem => ?_⟩, fun readable => ?_⟩
        · have blank' : isBlank d = true := List.mem_takeWhile_imp mem
          simp [isReadable, blank']
        · have here := readable c (whole ▸ List.mem_append_right _ List.mem_cons_self)
          simp [isReadable, blank, digit, sign] at here

/-! ## The loop -/

/-- Between two rounds, when the whole file can be read and has `total` items. -/
structure Reader.Reading (total : Nat) (r : Reader) : Prop where
  sized : r.Sized
  readable : ∀ c ∈ r.input, isReadable c = true
  count : r.idx + items r.input = total

/-- A round that is not at the end of the file takes one item. -/
def TakesItem (total : Nat) (r : Reader) : Flow Reader Reader → Prop
  | .again r' => r'.Reading total ∧ r'.input.length < r.input.length
  | .done r' => r'.Sized ∧ r'.idx = total

theorem Reader.Reading.taken {total : Nat} {r r' : Reader} {rest : List Char} {cells : List (Option Int)}
    (reading : r.Reading total) (consumes : Consumes r.input rest)
    (grown : Grown { r with input := rest, numbers := cells } r') :
    r'.Reading total ∧ r'.input.length < r.input.length := by
  obtain ⟨consumed, split, -⟩ := consumes.part
  obtain ⟨shorter, counted⟩ := consumes.progress reading.readable
  have count := reading.count
  refine ⟨⟨grown.sized, fun c mem => ?_, ?_⟩, by rw [grown.input]; exact shorter⟩
  · rw [grown.input] at mem
    exact reading.readable c (split ▸ List.mem_append_right _ mem)
  · rw [grown.idx, grown.input]
    show r.idx + 1 + items rest = total
    omega

theorem readRound_takes {total : Nat} {r : Reader} {s : σ} (reading : r.Reading total) :
    (readRound r).Yields s fun flow _ => TakesItem total r flow := by
  have scans := fscanf_scans r.input
  have sized := reading.sized
  rw [readRound]
  cases scanned : fscanf r.input with
  | eof =>
    rw [scanned] at scans
    have none : items r.input = 0 := scans.2
    have count := reading.count
    rw [yields_pure]
    exact ⟨sized, by omega⟩
  | miss rest =>
    rw [scanned] at scans
    have sized' : Reader.Sized { r with input := rest } := ⟨sized.doubled, sized.size, sized.room⟩
    rw [yields_bind]
    refine (readBody_yields sized').mono fun r' s' grown => ?_
    rw [yields_pure]
    exact reading.taken scans grown
  | number n rest =>
    rw [scanned] at scans
    simp only [storeScanned, yields_bind, yields_ite, yields_pure, yields_fault, implies_true, and_true]
    intro _
    have sized' : Reader.Sized { r with
        input := rest, numbers := r.numbers.set r.idx (if -2 ^ 31 ≤ n ∧ n < 2 ^ 31 then some n else none) } :=
      ⟨sized.doubled, by simpa using sized.size, sized.room⟩
    exact (readBody_yields sized').mono fun r' s' grown => reading.taken scans grown

/-- It returns as long as `max_length` is an `int`. -/
theorem readRound_returns {total : Nat} {r : Reader} {s : σ} (reading : r.Reading total) (few : total < lengthLimit) :
    (readRound r).Ensures s fun _ _ => True := by
  have scans := fscanf_scans r.input
  have sized := reading.sized
  have room : ∀ rest, Consumes r.input rest → r.idx + 1 < lengthLimit := by
    intro rest consumes
    have := (consumes.progress reading.readable).2
    have := reading.count
    omega
  rw [readRound]
  cases scanned : fscanf r.input with
  | eof => exact ensures_pure.mpr trivial
  | miss rest =>
    rw [scanned] at scans
    have sized' : Reader.Sized { r with input := rest } := ⟨sized.doubled, sized.size, sized.room⟩
    exact ensures_bind.mpr ((readBody_returns sized' (room rest scans)).mono fun r' s' _ => ensures_pure.mpr trivial)
  | number n rest =>
    rw [scanned] at scans
    have inside : r.idx < r.numbers.length := by
      have := sized.size
      have := sized.room
      omega
    simp only [storeScanned, ensures_bind]
    rw [if_pos inside, ensures_pure]
    have sized' : Reader.Sized { r with
        input := rest, numbers := r.numbers.set r.idx (if -2 ^ 31 ≤ n ∧ n < 2 ^ 31 then some n else none) } :=
      ⟨sized.doubled, by simpa using sized.size, sized.room⟩
    exact (readBody_returns sized' (room rest scans)).mono fun r' s' _ => ensures_pure.mpr trivial

theorem Reader.Reading.init {content : List Char} (readable : ∀ c ∈ content, isReadable c = true) :
    (Reader.init content).Reading (items content) :=
  ⟨.init content, readable, Nat.zero_add _⟩

/-- A file that can be read, with few items, is read to its end. -/
theorem readable_ends {content : List Char} (s : σ) (readable : ∀ c ∈ content, isReadable c = true)
    (few : items content < lengthLimit) : ReadingEnds s content := by
  have ends : (loop readRound (Reader.init content)).Ensures s fun _ _ => True := by
    apply ensures_loop_of_measure (fun r _ => r.Reading (items content)) (fun r _ => r.input.length) _ (.init readable)
    intro r s reading
    refine ((readRound_returns reading few).and_yields (readRound_takes reading)).mono fun flow s' after => ?_
    cases flow with
    | again r' => exact after.2
    | done r' => trivial
  exact ensures_bind.mpr (ends.mono fun r s' _ => ensures_pure.mpr trivial)

/-- A character that cannot be read is there in every round, and so the end of the file is not. -/
theorem unreadable_stays {content : List Char} {s s' : σ} {r : Reader}
    (returned : (loop readRound (Reader.init content)).Returns s r s') : ∀ c ∈ content, isReadable c = true := by
  by_contra unreadable
  have round : ∀ (r : Reader) (s : σ), (¬ ∀ c ∈ r.input, isReadable c = true) →
      (readRound r).Yields s fun flow _ => match flow with
        | .again r' => ¬ ∀ c ∈ r'.input, isReadable c = true
        | .done _ => False := by
    intro r s unreadable
    have scans := fscanf_scans r.input
    have stays : ∀ rest, Consumes r.input rest → ¬ ∀ c ∈ rest, isReadable c = true := by
      intro rest consumes readable
      obtain ⟨consumed, split, part⟩ := consumes.part
      apply unreadable
      rw [split]
      exact List.forall_mem_append.mpr ⟨part, readable⟩
    rw [readRound]
    cases scanned : fscanf r.input with
    | eof =>
      rw [scanned] at scans
      exact absurd scans.1 unreadable
    | miss rest =>
      rw [scanned] at scans
      rw [yields_bind]
      refine (readBody_goes_on s).mono fun r' s' after => ?_
      rw [yields_pure]
      show ¬ ∀ c ∈ r'.input, isReadable c = true
      rw [after.2]
      exact stays rest scans
    | number n rest =>
      rw [scanned] at scans
      simp only [yields_bind, yields_pure]
      intro cells s' _
      refine (readBody_goes_on s').mono fun r' s'' after => ?_
      rw [after.2]
      exact stays rest scans
  refine Returns.loop_induct (Q := fun _ _ => False) (fun r _ => ¬ ∀ c ∈ r.input, isReadable c = true) ?_ unreadable
    returned
  intro r s unreadable flow s' returned
  have after := round r s unreadable flow s' returned
  cases flow <;> exact after

/-- The loop of a file that can be read is left with the number of its items, for which there was room. -/
theorem readable_few {content : List Char} {s s' : σ} {r : Reader} (readable : ∀ c ∈ content, isReadable c = true)
    (returned : (loop readRound (Reader.init content)).Returns s r s') : items content < lengthLimit := by
  have left : r.Sized ∧ r.idx = items content := by
    refine Returns.loop_induct (Q := fun r _ => r.Sized ∧ r.idx = items content)
      (fun r _ => r.Reading (items content)) ?_ (.init readable) returned
    intro r s reading flow s' returned
    have after := readRound_takes reading flow s' returned
    cases flow with
    | again r' => exact after.1
    | done r' => exact after
  obtain ⟨sized, idx⟩ := left
  have := sized.room
  have := sized.limit
  omega

/-- Reading ends exactly for the files that consist of blanks, digits and signs and have fewer
    items than the largest buffer has cells. -/
theorem reading_ends (s : σ) (content : List Char) :
    ReadingEnds s content ↔ (∀ c ∈ content, isReadable c = true) ∧ items content < lengthLimit := by
  constructor
  · intro ends
    obtain ⟨r, s', returned, -⟩ := ensures_bind.mp ends
    have readable := unreadable_stays returned
    exact ⟨readable, readable_few readable returned⟩
  · rintro ⟨readable, few⟩
    exact readable_ends s readable few

/-- A letter is never consumed. -/
theorem letter_read_forever : ¬ ReadingEnds () ['1', ' ', 'x'] := by
  intro ends
  obtain ⟨r, s', returned, -⟩ := ensures_bind.mp ends
  have readable := unreadable_stays returned 'x' (by decide)
  revert readable
  decide

end SysprogLabs.FileSort
