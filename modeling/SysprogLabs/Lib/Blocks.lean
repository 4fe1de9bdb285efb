import Mathlib.Data.List.TakeDrop
import Mathlib.Algebra.BigOperators.Group.List.Basic

/-! # Byte sequences cut into blocks of a fixed capacity

A block sequence is a `List (List β)` whose blocks hold at most `B` elements.  It
is `Packed` when it consists of full blocks, then at most one partially filled
block, then only empty ones.  On packed sequences a write, a read or a resize
that works block by block is one plain operation on the concatenation.
-/

namespace SysprogLabs

variable {β : Type}

/-- Replaces the elements of `old` from `start` on by `new`, growing it if needed. -/
def overwrite (old : List β) (start : Nat) (new : List β) : List β :=
  old.take start ++ new ++ old.drop (start + new.length)

/-- Full blocks, then at most one partial block, then only empty blocks. -/
def Packed (B : Nat) : List (List β) → Prop
  | [] => True
  | b :: bs => (b.length = B ∧ Packed B bs) ∨ (b.length < B ∧ ∀ c ∈ bs, c = [])

/-- The blocks a sequence fills from scratch. -/
def chunks (B : Nat) (data : List β) : List (List β) :=
  if data = [] ∨ B = 0 then [] else data.take B :: chunks B (data.drop B)
termination_by data.length
decreasing_by
  have := List.length_pos_iff.mpr (by tauto : data ≠ [])
  simp only [List.length_drop]
  omega

/-- Writes `data` at `offset`.  A full block before the offset is skipped; the first
    other block is written from the offset or from its end, whichever comes first,
    and the following ones from their start. -/
def writeBlocks (B : Nat) : List (List β) → Nat → List β → List (List β)
  | [], _, data => chunks B data
  | b :: bs, offset, data =>
    if data = [] then b :: bs
    else if min offset b.length = B then b :: writeBlocks B bs (offset - B) data
    else
      let start := min offset b.length
      overwrite b start (data.take (B - start)) :: writeBlocks B bs 0 (data.drop (B - start))

/-- Reads up to `size` elements at `offset`, giving up at a block that ends before it. -/
def readBlocks (B : Nat) : List (List β) → Nat → Nat → List β
  | [], _, _ => []
  | b :: bs, offset, size =>
    if size = 0 then []
    else if B ≤ offset then readBlocks B bs (offset - B) size
    else if b.length < offset then []
    else
      let part := (b.drop offset).take size
      part ++ readBlocks B bs 0 (size - part.length)

/-- Resizes to `n` elements.  Only a multiple of `B`, or a size that ends inside the
    stored part of a block, can be reached. -/
def resizeBlocks (B : Nat) (bs : List (List β)) (n : Nat) : Option (List (List β)) :=
  if n % B = 0 then some (bs.take (n / B) ++ List.replicate (n / B - bs.length) [])
  else match bs[n / B]? with
    | some b => if n % B < b.length then some (bs.take (n / B) ++ [b.take (n % B)]) else none
    | none => none

/-! ## `overwrite` -/

@[simp] theorem overwrite_nil (old : List β) (start : Nat) : overwrite old start [] = old := by
  simp [overwrite]

@[simp] theorem nil_overwrite (start : Nat) (new : List β) : overwrite [] start new = new := by
  simp [overwrite]

theorem length_overwrite {old new : List β} {start : Nat} (inside : start ≤ old.length) :
    (overwrite old start new).length = max old.length (start + new.length) := by
  simp only [overwrite, List.length_append, List.length_take, List.length_drop]
  omega

theorem append_overwrite (front old new : List β) (start : Nat) :
    front ++ overwrite old start new = overwrite (front ++ old) (front.length + start) new := by
  simp only [overwrite, Nat.add_assoc, List.take_length_add_append, List.drop_length_add_append,
    List.append_assoc]

theorem overwrite_append {old back new : List β} {start : Nat}
    (inside : start + new.length ≤ old.length) :
    overwrite old start new ++ back = overwrite (old ++ back) start new := by
  simp only [overwrite, List.append_assoc]
  rw [List.take_append_of_le_length (by omega), List.drop_append_of_le_length inside]

/-- Overwriting a prefix of a buffer, seen as an operation on the prefix. -/
theorem take_overwrite {buffer new : List β} {start n : Nat} (inside : start ≤ n)
    (fits : start + new.length ≤ buffer.length) :
    (overwrite buffer start new).take (max (start + new.length) n) =
      overwrite (buffer.take n) start new := by
  have front : (buffer.take start ++ new).length = start + new.length := by
    rw [List.length_append, List.length_take]
    omega
  simp only [overwrite]
  rw [List.take_append, front, List.take_of_length_le (by omega), List.take_take,
    Nat.min_eq_left inside, List.drop_take]
  congr 2
  omega

/-! ## Packed sequences -/

namespace Packed

variable {B : Nat} {b : List β} {bs : List (List β)}

theorem head_le (packed : Packed B (b :: bs)) : b.length ≤ B := by
  rcases packed with ⟨full, -⟩ | ⟨partly, -⟩ <;> omega

theorem of_empty (pos : 0 < B) (empty : ∀ c ∈ bs, c = []) : Packed B bs := by
  induction bs with
  | nil => trivial
  | cons b bs ih =>
    refine .inr ⟨?_, fun c mem => empty c (List.mem_cons_of_mem b mem)⟩
    rw [empty b List.mem_cons_self]
    exact pos

theorem tail (pos : 0 < B) (packed : Packed B (b :: bs)) : Packed B bs := by
  rcases packed with ⟨-, rest⟩ | ⟨-, empty⟩
  · exact rest
  · exact of_empty pos empty

theorem le (packed : Packed B bs) (pos : 0 < B) : ∀ c ∈ bs, c.length ≤ B := by
  induction bs with
  | nil => intro c mem; cases mem
  | cons b bs ih =>
    intro c mem
    rcases List.mem_cons.mp mem with rfl | mem
    · exact packed.head_le
    · exact ih (packed.tail pos) c mem

theorem flatten_empty (empty : ∀ c ∈ bs, c = []) : bs.flatten = [] := by
  simpa using empty

/-- A block followed by a nonempty one is full. -/
theorem full_before {c : List β} {front back : List (List β)} (packed : Packed B (front ++ c :: back))
    (nonempty : c ≠ []) : ∀ b ∈ front, b.length = B := by
  induction front with
  | nil => intro b mem; cases mem
  | cons a front ih =>
    rcases packed with ⟨full, rest⟩ | ⟨-, empty⟩
    · intro b mem
      rcases List.mem_cons.mp mem with rfl | mem
      · exact full
      · exact ih rest b mem
    · exact absurd (empty c (by simp)) nonempty

theorem take (packed : Packed B bs) (k : Nat) : Packed B (bs.take k) := by
  induction bs generalizing k with
  | nil => simp [Packed]
  | cons b bs ih =>
    cases k with
    | zero => trivial
    | succ k =>
      rcases packed with ⟨full, rest⟩ | ⟨partly, empty⟩
      · exact .inl ⟨full, ih rest k⟩
      · exact .inr ⟨partly, fun c mem => empty c (List.mem_of_mem_take mem)⟩

theorem append_empty (packed : Packed B bs) (pos : 0 < B) {tail : List (List β)}
    (empty : ∀ c ∈ tail, c = []) : Packed B (bs ++ tail) := by
  induction bs with
  | nil => exact of_empty pos empty
  | cons b bs ih =>
    rcases packed with ⟨full, rest⟩ | ⟨partly, others⟩
    · exact .inl ⟨full, ih rest⟩
    · refine .inr ⟨partly, fun c mem => ?_⟩
      rcases List.mem_append.mp mem with mem | mem
      · exact others c mem
      · exact empty c mem

theorem append_full (full : ∀ c ∈ bs, c.length = B) {tail : List (List β)}
    (packed : Packed B tail) : Packed B (bs ++ tail) := by
  induction bs with
  | nil => exact packed
  | cons b bs ih =>
    exact .inl ⟨full b List.mem_cons_self, ih fun c mem => full c (List.mem_cons_of_mem b mem)⟩

/-- The first `k` blocks hold the first `k * B` elements. -/
theorem flatten_take (packed : Packed B bs) (pos : 0 < B) (k : Nat) :
    (bs.take k).flatten = bs.flatten.take (k * B) := by
  induction bs generalizing k with
  | nil => simp
  | cons b bs ih =>
    cases k with
    | zero => simp
    | succ k =>
      have size : (k + 1) * B = B + k * B := by rw [Nat.succ_mul, Nat.add_comm]
      rw [List.take_succ_cons, List.flatten_cons, List.flatten_cons, ih (packed.tail pos), size]
      rcases packed with ⟨full, -⟩ | ⟨partly, empty⟩
      · rw [← full, List.take_length_add_append]
      · rw [flatten_empty empty, List.take_nil, List.append_nil, List.take_of_length_le (by omega)]

end Packed

/-! ## Writing -/

section Write

variable {B : Nat}

theorem chunks_nil : chunks B ([] : List β) = [] := by
  rw [chunks]
  simp

theorem chunks_cons (pos : 0 < B) {data : List β} (nonempty : data ≠ []) :
    chunks B data = data.take B :: chunks B (data.drop B) := by
  rw [chunks, if_neg (by rintro (h | h); exacts [nonempty h, absurd h (by omega)])]

theorem chunks_flatten (pos : 0 < B) (data : List β) : (chunks B data).flatten = data := by
  induction size : data.length using Nat.strongRecOn generalizing data with
  | ind n ih =>
    by_cases empty : data = []
    · rw [empty, chunks_nil]
      rfl
    · have := List.length_pos_iff.mpr empty
      rw [chunks_cons pos empty, List.flatten_cons,
        ih _ (by rw [List.length_drop]; omega) _ rfl, List.take_append_drop]

theorem chunks_packed (pos : 0 < B) (data : List β) : Packed B (chunks B data) := by
  induction size : data.length using Nat.strongRecOn generalizing data with
  | ind n ih =>
    by_cases empty : data = []
    · rw [empty, chunks_nil]
      trivial
    · have := List.length_pos_iff.mpr empty
      rw [chunks_cons pos empty]
      by_cases enough : B ≤ data.length
      · refine .inl ⟨by simp [enough], ih _ (by rw [List.length_drop]; omega) _ rfl⟩
      · rw [List.drop_eq_nil_of_le (by omega), chunks_nil]
        exact .inr ⟨by simp; omega, by simp⟩

theorem writeBlocks_end (offset : Nat) (data : List β) : writeBlocks B [] offset data = chunks B data := rfl

theorem writeBlocks_cons (b : List β) (bs : List (List β)) (offset : Nat) (data : List β) :
    writeBlocks B (b :: bs) offset data =
      if data = [] then b :: bs
      else if min offset b.length = B then b :: writeBlocks B bs (offset - B) data
      else
        overwrite b (min offset b.length) (data.take (B - min offset b.length)) ::
          writeBlocks B bs 0 (data.drop (B - min offset b.length)) := rfl

theorem writeBlocks_nil (bs : List (List β)) (offset : Nat) : writeBlocks B bs offset [] = bs := by
  cases bs with
  | nil => rw [writeBlocks_end, chunks_nil]
  | cons b bs => rw [writeBlocks_cons, if_pos rfl]

/-- Writing past the last block fills a new empty one first. -/
theorem writeBlocks_fresh (pos : 0 < B) {offset : Nat} {data : List β} (nonempty : data ≠ []) :
    writeBlocks B [] offset data = writeBlocks B [[]] 0 data := by
  have here : min 0 ([] : List β).length ≠ B := by simp; omega
  rw [writeBlocks_end, writeBlocks_cons, if_neg nonempty, if_neg here, writeBlocks_end, chunks_cons pos nonempty]
  simp

theorem writeBlocks_skip {b : List β} {bs : List (List β)} {offset : Nat} {data : List β}
    (nonempty : data ≠ []) (skip : min offset b.length = B) :
    writeBlocks B (b :: bs) offset data = b :: writeBlocks B bs (offset - B) data := by
  rw [writeBlocks_cons, if_neg nonempty, if_pos skip]

theorem writeBlocks_here {b : List β} {bs : List (List β)} {offset : Nat} {data : List β}
    (nonempty : data ≠ []) (here : min offset b.length ≠ B) :
    writeBlocks B (b :: bs) offset data =
      overwrite b (min offset b.length) (data.take (B - min offset b.length)) ::
        writeBlocks B bs 0 (data.drop (B - min offset b.length)) := by
  rw [writeBlocks_cons, if_neg nonempty, if_neg here]

/-- Writing block by block overwrites the concatenation, from the offset or from the
    end if the offset lies beyond it. -/
theorem writeBlocks_flatten (pos : 0 < B) {bs : List (List β)} (packed : Packed B bs)
    (offset : Nat) (data : List β) :
    (writeBlocks B bs offset data).flatten =
      overwrite bs.flatten (min offset bs.flatten.length) data := by
  induction bs generalizing offset data with
  | nil => simp [writeBlocks_end, chunks_flatten pos]
  | cons b bs ih =>
    by_cases empty : data = []
    · rw [empty, writeBlocks_nil, overwrite_nil]
    have head_le := packed.head_le
    have tail := packed.tail pos
    by_cases skip : min offset b.length = B
    · have full : b.length = B := by omega
      rw [writeBlocks_skip empty skip, List.flatten_cons, ih tail, append_overwrite,
        List.flatten_cons, List.length_append, full]
      congr 1
      omega
    · rw [writeBlocks_here empty skip, List.flatten_cons, ih tail, List.flatten_cons,
        List.length_append, Nat.zero_min]
      have start_eq : min offset (b.length + bs.flatten.length) = min offset b.length := by
        rcases packed with ⟨full, -⟩ | ⟨-, others⟩
        · omega
        · rw [Packed.flatten_empty others, List.length_nil, Nat.add_zero]
      rw [start_eq]
      generalize start_def : min offset b.length = start at *
      by_cases fits : data.length ≤ B - start
      · rw [List.take_of_length_le fits, List.drop_eq_nil_of_le fits, overwrite_nil]
        rcases packed with ⟨full, -⟩ | ⟨-, others⟩
        · exact overwrite_append (by omega)
        · rw [Packed.flatten_empty others, List.append_nil, List.append_nil]
      · have taken : (data.take (B - start)).length = B - start := by
          rw [List.length_take]
          omega
        simp only [overwrite, taken, List.length_drop, Nat.zero_add, List.take_zero, List.nil_append,
          List.append_assoc]
        have past : b.drop (start + (B - start)) = [] := List.drop_eq_nil_of_le (by omega)
        have past' : b.drop (start + data.length) = [] := List.drop_eq_nil_of_le (by omega)
        rw [List.take_append_of_le_length (by omega), past, List.nil_append,
          ← List.append_assoc (data.take _), List.take_append_drop, List.drop_append, past',
          List.nil_append]
        rcases packed with ⟨full, -⟩ | ⟨-, others⟩
        · congr 3
          omega
        · rw [Packed.flatten_empty others, List.drop_nil, List.drop_nil]

/-- Every offset behind the end stands for the end. -/
theorem writeBlocks_behind {bs : List (List β)} (packed : Packed B bs) {offset : Nat}
    (behind : bs.flatten.length ≤ offset) (data : List β) :
    writeBlocks B bs offset data = writeBlocks B bs bs.flatten.length data := by
  induction bs generalizing offset with
  | nil => rw [writeBlocks_end, writeBlocks_end]
  | cons b bs ih =>
    by_cases empty : data = []
    · rw [empty, writeBlocks_nil, writeBlocks_nil]
    rw [List.flatten_cons, List.length_append] at behind ⊢
    have clipped : min offset b.length = b.length := by omega
    have clipped' : min (b.length + bs.flatten.length) b.length = b.length := by omega
    obtain ⟨full, rest⟩ | ⟨part, -⟩ := packed
    · rw [writeBlocks_skip empty (by omega), writeBlocks_skip empty (by omega),
        ih rest (show bs.flatten.length ≤ offset - B by omega),
        show b.length + bs.flatten.length - B = bs.flatten.length by omega]
    · rw [writeBlocks_here empty (by omega), writeBlocks_here empty (by omega), clipped, clipped']

theorem writeBlocks_packed (pos : 0 < B) {bs : List (List β)} (packed : Packed B bs)
    (offset : Nat) (data : List β) : Packed B (writeBlocks B bs offset data) := by
  induction bs generalizing offset data with
  | nil => exact chunks_packed pos data
  | cons b bs ih =>
    by_cases empty : data = []
    · rw [empty, writeBlocks_nil]
      exact packed
    have head_le := packed.head_le
    have tail := packed.tail pos
    by_cases skip : min offset b.length = B
    · rw [writeBlocks_skip empty skip]
      exact .inl ⟨by omega, ih tail _ _⟩
    · rw [writeBlocks_here empty skip]
      have len : (overwrite b (min offset b.length) (data.take (B - min offset b.length))).length = _ :=
        length_overwrite (Nat.min_le_right offset b.length)
      rw [List.length_take] at len
      by_cases fits : data.length ≤ B - min offset b.length
      · rw [List.drop_eq_nil_of_le fits, writeBlocks_nil]
        rcases packed with ⟨full, -⟩ | ⟨-, others⟩
        · exact .inl ⟨by omega, tail⟩
        · by_cases filled : (overwrite b (min offset b.length)
              (data.take (B - min offset b.length))).length = B
          · exact .inl ⟨filled, tail⟩
          · exact .inr ⟨by omega, others⟩
      · exact .inl ⟨by omega, ih tail _ _⟩

end Write

/-! ## Reading -/

theorem readBlocks_zero {B : Nat} (bs : List (List β)) (offset : Nat) : readBlocks B bs offset 0 = [] := by
  cases bs <;> simp [readBlocks]

theorem readBlocks_eq {B : Nat} (pos : 0 < B) {bs : List (List β)} (packed : Packed B bs)
    (offset size : Nat) : readBlocks B bs offset size = (bs.flatten.drop offset).take size := by
  induction bs generalizing offset size with
  | nil => simp [readBlocks]
  | cons b bs ih =>
    have head_le := packed.head_le
    have tail := packed.tail pos
    rw [readBlocks, List.flatten_cons]
    by_cases nothing : size = 0
    · simp [nothing]
    rw [if_neg nothing]
    by_cases before : B ≤ offset
    · have past : b.drop offset = [] := List.drop_eq_nil_of_le (by omega)
      rw [if_pos before, ih tail, List.drop_append, past, List.nil_append]
      rcases packed with ⟨full, -⟩ | ⟨-, others⟩
      · rw [full]
      · rw [Packed.flatten_empty others, List.drop_nil, List.drop_nil]
    rw [if_neg before]
    by_cases beyond : b.length < offset
    · rcases packed with ⟨full, -⟩ | ⟨-, others⟩
      · omega
      · rw [if_pos beyond, Packed.flatten_empty others, List.append_nil,
          List.drop_eq_nil_of_le (by omega), List.take_nil]
    · rw [if_neg beyond, List.drop_append_of_le_length (by omega), List.take_append]
      simp only [ih tail, List.drop_zero, List.length_take, List.length_drop]
      congr 2
      omega

/-! ## Resizing -/

section Resize

variable {B n : Nat} {bs bs' : List (List β)}

theorem resizeBlocks_zero : resizeBlocks B bs 0 = some [] := by
  simp [resizeBlocks]

/-- A whole block is consumed; a missing one is created empty. -/
theorem resizeBlocks_whole (pos : 0 < B) (whole : B ≤ n) :
    resizeBlocks B bs n = (resizeBlocks B bs.tail (n - B)).map (bs.headD [] :: ·) := by
  have quotient : n / B = (n - B) / B + 1 := by
    rw [← Nat.add_div_right _ pos, Nat.sub_add_cancel whole]
  have rest : n % B = (n - B) % B := Nat.mod_eq_sub_mod whole
  simp only [resizeBlocks, quotient, rest]
  cases bs with
  | nil => split <;> simp [List.replicate_succ]
  | cons b bs =>
    simp only [List.getElem?_cons_succ, List.take_succ_cons, List.length_cons, List.tail_cons,
      List.headD_cons, Nat.add_sub_add_right]
    split
    · simp
    · cases bs[(n - B) / B]? with
      | none => rfl
      | some c => simp only; split <;> simp

/-- Less than a block is left. -/
theorem resizeBlocks_rest (some_left : 0 < n) (less : n < B) :
    resizeBlocks B bs n = match bs with
      | b :: _ => if n < b.length then some [b.take n] else none
      | [] => none := by
  have quotient : n / B = 0 := Nat.div_eq_of_lt less
  have rest : n % B = n := Nat.mod_eq_of_lt less
  simp only [resizeBlocks, quotient, rest]
  rw [if_neg (by omega)]
  cases bs <;> simp

theorem resizeBlocks_nil_none : resizeBlocks B ([] : List (List β)) n = none ↔ n % B ≠ 0 := by
  simp [resizeBlocks]

theorem resizeBlocks_ne_nil (pos : 0 < B) (some_left : 0 < n)
    (resized : resizeBlocks B bs n = some bs') : bs' ≠ [] := by
  by_cases whole : B ≤ n
  · rw [resizeBlocks_whole pos whole] at resized
    obtain ⟨rest, -, rfl⟩ := Option.map_eq_some_iff.mp resized
    simp
  · rw [resizeBlocks_rest some_left (by omega)] at resized
    cases bs with
    | nil => cases resized
    | cons b bs =>
      simp only at resized
      split at resized
      · cases resized
        simp
      · cases resized

theorem resizeBlocks_cases (resized : resizeBlocks B bs n = some bs') :
    (n % B = 0 ∧ bs' = bs.take (n / B) ++ List.replicate (n / B - bs.length) []) ∨
    (n % B ≠ 0 ∧ ∃ front b back, bs = front ++ b :: back ∧ front.length = n / B ∧
      n % B < b.length ∧ bs' = front ++ [b.take (n % B)]) := by
  simp only [resizeBlocks] at resized
  split at resized
  · next whole => cases resized; exact .inl ⟨whole, rfl⟩
  · next inside =>
    split at resized
    · next b at_b =>
      split at resized
      · next stored =>
        cases resized
        obtain ⟨lt, at_b⟩ := List.getElem?_eq_some_iff.mp at_b
        refine .inr ⟨inside, bs.take (n / B), b, bs.drop (n / B + 1), ?_, ?_, stored, rfl⟩
        · rw [← at_b, ← List.drop_eq_getElem_cons lt, List.take_append_drop]
        · rw [List.length_take, Nat.min_eq_left (Nat.le_of_lt lt)]
      · cases resized
    · cases resized

theorem resizeBlocks_packed (pos : 0 < B) (packed : Packed B bs)
    (resized : resizeBlocks B bs n = some bs') : Packed B bs' := by
  rcases resizeBlocks_cases resized with ⟨-, rfl⟩ | ⟨-, front, b, back, rfl, -, stored, rfl⟩
  · refine (packed.take _).append_empty pos fun c mem => ?_
    exact (List.mem_replicate.mp mem).2
  · have nonempty : b ≠ [] := by rintro rfl; simp at stored
    refine Packed.append_full (packed.full_before nonempty) (.inr ⟨?_, by simp⟩)
    have := Nat.mod_lt n pos
    rw [List.length_take]
    omega

/-- What a resize keeps is a prefix of the old contents. -/
theorem resizeBlocks_flatten (pos : 0 < B) (packed : Packed B bs)
    (resized : resizeBlocks B bs n = some bs') : bs'.flatten = bs.flatten.take n := by
  have size := Nat.div_add_mod n B
  rcases resizeBlocks_cases resized with ⟨whole, rfl⟩ | ⟨-, front, b, back, rfl, len, stored, rfl⟩
  · rw [List.flatten_append, packed.flatten_take pos, List.flatten_replicate_nil, List.append_nil]
    congr 1
    rw [Nat.mul_comm]
    omega
  · have nonempty : b ≠ [] := by rintro rfl; simp at stored
    have front_len : front.flatten.length = B * (n / B) := by
      rw [List.length_flatten, List.map_congr_left (packed.full_before nonempty), List.map_const',
        List.sum_replicate_nat, len, Nat.mul_comm]
    generalize n % B = rest at size stored ⊢
    generalize B * (n / B) = whole at size front_len
    have kept : front.flatten.take n = front.flatten := List.take_of_length_le (by omega)
    rw [List.flatten_append, List.flatten_append, List.take_append, front_len, kept, List.flatten_cons,
      List.flatten_cons, List.flatten_nil,
      List.append_nil, List.take_append_of_le_length (by omega)]
    congr 2
    omega

/-- A size cannot be reached when it ends in the middle of a block behind the stored elements. -/
theorem resizeBlocks_none_iff (pos : 0 < B) (packed : Packed B bs) :
    resizeBlocks B bs n = none ↔ n % B ≠ 0 ∧ bs.flatten.length ≤ n := by
  induction n using Nat.strongRecOn generalizing bs with
  | ind n ih =>
  by_cases nothing : n = 0
  · simp [nothing, resizeBlocks_zero]
  have some_left : 0 < n := Nat.pos_of_ne_zero nothing
  by_cases whole : B ≤ n
  · have rest : n % B = (n - B) % B := Nat.mod_eq_sub_mod whole
    cases bs with
    | nil =>
      have shorter := ih (n - B) (by omega) packed
      rw [resizeBlocks_whole pos whole, Option.map_eq_none_iff, List.tail_nil, shorter, rest]
      simp
    | cons b bs =>
      rw [resizeBlocks_whole pos whole, Option.map_eq_none_iff, List.tail_cons,
        ih (n - B) (by omega) (packed.tail pos), rest, List.flatten_cons, List.length_append]
      obtain ⟨full, -⟩ | ⟨partly, empty⟩ := packed
      · rw [full]
        omega
      · rw [Packed.flatten_empty empty, List.length_nil]
        omega
  · have less : n < B := Nat.lt_of_not_le whole
    rw [resizeBlocks_rest some_left less, Nat.mod_eq_of_lt less]
    cases bs with
    | nil => simp [nothing]
    | cons b bs =>
      rw [List.flatten_cons, List.length_append]
      obtain ⟨full, -⟩ | ⟨partly, empty⟩ := packed
      · have inside : n < b.length := by omega
        simp only [inside, if_true, reduceCtorEq, false_iff]
        omega
      · rw [Packed.flatten_empty empty, List.length_nil]
        simp only [ite_eq_right_iff, reduceCtorEq, imp_false]
        omega

/-- The new contents take as many blocks as it needs to hold `n` elements. -/
theorem resizeBlocks_length (pos : 0 < B) (resized : resizeBlocks B bs n = some bs') :
    bs'.length = (n + B - 1) / B := by
  have size := Nat.div_add_mod n B
  have less := Nat.mod_lt n pos
  have quotient : (n + B - 1) / B = n / B + (n % B + (B - 1)) / B := by
    rw [← Nat.mul_add_div pos, ← Nat.add_assoc, size, Nat.add_sub_assoc pos]
  rw [quotient]
  obtain ⟨whole, rfl⟩ | ⟨inside, front, b, back, rfl, len, -, rfl⟩ := resizeBlocks_cases resized
  · have nothing : (B - 1) / B = 0 := Nat.div_eq_of_lt (Nat.sub_lt pos Nat.one_pos)
    rw [whole, Nat.zero_add, nothing, List.length_append, List.length_take, List.length_replicate]
    omega
  · have one : (n % B + (B - 1)) / B = 1 := by
      rw [Nat.div_eq_iff pos]
      omega
    rw [one, List.length_append, len]
    rfl

end Resize

end SysprogLabs
