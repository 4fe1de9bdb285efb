import Mathlib.Data.List.Basic
import Mathlib.Algebra.Ring.Nat

/-! # Tables of slots

A table is a list of slots, each free or occupied.  `slotAt` reads a slot, and one
behind the end as a free one, so that two tables which only differ in the free
slots at their ends have the same contents and the same first free number.
-/

namespace SysprogLabs

variable {α β : Type} {slots : List (Option α)} {i j : Nat} {a b : α}

def slotAt (slots : List (Option α)) (i : Nat) : Option α := slots[i]?.join

/-- The first free number. -/
def lowestFree (slots : List (Option α)) : Nat := (slots.findIdx? Option.isNone).getD slots.length

/-- Occupies the slot `i`, which is one of the table or the next one behind its end. -/
def place (slots : List (Option α)) (i : Nat) (a : α) : List (Option α) :=
  if i < slots.length then slots.set i (some a) else slots ++ [some a]

theorem slotAt_eq_some : slotAt slots i = some a ↔ slots[i]? = some (some a) := by
  rw [slotAt, Option.join_eq_some_iff]

theorem slotAt_beyond (beyond : slots.length ≤ i) : slotAt slots i = none := by
  rw [slotAt, List.getElem?_eq_none beyond]
  rfl

theorem slotAt_set (inside : i < slots.length) (new : Option α) :
    slotAt (slots.set i new) j = if j = i then new else slotAt slots j := by
  rw [slotAt, List.getElem?_set]
  by_cases here : i = j
  · rw [if_pos here, if_pos here.symm, if_pos inside]
    rfl
  · rw [if_neg here, if_neg (Ne.symm here)]
    rfl

theorem slotAt_append_free (k : Nat) : slotAt (slots ++ List.replicate k none) j = slotAt slots j := by
  rw [slotAt, slotAt, List.getElem?_append]
  split
  · rfl
  · next beyond =>
    rw [List.getElem?_eq_none (Nat.le_of_not_lt beyond), List.getElem?_replicate]
    split <;> rfl

theorem slotAt_place (inside : i ≤ slots.length) :
    slotAt (place slots i a) j = if j = i then some a else slotAt slots j := by
  unfold place
  split
  · next before => exact slotAt_set before (some a)
  · next behind =>
    obtain rfl : i = slots.length := Nat.le_antisymm inside (Nat.le_of_not_lt behind)
    rw [slotAt, slotAt, List.getElem?_append]
    split
    · next before => rw [if_neg (Nat.ne_of_lt before)]
    · next beyond =>
      by_cases here : j = slots.length
      · simp [here]
      · rw [if_neg here, List.getElem?_eq_none (by simp; omega), List.getElem?_eq_none (by omega)]

theorem lowestFree_le : lowestFree slots ≤ slots.length := by
  rw [lowestFree]
  cases found : slots.findIdx? Option.isNone with
  | none => exact Nat.le_refl _
  | some i =>
    obtain ⟨before, -⟩ := List.findIdx?_eq_some_iff_getElem.mp found
    exact Nat.le_of_lt before

/-- The first free number is free, and no smaller one is. -/
theorem lowestFree_spec :
    slotAt slots (lowestFree slots) = none ∧ ∀ i < lowestFree slots, slotAt slots i ≠ none := by
  rw [lowestFree]
  cases found : slots.findIdx? Option.isNone with
  | none =>
    refine ⟨slotAt_beyond (Nat.le_refl _), fun i before free => ?_⟩
    have before : i < slots.length := before
    have occupied := List.findIdx?_eq_none_iff.mp found _ (List.getElem_mem before)
    rw [slotAt, List.getElem?_eq_getElem before, Option.join_some] at free
    rw [free] at occupied
    cases occupied
  | some k =>
    obtain ⟨inside, free, first⟩ := List.findIdx?_eq_some_iff_getElem.mp found
    rw [Option.getD_some]
    refine ⟨?_, fun i before free' => ?_⟩
    · rw [slotAt, List.getElem?_eq_getElem inside, Option.join_some]
      simpa using free
    · have occupied := first i before
      rw [slotAt, List.getElem?_eq_getElem (Nat.lt_trans before inside), Option.join_some] at free'
      rw [free'] at occupied
      exact occupied rfl

/-- The first free number depends on the contents alone. -/
theorem lowestFree_congr {slots' : List (Option β)}
    (same : ∀ i, slotAt slots i = none ↔ slotAt slots' i = none) :
    lowestFree slots = lowestFree slots' := by
  obtain ⟨free, first⟩ := @lowestFree_spec α slots
  obtain ⟨free', first'⟩ := @lowestFree_spec β slots'
  apply Nat.le_antisymm
  · by_contra later
    exact first _ (Nat.lt_of_not_le later) ((same _).mpr free')
  · by_contra later
    exact first' _ (Nat.lt_of_not_le later) ((same _).mp free)

/-- In a table with free slots added, the first free one is a slot. -/
theorem lowestFree_get {k : Nat} (inside : lowestFree slots < slots.length + k) :
    (slots ++ List.replicate k none)[lowestFree slots]? = some none := by
  have free := (@lowestFree_spec α slots).1
  rw [← slotAt_append_free k, slotAt, List.getElem?_eq_getElem (by simpa using inside), Option.join_some] at free
  rw [List.getElem?_eq_getElem (by simpa using inside), free]

/-- Replacing one element of a list changes a count by what the two elements count for. -/
theorem countP_set_add {l : List α} (at_i : l[i]? = some b) (q : α → Bool) :
    (l.set i a).countP q + (if q b then 1 else 0) = l.countP q + if q a then 1 else 0 := by
  induction l generalizing i with
  | nil => simp at at_i
  | cons c l ih =>
    cases i with
    | zero =>
      have same : c = b := by simpa using at_i
      subst same
      rw [List.set_cons_zero, List.countP_cons, List.countP_cons]
      omega
    | succ i =>
      have later := ih (by simpa using at_i)
      rw [List.set_cons_succ, List.countP_cons, List.countP_cons]
      omega

/-- Where at most one element counts, two that do are the same one. -/
theorem eq_of_countP_le_one {l : List α} {q : α → Bool} (one : l.countP q ≤ 1) (at_i : l[i]? = some a)
    (at_j : l[j]? = some b) (counts : q a = true) (counts' : q b = true) : i = j := by
  induction l generalizing i j with
  | nil => simp at at_i
  | cons c l ih =>
    rw [List.countP_cons] at one
    -- Behind an element that counts nobody else does.
    have rest : ∀ {k : Nat} {x : α}, l[k]? = some x → q x = true → q c = false ∧ l.countP q ≤ 1 := by
      intro k x at_k counts
      have some_counts := List.countP_pos_iff.mpr ⟨x, List.mem_of_getElem? at_k, counts⟩
      cases head : q c with
      | false => exact ⟨rfl, by omega⟩
      | true =>
        rw [head, if_pos rfl] at one
        omega
    cases i with
    | zero =>
      cases j with
      | zero => rfl
      | succ j =>
        have none := (rest (by simpa using at_j) counts').1
        obtain rfl : c = a := by simpa using at_i
        rw [counts] at none
        cases none
    | succ i =>
      have later := rest (by simpa using at_i) counts
      cases j with
      | zero =>
        obtain rfl : c = b := by simpa using at_j
        rw [counts'] at later
        cases later.1
      | succ j => exact congrArg _ (ih later.2 (by simpa using at_i) (by simpa using at_j))

/-- Some distinct elements are removed from a list that has them. -/
theorem length_filter_add {α : Type} [DecidableEq α] {l list : List α} (nodup : l.Nodup) (distinct : list.Nodup)
    (inside : ∀ a ∈ list, a ∈ l) : l.length = (l.filter fun a => a ∉ list).length + list.length := by
  have parts : (l.filter fun a => a ∈ list).Perm list := by
    refine (List.perm_ext_iff_of_nodup (nodup.filter _) distinct).mpr fun a => ?_
    simpa using inside a
  rw [List.length_eq_length_filter_add (fun a => decide (a ∈ list)), parts.length_eq, Nat.add_comm]
  simp

/-- Replacing one element of a list changes a sum by what the two elements add to it. -/
theorem sum_set_add {l : List α} (at_i : l[i]? = some b) (f : α → Nat) :
    ((l.set i a).map f).sum + f b = (l.map f).sum + f a := by
  induction l generalizing i with
  | nil => simp at at_i
  | cons c l ih =>
    cases i with
    | zero =>
      obtain rfl : c = b := by simpa using at_i
      simp only [List.set_cons_zero, List.map_cons, List.sum_cons]
      omega
    | succ i =>
      have later := ih (by simpa using at_i)
      simp only [List.set_cons_succ, List.map_cons, List.sum_cons]
      omega

end SysprogLabs
