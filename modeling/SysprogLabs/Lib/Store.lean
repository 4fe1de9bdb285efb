import SysprogLabs.Lib.Prog
import Mathlib.Data.List.Nodup
import Mathlib.Logic.Function.Basic
import Mathlib.Logic.Unique

/-! # A typed heap of explicitly released cells

A `Store α` holds the objects of one type that `malloc` has returned.  Addresses
are never reused, `freed` logs every release, and the structure carries the
ledger: an address is in the log exactly when it was allocated and is no longer
live, and no address is in it twice.  Loading, storing or releasing a dead
address is undefined behaviour.

`Owns` relates two stores whose objects come in pairs: each live owner points,
through one of its fields, to an owned object of its own, and no owned object is
without an owner.
-/

namespace SysprogLabs

/-- A pointer: `NULL` or an address. -/
abbrev Ptr := Option Nat

structure Store (α : Type) where
  cell : Nat → Option α
  next : Nat
  freed : List Nat
  bounded : ∀ p, next ≤ p → cell p = none
  released : ∀ p, p ∈ freed ↔ p < next ∧ cell p = none
  once : freed.Nodup

namespace Store

variable {α β : Type}

def empty : Store α where
  cell _ := none
  next := 0
  freed := []
  bounded _ _ := rfl
  released p := by simp
  once := .nil

def alloc (st : Store α) (v : α) : Store α where
  cell p := if p = st.next then some v else st.cell p
  next := st.next + 1
  freed := st.freed
  bounded p le := by rw [if_neg (by omega)]; exact st.bounded p (by omega)
  released p := by
    rw [st.released p]
    by_cases fresh : p = st.next
    · simp [fresh]
    · rw [if_neg fresh]
      exact and_congr_left fun _ => by omega
  once := st.once

/-- Overwrites a live cell; a dead one stays dead. -/
def put (st : Store α) (p : Nat) (v : α) : Store α where
  cell q := if q = p then (st.cell q).map fun _ => v else st.cell q
  next := st.next
  freed := st.freed
  bounded q le := by rw [st.bounded q le]; split <;> rfl
  released q := by
    rw [st.released q]
    split <;> simp
  once := st.once

def free (st : Store α) (p : Nat) : Store α where
  cell q := if q = p then none else st.cell q
  next := st.next
  freed := if (st.cell p).isSome then p :: st.freed else st.freed
  bounded q le := by rw [st.bounded q le]; split <;> rfl
  released q := by
    cases live : st.cell p with
    | none =>
      rw [Option.isSome_none, if_neg Bool.false_ne_true, st.released q]
      by_cases same : q = p
      · simp [same, live]
      · rw [if_neg same]
    | some v =>
      rw [Option.isSome_some, if_pos rfl, List.mem_cons, st.released q]
      by_cases same : q = p
      · subst same
        have allocated : q < st.next := by
          by_contra beyond
          rw [st.bounded q (by omega)] at live
          cases live
        simp [allocated]
      · simp [same]
  once := by
    split
    · next live =>
      refine List.nodup_cons.mpr ⟨fun logged => ?_, st.once⟩
      rw [((st.released p).mp logged).2] at live
      cases live
    · exact st.once

@[simp] theorem empty_cell (p : Nat) : (empty : Store α).cell p = none := rfl
@[simp] theorem empty_next : (empty : Store α).next = 0 := rfl

@[simp] theorem alloc_cell (st : Store α) (v : α) (p : Nat) :
    (st.alloc v).cell p = if p = st.next then some v else st.cell p := rfl
@[simp] theorem alloc_next (st : Store α) (v : α) : (st.alloc v).next = st.next + 1 := rfl

@[simp] theorem put_cell (st : Store α) (p q : Nat) (v : α) :
    (st.put p v).cell q = if q = p then (st.cell q).map fun _ => v else st.cell q := rfl
@[simp] theorem put_freed (st : Store α) (p : Nat) (v : α) : (st.put p v).freed = st.freed := rfl
@[simp] theorem put_next (st : Store α) (p : Nat) (v : α) : (st.put p v).next = st.next := rfl

@[simp] theorem free_cell (st : Store α) (p q : Nat) :
    (st.free p).cell q = if q = p then none else st.cell q := rfl
@[simp] theorem free_next (st : Store α) (p : Nat) : (st.free p).next = st.next := rfl

@[simp] theorem put_put (st : Store α) (p : Nat) (v w : α) : (st.put p v).put p w = st.put p w := by
  simp only [put, mk.injEq, and_true]
  funext q
  split
  · cases st.cell q <;> rfl
  · rfl

@[simp] theorem alloc_put (st : Store α) (v w : α) : (st.alloc v).put st.next w = st.alloc w := by
  simp only [put, alloc, mk.injEq, and_true]
  funext q
  split
  · rw [Option.map_some]
  · rfl

theorem put_self {st : Store α} {p : Nat} {v : α} (live : st.cell p = some v) : st.put p v = st := by
  have cells : (st.put p v).cell = st.cell := by
    funext q
    rw [put_cell]
    split
    · next at_p => rw [at_p, live]; rfl
    · rfl
  cases st
  simp only [put, mk.injEq, and_true] at cells ⊢
  exact cells

theorem put_comm {p q : Nat} (other : p ≠ q) (st : Store α) (v w : α) :
    (st.put q w).put p v = (st.put p v).put q w := by
  simp only [put, mk.injEq, and_true]
  funext a
  by_cases at_p : a = p
  · subst at_p
    simp [other]
  · simp [at_p]

theorem put_live {st : Store α} {p q : Nat} {v w : α} (live : st.cell q = some v) :
    ∃ v', (st.put p w).cell q = some v' := by
  rw [put_cell, live]
  split
  · exact ⟨w, rfl⟩
  · exact ⟨v, rfl⟩

theorem put_free (st : Store α) (p : Nat) (v : α) : (st.put p v).free p = st.free p := by
  simp only [free, if_true, Option.isSome_map, mk.injEq, true_and, put]
  refine ⟨?_, trivial⟩
  funext q
  split <;> rfl

theorem free_freed {st : Store α} {p : Nat} {v : α} (live : st.cell p = some v) :
    (st.free p).freed = p :: st.freed := by
  simp [free, live]

theorem lt_next {st : Store α} {p : Nat} {v : α} (live : st.cell p = some v) : p < st.next := by
  by_contra beyond
  rw [st.bounded p (by omega)] at live
  cases live

theorem next_dead (st : Store α) : st.cell st.next = none := st.bounded _ (Nat.le_refl _)

/-- An address is released once if it was allocated and is dead, and never otherwise. -/
theorem count_freed (st : Store α) (p : Nat) :
    st.freed.count p = if p < st.next ∧ st.cell p = none then 1 else 0 := by
  split
  · next dead => exact List.count_eq_one_of_mem st.once ((st.released p).mpr dead)
  · next live => exact List.count_eq_zero_of_not_mem fun logged => live ((st.released p).mp logged)

/-! ### One field of all objects -/

theorem put_bind {st : Store α} {p : Nat} {old : α} (live : st.cell p = some old) (v : α) (f : α → Option β) :
    (fun q => ((st.put p v).cell q).bind f) = Function.update (fun q => (st.cell q).bind f) p (f v) := by
  funext q
  rw [put_cell, Function.update_apply]
  by_cases here : q = p
  · rw [if_pos here, if_pos here, here, live]
    rfl
  · rw [if_neg here, if_neg here]

theorem free_bind (st : Store α) (p : Nat) (f : α → Option β) :
    (fun q => ((st.free p).cell q).bind f) = Function.update (fun q => (st.cell q).bind f) p none := by
  funext q
  rw [free_cell, Function.update_apply]
  by_cases here : q = p
  · rw [if_pos here, if_pos here]
    rfl
  · rw [if_neg here, if_neg here]

/-- A new object whose field is empty cannot be told from one that does not exist. -/
theorem alloc_bind (st : Store α) {v : α} {f : α → Option β} (empty : f v = none) :
    (fun q => ((st.alloc v).cell q).bind f) = fun q => (st.cell q).bind f := by
  funext q
  rw [alloc_cell]
  by_cases here : q = st.next
  · rw [if_pos here, here, st.next_dead, Option.bind_some, empty]
    rfl
  · rw [if_neg here]

end Store

/-! ## Heap operations of a program -/

namespace Lens

variable {σ α : Type} (region : Lens σ (Store α))

/-- `malloc`: the contents of the new object are whatever `fresh` says. -/
def malloc (fresh : Nat → α) : Prog σ Nat :=
  .zoom region (.step fun st => some (st.next, st.alloc (fresh st.next)))

def load (p : Ptr) : Prog σ α :=
  .zoom region (.step fun st => (p.bind st.cell).map (·, st))

/-- Overwrites the object behind `p` by a function of it. -/
def modify (p : Ptr) (f : α → α) : Prog σ Unit :=
  .zoom region (.step fun st => p.bind fun q => (st.cell q).map fun v => ((), st.put q (f v)))

/-- `free`: `NULL` is ignored. -/
def free (p : Ptr) : Prog σ Unit :=
  .zoom region (.step fun st => match p with
    | none => some ((), st)
    | some q => (st.cell q).map fun _ => ((), st.free q))

variable {region}

@[simp] theorem ensures_malloc {fresh : Nat → α} {s : σ} {Q : Nat → σ → Prop} :
    (region.malloc fresh).Ensures s Q ↔
      Q (region.get s).next (region.set ((region.get s).alloc (fresh (region.get s).next)) s) := by
  simp [malloc, and_assoc]

@[simp] theorem ensures_load {p : Ptr} {s : σ} {Q : α → σ → Prop} :
    (region.load p).Ensures s Q ↔
      ∃ q, p = some q ∧ ∃ v, (region.get s).cell q = some v ∧ Q v s := by
  cases p with
  | none => simp [load]
  | some q => cases live : (region.get s).cell q <;> simp [load, live, and_assoc, region.set_get]

@[simp] theorem ensures_modify {p : Ptr} {f : α → α} {s : σ} {Q : Unit → σ → Prop} :
    (region.modify p f).Ensures s Q ↔
      ∃ q, p = some q ∧ ∃ v, (region.get s).cell q = some v ∧
        Q () (region.set ((region.get s).put q (f v)) s) := by
  cases p with
  | none => simp [modify]
  | some q => cases live : (region.get s).cell q <;> simp [modify, live, Unique.exists_iff]

@[simp] theorem ensures_free_some {q : Nat} {s : σ} {Q : Unit → σ → Prop} :
    (region.free (some q)).Ensures s Q ↔
      ∃ v, (region.get s).cell q = some v ∧ Q () (region.set ((region.get s).free q) s) := by
  cases live : (region.get s).cell q <;> simp [free, live, Unique.exists_iff]

@[simp] theorem ensures_free_none {s : σ} {Q : Unit → σ → Prop} :
    (region.free none).Ensures s Q ↔ Q () s := by
  simp [free, Unique.exists_iff, region.set_get]

@[simp] theorem yields_malloc {fresh : Nat → α} {s : σ} {Q : Nat → σ → Prop} :
    (region.malloc fresh).Yields s Q ↔
      Q (region.get s).next (region.set ((region.get s).alloc (fresh (region.get s).next)) s) := by
  simp [malloc]

@[simp] theorem yields_load {p : Ptr} {s : σ} {Q : α → σ → Prop} :
    (region.load p).Yields s Q ↔ ∀ q, p = some q → ∀ v, (region.get s).cell q = some v → Q v s := by
  cases p with
  | none => simp [load]
  | some q => cases live : (region.get s).cell q <;> simp [load, live, region.set_get]

@[simp] theorem yields_modify {p : Ptr} {f : α → α} {s : σ} {Q : Unit → σ → Prop} :
    (region.modify p f).Yields s Q ↔ ∀ q, p = some q → ∀ v, (region.get s).cell q = some v →
      Q () (region.set ((region.get s).put q (f v)) s) := by
  cases p with
  | none => simp [modify]
  | some q => cases live : (region.get s).cell q <;> simp [modify, live, Unique.forall_iff]

@[simp] theorem yields_free {q : Nat} {s : σ} {Q : Unit → σ → Prop} :
    (region.free (some q)).Yields s Q ↔ ∀ v, (region.get s).cell q = some v →
      Q () (region.set ((region.get s).free q) s) := by
  cases live : (region.get s).cell q <;> simp [free, live, Unique.forall_iff]

/-- Allocating, loading and overwriting objects keeps what allocating and overwriting cells does. -/
theorem maintains_malloc {fresh : Nat → α} {P : σ → Prop}
    (kept : ∀ s v, P s → P (region.set ((region.get s).alloc v) s)) : (region.malloc fresh).Maintains P := by
  intro s q s' holds returned
  have result := Prog.returns_iff_ensures.mp returned
  obtain ⟨-, rfl⟩ := ensures_malloc.mp result
  exact kept s _ holds

theorem maintains_load {p : Ptr} {P : σ → Prop} : (region.load p).Maintains P := by
  intro s a s' holds returned
  have result := Prog.returns_iff_ensures.mp returned
  obtain ⟨_, -, _, -, -, rfl⟩ := ensures_load.mp result
  exact holds

theorem maintains_modify {p : Ptr} {f : α → α} {P : σ → Prop}
    (kept : ∀ s q v, P s → P (region.set ((region.get s).put q v) s)) : (region.modify p f).Maintains P := by
  intro s a s' holds returned
  have result := Prog.returns_iff_ensures.mp returned
  obtain ⟨q, -, v, -, -, rfl⟩ := ensures_modify.mp result
  exact kept s q (f v) holds

/-- Overwriting one object keeps what changing this cell does. -/
theorem maintains_modify_at {q : Nat} {f : α → α} {P : σ → Prop}
    (kept : ∀ s v, P s → P (region.set ((region.get s).put q v) s)) : (region.modify (some q) f).Maintains P := by
  intro s a s' holds returned
  have result := Prog.returns_iff_ensures.mp returned
  obtain ⟨_, ⟨⟩, v, -, -, rfl⟩ := ensures_modify.mp result
  exact kept s (f v) holds

theorem maintains_free {p : Ptr} {P : σ → Prop}
    (kept : ∀ s q, P s → P (region.set ((region.get s).free q) s)) : (region.free p).Maintains P := by
  intro s a s' holds returned
  have result := Prog.returns_iff_ensures.mp returned
  cases p with
  | none =>
    obtain ⟨-, rfl⟩ := ensures_free_none.mp result
    exact holds
  | some q =>
    obtain ⟨v, -, -, rfl⟩ := ensures_free_some.mp result
    exact kept s q holds

end Lens

/-! ## Exclusive ownership through a field -/

/-- Every live object of `A` points through `field` to a live object of `B`, no two
    to the same one, and every live object of `B` is pointed to. -/
structure Owns {α β : Type} (A : Store α) (field : α → Ptr) (B : Store β) : Prop where
  owned : ∀ p a, A.cell p = some a → ∃ q b, field a = some q ∧ B.cell q = some b
  unique : ∀ p p' a a', A.cell p = some a → A.cell p' = some a' → field a = field a' → p = p'
  owner : ∀ q b, B.cell q = some b → ∃ p a, A.cell p = some a ∧ field a = some q

namespace Owns

variable {α β : Type} {A : Store α} {field : α → Ptr} {B : Store β}

/-- Owners may change as long as they keep their field. -/
theorem congr_owner (owns : Owns A field B) {A' : Store α}
    (same : ∀ p, (A'.cell p).map field = (A.cell p).map field) : Owns A' field B := by
  have back : ∀ p a', A'.cell p = some a' → ∃ a, A.cell p = some a ∧ field a' = field a := by
    intro p a' e
    have fields := same p
    rw [e] at fields
    obtain ⟨a, e, fields⟩ := Option.map_eq_some_iff.mp fields.symm
    exact ⟨a, e, fields.symm⟩
  constructor
  · intro p a' e
    obtain ⟨a, e, fields⟩ := back p a' e
    rw [fields]
    exact owns.owned p a e
  · intro p q a' b' e e' fields
    obtain ⟨a, e, same⟩ := back p a' e
    obtain ⟨b, e', same'⟩ := back q b' e'
    exact owns.unique p q a b e e' (same ▸ same' ▸ fields)
  · intro q b e
    obtain ⟨p, a, e, fields⟩ := owns.owner q b e
    have kept := same p
    rw [e] at kept
    obtain ⟨a', e', fields'⟩ := Option.map_eq_some_iff.mp kept
    exact ⟨p, a', e', fields'.trans fields⟩

theorem put_owner (owns : Owns A field B) {p : Nat} {a a' : α} (live : A.cell p = some a)
    (same : field a' = field a) : Owns (A.put p a') field B := by
  refine owns.congr_owner fun q => ?_
  rw [Store.put_cell]
  split
  · next at_p => rw [at_p, live, Option.map_some, Option.map_some, Option.map_some, same]
  · rfl

/-- The contents of an owned object may change freely. -/
theorem put_owned (owns : Owns A field B) (q : Nat) (b : β) : Owns A field (B.put q b) := by
  refine ⟨fun p a e => ?_, owns.unique, fun r c e => ?_⟩
  · obtain ⟨r, c, fields, e⟩ := owns.owned p a e
    rw [fields]
    by_cases at_q : r = q
    · exact ⟨r, b, rfl, by simp [at_q ▸ e, at_q]⟩
    · exact ⟨r, c, rfl, by simp [at_q, e]⟩
  · rw [Store.put_cell] at e
    split at e
    · cases dead : B.cell r with
      | none => rw [dead] at e; cases e
      | some d => exact owns.owner r d dead
    · exact owns.owner r c e

/-- A new owner together with the object it owns. -/
theorem alloc (owns : Owns A field B) {a : α} {b : β} (new : field a = some B.next) :
    Owns (A.alloc a) field (B.alloc b) := by
  have old_field : ∀ p c, A.cell p = some c → field c ≠ some B.next := by
    intro p c e fields
    obtain ⟨q, d, fields', e'⟩ := owns.owned p c e
    rw [fields] at fields'
    cases fields'
    exact absurd e' (by simp [B.next_dead])
  constructor
  · intro p c e
    rw [Store.alloc_cell] at e
    split at e
    · cases e; exact ⟨B.next, b, new, by simp⟩
    · obtain ⟨q, d, fields, e⟩ := owns.owned p c e
      exact ⟨q, d, fields, by simp [e, Nat.ne_of_lt (Store.lt_next e)]⟩
  · intro p p' c c' e e' fields
    rw [Store.alloc_cell] at e e'
    split at e <;> split at e'
    · next at_p at_p' => exact at_p.trans at_p'.symm
    · cases e; exact absurd (fields ▸ new) (old_field p' c' e')
    · cases e'; exact absurd (fields.trans new) (old_field p c e)
    · exact owns.unique p p' c c' e e' fields
  · intro q d e
    rw [Store.alloc_cell] at e
    split at e
    · next at_q => exact ⟨A.next, a, by simp, at_q ▸ new⟩
    · obtain ⟨p, c, e, fields⟩ := owns.owner q d e
      exact ⟨p, c, by simp [e, Nat.ne_of_lt (Store.lt_next e)], fields⟩

/-- An owner released together with the object it owns. -/
theorem free (owns : Owns A field B) {p q : Nat} {a : α} (live : A.cell p = some a)
    (fields : field a = some q) : Owns (A.free p) field (B.free q) := by
  constructor
  · intro p' c e
    rw [Store.free_cell] at e
    split at e
    · cases e
    · next other =>
      obtain ⟨r, d, fields', e'⟩ := owns.owned p' c e
      have apart : r ≠ q := by
        rintro rfl
        exact other (owns.unique p' p c a e live (fields'.trans fields.symm))
      exact ⟨r, d, fields', by simp [apart, e']⟩
  · intro p' p'' c c' e e' same
    rw [Store.free_cell] at e e'
    split at e
    · cases e
    · split at e'
      · cases e'
      · exact owns.unique p' p'' c c' e e' same
  · intro r d e
    rw [Store.free_cell] at e
    split at e
    · cases e
    · next other =>
      obtain ⟨p', c, e', fields'⟩ := owns.owner r d e
      have apart : p' ≠ p := by
        rintro rfl
        rw [live] at e'
        cases e'
        exact other (Option.some.inj (fields'.symm.trans fields))
      exact ⟨p', c, by simp [apart, e'], fields'⟩

/-- An owner that drops its object for a new one. -/
theorem replace (owns : Owns A field B) {p q : Nat} {a a' : α} {b : β} (live : A.cell p = some a)
    (fields : field a = some q) (new : field a' = some B.next) :
    Owns (A.put p a') field ((B.alloc b).free q) := by
  have q_lt : q < B.next := by
    obtain ⟨r, d, fields', e⟩ := owns.owned p a live
    rw [fields] at fields'
    cases fields'
    exact Store.lt_next e
  have others : ∀ p' c, p' ≠ p → (A.put p a').cell p' = some c → A.cell p' = some c ∧
      ∃ r d, field c = some r ∧ B.cell r = some d ∧ r ≠ q ∧ r ≠ B.next := by
    intro p' c other e
    rw [Store.put_cell, if_neg other] at e
    obtain ⟨r, d, fields', e'⟩ := owns.owned p' c e
    refine ⟨e, r, d, fields', e', ?_, Nat.ne_of_lt (Store.lt_next e')⟩
    rintro rfl
    exact other (owns.unique p' p c a e live (fields'.trans fields.symm))
  have at_p : ∀ c, (A.put p a').cell p = some c → c = a' := by
    intro c e
    simpa [live] using e.symm
  constructor
  · intro p' c e
    by_cases here : p' = p
    · subst here
      rw [at_p c e]
      exact ⟨B.next, b, new, by simp [Nat.ne_of_gt q_lt]⟩
    · obtain ⟨_, r, d, fields', e', off_q, off_next⟩ := others p' c here e
      exact ⟨r, d, fields', by simp [off_q, off_next, e']⟩
  · intro p' p'' c c' e e' same
    by_cases here : p' = p <;> by_cases here' : p'' = p
    · exact here.trans here'.symm
    · subst here
      obtain ⟨_, r, d, fields', _, _, off_next⟩ := others p'' c' here' e'
      rw [at_p c e, new, fields'] at same
      exact absurd (Option.some.inj same).symm off_next
    · subst here'
      obtain ⟨_, r, d, fields', _, _, off_next⟩ := others p' c here e
      rw [at_p c' e', new, fields'] at same
      exact absurd (Option.some.inj same) off_next
    · exact owns.unique p' p'' c c' (others p' c here e).1 (others p'' c' here' e').1 same
  · intro r d e
    simp only [Store.free_cell, Store.alloc_cell] at e
    split at e
    · cases e
    · next off_q =>
      split at e
      · next at_next => exact ⟨p, a', by simp [live], at_next ▸ new⟩
      · obtain ⟨p', c, e', fields'⟩ := owns.owner r d e
        have apart : p' ≠ p := by
          rintro rfl
          rw [live] at e'
          cases e'
          exact off_q (Option.some.inj (fields'.symm.trans fields))
        exact ⟨p', c, by simp [apart, e'], fields'⟩

end Owns

end SysprogLabs
