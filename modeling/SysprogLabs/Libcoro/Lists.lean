import SysprogLabs.Libcoro.Model
import SysprogLabs.Lib.Links
import Mathlib.Tactic.Tauto

/-! # The list of the coroutines

`coro_list_add` and `coro_list_delete` against the mathematical list, and the search for a finished
coroutine.
-/

namespace SysprogLabs.Libcoro

open Prog

namespace State

def nextOf (s : State) (c : Nat) : Ptr := (s.coros.cell c).bind Coro.next

def prevOf (s : State) (c : Nat) : Ptr := (s.coros.cell c).bind Coro.prev

end State

/-- A coroutine without its links. -/
def Coro.unlinked (x : Coro) : Coro := { x with next := none, prev := none }

theorem Coro.unlinked_fields {x y : Coro} (same : y.unlinked = x.unlinked) :
    y.isFinished = x.isFinished ∧ y.ctx = x.ctx ∧ y.func = x.func := by
  simp only [Coro.unlinked, Coro.mk.injEq] at same
  tauto

/-- Nothing but the links of the list has changed. -/
structure State.Relinks (s s' : State) : Prop where
  cell : ∀ d, (s'.coros.cell d).map Coro.unlinked = (s.coros.cell d).map Coro.unlinked
  created : s'.coros.next = s.coros.next
  rest : s' = { s with coros := s'.coros, coroList := s'.coroList }

variable {s s' : State} {l : List Nat} {c d : Nat} {x y : Coro}

namespace State.Relinks

theorem refl (s : State) : s.Relinks s := ⟨fun _ => rfl, rfl, rfl⟩

theorem put (at_c : s.coros.cell c = some x) (same : y.unlinked = x.unlinked) (first : Ptr) :
    s.Relinks { s with coros := s.coros.put c y, coroList := first } := by
  refine ⟨fun d => ?_, rfl, rfl⟩
  rw [Store.put_cell]
  split
  · next here => rw [here, at_c, Option.map_some, Option.map_some, Option.map_some, same]
  · rfl

theorem trans {s'' : State} (first : s.Relinks s') (second : s'.Relinks s'') : s.Relinks s'' := by
  refine ⟨fun d => (second.cell d).trans (first.cell d), second.created.trans first.created, ?_⟩
  have rest := second.rest
  rw [first.rest] at rest
  exact rest

/-- Each coroutine is still there, with the same fields. -/
theorem keeps (relinks : s.Relinks s') (live : s.coros.cell d = some x) :
    ∃ x', s'.coros.cell d = some x' ∧ x'.unlinked = x.unlinked := by
  have same := relinks.cell d
  rw [live, Option.map_some] at same
  exact Option.map_eq_some_iff.mp same

theorem setFirst (relinks : s.Relinks s') (first : Ptr) : s.Relinks { s' with coroList := first } := by
  refine ⟨relinks.cell, relinks.created, ?_⟩
  conv_lhs => rw [relinks.rest]

theorem live (relinks : s.Relinks s') (live : ∃ x, s.coros.cell d = some x) : ∃ x, s'.coros.cell d = some x := by
  obtain ⟨x, at_d⟩ := live
  obtain ⟨x', at_d', -⟩ := relinks.keeps at_d
  exact ⟨x', at_d'⟩

end State.Relinks

theorem State.nextOf_put (at_c : s.coros.cell c = some x) (y : Coro) (first : Ptr) :
    { s with coros := s.coros.put c y, coroList := first }.nextOf = Function.update s.nextOf c y.next :=
  Store.put_bind at_c y Coro.next

theorem State.prevOf_put (at_c : s.coros.cell c = some x) (y : Coro) (first : Ptr) :
    { s with coros := s.coros.put c y, coroList := first }.prevOf = Function.update s.prevOf c y.prev :=
  Store.put_bind at_c y Coro.prev

/-- `l` is the list behind `coro_list`. -/
structure State.Listed (s : State) (l : List Nat) : Prop where
  list : DList s.nextOf s.prevOf s.coroList l
  live : ∀ d ∈ l, ∃ x, s.coros.cell d = some x

namespace State.Listed

theorem next_eq {l₁ l₂ : List Nat} (listed : s.Listed (l₁ ++ c :: l₂)) (at_c : s.coros.cell c = some x) :
    x.next = l₂.head? := by
  have next := listed.list.next_eq
  rwa [State.nextOf, at_c] at next

theorem prev_eq {l₁ l₂ : List Nat} (listed : s.Listed (l₁ ++ c :: l₂)) (at_c : s.coros.cell c = some x) :
    x.prev = l₁.getLast? := by
  have prev := listed.list.prev_eq
  rwa [State.prevOf, at_c] at prev

end State.Listed

/-- The other fields of a coroutine may change. -/
theorem State.Listed.put (listed : s.Listed l) (at_c : s.coros.cell c = some x) (next : y.next = x.next)
    (prev : y.prev = x.prev) : { s with coros := s.coros.put c y }.Listed l := by
  have nexts : { s with coros := s.coros.put c y }.nextOf = s.nextOf := by
    refine (State.nextOf_put at_c y s.coroList).trans (Function.update_eq_self_iff.mpr ?_)
    rw [next, State.nextOf, at_c, Option.bind_some]
  have prevs : { s with coros := s.coros.put c y }.prevOf = s.prevOf := by
    refine (State.prevOf_put at_c y s.coroList).trans (Function.update_eq_self_iff.mpr ?_)
    rw [prev, State.prevOf, at_c, Option.bind_some]
  refine ⟨?_, fun d mem => ?_⟩
  · rw [nexts, prevs]
    exact listed.list
  · obtain ⟨z, at_d⟩ := listed.live d mem
    exact Store.put_live at_d

/-- A coroutine that is not in the list may be released. -/
theorem State.Listed.free (listed : s.Listed l) (off : c ∉ l) : { s with coros := s.coros.free c }.Listed l := by
  have other : ∀ d ∈ l, d ≠ c := fun d mem same => off (same ▸ mem)
  refine ⟨listed.list.congr (fun d mem => ?_) (fun d mem => ?_), fun d mem => ?_⟩
  · simp [State.nextOf, other d mem]
  · simp [State.prevOf, other d mem]
  · simpa [other d mem] using listed.live d mem

/-- One of the two conditional assignments to a link. -/
theorem setNext_returns {p v : Ptr} (live : ∀ q, p = some q → ∃ y, s.coros.cell q = some y) :
    (Prog.when (p ≠ none) (coroHeap.modify p fun y => { y with next := v })).Ensures s fun _ s' =>
      s.Relinks s' ∧ s'.coroList = s.coroList ∧ s'.prevOf = s.prevOf ∧
        ∀ d, s'.nextOf d = if p = some d then v else s.nextOf d := by
  cases p with
  | none => simpa using State.Relinks.refl s
  | some q =>
    obtain ⟨y, at_q⟩ := live q rfl
    simp only [ensures_when, ne_eq, reduceCtorEq, not_false_eq_true, if_true, Lens.ensures_modify, coroHeap_get,
      coroHeap_set]
    refine ⟨q, rfl, y, at_q, .put (y := { y with next := v }) at_q rfl _, trivial, ?_, fun d => ?_⟩
    · refine (State.prevOf_put at_q { y with next := v } s.coroList).trans ?_
      exact Function.update_eq_self_iff.mpr (by rw [State.prevOf, at_q, Option.bind_some])
    · rw [State.nextOf_put at_q { y with next := v } s.coroList, Function.update_apply]
      simp only [Option.some.injEq, eq_comm]

theorem setPrev_returns {p v : Ptr} (live : ∀ q, p = some q → ∃ y, s.coros.cell q = some y) :
    (Prog.when (p ≠ none) (coroHeap.modify p fun y => { y with prev := v })).Ensures s fun _ s' =>
      s.Relinks s' ∧ s'.coroList = s.coroList ∧ s'.nextOf = s.nextOf ∧
        ∀ d, s'.prevOf d = if p = some d then v else s.prevOf d := by
  cases p with
  | none => simpa using State.Relinks.refl s
  | some q =>
    obtain ⟨y, at_q⟩ := live q rfl
    simp only [ensures_when, ne_eq, reduceCtorEq, not_false_eq_true, if_true, Lens.ensures_modify, coroHeap_get,
      coroHeap_set]
    refine ⟨q, rfl, y, at_q, .put (y := { y with prev := v }) at_q rfl _, trivial, ?_, fun d => ?_⟩
    · refine (State.nextOf_put at_q { y with prev := v } s.coroList).trans ?_
      exact Function.update_eq_self_iff.mpr (by rw [State.nextOf, at_q, Option.bind_some])
    · rw [State.prevOf_put at_q { y with prev := v } s.coroList, Function.update_apply]
      simp only [Option.some.injEq, eq_comm]

/-- A coroutine is added in front. -/
theorem coroListAdd_returns (listed : s.Listed l) (at_c : s.coros.cell c = some x) (new : c ∉ l) :
    (coroListAdd c).Ensures s fun _ s' => s.Relinks s' ∧ s'.Listed (c :: l) := by
  let y : Coro := { x with next := s.coroList, prev := none }
  have put : s.Relinks { s with coros := s.coros.put c y } := .put (y := y) at_c rfl s.coroList
  have old : ∀ d ∈ l, d ≠ c := fun d mem same => new (same ▸ mem)
  have first : s.coroList = l.head? := listed.list.chain.head_eq
  simp only [coroListAdd, ensures_bind, ensures_read, Lens.ensures_modify, ensures_update, coroHeap_get, coroHeap_set]
  refine ⟨c, rfl, x, at_c, c, rfl, { x with next := s.coroList }, by simp [at_c], ?_⟩
  rw [Store.put_put]
  refine (setPrev_returns (s := { s with coros := s.coros.put c y }) fun q head => ?_).mono fun _ s' set => ?_
  · exact put.live (listed.live q (List.mem_of_head? (first ▸ head)))
  · obtain ⟨changed, -, next, prev⟩ := set
    have relinks := put.trans changed
    have next : s'.nextOf = Function.update s.nextOf c s.coroList := next.trans (State.nextOf_put at_c y s.coroList)
    have prev : ∀ d, s'.prevOf d = if s.coroList = some d then some c else Function.update s.prevOf c none d := by
      intro d
      rw [prev, show State.prevOf _ = _ from State.prevOf_put at_c y s.coroList]
    refine ⟨relinks.setFirst _, ?_, fun d mem => ?_⟩
    · change DList s'.nextOf s'.prevOf (some c) (c :: l)
      apply listed.list.push_front
      · rw [next, Function.update_self]
      · rw [prev, Function.update_self, if_neg]
        exact fun head => new (List.mem_of_head? (first ▸ head))
      · intro d mem
        rw [next, Function.update_of_ne (old d mem)]
      · intro d mem
        rw [prev, Function.update_of_ne (old d mem), first]
    · obtain rfl | mem := List.mem_cons.mp mem
      · exact relinks.live ⟨x, at_c⟩
      · exact relinks.live (listed.live d mem)

/-- Taking a coroutine out of the list. -/
theorem coroListDelete_returns {l₁ l₂ : List Nat} (listed : s.Listed (l₁ ++ c :: l₂)) :
    (coroListDelete c).Ensures s fun _ s' => s.Relinks s' ∧ s'.Listed (l₁ ++ l₂) := by
  obtain ⟨x, at_c⟩ := listed.live c (by simp)
  have next_c : s.nextOf c = x.next := by rw [State.nextOf, at_c, Option.bind_some]
  have prev_c : s.prevOf c = x.prev := by rw [State.prevOf, at_c, Option.bind_some]
  have next_live : ∀ q, x.next = some q → ∃ y, s.coros.cell q = some y := by
    intro q next
    rw [listed.next_eq at_c] at next
    exact listed.live q (by simp [List.mem_of_head? next])
  have prev_live : ∀ q, x.prev = some q → ∃ y, s.coros.cell q = some y := by
    intro q prev
    rw [listed.prev_eq at_c] at prev
    exact listed.live q (by simp [List.mem_of_getLast? prev])
  rw [coroListDelete, ensures_bind, Lens.ensures_load]
  refine ⟨c, rfl, x, at_c, ?_⟩
  simp only [ensures_bind]
  refine (setNext_returns prev_live).mono fun _ s₁ set₁ => ?_
  obtain ⟨relinks₁, first₁, prev₁, next₁⟩ := set₁
  refine (setPrev_returns fun q next => relinks₁.live (next_live q next)).mono fun _ s₂ set₂ => ?_
  obtain ⟨relinks₂, first₂, next₂, prev₂⟩ := set₂
  have relinks := relinks₁.trans relinks₂
  have list : DList s₂.nextOf s₂.prevOf (if x.prev = none then x.next else s.coroList) (l₁ ++ l₂) := by
    apply listed.list.remove
    · intro d _
      rw [next₂, next₁, prev_c, next_c]
    · intro d _
      rw [prev₂, prev₁, prev_c, next_c]
    · rw [prev_c, next_c]
  have live : ∀ d ∈ l₁ ++ l₂, ∃ y, s₂.coros.cell d = some y := by
    intro d mem
    refine relinks.live (listed.live d ?_)
    simp only [List.mem_append, List.mem_cons] at mem ⊢
    tauto
  simp only [ensures_when, ensures_update]
  split
  · next none =>
    rw [if_pos none] at list
    exact ⟨relinks.setFirst _, list, live⟩
  · next some =>
    rw [if_neg some, ← first₁, ← first₂] at list
    exact ⟨relinks, list, live⟩

/-- Whether a coroutine has finished. -/
def State.Finished (s : State) (c : Nat) : Prop := ∃ x, s.coros.cell c = some x ∧ x.isFinished = true

/-- The search finds the first finished coroutine. -/
theorem findFinished_returns {first : Ptr} (chain : Chain s.nextOf first l)
    (live : ∀ d ∈ l, ∃ x, s.coros.cell d = some x) :
    (findFinished first).Ensures s fun found s' => s' = s ∧
      ((found = none ∧ ∀ d ∈ l, ¬ s.Finished d) ∨
        ∃ c l₁ l₂, found = some c ∧ l = l₁ ++ c :: l₂ ∧ s.Finished c) := by
  induction l generalizing first with
  | nil =>
    have last : first = none := chain
    rw [findFinished, ensures_loop, last]
    simp
  | cons c l ih =>
    obtain ⟨rfl, rest⟩ := chain
    obtain ⟨x, at_c⟩ := live c List.mem_cons_self
    have next : s.nextOf c = x.next := by rw [State.nextOf, at_c, Option.bind_some]
    rw [findFinished, ensures_loop]
    simp only [ensures_bind, Lens.ensures_load, coroHeap_get, ensures_ite, ensures_pure]
    refine ⟨c, rfl, x, at_c, ?_⟩
    split
    · next finished => exact ⟨trivial, .inr ⟨c, [], l, rfl, rfl, x, at_c, finished⟩⟩
    · next running =>
      rw [next] at rest
      refine (ih rest fun d mem => live d (List.mem_cons_of_mem c mem)).mono fun found s' result => ?_
      obtain ⟨rfl, ⟨rfl, none⟩ | ⟨d, l₁, l₂, rfl, rfl, finished⟩⟩ := result
      · refine ⟨rfl, .inl ⟨rfl, fun d mem finished => ?_⟩⟩
        obtain rfl | mem := List.mem_cons.mp mem
        · obtain ⟨y, at_d, yes⟩ := finished
          rw [at_c] at at_d
          cases at_d
          exact running yes
        · exact none d mem finished
      · exact ⟨rfl, .inr ⟨d, c :: l₁, l₂, rfl, rfl, finished⟩⟩

end SysprogLabs.Libcoro
