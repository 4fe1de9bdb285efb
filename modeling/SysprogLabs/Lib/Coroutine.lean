import SysprogLabs.Lib.Prog

/-! # Code that yields

`Code σ α` is the code of one coroutine: actions on the state that others share with it, places where
it yields, and its result.  What the others do meanwhile is not part of it.

* `Code.straight` is the code where nobody else runs: a `yield` comes back at once.
* `Code.Ends` says that the code reaches its end within a number of steps, with a result that has
  a property, whatever others do to the state as long as they keep the invariant `I`; each of its own
  actions keeps `I` and changes the state by `G` only.
-/

namespace SysprogLabs

variable {σ α β : Type}

inductive Code (σ α : Type) : Type 1 where
  | done (a : α)
  | act {β : Type} (p : Prog σ β) (rest : β → Code σ α)
  | yield (rest : Code σ α)

namespace Code

def bind : Code σ α → (α → Code σ β) → Code σ β
  | done a, f => f a
  | act p rest, f => act p fun b => (rest b).bind f
  | yield rest, f => yield (rest.bind f)

instance : Monad (Code σ) where
  pure := done
  bind := bind

theorem bind_assoc {γ : Type} (code : Code σ α) (f : α → Code σ β) (g : β → Code σ γ) :
    (code >>= f) >>= g = code >>= fun a => f a >>= g := by
  induction code with
  | done a => rfl
  | act p rest ih => exact congrArg (act p) (funext ih)
  | yield rest ih => exact congrArg yield ih

/-- One action. -/
def lift (p : Prog σ α) : Code σ α := act p done

/-- `yield();` -/
def pause : Code σ Unit := yield (done ())

def straight : Code σ α → Prog σ α
  | done a => pure a
  | act p rest => p >>= fun b => (rest b).straight
  | yield rest => rest.straight

theorem yields_straight_bind {code : Code σ α} {f : α → Code σ β} {s : σ} {Q : β → σ → Prop} :
    (code >>= f).straight.Yields s Q ↔ code.straight.Yields s fun a s' => (f a).straight.Yields s' Q := by
  induction code generalizing s with
  | done a =>
    rw [straight, Prog.yields_pure]
    rfl
  | act p rest ih =>
    refine Prog.yields_bind.trans (Iff.trans ?_ Prog.yields_bind.symm)
    exact ⟨fun yields => yields.mono fun b _ => (ih b).mp, fun yields => yields.mono fun b _ => (ih b).mpr⟩
  | yield rest ih => exact ih

@[simp] theorem ensures_straight_bind {code : Code σ α} {f : α → Code σ β} {s : σ} {Q : β → σ → Prop} :
    (code >>= f).straight.Ensures s Q ↔ code.straight.Ensures s fun a s' => (f a).straight.Ensures s' Q := by
  induction code generalizing s with
  | done a =>
    rw [straight, Prog.ensures_pure]
    rfl
  | act p rest ih =>
    refine Prog.ensures_bind.trans (Iff.trans ?_ Prog.ensures_bind.symm)
    exact ⟨fun ensured => ensured.mono fun b _ => (ih b).mp, fun ensured => ensured.mono fun b _ => (ih b).mpr⟩
  | yield rest ih => exact ih

@[simp] theorem ensures_straight_lift {p : Prog σ α} {s : σ} {Q : α → σ → Prop} :
    (lift p).straight.Ensures s Q ↔ p.Ensures s Q :=
  Prog.ensures_bind.trans ⟨fun ensured => ensured.mono fun _ _ => Prog.ensures_pure.mp,
    fun ensured => ensured.mono fun _ _ => Prog.ensures_pure.mpr⟩

@[simp] theorem ensures_straight_pure {a : α} {s : σ} {Q : α → σ → Prop} :
    (Pure.pure a : Code σ α).straight.Ensures s Q ↔ Q a s := Prog.ensures_pure

@[simp] theorem ensures_straight_ite {c : Prop} [Decidable c] {yes no : Code σ α} {s : σ} {Q : α → σ → Prop} :
    (if c then yes else no).straight.Ensures s Q ↔ if c then yes.straight.Ensures s Q else no.straight.Ensures s Q := by
  split <;> rfl

/-- The code ends within `n` steps, with a result in `Q`. -/
def Ends (I : σ → Prop) (G : σ → σ → Prop) (Q : α → Prop) : Nat → Code σ α → Prop
  | _, done a => Q a
  | 0, _ => False
  | n + 1, act p rest => ∀ s, I s → p.Ensures s fun b s' => I s' ∧ G s s' ∧ (rest b).Ends I G Q n
  | n + 1, yield rest => rest.Ends I G Q n

namespace Ends

variable {I : σ → Prop} {G : σ → σ → Prop} {Q : α → Prop} {R : β → Prop} {n m : Nat} {code : Code σ α}

theorem pure {a : α} (holds : Q a) (n : Nat) : (Pure.pure a : Code σ α).Ends I G Q n := by
  cases n <;> exact holds

theorem result {a : α} (ends : (done a : Code σ α).Ends I G Q n) : Q a := by
  cases n <;> exact ends

theorem mono {Q' : α → Prop} (ends : code.Ends I G Q n) (more : n ≤ m) (weaken : ∀ a, Q a → Q' a) :
    code.Ends I G Q' m := by
  induction code generalizing n m with
  | done a => exact pure (weaken a ends.result) m
  | act p rest ih =>
    cases n with
    | zero => exact ends.elim
    | succ n =>
      obtain ⟨m, rfl⟩ := Nat.exists_eq_succ_of_ne_zero (Nat.ne_of_gt (Nat.lt_of_lt_of_le (Nat.succ_pos n) more))
      intro s holds
      refine (ends s holds).mono fun b s' after => ?_
      exact ⟨after.1, after.2.1, ih b after.2.2 (Nat.le_of_succ_le_succ more)⟩
  | yield rest ih =>
    cases n with
    | zero => exact ends.elim
    | succ n =>
      obtain ⟨m, rfl⟩ := Nat.exists_eq_succ_of_ne_zero (Nat.ne_of_gt (Nat.lt_of_lt_of_le (Nat.succ_pos n) more))
      exact ih ends (Nat.le_of_succ_le_succ more)

/-- Sequencing adds the steps. -/
theorem bind {f : α → Code σ β} (first : code.Ends I G Q n) (second : ∀ a, Q a → (f a).Ends I G R m) :
    (code >>= f).Ends I G R (n + m) := by
  induction code generalizing n with
  | done a => exact (second a first.result).mono (Nat.le_add_left m n) fun _ holds => holds
  | act p rest ih =>
    cases n with
    | zero => exact first.elim
    | succ n =>
      rw [Nat.succ_add]
      intro s holds
      refine (first s holds).mono fun b s' after => ?_
      exact ⟨after.1, after.2.1, ih b after.2.2⟩
  | yield rest ih =>
    cases n with
    | zero => exact first.elim
    | succ n =>
      rw [Nat.succ_add]
      exact ih first

theorem lift {p : Prog σ α} (ensured : ∀ s, I s → p.Ensures s fun a s' => I s' ∧ G s s' ∧ Q a) :
    (lift p).Ends I G Q 1 :=
  fun s holds => (ensured s holds).mono fun _ _ after => after

theorem pause : (pause : Code σ Unit).Ends I G (fun _ => True) 1 := trivial

/-- Where nobody else runs, the code returns such a result. -/
theorem straight {s : σ} (ends : code.Ends I G Q n) (holds : I s) :
    code.straight.Ensures s fun a s' => I s' ∧ Q a := by
  induction code generalizing n s with
  | done a => exact Prog.ensures_pure.mpr ⟨holds, ends.result⟩
  | act p rest ih =>
    cases n with
    | zero => exact ends.elim
    | succ n =>
      refine Prog.ensures_bind.mpr ((ends s holds).mono fun b s' after => ?_)
      exact ih b after.2.2 after.1
  | yield rest ih =>
    cases n with
    | zero => exact ends.elim
    | succ n => exact ih ends holds

end Ends

end Code

end SysprogLabs
