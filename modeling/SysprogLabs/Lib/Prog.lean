import Mathlib.Logic.Basic
import Mathlib.Logic.Unique

/-! # State programs with undefined behaviour and loops

A `Prog σ α` is a deterministic program over a state `σ` whose loops run on
fuel.  It can return, run into undefined behaviour (`Stop.fault`), or run out of
fuel; the last outcome is the only one more fuel can change, which the structure
carries as `stable`.

Reasoning never mentions fuel.  `Returns p s a s'` is the big-step judgment and
`Ensures p s Q` the total-correctness judgment.  Each construct has one
`ensures_*` equivalence, so a straight-line program is executed by rewriting,
and a loop is handled one iteration at a time (`ensures_loop`), by a measure
(`ensures_loop_of_measure`), or, when it may diverge, by an invariant
(`Returns.loop_induct`).
-/

namespace SysprogLabs

/-- Why a run ended without a result. -/
inductive Stop where
  | fault
  | outOfFuel
  deriving DecidableEq, Repr

/-- How one iteration of a loop ends: go round again, or leave the loop. -/
inductive Flow (α β : Type) where
  | again (next : α)
  | done (result : β)

structure Prog (σ α : Type) where
  run : Nat → σ → Except Stop (α × σ)
  /-- Fuel only decides whether the run gets to its end. -/
  stable : ∀ {fuel more : Nat} {s : σ}, fuel ≤ more →
    run fuel s ≠ .error .outOfFuel → run more s = run fuel s

namespace Prog

variable {σ τ α β : Type}

/-! ## Constructs -/

/-- A single total step: `none` is undefined behaviour. -/
def step (f : σ → Option (α × σ)) : Prog σ α where
  run _ s := match f s with
    | some r => .ok r
    | none => .error .fault
  stable _ _ := rfl

def bind (p : Prog σ α) (f : α → Prog σ β) : Prog σ β where
  run fuel s := match p.run fuel s with
    | .ok (a, s') => (f a).run fuel s'
    | .error stop => .error stop
  stable := by
    intro fuel more s le finished
    cases result : p.run fuel s with
    | error stop =>
      rw [result] at finished
      rw [p.stable le (by rw [result]; rintro ⟨⟩; exact finished rfl), result]
    | ok pair =>
      rw [p.stable le (by rw [result]; simp), result]
      rw [result] at finished
      exact (f pair.1).stable le finished

instance : Monad (Prog σ) where
  pure a := step fun s => some (a, s)
  bind := bind

/-- Reads a value off the state. -/
def read (f : σ → α) : Prog σ α := step fun s => some (f s, s)

/-- Replaces the state. -/
def update (f : σ → σ) : Prog σ Unit := step fun s => some ((), f s)

/-- Undefined behaviour. -/
def fault : Prog σ α := step fun _ => none

/-- An `if` without `else`. -/
def when (c : Prop) [Decidable c] (p : Prog σ Unit) : Prog σ Unit :=
  if c then p else step fun s => some ((), s)

/-- A value, or undefined behaviour when there is none. -/
def require (a : Option α) : Prog σ α := step fun s => a.map (·, s)

/-- The run of `loop` on a given amount of fuel. -/
def loopRun (body : α → Prog σ (Flow α β)) : Nat → α → σ → Except Stop (β × σ)
  | 0, _, _ => .error .outOfFuel
  | fuel + 1, a, s => match (body a).run fuel s with
    | .ok (.again a', s') => loopRun body fuel a' s'
    | .ok (.done b, s') => .ok (b, s')
    | .error stop => .error stop

theorem loopRun_stable (body : α → Prog σ (Flow α β)) {fuel : Nat} :
    ∀ {more : Nat} {a : α} {s : σ}, fuel ≤ more →
      loopRun body fuel a s ≠ .error .outOfFuel →
      loopRun body more a s = loopRun body fuel a s := by
  induction fuel with
  | zero => intro _ _ _ _ finished; exact absurd rfl finished
  | succ fuel ih =>
    intro more a s le finished
    obtain ⟨more, rfl⟩ : ∃ m, more = m + 1 := ⟨more - 1, by omega⟩
    have le : fuel ≤ more := by omega
    simp only [loopRun] at finished ⊢
    cases result : (body a).run fuel s with
    | error stop =>
      rw [result] at finished
      rw [(body a).stable le (by rw [result]; rintro ⟨⟩; exact finished rfl), result]
    | ok pair =>
      rw [(body a).stable le (by rw [result]; simp), result]
      obtain ⟨flow, s'⟩ := pair
      rw [result] at finished
      cases flow with
      | again a' => exact ih le finished
      | done b => rfl

/-- Runs `body` from `a` until it leaves the loop. -/
def loop (body : α → Prog σ (Flow α β)) (a : α) : Prog σ β where
  run fuel s := loopRun body fuel a s
  stable le finished := loopRun_stable body le finished

/-! ## Judgments -/

/-- The program returns `a` and leaves the state `s'`. -/
def Returns (p : Prog σ α) (s : σ) (a : α) (s' : σ) : Prop :=
  ∃ fuel, p.run fuel s = .ok (a, s')

/-- The program returns, with a result and a state in `Q`. -/
def Ensures (p : Prog σ α) (s : σ) (Q : α → σ → Prop) : Prop :=
  ∃ a s', p.Returns s a s' ∧ Q a s'

theorem Returns.unique {p : Prog σ α} {s : σ} {a b : α} {s₁ s₂ : σ}
    (h₁ : p.Returns s a s₁) (h₂ : p.Returns s b s₂) : a = b ∧ s₁ = s₂ := by
  obtain ⟨n, h₁⟩ := h₁
  obtain ⟨m, h₂⟩ := h₂
  have e₁ := p.stable (Nat.le_max_left n m) (by rw [h₁]; simp)
  have e₂ := p.stable (Nat.le_max_right n m) (by rw [h₂]; simp)
  rw [e₁, h₁, h₂] at e₂
  simpa using e₂

theorem Returns.ensures {p : Prog σ α} {s s' : σ} {a : α} {Q : α → σ → Prop}
    (returned : p.Returns s a s') (holds : Q a s') : p.Ensures s Q :=
  ⟨a, s', returned, holds⟩

theorem returns_iff_ensures {p : Prog σ α} {s s' : σ} {a : α} :
    p.Returns s a s' ↔ p.Ensures s fun b t => b = a ∧ t = s' := by
  constructor
  · exact fun returned => returned.ensures ⟨rfl, rfl⟩
  · rintro ⟨_, _, returned, rfl, rfl⟩
    exact returned

/-- What is ensured holds of every return. -/
theorem Ensures.of_returns {p : Prog σ α} {s s' : σ} {a : α} {Q : α → σ → Prop}
    (ensured : p.Ensures s Q) (returned : p.Returns s a s') : Q a s' := by
  obtain ⟨b, s₂, returned₂, holds⟩ := ensured
  obtain ⟨rfl, rfl⟩ := returned.unique returned₂
  exact holds

theorem Ensures.mono {p : Prog σ α} {s : σ} {Q R : α → σ → Prop}
    (ensured : p.Ensures s Q) (weaken : ∀ a s', Q a s' → R a s') : p.Ensures s R := by
  obtain ⟨a, s', returned, holds⟩ := ensured
  exact ⟨a, s', returned, weaken a s' holds⟩

theorem Ensures.and {p : Prog σ α} {s : σ} {Q R : α → σ → Prop}
    (left : p.Ensures s Q) (right : p.Ensures s R) :
    p.Ensures s fun a s' => Q a s' ∧ R a s' := by
  obtain ⟨a, s', returned, holds⟩ := left
  exact ⟨a, s', returned, holds, right.of_returns returned⟩

/-- A fault is final: no amount of fuel makes the program return. -/
theorem not_returns_of_fault {p : Prog σ α} {s s' : σ} {a : α} {fuel : Nat}
    (faults : p.run fuel s = .error .fault) : ¬ p.Returns s a s' := by
  rintro ⟨n, h⟩
  have e₁ := p.stable (Nat.le_max_left fuel n) (by rw [faults]; simp)
  have e₂ := p.stable (Nat.le_max_right fuel n) (by rw [h]; simp)
  rw [e₁, faults, h] at e₂
  cases e₂

/-! ## One rule per construct -/

@[simp] theorem ensures_step {f : σ → Option (α × σ)} {s : σ} {Q : α → σ → Prop} :
    (step f).Ensures s Q ↔ ∃ a s', f s = some (a, s') ∧ Q a s' := by
  constructor
  · rintro ⟨a, s', ⟨fuel, returned⟩, holds⟩
    refine ⟨a, s', ?_, holds⟩
    simp only [step] at returned
    split at returned
    · next e => cases returned; exact e
    · cases returned
  · rintro ⟨a, s', e, holds⟩
    exact ⟨a, s', ⟨0, by simp only [step, e]⟩, holds⟩

@[simp] theorem ensures_pure {a : α} {s : σ} {Q : α → σ → Prop} :
    (Pure.pure a : Prog σ α).Ensures s Q ↔ Q a s := by
  refine ensures_step.trans ?_
  simp [and_assoc]

theorem returns_bind {p : Prog σ α} {f : α → Prog σ β} {s s'' : σ} {b : β} :
    (p >>= f).Returns s b s'' ↔ ∃ a s', p.Returns s a s' ∧ (f a).Returns s' b s'' := by
  constructor
  · rintro ⟨fuel, returned⟩
    change (p.bind f).run fuel s = _ at returned
    simp only [bind] at returned
    split at returned
    · next a s' e => exact ⟨a, s', ⟨fuel, e⟩, ⟨fuel, returned⟩⟩
    · cases returned
  · rintro ⟨a, s', ⟨n, first⟩, ⟨m, second⟩⟩
    refine ⟨max n m, ?_⟩
    have e₁ := p.stable (Nat.le_max_left n m) (by rw [first]; simp)
    have e₂ := (f a).stable (Nat.le_max_right n m) (by rw [second]; simp)
    change (p.bind f).run (max n m) s = _
    simp only [bind, e₁, first, e₂, second]

@[simp] theorem ensures_bind {p : Prog σ α} {f : α → Prog σ β} {s : σ} {Q : β → σ → Prop} :
    (p >>= f).Ensures s Q ↔ p.Ensures s fun a s' => (f a).Ensures s' Q := by
  constructor
  · rintro ⟨b, s'', returned, holds⟩
    obtain ⟨a, s', first, second⟩ := returns_bind.mp returned
    exact ⟨a, s', first, b, s'', second, holds⟩
  · rintro ⟨a, s', first, b, s'', second, holds⟩
    exact ⟨b, s'', returns_bind.mpr ⟨a, s', first, second⟩, holds⟩

@[simp] theorem ensures_read {f : σ → α} {s : σ} {Q : α → σ → Prop} :
    (read f).Ensures s Q ↔ Q (f s) s := by
  simp [read, and_assoc]

@[simp] theorem ensures_update {f : σ → σ} {s : σ} {Q : Unit → σ → Prop} :
    (update f).Ensures s Q ↔ Q () (f s) := by
  simp [update, Unique.exists_iff]

@[simp] theorem ensures_fault {s : σ} {Q : α → σ → Prop} :
    (fault : Prog σ α).Ensures s Q ↔ False := by
  simp [fault]

@[simp] theorem ensures_require {a : Option α} {s : σ} {Q : α → σ → Prop} :
    (require a).Ensures s Q ↔ ∃ v, a = some v ∧ Q v s := by
  cases a <;> simp [require, and_assoc]

@[simp] theorem ensures_ite {c : Prop} [Decidable c] {p q : Prog σ α} {s : σ}
    {Q : α → σ → Prop} :
    (if c then p else q).Ensures s Q ↔ if c then p.Ensures s Q else q.Ensures s Q := by
  split <;> rfl

@[simp] theorem ensures_when {c : Prop} [Decidable c] {p : Prog σ Unit} {s : σ}
    {Q : Unit → σ → Prop} : (when c p).Ensures s Q ↔ if c then p.Ensures s Q else Q () s := by
  by_cases holds : c
  · simp [when, holds]
  · simp [when, holds, Unique.exists_iff]

/-- One iteration of a loop. -/
theorem returns_loop {body : α → Prog σ (Flow α β)} {a : α} {b : β} {s s'' : σ} :
    (loop body a).Returns s b s'' ↔
      ∃ flow s', (body a).Returns s flow s' ∧
        match flow with
        | .again a' => (loop body a').Returns s' b s''
        | .done b' => b' = b ∧ s' = s'' := by
  constructor
  · rintro ⟨fuel, returned⟩
    cases fuel with
    | zero => cases returned
    | succ fuel =>
      change loopRun body (fuel + 1) a s = _ at returned
      simp only [loopRun] at returned
      split at returned
      · next a' s' e => exact ⟨.again a', s', ⟨fuel, e⟩, ⟨fuel, returned⟩⟩
      · next b' s' e => cases returned; exact ⟨.done b, s'', ⟨fuel, e⟩, rfl, rfl⟩
      · cases returned
  · rintro ⟨flow, s', ⟨n, first⟩, rest⟩
    cases flow with
    | again a' =>
      obtain ⟨m, second⟩ := rest
      refine ⟨max n m + 1, ?_⟩
      have e₁ := (body a).stable (Nat.le_max_left n m) (by rw [first]; simp)
      have e₂ := (loop body a').stable (Nat.le_max_right n m) (by rw [second]; simp)
      change loopRun body (max n m + 1) a s = _
      simp only [loopRun, e₁, first]
      exact e₂.trans second
    | done b' =>
      obtain ⟨rfl, rfl⟩ := rest
      refine ⟨n + 1, ?_⟩
      change loopRun body (n + 1) a s = _
      simp only [loopRun, first]

theorem ensures_loop {body : α → Prog σ (Flow α β)} {a : α} {s : σ} {Q : β → σ → Prop} :
    (loop body a).Ensures s Q ↔
      (body a).Ensures s fun flow s' => match flow with
        | .again a' => (loop body a').Ensures s' Q
        | .done b => Q b s' := by
  constructor
  · rintro ⟨b, s'', returned, holds⟩
    obtain ⟨flow, s', first, rest⟩ := returns_loop.mp returned
    refine ⟨flow, s', first, ?_⟩
    cases flow with
    | again a' => exact ⟨b, s'', rest, holds⟩
    | done b' => obtain ⟨rfl, rfl⟩ := rest; exact holds
  · rintro ⟨flow, s', first, rest⟩
    cases flow with
    | again a' =>
      obtain ⟨b, s'', second, holds⟩ := rest
      exact ⟨b, s'', returns_loop.mpr ⟨_, s', first, second⟩, holds⟩
    | done b' => exact ⟨b', s', returns_loop.mpr ⟨_, s', first, rfl, rfl⟩, rest⟩

/-! ## Loop rules -/

/-- Total correctness: every iteration keeps the invariant and lowers the measure,
    or leaves the loop in `Q`. -/
theorem ensures_loop_of_measure {body : α → Prog σ (Flow α β)} {Q : β → σ → Prop}
    (inv : α → σ → Prop) (measure : α → σ → Nat)
    (iteration : ∀ a s, inv a s → (body a).Ensures s fun flow s' => match flow with
      | .again a' => inv a' s' ∧ measure a' s' < measure a s
      | .done b => Q b s')
    {a : α} {s : σ} (holds : inv a s) : (loop body a).Ensures s Q := by
  induction bound : measure a s using Nat.strongRecOn generalizing a s with
  | ind n ih =>
    refine ensures_loop.mpr ((iteration a s holds).mono ?_)
    intro flow s' after
    cases flow with
    | again a' => exact ih _ (bound ▸ after.2) after.1 rfl
    | done b => exact after

/-- Partial correctness: whatever a loop returns, it left from an iteration that
    started in the invariant. -/
theorem Returns.loop_induct {body : α → Prog σ (Flow α β)} {Q : β → σ → Prop}
    (inv : α → σ → Prop)
    (iteration : ∀ a s, inv a s → ∀ flow s', (body a).Returns s flow s' → match flow with
      | .again a' => inv a' s'
      | .done b => Q b s')
    {a : α} {b : β} {s s' : σ} (holds : inv a s) (returned : (loop body a).Returns s b s') :
    Q b s' := by
  obtain ⟨fuel, returned⟩ := returned
  induction fuel generalizing a s with
  | zero => cases returned
  | succ fuel ih =>
    change loopRun body (fuel + 1) a s = _ at returned
    simp only [loopRun] at returned
    split at returned
    · next a' s₁ e => exact ih (iteration a s holds _ _ ⟨fuel, e⟩) returned
    · next b' s₁ e => cases returned; exact iteration a s holds _ _ ⟨fuel, e⟩
    · cases returned

/-- On its way from `a` in the state `s` the loop gets to an iteration from `b` in `t`. -/
inductive Visits (body : α → Prog σ (Flow α β)) : α → σ → α → σ → Prop where
  | here (a : α) (s : σ) : Visits body a s a s
  | again {a b c : α} {s t u : σ} (first : (body a).Returns s (.again b) t) (later : Visits body b t c u) :
      Visits body a s c u

/-- An invariant of the iterations holds wherever the loop gets to. -/
theorem Visits.invariant {body : α → Prog σ (Flow α β)} {a b : α} {s t : σ} (visits : Visits body a s b t)
    (inv : α → σ → Prop) (holds : inv a s)
    (kept : ∀ a s b t, inv a s → (body a).Returns s (.again b) t → inv b t) : inv b t := by
  induction visits with
  | here => exact holds
  | again first _ ih => exact ih (kept _ _ _ _ holds first)

/-! ## What every return satisfies -/

/-- Partial correctness: whatever the program returns, with the state it leaves, is in `Q`. -/
def Yields (p : Prog σ α) (s : σ) (Q : α → σ → Prop) : Prop := ∀ a s', p.Returns s a s' → Q a s'

theorem Yields.mono {p : Prog σ α} {s : σ} {Q R : α → σ → Prop} (yields : p.Yields s Q)
    (weaken : ∀ a s', Q a s' → R a s') : p.Yields s R :=
  fun a s' returned => weaken a s' (yields a s' returned)

/-- What is ensured is in particular true of every return. -/
theorem Ensures.yields {p : Prog σ α} {s : σ} {Q : α → σ → Prop} (ensured : p.Ensures s Q) :
    p.Yields s Q :=
  fun _ _ returned => ensured.of_returns returned

theorem Ensures.and_yields {p : Prog σ α} {s : σ} {Q R : α → σ → Prop} (ensured : p.Ensures s Q)
    (yields : p.Yields s R) : p.Ensures s fun a s' => Q a s' ∧ R a s' := by
  obtain ⟨a, s', returned, holds⟩ := ensured
  exact ⟨a, s', returned, holds, yields a s' returned⟩

theorem returns_step {f : σ → Option (α × σ)} {s s' : σ} {a : α} :
    (step f).Returns s a s' ↔ f s = some (a, s') := by
  constructor
  · intro returned
    have result := returns_iff_ensures.mp returned
    obtain ⟨b, t, e, rfl, rfl⟩ := ensures_step.mp result
    exact e
  · intro e
    exact ⟨0, by simp only [step, e]⟩

@[simp] theorem yields_step {f : σ → Option (α × σ)} {s : σ} {Q : α → σ → Prop} :
    (step f).Yields s Q ↔ ∀ a s', f s = some (a, s') → Q a s' := by
  simp only [Yields, returns_step]

@[simp] theorem yields_pure {a : α} {s : σ} {Q : α → σ → Prop} :
    (Pure.pure a : Prog σ α).Yields s Q ↔ Q a s := by
  apply yields_step.trans
  simp

@[simp] theorem yields_bind {p : Prog σ α} {f : α → Prog σ β} {s : σ} {Q : β → σ → Prop} :
    (p >>= f).Yields s Q ↔ p.Yields s fun a s' => (f a).Yields s' Q := by
  constructor
  · intro yields a s' first b s'' second
    exact yields b s'' (returns_bind.mpr ⟨a, s', first, second⟩)
  · intro yields b s'' returned
    obtain ⟨a, s', first, second⟩ := returns_bind.mp returned
    exact yields a s' first b s'' second

@[simp] theorem yields_read {f : σ → α} {s : σ} {Q : α → σ → Prop} :
    (read f).Yields s Q ↔ Q (f s) s := by
  simp [read]

@[simp] theorem yields_update {f : σ → σ} {s : σ} {Q : Unit → σ → Prop} :
    (update f).Yields s Q ↔ Q () (f s) := by
  simp [update, Unique.forall_iff]

@[simp] theorem yields_fault {s : σ} {Q : α → σ → Prop} : (fault : Prog σ α).Yields s Q := by
  simp [fault]

@[simp] theorem yields_require {a : Option α} {s : σ} {Q : α → σ → Prop} :
    (require a).Yields s Q ↔ ∀ v, a = some v → Q v s := by
  cases a <;> simp [require]

@[simp] theorem yields_ite {c : Prop} [Decidable c] {p q : Prog σ α} {s : σ} {Q : α → σ → Prop} :
    (if c then p else q).Yields s Q ↔ (c → p.Yields s Q) ∧ (¬ c → q.Yields s Q) := by
  by_cases holds : c
  · simp [holds]
  · simp [holds]

@[simp] theorem yields_when {c : Prop} [Decidable c] {p : Prog σ Unit} {s : σ}
    {Q : Unit → σ → Prop} : (when c p).Yields s Q ↔ (c → p.Yields s Q) ∧ (¬ c → Q () s) := by
  by_cases holds : c
  · simp [when, holds]
  · simp [when, holds, Unique.forall_iff]

theorem yields_loop {body : α → Prog σ (Flow α β)} {Q : β → σ → Prop} (inv : α → σ → Prop)
    (iteration : ∀ a s, inv a s → (body a).Yields s fun flow s' => match flow with
      | .again a' => inv a' s'
      | .done b => Q b s')
    {a : α} {s : σ} (holds : inv a s) : (loop body a).Yields s Q :=
  fun _ _ returned => Returns.loop_induct inv iteration holds returned

/-! ## Programs seen through a view of the state -/

/-- Whatever the program returns, with what the view shows of the state it leaves, is in `Q`. -/
def YieldsOn (view : σ → τ) (p : Prog σ α) (t : τ) (Q : α → τ → Prop) : Prop :=
  ∀ s, view s = t → p.Yields s fun a s' => Q a (view s')

namespace YieldsOn

variable {view : σ → τ} {p q : Prog σ α} {f : α → Prog σ β} {t : τ} {Q R : α → τ → Prop}

theorem mono (yields : p.YieldsOn view t Q) (weaken : ∀ a t', Q a t' → R a t') :
    p.YieldsOn view t R :=
  fun s shown => (yields s shown).mono fun a s' => weaken a (view s')

theorem pure {a : α} (holds : Q a t) : (Pure.pure a : Prog σ α).YieldsOn view t Q := by
  intro s shown
  rw [yields_pure, shown]
  exact holds

theorem bind {Q : β → τ → Prop} (first : p.YieldsOn view t fun a t' => (f a).YieldsOn view t' Q) :
    (p >>= f).YieldsOn view t Q := by
  intro s shown
  rw [yields_bind]
  exact (first s shown).mono fun a s' second => second s' rfl

theorem require {a : Option α} (holds : ∀ v, a = some v → Q v t) :
    (Prog.require a).YieldsOn view t Q := by
  intro s shown
  rw [yields_require, shown]
  exact holds

theorem ite {c : Prop} [Decidable c] (yes : c → p.YieldsOn view t Q) (no : ¬ c → q.YieldsOn view t Q) :
    (if c then p else q).YieldsOn view t Q := by
  intro s shown
  rw [yields_ite]
  exact ⟨fun holds => yes holds s shown, fun fails => no fails s shown⟩

theorem when {c : Prop} [Decidable c] {p : Prog σ Unit} {Q : Unit → τ → Prop}
    (yes : c → p.YieldsOn view t Q) (no : ¬ c → Q () t) : (Prog.when c p).YieldsOn view t Q :=
  .ite yes fun fails => .pure (no fails)

end YieldsOn

/-! ## What no run of a program changes -/

/-- Whatever the program returns from `P`, it leaves `P` true. -/
def Maintains (p : Prog σ α) (P : σ → Prop) : Prop := ∀ s a s', P s → p.Returns s a s' → P s'

namespace Maintains

variable {P : σ → Prop} {p q : Prog σ α} {f : α → Prog σ β}

theorem step {f : σ → Option (α × σ)} (kept : ∀ s a s', P s → f s = some (a, s') → P s') :
    (Prog.step f).Maintains P := by
  intro s a s' holds returned
  have result := returns_iff_ensures.mp returned
  obtain ⟨b, t, e, rfl, rfl⟩ := ensures_step.mp result
  exact kept s b t holds e

theorem pure {a : α} : (Pure.pure a : Prog σ α).Maintains P :=
  step fun _ _ _ holds e => by cases e; exact holds

theorem read {f : σ → α} : (Prog.read f).Maintains P :=
  step fun _ _ _ holds e => by cases e; exact holds

theorem require {a : Option α} : (Prog.require a : Prog σ α).Maintains P := by
  apply step
  intro s b s' holds e
  cases a with
  | none => cases e
  | some a => cases e; exact holds

theorem update {f : σ → σ} (kept : ∀ s, P s → P (f s)) : (Prog.update f).Maintains P :=
  step fun s _ _ holds e => by cases e; exact kept s holds

theorem bind (first : p.Maintains P) (second : ∀ a, (f a).Maintains P) : (p >>= f).Maintains P := by
  intro s b s'' holds returned
  obtain ⟨a, s', returned₁, returned₂⟩ := returns_bind.mp returned
  exact second a s' b s'' (first s a s' holds returned₁) returned₂

theorem ite {c : Prop} [Decidable c] (yes : p.Maintains P) (no : q.Maintains P) :
    (if c then p else q).Maintains P := by
  split
  · exact yes
  · exact no

theorem loop {body : α → Prog σ (Flow α β)} (kept : ∀ a, (body a).Maintains P) (a : α) :
    (Prog.loop body a).Maintains P := by
  intro s b s' holds returned
  refine Returns.loop_induct (Q := fun _ s => P s) (fun _ s => P s) (fun a s holds flow s' step => ?_)
    holds returned
  have after := kept a s flow s' holds step
  cases flow with
  | again => exact after
  | done => exact after

/-- What follows need only agree where the program may end. -/
theorem ensures_congr {s : σ} {Q R : α → σ → Prop} (kept : p.Maintains P) (start : P s)
    (same : ∀ a s', P s' → (Q a s' ↔ R a s')) : p.Ensures s Q ↔ p.Ensures s R := by
  constructor
  · rintro ⟨a, s', returned, holds⟩
    exact ⟨a, s', returned, (same a s' (kept s a s' start returned)).mp holds⟩
  · rintro ⟨a, s', returned, holds⟩
    exact ⟨a, s', returned, (same a s' (kept s a s' start returned)).mpr holds⟩

end Maintains

/-! ## Programs that always return -/

/-- From `P` the program returns, and it leaves `P` true. -/
def Completes (p : Prog σ α) (P : σ → Prop) : Prop := ∀ s, P s → p.Ensures s fun _ s' => P s'

namespace Completes

variable {P : σ → Prop} {p q : Prog σ α} {f : α → Prog σ β}

theorem pure {a : α} : (Pure.pure a : Prog σ α).Completes P := fun _ holds => ensures_pure.mpr holds

theorem bind (first : p.Completes P) (second : ∀ a, (f a).Completes P) : (p >>= f).Completes P :=
  fun s holds => ensures_bind.mpr ((first s holds).mono fun a s' => second a s')

theorem ite {c : Prop} [Decidable c] (yes : c → p.Completes P) (no : ¬ c → q.Completes P) :
    (if c then p else q).Completes P := by
  by_cases holds : c
  · rw [if_pos holds]
    exact yes holds
  · rw [if_neg holds]
    exact no holds

theorem when {c : Prop} [Decidable c] {p : Prog σ Unit} (yes : c → p.Completes P) :
    (Prog.when c p).Completes P :=
  .ite yes fun _ _ holds => ensures_step.mpr ⟨(), _, rfl, holds⟩

end Completes

/-! ## Programs that never fault -/

/-- No amount of fuel makes the program run into undefined behaviour; it may run forever. -/
def Safe (p : Prog σ α) (s : σ) : Prop := ∀ fuel, p.run fuel s ≠ .error .fault

theorem Ensures.safe {p : Prog σ α} {s : σ} {Q : α → σ → Prop} (ensured : p.Ensures s Q) : p.Safe s := by
  obtain ⟨a, s', returned, -⟩ := ensured
  exact fun fuel faults => not_returns_of_fault faults returned

namespace Safe

variable {p : Prog σ α} {f : α → Prog σ β} {s : σ}

theorem bind (first : p.Safe s) (second : ∀ a s', p.Returns s a s' → (f a).Safe s') : (p >>= f).Safe s := by
  intro fuel faults
  change (p.bind f).run fuel s = _ at faults
  simp only [Prog.bind] at faults
  split at faults
  · next a s' returned => exact second a s' ⟨fuel, returned⟩ fuel faults
  · next stop stopped =>
    cases faults
    exact first fuel stopped

/-- What comes first always returns. -/
theorem after (first : p.Ensures s fun a s' => (f a).Safe s') : (p >>= f).Safe s :=
  bind first.safe fun _ _ returned => first.of_returns returned

/-- Every iteration returns and keeps the invariant, so the loop ends or runs forever. -/
theorem loop {body : α → Prog σ (Flow α β)} (inv : α → σ → Prop)
    (iteration : ∀ a s, inv a s → (body a).Ensures s fun flow s' => match flow with
      | .again a' => inv a' s'
      | .done _ => True)
    {a : α} (holds : inv a s) : (Prog.loop body a).Safe s := by
  intro fuel
  induction fuel generalizing a s with
  | zero => nofun
  | succ fuel ih =>
    intro faults
    change loopRun body (fuel + 1) a s = _ at faults
    simp only [loopRun] at faults
    split at faults
    · next a' s' returned => exact ih ((iteration a s holds).of_returns ⟨fuel, returned⟩) faults
    · cases faults
    · next stop stopped =>
      cases faults
      exact (iteration a s holds).safe fuel stopped

end Safe

/-! ## Programs that return whatever another one returns -/

/-- Whatever `p` returns, `q` returns as well. -/
def Below (p q : Prog σ α) : Prop := ∀ s a s', p.Returns s a s' → q.Returns s a s'

namespace Below

variable {p q : Prog σ α} {f g : α → Prog σ β}

theorem refl (p : Prog σ α) : p.Below p := fun _ _ _ returned => returned

theorem bind (first : p.Below q) (second : ∀ a, (f a).Below (g a)) : (p >>= f).Below (q >>= g) := by
  intro s b s'' returned
  obtain ⟨a, s', returned₁, returned₂⟩ := returns_bind.mp returned
  exact returns_bind.mpr ⟨a, s', first s a s' returned₁, second a s' b s'' returned₂⟩

theorem ite {c : Prop} [Decidable c] {p' q' : Prog σ α} (yes : p.Below q) (no : p'.Below q') :
    (if c then p else p').Below (if c then q else q') := by
  split
  · exact yes
  · exact no

theorem when {c : Prop} [Decidable c] {p q : Prog σ Unit} (below : p.Below q) :
    (Prog.when c p).Below (Prog.when c q) :=
  .ite below (.refl _)

theorem fault : (Prog.fault : Prog σ α).Below q := by
  intro s a s' returned
  have result := returned.ensures (Q := fun _ _ => True) trivial
  exact (ensures_fault.mp result).elim

end Below

/-! ## Programs that compute a partial function -/

/-- No amount of fuel makes the program return: it faults or runs forever. -/
def NoReturn (p : Prog σ α) (s : σ) : Prop := ∀ a s', ¬ p.Returns s a s'

/-- The program returns exactly when the partial result `r` is there, and then `Post`
    relates what it returns and the state it leaves to the result. -/
def Realizes {γ : Type} (p : Prog σ α) (s : σ) (r : Option γ) (Post : α → σ → γ → Prop) : Prop :=
  match r with
  | some c => p.Ensures s fun a s' => Post a s' c
  | none => p.NoReturn s

theorem noReturn_iff {p : Prog σ α} {s : σ} : p.NoReturn s ↔ ¬ p.Ensures s fun _ _ => True := by
  constructor
  · intro none ensured
    obtain ⟨a, s', returned, -⟩ := ensured
    exact none a s' returned
  · intro none a s' returned
    exact none ⟨a, s', returned, trivial⟩

namespace Realizes

variable {γ δ : Type} {p : Prog σ α} {f : α → Prog σ β} {s s' : σ} {a : α} {r : Option γ}

theorem mono {Post Post' : α → σ → γ → Prop} (realized : p.Realizes s r Post)
    (weaken : ∀ a s' c, r = some c → Post a s' c → Post' a s' c) : p.Realizes s r Post' := by
  cases r with
  | none => exact realized
  | some c => exact Ensures.mono realized fun a s' post => weaken a s' c rfl post

theorem of_returns {Post : α → σ → γ → Prop} (realized : p.Realizes s r Post)
    (returned : p.Returns s a s') : ∃ c, r = some c ∧ Post a s' c := by
  cases r with
  | none => exact absurd returned (realized a s')
  | some c =>
    have ensured : p.Ensures s fun a s' => Post a s' c := realized
    exact ⟨c, rfl, ensured.of_returns returned⟩

theorem returns {Post : α → σ → γ → Prop} {c : γ} (realized : p.Realizes s r Post)
    (result : r = some c) : ∃ a s', p.Returns s a s' ∧ Post a s' c := by
  subst result
  exact realized

/-- What comes first always returns. -/
theorem after {Post : β → σ → γ → Prop}
    (first : p.Ensures s fun a s' => (f a).Realizes s' r Post) : (p >>= f).Realizes s r Post := by
  cases r with
  | some c => exact ensures_bind.mpr first
  | none =>
    intro b s'' returned
    obtain ⟨a, s', returned, rest⟩ := returns_bind.mp returned
    exact first.of_returns returned b s'' rest

theorem bind {Mid : α → σ → γ → Prop} {g : γ → Option δ} {Post : β → σ → δ → Prop}
    (first : p.Realizes s r Mid)
    (second : ∀ a s' c, r = some c → Mid a s' c → (f a).Realizes s' (g c) Post) :
    (p >>= f).Realizes s (r.bind g) Post := by
  cases r with
  | some c => exact after (Ensures.mono first fun a s' mid => second a s' c rfl mid)
  | none =>
    intro b s'' returned
    obtain ⟨a, s', returned, -⟩ := returns_bind.mp returned
    exact first a s' returned

/-- The result may be processed further without running anything. -/
theorem process {Mid : α → σ → γ → Prop} {g : γ → Option δ} {Post : α → σ → δ → Prop}
    (realized : p.Realizes s r Mid)
    (processed : ∀ a s' c, r = some c → Mid a s' c → ∃ e, g c = some e ∧ Post a s' e) :
    p.Realizes s (r.bind g) Post := by
  cases r with
  | none => exact realized
  | some c =>
    obtain ⟨a, s', returned, mid⟩ := realized
    obtain ⟨e, result, post⟩ := processed a s' c rfl mid
    rw [Option.bind_some, result]
    exact ⟨a, s', returned, post⟩

/-- The first iteration of a loop, and whatever follows it. -/
theorem loop {γ δ : Type} {body : α → Prog σ (Flow α β)} {r : Option γ} {g : γ → Option δ}
    {M : α → σ → γ → Prop} {Post : β → σ → δ → Prop}
    (first : (body a).Realizes s r fun flow s' c => ∃ b, flow = .again b ∧ M b s' c)
    (later : ∀ b s' c, r = some c → M b s' c → (Prog.loop body b).Realizes s' (g c) Post) :
    (Prog.loop body a).Realizes s (r.bind g) Post := by
  cases r with
  | none =>
    intro b s'' returned
    obtain ⟨flow, s', returned, -⟩ := returns_loop.mp returned
    exact first flow s' returned
  | some c =>
    obtain ⟨_, s₁, returned₁, b, rfl, mid⟩ := first
    have rest := later b s₁ c rfl mid
    rw [Option.bind_some]
    cases result : g c with
    | none =>
      rw [result] at rest
      intro d s'' returned
      obtain ⟨flow, s', returned, after⟩ := returns_loop.mp returned
      obtain ⟨rfl, rfl⟩ := returned.unique returned₁
      exact rest d s'' after
    | some e =>
      rw [result] at rest
      exact ensures_loop.mpr ⟨_, s₁, returned₁, rest⟩

/-- Nothing runs behind a program that does not return. -/
theorem stuck {Post : β → σ → γ → Prop} (first : p.NoReturn s) : (p >>= f).Realizes s none Post := by
  intro b s'' returned
  obtain ⟨a, s', returned, -⟩ := returns_bind.mp returned
  exact first a s' returned

end Realizes

end Prog

/-! ## Programs on a part of the state -/

/-- A part `τ` of the state `σ`. -/
structure Lens (σ τ : Type) where
  get : σ → τ
  set : τ → σ → σ
  get_set : ∀ t s, get (set t s) = t
  set_set : ∀ t t' s, set t (set t' s) = set t s
  set_get : ∀ s, set (get s) s = s

namespace Prog

variable {σ τ α : Type}

/-- Runs a program of the part on the whole state. -/
def zoom (part : Lens σ τ) (p : Prog τ α) : Prog σ α where
  run fuel s := match p.run fuel (part.get s) with
    | .ok (a, t) => .ok (a, part.set t s)
    | .error stop => .error stop
  stable := by
    intro fuel more s le finished
    cases result : p.run fuel (part.get s) with
    | error stop =>
      rw [result] at finished
      rw [p.stable le (by rw [result]; rintro ⟨⟩; exact finished rfl), result]
    | ok pair => rw [p.stable le (by rw [result]; simp), result]

@[simp] theorem ensures_zoom {part : Lens σ τ} {p : Prog τ α} {s : σ} {Q : α → σ → Prop} :
    (zoom part p).Ensures s Q ↔ p.Ensures (part.get s) fun a t => Q a (part.set t s) := by
  constructor
  · rintro ⟨a, s', ⟨fuel, returned⟩, holds⟩
    simp only [zoom] at returned
    split at returned
    · next b t e => cases returned; exact ⟨a, t, ⟨fuel, e⟩, holds⟩
    · cases returned
  · rintro ⟨a, t, ⟨fuel, returned⟩, holds⟩
    exact ⟨a, _, ⟨fuel, by simp only [zoom, returned]⟩, holds⟩

@[simp] theorem yields_zoom {part : Lens σ τ} {p : Prog τ α} {s : σ} {Q : α → σ → Prop} :
    (zoom part p).Yields s Q ↔ p.Yields (part.get s) fun a t => Q a (part.set t s) := by
  constructor
  · rintro yields a t ⟨fuel, returned⟩
    exact yields a _ ⟨fuel, by simp only [zoom, returned]⟩
  · rintro yields a s' ⟨fuel, returned⟩
    simp only [zoom] at returned
    split at returned
    · next b t e => cases returned; exact yields a t ⟨fuel, e⟩
    · cases returned

/-- A program on a part changes nothing else. -/
theorem Maintains.zoom {part : Lens σ τ} {p : Prog τ α} {P : σ → Prop} {Q : τ → Prop}
    (inner : p.Maintains Q) (get : ∀ s, P s → Q (part.get s)) (set : ∀ s t, P s → Q t → P (part.set t s)) :
    (Prog.zoom part p).Maintains P := by
  intro s a s' holds returned
  have result := returns_iff_ensures.mp returned
  obtain ⟨b, t, returned', -, same⟩ := ensures_zoom.mp result
  subst same
  exact set s t holds (inner (part.get s) b t (get s holds) returned')

theorem Below.zoom {part : Lens σ τ} {p q : Prog τ α} (below : p.Below q) :
    (Prog.zoom part p).Below (Prog.zoom part q) := by
  intro s a s' returned
  have result := returns_iff_ensures.mp returned
  obtain ⟨b, t, inner, rfl, rfl⟩ := ensures_zoom.mp result
  have whole : (Prog.zoom part q).Ensures s fun c u => c = b ∧ u = part.set t s :=
    ensures_zoom.mpr ((below _ _ _ inner).ensures ⟨rfl, rfl⟩)
  obtain ⟨c, u, returned', rfl, rfl⟩ := whole
  exact returned'

theorem Safe.zoom {part : Lens σ τ} {p : Prog τ α} {s : σ} (inner : p.Safe (part.get s)) :
    (Prog.zoom part p).Safe s := by
  intro fuel faults
  simp only [Prog.zoom] at faults
  split at faults
  · cases faults
  · next stop stopped =>
    cases faults
    exact inner fuel stopped

theorem Realizes.zoom {γ : Type} (part : Lens σ τ) {p : Prog τ α} {s : σ} {r : Option γ}
    {Post : α → τ → γ → Prop} (realized : p.Realizes (part.get s) r Post) :
    (Prog.zoom part p).Realizes s r fun a s' c => ∃ t, s' = part.set t s ∧ Post a t c := by
  cases r with
  | some c =>
    refine ensures_zoom.mpr (Ensures.mono realized fun a t post => ⟨t, rfl, post⟩)
  | none =>
    rw [Realizes, noReturn_iff, ensures_zoom, ← noReturn_iff]
    exact realized

end Prog

end SysprogLabs
