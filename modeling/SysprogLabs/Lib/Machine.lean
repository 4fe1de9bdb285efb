import Mathlib.Data.List.Basic

/-! # Runs of labelled transition systems

A system is its step relation `step : σ → ℓ → σ → Prop`; a label is what an observer
sees of a step.  `Run` is a finite run with the labels it shows.

* `Run.invariant` proves a property of every state of a run from one step.
* `Run.simulate` carries a run over to another system, label by label.

`Trace` is an infinite run; `eventually_of_rank` proves that it gets somewhere.
-/

namespace SysprogLabs

variable {σ τ ℓ : Type*}

inductive Run (step : σ → ℓ → σ → Prop) : σ → List ℓ → σ → Prop where
  | nil (s : σ) : Run step s [] s
  | cons {s s' s'' : σ} {l : ℓ} {ls : List ℓ} :
      step s l s' → Run step s' ls s'' → Run step s (l :: ls) s''

/-- The states some run leads to. -/
def Reachable (step : σ → ℓ → σ → Prop) (init s : σ) : Prop := ∃ ls, Run step init ls s

namespace Run

variable {step step' : σ → ℓ → σ → Prop} {s s' s'' : σ} {l : ℓ} {ls ls' : List ℓ}

theorem single (one : step s l s') : Run step s [l] s' := .cons one (.nil s')

theorem append (first : Run step s ls s') (second : Run step s' ls' s'') :
    Run step s (ls ++ ls') s'' := by
  induction first with
  | nil => exact second
  | cons one _ ih => exact .cons one (ih second)

/-- The last step of a run. -/
theorem last (run : Run step s ls s'') (last : ls.getLast? = some l) :
    ∃ s', Run step s ls.dropLast s' ∧ step s' l s'' := by
  induction run with
  | nil => cases last
  | @cons s s' s'' k ls one rest ih =>
    cases ls with
    | nil =>
      cases last
      cases rest
      exact ⟨s, .nil s, one⟩
    | cons k' ls =>
      obtain ⟨s₁, before, final⟩ := ih (by simpa using last)
      exact ⟨s₁, .cons one before, final⟩

/-- Where a run is after the first labels. -/
theorem split (run : Run step s (ls ++ ls') s'') : ∃ s', Run step s ls s' ∧ Run step s' ls' s'' := by
  induction ls generalizing s with
  | nil => exact ⟨s, .nil s, run⟩
  | cons l ls ih =>
    cases run with
    | cons one rest =>
      obtain ⟨s', first, second⟩ := ih rest
      exact ⟨s', .cons one first, second⟩

theorem mono_of_labels (run : Run step s ls s')
    (weaken : ∀ s l s', l ∈ ls → step s l s' → step' s l s') : Run step' s ls s' := by
  induction run with
  | nil s => exact .nil s
  | cons one _ ih =>
    apply Run.cons
    · exact weaken _ _ _ List.mem_cons_self one
    · exact ih fun s l s' mem => weaken s l s' (List.mem_cons_of_mem _ mem)

theorem mono (run : Run step s ls s') (weaken : ∀ s l s', step s l s' → step' s l s') :
    Run step' s ls s' :=
  run.mono_of_labels fun s l s' _ => weaken s l s'

/-- What holds at the start and is preserved by every step holds at the end. -/
theorem invariant {Inv : σ → Prop} (run : Run step s ls s') (holds : Inv s)
    (preserved : ∀ s l s', Inv s → step s l s' → Inv s') : Inv s' := by
  induction run with
  | nil => exact holds
  | cons one _ ih => exact ih (preserved _ _ _ holds one)

/-- The steps of a run whose states keep an invariant may be strengthened by it. -/
theorem strengthen {I : σ → Prop} (run : Run step s ls s') (holds : I s)
    (each : ∀ s l s', I s → step s l s' → step' s l s' ∧ I s') : Run step' s ls s' := by
  induction run with
  | nil s => exact .nil s
  | cons one _ ih =>
    obtain ⟨one', holds'⟩ := each _ _ _ holds one
    exact .cons one' (ih holds')

/-- Every step of the run has a counterpart with the same label. -/
theorem simulate {step₂ : τ → ℓ → τ → Prop} {R : σ → τ → Prop} {t : τ} (run : Run step s ls s')
    (related : R s t)
    (match_step : ∀ s t l s', R s t → step s l s' → ∃ t', step₂ t l t' ∧ R s' t') :
    ∃ t', Run step₂ t ls t' ∧ R s' t' := by
  induction run generalizing t with
  | nil => exact ⟨t, .nil t, related⟩
  | cons one _ ih =>
    obtain ⟨t₁, one', related'⟩ := match_step _ _ _ _ related one
    obtain ⟨t', rest, related''⟩ := ih related'
    exact ⟨t', .cons one' rest, related''⟩

end Run

theorem Reachable.invariant {step : σ → ℓ → σ → Prop} {Inv : σ → Prop} {init s : σ}
    (reachable : Reachable step init s) (holds : Inv init)
    (preserved : ∀ s l s', Inv s → step s l s' → Inv s') : Inv s := by
  obtain ⟨ls, run⟩ := reachable
  exact run.invariant holds preserved

theorem Reachable.step {step : σ → ℓ → σ → Prop} {init s s' : σ} {l : ℓ} (reachable : Reachable step init s)
    (one : step s l s') : Reachable step init s' := by
  obtain ⟨ls, run⟩ := reachable
  exact ⟨ls ++ [l], run.append (.single one)⟩

theorem Reachable.mono {step step' : σ → ℓ → σ → Prop} {init s : σ} (reachable : Reachable step init s)
    (weaken : ∀ s l s', step s l s' → step' s l s') : Reachable step' init s := by
  obtain ⟨ls, run⟩ := reachable
  exact ⟨ls, run.mono weaken⟩

/-- The steps that preserve an invariant may be taken from reachable states only. -/
theorem Reachable.induct {step : σ → ℓ → σ → Prop} {Inv : σ → Prop} {init s : σ} (reachable : Reachable step init s)
    (holds : Inv init) (preserved : ∀ s l s', Reachable step init s → Inv s → step s l s' → Inv s') : Inv s := by
  have both : Reachable step init s ∧ Inv s := by
    apply reachable.invariant
    · exact ⟨⟨[], .nil init⟩, holds⟩
    · intro s l s' both one
      exact ⟨both.1.step one, preserved s l s' both.1 both.2 one⟩
  exact both.2

/-! ## Infinite runs -/

/-- An infinite run; where there is no label, nobody makes a step. -/
structure Trace (step : σ → ℓ → σ → Prop) (state : Nat → σ) (label : Nat → Option ℓ) : Prop where
  moves : ∀ n l, label n = some l → step (state n) l (state (n + 1))
  rests : ∀ n, label n = none → state (n + 1) = state n

/-- What other steps preserve still holds in front of the next step of a kind. -/
theorem Trace.next {step : σ → ℓ → σ → Prop} {state : Nat → σ} {label : Nat → Option ℓ} {P : σ → Prop} {E : ℓ → Prop}
    {n : Nat} (trace : Trace step state label) (holds : P (state n))
    (kept : ∀ s l s', P s → step s l s' → ¬ E l → P s') (occurs : ∃ m ≥ n, ∃ l, label m = some l ∧ E l) :
    ∃ m ≥ n, ∃ l, label m = some l ∧ E l ∧ P (state m) := by
  obtain ⟨m, later, l, at_m, kind⟩ := occurs
  obtain ⟨k, rfl⟩ := Nat.exists_eq_add_of_le later
  induction k generalizing n with
  | zero => exact ⟨n, later, l, at_m, kind, holds⟩
  | succ k ih =>
    have go_on : P (state (n + 1)) → ∃ m ≥ n, ∃ l, label m = some l ∧ E l ∧ P (state m) := by
      intro holds
      have at_m : label (n + 1 + k) = some l := by rw [← at_m, Nat.add_assoc, Nat.add_comm 1]
      obtain ⟨m, later, found⟩ := ih holds (Nat.le_add_right _ _) at_m
      exact ⟨m, by omega, found⟩
    cases at_n : label n with
    | none =>
      apply go_on
      rw [trace.rests n at_n]
      exact holds
    | some l' =>
      by_cases here : E l'
      · exact ⟨n, Nat.le_refl n, l', at_n, here, holds⟩
      · exact go_on (kept _ _ _ holds (trace.moves n l' at_n) here)

/-- What every step of the trace preserves holds from then on. -/
theorem Trace.always {step : σ → ℓ → σ → Prop} {state : Nat → σ} {label : Nat → Option ℓ} {P : σ → Prop} {n : Nat}
    (trace : Trace step state label) (holds : P (state n))
    (kept : ∀ m ≥ n, ∀ l, label m = some l → step (state m) l (state (m + 1)) → P (state m) → P (state (m + 1))) :
    ∀ m ≥ n, P (state m) := by
  intro m later
  obtain ⟨k, rfl⟩ := Nat.exists_eq_add_of_le later
  clear later
  induction k with
  | zero => exact holds
  | succ k ih =>
    rw [← Nat.add_assoc]
    cases at_m : label (n + k) with
    | none =>
      rw [trace.rests (n + k) at_m]
      exact ih
    | some l => exact kept (n + k) (Nat.le_add_right n k) l at_m (trace.moves (n + k) l at_m) ih

/-- A finite run, behind which nobody makes a step any more. -/
theorem Run.trace {step : σ → ℓ → σ → Prop} {s s' : σ} {ls : List ℓ} (run : Run step s ls s') :
    ∃ state : Nat → σ, state 0 = s ∧ Trace step state (fun n => ls[n]?) ∧ ∀ n ≥ ls.length, state n = s' := by
  induction run with
  | nil s =>
    refine ⟨fun _ => s, rfl, ⟨?_, fun _ _ => rfl⟩, fun _ _ => rfl⟩
    intro n l at_n
    simp at at_n
  | @cons s s₁ s' l ls one rest ih =>
    obtain ⟨state, start, trace, ends⟩ := ih
    refine ⟨fun n => n.casesOn s state, rfl, ⟨?_, ?_⟩, ?_⟩
    · intro n k at_n
      cases n with
      | zero =>
        obtain rfl : l = k := by simpa using at_n
        rw [← start] at one
        exact one
      | succ n => exact trace.moves n k (by simpa using at_n)
    · intro n at_n
      cases n with
      | zero => simp at at_n
      | succ n => exact trace.rests n (by simpa using at_n)
    · intro n later
      cases n with
      | zero => simp at later
      | succ n => exact ends n (by simpa using later)

theorem Trace.mono {step step' : σ → ℓ → σ → Prop} {state : Nat → σ} {label : Nat → Option ℓ}
    (trace : Trace step state label) (weaken : ∀ s l s', step s l s' → step' s l s') : Trace step' state label :=
  ⟨fun n l at_n => weaken _ _ _ (trace.moves n l at_n), trace.rests⟩

/-- A rank that falls again and again until the goal is reached. -/
theorem eventually_of_rank {state : Nat → σ} {P : σ → Prop} (rank : σ → Nat) {Goal : Nat → Prop} {n : Nat}
    (holds : P (state n))
    (falls : ∀ n, P (state n) → ∃ m ≥ n, Goal m ∨ (P (state m) ∧ rank (state m) < rank (state n))) :
    ∃ m ≥ n, Goal m := by
  induction measure : rank (state n) using Nat.strongRecOn generalizing n with
  | ind r ih =>
    obtain ⟨m, later, goal | ⟨holds', less⟩⟩ := falls n holds
    · exact ⟨m, later, goal⟩
    · obtain ⟨m', later', goal⟩ := ih (rank (state m)) (measure ▸ less) holds' rfl
      exact ⟨m', Nat.le_trans later later', goal⟩

end SysprogLabs
