import SysprogLabs.Lib.Coroutine
import Mathlib.Algebra.BigOperators.Group.Finset.Piecewise

/-! # Threads that share a state

Several threads run `Code` on one state.  Every action of a thread is one step, and between two of
them the others may act.  A part of the state, its `storage`, each thread has for itself.

What a thread knows across the steps of the others is what it has in its hands: resources of a
commutative monoid, of which nobody else has a say.  A `Protocol` relates the resources of all
threads together to the state, and `Code.Upholds` says that code which starts with certain resources in its
hands never runs into undefined behaviour, keeps the relation with each of its actions, and ends
with a result and resources in `Q`.  There is one rule for each construct.  `Threads.Obeys.act` puts the threads together.
-/

namespace SysprogLabs

open scoped BigOperators

variable {σ ρ γ ι α β : Type}

/-- What the threads agree on. -/
structure Protocol (σ ρ γ : Type) [AddCommMonoid γ] where
  /-- The part of the state that each thread has for itself. -/
  storage : Lens σ ρ
  Inv : γ → σ → Prop
  /-- What somebody else vouches for in every state. -/
  Granted : σ → Prop
  inv_storage : ∀ {all s} l, Inv all s → Inv all (storage.set l s)

variable [AddCommMonoid γ] {P : Protocol σ ρ γ} {Q R : α → ρ → γ → Prop} {hands others : γ} {l : ρ} {s s' : σ}

namespace Code

/-- The code keeps to the protocol when it starts with `hands`. -/
def Upholds (P : Protocol σ ρ γ) (Q : α → ρ → γ → Prop) : γ → ρ → Code σ α → Prop
  | hands, l, done a => Q a l hands
  | hands, l, act p rest => ∀ others s, P.Inv (hands + others) s → P.storage.get s = l →
      p.Ensures s fun b s' => P.Granted s' →
        ∃ hands', P.Inv (hands' + others) s' ∧ (rest b).Upholds P Q hands' (P.storage.get s')
  | hands, l, yield rest => rest.Upholds P Q hands l

namespace Upholds

theorem pure {a : α} (holds : Q a l hands) : (Pure.pure a : Code σ α).Upholds P Q hands l := holds

/-- What the code has in its hands when it ends is what the rest starts with. -/
theorem bind {code : Code σ β} {f : β → Code σ α}
    (first : code.Upholds P (fun b l hands => (f b).Upholds P Q hands l) hands l) :
    (code >>= f).Upholds P Q hands l := by
  induction code generalizing hands l with
  | done b => exact first
  | act p rest ih =>
    intro others s inv at_l
    refine (first others s inv at_l).mono fun b s' after granted => ?_
    obtain ⟨hands', inv', upholds⟩ := after granted
    exact ⟨hands', inv', ih b upholds⟩
  | yield rest ih => exact ih first

theorem mono {code : Code σ α} (upholds : code.Upholds P Q hands l) (weaken : ∀ a l hands, Q a l hands → R a l hands) :
    code.Upholds P R hands l := by
  induction code generalizing hands l with
  | done a => exact weaken a l hands upholds
  | act p rest ih =>
    intro others s inv at_l
    refine (upholds others s inv at_l).mono fun b s' after granted => ?_
    obtain ⟨hands', inv', upholds'⟩ := after granted
    exact ⟨hands', inv', ih b upholds'⟩
  | yield rest ih => exact ih upholds

/-- One action, and what it leaves in the hands. -/
theorem lift {p : Prog σ α} (ensured : ∀ others s, P.Inv (hands + others) s → P.storage.get s = l →
      p.Ensures s fun a s' => P.Granted s' → ∃ hands', P.Inv (hands' + others) s' ∧ Q a (P.storage.get s') hands') :
    (Code.lift p).Upholds P Q hands l := ensured

theorem ite {c : Prop} [Decidable c] {yes no : Code σ α} (holds : c → yes.Upholds P Q hands l)
    (fails : ¬ c → no.Upholds P Q hands l) : (if c then yes else no).Upholds P Q hands l := by
  split
  · next h => exact holds h
  · next h => exact fails h

end Upholds

end Code

/-! ## What no action undoes -/

section

variable {σ α β : Type} {I : σ → Prop} {code : Code σ α}

namespace Code

/-- No action of the code makes `I` false. -/
def Keeps (I : σ → Prop) : Code σ α → Prop
  | done _ => True
  | act p rest => p.Maintains I ∧ ∀ b, (rest b).Keeps I
  | yield rest => rest.Keeps I

namespace Keeps

theorem pure {a : α} : (Pure.pure a : Code σ α).Keeps I := trivial

theorem lift {p : Prog σ α} (kept : p.Maintains I) : (Code.lift p).Keeps I := ⟨kept, fun _ => trivial⟩

theorem bind {f : α → Code σ β} (first : code.Keeps I) (second : ∀ a, (f a).Keeps I) : (code >>= f).Keeps I := by
  induction code with
  | done a => exact second a
  | act p rest ih => exact ⟨first.1, fun b => ih b (first.2 b)⟩
  | yield rest ih => exact ih first

theorem ite {c : Prop} [Decidable c] {yes no : Code σ α} (holds : yes.Keeps I) (fails : no.Keeps I) :
    (if c then yes else no).Keeps I := by
  split
  · exact holds
  · exact fails

theorem straight (kept : code.Keeps I) : code.straight.Maintains I := by
  induction code with
  | done a => exact .pure
  | act p rest ih => exact kept.1.bind fun b => ih b (kept.2 b)
  | yield rest ih => exact ih kept

end Keeps

/-- The code only ends if one of its own actions makes `I` true. -/
def Wins (I : σ → Prop) : Code σ α → Prop
  | done _ => False
  | act p rest => ∀ s b s', p.Returns s b s' → (I s' → I s) → (rest b).Wins I
  | yield rest => rest.Wins I

theorem Wins.bind {f : α → Code σ β} (wins : code.Wins I) : (code >>= f).Wins I := by
  induction code with
  | done a => exact wins.elim
  | act p rest ih => exact fun s b s' returned decided => ih b (wins s b s' returned decided)
  | yield rest ih => exact ih wins

/-- What comes before does not matter. -/
theorem Wins.after {f : α → Code σ β} (wins : ∀ a, (f a).Wins I) : (code >>= f).Wins I := by
  induction code with
  | done a => exact wins a
  | act p rest ih => exact fun _ b _ _ _ => ih b
  | yield rest ih => exact ih

end Code

end

/-! ## A thread among others -/

structure Thread (σ ρ α : Type) where
  storage : ρ
  code : Code σ α

/-- One step of a thread, with its storage in place. -/
inductive Thread.Step (storage : Lens σ ρ) : Thread σ ρ α → σ → Thread σ ρ α → σ → Prop where
  | act {δ : Type} {p : Prog σ δ} {rest : δ → Code σ α} {l : ρ} {s s' : σ} {b : δ} :
      p.Returns (storage.set l s) b s' → Thread.Step storage ⟨l, .act p rest⟩ s ⟨storage.get s', rest b⟩ s'
  | yield {rest : Code σ α} {l : ρ} {s : σ} : Thread.Step storage ⟨l, .yield rest⟩ s ⟨l, rest⟩ s

def Thread.Upholds (t : Thread σ ρ α) (P : Protocol σ ρ γ) (Q : α → ρ → γ → Prop) (hands : γ) : Prop :=
  t.code.Upholds P Q hands t.storage

/-- The step is no undefined behaviour. -/
theorem Thread.Upholds.progress {t : Thread σ ρ α} (upholds : t.Upholds P Q hands) (inv : P.Inv (hands + others) s)
    (busy : ∀ a, t.code ≠ .done a) : ∃ t' s', t.Step P.storage s t' s' := by
  obtain ⟨l, code⟩ := t
  cases code with
  | done a => exact absurd rfl (busy a)
  | act p rest =>
    obtain ⟨b, s', returned, -⟩ := upholds others _ (P.inv_storage l inv) (P.storage.get_set l s)
    exact ⟨_, s', .act returned⟩
  | yield rest => exact ⟨_, s, .yield⟩

theorem Thread.Upholds.step {t t' : Thread σ ρ α} (upholds : t.Upholds P Q hands) (inv : P.Inv (hands + others) s)
    (step : t.Step P.storage s t' s') (granted : P.Granted s') :
    ∃ hands', P.Inv (hands' + others) s' ∧ t'.Upholds P Q hands' := by
  cases step with
  | act returned =>
    exact (upholds others _ (P.inv_storage _ inv) (P.storage.get_set _ s)).of_returns returned granted
  | yield => exact ⟨hands, inv, upholds⟩

/-! ## All threads together -/

structure Threads (σ ρ ι α : Type) where
  shared : σ
  thread : ι → Thread σ ρ α

variable [Fintype ι] [DecidableEq ι] {c : Threads σ ρ ι α} {i : ι} {pool : γ} {t' : Thread σ ρ α}

/-- Every thread keeps to the protocol with what it has in its hands; `pool` is in nobody's hands. -/
def Threads.Obeys (c : Threads σ ρ ι α) (P : Protocol σ ρ γ) (Q : α → ρ → γ → Prop) (pool : γ) : Prop :=
  ∃ hands : ι → γ, P.Inv (pool + ∑ j, hands j) c.shared ∧ ∀ j, (c.thread j).Upholds P Q (hands j)

namespace Threads.Obeys

theorem sum_split (hands : ι → γ) (i : ι) : ∑ j, hands j = hands i + ∑ j ∈ Finset.univ \ {i}, hands j := by
  rw [← Function.update_eq_self i hands, Finset.sum_update_of_mem (Finset.mem_univ i), Function.update_eq_self]

theorem sum_update (hands : ι → γ) (i : ι) (new : γ) :
    ∑ j, Function.update hands i new j = new + ∑ j ∈ Finset.univ \ {i}, hands j :=
  Finset.sum_update_of_mem (Finset.mem_univ i) hands new

/-- One thread and what it has in its hands may be replaced. -/
theorem replace {pool' : γ} (obeys : c.Obeys P Q pool) (change : ∀ hands others, (c.thread i).Upholds P Q hands →
      P.Inv (hands + (pool + others)) c.shared → ∃ hands', P.Inv (hands' + (pool' + others)) s' ∧ t'.Upholds P Q hands') :
    Threads.Obeys ⟨s', Function.update c.thread i t'⟩ P Q pool' := by
  obtain ⟨hands, inv, upholds⟩ := obeys
  rw [sum_split hands i, add_left_comm] at inv
  obtain ⟨hands', inv', upholds'⟩ := change (hands i) _ (upholds i) inv
  refine ⟨Function.update hands i hands', ?_, fun j => ?_⟩
  · rw [sum_update, add_left_comm]
    exact inv'
  · by_cases same : j = i
    · subst same
      simpa using upholds'
    · simpa [same] using upholds j

/-- A step of one thread. -/
theorem act (obeys : c.Obeys P Q pool) (step : (c.thread i).Step P.storage c.shared t' s') (granted : P.Granted s') :
    Threads.Obeys ⟨s', Function.update c.thread i t'⟩ P Q pool :=
  obeys.replace fun _ _ upholds inv => upholds.step inv step granted

/-- A thread that is not done can go on. -/
theorem progress (obeys : c.Obeys P Q pool) (busy : ∀ a, (c.thread i).code ≠ .done a) :
    ∃ t' s', (c.thread i).Step P.storage c.shared t' s' := by
  obtain ⟨hands, inv, upholds⟩ := obeys
  rw [sum_split hands i, add_left_comm] at inv
  exact (upholds i).progress inv busy

end Threads.Obeys

/-! ## A race -/

section

variable {σ ρ ι α : Type} {I : σ → Prop} {storage : Lens σ ρ} {t t' : Thread σ ρ α} {s s' : σ}

theorem Thread.Step.keeps (step : t.Step storage s t' s') (kept : t.code.Keeps I)
    (shared : ∀ l s, I (storage.set l s) ↔ I s) :
    (I s → I s') ∧ t'.code.Keeps I := by
  cases step with
  | act returned => exact ⟨fun holds => kept.1 _ _ _ ((shared _ s).mpr holds) returned, kept.2 _⟩
  | yield => exact ⟨id, kept⟩

theorem Thread.Step.wins (step : t.Step storage s t' s') (wins : t.code.Wins I) (shared : ∀ l s, I (storage.set l s) ↔ I s)
    (decided : I s' → I s) : t'.code.Wins I := by
  cases step with
  | act returned => exact wins _ _ _ returned fun holds => (shared _ s).mpr (decided holds)
  | yield => exact wins

namespace Threads

variable [DecidableEq ι] {c : Threads σ ρ ι α} {i j k : ι}

/-- The thread comes too late to make `I` true. -/
def Late (I : σ → Prop) (c : Threads σ ρ ι α) (i : ι) : Prop := I c.shared ∧ (c.thread i).code.Wins I

/-- One of the threads comes too late, or neither has made `I` true. -/
def Racing (I : σ → Prop) (c : Threads σ ρ ι α) (i j : ι) : Prop :=
  c.Late I i ∨ c.Late I j ∨ (c.thread i).code.Wins I ∧ (c.thread j).code.Wins I

/-- The threads after a step of `k`. -/
abbrev stepped (c : Threads σ ρ ι α) (k : ι) (t' : Thread σ ρ α) (s' : σ) : Threads σ ρ ι α :=
  ⟨s', Function.update c.thread k t'⟩

theorem Late.act (late : c.Late I i) (step : (c.thread k).Step storage c.shared t' s') (kept : (c.thread k).code.Keeps I)
    (shared : ∀ l s, I (storage.set l s) ↔ I s) : (c.stepped k t' s').Late I i := by
  refine ⟨(step.keeps kept shared).1 late.1, ?_⟩
  by_cases here : i = k
  · subst here
    simpa using step.wins late.2 shared fun _ => late.1
  · simpa [here] using late.2

/-- Whoever makes `I` true, the other one comes too late. -/
theorem Racing.act (racing : c.Racing I i j) (apart : i ≠ j) (step : (c.thread k).Step storage c.shared t' s')
    (kept : (c.thread k).code.Keeps I) (shared : ∀ l s, I (storage.set l s) ↔ I s) : (c.stepped k t' s').Racing I i j := by
  obtain late | late | ⟨first, second⟩ := racing
  · exact .inl (late.act step kept shared)
  · exact .inr (.inl (late.act step kept shared))
  · by_cases decided : I s' → I c.shared
    · refine .inr (.inr ⟨?_, ?_⟩)
      · by_cases here : i = k
        · subst here
          simpa using step.wins first shared decided
        · simpa [here] using first
      · by_cases here : j = k
        · subst here
          simpa using step.wins second shared decided
        · simpa [here] using second
    · -- It is this step that makes `I` true, so the thread that does not take it is late.
      have holds : I s' := by
        by_contra none
        exact decided fun holds => absurd holds none
      by_cases here : i = k
      · subst here
        exact .inr (.inl ⟨holds, by simpa [apart.symm] using second⟩)
      · exact .inl ⟨holds, by simpa [here] using first⟩

end Threads

end

end SysprogLabs
