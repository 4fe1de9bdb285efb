import SysprogLabs.Libcoro.Model
import SysprogLabs.Lib.Machine
import Mathlib.Algebra.BigOperators.Group.List.Basic
import Mathlib.Algebra.Order.Ring.Int

/-! # Round-robin scheduling

What the library is for, without links and contexts: a list of tasks, each with the rest of its body
or finished.  The scheduler hands out finished tasks first and otherwise starts a pass over the list;
new tasks go to its front, so a pass does not reach them.
-/

namespace SysprogLabs.Libcoro

/-- Whose code runs. -/
inductive Place where
  | main
  | waiting
  | inside (c : Nat)
  deriving DecidableEq

structure View where
  /-- The list, with the rest of each body; a finished task has none. -/
  tasks : List (Nat × Option Body)
  place : Place
  created : Nat
  returned : List Nat

namespace View

def init : View where
  tasks := []
  place := .main
  created := 0
  returned := []

inductive Step : View → Label → View → Prop where
  | newMain {v : View} {body : Body} (place : v.place = .main) :
      Step v (.new v.created) { v with tasks := (v.created, some body) :: v.tasks, created := v.created + 1 }
  | yieldMain {v : View} (place : v.place = .main) : Step v (.switch .sched) v
  | delete {v : View} {c : Nat} (place : v.place = .main) (mem : c ∈ v.returned) : Step v (.delete c) v
  | wait {v : View} (place : v.place = .main) : Step v .wait { v with place := .waiting }
  | returned {v : View} {c : Nat} {t₁ t₂ : List (Nat × Option Body)} (place : v.place = .waiting)
      (tasks : v.tasks = t₁ ++ (c, none) :: t₂) :
      Step v (.returned (some c))
        { v with tasks := t₁ ++ t₂, returned := c :: v.returned, place := .main }
  | returnedNone {v : View} (place : v.place = .waiting) (tasks : v.tasks = []) :
      Step v (.returned none) { v with place := .main }
  | first {v : View} {c : Nat} {body : Option Body} {t : List (Nat × Option Body)} (place : v.place = .waiting)
      (tasks : v.tasks = (c, body) :: t) (busy : ∀ task ∈ v.tasks, task.2 ≠ none) :
      Step v (.switch (.coro c)) { v with place := .inside c }
  | new {v : View} {c : Nat} {body rest : Body} {t₁ t₂ : List (Nat × Option Body)} (place : v.place = .inside c)
      (tasks : v.tasks = t₁ ++ (c, some (.new body rest)) :: t₂) :
      Step v (.new v.created)
        { v with tasks := (v.created, some body) :: (t₁ ++ (c, some rest) :: t₂), created := v.created + 1 }
  | yieldNext {v : View} {c d : Nat} {rest : Body} {body : Option Body} {t₁ t₂ : List (Nat × Option Body)}
      (place : v.place = .inside c) (tasks : v.tasks = t₁ ++ (c, some (.yield rest)) :: (d, body) :: t₂) :
      Step v (.switch (.coro d))
        { v with tasks := t₁ ++ (c, some rest) :: (d, body) :: t₂, place := .inside d }
  | yieldLast {v : View} {c : Nat} {rest : Body} {t₁ : List (Nat × Option Body)} (place : v.place = .inside c)
      (tasks : v.tasks = t₁ ++ [(c, some (.yield rest))]) :
      Step v (.switch .sched) { v with tasks := t₁ ++ [(c, some rest)], place := .waiting }
  | finish {v : View} {c : Nat} {value : Int} {t₁ t₂ : List (Nat × Option Body)} (place : v.place = .inside c)
      (tasks : v.tasks = t₁ ++ (c, some (.ret value)) :: t₂) :
      Step v (.finish c) { v with tasks := t₁ ++ (c, none) :: t₂, place := .waiting }

/-- Who has been created is in the list or has been returned, once; while a task runs, it is in the
    list and no task of the list has finished. -/
structure Inv (v : View) : Prop where
  apart : (v.tasks.map Prod.fst ++ v.returned).Nodup
  known : ∀ c, c < v.created ↔ c ∈ v.tasks.map Prod.fst ∨ c ∈ v.returned
  busy : ∀ c, v.place = .inside c → c ∈ v.tasks.map Prod.fst ∧ ∀ task ∈ v.tasks, task.2 ≠ none

theorem init_inv : init.Inv where
  apart := .nil
  known := by simp [init]
  busy c place := by cases place

variable {v v' : View} {label : Label} {labels : List Label}

namespace Inv

theorem fresh (inv : v.Inv) : v.created ∉ v.tasks.map Prod.fst ∧ v.created ∉ v.returned := by
  have unknown := mt (inv.known v.created).mpr (Nat.lt_irrefl _)
  rwa [not_or] at unknown

/-- A new task in front. -/
theorem new (inv : v.Inv) {tasks : List (Nat × Option Body)} {body : Body}
    (same : tasks.map Prod.fst = v.tasks.map Prod.fst)
    (busy : ∀ c, v.place = .inside c → ∀ task ∈ tasks, task.2 ≠ none) :
    Inv { v with tasks := (v.created, some body) :: tasks, created := v.created + 1 } := by
  constructor
  · simp only [List.map_cons, List.cons_append, same]
    refine List.nodup_cons.mpr ⟨?_, inv.apart⟩
    rw [List.mem_append, not_or]
    exact inv.fresh
  · intro c
    have known := inv.known c
    simp only [List.map_cons, List.mem_cons, same]
    rw [Nat.lt_succ_iff_lt_or_eq, known]
    tauto
  · intro c place
    refine ⟨?_, ?_⟩
    · simp only [List.map_cons, List.mem_cons, same]
      exact .inr (inv.busy c place).1
    · intro task mem
      obtain rfl | mem := List.mem_cons.mp mem
      · simp
      · exact busy c place task mem

/-- Another place, and bodies that have gone on. -/
theorem move (inv : v.Inv) {tasks : List (Nat × Option Body)} {place : Place}
    (same : tasks.map Prod.fst = v.tasks.map Prod.fst)
    (busy : ∀ c, place = .inside c → c ∈ tasks.map Prod.fst ∧ ∀ task ∈ tasks, task.2 ≠ none) :
    Inv { v with tasks := tasks, place := place } :=
  ⟨same ▸ inv.apart, same ▸ inv.known, busy⟩

end Inv

theorem busy_goesOn {c : Nat} {body rest : Body} {t₁ t₂ : List (Nat × Option Body)}
    (busy : ∀ task ∈ t₁ ++ (c, some body) :: t₂, task.2 ≠ none) :
    ∀ task ∈ t₁ ++ (c, some rest) :: t₂, task.2 ≠ none := by
  simpa [or_imp, forall_and] using busy

theorem Step.inv (step : Step v label v') (inv : v.Inv) : v'.Inv := by
  cases step with
  | newMain place =>
    apply inv.new rfl
    intro c inside
    rw [place] at inside
    cases inside
  | yieldMain | delete => exact inv
  | wait => exact inv.move rfl (by simp)
  | @returned c t₁ t₂ place tasks =>
    have perm : (t₁ ++ (c, none) :: t₂).Perm ((c, none) :: (t₁ ++ t₂)) := List.perm_middle
    constructor
    · have apart := inv.apart
      rw [tasks] at apart
      refine (List.Perm.nodup_iff ?_).mp apart
      refine ((perm.map Prod.fst).append_right _).trans ?_
      exact List.perm_middle.symm
    · intro d
      rw [inv.known d, tasks]
      simp only [List.map_append, List.map_cons, List.mem_append, List.mem_cons]
      tauto
    · simp
  | returnedNone => exact inv.move rfl (by simp)
  | first place tasks busy =>
    refine inv.move rfl fun d inside => ⟨?_, busy⟩
    cases inside
    simp [tasks]
  | @new c body rest t₁ t₂ place tasks =>
    refine inv.new (by simp [tasks]) fun d inside => ?_
    have busy := (inv.busy d inside).2
    rw [tasks] at busy
    exact busy_goesOn busy
  | @yieldNext c d rest body t₁ t₂ place tasks =>
    refine inv.move (by simp [tasks]) fun e inside => ⟨?_, ?_⟩
    · cases inside
      simp
    · have busy := (inv.busy c place).2
      rw [tasks] at busy
      exact busy_goesOn busy
  | yieldLast place tasks => exact inv.move (by simp [tasks]) (by simp)
  | finish place tasks => exact inv.move (by simp [tasks]) (by simp)

/-! ## A pass -/

end View

/-- Whom a step resumes. -/
def Label.resumed : Label → Option Nat
  | .switch (.coro c) => some c
  | _ => none

/-- Neither the end of a pass nor of a task. -/
def Label.Passing (label : Label) : Prop := label ≠ .switch .sched ∧ ∀ c, label ≠ .finish c

namespace View

variable {v v' : View} {label : Label} {labels : List Label}

/-- A task is in the list once. -/
theorem split_unique {c : Nat} {body body' : Option Body} {t₁ t₂ t₁' t₂' : List (Nat × Option Body)}
    (nodup : ((t₁ ++ (c, body) :: t₂).map Prod.fst).Nodup)
    (same : t₁ ++ (c, body) :: t₂ = t₁' ++ (c, body') :: t₂') : t₁ = t₁' ∧ body = body' ∧ t₂ = t₂' := by
  induction t₁ generalizing t₁' with
  | nil =>
    cases t₁' with
    | nil => simpa using same
    | cons task t₁' =>
      obtain ⟨rfl, rfl⟩ := List.cons.inj same
      simp at nodup
  | cons task t₁ ih =>
    cases t₁' with
    | nil =>
      obtain ⟨rfl, rfl⟩ := List.cons.inj same
      simp at nodup
    | cons task' t₁' =>
      obtain ⟨rfl, rest⟩ := List.cons.inj same
      obtain ⟨rfl, bodies⟩ := ih (List.nodup_cons.mp nodup).2 rest
      exact ⟨rfl, bodies⟩

theorem Inv.split_unique (inv : v.Inv) {c : Nat} {body body' : Option Body} {t₁ t₂ t₁' t₂' : List (Nat × Option Body)}
    (tasks : v.tasks = t₁ ++ (c, body) :: t₂) (tasks' : v.tasks = t₁' ++ (c, body') :: t₂') :
    t₁ = t₁' ∧ body = body' ∧ t₂ = t₂' := by
  have nodup := (List.nodup_append.mp inv.apart).1
  rw [tasks] at nodup
  exact View.split_unique nodup (tasks.symm.trans tasks')

/-- From a running task on, a pass in which no task finishes resumes the rest of the list in order. -/
theorem pass_rest {c : Nat} {body : Option Body} {t₁ t₂ : List (Nat × Option Body)}
    (run : Run Step v (labels ++ [.switch .sched]) v') (passing : ∀ label ∈ labels, label.Passing)
    (place : v.place = .inside c) (tasks : v.tasks = t₁ ++ (c, body) :: t₂) (inv : v.Inv) :
    labels.filterMap Label.resumed = t₂.map Prod.fst := by
  induction labels generalizing v c body t₁ t₂ with
  | nil =>
    cases run with
    | cons one rest =>
      cases one with
      | yieldMain main => rw [place] at main; cases main
      | yieldLast inside tasks' =>
        rw [place] at inside
        cases inside
        obtain ⟨-, -, rfl⟩ := inv.split_unique tasks tasks'
        rfl
  | cons label labels ih =>
    have here := passing label List.mem_cons_self
    have later : ∀ label ∈ labels, label.Passing := fun l mem => passing l (List.mem_cons_of_mem _ mem)
    cases run with
    | cons one rest =>
      have inv' := one.inv inv
      cases one with
      | newMain main | delete main | wait main | returned main | returnedNone main | first main =>
        rw [place] at main
        cases main
      | yieldMain | yieldLast => exact absurd rfl here.1
      | finish => exact absurd rfl (here.2 _)
      | @new d body rest' t₁' t₂' inside tasks' =>
        rw [place] at inside
        cases inside
        obtain ⟨rfl, rfl, rfl⟩ := inv.split_unique tasks tasks'
        -- The new task is in front of the running one, where the pass has already been.
        exact ih rest later place (by rw [List.cons_append]) inv'
      | @yieldNext c' d rest' body' t₁' t₂' inside tasks' =>
        rw [place] at inside
        cases inside
        obtain ⟨rfl, rfl, rfl⟩ := inv.split_unique tasks tasks'
        have split : ∀ rest, t₁ ++ (c, some rest) :: (d, body') :: t₂' = (t₁ ++ [(c, some rest)]) ++ (d, body') :: t₂' :=
          fun rest => by simp
        have resumed := ih rest later rfl (split rest') inv'
        simp [Label.resumed, resumed]

/-- A pass in which no task finishes resumes every task of the list once, in order. -/
theorem pass_in_order {c : Nat} (run : Run Step v (.switch (.coro c) :: labels ++ [.switch .sched]) v')
    (passing : ∀ label ∈ labels, label.Passing) (place : v.place = .waiting) (inv : v.Inv) :
    c :: labels.filterMap Label.resumed = v.tasks.map Prod.fst := by
  cases run with
  | cons one rest =>
    have inv' := one.inv inv
    cases one with
    | @first c body t waiting tasks busy =>
      have front : v.tasks = [] ++ (c, body) :: t := tasks
      have resumed := pass_rest rest passing rfl front inv'
      rw [resumed, tasks, List.map_cons]
    | yieldNext inside => rw [place] at inside; cases inside

/-! ## Termination -/

end View

/-- How many steps a body takes, those of the tasks it creates included. -/
def Body.size : Body → Nat
  | .ret _ => 1
  | .yield rest => rest.size + 1
  | .new body rest => body.size + rest.size + 1

namespace View

variable {v v' : View} {label : Label} {labels : List Label}

/-- What is left to run. -/
def work (tasks : List (Nat × Option Body)) : Nat := (tasks.map fun task => (task.2.map Body.size).getD 0).sum

@[simp] theorem work_cons (c : Nat) (body : Option Body) (tasks : List (Nat × Option Body)) :
    work ((c, body) :: tasks) = (body.map Body.size).getD 0 + work tasks := by
  simp [work]

@[simp] theorem work_append (t₁ t₂ : List (Nat × Option Body)) : work (t₁ ++ t₂) = work t₁ + work t₂ := by
  simp [work]

/-- How many steps are left when `main` only waits, at most. -/
def measure (v : View) : Nat :=
  5 * work v.tasks + 3 * v.tasks.length + match v.place with
    | .main => 2
    | .waiting => 1
    | .inside _ => 0

/-- With a `main` that only waits, each step but the last brings the end nearer. -/
theorem Step.measure_lt (step : Step v label v') (waits : v.place = .main → label = .wait)
    (more : label ≠ .returned none) : v'.measure < v.measure := by
  cases step with
  | newMain main | yieldMain main | delete main => cases waits main
  | returnedNone => exact absurd rfl more
  | wait place => simp [measure, place]
  | first place => simp [measure, place]
  | returned place tasks =>
    simp [measure, place, tasks]
    omega
  | new place tasks =>
    simp [measure, tasks, place, Body.size]
    omega
  | yieldNext place tasks =>
    simp [measure, tasks, place, Body.size]
  | yieldLast place tasks =>
    simp [measure, tasks, place, Body.size, work]
    omega
  | finish place tasks =>
    simp [measure, tasks, place, Body.size]
    omega

/-! ## What the labels tell -/

end View

/-- What `coro_sched_wait` hands out. -/
def Label.handed : Label → Option Nat
  | .returned c => c
  | _ => none

namespace View

variable {v v' : View} {label : Label} {labels : List Label}

theorem run_inv (run : Run Step v labels v') (inv : v.Inv) : v'.Inv :=
  run.invariant inv fun _ _ _ inv step => step.inv inv

/-- The list of the returned tasks is the one the labels show. -/
theorem run_returned (run : Run Step v labels v') :
    v'.returned = (labels.filterMap Label.handed).reverse ++ v.returned := by
  induction run with
  | nil => rfl
  | cons one _ ih =>
    rw [ih]
    cases one <;> simp [List.filterMap_cons, Label.handed]

theorem run_created (run : Run Step v labels v') {c : Nat} :
    c < v'.created ↔ c < v.created ∨ .new c ∈ labels := by
  induction run with
  | nil => simp
  | cons one _ ih =>
    rw [ih]
    cases one with
    | newMain | new =>
      rw [List.mem_cons, Label.new.injEq, ← or_assoc]
      exact or_congr_left Nat.lt_succ_iff_lt_or_eq
    | _ => simp

/-- A task without a body has finished on the way. -/
theorem run_finished (run : Run Step v labels v') {c : Nat} (finished : (c, none) ∈ v'.tasks) :
    (c, none) ∈ v.tasks ∨ .finish c ∈ labels := by
  induction run with
  | nil => exact .inl finished
  | cons one _ ih =>
    obtain before | later := ih finished
    · cases one with
      | finish place tasks =>
        simp only [List.mem_append, List.mem_cons, Prod.mk.injEq, and_true] at before
        rw [tasks]
        obtain mem | rfl | mem := before
        · simp [mem]
        · simp
        · simp [mem]
      | returned place tasks =>
        simp only [List.mem_append] at before
        rw [tasks]
        obtain mem | mem := before <;> simp [mem]
      | newMain => exact .inl (by simpa using before)
      | new place tasks | yieldNext place tasks | yieldLast place tasks =>
        exact .inl (by simpa [tasks] using before)
      | _ => exact .inl before
    · exact .inr (List.mem_cons_of_mem _ later)

end View

end SysprogLabs.Libcoro
