import SysprogLabs.FileSort.Reading
import Mathlib.Data.Int.Bitwise

/-! # The checker of the result

`checker.py`: the loop over the tokens of a file.  `int` is Python's conversion of a token; a
token that it cannot convert makes it raise `ValueError`.
-/

namespace SysprogLabs.FileSort.Checker

/-- What `data.split()` yields. -/
abbrev Token := List Char

inductive PyException where
  | valueError
  | systemExit (status : Int)
  deriving DecidableEq, Repr

/-- What the program prints. -/
inductive Line where
  | errorOnNumbers (prevNumber v : Int)
  | allIsOk
  deriving DecidableEq, Repr

structure World where
  prevNumber : Int
  printed : List Line
  deriving DecidableEq, Repr

abbrev Py := ExceptT PyException (StateM World)

variable (int : Token → Option Int)

/-- `exit(status)` raises `SystemExit`. -/
def exit (status : Int) : Py Unit := throw (.systemExit status)

def print (line : Line) : Py Unit := modify fun w => { w with printed := w.printed ++ [line] }

def toInt (token : Token) : Py Int :=
  match int token with
  | some v => return v
  | none => throw .valueError

-- The block under `try`.
def checkToken (token : Token) : Py Unit := do
  let v ← toInt int token
  let w ← get
  if v < w.prevNumber then
    print (.errorOnNumbers w.prevNumber v)
    exit 1
  modify fun w => { w with prevNumber := v }

/-- A bare `except: pass` catches every exception, `SystemExit` included. -/
def tryPass (body : Py Unit) : Py Unit := tryCatch body fun _ => pure ()

def check (data : List Token) : Py Unit := do
  data.forM fun token => tryPass (checkToken int token)
  print .allIsOk

/-- How the program ends, and what it has printed. -/
def checker (data : List Token) : Except PyException Unit × World :=
  (check int data).run.run { prevNumber := -((1 : Int) <<< (31 - 1)), printed := [] }

/-- An exception that nothing catches ends the program. -/
def exitStatus : Except PyException Unit → Int
  | .ok _ => 0
  | .error (.systemExit status) => status
  | .error .valueError => 1

/-! ## The verdict -/

/-- The integers among the tokens. -/
def numbers (data : List Token) : List Int := data.filterMap int

def Accepts (data : List Token) : Prop :=
  Line.allIsOk ∈ (checker int data).2.printed ∧ exitStatus (checker int data).1 = 0

def Rejects (data : List Token) : Prop :=
  (∃ prevNumber v, Line.errorOnNumbers prevNumber v ∈ (checker int data).2.printed) ∧
    exitStatus (checker int data).1 = 1 ∧ Line.allIsOk ∉ (checker int data).2.printed

/-- Exactly the sorted files are accepted, and the others are rejected. -/
def ChecksOrder (data : List Token) : Prop :=
  (Accepts int data ↔ (numbers int data).Pairwise (· ≤ ·)) ∧
    (¬ (numbers int data).Pairwise (· ≤ ·) → Rejects int data)

variable {int}

/-- The execution of two statements, the first of which raises nothing. -/
theorem run_bind_ok {body rest : Py Unit} {w w' : World} (first : body.run.run w = (.ok (), w')) :
    (do body; rest).run.run w = rest.run.run w' := by
  rw [ExceptT.run_bind, StateT.run_bind, first]
  rfl

/-- Nothing gets out of the `try`. -/
theorem tryPass_returns (body : Py Unit) (w : World) : ∃ w', (tryPass body).run.run w = (.ok (), w') := by
  have caught : (tryPass body).run.run w = match body.run.run w with
      | (.ok _, w') => (.ok (), w')
      | (.error _, w') => (.ok (), w') := by
    simp only [tryPass, tryCatch, tryCatchThe, MonadExceptOf.tryCatch, ExceptT.tryCatch, ExceptT.run, ExceptT.mk,
      StateT.run_bind]
    generalize StateT.run body w = result
    obtain ⟨outcome, w'⟩ := result
    cases outcome <;> rfl
  rw [caught]
  split <;> exact ⟨_, rfl⟩

/-- So the loop gets to its end, whatever the tokens are. -/
theorem loop_returns (data : List Token) (w : World) :
    ∃ w', (data.forM fun token => tryPass (checkToken int token)).run.run w = (.ok (), w') := by
  induction data generalizing w with
  | nil => exact ⟨w, rfl⟩
  | cons token data ih =>
    obtain ⟨w₁, first⟩ := tryPass_returns (checkToken int token) w
    obtain ⟨w₂, later⟩ := ih w₁
    exact ⟨w₂, (run_bind_ok first).trans later⟩

theorem checker_accepts (data : List Token) : Accepts int data := by
  obtain ⟨w, ended⟩ := @loop_returns int data { prevNumber := -((1 : Int) <<< (31 - 1)), printed := [] }
  have result : checker int data = (.ok (), { w with printed := w.printed ++ [.allIsOk] }) := run_bind_ok ended
  rw [Accepts, result]
  exact ⟨List.mem_append_right _ (List.mem_singleton_self _), rfl⟩

variable (int)

/-- Every file is accepted: the verdict is right for the sorted ones, and for no other. -/
theorem checks_only_sorted (data : List Token) : ChecksOrder int data ↔ (numbers int data).Pairwise (· ≤ ·) := by
  constructor
  · intro checks
    exact checks.1.mp (checker_accepts data)
  · intro sorted
    exact ⟨⟨fun _ => sorted, fun _ => checker_accepts data⟩, fun unsorted => absurd sorted unsorted⟩

/-- Digits behind an optional minus sign. -/
def decimal (token : Token) : Option Int :=
  match token with
  | '-' :: digits => if digits ≠ [] ∧ digits.all Char.isDigit then some (-digitsValue digits) else none
  | digits => if digits ≠ [] ∧ digits.all Char.isDigit then some (digitsValue digits) else none

/-- `exit(1)` is caught, and the file `2 1` passes. -/
theorem unsorted_passes : ∃ data : List Token, numbers decimal data = [2, 1] ∧
    (checker decimal data).2.printed = [.errorOnNumbers 2 1, .allIsOk] ∧ ¬ ChecksOrder decimal data := by
  refine ⟨[['2'], ['1']], by decide +kernel, by decide +kernel, fun checks => ?_⟩
  have sorted := checks.1.mp (checker_accepts _)
  revert sorted
  decide +kernel

end SysprogLabs.FileSort.Checker
