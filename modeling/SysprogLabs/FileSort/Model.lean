import SysprogLabs.Lib.Coroutine
import SysprogLabs.Lib.Machine
import Mathlib.Logic.Function.Basic
import Mathlib.Algebra.Order.Ring.Int

/-! # Sorting files with coroutines

`solution.c`: `main` starts coroutines that take the files one after another and sort them,
concatenates what they have sorted and sorts that.

* An array is the list of its elements; where a function writes to one, its cells are `none` before.
* Reading or writing outside of an array, reading a cell without a value, overflow of `int` and a
  recursion that is too deep for the stack are faults.
* What `read_numbers_from_file` returns is given by `Files`.
* The storage of strings, contexts and timestamps is left out, and so are the messages.
-/

namespace SysprogLabs.FileSort

open Prog

variable {σ : Type}

/-! ## Times -/

structure Timespec where
  tvSec : Int
  tvNsec : Int
  deriving DecidableEq, Repr

/-- The times of a `struct my_context`; `prev_timestamp` has no value at first. -/
structure MyContext where
  prevTimestamp : Option Timespec
  coroWorkTime : Timespec

structure Times where
  /-- How often the clock has been read. -/
  readings : Nat
  ctx : Nat → MyContext

def getTimeDiff (source target : Timespec) : Timespec :=
  let secDiff := target.tvSec - source.tvSec
  let nsecDiff := target.tvNsec - source.tvNsec
  if nsecDiff < 0 then ⟨secDiff - 1, nsecDiff + 1000000000⟩ else ⟨secDiff, nsecDiff⟩

def clockGettime (clock : Nat → Timespec) : Prog Times Timespec := do
  let t ← .read id
  .update fun t => { t with readings := t.readings + 1 }
  return clock t.readings

def setCtx (c : Nat) (ctx : MyContext) : Prog Times Unit :=
  .update fun t => { t with ctx := Function.update t.ctx c ctx }

def updateCoroWorkTime (clock : Nat → Timespec) (c : Nat) : Prog Times Unit := do
  let timestamp ← clockGettime clock
  let t ← .read id
  let prev ← .require (t.ctx c).prevTimestamp
  let timeDiff := getTimeDiff prev timestamp
  let sec := (t.ctx c).coroWorkTime.tvSec + timeDiff.tvSec
  let nsec := (t.ctx c).coroWorkTime.tvNsec + timeDiff.tvNsec
  let additionalSecs := nsec.tdiv 1000000000
  setCtx c { t.ctx c with
    coroWorkTime := if additionalSecs > 0 then ⟨sec + additionalSecs, nsec - additionalSecs * 1000000000⟩
      else ⟨sec, nsec⟩ }

def setCoroTimestamp (clock : Nat → Timespec) (c : Nat) : Prog Times Unit := do
  let timestamp ← clockGettime clock
  let t ← .read id
  setCtx c { t.ctx c with prevTimestamp := some timestamp }

/-! ## Merging -/

/-- The addition of two `int`s. -/
def addInt (x y : Int) : Prog σ Int :=
  if -2 ^ 31 ≤ x + y ∧ x + y < 2 ^ 31 then return x + y else .fault

/-- `array[i] = v;` -/
def store (cells : List (Option Int)) (i : Nat) (v : Int) : Prog σ (List (Option Int)) :=
  if i < cells.length then return cells.set i (some v) else .fault

/-- What is read from an array that has been written. -/
def loadAll (cells : List (Option Int)) : Prog σ (List Int) := .require (cells.mapM id)

/-- The variables of `merge_sorted_arrays`. -/
structure Merge where
  lIdx : Nat
  rIdx : Nat
  idx : Nat
  result : List (Option Int)

/-- `result[idx++] = left[l_idx++];`, where `put` stores. -/
def takeLeft (put : List (Option Int) → Nat → Int → Prog σ (List (Option Int))) (a : List Int) (m : Merge) :
    Prog σ Merge := do
  let x ← .require a[m.lIdx]?
  let result ← put m.result m.idx x
  return { m with lIdx := m.lIdx + 1, idx := m.idx + 1, result := result }

/-- `result[idx++] = right[r_idx++];`, where `put` stores. -/
def takeRight (put : List (Option Int) → Nat → Int → Prog σ (List (Option Int))) (b : List Int) (m : Merge) :
    Prog σ Merge := do
  let y ← .require b[m.rIdx]?
  let result ← put m.result m.idx y
  return { m with rIdx := m.rIdx + 1, idx := m.idx + 1, result := result }

/-- One round of the outer loop, with the inner loop it may enter. -/
def mergeRound (put : List (Option Int) → Nat → Int → Prog σ (List (Option Int))) (a b : List Int) (m : Merge) :
    Prog σ (Flow Merge (List (Option Int))) :=
  if m.lIdx < a.length ∨ m.rIdx < b.length then
    if a.length ≤ m.lIdx then do
      let m ← .loop (fun m =>
        if m.rIdx < b.length then do return .again (← takeRight put b m) else return .done m) m
      return .again m
    else if b.length ≤ m.rIdx then do
      let m ← .loop (fun m =>
        if m.lIdx < a.length then do return .again (← takeLeft put a m) else return .done m) m
      return .again m
    else do
      let x ← .require a[m.lIdx]?
      let y ← .require b[m.rIdx]?
      if x ≤ y then do
        let m ← takeLeft put a m
        return .again m
      else do
        let m ← .loop (fun m => if m.rIdx < b.length then do
            let y ← .require b[m.rIdx]?
            if y < x then do return .again (← takeRight put b m) else return .done m
          else return .done m) m
        return .again m
  else return .done m.result

/-- `merge_sorted_arrays` with `put` in the place of its stores, so that a `put` can record them. -/
def mergeSortedArraysWith (put : List (Option Int) → Nat → Int → Prog σ (List (Option Int))) (a b : List Int) :
    Prog σ (List Int) := do
  let room ← addInt a.length b.length
  let result ← .loop (mergeRound put a b) { lIdx := 0, rIdx := 0, idx := 0,
                                            result := List.replicate room.toNat none }
  let len ← addInt a.length b.length
  loadAll (result.take len.toNat)

def mergeSortedArrays : List Int → List Int → Prog σ (List Int) := mergeSortedArraysWith store

/-! ## Sorting -/

/-- `ctx` is the context of a coroutine, or `NULL`. -/
def whenCtx (ctx : Option Nat) (f : Nat → Prog Times Unit) : Code Times Unit :=
  match ctx with
  | none => pure ()
  | some c => .lift (f c)

/-- `get_sorted_numbers` with `self` in the place of itself. -/
def sortBody (clock : Nat → Timespec) (ctx : Option Nat) (self : List Int → Code Times (List Int))
    (numbers : List Int) : Code Times (List Int) := do
  let result ← (
    if numbers.length = 1 then .lift do
      let x ← .require numbers[0]?
      return [x]
    else if numbers.length = 2 then .lift do
      let x ← .require numbers[0]?
      let y ← .require numbers[1]?
      return if x > y then [y, x] else [x, y]
    else do
      let leftLen := numbers.length / 2
      let leftSorted ← self (numbers.take leftLen)
      let rightSorted ← self (numbers.drop leftLen)
      .lift (mergeSortedArrays leftSorted rightSorted))
  whenCtx ctx (updateCoroWorkTime clock)
  .pause
  whenCtx ctx (setCoroTimestamp clock)
  return result

/-- `depth` is how many calls the stack has room for. -/
def getSortedNumbers (clock : Nat → Timespec) (ctx : Option Nat) : Nat → List Int → Code Times (List Int)
  | 0, _ => .lift .fault
  | depth + 1, numbers => sortBody clock ctx (getSortedNumbers clock ctx depth) numbers

/-! ## The coroutines -/

/-- What `read_numbers_from_file` returns for each file: an array with the `int` `idx + 1` as its length. -/
structure Files where
  data : List (List Int)
  len : ∀ numbers ∈ data, 1 ≤ numbers.length ∧ numbers.length < 2 ^ 31

/-- What a run of the program is given. -/
structure Setup where
  files : Files
  corosTotal : Nat
  clock : Nat → Timespec
  depth : Nat
  deep : 32 ≤ depth

def Setup.filesTotal (setup : Setup) : Nat := setup.files.data.length

/-- Where a coroutine is in `coroutine_func_f`. -/
inductive Control : Type 1 where
  | start
  /-- Before the condition of the loop. -/
  | head
  /-- In `get_sorted_numbers`, for the file `i`. -/
  | sorting (i : Nat) (rest : Code Times (List Int))
  | finished

structure Pool where
  nextFileIdx : Nat
  destinations : List (Option (List Int))
  times : Times
  control : Nat → Control
  /-- Whose code runs; `none` where the schedule chooses. -/
  running : Option Nat

/-- Behind the creation of the coroutines. -/
def Pool.init (setup : Setup) : Pool where
  nextFileIdx := 0
  destinations := List.replicate setup.filesTotal none
  times := { readings := 0, ctx := fun _ => { prevTimestamp := none, coroWorkTime := ⟨0, 0⟩ } }
  control := fun _ => .start
  running := none

def Pool.goto (s : Pool) (c : Nat) (control : Control) : Pool :=
  { s with control := Function.update s.control c control }

inductive Label where
  /-- The schedule chooses `c`. -/
  | resume (c : Nat)
  | start (c : Nat)
  /-- `c` takes the file `i`. -/
  | claim (c i : Nat)
  /-- `c` goes on sorting. -/
  | act (c : Nat)
  | yield (c : Nat)
  /-- `c` writes to `destinations[i]`. -/
  | write (c i : Nat) (numbers : List Int)
  | finish (c : Nat)
  deriving DecidableEq, Repr

/-- A coroutine keeps running until it yields or finishes. -/
inductive Step (setup : Setup) : Pool → Label → Pool → Prop where
  | resume {s : Pool} {c : Nat} (idle : s.running = none) (valid : c < setup.corosTotal)
      (more : s.control c ≠ .finished) : Step setup s (.resume c) { s with running := some c }
  | start {s : Pool} {c : Nat} {t : Times} (runs : s.running = some c) (control : s.control c = .start)
      (set : (setCoroTimestamp setup.clock c).Returns s.times () t) :
      Step setup s (.start c) (Pool.goto { s with times := t } c .head)
  | claim {s : Pool} {c : Nat} {numbers : List Int} (runs : s.running = some c) (control : s.control c = .head)
      (left : s.nextFileIdx < setup.filesTotal) (file : setup.files.data[s.nextFileIdx]? = some numbers) :
      Step setup s (.claim c s.nextFileIdx) (Pool.goto { s with nextFileIdx := s.nextFileIdx + 1 } c
        (.sorting s.nextFileIdx (getSortedNumbers setup.clock (some c) setup.depth numbers)))
  | act {s : Pool} {c i : Nat} {β : Type} {p : Prog Times β} {rest : β → Code Times (List Int)} {b : β} {t : Times}
      (runs : s.running = some c) (control : s.control c = .sorting i (.act p rest))
      (returned : p.Returns s.times b t) :
      Step setup s (.act c) (Pool.goto { s with times := t } c (.sorting i (rest b)))
  | yield {s : Pool} {c i : Nat} {rest : Code Times (List Int)} (runs : s.running = some c)
      (control : s.control c = .sorting i (.yield rest)) :
      Step setup s (.yield c) (Pool.goto { s with running := none } c (.sorting i rest))
  | write {s : Pool} {c i : Nat} {numbers : List Int} (runs : s.running = some c)
      (control : s.control c = .sorting i (.done numbers)) (room : i < s.destinations.length) :
      Step setup s (.write c i numbers)
        (Pool.goto { s with destinations := s.destinations.set i (some numbers) } c .head)
  | finish {s : Pool} {c : Nat} {t : Times} (runs : s.running = some c) (control : s.control c = .head)
      (none_left : setup.filesTotal ≤ s.nextFileIdx)
      (updated : (updateCoroWorkTime setup.clock c).Returns s.times () t) :
      Step setup s (.finish c) (Pool.goto { s with times := t, running := none } c .finished)

/-! ## `main` behind the coroutines -/

/-- `destinations[i]` -/
def slot (destinations : List (Option (List Int))) (i : Nat) : Prog σ (List Int) := do
  let cell ← .require destinations[i]?
  .require cell

/-- One round of the loop that computes `final_length`. -/
def sumRound (destinations : List (Option (List Int))) (filesTotal i : Nat) (finalLength : Int) :
    Prog σ (Flow (Nat × Int) Int) :=
  if i < filesTotal then do
    let numbers ← slot destinations i
    let finalLength ← addInt finalLength numbers.length
    return .again (i + 1, finalLength)
  else return .done finalLength

def sumLengths (destinations : List (Option (List Int))) (filesTotal : Nat) : Prog σ Int :=
  .loop (fun a => sumRound destinations filesTotal a.1 a.2) (0, 0)

/-- `memcpy(cells + idx, numbers, …)` -/
def memcpy (cells : List (Option Int)) (idx : Nat) (numbers : List Int) : Prog σ (List (Option Int)) :=
  if idx + numbers.length ≤ cells.length then
    return cells.take idx ++ numbers.map some ++ cells.drop (idx + numbers.length)
  else .fault

/-- One round of the loop that fills `all_numbers`. -/
def copyRound (destinations : List (Option (List Int))) (filesTotal i idx : Nat) (allNumbers : List (Option Int)) :
    Prog σ (Flow (Nat × Nat × List (Option Int)) (List (Option Int))) :=
  if i < filesTotal then do
    let numbers ← slot destinations i
    let allNumbers ← memcpy allNumbers idx numbers
    return .again (i + 1, idx + numbers.length, allNumbers)
  else return .done allNumbers

def concatenate (destinations : List (Option (List Int))) (filesTotal : Nat) (finalLength : Int) :
    Prog σ (List (Option Int)) :=
  .loop (fun a => copyRound destinations filesTotal a.1 a.2.1 a.2.2) (0, 0, List.replicate finalLength.toNat none)

/-- `all_numbers` -/
def concatenation (destinations : List (Option (List Int))) (filesTotal : Nat) : Prog σ (List (Option Int)) := do
  let finalLength ← sumLengths destinations filesTotal
  concatenate destinations filesTotal finalLength

/-- What is written to `result.txt`.  The `coro_yield` of `main` comes back at once. -/
def mainEnd (setup : Setup) (destinations : List (Option (List Int))) : Prog Times (List Int) := do
  let allNumbers ← concatenation destinations setup.filesTotal
  let numbers ← loadAll allNumbers
  (getSortedNumbers setup.clock none setup.depth numbers).straight

end SysprogLabs.FileSort
