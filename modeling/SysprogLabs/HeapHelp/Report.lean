import SysprogLabs.HeapHelp.Exactness

/-! # The report at the exit

`heaph_atexit` walks the list of the tracker once and prints what it finds there.  `Report.text` says
what that is, for any list of records: the sections of the first ten leaks, newest first, and a summary
with the exact number and size of all of them.

* What `dladdr` knows of an address is a parameter.  A name it does not know is printed as glibc's
  `printf` does it.
* The text of one `heaph_printf` is cut off at 1023 characters.
-/

namespace SysprogLabs.HeapHelp

open Prog

inductive ReportMode where
  | verbose
  | leaks
  | quiet
  deriving DecidableEq

/-- `heaph_init`: the mode that `HHREPORT` chooses. -/
def reportMode (hhReport : Option String) : ReportMode :=
  if hhReport = some "v" then .verbose
  else if hhReport = some "l" then .leaks
  else if hhReport = some "q" then .quiet
  else .leaks

structure Symbol where
  file : Option String
  name : Option String

/-- The process while it exits, and what it has printed. -/
structure Exit where
  tracker : State
  printed : String

def trackerPart : Lens Exit State := ⟨Exit.tracker, fun s e => { e with tracker := s },
  fun _ _ => rfl, fun _ _ _ => rfl, fun _ => rfl⟩

@[simp] theorem trackerPart_get (e : Exit) : trackerPart.get e = e.tracker := rfl
@[simp] theorem trackerPart_set (s : State) (e : Exit) : trackerPart.set s e = { e with tracker := s } := rfl

def cutOff (text : String) : String := String.ofList (text.toList.take 1023)

def heaphPrintf (text : String) : Prog Exit Unit := .update fun e => { e with printed := e.printed ++ cutOff text }

/-! ## Symbols -/

def traceSymIsFunc (sym : Symbol) (func : String) : Bool := sym.name = some func

def traceSymFileStartsWith (sym : Symbol) (file : String) : Bool :=
  match sym.file with
  | none => false
  | some name => file.toList.isPrefixOf name.toList

def traceSymIsInternal (sym : Symbol) : Bool :=
  traceSymIsFunc sym "puts" || traceSymIsFunc sym "pthread_create" || traceSymIsFunc sym "_IO_printf" ||
    traceSymIsFunc sym "_IO_puts" || traceSymIsFunc sym "_IO_vfscanf" || traceSymFileStartsWith sym "libpthread.so"

def traceIsInternal (syms : List Symbol) : Bool := syms.any traceSymIsInternal

def traceResolve (dladdr : Address → Option Symbol) : List Address → Prog Exit (List Symbol)
  | [] => return []
  | addr :: addrs => do
    match dladdr addr with
    | none => do
      heaphPrintf "\nHH: dladdr() failure\n"
      let syms ← traceResolve dladdr addrs
      return ⟨none, none⟩ :: syms
    | some info => do
      let syms ← traceResolve dladdr addrs
      return info :: syms

/-! ## The exit handler -/

def leakLine (number size : Nat) : String :=
  "#### Leak " ++ toString number ++ " (" ++ toString size ++ " bytes) ####\n"

def traceLine (i : Nat) (sym : Symbol) : String := toString i ++ " - " ++ sym.name.getD "(null)" ++ "\n"

-- `heaph_atexit`: the loop over the trace of a leak.
def printTrace : Nat → List Symbol → Prog Exit Unit
  | _, [] => return ()
  | i, sym :: syms => do
    heaphPrintf (traceLine i sym)
    printTrace (i + 1) syms

/-- The variables of the loop of `heaph_atexit`; `pre` is its `prefix`. -/
structure Walk where
  a : Option AllocationPtr
  count : Int
  reportCount : Nat
  leakSize : Nat
  pre : String

def reportLimit : Nat := 10

def reportLeak (w : Walk) (record : Allocation) (syms : List Symbol) : Prog Exit Walk := do
  heaphPrintf w.pre
  heaphPrintf (leakLine (w.reportCount + 1) record.size)
  printTrace 0 syms
  return { w with reportCount := w.reportCount + 1, pre := "" }

def reportBody (dladdr : Address → Option Symbol) (w : Walk) : Prog Exit (Flow Walk Walk) :=
  match w.a with
  | none => return .done w
  | some a => do
    heaphAssert (w.count > 0)
    let record ← .zoom trackerPart (.zoom recordsPart (loadRecord a))
    if record.trace = [] then return .again { w with a := record.next, count := w.count - 1 }
    else do
      let syms ← traceResolve dladdr record.trace
      if traceIsInternal syms then return .again { w with a := record.next, count := w.count - 1 }
      else do
        let w ← if w.reportCount < reportLimit then reportLeak w record syms else pure w
        return .again { w with a := record.next, leakSize := (w.leakSize + record.size) % 2 ^ 64 }

def reportLeaks (dladdr : Address → Option Symbol) : Walk → Prog Exit Walk := .loop (reportBody dladdr)

def totalLine (total : Nat) : String := "HH: total allocation count - " ++ toString total ++ "\n"

def foundLine (count : Int) (size : Nat) : String :=
  "HH: found " ++ toString count ++ " leaks (" ++ toString size ++ " bytes)\n"

def suppressedLine (count : Int) : String := "HH: suppressed " ++ toString count ++ " internal leaks\n"

def firstLine (count : Nat) : String := "HH: only first " ++ toString count ++ " reports are shown\n"

-- `heaph_atexit` behind the critical section.
def printSummary (mode : ReportMode) (totalCount : Int) (w : Walk) : Prog Exit Unit :=
  if w.count = 0 ∧ mode ≠ .verbose then return ()
  else do
    heaphPrintf w.pre
    heaphPrintf (foundLine w.count w.leakSize)
    .when (totalCount - w.count ≠ 0) (heaphPrintf (suppressedLine (totalCount - w.count)))
    .when ((w.reportCount : Int) < w.count) (heaphPrintf (firstLine w.reportCount))
    let total ← .read fun e => e.tracker.records.allocCountTotal
    heaphPrintf (totalLine total)

def heaphAtexit (mode : ReportMode) (dladdr : Address → Option Symbol) : Prog Exit Unit := do
  let isExitDone ← .read fun e => e.tracker.isExitDone
  .update fun e => { e with tracker := { e.tracker with isExitDone := true } }
  if isExitDone then return ()
  else if mode = .quiet then return ()
  else do
    .zoom trackerPart (.zoom recordsPart spinlockAcq)
    let count ← .read fun e => e.tracker.records.allocCount
    if count = 0 then do
      .zoom trackerPart (.zoom recordsPart spinlockRel)
      .when (mode = .verbose) do
        heaphPrintf "\n"
        heaphPrintf "HH: found no leaks\n"
        let total ← .read fun e => e.tracker.records.allocCountTotal
        heaphPrintf (totalLine total)
    else do
      let a ← .read fun e => e.tracker.records.allocs
      let w ← reportLeaks dladdr { a := a, count := count, reportCount := 0, leakSize := 0, pre := "\n" }
      .zoom trackerPart (.zoom recordsPart spinlockRel)
      printSummary mode count w

/-! ## What is printed -/

/-- What the report says about a record. -/
structure Leak where
  size : Nat
  trace : List Address

def Allocation.leak (record : Allocation) : Leak := ⟨record.size, record.trace⟩

@[simp] theorem Allocation.leak_size (record : Allocation) : record.leak.size = record.size := rfl
@[simp] theorem Allocation.leak_trace (record : Allocation) : record.leak.trace = record.trace := rfl

namespace Report

variable (dladdr : Address → Option Symbol)

def symbols (trace : List Address) : List Symbol := trace.map fun addr => (dladdr addr).getD ⟨none, none⟩

/-- Whether a leak is reported: its trace is known, and the user's. -/
def Visible (leak : Leak) : Prop := leak.trace ≠ [] ∧ traceIsInternal (symbols dladdr leak.trace) = false

instance (leak : Leak) : Decidable (Visible dladdr leak) := inferInstanceAs (Decidable (_ ∧ _))

def visible (leaks : List Leak) : List Leak := leaks.filter fun leak => Visible dladdr leak

def size (leaks : List Leak) : Nat := ((visible dladdr leaks).map Leak.size).sum

/-- What the resolution of a trace prints. -/
def failures : List Address → String
  | [] => ""
  | addr :: addrs => (if dladdr addr = none then cutOff "\nHH: dladdr() failure\n" else "") ++ failures addrs

def trace : Nat → List Symbol → String
  | _, [] => ""
  | i, sym :: syms => cutOff (traceLine i sym) ++ trace (i + 1) syms

/-- What stands in front of the first section, and of the summary when there is none. -/
def lineWrap (shown : Nat) : String := if shown = 0 then "\n" else ""

def leakSection (number : Nat) (leak : Leak) : String :=
  cutOff (lineWrap (number - 1)) ++ cutOff (leakLine number leak.size) ++ trace 0 (symbols dladdr leak.trace)

/-- What is printed of a leak when `shown` have been shown. -/
def one (shown : Nat) (leak : Leak) : String :=
  failures dladdr leak.trace ++
    if Visible dladdr leak ∧ shown < reportLimit then leakSection dladdr (shown + 1) leak else ""

def body : Nat → List Leak → String
  | _, [] => ""
  | shown, leak :: leaks =>
    one dladdr shown leak ++ body (if Visible dladdr leak then min reportLimit (shown + 1) else shown) leaks

/-- What is printed below the sections. -/
def summary (mode : ReportMode) (leaks : List Leak) (total : Nat) : String :=
  if visible dladdr leaks = [] ∧ mode ≠ .verbose then ""
  else
    cutOff (lineWrap (visible dladdr leaks).length) ++
    cutOff (foundLine (visible dladdr leaks).length (size dladdr leaks % 2 ^ 64)) ++
    (if (visible dladdr leaks).length ≠ leaks.length then
      cutOff (suppressedLine (leaks.length - (visible dladdr leaks).length)) else "") ++
    (if reportLimit < (visible dladdr leaks).length then cutOff (firstLine reportLimit) else "") ++
    cutOff (totalLine total)

/-- Everything that is printed when `leaks` are in the list. -/
def text (mode : ReportMode) (leaks : List Leak) (total : Nat) : String :=
  if mode = .quiet then ""
  else if leaks = [] then
    if mode = .verbose then cutOff "\n" ++ cutOff "HH: found no leaks\n" ++ cutOff (totalLine total) else ""
  else body dladdr 0 leaks ++ summary dladdr mode leaks total

end Report

/-! ## That it is printed -/

section

variable {dladdr : Address → Option Symbol} {e : Exit} {record : Allocation} {records : List Allocation} {leak : Leak}
  {leaks : List Leak}

theorem ensures_heaphPrintf {text : String} {Q : Unit → Exit → Prop} :
    (heaphPrintf text).Ensures e Q ↔ Q () { e with printed := e.printed ++ cutOff text } := ensures_update

theorem ensures_traceResolve {addrs : List Address} {Q : List Symbol → Exit → Prop} :
    (traceResolve dladdr addrs).Ensures e Q ↔
      Q (Report.symbols dladdr addrs) { e with printed := e.printed ++ Report.failures dladdr addrs } := by
  induction addrs generalizing e Q with
  | nil => simp [traceResolve, Report.symbols, Report.failures]
  | cons addr addrs ih =>
    cases known : dladdr addr with
    | none => simp [traceResolve, known, ensures_heaphPrintf, ih, Report.symbols, Report.failures, String.append_assoc]
    | some info => simp [traceResolve, known, ih, Report.symbols, Report.failures]

theorem ensures_printTrace {syms : List Symbol} {i : Nat} {Q : Unit → Exit → Prop} :
    (printTrace i syms).Ensures e Q ↔ Q () { e with printed := e.printed ++ Report.trace i syms } := by
  induction syms generalizing e i Q with
  | nil => simp [printTrace, Report.trace]
  | cons sym syms ih => simp [printTrace, ensures_heaphPrintf, ih, Report.trace, String.append_assoc]

theorem visible_cons_of_visible (visible : Report.Visible dladdr leak) :
    Report.visible dladdr (leak :: leaks) = leak :: Report.visible dladdr leaks := by
  simp [Report.visible, visible]

theorem visible_cons_of_hidden (hidden : ¬ Report.Visible dladdr leak) :
    Report.visible dladdr (leak :: leaks) = Report.visible dladdr leaks := by
  simp [Report.visible, hidden]

/-- What a record changes in the variables of the loop. -/
def Walk.after (dladdr : Address → Option Symbol) (w : Walk) (record : Allocation) : Walk :=
  if Report.Visible dladdr record.leak then
    { w with a := record.next, reportCount := min reportLimit (w.reportCount + 1),
             leakSize := (w.leakSize + record.size) % 2 ^ 64, pre := "" }
  else { w with a := record.next, count := w.count - 1 }

theorem after_a (w : Walk) : (w.after dladdr record).a = record.next := by
  rw [Walk.after]
  split <;> rfl

theorem after_reportCount (w : Walk) : (w.after dladdr record).reportCount =
    if Report.Visible dladdr record.leak then min reportLimit (w.reportCount + 1) else w.reportCount := by
  rw [Walk.after]
  split <;> rfl

theorem after_pre {w : Walk} (pre : w.pre = Report.lineWrap w.reportCount) :
    (w.after dladdr record).pre = Report.lineWrap (w.after dladdr record).reportCount := by
  rw [Walk.after]
  split
  · have some : min reportLimit (w.reportCount + 1) ≠ 0 := by simp [reportLimit]
    exact (if_neg some).symm
  · exact pre

theorem after_limited {w : Walk} (limited : w.reportCount ≤ reportLimit) :
    (w.after dladdr record).reportCount ≤ reportLimit := by
  rw [after_reportCount]
  split
  · exact Nat.min_le_left ..
  · exact limited

theorem after_count {w : Walk} {n : Nat} (enough : (n + 1 : Nat) ≤ w.count) : n ≤ (w.after dladdr record).count := by
  rw [Walk.after]
  split
  · exact Int.le_trans (by omega) enough
  · simp only
    omega

theorem ensures_reportLeak {w : Walk} {Q : Walk → Exit → Prop} (pre : w.pre = Report.lineWrap w.reportCount) :
    (reportLeak w record (Report.symbols dladdr record.trace)).Ensures e Q ↔
      Q { w with reportCount := w.reportCount + 1, pre := "" }
        { e with printed := e.printed ++ Report.leakSection dladdr (w.reportCount + 1) record.leak } := by
  simp [reportLeak, ensures_heaphPrintf, ensures_printTrace, Report.leakSection, pre, String.append_assoc]

/-- One record of the list. -/
theorem reportBody_returns {w : Walk} {a : AllocationPtr} (at_a : w.a = some a)
    (exists_a : e.tracker.records.record a = some record)
    (positive : w.count > 0) (limited : w.reportCount ≤ reportLimit) (pre : w.pre = Report.lineWrap w.reportCount) :
    (reportBody dladdr w).Ensures e fun flow e' => flow = .again (w.after dladdr record) ∧
      e' = { e with printed := e.printed ++ Report.one dladdr w.reportCount record.leak } := by
  simp only [reportBody, at_a, ensures_bind, ensures_heaphAssert, ensures_zoom, trackerPart_get, trackerPart_set,
    recordsPart_get, recordsPart_set, ensures_loadRecord]
  refine ⟨positive, record, exists_a, ?_⟩
  rw [Walk.after, Report.one]
  by_cases empty : record.trace = []
  · simp [empty, Report.failures, Report.Visible]
  · rw [if_neg empty, ensures_bind, ensures_traceResolve]
    by_cases internal : traceIsInternal (Report.symbols dladdr record.trace)
    · simp [internal, Report.Visible]
    · have visible : Report.Visible dladdr record.leak := ⟨empty, by simpa using internal⟩
      rw [if_neg internal, if_pos visible]
      by_cases room : w.reportCount < reportLimit
      · rw [if_pos room, if_pos ⟨visible, room⟩, ensures_bind, ensures_reportLeak pre, ensures_pure,
          Nat.min_eq_right room, String.append_assoc]
        exact ⟨rfl, rfl⟩
      · have full : w.reportCount = reportLimit := Nat.le_antisymm limited (Nat.le_of_not_lt room)
        have shown : w.pre = "" := by rw [pre, full]; rfl
        rw [if_neg room, if_neg fun both => room both.2, Nat.min_eq_left (by omega)]
        simp [shown, full]

/-- The loop over the list. -/
theorem reportLeaks_returns {w : Walk} {live : List AllocationPtr} (listed : Chain e.tracker.records.link w.a live)
    (known : live.map e.tracker.records.record = records.map some) (enough : records.length ≤ w.count)
    (limited : w.reportCount ≤ reportLimit) (pre : w.pre = Report.lineWrap w.reportCount) :
    (reportLeaks dladdr w).Ensures e fun w' e' => w' = records.foldl (Walk.after dladdr) w ∧
      e' = { e with printed := e.printed ++ Report.body dladdr w.reportCount (records.map Allocation.leak) } := by
  induction records generalizing w e live with
  | nil =>
    obtain rfl : live = [] := by simpa using known
    have ended : w.a = none := listed
    rw [reportLeaks, ensures_loop, reportBody]
    simp [ended, Report.body]
  | cons record records ih =>
    cases live with
    | nil => simp at known
    | cons a live =>
      obtain ⟨here, behind⟩ := listed
      simp only [List.map_cons, List.cons.injEq] at known
      obtain ⟨exists_a, rest⟩ := known
      have next : e.tracker.records.link a = record.next := by rw [Records.link, exists_a, Option.bind_some]
      have positive : w.count > 0 := by
        simp only [List.length_cons] at enough
        omega
      rw [reportLeaks, ensures_loop]
      refine (reportBody_returns here exists_a positive limited pre).mono fun flow e' step => ?_
      obtain ⟨rfl, rfl⟩ := step
      have chain : Chain e.tracker.records.link (w.after dladdr record).a live := by
        rw [after_a, ← next]
        exact behind
      refine (ih (e := { e with printed := e.printed ++ _ }) chain rest (after_count enough) (after_limited limited)
        (after_pre pre)).mono fun w' e' result => ?_
      rw [after_reportCount] at result
      simpa only [List.foldl_cons, List.map_cons, Report.body, String.append_assoc] using result

variable (dladdr records) in
/-- What the loop has counted behind the list. -/
theorem foldl_after {w : Walk} (limited : w.reportCount ≤ reportLimit) (small : w.leakSize < 2 ^ 64) :
    (records.foldl (Walk.after dladdr) w).count + records.length =
      w.count + (Report.visible dladdr (records.map Allocation.leak)).length ∧
    (records.foldl (Walk.after dladdr) w).reportCount =
      min reportLimit (w.reportCount + (Report.visible dladdr (records.map Allocation.leak)).length) ∧
    (records.foldl (Walk.after dladdr) w).leakSize =
      (w.leakSize + Report.size dladdr (records.map Allocation.leak)) % 2 ^ 64 := by
  induction records generalizing w with
  | nil =>
    refine ⟨by simp [Report.visible], (Nat.min_eq_right limited).symm, ?_⟩
    exact (Nat.mod_eq_of_lt small).symm
  | cons record records ih =>
    rw [List.foldl_cons]
    by_cases visible : Report.Visible dladdr record.leak
    · have after : w.after dladdr record =
          { w with a := record.next, reportCount := min reportLimit (w.reportCount + 1),
                   leakSize := (w.leakSize + record.size) % 2 ^ 64, pre := "" } := if_pos visible
      obtain ⟨count, shown, size⟩ := ih (w := w.after dladdr record) (after_limited limited) (by
        rw [after]
        exact Nat.mod_lt _ (by decide))
      rw [after] at count shown size
      rw [after]
      dsimp only at count shown
      simp only [Report.size, List.map_cons, visible_cons_of_visible visible, List.length_cons, List.sum_cons,
        Allocation.leak_size] at size ⊢
      refine ⟨by omega, by omega, ?_⟩
      rw [size, Nat.mod_add_mod, Nat.add_assoc]
    · have after : w.after dladdr record = { w with a := record.next, count := w.count - 1 } := if_neg visible
      obtain ⟨count, shown, size⟩ := ih (w := w.after dladdr record) (after_limited limited)
        (by rw [after]; exact small)
      rw [after] at count shown size
      rw [after]
      dsimp only at count shown
      simp only [Report.size, List.map_cons, visible_cons_of_hidden visible, List.length_cons] at size ⊢
      exact ⟨by omega, shown, size⟩

theorem foldl_after_pre {w : Walk} (pre : w.pre = Report.lineWrap w.reportCount) :
    (records.foldl (Walk.after dladdr) w).pre = Report.lineWrap (records.foldl (Walk.after dladdr) w).reportCount := by
  induction records generalizing w with
  | nil => exact pre
  | cons record records ih => exact ih (after_pre pre)

theorem printSummary_returns {mode : ReportMode} {w : Walk} (count : w.count = (Report.visible dladdr leaks).length)
    (shown : w.reportCount = min reportLimit (Report.visible dladdr leaks).length)
    (size : w.leakSize = Report.size dladdr leaks % 2 ^ 64) (pre : w.pre = Report.lineWrap w.reportCount) :
    (printSummary mode leaks.length w).Ensures e fun _ e' =>
      e'.printed = e.printed ++ Report.summary dladdr mode leaks e.tracker.records.allocCountTotal := by
  have fewer : (Report.visible dladdr leaks).length ≤ leaks.length := List.length_filter_le ..
  rw [printSummary, Report.summary]
  by_cases silent : Report.visible dladdr leaks = [] ∧ mode ≠ .verbose
  · rw [if_pos silent, if_pos ⟨by rw [count, silent.1]; rfl, silent.2⟩]
    simp
  · have told : ¬ (w.count = 0 ∧ mode ≠ .verbose) := by
      intro both
      refine silent ⟨?_, both.2⟩
      rw [← List.length_eq_zero_iff]
      omega
    rw [if_neg silent, if_neg told]
    have wrap : w.pre = Report.lineWrap (Report.visible dladdr leaks).length := by
      rw [pre, shown]
      simp only [Report.lineWrap, reportLimit]
      congr 1
      simp
    have hidden : (leaks.length : Int) - (Report.visible dladdr leaks).length ≠ 0 ↔
        (Report.visible dladdr leaks).length ≠ leaks.length := by omega
    have more : ((w.reportCount : Nat) : Int) < (Report.visible dladdr leaks).length ↔
        reportLimit < (Report.visible dladdr leaks).length := by omega
    have ten : reportLimit < (Report.visible dladdr leaks).length → w.reportCount = reportLimit := by omega
    simp only [ensures_bind, ensures_heaphPrintf, ensures_when, ensures_read, wrap, size, count, hidden, more]
    by_cases suppressed : (Report.visible dladdr leaks).length = leaks.length
    · by_cases full : reportLimit < (Report.visible dladdr leaks).length
      · simp [suppressed, suppressed ▸ full, ten full, String.append_assoc]
      · simp [suppressed, suppressed ▸ full, String.append_assoc]
    · by_cases full : reportLimit < (Report.visible dladdr leaks).length
      · simp [suppressed, full, ten full, String.append_assoc]
      · simp [suppressed, full, String.append_assoc]

/-- `heaph_atexit` prints the report about the records of the list, whatever else is under way. -/
theorem heaphAtexit_returns {s : State} {printed : String} {loose live pool : List AllocationPtr} (mode : ReportMode)
    (holds : s.records.Holds loose live pool) (known : live.map s.records.record = records.map some)
    (unlocked : s.records.allocsLock = false) (running : s.isExitDone = false) :
    (heaphAtexit mode dladdr).Ensures ⟨s, printed⟩ fun _ e =>
      e.printed = printed ++ Report.text dladdr mode (records.map Allocation.leak) s.records.allocCountTotal := by
  have length : live.length = records.length := by
    have lengths := congrArg List.length known
    rwa [List.length_map, List.length_map] at lengths
  have count : s.records.allocCount = records.length := by rw [holds.count, length]
  simp only [heaphAtexit, ensures_bind, ensures_read, ensures_update, running, ensures_ite]
  rw [if_neg (by simp), Report.text]
  by_cases quiet : mode = .quiet
  · simp [quiet]
  · rw [if_neg quiet, if_neg quiet]
    simp only [ensures_zoom, trackerPart_get, trackerPart_set, recordsPart_get, recordsPart_set]
    apply spinlockAcq_returns unlocked
    simp only [count]
    by_cases empty : records = []
    · subst empty
      rw [if_pos (by simp), List.map_nil, if_pos rfl]
      simp only [ensures_bind, ensures_spinlockRel, ensures_read, ensures_when, ensures_heaphPrintf]
      refine ⟨trivial, ?_⟩
      split <;> simp_all [String.append_assoc]
    · have some : (records.length : Int) ≠ 0 := by simpa using empty
      have leaks : records.map Allocation.leak ≠ [] := by simpa using empty
      have same : (records.map Allocation.leak).length = records.length := List.length_map _
      rw [if_neg some, if_neg leaks, ← same]
      refine (reportLeaks_returns holds.listed known (by rw [same]) (Nat.zero_le _) rfl).mono fun w e result => ?_
      obtain ⟨rfl, rfl⟩ := result
      obtain ⟨left, shown, size⟩ := foldl_after dladdr records
        (w := { a := s.records.allocs, count := (records.map Allocation.leak).length, reportCount := 0,
                leakSize := 0, pre := "\n" })
        (Nat.zero_le _) (Nat.two_pow_pos 64)
      simp only [Nat.zero_add] at left shown size
      refine ensures_spinlockRel.mpr ⟨rfl, (printSummary_returns (by omega) shown size (foldl_after_pre rfl)).mono ?_⟩
      intro _ e printed
      rw [printed, String.append_assoc]

theorem line_ne (text : String) : text ++ "\n" ≠ "" := by
  intro empty
  have nothing := congrArg String.length empty
  simp at nothing

theorem cutOff_ne {text : String} (some : text ≠ "") : cutOff text ≠ "" := by
  intro empty
  have nothing := congrArg String.toList empty
  rw [cutOff, String.toList_ofList, String.toList_empty, List.take_eq_nil_iff, String.toList_eq_nil_iff] at nothing
  exact nothing.elim (by decide) some

theorem Report.failures_resolved (resolved : ∀ addr, dladdr addr ≠ none) (trace : List Address) :
    Report.failures dladdr trace = "" := by
  induction trace with
  | nil => rfl
  | cons addr addrs ih => simp [Report.failures, resolved addr, ih]

theorem Report.body_hidden (resolved : ∀ addr, dladdr addr ≠ none) (hidden : Report.visible dladdr leaks = [])
    (shown : Nat) :
    Report.body dladdr shown leaks = "" := by
  induction leaks with
  | nil => rfl
  | cons leak leaks ih =>
    have here : ¬ Report.Visible dladdr leak := by
      intro visible
      simp [visible_cons_of_visible visible] at hidden
    rw [visible_cons_of_hidden here] at hidden
    simp [Report.body, Report.one, here, Report.failures_resolved resolved, ih hidden]

/-- When nothing is printed. -/
theorem Report.text_empty {mode : ReportMode} {total : Nat} (resolved : ∀ addr, dladdr addr ≠ none) :
    Report.text dladdr mode leaks total = "" ↔ mode = .quiet ∨ mode = .leaks ∧ Report.visible dladdr leaks = [] := by
  have ending : cutOff (totalLine total) ≠ "" := cutOff_ne (line_ne _)
  cases mode with
  | quiet => simp [Report.text]
  | verbose =>
    by_cases empty : leaks = []
    · simp [Report.text, empty, ending]
    · simp [Report.text, Report.summary, empty, ending]
  | leaks =>
    by_cases empty : leaks = []
    · simp [Report.text, empty, Report.visible]
    · by_cases hidden : Report.visible dladdr leaks = []
      · simp [Report.text, Report.summary, empty, hidden, Report.body_hidden resolved hidden]
      · simp [Report.text, Report.summary, empty, hidden, ending]

end

/-! ## Runs -/

theorem records_known {r : Records} {live : List AllocationPtr}
    (mapped : ∀ a ∈ live, ∃ record, r.record a = some record) :
    ∃ records : List Allocation, live.map r.record = records.map some := by
  induction live with
  | nil => exact ⟨[], rfl⟩
  | cons a live ih =>
    obtain ⟨record, exists_a⟩ := mapped a List.mem_cons_self
    obtain ⟨records, known⟩ := ih fun b mem => mapped b (List.mem_cons_of_mem a mem)
    exact ⟨record :: records, by simp [exists_a, known]⟩

namespace Traced

/-- What the report says about the tracked blocks. -/
def leaks (tracked : Traced) : List Leak := tracked.map fun t => ⟨t.2.1, t.2.2⟩

theorem leaks_eq {r : Records} {tracked : Traced} {live : List AllocationPtr} {records : List Allocation}
    (known : live.map r.record = records.map some) (traced : live.map r.traced = tracked.map some) :
    tracked.leaks = records.map Allocation.leak := by
  have each : r.traced = Option.map (fun record => (record.mem, record.size, record.trace)) ∘ r.record := rfl
  rw [each, ← List.map_map, known, List.map_map] at traced
  have same : tracked = records.map fun record => (record.mem, record.size, record.trace) := by
    apply List.map_injective_iff.mpr (Option.some_injective _)
    rw [← traced, List.map_map]
    rfl
  rw [same, leaks, List.map_map]
  rfl

end Traced

/-- The blocks that are given out behind the calls and not freed, newest first: with the size that was
    asked for, and the trace of the call that it was asked in. -/
def unfreed (staticBuf : Address) (events : List (Call × System)) : Traced :=
  events.foldl (fun tracked event => (State.start staticBuf).trackedAfter event tracked) []

/-- The static buffer does not move. -/
def State.SameStatic (s t : State) : Prop := s.staticBuf = t.staticBuf ∧ s.staticSize = t.staticSize

theorem State.SameStatic.trackedAfter {s t : State} (same : s.SameStatic t) (event : Call × System) (tracked : Traced) :
    s.trackedAfter event tracked = t.trackedAfter event tracked := by
  have static : ∀ ptr, s.allocIsStatic ptr ↔ t.allocIsStatic ptr := by
    intro ptr
    rw [State.allocIsStatic, State.allocIsStatic, same.1, same.2]
  have replaced : ∀ call, s.replaced call = t.replaced call := by
    intro call
    cases call with
    | realloc ptr size => simp [State.replaced, static]
    | malloc | calloc | free => rfl
  have track : ∀ block tracked, s.track block tracked = t.track block tracked := by
    intro block tracked
    simp [State.track, static]
  obtain ⟨call, sys⟩ := event
  cases call with
  | free ptr => rfl
  | malloc | calloc | realloc => simp [State.trackedAfter, replaced, track]

/-- Each call of a run that keeps track does to the tracked blocks what it says. -/
theorem run_tracks {s s' start : State} {tracked : Traced} {events : List (Call × System)} (tracks : s.Tracks tracked)
    (same : s.SameStatic start) (run : Run (fun s event s' => Step s event s' ∧ KeepsTrack s event) s events s') :
    s'.Tracks (events.foldl (fun tracked event => start.trackedAfter event tracked) tracked) := by
  induction run generalizing tracked with
  | nil => exact tracks
  | cons both _ ih =>
    have effect := both.1.effect tracks
    have tracks' := tracks.after both.1 both.2
    obtain ⟨r, rfl, -⟩ := effect
    rw [same.trackedAfter] at tracks'
    exact ih tracks' same

/-- In a run that keeps track, the report is about exactly the blocks that were not freed, newest first, with
    the sizes and the traces of their calls; nothing is printed if it is not wanted, or if there are no
    leaks of the user. -/
theorem reports_leaks {staticBuf : Address} {events : List (Call × System)} {s : State} (mode : ReportMode)
    (dladdr : Address → Option Symbol)
    (run : Run (fun s event s' => Step s event s' ∧ KeepsTrack s event) (.start staticBuf) events s) :
    (unfreed staticBuf events).blocks.Perm s.blocks ∧
    ((heaphAtexit mode dladdr).Ensures ⟨s, ""⟩ fun _ e =>
      e.printed = Report.text dladdr mode (unfreed staticBuf events).leaks s.records.allocCountTotal) ∧
    ((∀ addr, dladdr addr ≠ none) →
      (Report.text dladdr mode (unfreed staticBuf events).leaks s.records.allocCountTotal = "" ↔
        mode = .quiet ∨ mode = .leaks ∧ Report.visible dladdr (unfreed staticBuf events).leaks = [])) := by
  have tracks : s.Tracks (unfreed staticBuf events) := run_tracks (start_tracks staticBuf) ⟨rfl, rfl⟩ run
  obtain ⟨live, pool, holds, traced⟩ := tracks.records
  have mapped : ∀ a ∈ live, ∃ record, s.records.record a = some record := fun a mem => holds.mapped a (by simp [mem])
  obtain ⟨records, known⟩ := records_known mapped
  refine ⟨tracks.exact, ?_, Report.text_empty⟩
  refine (heaphAtexit_returns mode holds known tracks.quiet.unlocked tracks.quiet.isExitDone).mono fun _ e printed => ?_
  rw [printed, String.empty_append, Traced.leaks_eq known traced]

def inMain (_ : Address) : Option Symbol := some ⟨none, some "main"⟩

-- Two blocks that are never freed.
theorem leaks_text (total : Nat) : Report.text inMain .leaks [⟨20, [1]⟩, ⟨10, [1]⟩] total =
    "\n#### Leak 1 (20 bytes) ####\n0 - main\n#### Leak 2 (10 bytes) ####\n0 - main\n" ++
      ("HH: found 2 leaks (30 bytes)\n" ++ cutOff (totalLine total)) := by
  have body : Report.body inMain 0 [⟨20, [1]⟩, ⟨10, [1]⟩] =
      "\n#### Leak 1 (20 bytes) ####\n0 - main\n#### Leak 2 (10 bytes) ####\n0 - main\n" := by
    decide +kernel
  have found : cutOff "" ++ cutOff (foundLine 2 30) = "HH: found 2 leaks (30 bytes)\n" := by decide +kernel
  have visible : ∀ leak : Leak, leak.trace = [1] → Report.Visible inMain leak := by
    rintro ⟨size, trace⟩ rfl
    exact ⟨by simp, show traceIsInternal (Report.symbols inMain [1]) = false by decide +kernel⟩
  have both : Report.visible inMain [⟨20, [1]⟩, ⟨10, [1]⟩] = [⟨20, [1]⟩, ⟨10, [1]⟩] := by
    rw [visible_cons_of_visible (visible _ rfl), visible_cons_of_visible (visible _ rfl)]
    rfl
  rw [Report.text, if_neg (by decide), if_neg (by simp), body, Report.summary, both, if_neg (by simp)]
  simp [Report.size, both, Report.lineWrap, reportLimit, found]

theorem leak_reported : ∃ s : State, s.blocks = [(8192, 20), (4096, 10)] ∧
    (heaphAtexit .leaks inMain).Ensures ⟨s, ""⟩ fun _ e => e.printed =
      "\n#### Leak 1 (20 bytes) ####\n0 - main\n#### Leak 2 (10 bytes) ####\n0 - main\n" ++
        ("HH: found 2 leaks (30 bytes)\n" ++ cutOff (totalLine s.records.allocCountTotal)) := by
  let sys : System := { result := 4096, released := false, mapped := true, trace := [1] }
  let sys' : System := { result := 8192, released := false, mapped := true, trace := [1] }
  have tracks := start_tracks 0
  have possible : sys.Possible (.start 0) (.malloc 10) := ⟨fun _ => by decide, by decide⟩
  obtain ⟨⟨⟩, s₁, returned, becomes⟩ := Call.run_returns tracks possible trivial rfl
  have first : Step (.start 0) (.malloc 10, sys) s₁ := ⟨possible, returned⟩
  have keeps : KeepsTrack (.start 0) (.malloc 10, sys) := ⟨by decide, fun other => absurd rfl other⟩
  have tracks₁ := tracks.after first keeps
  obtain ⟨r, rfl, -, -⟩ := becomes
  have possible₁ : sys'.Possible { State.start 0 with records := r, blocks := [(4096, 10)] } (.malloc 20) :=
    ⟨fun _ => show (State.start 0).Fits [(4096, 10)] (8192, 20) by decide, by decide⟩
  obtain ⟨⟨⟩, s₂, returned₁, becomes₁⟩ := Call.run_returns tracks₁ possible₁ trivial rfl
  have keeps₁ : KeepsTrack { State.start 0 with records := r, blocks := [(4096, 10)] } (.malloc 20, sys') :=
    ⟨show ¬ (State.start 0).allocIsStatic 8192 by decide, fun other => absurd rfl other⟩
  have blocks : s₂.blocks = [(8192, 20), (4096, 10)] := by
    obtain ⟨r', rfl, -, -⟩ := becomes₁
    rfl
  have reported := (reports_leaks .leaks inMain (.cons ⟨first, keeps⟩ (.single ⟨⟨possible₁, returned₁⟩, keeps₁⟩))).2.1
  have leaks : (unfreed 0 [(.malloc 10, sys), (.malloc 20, sys')]).leaks = [⟨20, [1]⟩, ⟨10, [1]⟩] := rfl
  rw [leaks, leaks_text] at reported
  exact ⟨s₂, blocks, reported⟩

end SysprogLabs.HeapHelp
