import SysprogLabs.HeapHelp.Hooks

/-! # Calls inside calls

The functions of the system call the hooks as well: `getaddrinfo` allocates its result with them, and
`freeaddrinfo` releases what was allocated past them.  Such a call finds `depth` above 0.  It does what
the function of the system does, and the tracker sees nothing of it (`nested_as_plain`).
-/

namespace SysprogLabs.HeapHelp

open Prog

/-- The function of the system that a hook is called for. -/
def Hook.plain (sys : Answer) : Hook → Prog State Address
  | .heap (.malloc size) => defaultMalloc sys.toSystem size
  | .heap (.calloc num size) => defaultMalloc sys.toSystem (num * size)
  | .heap (.realloc ptr size) => defaultRealloc sys.toSystem ptr size
  | .heap (.free ptr) => do
    if ptr = 0 then return 0
    else do
      defaultFree ptr
      return 0
  | .strdup _ => defaultMalloc sys.toSystem (sys.length + 1)
  | .getline lineOld => defaultRealloc sys.toSystem lineOld sys.capacity
  | .getaddrinfo => defaultGetaddrinfo sys
  | .freeaddrinfo ai => do
    if ai = 0 then return 0
    else do
      defaultFree ai
      return 0

/-- What the hook asks for that the function of the system does not: no pointer into the static buffer, no
    `strdup` behind the exit handler, and a `getline` that does not lose the line. -/
def Hook.Ordinary (s : State) (sys : Answer) : Hook → Prop
  | .heap (.realloc ptr _) => ¬ s.allocIsStatic ptr
  | .heap (.free ptr) => ¬ s.allocIsStatic ptr
  | .strdup ptr => ¬ s.allocIsStatic ptr ∧ s.isExitDone = false
  | .getline lineOld => ¬ s.allocIsStatic lineOld ∧ (lineOld ≠ 0 → sys.result ≠ 0)
  | .freeaddrinfo ai => ¬ s.allocIsStatic ai
  | _ => True

/-- A function of the system, by the calls that it makes: of the hooks, and of the functions of the system
    past them.  The next call may depend on the results so far. -/
inductive Calls where
  | done (res : Address)
  | call (hook : Hook) (sys : Answer) (rest : Address → Calls)
  | past (hook : Hook) (sys : Answer) (rest : Address → Calls)

namespace Calls

/-- What the function does when `run` is what it finds for the hooks. -/
def through (run : Answer → Hook → Prog State Address) : Calls → Prog State Address
  | done res => return res
  | call hook sys rest => do
    let res ← run sys hook
    (rest res).through run
  | past hook sys rest => do
    let res ← hook.plain sys
    (rest res).through run

def Ordinary (s : State) : Calls → Prop
  | done _ => True
  | call hook sys rest => hook.Ordinary s sys ∧ ∀ res, (rest res).Ordinary s
  | past _ _ rest => ∀ res, (rest res).Ordinary s

end Calls

/-- The functions of the system. -/
structure Functions where
  malloc (sys : System) (size : Nat) : Calls
  calloc (sys : System) (num size : Nat) : Calls
  realloc (sys : System) (ptr : Address) (size : Nat) : Calls
  free (ptr : Address) : Calls
  strdup (sys : Answer) (ptr : Address) : Calls
  getline (sys : Answer) (lineOld : Address) : Calls
  getaddrinfo (sys : Answer) : Calls
  freeaddrinfo (ai : Address) : Calls

namespace Functions

/-- The hooks, over functions of the system that call `run`. -/
@[simps]
def site (f : Functions) (run : Answer → Hook → Prog State Address) : Site (Prog State) where
  read := alone.read
  heaphAssert := alone.heaphAssert
  records := alone.records
  enter := alone.enter
  leave := alone.leave
  heaphTouch := alone.heaphTouch
  defaultMalloc sys size := (f.malloc sys size).through run
  defaultCalloc sys num size := (f.calloc sys num size).through run
  defaultRealloc sys ptr size := (f.realloc sys ptr size).through run
  defaultFree ptr := do
    let _ ← (f.free ptr).through run
  defaultStrdup sys ptr := (f.strdup sys ptr).through run
  defaultGetline sys lineOld := (f.getline sys lineOld).through run
  defaultGetaddrinfo sys := (f.getaddrinfo sys).through run
  defaultFreeaddrinfo ai := do
    let _ ← (f.freeaddrinfo ai).through run

structure Ordinary (f : Functions) (s : State) : Prop where
  malloc : ∀ sys size, (f.malloc sys size).Ordinary s
  calloc : ∀ sys num size, (f.calloc sys num size).Ordinary s
  realloc : ∀ sys ptr size, (f.realloc sys ptr size).Ordinary s
  free : ∀ ptr, (f.free ptr).Ordinary s
  strdup : ∀ sys ptr, (f.strdup sys ptr).Ordinary s
  getline : ∀ sys lineOld, (f.getline sys lineOld).Ordinary s
  getaddrinfo : ∀ sys, (f.getaddrinfo sys).Ordinary s
  freeaddrinfo : ∀ ai, (f.freeaddrinfo ai).Ordinary s

end Functions

section

variable {s : State} {ptr : Address} {sys : System}

/-- Inside another call nothing is tracked. -/
theorem allocTraceNew_nested {size : Nat} {Q : Unit → State → Prop} (nested : s.depth > 1) :
    (alone.allocTraceNew sys ptr size).Ensures s Q ↔ Q () s := by
  simp only [Site.allocTraceNew, alone_read, ensures_bind, ensures_read, id, ensures_ite, nested, if_true, ensures_pure,
    ite_self]

theorem allocFree_nested {Q : Unit → State → Prop} (nested : s.depth > 1) :
    (alone.allocFree ptr).Ensures s Q ↔ Q () s := by
  simp only [Site.allocFree, alone_read, ensures_bind, ensures_read, id, ensures_ite, nested, if_true, ensures_pure,
    ite_self]

/-! ## The functions of the system do not know the depth -/

/-- `p` does the same at every depth, and does not change it. -/
def DepthFree {α : Type} (p : Prog State α) : Prop :=
  ∀ s d Q, p.Ensures { s with depth := d } Q ↔ p.Ensures s fun a s' => Q a { s' with depth := d }

theorem depthFree_defaultMalloc {size : Nat} : DepthFree (defaultMalloc sys size) := by
  intro s d Q
  simp only [defaultMalloc, ensures_bind, ensures_when, ensures_update, ensures_pure]
  split <;> rfl

theorem depthFree_defaultFree : DepthFree (defaultFree ptr) := by
  intro s d Q
  simp only [defaultFree, ensures_bind, ensures_read, id, ensures_ite, ensures_update, ensures_fault]
  rfl

theorem DepthFree.bind {α β : Type} {p : Prog State α} {f : α → Prog State β} (first : DepthFree p)
    (second : ∀ a, DepthFree (f a)) : DepthFree (p >>= f) := by
  intro s d Q
  rw [ensures_bind, ensures_bind, first]
  exact ⟨fun ensured => ensured.mono fun a s' => (second a s' d Q).mp,
    fun ensured => ensured.mono fun a s' => (second a s' d Q).mpr⟩

theorem depthFree_defaultRealloc {size : Nat} : DepthFree (defaultRealloc sys ptr size) := by
  rw [defaultRealloc]
  split
  · exact depthFree_defaultMalloc
  · split
    · intro s d Q
      simp only [ensures_bind, ensures_read, id, ensures_ite, ensures_pure, ensures_fault]
    · exact .bind depthFree_defaultFree fun _ => depthFree_defaultMalloc

/-- Without undefined behaviour `realloc` returns what the allocator answers. -/
theorem defaultRealloc_result {size : Nat} {Q : Address → State → Prop} :
    (defaultRealloc sys ptr size).Ensures s Q ↔
      (defaultRealloc sys ptr size).Ensures s fun a s' => a = sys.result ∧ Q a s' := by
  have given : ∀ {s : State}, (defaultMalloc sys size).Ensures s Q ↔
      (defaultMalloc sys size).Ensures s fun a s' => a = sys.result ∧ Q a s' := by
    intro s
    simp only [defaultMalloc, ensures_bind, ensures_pure, true_and]
  rw [defaultRealloc]
  split
  · exact given
  · split
    · next failed =>
      simp only [ensures_bind, ensures_read, ensures_ite, ensures_pure, failed.1, true_and, ensures_fault]
    · rw [ensures_bind, ensures_bind]
      exact ⟨fun freed => freed.mono fun _ _ => given.mp, fun freed => freed.mono fun _ _ => given.mpr⟩

theorem depthFree_defaultGetaddrinfo {sys : Answer} : DepthFree (defaultGetaddrinfo sys) := by
  rw [defaultGetaddrinfo]
  split
  · exact depthFree_defaultMalloc
  · exact fun s d Q => by simp only [ensures_pure]

variable {α β : Type} {p : Prog State α} {s : State}

/-- A result is left where it is. -/
theorem DepthFree.restore {Q : α → State → Prop} (free : DepthFree p) :
    p.Ensures s Q ↔ p.Ensures s fun a s' => Q a { s' with depth := s.depth } := free s s.depth Q

/-- What follows `p` sees a call inside another one, and gets back to its depth. -/
theorem DepthFree.under {K : α → State → Prop} {R : α → State → Prop} (free : DepthFree p) (inside : 1 ≤ s.depth)
    (same : ∀ a s', 1 < s'.depth → (K a s' ↔ R a { s' with depth := s'.depth - 1 })) :
    p.Ensures { s with depth := s.depth + 1 } K ↔ p.Ensures s R := by
  have deeper : 1 < s.depth + 1 := by omega
  have each : ∀ (a : α) (s' : State), K a { s' with depth := s.depth + 1 } ↔ R a { s' with depth := s.depth } := by
    intro a s'
    rw [same a { s' with depth := s.depth + 1 } deeper, Int.add_sub_cancel]
  have back : p.Ensures s R ↔ p.Ensures s fun a s' => R a { s' with depth := s.depth } := free.restore
  rw [back, free]
  constructor
  · exact fun ensured => ensured.mono fun a s' => (each a s').mp
  · exact fun ensured => ensured.mono fun a s' => (each a s').mpr

end

section

variable {s : State} {sys : Answer} {Q : Address → State → Prop}

/-- A hook that finds `depth` above 0 does what the function of the system does. -/
theorem Hook.nested {hook : Hook} (initialised : s.isInitDone = true) (inside : 1 ≤ s.depth)
    (ordinary : hook.Ordinary s sys) :
    (alone.hook sys hook).Ensures s Q ↔ (hook.plain sys).Ensures s Q := by
  cases hook with
  | heap call =>
    cases call with
    | malloc size =>
      simp only [Site.hook, Site.call, Site.malloc, alone_heaphTouch, alone_enter, alone_defaultMalloc, alone_leave,
        ensures_bind, ensures_heaphTouch initialised, enter, ensures_update, Hook.plain]
      refine depthFree_defaultMalloc.under inside fun res s' deeper => ?_
      simp only [ensures_ite, ensures_bind, allocTraceNew_nested deeper, leave, ensures_update, ensures_pure, ite_self]
    | calloc num size =>
      simp only [Site.hook, Site.call, Site.calloc, alone_heaphTouch, alone_enter, alone_defaultCalloc, alone_leave,
        ensures_bind, ensures_heaphTouch initialised, enter, ensures_update, Hook.plain]
      refine depthFree_defaultMalloc.under inside fun res s' deeper => ?_
      simp only [ensures_ite, ensures_bind, allocTraceNew_nested deeper, leave, ensures_update, ensures_pure, ite_self]
    | realloc ptr size =>
      have heap : ¬ { s with depth := s.depth + 1 }.allocIsStatic ptr := ordinary
      simp only [Site.hook, Site.call, Site.realloc, alone_heaphTouch, alone_enter, alone_read, alone_defaultRealloc,
        alone_leave, ensures_bind, ensures_heaphTouch initialised, enter, ensures_update, ensures_read, id, if_neg heap,
        Hook.plain]
      refine depthFree_defaultRealloc.under inside fun res s' deeper => ?_
      simp only [ensures_ite, ensures_bind, allocTraceNew_nested deeper, allocFree_nested deeper, leave, ensures_update,
        ensures_pure, ite_self]
    | free ptr =>
      have heap : ¬ s.allocIsStatic ptr := ordinary
      simp only [Site.hook, Site.call, Site.free, alone_read, alone_heaphTouch, alone_enter, alone_defaultFree,
        alone_leave, ensures_bind, ensures_read, id, ensures_ite, if_neg heap, ensures_pure,
        ensures_heaphTouch initialised, enter, ensures_update, Hook.plain]
      by_cases null : ptr = 0
      · simp only [null, if_true]
      · rw [if_neg null, if_neg null, allocFree_nested (by change 1 < s.depth + 1; omega)]
        exact depthFree_defaultFree.under inside fun _ s' _ => by rw [leave, ensures_update]
  | strdup ptr =>
    obtain ⟨heap, running⟩ := ordinary
    simp only [Site.hook, Site.strdup, alone_heaphTouch, alone_enter, alone_read, alone_heaphAssert,
      alone_defaultStrdup, alone_leave, ensures_bind, ensures_heaphTouch initialised, enter, ensures_update,
      ensures_read, ensures_heaphAssert, id, Hook.plain]
    rw [and_iff_right running, and_iff_right heap]
    refine depthFree_defaultMalloc.under inside fun res s' deeper => ?_
    simp only [ensures_ite, ensures_bind, allocTraceNew_nested deeper, leave, ensures_update, ensures_pure, ite_self]
  | getline ptr =>
    obtain ⟨heap, kept⟩ := ordinary
    have heap : ¬ { s with depth := s.depth + 1 }.allocIsStatic ptr := heap
    simp only [Site.hook, Site.getline, alone_heaphTouch, alone_enter, alone_read, alone_heaphAssert,
      alone_defaultGetline, alone_leave, ensures_bind, ensures_heaphTouch initialised, enter, ensures_update,
      ensures_read, ensures_heaphAssert, id, Hook.plain]
    rw [and_iff_right heap]
    refine defaultRealloc_result.trans (Iff.trans ?_ defaultRealloc_result.symm)
    refine depthFree_defaultRealloc.under inside fun line s' deeper => and_congr_right fun result => ?_
    simp only [ensures_ite, ensures_bind, allocTraceNew_nested deeper, allocFree_nested deeper, leave, ensures_update,
      ensures_pure, ensures_heaphAssert, false_and]
    by_cases null : ptr = 0
    · by_cases failed : line = 0
      · simp [null, failed]
      · simp [null, failed]
    · have given : line ≠ 0 := result ▸ kept null
      by_cases same : ptr = line
      · simp [same, given]
      · simp [null, given, same]
  | getaddrinfo =>
    simp only [Site.hook, Site.getaddrinfo, alone_heaphTouch, alone_enter, alone_defaultGetaddrinfo, alone_leave,
      ensures_bind, ensures_heaphTouch initialised, enter, ensures_update, Hook.plain]
    refine depthFree_defaultGetaddrinfo.under inside fun res s' deeper => ?_
    simp only [ensures_ite, ensures_bind, allocTraceNew_nested deeper, leave, ensures_update, ensures_pure, ite_self]
  | freeaddrinfo ptr =>
    have heap : ¬ s.allocIsStatic ptr := ordinary
    simp only [Site.hook, Site.freeaddrinfo, alone_read, alone_heaphAssert, alone_heaphTouch, alone_enter,
      alone_defaultFreeaddrinfo, alone_leave, ensures_bind, ensures_read, id, ensures_ite, ensures_heaphAssert, heap,
      not_false_iff, true_and, ensures_pure, ensures_heaphTouch initialised, enter, ensures_update, Hook.plain]
    by_cases null : ptr = 0
    · simp only [null, if_true]
    · rw [if_neg null, if_neg null, allocFree_nested (by change 1 < s.depth + 1; omega)]
      exact depthFree_defaultFree.under inside fun _ s' _ => by rw [leave, ensures_update]

end

/-! ## Only the blocks change -/

section

variable {s s' : State} {sys : Answer} {ptr : Address}

/-- The state with other blocks. -/
def SameTracker (s s' : State) : Prop := s' = { s with blocks := s'.blocks }

theorem SameTracker.trans {s'' : State} (first : SameTracker s s') (second : SameTracker s' s'') :
    SameTracker s s'' := by
  rw [SameTracker] at *
  rw [second, first]

theorem keeps_defaultMalloc {sys : System} {size : Nat} : (defaultMalloc sys size).Maintains (SameTracker s) :=
  .bind (.ite (.update fun _ same => same.trans rfl) (.step fun _ _ _ same e => by cases e; exact same)) fun _ => .pure

theorem keeps_defaultFree : (defaultFree ptr).Maintains (SameTracker s) :=
  .bind .read fun _ => .ite (.update fun _ same => same.trans rfl) (.step fun _ _ _ _ e => by cases e)

theorem keeps_defaultRealloc {sys : System} {size : Nat} : (defaultRealloc sys ptr size).Maintains (SameTracker s) :=
  .ite keeps_defaultMalloc (.ite (.bind .read fun _ => .ite .pure (.step fun _ _ _ _ e => by cases e))
    (.bind keeps_defaultFree fun _ => keeps_defaultMalloc))

theorem Hook.plain_keeps (hook : Hook) : (hook.plain sys).Maintains (SameTracker s) := by
  cases hook with
  | heap call =>
    cases call with
    | malloc size | calloc num size => exact keeps_defaultMalloc
    | realloc ptr size => exact keeps_defaultRealloc
    | free ptr => exact .ite .pure (.bind keeps_defaultFree fun _ => .pure)
  | strdup ptr => exact keeps_defaultMalloc
  | getline ptr => exact keeps_defaultRealloc
  | getaddrinfo => exact .ite keeps_defaultMalloc .pure
  | freeaddrinfo ptr => exact .ite .pure (.bind keeps_defaultFree fun _ => .pure)

/-! ## Functions that call hooks -/

/-- In the middle of a call. -/
structure State.Inside (s : State) : Prop where
  isInitDone : s.isInitDone = true
  depth : 1 ≤ s.depth

theorem SameTracker.inside (same : SameTracker s s') (inside : s.Inside) : s'.Inside := by
  rw [same]
  exact ⟨inside.isInitDone, inside.depth⟩

/-- What a function of the system may ask for depends on the static buffer and the exit handler alone. -/
theorem Hook.Ordinary.congr {hook : Hook} (ordinary : hook.Ordinary s sys) (buf : s'.staticBuf = s.staticBuf)
    (size : s'.staticSize = s.staticSize) (exit : s'.isExitDone = s.isExitDone) : hook.Ordinary s' sys := by
  have static : ∀ ptr, s'.allocIsStatic ptr ↔ s.allocIsStatic ptr := by
    intro ptr
    rw [State.allocIsStatic, State.allocIsStatic, buf, size]
  cases hook with
  | heap call =>
    cases call with
    | malloc | calloc => trivial
    | realloc ptr size | free ptr => exact mt (static ptr).mp ordinary
  | strdup ptr => exact ⟨mt (static ptr).mp ordinary.1, exit.trans ordinary.2⟩
  | getline ptr => exact ⟨mt (static ptr).mp ordinary.1, ordinary.2⟩
  | getaddrinfo => trivial
  | freeaddrinfo ptr => exact mt (static ptr).mp ordinary

theorem Calls.Ordinary.congr {calls : Calls} (ordinary : calls.Ordinary s) (buf : s'.staticBuf = s.staticBuf)
    (size : s'.staticSize = s.staticSize) (exit : s'.isExitDone = s.isExitDone) : calls.Ordinary s' := by
  induction calls with
  | done res => trivial
  | call hook sys rest ih => exact ⟨ordinary.1.congr buf size exit, fun res => ih res (ordinary.2 res)⟩
  | past hook sys rest ih => exact fun res => ih res (ordinary res)

theorem SameTracker.ordinary {calls : Calls} (same : SameTracker s s') (ordinary : calls.Ordinary s) :
    calls.Ordinary s' := by
  rw [same]
  exact ordinary.congr rfl rfl rfl

/-- In the middle of a call it makes no difference whether a function calls the hooks or the functions
    of the system. -/
theorem Calls.through_plain {calls : Calls} {Q : Address → State → Prop} (inside : s.Inside)
    (ordinary : calls.Ordinary s) :
    (calls.through alone.hook).Ensures s Q ↔ (calls.through Hook.plain).Ensures s Q := by
  induction calls generalizing s with
  | done res => exact Iff.rfl
  | call hook sys rest ih =>
    simp only [through, ensures_bind]
    rw [Hook.nested inside.isInitDone inside.depth ordinary.1]
    refine hook.plain_keeps.ensures_congr (show SameTracker s s from rfl) fun res s' same => ?_
    rw [ih res (same.inside inside) (same.ordinary (ordinary.2 res))]
  | past hook sys rest ih =>
    simp only [through, ensures_bind]
    refine hook.plain_keeps.ensures_congr (show SameTracker s s from rfl) fun res s' same => ?_
    rw [ih res (same.inside inside) (same.ordinary (ordinary res))]

theorem Calls.through_keeps (calls : Calls) : (calls.through Hook.plain).Maintains (SameTracker s) := by
  induction calls with
  | done res => exact .pure
  | call hook sys rest ih | past hook sys rest ih => exact .bind hook.plain_keeps ih

end

/-! ## Whole calls -/

section

variable {f : Functions} {s s' : State} {Q : Address → State → Prop}

theorem Functions.Ordinary.congr (ordinary : f.Ordinary s) (buf : s'.staticBuf = s.staticBuf)
    (size : s'.staticSize = s.staticSize) (exit : s'.isExitDone = s.isExitDone) : f.Ordinary s' where
  malloc sys bytes := (ordinary.malloc sys bytes).congr buf size exit
  calloc sys num bytes := (ordinary.calloc sys num bytes).congr buf size exit
  realloc sys ptr bytes := (ordinary.realloc sys ptr bytes).congr buf size exit
  free ptr := (ordinary.free ptr).congr buf size exit
  strdup sys ptr := (ordinary.strdup sys ptr).congr buf size exit
  getline sys lineOld := (ordinary.getline sys lineOld).congr buf size exit
  getaddrinfo sys := (ordinary.getaddrinfo sys).congr buf size exit
  freeaddrinfo ai := (ordinary.freeaddrinfo ai).congr buf size exit

theorem Functions.site_allocTraceNew {run : Answer → Hook → Prog State Address} {sys : System} {ptr : Address}
    {size : Nat} :
    (f.site run).allocTraceNew sys ptr size = alone.allocTraceNew sys ptr size := rfl

theorem Functions.site_allocFree {run : Answer → Hook → Prog State Address} {ptr : Address} :
    (f.site run).allocFree ptr = alone.allocFree ptr := rfl

/-- The records are all that `alloc_free` changes. -/
theorem keeps_allocFree {ptr : Address} :
    (alone.allocFree ptr).Maintains fun t => ∃ r, t = { s with records := r } := by
  have asserts : ∀ {flag : Prop} [Decidable flag],
      (heaphAssert flag : Prog State Unit).Maintains fun t => ∃ r, t = { s with records := r } :=
    .ite .pure (.step fun _ _ _ _ e => by cases e)
  have frees : (Prog.zoom recordsPart (freeRecord ptr)).Maintains fun t => ∃ r, t = { s with records := r } :=
    .zoom (Q := fun _ => True) (fun _ _ _ _ _ => trivial) (fun _ _ => trivial) fun t r ⟨_, e⟩ _ => ⟨r, by rw [e]; rfl⟩
  exact .bind .read fun t => .ite .pure (.ite .pure (.bind asserts fun _ => .bind .read fun _ => .ite .pure frees))

/-- The whole hook is the same over functions of the system that call hooks. -/
theorem Functions.hook_as_plain (initialised : s.isInitDone = true) (outside : 0 ≤ s.depth) (ordinary : f.Ordinary s)
    {hook : Hook} {sys : Answer} :
    ((f.site alone.hook).hook sys hook).Ensures s Q ↔ ((f.site Hook.plain).hook sys hook).Ensures s Q := by
  have inside : { s with depth := s.depth + 1 }.Inside := ⟨initialised, by change 1 ≤ s.depth + 1; omega⟩
  have ready : f.Ordinary { s with depth := s.depth + 1 } := ordinary.congr rfl rfl rfl
  -- `alloc_free` comes before the function of the system.
  have after_free : ∀ {ptr : Address} {calls : Calls} {R : Address → State → Prop},
      calls.Ordinary { s with depth := s.depth + 1 } →
      ((alone.allocFree ptr).Ensures { s with depth := s.depth + 1 } (fun _ s' =>
      (calls.through alone.hook).Ensures s' R) ↔
        (alone.allocFree ptr).Ensures { s with depth := s.depth + 1 } fun _ s' =>
        (calls.through Hook.plain).Ensures s' R) := by
    intro ptr calls R ordinary
    refine (keeps_allocFree (s := { s with depth := s.depth + 1 })).ensures_congr ⟨s.records, rfl⟩ fun _ s' => ?_
    rintro ⟨r, rfl⟩
    exact Calls.through_plain ⟨inside.isInitDone, inside.depth⟩ (ordinary.congr rfl rfl rfl)
  cases hook with
  | heap call =>
    cases call with
    | malloc size =>
      simp only [Site.hook, Site.call, Site.malloc, site_heaphTouch, site_enter, site_defaultMalloc, site_allocTraceNew,
        alone_heaphTouch, alone_enter, ensures_bind, ensures_heaphTouch initialised, enter, ensures_update]
      exact Calls.through_plain inside (ready.malloc _ size)
    | calloc num size =>
      simp only [Site.hook, Site.call, Site.calloc, site_heaphTouch, site_enter, site_defaultCalloc, site_allocTraceNew,
        alone_heaphTouch, alone_enter, ensures_bind, ensures_heaphTouch initialised, enter, ensures_update]
      exact Calls.through_plain inside (ready.calloc _ num size)
    | realloc ptr size =>
      simp only [Site.hook, Site.call, Site.realloc, site_heaphTouch, site_enter, site_read, site_defaultRealloc,
        site_allocTraceNew, site_allocFree, alone_heaphTouch, alone_enter, alone_read, ensures_bind,
        ensures_heaphTouch initialised, enter, ensures_update, ensures_read]
      exact Calls.through_plain inside (ready.realloc _ _ size)
    | free ptr =>
      simp only [Site.hook, Site.call, Site.free, site_heaphTouch, site_enter, site_read, site_defaultFree,
        site_allocFree, alone_heaphTouch, alone_enter, alone_read, ensures_bind, ensures_read, ensures_ite,
        ensures_heaphTouch initialised, enter, ensures_update]
      split
      · exact Iff.rfl
      · split
        · exact Iff.rfl
        · exact after_free (ready.free ptr)
  | strdup ptr =>
    simp only [Site.hook, Site.strdup, site_heaphTouch, site_enter, site_read, site_heaphAssert, site_defaultStrdup,
      site_allocTraceNew, alone_heaphTouch, alone_enter, alone_read, alone_heaphAssert, ensures_bind,
      ensures_heaphTouch initialised, ensures_read, ensures_heaphAssert, enter, ensures_update]
    exact and_congr_right fun _ => and_congr_right fun _ => Calls.through_plain inside (ready.strdup sys ptr)
  | getline ptr =>
    simp only [Site.hook, Site.getline, site_heaphTouch, site_enter, site_read, site_heaphAssert, site_defaultGetline,
      site_allocTraceNew, site_allocFree, alone_heaphTouch, alone_enter, alone_read, alone_heaphAssert, ensures_bind,
      ensures_heaphTouch initialised, ensures_read, ensures_heaphAssert, enter, ensures_update]
    exact and_congr_right fun _ => Calls.through_plain inside (ready.getline sys ptr)
  | getaddrinfo =>
    simp only [Site.hook, Site.getaddrinfo, site_heaphTouch, site_enter, site_defaultGetaddrinfo, site_allocTraceNew,
      alone_heaphTouch, alone_enter, ensures_bind, ensures_heaphTouch initialised, enter, ensures_update]
    exact Calls.through_plain inside (ready.getaddrinfo sys)
  | freeaddrinfo ptr =>
    simp only [Site.hook, Site.freeaddrinfo, site_heaphTouch, site_enter, site_read, site_heaphAssert,
      site_defaultFreeaddrinfo, site_allocFree, alone_heaphTouch, alone_enter, alone_read, alone_heaphAssert,
      ensures_bind, ensures_read, ensures_ite, ensures_heaphAssert, ensures_heaphTouch initialised, enter,
      ensures_update]
    split
    · exact Iff.rfl
    · exact and_congr_right fun _ => after_free (ready.freeaddrinfo ptr)

/-- Functions of the system may call the hooks, and the tracker does not notice: every call of the user ends
    with the same result and the same state as it does over functions that stay past the hooks, and a
    function that the system calls inside a call changes nothing but the blocks. -/
theorem nested_as_plain (initialised : s.isInitDone = true) (outside : 0 ≤ s.depth) (ordinary : f.Ordinary s) :
    (∀ hook sys Q, ((f.site alone.hook).hook sys hook).Ensures s Q ↔ ((f.site Hook.plain).hook sys hook).Ensures s Q) ∧
    ∀ calls : Calls, calls.Ordinary s → 1 ≤ s.depth →
      ∀ res s', (calls.through alone.hook).Returns s res s' → (calls.through Hook.plain).Returns s res s' ∧
      SameTracker s s' := by
  refine ⟨fun hook sys Q => f.hook_as_plain initialised outside ordinary, fun calls asked inside res s' returned => ?_⟩
  have plainly : (calls.through Hook.plain).Returns s res s' :=
    returns_iff_ensures.mpr ((Calls.through_plain ⟨initialised, inside⟩ asked).mp (returns_iff_ensures.mp returned))
  exact ⟨plainly, calls.through_keeps s _ _ rfl plainly⟩

/-- Functions that stay past the hooks, but for a `getaddrinfo` that looks the name up in a buffer which it
    allocates and releases with the hooks. -/
def resolver : Functions where
  malloc sys size := .past (.heap (.malloc size)) ⟨sys, 0, 0, 0⟩ .done
  calloc sys num size := .past (.heap (.calloc num size)) ⟨sys, 0, 0, 0⟩ .done
  realloc sys ptr size := .past (.heap (.realloc ptr size)) ⟨sys, 0, 0, 0⟩ .done
  free ptr := .past (.heap (.free ptr)) ⟨⟨0, false, true, []⟩, 0, 0, 0⟩ .done
  strdup sys ptr := .past (.strdup ptr) sys .done
  getline sys lineOld := .past (.getline lineOld) sys .done
  getaddrinfo sys :=
    .call (.heap (.malloc 512)) ⟨⟨8192, false, true, []⟩, 0, 0, 0⟩ fun buffer =>
      .call (.heap (.free buffer)) ⟨⟨0, false, true, []⟩, 0, 0, 0⟩ fun _ => .past .getaddrinfo sys .done
  freeaddrinfo ai := .past (.freeaddrinfo ai) ⟨⟨0, false, true, []⟩, 0, 0, 0⟩ .done

theorem resolver_ordinary : resolver.Ordinary (.start 0) := by
  have heap : ∀ ptr, ¬ (State.start 0).allocIsStatic ptr := fun ptr static => static.1 (Nat.le_zero.mp static.2.2)
  constructor <;> intros <;> simp [resolver, Calls.Ordinary, Hook.Ordinary, heap]

/-- A lookup that fails leaves no trace. -/
theorem resolver_as_plain :
    ((resolver.site alone.hook).hook ⟨⟨4096, false, true, []⟩, -2, 0, 48⟩ .getaddrinfo).Ensures (.start 0)
    fun res s => res = 0 ∧ s = .start 0 := by
  rw [(nested_as_plain rfl le_rfl resolver_ordinary).1]
  simp only [Site.hook, Site.getaddrinfo, Functions.site_heaphTouch, Functions.site_enter,
    Functions.site_defaultGetaddrinfo, Functions.site_leave, alone_heaphTouch, alone_enter, alone_leave, resolver,
    Calls.through, Hook.plain, ensures_bind, ensures_heaphTouch (show (State.start 0).isInitDone = true from rfl),
    enter, leave, defaultMalloc, defaultFree, defaultGetaddrinfo]
  simp [State.start, State.addBlock, State.dropBlock, BlocksWith.without]

end

end SysprogLabs.HeapHelp
