import SysprogLabs.HeapHelp.Initialisation

/-! # A new process

What a process with all its variables does when its calls come one after the other.  The first of them
that comes to `heaph_touch` initialises the tracker, if what `dlsym` and `atexit` call while it does is
served; from then on the process does what the other modules say, from `State.start` on.
-/

namespace SysprogLabs.HeapHelp

open Prog

/-! ## Inside the initialisation -/

/-- What the static allocator has given out: nothing is mapped while `buf` is 0. -/
structure Region where
  buf : Address
  used : Nat

namespace Region

def base (r : Region) (buffer : Option Address) : Option Address := if r.buf = 0 then buffer else some r.buf

def Static (r : Region) (ptr : Address) : Prop := (State.start r.buf).allocIsStatic ptr

/-- A block is given out. -/
def Allots (buffer : Option Address) (r : Region) (size : Nat) (r' : Region) : Prop :=
  ∃ b, r.base buffer = some b ∧ size < 16 * 1024 - r.used ∧ r' = ⟨b, r.used + size⟩

end Region

/-- What a call does that `dlsym` makes.  Only the static allocator is there, and it has no `realloc`. -/
def Serves (buffer : Option Address) (r : Region) (event : Hook × Answer) (r' : Region) : Prop :=
  match event.1 with
  | .heap (.malloc size) => r.Allots buffer size r'
  | .heap (.calloc num size) => r.Allots buffer (size * num % 2 ^ 64) r'
  | .heap (.free ptr) => (ptr = 0 ∨ r.Static ptr) ∧ r' = r
  | .freeaddrinfo ai => ai = 0 ∧ r' = r
  | _ => False

/-- A call that `atexit` makes: the functions of the system are there, but nothing can be tracked yet. -/
def Region.Quiet (r : Region) (event : Hook × Answer) : Prop :=
  match event.1 with
  | .heap (.malloc _) | .heap (.calloc _ _) => event.2.result = 0
  | .heap (.realloc ptr _) => (ptr = 0 ∨ r.Static ptr) ∧ event.2.result = 0
  | .heap (.free ptr) => ptr = 0 ∨ r.Static ptr
  | .strdup ptr => ¬ r.Static ptr ∧ event.2.result = 0
  | .getline lineOld => lineOld = 0 ∧ event.2.result = 0
  | .getaddrinfo => event.2.rc = 0 → event.2.result = 0
  | .freeaddrinfo ai => ai = 0

/-- In `heaph_init`, at a `depth`. -/
def Globals.booting (r : Region) (depth : Int) : Globals where
  tracker := { State.start r.buf with isInitDone := false, depth := depth }
  initLock := true
  initLockCount := 1
  staticUsed := r.used
  defaults := { Defaults.null with malloc := .static, free := .static, calloc := .static }
  reportMode := .leaks
  exitHandlers := 0

/-- In `heaph_init`, when the functions of the system are found. -/
def Globals.found (r : Region) (mode : ReportMode) (depth : Int) : Globals :=
  { Globals.booting r depth with defaults := .system, reportMode := mode }

/-- Behind `heaph_touch`. -/
def Globals.ready (r : Region) (mode : ReportMode) (s : State) : Globals where
  tracker := s
  initLock := false
  initLockCount := 0
  staticUsed := r.used
  defaults := .system
  reportMode := mode
  exitHandlers := 1

/-- The world lets the initialisation come to its end. -/
def World.Starts (w : World) (r : Region) : Prop :=
  Run (Serves w.buffer) ⟨0, 0⟩ (["malloc", "free", "calloc", "realloc", "strdup", "getline", "getaddrinfo",
    "freeaddrinfo"].flatMap w.dlsym) r ∧ ∀ event ∈ w.atexit, r.Quiet event

namespace Startup

variable {touch again init : Code Globals Unit} {buffer : Option Address} {g : Globals} {r : Region} {sys : Answer}
  {mode : ReportMode}

section

variable {α : Type} (pointer : Defaults → Default) {static : Prog Globals α} {system : Prog State α}
    {Q : α → Globals → Prop}

theorem callDefault_static (points : pointer g.defaults = .static) :
    (callDefault pointer static system).Ensures g Q ↔ static.Ensures g Q := by
  simp [callDefault, points]

theorem callDefault_system (points : pointer g.defaults = .system) :
    (callDefault pointer static system).Ensures g Q ↔
      system.Ensures g.tracker fun a s => Q a { g with tracker := s } := by
  simp [callDefault, points]

theorem callDefault_null (points : pointer g.defaults = .null) :
    (callDefault pointer static system).Ensures g Q ↔ False := by
  simp [callDefault, points]

end

/-- There is nothing to do behind the initialisation and inside of it. -/
theorem touch_passes {Q : Unit → Globals → Prop} (passes : g.tracker.isInitDone = true ∨ 0 < g.initLockCount) :
    (heaphTouch init).straight.Ensures g Q ↔ Q () g := by
  by_cases done : g.tracker.isInitDone = true
  · simp [heaphTouch, done]
  · have inside : 0 < g.initLockCount := passes.resolve_left done
    simp [heaphTouch, done, inside]

/-- The tracker is traced into as in a single thread. -/
theorem allocTraceNew_tracker {sys : System} {ptr size : Nat} {Q : Unit → Globals → Prop} :
    ((startup touch buffer).allocTraceNew sys ptr size).straight.Ensures g Q ↔
      (alone.allocTraceNew sys ptr size).Ensures g.tracker fun a s => Q a { g with tracker := s } := by
  simp only [Site.allocTraceNew, startup, alone, Code.ensures_straight_bind, Code.ensures_straight_lift,
    Code.ensures_straight_ite, Code.ensures_straight_pure, ensures_bind, ensures_ite, ensures_pure, ensures_read, id,
    ensures_heaphAssert, ensures_zoom, trackerLens_get, trackerLens_set, recordsPart_get, recordsPart_set]

theorem allocFree_tracker {ptr : Address} {Q : Unit → Globals → Prop} :
    ((startup touch buffer).allocFree ptr).straight.Ensures g Q ↔
      (alone.allocFree ptr).Ensures g.tracker fun a s => Q a { g with tracker := s } := by
  simp only [Site.allocFree, startup, alone, Code.ensures_straight_bind, Code.ensures_straight_lift,
    Code.ensures_straight_ite, Code.ensures_straight_pure, ensures_bind, ensures_ite, ensures_pure, ensures_read, id,
    ensures_heaphAssert, ensures_zoom, trackerLens_get, trackerLens_set, recordsPart_get, recordsPart_set]

theorem allocTraceNew_static {s : State} {sys : System} {ptr size : Nat} {Q : Unit → State → Prop}
    (static : s.allocIsStatic ptr) :
    (alone.allocTraceNew sys ptr size).Ensures s Q ↔ Q () s := by
  simp [Site.allocTraceNew, static]

/-- Before the initialisation is done nothing can be tracked. -/
theorem allocTraceNew_early {s : State} {sys : System} {ptr size : Nat} {Q : Unit → State → Prop}
    (heap : ¬ s.allocIsStatic ptr) (first : s.depth = 1) (early : s.isInitDone = false) :
    (alone.allocTraceNew sys ptr size).Ensures s Q ↔ False := by
  simp [Site.allocTraceNew, ensures_heaphAssert, heap, first, early]

theorem allocFree_early {s : State} {ptr : Address} {Q : Unit → State → Prop} (heap : ¬ s.allocIsStatic ptr)
    (first : s.depth = 1) (early : s.isInitDone = false) : (alone.allocFree ptr).Ensures s Q ↔ False := by
  simp [Site.allocFree, ensures_heaphAssert, heap, first, early]

theorem staticMalloc_booting {size : Nat} {depth : Int} {Q : Address → Globals → Prop}
    (nonnull : ∀ b, buffer = some b → b ≠ 0) :
    (staticMalloc buffer size).Ensures (.booting r depth) Q ↔ ∃ b, r.base buffer = some b ∧ size < 16 * 1024 - r.used ∧
      Q (b + r.used) (.booting ⟨b, r.used + size⟩ depth) := by
  have enough : size < 16 * 1024 - r.used → r.used ≤ 16 * 1024 := by omega
  by_cases unmapped : r.buf = 0
  · cases mapping : buffer with
    | none =>
      simp [staticMalloc, staticAllocatorTouch, ensures_heaphAssert, Globals.booting, State.start, Region.base,
        unmapped]
    | some b =>
      have mapped : b ≠ 0 := nonnull b mapping
      simpa [staticMalloc, staticAllocatorTouch, ensures_heaphAssert, Globals.booting, State.start, Region.base,
        unmapped, mapped]
        using fun fits _ => enough fits
  · simpa [staticMalloc, staticAllocatorTouch, ensures_heaphAssert, Globals.booting, State.start, Region.base, unmapped]
      using fun fits _ => enough fits

theorem enter_booting {Q : Unit → Globals → Prop} :
    (Prog.zoom trackerLens enter).Ensures (.booting r 0) Q ↔ Q () (.booting r 1) := by
  simp [enter, Globals.booting, State.start]

theorem leave_booting {Q : Unit → Globals → Prop} :
    (Prog.zoom trackerLens leave).Ensures (.booting r 1) Q ↔ Q () (.booting r 0) := by
  simp [leave, Globals.booting, State.start]

theorem base_nonnull {b : Address} (nonnull : ∀ b, buffer = some b → b ≠ 0) (base : r.base buffer = some b) :
    b ≠ 0 := by
  by_cases unmapped : r.buf = 0
  · simp only [Region.base, unmapped, if_true] at base
    exact nonnull b base
  · simp only [Region.base, unmapped, if_false, Option.some.injEq] at base
    exact base ▸ unmapped

theorem static_block {b used : Nat} (mapped : b ≠ 0) (inside : used ≤ 16 * 1024) :
    (State.start b).allocIsStatic (b + used) := by
  have nonzero : b + used ≠ 0 := fun none => mapped (Nat.eq_zero_of_add_eq_zero_right none)
  have length : (State.start b).staticSize = 16 * 1024 := if_neg mapped
  refine ⟨nonzero, Nat.le_add_right b used, ?_⟩
  rw [length]
  exact Nat.add_le_add_left inside b

/-- How the hooks that allocate end. -/
def tracked (site : Site (Code Globals)) (sys : System) (size : Nat) (res : Address) : Code Globals Address := do
  if res ≠ 0 then site.allocTraceNew sys res size
  site.leave
  return res

/-- A block of the static allocator is not tracked. -/
theorem staticMalloc_untracked {sys : System} {size size' : Nat} {Q : Globals → Prop}
    (nonnull : ∀ b, buffer = some b → b ≠ 0) :
    (staticMalloc buffer size).Ensures (.booting r 1) (fun res g =>
        (tracked (startup touch buffer) sys size' res).straight.Ensures g fun _ g => Q g) ↔
      ∃ r', r.Allots buffer size r' ∧ Q (.booting r' 0) := by
  have behind : ∀ b, r.base buffer = some b → size < 16 * 1024 - r.used →
      ((tracked (startup touch buffer) sys size' (b + r.used)).straight.Ensures (.booting ⟨b, r.used + size⟩ 1)
          (fun _ g => Q g) ↔
        Q (.booting ⟨b, r.used + size⟩ 0)) := by
    intro b base fits
    have static : (Globals.booting ⟨b, r.used + size⟩ 1).tracker.allocIsStatic (b + r.used) :=
      static_block (base_nonnull nonnull base) (by omega)
    rw [tracked, if_pos static.1]
    simp only [Code.ensures_straight_bind, allocTraceNew_tracker, allocTraceNew_static static, startup_leave,
      Code.ensures_straight_lift, Code.ensures_straight_pure]
    exact leave_booting
  rw [staticMalloc_booting nonnull]
  constructor
  · rintro ⟨b, base, fits, holds⟩
    exact ⟨_, ⟨b, base, fits, rfl⟩, (behind b base fits).mp holds⟩
  · rintro ⟨-, ⟨b, base, fits, rfl⟩, holds⟩
    exact ⟨b, base, fits, (behind b base fits).mpr holds⟩

/-- As long as nothing is tracked, nothing can be released. -/
theorem released_early {ptr : Address} {K : Unit → Globals → Prop} (same : g.tracker = (Globals.booting r 0).tracker)
    (heap : ¬ r.Static ptr) :
    (Prog.zoom trackerLens enter).Ensures g (fun _ g => ((startup touch buffer).allocFree ptr).straight.Ensures g K) ↔
    False := by
  have heap' : ¬ { g.tracker with depth := g.tracker.depth + 1 }.allocIsStatic ptr := by
    rw [same]
    exact heap
  simp only [enter, ensures_zoom, ensures_update, trackerLens_get, trackerLens_set, allocFree_tracker]
  exact allocFree_early heap' (by rw [same]; rfl) (by rw [same]; rfl)

theorem free_early {ptr : Address} {Q : Globals → Prop} (same : g.tracker = (Globals.booting r 0).tracker)
    (inside : 0 < g.initLockCount) :
    (hook (heaphTouch again) buffer sys (.heap (.free ptr))).straight.Ensures g (fun _ g => Q g) ↔
      (ptr = 0 ∨ r.Static ptr) ∧ Q g := by
  have static_iff : g.tracker.allocIsStatic ptr ↔ r.Static ptr := by
    rw [same]
    exact Iff.rfl
  by_cases null : ptr = 0
  · simp [hook, Site.hook, Site.call, Site.free, null]
  · by_cases static : r.Static ptr
    · simp [hook, Site.hook, Site.call, Site.free, startup_read, startup_heaphTouch, startup_enter, null,
        static_iff.mpr static, static]
    · simp only [hook, Site.hook, Site.call, Site.free, startup_read, startup_heaphTouch, startup_enter, null, if_false,
        Code.ensures_straight_bind, Code.ensures_straight_lift, ensures_read, id, if_neg (static_iff.not.mpr static),
        touch_passes (.inr inside), released_early same static, static, or_self, false_and]

theorem freeaddrinfo_early {ai : Address} {Q : Globals → Prop} (same : g.tracker = (Globals.booting r 0).tracker)
    (inside : 0 < g.initLockCount) :
    (hook (heaphTouch again) buffer sys (.freeaddrinfo ai)).straight.Ensures g (fun _ g => Q g) ↔ ai = 0 ∧ Q g := by
  have static_iff : g.tracker.allocIsStatic ai ↔ r.Static ai := by
    rw [same]
    exact Iff.rfl
  by_cases null : ai = 0
  · simp [hook, Site.hook, Site.freeaddrinfo, null]
  · by_cases static : r.Static ai
    · simp [hook, Site.hook, Site.freeaddrinfo, startup_read, startup_heaphAssert, startup_heaphTouch, startup_enter,
        null, static_iff.mpr static, ensures_heaphAssert]
    · simp only [hook, Site.hook, Site.freeaddrinfo, startup_read, startup_heaphAssert, startup_heaphTouch,
        startup_enter, null, if_false, Code.ensures_straight_bind, Code.ensures_straight_lift, ensures_read, id,
        ensures_heaphAssert, touch_passes (.inr inside), released_early same static, and_false, false_and]

/-- A call that `dlsym` makes. -/
theorem hook_booting {event : Hook × Answer} {Q : Globals → Prop} (nonnull : ∀ b, buffer = some b → b ≠ 0) :
    (hook (heaphTouch again) buffer event.2 event.1).straight.Ensures (.booting r 0) (fun _ g => Q g) ↔
      ∃ r', Serves buffer r event r' ∧ Q (.booting r' 0) := by
  have inside : (Globals.booting r 0).tracker.isInitDone = true ∨ 0 < (Globals.booting r 0).initLockCount :=
    .inr Int.one_pos
  obtain ⟨h, sys⟩ := event
  cases h with
  | heap call =>
    cases call with
    | malloc size =>
      simp only [hook, Site.hook, Site.call, Site.malloc, startup_heaphTouch, startup_enter, startup_defaultMalloc,
        Code.ensures_straight_bind, touch_passes inside, Code.ensures_straight_lift, enter_booting,
        callDefault_static (g := Globals.booting r 1) Defaults.malloc rfl]
      exact staticMalloc_untracked nonnull
    | calloc num size =>
      simp only [hook, Site.hook, Site.call, Site.calloc, startup_heaphTouch, startup_enter, startup_defaultCalloc,
        Code.ensures_straight_bind, touch_passes inside, Code.ensures_straight_lift, enter_booting,
        callDefault_static (g := Globals.booting r 1) Defaults.calloc rfl]
      exact staticMalloc_untracked nonnull
    | realloc ptr size =>
      simp only [hook, Site.hook, Site.call, Site.realloc, startup_heaphTouch, startup_enter, startup_read,
        startup_defaultRealloc, Code.ensures_straight_bind, touch_passes inside, Code.ensures_straight_lift,
        enter_booting, ensures_read, callDefault_null (g := Globals.booting r 1) Defaults.realloc rfl, Serves,
        false_and, exists_false]
    | free ptr => exact (free_early rfl Int.one_pos).trans (by simp [Serves, and_assoc])
  | strdup ptr =>
    simp only [hook, Site.hook, Site.strdup, startup_heaphTouch, startup_read, startup_heaphAssert, startup_enter,
      startup_defaultStrdup, Code.ensures_straight_bind, touch_passes inside, Code.ensures_straight_lift, enter_booting,
      ensures_read, ensures_heaphAssert, callDefault_null (g := Globals.booting r 1) Defaults.strdup rfl, Serves,
      false_and, and_false, exists_false]
  | getline lineOld =>
    simp only [hook, Site.hook, Site.getline, startup_heaphTouch, startup_enter, startup_read, startup_heaphAssert,
      startup_defaultGetline, Code.ensures_straight_bind, touch_passes inside, Code.ensures_straight_lift,
      enter_booting, ensures_read, ensures_heaphAssert,
      callDefault_null (g := Globals.booting r 1) Defaults.getline rfl, Serves, false_and, and_false, exists_false]
  | getaddrinfo =>
    simp only [hook, Site.hook, Site.getaddrinfo, startup_heaphTouch, startup_enter, startup_defaultGetaddrinfo,
      Code.ensures_straight_bind, touch_passes inside, Code.ensures_straight_lift, enter_booting,
      callDefault_null (g := Globals.booting r 1) Defaults.getaddrinfo rfl, Serves, false_and, exists_false]
  | freeaddrinfo ai => exact (freeaddrinfo_early (r := r) rfl Int.one_pos).trans (by simp [Serves, and_assoc])

/-- The calls that `dlsym` makes, one after the other. -/
theorem hooks_booting {events : List (Hook × Answer)} {Q : Unit → Globals → Prop}
    (nonnull : ∀ b, buffer = some b → b ≠ 0) :
    (hooks (heaphTouch again) buffer events).straight.Ensures (.booting r 0) Q ↔
      ∃ r', Run (Serves buffer) r events r' ∧ Q () (.booting r' 0) := by
  induction events generalizing r with
  | nil =>
    simp only [hooks, Code.ensures_straight_pure]
    constructor
    · exact fun holds => ⟨r, .nil r, holds⟩
    · rintro ⟨r', run, holds⟩
      cases run
      exact holds
  | cons event events ih =>
    rw [hooks, Code.ensures_straight_bind]
    refine (hook_booting nonnull).trans ⟨?_, ?_⟩
    · rintro ⟨r₁, serves, rest⟩
      obtain ⟨r', run, holds⟩ := ih.mp rest
      exact ⟨r', .cons serves run, holds⟩
    · rintro ⟨r', run, holds⟩
      cases run with
      | cons serves run => exact ⟨_, serves, ih.mpr ⟨r', run, holds⟩⟩

/-- Where a block cannot be dealt with, the allocator must not give one out. -/
theorem defaultMalloc_refused {sys : System} {size : Nat} {s : State} {K : Address → State → Prop}
    (refused : sys.result ≠ 0 → ¬ K sys.result (s.addBlock (sys.result, size))) :
    (defaultMalloc sys size).Ensures s K ↔ sys.result = 0 ∧ K 0 s := by
  by_cases failed : sys.result = 0
  · simp [defaultMalloc, failed]
  · simp [defaultMalloc, failed, refused failed]

theorem defaultRealloc_null {sys : System} {size : Nat} :
    defaultRealloc sys 0 size = defaultMalloc sys size := if_pos rfl

/-- There is no block to release. -/
theorem defaultRealloc_missing {sys : System} {ptr size : Nat} {s : State} {K : Address → State → Prop}
    (nonnull : ptr ≠ 0)
    (empty : s.blocks = []) : (defaultRealloc sys ptr size).Ensures s K ↔ False := by
  by_cases kept : sys.result = 0 ∧ sys.released = false
  · simp [defaultRealloc, nonnull, kept, empty]
  · simp [defaultRealloc, nonnull, kept, empty, defaultFree]

/-- A call that `atexit` makes. -/
theorem hook_found {event : Hook × Answer} {Q : Globals → Prop}
    (heap : event.2.result ≠ 0 → ¬ r.Static event.2.result) :
    (hook (heaphTouch again) buffer event.2 event.1).straight.Ensures (.found r mode 0) (fun _ g => Q g) ↔
      r.Quiet event ∧ Q (.found r mode 0) := by
  have inside : (Globals.found r mode 0).tracker.isInitDone = true ∨ 0 < (Globals.found r mode 0).initLockCount :=
    .inr Int.one_pos
  have enters : ∀ {Q : Unit → Globals → Prop}, (Prog.zoom trackerLens enter).Ensures (.found r mode 0) Q ↔
      Q () (.found r mode 1) := by
    intro Q
    simp [enter, Globals.found, Globals.booting, State.start]
  have leaves : ∀ {Q : Unit → Globals → Prop}, (Prog.zoom trackerLens leave).Ensures (.found r mode 1) Q ↔
      Q () (.found r mode 0) := by
    intro Q
    simp [leave, Globals.found, Globals.booting, State.start]
  have traces : ∀ {block : Address × Nat} {size : Nat} {rest : Unit → State → Prop}, event.2.result ≠ 0 →
      ((alone.allocTraceNew event.2.toSystem event.2.result size).Ensures
        ((Globals.found r mode 1).tracker.addBlock block) rest ↔ False) :=
    fun given => allocTraceNew_early (heap given) rfl rfl
  obtain ⟨h, sys⟩ := event
  cases h with
  | heap call =>
    cases call with
    | malloc size =>
      simp only [hook, Site.hook, Site.call, Site.malloc, startup_heaphTouch, startup_enter, startup_defaultMalloc,
        Code.ensures_straight_bind, touch_passes inside, Code.ensures_straight_lift, enters,
        callDefault_system (g := Globals.found r mode 1) Defaults.malloc rfl]
      rw [defaultMalloc_refused fun given => by simp [given, allocTraceNew_tracker, traces given]]
      simp only [ne_eq, not_true, if_false, Code.ensures_straight_bind, Code.ensures_straight_pure]
      exact and_congr_right' leaves
    | calloc num size =>
      simp only [hook, Site.hook, Site.call, Site.calloc, startup_heaphTouch, startup_enter, startup_defaultCalloc,
        Code.ensures_straight_bind, touch_passes inside, Code.ensures_straight_lift, enters,
        callDefault_system (g := Globals.found r mode 1) Defaults.calloc rfl]
      rw [defaultMalloc_refused fun given => by simp [given, allocTraceNew_tracker, traces given]]
      simp only [ne_eq, not_true, if_false, Code.ensures_straight_bind, Code.ensures_straight_pure]
      exact and_congr_right' leaves
    | realloc ptr size =>
      simp only [hook, Site.hook, Site.call, Site.realloc, startup_heaphTouch, startup_enter, startup_read,
        startup_defaultRealloc, Code.ensures_straight_bind, touch_passes inside, Code.ensures_straight_lift, enters,
        ensures_read, id, callDefault_system (g := Globals.found r mode 1) Defaults.realloc rfl]
      by_cases nothing : ptr = 0 ∨ r.Static ptr
      · -- A static block is passed on as `NULL`, so there is nothing to move.
        have null : (if (Globals.found r mode 1).tracker.allocIsStatic ptr then 0 else ptr) = 0 :=
          ite_eq_left_iff.mpr fun heap => nothing.resolve_right heap
        rw [null, defaultRealloc_null,
          defaultMalloc_refused fun given => by simp [given, allocTraceNew_tracker, traces given]]
        simp only [ne_eq, not_true, and_false, if_false, false_and, Code.ensures_straight_bind,
          Code.ensures_straight_pure, Region.Quiet, nothing, true_and]
        exact and_congr_right' leaves
      · obtain ⟨nonnull, heap⟩ := not_or.mp nothing
        have here : ¬ (Globals.found r mode 1).tracker.allocIsStatic ptr := heap
        simp only [if_neg here, defaultRealloc_missing (s := (Globals.found r mode 1).tracker) nonnull rfl,
          Region.Quiet, nothing, false_and]
    | free ptr => exact free_early rfl Int.one_pos
  | strdup ptr =>
    have here : (Globals.found r mode 0).tracker.allocIsStatic ptr ↔ r.Static ptr := Iff.rfl
    have running : (Globals.found r mode 0).tracker.isExitDone = false := rfl
    simp only [hook, Site.hook, Site.strdup, startup_heaphTouch, startup_read, startup_heaphAssert, startup_enter,
      startup_defaultStrdup, Code.ensures_straight_bind, touch_passes inside, Code.ensures_straight_lift, ensures_read,
      id, ensures_heaphAssert, running, true_and, here, enters,
      callDefault_system (g := Globals.found r mode 1) Defaults.strdup rfl]
    rw [defaultMalloc_refused fun given => by simp [given, allocTraceNew_tracker, traces given]]
    simp only [ne_eq, not_true, if_false, Code.ensures_straight_bind, Code.ensures_straight_pure, Region.Quiet,
      and_assoc]
    exact and_congr_right' (and_congr_right' leaves)
  | getline lineOld =>
    have here : (Globals.found r mode 1).tracker.allocIsStatic lineOld ↔ r.Static lineOld := Iff.rfl
    simp only [hook, Site.hook, Site.getline, startup_heaphTouch, startup_enter, startup_read, startup_heaphAssert,
      startup_defaultGetline, Code.ensures_straight_bind, touch_passes inside, Code.ensures_straight_lift, enters,
      ensures_read, id, ensures_heaphAssert, here,
      callDefault_system (g := Globals.found r mode 1) Defaults.getline rfl]
    by_cases null : lineOld = 0
    · have heap : ¬ r.Static lineOld := fun static => static.1 null
      subst null
      rw [defaultRealloc_null, defaultMalloc_refused fun given => by simp [given, allocTraceNew_tracker, traces given]]
      simp only [heap, not_false_iff, ne_eq, not_true, and_false, if_false, false_and, Code.ensures_straight_bind,
        Code.ensures_straight_pure, Region.Quiet, true_and]
      exact and_congr_right' leaves
    · simp only [defaultRealloc_missing (s := (Globals.found r mode 1).tracker) null rfl, Region.Quiet, null, and_false,
        false_and]
  | getaddrinfo =>
    simp only [hook, Site.hook, Site.getaddrinfo, startup_heaphTouch, startup_enter, startup_defaultGetaddrinfo,
      Code.ensures_straight_bind, touch_passes inside, Code.ensures_straight_lift, enters,
      callDefault_system (g := Globals.found r mode 1) Defaults.getaddrinfo rfl, defaultGetaddrinfo]
    by_cases succeeds : sys.rc = 0
    · simp only [succeeds, if_true]
      rw [defaultMalloc_refused fun given => by simp [given, allocTraceNew_tracker, traces given]]
      simp only [ne_eq, not_true, and_false, if_false, Code.ensures_straight_bind, Code.ensures_straight_pure,
        Region.Quiet, succeeds, forall_const]
      exact and_congr_right' leaves
    · simp only [succeeds, if_false, ensures_pure, false_and, Code.ensures_straight_bind, Code.ensures_straight_pure,
        Region.Quiet, false_imp_iff, true_and]
      exact leaves
  | freeaddrinfo ai => exact freeaddrinfo_early (r := r) rfl Int.one_pos

/-- The calls that `atexit` makes, one after the other. -/
theorem hooks_found {events : List (Hook × Answer)} {Q : Unit → Globals → Prop}
    (heap : ∀ event ∈ events, event.2.result ≠ 0 → ¬ r.Static event.2.result) :
    (hooks (heaphTouch again) buffer events).straight.Ensures (.found r mode 0) Q ↔
      (∀ event ∈ events, r.Quiet event) ∧ Q () (.found r mode 0) := by
  induction events with
  | nil => simp [hooks]
  | cons event events ih =>
    rw [List.forall_mem_cons] at heap
    rw [hooks, Code.ensures_straight_bind, hook_found heap.1, ih heap.2, List.forall_mem_cons, and_assoc]

/-! ## From the start of the process -/

theorem run_then {σ ℓ : Type} {step : σ → ℓ → σ → Prop} {s : σ} {ls ls' : List ℓ} {P : σ → Prop} :
    (∃ s₁, Run step s ls s₁ ∧ ∃ s₂, Run step s₁ ls' s₂ ∧ P s₂) ↔ ∃ s₂, Run step s (ls ++ ls') s₂ ∧ P s₂ := by
  constructor
  · rintro ⟨s₁, first, s₂, second, holds⟩
    exact ⟨s₂, first.append second, holds⟩
  · rintro ⟨s₂, run, holds⟩
    obtain ⟨s₁, first, second⟩ := run.split
    exact ⟨s₁, first, s₂, second, holds⟩

variable {w : World}

theorem serves_base {r' : Region} {event : Hook × Answer} (base : r.buf = 0 ∨ buffer = some r.buf)
    (serves : Serves buffer r event r') : r'.buf = 0 ∨ buffer = some r'.buf := by
  have allots : ∀ {size : Nat}, r.Allots buffer size r' → r'.buf = 0 ∨ buffer = some r'.buf := by
    rintro size ⟨b, at_b, -, rfl⟩
    -- Only the first block maps the buffer.
    by_cases unmapped : r.buf = 0
    · exact .inr (by simpa [Region.base, unmapped] using at_b)
    · obtain rfl : r.buf = b := by simpa [Region.base, unmapped] using at_b
      exact base
  obtain ⟨h, sys⟩ := event
  cases h with
  | heap call =>
    cases call with
    | malloc size | calloc num size => exact allots serves
    | realloc ptr size => exact serves.elim
    | free ptr => exact serves.2 ▸ base
  | strdup | getline | getaddrinfo => exact serves.elim
  | freeaddrinfo ai => exact serves.2 ▸ base

/-- The static buffer is where the world maps it. -/
theorem heap_start {events : List (Hook × Answer)} {ptr : Address} (run : Run (Serves w.buffer) ⟨0, 0⟩ events r)
    (heap : ∀ b, w.buffer = some b → ¬ (State.start b).allocIsStatic ptr) : ¬ r.Static ptr := by
  have base : r.buf = 0 ∨ w.buffer = some r.buf :=
    run.invariant (.inl rfl) fun _ _ _ => serves_base
  obtain unmapped | mapped := base
  · simp [Region.Static, State.allocIsStatic, State.start, unmapped]
  · exact heap r.buf mapped

theorem dlsym_ensures {name : String} {Q : Default → Globals → Prop} :
    (dlsym again w name).straight.Ensures (.booting r 0) Q ↔
      ∃ r', Run (Serves w.buffer) r (w.dlsym name) r' ∧ Q .system (.booting r' 0) := by
  simp only [dlsym, Code.ensures_straight_bind, hooks_booting w.nonnull, Code.ensures_straight_pure]

theorem chooseMode_ensures {hhReport : Option String} {Q : Unit → Globals → Prop} :
    (chooseMode hhReport).Ensures { g with reportMode := .leaks } Q ↔
    Q () { g with reportMode := reportMode hhReport } := by
  cases hhReport with
  | none => simp [chooseMode, reportMode]
  | some value =>
    by_cases verbose : value = "v"
    · simp [chooseMode, reportMode, verbose]
    · by_cases leaks : value = "l"
      · simp [chooseMode, reportMode, leaks]
      · by_cases quiet : value = "q"
        · simp [chooseMode, reportMode, quiet]
        · simp [chooseMode, reportMode, verbose, leaks, quiet]

theorem heaphInit_ensures {Q : Unit → Globals → Prop} :
    (heaphInit again w).straight.Ensures { Globals.zero with initLock := true, initLockCount := 1 } Q ↔
      ∃ r, w.Starts r ∧ Q () { Globals.found r (reportMode w.hhReport) 0 with exitHandlers := 1 } := by
  have chooses : ∀ {r : Region} {Q : Unit → Globals → Prop},
      (chooseMode w.hhReport).Ensures { Globals.booting r 0 with
        defaults := ⟨.system, .system, .system, .system, .system, .system, .system, .system⟩ } Q ↔
          Q () (.found r (reportMode w.hhReport) 0) :=
    fun {r Q} => chooseMode_ensures (g := Globals.found r .leaks 0)
  have exits : ∀ {r : Region},
      Run (Serves w.buffer) ⟨0, 0⟩ (["malloc", "free", "calloc", "realloc", "strdup", "getline", "getaddrinfo",
        "freeaddrinfo"].flatMap w.dlsym) r →
      ((hooks (heaphTouch again) w.buffer w.atexit).straight.Ensures (.found r (reportMode w.hhReport) 0) (fun _ g =>
        Q () { g with exitHandlers := g.exitHandlers + 1 }) ↔
      (∀ event ∈ w.atexit, r.Quiet event) ∧
        Q () { Globals.found r (reportMode w.hhReport) 0 with exitHandlers := 1 }) :=
    fun run => hooks_found fun event mem given => heap_start run (w.apart event mem given)
  simp only [heaphInit, Code.ensures_straight_bind, Code.ensures_straight_lift, ensures_update]
  refine (dlsym_ensures (r := ⟨0, 0⟩)).trans ?_
  -- The eight lookups are one run of the static allocator.
  simp only [dlsym_ensures, chooses, atexit, Code.ensures_straight_bind, Code.ensures_straight_lift, ensures_update,
    run_then]
  simp only [List.flatMap_cons, List.flatMap_nil, List.append_nil] at exits
  simp only [World.Starts, List.flatMap_cons, List.flatMap_nil, List.append_nil, and_assoc]
  exact exists_congr fun r => and_congr_right exits

/-- `heaph_touch` in a new process. -/
theorem touch_zero {Q : Unit → Globals → Prop} :
    (heaphTouch (heaphInit again w)).straight.Ensures .zero Q ↔
      ∃ r, w.Starts r ∧ Q () (.ready r (reportMode w.hhReport) (.start r.buf)) := by
  have acquires : ∀ {Q : Unit → Globals → Prop}, spinlockAcq.Ensures .zero Q ↔
      Q () { Globals.zero with initLock := true } := by
    intro Q
    -- No other thread holds the lock.
    rw [spinlockAcq, ensures_loop]
    simp [Globals.zero]
  have locks : ∀ {Q : Unit → Globals → Prop}, heaphLock.Ensures .zero Q ↔
      Q () { Globals.zero with initLock := true, initLockCount := 1 } := by
    intro Q
    have free : Globals.zero.initLockCount = 0 := rfl
    simp only [heaphLock, ensures_bind, ensures_read, ensures_when, free, if_true, acquires, ensures_update, zero_add]
  have unlocks : ∀ {r : Region} {Q : Unit → Globals → Prop},
      heaphUnlock.Ensures { Globals.found r (reportMode w.hhReport) 0 with
        tracker := State.start r.buf, exitHandlers := 1 } Q ↔
          Q () (.ready r (reportMode w.hhReport) (.start r.buf)) := by
    intro r Q
    simp [heaphUnlock, spinlockRel, Globals.found, Globals.booting, Globals.ready, ensures_heaphAssert]
  have new : Globals.zero.tracker.isInitDone = false := rfl
  have outside : ¬ Globals.zero.initLockCount > 0 := Int.lt_irrefl 0
  simp only [heaphTouch, initialise, Code.ensures_straight_bind, Code.ensures_straight_lift, ensures_read, new,
    Bool.false_eq_true, if_false, outside, locks, heaphInit_ensures, exchangeInitDone, ensures_bind, ensures_update,
    ensures_pure]
  refine exists_congr fun r => and_congr_right fun _ => unlocks.trans ?_
  have done : (Globals.found r (reportMode w.hhReport) 0).tracker.isInitDone = false := rfl
  simp only [done, ensures_heaphAssert, true_and]

/-! ## Behind the initialisation -/

theorem callDefault_bound {α : Type} {pointer : Defaults → Default} {static : Prog Globals α} {system : Prog State α}
    {s : State} {Q : α → Globals → Prop} (points : pointer g.defaults = .system) :
    (callDefault pointer static system).Ensures { g with tracker := s } Q ↔
      system.Ensures s fun a s => Q a { g with tracker := s } :=
  callDefault_system pointer points

/-- Then a hook does what the other modules say. -/
theorem hook_ready {h : Hook} {Q : Address → Globals → Prop} (initialised : g.tracker.isInitDone = true)
    (bound : g.defaults = .system) : (hook (heaphTouch init) buffer sys h).straight.Ensures g Q ↔
      (alone.hook sys h).Ensures g.tracker fun a s => Q a { g with tracker := s } := by
  have passes : g.tracker.isInitDone = true ∨ 0 < g.initLockCount := .inl initialised
  have points : ∀ pointer : Defaults → Default, pointer Defaults.system = .system → pointer g.defaults = .system := by
    intro pointer system
    rw [bound, system]
  cases h with
  | heap call =>
    cases call with
    | malloc size =>
      simp [hook, Site.hook, Site.call, Site.malloc, touch_passes passes, ensures_heaphTouch initialised,
        callDefault_bound (points Defaults.malloc rfl), allocTraceNew_tracker]
    | calloc num size =>
      simp [hook, Site.hook, Site.call, Site.calloc, touch_passes passes, ensures_heaphTouch initialised,
        callDefault_bound (points Defaults.calloc rfl), allocTraceNew_tracker]
    | realloc ptr size =>
      simp [hook, Site.hook, Site.call, Site.realloc, touch_passes passes, ensures_heaphTouch initialised,
        callDefault_bound (points Defaults.realloc rfl), allocTraceNew_tracker, allocFree_tracker]
      exact Iff.rfl
    | free ptr =>
      simp [hook, Site.hook, Site.call, Site.free, touch_passes passes, ensures_heaphTouch initialised,
        callDefault_bound (points Defaults.free rfl), allocFree_tracker]
  | strdup ptr =>
    simp [hook, Site.hook, Site.strdup, touch_passes passes, ensures_heaphTouch initialised,
      callDefault_bound (points Defaults.strdup rfl), ensures_heaphAssert, allocTraceNew_tracker]
  | getline lineOld =>
    simp [hook, Site.hook, Site.getline, touch_passes passes, ensures_heaphTouch initialised,
      callDefault_bound (points Defaults.getline rfl), ensures_heaphAssert, allocTraceNew_tracker, allocFree_tracker]
  | getaddrinfo =>
    simp [hook, Site.hook, Site.getaddrinfo, touch_passes passes, ensures_heaphTouch initialised,
      callDefault_bound (points Defaults.getaddrinfo rfl), allocTraceNew_tracker]
  | freeaddrinfo ai =>
    simp [hook, Site.hook, Site.freeaddrinfo, touch_passes passes, ensures_heaphTouch initialised,
      callDefault_bound (points Defaults.freeaddrinfo rfl), ensures_heaphAssert, allocFree_tracker]

/-! ## The life of the process -/

/-- The call does not come to `heaph_touch`. -/
def Idle : Hook → Prop
  | .heap (.free ptr) => ptr = 0
  | .freeaddrinfo ai => ai = 0
  | _ => False

theorem touches_first {rest : Unit → Code Globals Address} {Q : Address → Globals → Prop} :
    (heaphTouch (heaphInit again w) >>= rest).straight.Ensures .zero Q ↔ ∃ r, w.Starts r ∧
      (heaphTouch (heaphInit again w) >>= rest).straight.Ensures
        (.ready r (reportMode w.hhReport) (.start r.buf)) Q := by
  rw [Code.ensures_straight_bind, touch_zero]
  refine exists_congr fun r => and_congr_right fun _ => ?_
  rw [Code.ensures_straight_bind, touch_passes (.inl rfl)]

/-- The first call that comes to `heaph_touch` finds the tracker ready. -/
theorem hook_zero {h : Hook} {Q : Address → Globals → Prop} (touches : ¬ Idle h)
    (heap : ∀ b, w.buffer = some b → ¬ (State.start b).allocIsStatic h.passed) :
    (hook (heaphTouch (heaphInit again w)) w.buffer sys h).straight.Ensures .zero Q ↔ ∃ r, w.Starts r ∧
      (alone.hook sys h).Ensures (.start r.buf) fun a s => Q a (.ready r (reportMode w.hhReport) s) := by
  -- Nothing is mapped before, so no pointer is static then.
  have unmapped : ∀ {ptr : Address}, ¬ Globals.zero.tracker.allocIsStatic ptr := by
    intro ptr
    simp [State.allocIsStatic, Globals.zero, State.start]
  have ready : ∀ r : Region, (Globals.ready r (reportMode w.hhReport) (.start r.buf)).tracker.isInitDone = true ∨
      0 < (Globals.ready r (reportMode w.hhReport) (.start r.buf)).initLockCount := fun r => .inl rfl
  have same : (hook (heaphTouch (heaphInit again w)) w.buffer sys h).straight.Ensures .zero Q ↔ ∃ r, w.Starts r ∧
      (hook (heaphTouch (heaphInit again w)) w.buffer sys h).straight.Ensures
        (.ready r (reportMode w.hhReport) (.start r.buf)) Q := by
    cases h with
    | heap call =>
      cases call with
      | malloc size | calloc num size | realloc ptr size => exact touches_first
      | free ptr =>
        -- The pointer has been looked at before `heaph_touch`, and again behind it in what `hook_ready` says.
        have null : ptr ≠ 0 := touches
        simp only [hook, Site.hook, Site.call, Site.free, startup_read, startup_heaphTouch, startup_enter, null,
          if_false, Code.ensures_straight_bind, Code.ensures_straight_lift, ensures_read, id, if_neg unmapped,
          touch_zero]
        refine exists_congr fun r => and_congr_right fun starts => ?_
        have here : ¬ (Globals.ready r (reportMode w.hhReport) (.start r.buf)).tracker.allocIsStatic ptr :=
          heap_start starts.1 heap
        simp only [if_neg here, Code.ensures_straight_bind, touch_passes (ready r), Code.ensures_straight_lift]
    | strdup ptr | getline lineOld | getaddrinfo => exact touches_first
    | freeaddrinfo ai =>
      have null : ai ≠ 0 := touches
      simp only [hook, Site.hook, Site.freeaddrinfo, startup_read, startup_heaphAssert, startup_heaphTouch,
        startup_enter, null, if_false, Code.ensures_straight_bind, Code.ensures_straight_lift, ensures_read, id,
        ensures_heaphAssert, unmapped, not_false_iff, true_and, touch_zero]
      refine exists_congr fun r => and_congr_right fun starts => ?_
      have here : ¬ (Globals.ready r (reportMode w.hhReport) (.start r.buf)).tracker.allocIsStatic ai :=
        heap_start starts.1 heap
      simp only [here, not_false_iff, true_and, touch_passes (ready r)]
  refine same.trans (exists_congr fun r => and_congr_right fun _ => ?_)
  exact hook_ready rfl rfl

/-! ## What stays initialised -/

section

variable {s : State} {ptr size : Nat}

theorem State.stays_of_sameTracker {α : Type} {p : Prog State α} (kept : ∀ s, p.Maintains (SameTracker s)) :
    p.Maintains fun s => s.isInitDone = true := by
  intro s a s' initialised returned
  have same : SameTracker s s' := kept s s a s' rfl returned
  rw [same]
  exact initialised

theorem keeps_records {α : Type} {p : Prog Records α} :
    (Prog.zoom recordsPart p).Maintains fun s => s.isInitDone = true :=
  .zoom (Q := fun _ => True) (fun _ _ _ _ _ => trivial) (fun _ _ => trivial) fun _ _ initialised _ => initialised

end

/-- The process is initialised. -/
def Done (g : Globals) : Prop := g.tracker.isInitDone = true

theorem keeps_system {α : Type} {p : Prog State α} (kept : p.Maintains fun s => s.isInitDone = true) :
    (Prog.zoom trackerLens p).Maintains Done :=
  kept.zoom (fun _ done => done) fun _ _ _ done => done

theorem keeps_update {f : Globals → Globals} (kept : ∀ g, Done g → Done (f g)) : (Code.lift (.update f)).Keeps Done :=
  .lift (.update kept)

theorem keeps_allocTraceNew {sys : System} {ptr size : Nat} :
    ((startup touch buffer).allocTraceNew sys ptr size).Keeps Done := by
  have records : ∀ {α : Type} {p : Prog Records α}, ((startup touch buffer).records p).Keeps Done :=
    .lift (keeps_system keeps_records)
  refine .bind (.lift .read) fun s => .ite .pure (.ite .pure ?_)
  refine .bind (.lift keeps_heaphAssert) fun _ => .bind (.lift keeps_heaphAssert) fun _ => .bind (.lift .read) fun _ =>
    .ite .pure ?_
  exact .bind records fun _ => .bind records fun _ => .bind records fun _ => .bind records fun _ => records

theorem keeps_allocFree {ptr : Address} : ((startup touch buffer).allocFree ptr).Keeps Done :=
  .bind (.lift .read) fun _ =>
  .ite .pure (.ite .pure (.bind (.lift keeps_heaphAssert) fun _ => .bind (.lift .read) fun _ =>
    .ite .pure (.lift (keeps_system keeps_records))))

theorem keeps_enter : (startup touch buffer).enter.Keeps Done := .lift (keeps_system (.update fun _ done => done))

theorem keeps_leave {res : Address} : (do
    (startup touch buffer).leave
    pure res : Code Globals Address).Keeps Done :=
  .bind (.lift (keeps_system (.update fun _ done => done))) fun _ => .pure

theorem keeps_callDefault {α : Type} {pointer : Defaults → Default} {static : Prog Globals α} {system : Prog State α}
    (kept : static.Maintains Done) (keeps : ∀ s, system.Maintains (SameTracker s)) :
    (callDefault pointer static system).Maintains Done := by
  refine .bind .read fun default => ?_
  cases default with
  | null => exact .step fun _ _ _ _ e => by cases e
  | static => exact kept
  | system => exact keeps_system (State.stays_of_sameTracker keeps)

theorem keeps_staticAllocator : (staticAllocatorTouch buffer).Maintains Done :=
  .bind .read fun _ => .ite .pure (.bind .require fun _ => .update fun _ done => done)

theorem keeps_staticMalloc {size : Nat} : (staticMalloc buffer size).Maintains Done :=
  .bind .read fun _ => .bind keeps_heaphAssert fun _ => .bind keeps_heaphAssert fun _ =>
  .bind keeps_staticAllocator fun _ =>
    .bind .read fun _ => .bind keeps_heaphAssert fun _ => .bind keeps_heaphAssert fun _ =>
      .bind (.update fun _ done => done) fun _ => .pure

theorem keeps_staticFree {ptr : Address} : (staticFree buffer ptr).Maintains Done :=
  .bind .read fun _ => .bind keeps_heaphAssert fun _ => .bind keeps_heaphAssert fun _ =>
  .bind keeps_staticAllocator fun _ =>
    .bind .read fun _ => keeps_heaphAssert

theorem keeps_fault {α : Type} : (Prog.fault : Prog Globals α).Maintains Done := .step fun _ _ _ _ e => by cases e

/-- No hook undoes the initialisation. -/
theorem keeps_hook {h : Hook} (kept : touch.Keeps Done) : (hook touch buffer sys h).Keeps Done := by
  have leaves : (startup touch buffer).leave.Keeps Done := .lift (keeps_system (.update fun _ done => done))
  cases h with
  | heap call =>
    cases call with
    | malloc size =>
      refine .bind kept fun _ => .bind keeps_enter fun _ => .bind (.lift ?_) fun _ => ?_
      · exact keeps_callDefault keeps_staticMalloc fun _ => keeps_defaultMalloc
      · exact .ite (.bind keeps_allocTraceNew fun _ => keeps_leave) keeps_leave
    | calloc num size =>
      refine .bind kept fun _ => .bind keeps_enter fun _ => .bind (.lift ?_) fun _ => ?_
      · exact keeps_callDefault keeps_staticMalloc fun _ => keeps_defaultMalloc
      · exact .ite (.bind keeps_allocTraceNew fun _ => keeps_leave) keeps_leave
    | realloc ptr size =>
      refine .bind kept fun _ => .bind keeps_enter fun _ => .bind (.lift .read) fun _ => .bind (.lift ?_) fun _ => ?_
      · exact keeps_callDefault keeps_fault fun _ => keeps_defaultRealloc
      · exact .ite (.bind keeps_allocTraceNew fun _ => keeps_leave) (.ite (.bind keeps_allocFree fun _ => keeps_leave)
          (.ite (.bind keeps_allocFree fun _ => .bind keeps_allocTraceNew fun _ => keeps_leave) keeps_leave))
    | free ptr =>
      refine .bind (.bind (.lift .read) fun _ => .ite .pure (.ite .pure ?_)) fun _ => .pure
      refine .bind kept fun _ => .bind keeps_enter fun _ => .bind keeps_allocFree fun _ => .bind (.lift ?_) fun _ =>
        leaves
      exact keeps_callDefault keeps_staticFree fun _ => keeps_defaultFree
  | strdup ptr =>
    refine .bind kept fun _ => .bind (.lift .read) fun _ => .bind (.lift keeps_heaphAssert) fun _ =>
      .bind (.lift .read) fun _ =>
      .bind (.lift keeps_heaphAssert) fun _ => .bind keeps_enter fun _ => .bind (.lift ?_) fun _ => ?_
    · exact keeps_callDefault keeps_fault fun _ => keeps_defaultMalloc
    · exact .ite (.bind keeps_allocTraceNew fun _ => keeps_leave) keeps_leave
  | getline lineOld =>
    refine .bind kept fun _ => .bind keeps_enter fun _ => .bind (.lift .read) fun _ =>
      .bind (.lift keeps_heaphAssert) fun _ =>
      .bind (.lift ?_) fun _ => ?_
    · exact keeps_callDefault keeps_fault fun _ => keeps_defaultRealloc
    · exact .ite (.bind keeps_allocTraceNew fun _ => keeps_leave)
        (.ite (.bind (.lift keeps_heaphAssert) fun _ => keeps_leave)
        (.ite (.bind keeps_allocFree fun _ => .bind keeps_allocTraceNew fun _ => keeps_leave)
          (.ite (.bind (.lift keeps_heaphAssert) fun _ => keeps_leave) keeps_leave)))
  | getaddrinfo =>
    refine .bind kept fun _ => .bind keeps_enter fun _ => .bind (.lift ?_) fun _ => ?_
    · exact keeps_callDefault keeps_fault fun _ => .ite keeps_defaultMalloc .pure
    · exact .ite (.bind keeps_allocTraceNew fun _ => keeps_leave) keeps_leave
  | freeaddrinfo ai =>
    refine .bind (.ite .pure (.bind (.lift .read) fun _ => .bind (.lift keeps_heaphAssert) fun _ => ?_)) fun _ => .pure
    refine .bind kept fun _ => .bind keeps_enter fun _ => .bind keeps_allocFree fun _ => .bind (.lift ?_) fun _ =>
      leaves
    exact keeps_callDefault keeps_fault fun _ => keeps_defaultFree

theorem keeps_hooks {events : List (Hook × Answer)} (kept : touch.Keeps Done) :
    (hooks touch buffer events).Keeps Done := by
  induction events with
  | nil => exact .pure
  | cons event events ih => exact .bind (keeps_hook kept) fun _ => ih

theorem keeps_heaphLock : heaphLock.Maintains Done := by
  have acquires : spinlockAcq.Maintains Done := by
    refine .loop (fun _ => .bind .read fun held => ?_) ()
    exact .bind (.update fun _ done => done) fun _ => .ite .pure .pure
  exact .bind .read fun _ => .bind (.ite acquires (.step fun _ _ _ done e => by cases e; exact done)) fun _ =>
    .update fun _ done => done

theorem keeps_heaphUnlock : heaphUnlock.Maintains Done := by
  refine .bind .read fun count => .bind keeps_heaphAssert fun _ => .bind (.update fun _ done => done) fun _ => ?_
  refine .ite ?_ (.step fun _ _ _ done e => by cases e; exact done)
  refine .bind .read fun held => ?_
  have asserts : (heaphAssert (held = true) : Prog Globals Unit).Maintains Done := keeps_heaphAssert
  exact .bind asserts fun _ => .update fun _ done => done

theorem keeps_exchange : exchangeInitDone.Maintains Done :=
  .bind .read fun _ => .bind (.update fun _ _ => rfl) fun _ => .pure

theorem keeps_touch (kept : init.Keeps Done) : (heaphTouch init).Keeps Done := by
  refine .bind (.lift .read) fun _ => .ite .pure (.bind (.lift .read) fun _ => .ite .pure ?_)
  exact .bind (.lift keeps_heaphLock) fun _ => .bind kept fun _ => .bind (.lift keeps_exchange) fun _ =>
    .bind (.lift keeps_heaphUnlock) fun _ => .lift keeps_heaphAssert

theorem keeps_heaphInit (kept : again.Keeps Done) : (heaphInit again w).Keeps Done := by
  have looks : ∀ {name : String}, (dlsym again w name).Keeps Done :=
    .bind (keeps_hooks (keeps_touch kept)) fun _ => .pure
  have chooses : ∀ {hhReport : Option String}, (chooseMode hhReport).Maintains Done := by
    intro hhReport
    cases hhReport with
    | none => exact .pure
    | some value =>
      refine .ite (.update fun _ done => done) (.ite (.update fun _ done => done) ?_)
      exact .ite (.update fun _ done => done) (.step fun _ _ _ done e => by cases e; exact done)
  have points : ∀ {f : Globals → Defaults}, (Code.lift (.update fun g => { g with defaults := f g })).Keeps Done :=
    keeps_update fun _ done => done
  refine .bind points fun _ => .bind points fun _ => .bind points fun _ => ?_
  refine .bind looks fun _ => .bind looks fun _ => .bind looks fun _ => .bind looks fun _ => .bind looks fun _ =>
    .bind looks fun _ => .bind looks fun _ => .bind looks fun _ => ?_
  refine .bind points fun _ => .bind points fun _ => .bind points fun _ => .bind points fun _ => .bind points fun _ =>
    .bind points fun _ => .bind points fun _ => .bind points fun _ => .bind (.lift chooses) fun _ => ?_
  exact .bind (keeps_hooks (keeps_touch kept)) fun _ => keeps_update fun _ done => done

theorem keeps_initAt {n : Nat} : (initAt w n).Keeps Done := by
  induction n with
  | zero => exact keeps_heaphInit (.lift keeps_fault)
  | succ n ih => exact keeps_heaphInit ih

/-! ## The life of the process -/

/-- One call of a hook in a process with all its variables, with the answers of the system and the result. -/
def Step (n : Nat) (w : World) (g : Globals) (event : (Hook × Answer) × Address) (g' : Globals) : Prop :=
  (hook (heaphTouch (initAt w n)) w.buffer event.1.2 event.1.1).straight.Returns g event.2 g'

/-- One call of a hook in the process that the other modules are about. -/
def TrackerStep (s : State) (event : (Hook × Answer) × Address) (s' : State) : Prop :=
  (alone.hook event.1.2 event.1.1).Returns s event.2 s'

variable {n : Nat} {event : (Hook × Answer) × Address} {events calls : List ((Hook × Answer) × Address)} {g' : Globals}
    {s : State}

theorem initAt_eq (n : Nat) : ∃ again, initAt w n = heaphInit again w := by
  cases n with
  | zero => exact ⟨_, rfl⟩
  | succ n => exact ⟨_, rfl⟩

theorem step_idle (idle : Idle event.1.1) : Step n w .zero event g' ↔ event.2 = 0 ∧ g' = .zero := by
  obtain ⟨⟨h, sys⟩, res⟩ := event
  rw [Step, returns_iff_ensures]
  cases h with
  | heap call =>
    cases call with
    | malloc | calloc | realloc => exact idle.elim
    | free ptr =>
      have null : ptr = 0 := idle
      simp [hook, Site.hook, Site.call, Site.free, null, eq_comm]
  | strdup | getline | getaddrinfo => exact idle.elim
  | freeaddrinfo ai =>
    have null : ai = 0 := idle
    simp [hook, Site.hook, Site.freeaddrinfo, null, eq_comm]

theorem step_zero (touches : ¬ Idle event.1.1)
    (heap : ∀ b, w.buffer = some b → ¬ (State.start b).allocIsStatic event.1.1.passed) :
    Step n w .zero event g' ↔ ∃ r s, w.Starts r ∧ TrackerStep (.start r.buf) event s ∧
      g' = .ready r (reportMode w.hhReport) s := by
  obtain ⟨again, same⟩ := initAt_eq (w := w) n
  rw [Step, returns_iff_ensures, same, hook_zero touches heap]
  refine exists_congr fun r => ?_
  constructor
  · rintro ⟨starts, res, s, returned, rfl, rfl⟩
    exact ⟨s, starts, returned, rfl⟩
  · rintro ⟨s, starts, returned, rfl⟩
    exact ⟨starts, event.2, s, returned, rfl, rfl⟩

theorem step_ready (initialised : s.isInitDone = true) :
    Step n w (.ready r mode s) event g' ↔ ∃ s', TrackerStep s event s' ∧ g' = .ready r mode s' := by
  rw [Step, returns_iff_ensures, hook_ready initialised rfl]
  constructor
  · rintro ⟨res, s', returned, rfl, rfl⟩
    exact ⟨s', returned, rfl⟩
  · rintro ⟨s', returned, rfl⟩
    exact ⟨event.2, s', returned, rfl, rfl⟩

/-- The tracker stays initialised. -/
theorem TrackerStep.initialised {s' : State} (step : TrackerStep s event s') (initialised : s.isInitDone = true) :
    s'.isInitDone = true := by
  have kept : (hook (heaphTouch (.lift .fault)) none event.1.2 event.1.1).straight.Maintains Done :=
    (keeps_hook (keeps_touch (.lift keeps_fault))).straight
  have same : (hook (heaphTouch (.lift .fault)) none event.1.2 event.1.1).straight.Ensures (.ready ⟨0, 0⟩ .leaks s)
      fun _ g => g.tracker = s' :=
    (hook_ready (g := Globals.ready ⟨0, 0⟩ .leaks s) initialised rfl).mpr (step.ensures rfl)
  obtain ⟨res, g, returned, rfl⟩ := same
  exact kept (.ready ⟨0, 0⟩ .leaks s) _ _ initialised returned

theorem run_ready (initialised : s.isInitDone = true) :
    Run (Step n w) (.ready r mode s) events g' ↔ ∃ s', Run TrackerStep s events s' ∧ g' = .ready r mode s' := by
  induction events generalizing s with
  | nil =>
    constructor
    · intro run
      cases run
      exact ⟨s, .nil s, rfl⟩
    · rintro ⟨s', run, rfl⟩
      cases run
      exact .nil _
  | cons event events ih =>
    constructor
    · intro run
      cases run with
      | cons step run =>
        obtain ⟨s₁, step', rfl⟩ := (step_ready initialised).mp step
        obtain ⟨s', run', rfl⟩ := (ih (step'.initialised initialised)).mp run
        exact ⟨s', .cons step' run', rfl⟩
    · rintro ⟨s', run, rfl⟩
      cases run with
      | cons step run =>
        exact .cons ((step_ready initialised).mpr ⟨_, step, rfl⟩)
          ((ih (step.initialised initialised)).mpr ⟨s', run, rfl⟩)

/-- From the first call on that comes to `heaph_touch`, a new process is the tracker from `State.start` on, with
    the same results, and it gets behind that call only if its world lets it start. -/
theorem process_starts (idle : ∀ event ∈ calls, Idle event.1.1) (touches : ¬ Idle event.1.1)
    (heap : ∀ b, w.buffer = some b → ¬ (State.start b).allocIsStatic event.1.1.passed) :
    Run (Step n w) .zero (calls ++ event :: events) g' ↔ (∀ call ∈ calls, call.2 = 0) ∧ ∃ r s, w.Starts r ∧
      Run TrackerStep (.start r.buf) (event :: events) s ∧ g' = .ready r (reportMode w.hhReport) s := by
  induction calls with
  | nil =>
    rw [List.nil_append, and_iff_right (List.forall_mem_nil _)]
    constructor
    · intro run
      cases run with
      | cons step run =>
        obtain ⟨r, s₁, starts, step', rfl⟩ := (step_zero touches heap).mp step
        obtain ⟨s, run', rfl⟩ := (run_ready (step'.initialised rfl)).mp run
        exact ⟨r, s, starts, .cons step' run', rfl⟩
    · rintro ⟨r, s, starts, run, rfl⟩
      cases run with
      | cons step run =>
        exact .cons ((step_zero touches heap).mpr ⟨r, _, starts, step, rfl⟩)
          ((run_ready (step.initialised rfl)).mpr ⟨s, run, rfl⟩)
  | cons call calls ih =>
    rw [List.forall_mem_cons] at idle
    rw [List.forall_mem_cons, and_assoc, ← ih idle.2]
    constructor
    · intro run
      cases run with
      | cons step run =>
        obtain ⟨null, rfl⟩ := (step_idle idle.1).mp step
        exact ⟨null, run⟩
    · rintro ⟨null, run⟩
      exact .cons ((step_idle idle.1).mpr ⟨null, rfl⟩) run

/-- `malloc` gives out what the allocator answers. -/
theorem malloc_result {sys : System} {size res : Nat} {s' : State}
    (returned : (alone.malloc sys size).Returns s res s') :
    res = sys.result := by
  obtain ⟨_, s₁, -, returned⟩ := returns_bind.mp returned
  obtain ⟨_, s₂, -, returned⟩ := returns_bind.mp returned
  obtain ⟨res', s₃, allocated, returned⟩ := returns_bind.mp returned
  have given : res' = sys.result := by
    obtain ⟨_, s₄, -, answered⟩ := returns_bind.mp allocated
    exact (ensures_pure.mp (answered.ensures (Q := fun a _ => a = res') rfl)).symm
  have passed : ∀ {t : State}, (do alone.leave; return res' : Prog State Address).Returns t res s' → res = res' := by
    intro t returned
    obtain ⟨_, t', -, returned⟩ := returns_bind.mp returned
    exact (ensures_pure.mp (returned.ensures (Q := fun a _ => a = res) rfl)).symm
  rw [← given]
  split at returned
  · obtain ⟨_, s₄, -, returned⟩ := returns_bind.mp returned
    exact passed returned
  · exact passed returned

/-- A world whose `dlsym` allocates one block. -/
def allocating : World where
  buffer := some 65536
  dlsym name := if name = "malloc" then [(.heap (.calloc 1 32), ⟨⟨0, false, true, []⟩, 0, 0, 0⟩)] else []
  hhReport := some "v"
  atexit := []
  nonnull b mapped := by
    obtain rfl : 65536 = b := Option.some.inj mapped
    decide
  apart event mem := by simp at mem

theorem process_starts_allocating : ∃ s, Run (Step 0 allocating) .zero
    [((.heap (.free 0), ⟨⟨0, false, true, []⟩, 0, 0, 0⟩), 0),
      ((.heap (.malloc 10), ⟨⟨4096, false, true, []⟩, 0, 0, 0⟩), 4096)]
      (.ready ⟨65536, 32⟩ .verbose s) := by
  have starts : allocating.Starts ⟨65536, 32⟩ := by
    refine ⟨?_, by simp [allocating]⟩
    exact .single ⟨65536, rfl, by decide, rfl⟩
  have possible : System.Possible ⟨4096, false, true, []⟩ (State.start 65536) (.malloc 10) :=
    ⟨fun _ => by decide, by simp⟩
  obtain ⟨_, s, returned, -⟩ := Call.run_returns (start_tracks 65536) possible trivial rfl
  obtain ⟨res, s', step, -⟩ := returns_bind.mp returned
  obtain rfl : res = 4096 := malloc_result step
  have idle : ∀ event ∈ [(((.heap (.free 0), ⟨⟨0, false, true, []⟩, 0, 0, 0⟩), 0) : (Hook × Answer) × Address)],
      Idle event.1.1 := by
    simp [Idle]
  refine ⟨s', (process_starts idle ?_ ?_).mpr ⟨by simp, _, s', starts, .single step, rfl⟩⟩
  · simp [Idle]
  · simp [allocating, Hook.passed, State.allocIsStatic]

end Startup

end SysprogLabs.HeapHelp
