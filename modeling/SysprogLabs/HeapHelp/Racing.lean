import SysprogLabs.HeapHelp.Starting

/-! # The first calls of several threads

Any number of threads call the hooks in a new process, and their actions interleave.  `init_lock` keeps
the threads that initialise apart, but not the one that comes second from initialising again: of the
threads that have found `is_init_done` false and still have the exchange before them, at most one gets
behind its call.
-/

namespace SysprogLabs.HeapHelp.Startup

open Prog

/-- What each thread has for itself: `depth` and `init_lock_count`. -/
def localPart : Lens Globals (Int × Int) := ⟨fun g => (g.tracker.depth, g.initLockCount),
  fun l g => { g with tracker := { g.tracker with depth := l.1 }, initLockCount := l.2 }, fun _ _ => rfl,
  fun _ _ _ => rfl,
  fun _ => rfl⟩

/-- The result of a call is there until the caller has it. -/
abbrev Process (ι : Type) := Threads Globals (Int × Int) ι (Option Address)

inductive Event (ι : Type) where
  | start (i : ι) (call : Hook × Answer) (w : World)
  | act (i : ι)
  | finish (i : ι) (res : Address)

variable {ι : Type} {n : Nat} {i j : ι}

/-- The code of a call, in a world for the case that it initialises. -/
def callCode (n : Nat) (call : Hook × Answer) (w : World) : Code Globals (Option Address) := do
  let res ← hook (heaphTouch (initAt w n)) w.buffer call.2 call.1
  return some res

namespace Process

def start : Process ι := ⟨.zero, fun _ => ⟨(0, 0), .done none⟩⟩

/-- The thread has the exchange of `heaph_touch` before it: it is about to take `init_lock`, waits for it, or is
    in `heaph_init`.  Only with an action that sets `is_init_done` can it come to the end of its call. -/
def Initialising (p : Process ι) (i : ι) : Prop := (p.thread i).code.Wins Done

variable [DecidableEq ι] {p p' : Process ι} {event : Event ι} {events : List (Event ι)}

/-- One step of one thread. -/
inductive Step (n : Nat) : Process ι → Event ι → Process ι → Prop where
  | start {p : Process ι} {i : ι} {call : Hook × Answer} {w : World} : (p.thread i).code = .done none →
      Step n p (.start i call w) (p.stepped i ⟨(p.thread i).storage, callCode n call w⟩ p.shared)
  | act {p : Process ι} {i : ι} {t' : Thread Globals (Int × Int) (Option Address)} {g' : Globals} :
      (p.thread i).Step localPart p.shared t' g' → Step n p (.act i) (p.stepped i t' g')
  | finish {p : Process ι} {i : ι} {res : Address} : (p.thread i).code = .done (some res) →
      Step n p (.finish i res) (p.stepped i ⟨(p.thread i).storage, .done none⟩ p.shared)

/-- No thread undoes the initialisation. -/
def Keeping (p : Process ι) : Prop := ∀ i, (p.thread i).code.Keeps Done

theorem Keeping.step (keeping : p.Keeping) (step : Step n p event p') : p'.Keeping := by
  have replaced : ∀ {i : ι} {t' : Thread Globals (Int × Int) (Option Address)} {g' : Globals}, t'.code.Keeps Done →
      Keeping (p.stepped i t' g') := by
    intro i t' g' kept j
    by_cases here : j = i
    · subst here
      simpa using kept
    · simpa [here] using keeping j
  cases step with
  | start => exact replaced (.bind (keeps_hook (keeps_touch keeps_initAt)) fun _ => .pure)
  | act step => exact replaced (step.keeps (keeping _) fun _ _ => Iff.rfl).2
  | finish => exact replaced trivial

theorem reachable_keeping (reachable : Reachable (Step n) start p) : p.Keeping :=
  reachable.invariant (fun _ => trivial) fun _ _ _ keeping step => keeping.step step

end Process

/-! ## Who initialises twice does not return -/

theorem wins_initialise {init : Code Globals Unit} : (initialise init).Wins Done := by
  refine .after fun _ => .after fun _ => ?_
  intro g old g' returned decided
  have exchanged : exchangeInitDone.Ensures g fun old g' => old = g.tracker.isInitDone ∧ Done g' := by
    simp [exchangeInitDone, Done]
  obtain ⟨same, done⟩ := exchanged.of_returns returned
  have second : old = true := same.trans (decided done)
  subst second
  show (Code.lift heaphUnlock >>= fun _ => Code.lift (heaphAssert (true = false)) : Code Globals Unit).Wins Done
  refine .after fun _ => ?_
  -- `heaph_assert(!old)` fails.
  intro g b g' returned
  have asserted : (heaphAssert (true = false) : Prog Globals Unit).Ensures g fun _ _ => True := returned.ensures trivial
  exact absurd (ensures_heaphAssert.mp asserted).1 (by decide)

namespace Process

variable {p p' : Process ι} {event : Event ι} {events : List (Event ι)}

/-- A thread that finds `is_init_done` false goes on with `initialise`. -/
theorem initialising_of_code (init : Code Globals Unit) (rest : Unit → Code Globals (Option Address))
    (same : (p.thread i).code = initialise init >>= rest) : p.Initialising i := by
  rw [Initialising, same]
  exact wins_initialise.bind

/-- A thread that only wins has not come to the end of its call. -/
theorem other_thread {k : ι} {res : Option Address} (wins : (p.thread i).code.Wins Done)
    (ended : (p.thread k).code = .done res) :
    i ≠ k := by
  rintro rfl
  rw [ended] at wins
  exact wins.elim

/-- When one of the threads has come to its end, the other one is late. -/
theorem racing_ended {res : Option Address} (racing : p.Racing Done i j) (ended : (p.thread i).code = .done res) :
    p.Late Done j := by
  obtain late | late | ⟨first, -⟩ := racing
  · exact absurd rfl (other_thread late.2 ended)
  · exact late
  · exact absurd rfl (other_thread first ended)

theorem racing_symm (racing : p.Racing Done i j) : p.Racing Done j i := by
  obtain late | late | both := racing
  · exact .inr (.inl late)
  · exact .inl late
  · exact .inr (.inr both.symm)

variable [DecidableEq ι]

/-- It is not touched when a thread begins or ends a call. -/
theorem wins_stepped {k : ι} {res : Option Address} {t' : Thread Globals (Int × Int) (Option Address)}
    (wins : (p.thread i).code.Wins Done) (ended : (p.thread k).code = .done res) :
    ((p.stepped k t' p.shared).thread i).code.Wins Done := by
  simpa [other_thread wins ended] using wins

theorem late_stepped {k : ι} {res : Option Address} {t' : Thread Globals (Int × Int) (Option Address)}
    (late : p.Late Done i)
    (ended : (p.thread k).code = .done res) : (p.stepped k t' p.shared).Late Done i :=
  ⟨late.1, wins_stepped late.2 ended⟩

theorem racing_stepped {k : ι} {res : Option Address} {t' : Thread Globals (Int × Int) (Option Address)}
    (racing : p.Racing Done i j) (ended : (p.thread k).code = .done res) :
    (p.stepped k t' p.shared).Racing Done i j := by
  obtain late | late | ⟨first, second⟩ := racing
  · exact .inl (late_stepped late ended)
  · exact .inr (.inl (late_stepped late ended))
  · exact .inr (.inr ⟨wins_stepped first ended, wins_stepped second ended⟩)

/-- A thread keeps initialising until some step sets `is_init_done`. -/
theorem Initialising.step (initialising : p.Initialising i) (step : Step n p event p')
    (decided : p'.shared.tracker.isInitDone = true → p.shared.tracker.isInitDone = true) : p'.Initialising i := by
  cases step with
  | start idle => exact wins_stepped initialising idle
  | finish ended => exact wins_stepped initialising ended
  | @act k _ _ step =>
    by_cases here : i = k
    · subst here
      simpa [Initialising] using step.wins initialising (fun _ _ => Iff.rfl) decided
    · simpa [Initialising, here] using initialising

theorem late_step (late : p.Late Done i) (keeping : p.Keeping) (step : Step n p event p') :
    p'.Late Done i ∧ ∀ res, event ≠ .finish i res := by
  cases step with
  | start idle => exact ⟨late_stepped late idle, by simp⟩
  | act step => exact ⟨late.act step (keeping _) fun _ _ => Iff.rfl, by simp⟩
  | finish ended => exact ⟨late_stepped late ended, by simp [(other_thread late.2 ended).symm]⟩

/-- Whoever comes too late does not come to the end of its call. -/
theorem late_run (late : p.Late Done i) (keeping : p.Keeping) (run : Run (Step n) p events p') (res : Address) :
    .finish i res ∉ events := by
  induction run with
  | nil => simp
  | cons step _ ih =>
    obtain ⟨late', other⟩ := late_step late keeping step
    have later := ih late' (keeping.step step)
    simp [later, (other res).symm]

theorem racing_run (racing : p.Racing Done i j) (apart : i ≠ j) (keeping : p.Keeping) (run : Run (Step n) p events p')
    (res res' : Address) : ¬ (.finish i res ∈ events ∧ .finish j res' ∈ events) := by
  induction run with
  | nil => simp
  | @cons p event p₁ events p' step run ih =>
    have keeping' := keeping.step step
    cases step with
    | start idle => simpa using ih (racing_stepped racing idle) keeping'
    | act step => simpa using ih (racing.act apart step (keeping _) fun _ _ => Iff.rfl) keeping'
    | @finish k _ ended =>
      -- Who is left is late from here on.
      by_cases first : i = k
      · subst first
        have never := late_run (late_stepped (racing_ended racing ended) ended) keeping' run res'
        simp [never, apart.symm]
      · by_cases second : j = k
        · subst second
          have never := late_run (late_stepped (racing_ended (racing_symm racing) ended) ended) keeping' run res
          simp [never, apart]
        · simpa [first, second] using ih (racing_stepped racing ended) keeping'

/-- A thread finds `is_init_done` false. -/
theorem passes_checks {init : Code Globals Unit} {rest : Unit → Code Globals (Option Address)}
    (touches : p.thread i = ⟨(0, 0), heaphTouch init >>= rest⟩) (zero : p.shared = .zero) :
    ∃ p', Run (Step n) p [.act i, .act i] p' ∧ p'.Initialising i ∧ p'.shared = .zero ∧
      ∀ j ≠ i, p'.thread j = p.thread j := by
  have acts : ∀ {p : Process ι} {β : Type} {f : Globals → β} {k : β → Code Globals (Option Address)},
      p.thread i = ⟨(0, 0), .act (.read f) k⟩ → p.shared = .zero →
      Step n p (.act i) (p.stepped i ⟨(0, 0), k (f .zero)⟩ .zero) := by
    intro p β f k here zero
    have step : (p.thread i).Step localPart p.shared ⟨localPart.get .zero, k (f .zero)⟩ .zero := by
      rw [here, zero]
      exact .act ⟨0, rfl⟩
    exact .act step
  -- The two reads of `heaph_touch`.
  have first := acts (f := fun g => g.tracker.isInitDone) touches zero
  have second := acts (p := p.stepped i ⟨(0, 0), .act (.read Globals.initLockCount) fun count =>
      (if count > 0 then pure () else initialise init) >>= rest⟩ .zero) (Function.update_self ..) rfl
  refine ⟨_, .cons first (.cons second (.nil _)), initialising_of_code init rest ?_, rfl, ?_⟩
  · simp only [Function.update_self]
    rw [if_neg (by decide)]
  · intro j other
    simp [other]

theorem malloc_touches (n size : Nat) (sys : Answer) (w : World) :
    ∃ rest, callCode n (.heap (.malloc size), sys) w = heaphTouch (initAt w n) >>= rest := by
  rw [callCode, hook, Site.hook, Site.call, Site.malloc]
  exact ⟨_, Code.bind_assoc _ _ _⟩

/-- A thread calls `malloc` for the first time. -/
theorem comes_to_initialise (idle : p.thread i = ⟨(0, 0), .done none⟩) (zero : p.shared = .zero) :
    ∃ events p', Run (Step n) p events p' ∧ p'.Initialising i ∧ p'.shared = .zero ∧
      ∀ j ≠ i, p'.thread j = p.thread j := by
  have start : Step n p (.start i (.heap (.malloc 10), ⟨⟨4096, false, true, []⟩, 0, 0, 0⟩) allocating) _ :=
    .start (by rw [idle])
  obtain ⟨rest, code⟩ := malloc_touches n 10 ⟨⟨4096, false, true, []⟩, 0, 0, 0⟩ allocating
  rw [idle, code] at start
  obtain ⟨p', run, initialising, zero', others⟩ := passes_checks (n := n)
    (p := p.stepped i ⟨(0, 0), heaphTouch (initAt allocating n) >>= rest⟩ p.shared) (Function.update_self ..) zero
  refine ⟨_, p', .cons start run, initialising, zero', fun j other => ?_⟩
  simp [others j other, other]

/-- A thread that has found `is_init_done` false is initialising, and stays so until some step sets it.  Of the
    threads that are initialising at a time, at most one ever gets behind its call, and none if `is_init_done`
    is set by then. -/
theorem one_initialises (reachable : Reachable (Step n) start p) (run : Run (Step n) p events p') :
    (∀ i init rest, (p.thread i).code = initialise init >>= rest → p.Initialising i) ∧
    (∀ i, p.Initialising i → ∀ event p₁, Step n p event p₁ →
      (p₁.shared.tracker.isInitDone = true → p.shared.tracker.isInitDone = true) → p₁.Initialising i) ∧
    (∀ i j, i ≠ j → p.Initialising i → p.Initialising j →
      ∀ res res', ¬ (.finish i res ∈ events ∧ .finish j res' ∈ events)) ∧
    ∀ i, p.Initialising i → p.shared.tracker.isInitDone = true → ∀ res, .finish i res ∉ events := by
  have keeping := reachable_keeping reachable
  refine ⟨fun i => initialising_of_code, fun i initialising event p₁ => initialising.step, ?_, ?_⟩
  · intro i j apart first second
    exact racing_run (.inr (.inr ⟨first, second⟩)) apart keeping run
  · intro i initialising done
    exact late_run ⟨done, initialising⟩ keeping run

theorem one_initialises_two : ∃ p : Process Bool, p.Initialising false ∧ p.Initialising true ∧
    ∀ events p', Run (Step 0) p events p' →
      ∀ res res', ¬ (.finish false res ∈ events ∧ .finish true res' ∈ events) := by
  obtain ⟨events₁, p₁, run₁, first, zero₁, others₁⟩ := comes_to_initialise (n := 0) (p := start) (i := false) rfl rfl
  obtain ⟨events₂, p₂, run₂, second, -, others₂⟩ :=
    comes_to_initialise (n := 0) (i := true) (others₁ true (by simp)) zero₁
  have first' : p₂.Initialising false := by
    rw [Initialising, others₂ false (by simp)]
    exact first
  have reachable : Reachable (Step 0) start p₂ := ⟨_, run₁.append run₂⟩
  refine ⟨p₂, first', second, fun events p' run => ?_⟩
  exact (one_initialises reachable run).2.2.1 false true (by simp) first' second

end Process

end SysprogLabs.HeapHelp.Startup
