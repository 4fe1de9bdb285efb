import SysprogLabs.FileSort.Sharing

/-! # The work time of a coroutine

The time of a coroutine is the sum over its slices.  A slice begins with the reading of the call of
`set_coro_timestamp` right after the coroutine is resumed, and ends with the reading of the call of
`update_coro_work_time` right before it yields or ends.  `Account` is kept beside a run by these calls;
every run has its accounts, and `coro_work_time` agrees with them.

* `Timespec.Normal` and `nanoseconds`: the arithmetic of borrow and carry.
* `Clocked`: on every path the code updates the work time, yields and sets the timestamp, in turns.
-/

namespace SysprogLabs.FileSort

open Prog

/-! ## Times -/

namespace Timespec

def nanoseconds (t : Timespec) : Int := t.tvSec * 1000000000 + t.tvNsec

structure Normal (t : Timespec) : Prop where
  nonneg : 0 ≤ t.tvNsec
  lt : t.tvNsec < 1000000000

end Timespec

/-- No borrow and no carry is lost. -/
theorem getTimeDiff_normal {source target : Timespec} (source_normal : source.Normal) (target_normal : target.Normal)
    (le : source.nanoseconds ≤ target.nanoseconds) :
    (getTimeDiff source target).Normal ∧ 0 ≤ (getTimeDiff source target).tvSec ∧
      (getTimeDiff source target).nanoseconds = target.nanoseconds - source.nanoseconds := by
  obtain ⟨source_nonneg, source_lt⟩ := source_normal
  obtain ⟨target_nonneg, target_lt⟩ := target_normal
  simp only [Timespec.nanoseconds] at le ⊢
  rw [getTimeDiff]
  split
  · next borrow =>
    refine ⟨⟨?_, ?_⟩, ?_, ?_⟩ <;> simp only <;> omega
  · next whole =>
    refine ⟨⟨?_, ?_⟩, ?_, ?_⟩ <;> simp only <;> omega

/-- The carry of `update_coro_work_time`. -/
theorem carry_normal (sec : Int) {nsec : Int} (nonneg : 0 ≤ nsec) (lt : nsec < 2000000000) :
    let carried : Timespec := if nsec.tdiv 1000000000 > 0 then
        ⟨sec + nsec.tdiv 1000000000, nsec - nsec.tdiv 1000000000 * 1000000000⟩
      else ⟨sec, nsec⟩
    carried.Normal ∧ carried.nanoseconds = sec * 1000000000 + nsec := by
  rw [Int.tdiv_eq_ediv_of_nonneg nonneg]
  simp only [Timespec.nanoseconds]
  split
  · next carry =>
    refine ⟨⟨?_, ?_⟩, ?_⟩ <;> simp only <;> omega
  · next small =>
    refine ⟨⟨nonneg, ?_⟩, rfl⟩
    simp only
    omega

variable {clock : Nat → Timespec} {t t' : Times} {c : Nat}

/-- The reading is kept as the timestamp. -/
theorem setCoroTimestamp_eq : (setCoroTimestamp clock c).Ensures t fun _ t' =>
    t' = ⟨t.readings + 1, Function.update t.ctx c ⟨some (clock t.readings), (t.ctx c).coroWorkTime⟩⟩ := by
  simp [setCoroTimestamp, clockGettime, setCtx]

/-- The time since the timestamp is added to the work time. -/
theorem updateCoroWorkTime_eq {prev : Timespec} (set : (t.ctx c).prevTimestamp = some prev) (prev_normal : prev.Normal)
    (normal : (clock t.readings).Normal) (work_normal : (t.ctx c).coroWorkTime.Normal)
    (le : prev.nanoseconds ≤ (clock t.readings).nanoseconds) :
    (updateCoroWorkTime clock c).Ensures t fun _ t' => ∃ work : Timespec, work.Normal ∧
      work.nanoseconds = (t.ctx c).coroWorkTime.nanoseconds + ((clock t.readings).nanoseconds - prev.nanoseconds) ∧
      t' = ⟨t.readings + 1, Function.update t.ctx c ⟨some prev, work⟩⟩ := by
  obtain ⟨diff_normal, -, diff⟩ := getTimeDiff_normal prev_normal normal le
  generalize elapsed : getTimeDiff prev (clock t.readings) = timeDiff at diff diff_normal
  obtain ⟨work_nonneg, work_lt⟩ := work_normal
  obtain ⟨diff_nonneg, diff_lt⟩ := diff_normal
  simp only [updateCoroWorkTime, clockGettime, setCtx, ensures_bind, ensures_read, ensures_update, ensures_pure, id,
    ensures_require, set, Option.some.injEq, exists_eq_left', elapsed]
  have nonneg : 0 ≤ (t.ctx c).coroWorkTime.tvNsec + timeDiff.tvNsec := by omega
  have carried := carry_normal ((t.ctx c).coroWorkTime.tvSec + timeDiff.tvSec) nonneg (by omega)
  refine ⟨_, carried.1, carried.2.trans ?_, rfl⟩
  simp only [Timespec.nanoseconds] at diff ⊢
  omega

/-! ## The code of a coroutine -/

/-- Where a coroutine is between two yields. -/
inductive Phase where
  /-- The timestamp has been set. -/
  | running
  /-- The work time has been updated. -/
  | updated
  | suspended

/-- On every path the work time is updated, then the code yields, then the timestamp is set. -/
inductive Clocked {α : Type} (clock : Nat → Timespec) (c : Nat) : Phase → Code Times α → Prop where
  | done {a : α} : Clocked clock c .running (.done a)
  | silent {β : Type} {p : Prog Times β} {rest : β → Code Times α} (same : ∀ t, p.Yields t fun _ t' => t' = t)
      (next : ∀ b, Clocked clock c .running (rest b)) : Clocked clock c .running (.act p rest)
  | update {rest : Unit → Code Times α} (next : ∀ b, Clocked clock c .updated (rest b)) :
      Clocked clock c .running (.act (updateCoroWorkTime clock c) rest)
  | yield {rest : Code Times α} (next : Clocked clock c .suspended rest) : Clocked clock c .updated (.yield rest)
  | set {rest : Unit → Code Times α} (next : ∀ b, Clocked clock c .running (rest b)) :
      Clocked clock c .suspended (.act (setCoroTimestamp clock c) rest)

theorem Clocked.bind {α β : Type} {phase : Phase} {code : Code Times α} {f : α → Code Times β}
    (clocked : Clocked clock c phase code) (after : ∀ a, Clocked clock c .running (f a)) :
    Clocked clock c phase (code >>= f) := by
  induction clocked with
  | done => exact after _
  | silent same _ ih => exact .silent same ih
  | update _ ih => exact .update ih
  | yield _ ih => exact .yield ih
  | set _ ih => exact .set ih

theorem Clocked.lift {α : Type} {p : Prog Times α} (same : ∀ t, p.Yields t fun _ t' => t' = t) :
    Clocked clock c .running (.lift p) := .silent same fun _ => .done

theorem getSortedNumbers_clocked (depth : Nat) (numbers : List Int) :
    Clocked clock c .running (getSortedNumbers clock (some c) depth numbers) := by
  induction depth generalizing numbers with
  | zero => exact .lift fun t => yields_fault
  | succ depth ih =>
    rw [getSortedNumbers, sortBody]
    refine Clocked.bind ?_ fun sorted => .update fun _ => .yield (.set fun _ => .done)
    split
    · exact .lift fun t => by simp
    · split
      · exact .lift fun t => by simp
      · refine (ih _).bind fun left => (ih _).bind fun right => .lift fun t => ?_
        exact mergeSortedArrays_silent

/-! ## The account -/

/-- Where a coroutine is in its slice, with the numbers of the readings of the clock. -/
inductive Slice where
  | suspended
  /-- It sets the timestamp next. -/
  | resumed
  | running (first : Nat)
  /-- It yields next. -/
  | updated (first last : Nat)

/-- The slices of a coroutine that are over, each with its first and its last reading, and the current one. -/
structure Account where
  slices : List (Nat × Nat)
  current : Slice

namespace Account

def empty : Account := ⟨[], .suspended⟩

/-- The slices whose last reading has been taken. -/
def measured (a : Account) : List (Nat × Nat) :=
  match a.current with
  | .updated first last => a.slices ++ [(first, last)]
  | _ => a.slices

def total (clock : Nat → Timespec) (a : Account) : Int :=
  (a.measured.map fun slice => (clock slice.2).nanoseconds - (clock slice.1).nanoseconds).sum

end Account

def Label.coro : Label → Nat
  | .resume c => c
  | .start c => c
  | .claim c _ => c
  | .act c => c
  | .yield c => c
  | .write c _ _ => c
  | .finish c => c

/-- The coroutine neither begins nor ends to run. -/
def Label.works : Label → Bool
  | .claim _ _ => true
  | .act _ => true
  | .write _ _ _ => true
  | _ => false

/-- `c` calls `p` next. -/
def Pool.Calls (s : Pool) (c : Nat) (p : Prog Times Unit) : Prop := ∃ i rest, s.control c = .sorting i (.act p rest)

/-- What a step from `s` to `s'` is for the account of its coroutine. -/
inductive Account.Step (setup : Setup) (s s' : Pool) : Label → Account → Account → Prop where
  | resume {c : Nat} {a : Account} (current : a.current = .suspended) :
      Account.Step setup s s' (.resume c) a { a with current := .resumed }
  | start {c : Nat} {a : Account} (current : a.current = .resumed) (read : s'.times.readings = s.times.readings + 1) :
      Account.Step setup s s' (.start c) a { a with current := .running s.times.readings }
  | set {c : Nat} {a : Account} (current : a.current = .resumed) (call : s.Calls c (setCoroTimestamp setup.clock c))
      (read : s'.times.readings = s.times.readings + 1) :
      Account.Step setup s s' (.act c) a { a with current := .running s.times.readings }
  | work {label : Label} {a : Account} {first : Nat} (current : a.current = .running first)
      (works : label.works = true) (same : s'.times.readings = s.times.readings) : Account.Step setup s s' label a a
  | update {c : Nat} {a : Account} {first : Nat} (current : a.current = .running first)
      (call : s.Calls c (updateCoroWorkTime setup.clock c)) (read : s'.times.readings = s.times.readings + 1) :
      Account.Step setup s s' (.act c) a { a with current := .updated first s.times.readings }
  | yield {c : Nat} {a : Account} {first last : Nat} (current : a.current = .updated first last) :
      Account.Step setup s s' (.yield c) a ⟨a.slices ++ [(first, last)], .suspended⟩
  | finish {c : Nat} {a : Account} {first : Nat} (current : a.current = .running first)
      (read : s'.times.readings = s.times.readings + 1) :
      Account.Step setup s s' (.finish c) a ⟨a.slices ++ [(first, s.times.readings)], .suspended⟩

/-- A step of the program, with the accounts of all coroutines. -/
inductive AccountedStep (setup : Setup) : Pool × (Nat → Account) → Label → Pool × (Nat → Account) → Prop where
  | mk {s s' : Pool} {label : Label} {accounts : Nat → Account} {a' : Account} (step : Step setup s label s')
      (account : Account.Step setup s s' label (accounts label.coro) a') :
      AccountedStep setup (s, accounts) label (s', Function.update accounts label.coro a')

variable {label : Label} {setup : Setup} {s s' : Pool} {a a₁ a₂ : Account} {accounts accounts' : Nat → Account}
  {labels : List Label} {first last : Nat}

/-- There is no choice in an account. -/
theorem Account.Step.unique (one : Account.Step setup s s' label a a₁) (other : Account.Step setup s s' label a a₂) :
    a₁ = a₂ := by
  cases one with
  | resume current =>
    cases other with
    | resume => rfl
    | work current' works same => cases works
  | start current read =>
    cases other with
    | start => rfl
    | work current' works same => cases works
  | set current call read =>
    cases other with
    | set => rfl
    | work current' works same => omega
    | update current' => exact absurd (current.symm.trans current') (by simp)
  | work current works same =>
    cases other with
    | work => rfl
    | set current' call read => omega
    | update current' call read => omega
    | _ => cases works
  | update current call read =>
    cases other with
    | set current' => exact absurd (current.symm.trans current') (by simp)
    | work current' works same => omega
    | update current' =>
      obtain rfl := Slice.running.inj (current.symm.trans current')
      rfl
  | yield current =>
    cases other with
    | work current' works same => cases works
    | yield current' =>
      obtain ⟨rfl, rfl⟩ := Slice.updated.inj (current.symm.trans current')
      rfl
  | finish current read =>
    cases other with
    | work current' works same => cases works
    | finish current' =>
      obtain rfl := Slice.running.inj (current.symm.trans current')
      rfl

/-! ## Accounts and times -/

/-- The work time of `c` is the total of its account, and the slices come one after another. -/
structure Account.Right (clock : Nat → Timespec) (t : Times) (c : Nat) (a : Account) : Prop where
  normal : (t.ctx c).coroWorkTime.Normal
  sum : (t.ctx c).coroWorkTime.nanoseconds = a.total clock
  before : ∀ slice ∈ a.measured, slice.1 < slice.2 ∧ slice.2 < t.readings
  apart : a.measured.Pairwise fun slice later => slice.2 < later.1

/-- What the state and the account have to do with each other. -/
def Phase.Kept (clock : Nat → Timespec) (s : Pool) (c : Nat) (a : Account) : Phase → Prop
  | .running => s.running = some c ∧ ∃ first < s.times.readings, a.current = .running first ∧
      (∀ slice ∈ a.slices, slice.2 < first) ∧ (s.times.ctx c).prevTimestamp = some (clock first)
  | .updated => s.running = some c ∧ ∃ first last, a.current = .updated first last
  | .suspended => s.running = some c ∧ a.current = .resumed ∨ s.running ≠ some c ∧ a.current = .suspended

/-- Between which two calls a coroutine is. -/
def Control.At (clock : Nat → Timespec) (c : Nat) (phase : Phase) : Control → Prop
  | .start => phase = .suspended
  | .head => phase = .running
  | .sorting _ rest => Clocked clock c phase rest
  | .finished => phase = .suspended

/-- The account of `c` is right. -/
structure Keeps (setup : Setup) (s : Pool) (c : Nat) (a : Account) : Prop where
  right : a.Right setup.clock s.times c
  kept : ∃ phase, (s.control c).At setup.clock c phase ∧ phase.Kept setup.clock s c a
  ended : s.control c = .finished → s.running ≠ some c

namespace Account.Right

theorem congr (right : a.Right clock t c) (same : a₁.measured = a.measured) : a₁.Right clock t c where
  normal := right.normal
  sum := by rw [Account.total, same]; exact right.sum
  before := by rw [same]; exact right.before
  apart := by rw [same]; exact right.apart

theorem others (right : a.Right clock t c) (same : t'.ctx c = t.ctx c) (later : t.readings ≤ t'.readings) :
    a.Right clock t' c where
  normal := same ▸ right.normal
  sum := same ▸ right.sum
  before slice mem := ⟨(right.before slice mem).1, (right.before slice mem).2.trans_le later⟩
  apart := right.apart

end Account.Right

theorem Phase.Kept.others {phase : Phase} (kept : phase.Kept clock s c a)
    (running : s'.running = some c ↔ s.running = some c)
    (same : s'.times.ctx c = s.times.ctx c) (later : s.times.readings ≤ s'.times.readings) :
    phase.Kept clock s' c a := by
  cases phase with
  | running =>
    obtain ⟨runs, first, lt, current, before, set⟩ := kept
    exact ⟨running.mpr runs, first, lt.trans_le later, current, before, same ▸ set⟩
  | updated => exact ⟨running.mpr kept.1, kept.2⟩
  | suspended =>
    obtain ⟨runs, current⟩ | ⟨idle, current⟩ := kept
    · exact .inl ⟨running.mpr runs, current⟩
    · exact .inr ⟨fun runs => idle (running.mp runs), current⟩

theorem Keeps.others (keeps : Keeps setup s c a) (control : s'.control c = s.control c)
    (running : s'.running = some c ↔ s.running = some c) (same : s'.times.ctx c = s.times.ctx c)
    (later : s.times.readings ≤ s'.times.readings) : Keeps setup s' c a := by
  obtain ⟨phase, at_phase, kept⟩ := keeps.kept
  refine ⟨keeps.right.others same later, ⟨phase, control ▸ at_phase, kept.others running same later⟩, ?_⟩
  rw [control]
  exact fun finished runs => keeps.ended finished (running.mp runs)

/-! ## One step -/

/-- A clock that is normalised and does not go back. -/
structure Monotonic (clock : Nat → Timespec) : Prop where
  normal : ∀ n, (clock n).Normal
  le_succ : ∀ n, (clock n).nanoseconds ≤ (clock (n + 1)).nanoseconds

theorem Monotonic.le (monotonic : Monotonic clock) {i j : Nat} (le : i ≤ j) :
    (clock i).nanoseconds ≤ (clock j).nanoseconds := monotone_nat_of_le_succ monotonic.le_succ le

/-- A slice begins. -/
theorem set_right (right : a.Right clock t c) (resumed : a.current = .resumed)
    (set : (setCoroTimestamp clock c).Returns t () t') :
    Account.Right clock t' c { a with current := .running t.readings } ∧ t'.readings = t.readings + 1 ∧
      Times.OnlyOf (some c) t t' ∧ (∀ slice ∈ a.slices, slice.2 < t.readings) ∧
      (t'.ctx c).prevTimestamp = some (clock t.readings) := by
  obtain ⟨normal, sum, before, apart⟩ := right
  have measured : a.measured = a.slices := by simp [Account.measured, resumed]
  have only := (setCoroTimestamp_returns.of_returns set).2
  obtain rfl := setCoroTimestamp_eq.of_returns set
  rw [Account.total, measured] at sum
  rw [measured] at before apart
  refine ⟨⟨?_, ?_, ?_, apart⟩, rfl, only, fun slice mem => (before slice mem).2, by simp⟩
  · simpa using normal
  · simpa [Account.total, Account.measured] using sum
  · exact fun slice mem => ⟨(before slice mem).1, Nat.lt_succ_of_lt (before slice mem).2⟩

/-- The time of the slice is added. -/
theorem update_right (monotonic : Monotonic clock) (right : a.Right clock t c) (running : a.current = .running first)
    (lt : first < t.readings) (slices : ∀ slice ∈ a.slices, slice.2 < first)
    (set : (t.ctx c).prevTimestamp = some (clock first)) (updated : (updateCoroWorkTime clock c).Returns t () t') :
    Account.Right clock t' c { a with current := .updated first t.readings } ∧ t'.readings = t.readings + 1 ∧
      Times.OnlyOf (some c) t t' := by
  obtain ⟨normal, sum, before, apart⟩ := right
  have measured : a.measured = a.slices := by simp [Account.measured, running]
  have started : t.Started (some c) := by
    rintro _ ⟨⟩
    simp [set]
  have only := ((updateCoroWorkTime_returns started).of_returns updated).2
  obtain ⟨work, work_normal, work_sum, rfl⟩ := (updateCoroWorkTime_eq set (monotonic.normal first) (monotonic.normal _)
    normal (monotonic.le lt.le)).of_returns updated
  rw [Account.total, measured] at sum
  rw [measured] at before apart
  refine ⟨⟨?_, ?_, ?_, ?_⟩, rfl, only⟩
  · simpa using work_normal
  · simp [Account.total, Account.measured, work_sum, sum]
  · intro slice mem
    obtain old | rfl := List.mem_append.mp mem |>.imp_right List.mem_singleton.mp
    · exact ⟨(before slice old).1, Nat.lt_succ_of_lt (before slice old).2⟩
    · exact ⟨lt, Nat.lt_succ_self _⟩
  · refine List.pairwise_append.mpr ⟨apart, List.pairwise_singleton _ _, fun slice mem last one => ?_⟩
    obtain rfl := List.mem_singleton.mp one
    exact slices slice mem

/-- A slice ends. -/
theorem close_right (right : a.Right clock t c) (updated : a.current = .updated first last) :
    Account.Right clock t c ⟨a.slices ++ [(first, last)], .suspended⟩ :=
  right.congr (by simp [Account.measured, updated])

theorem Keeps.goto {u : Pool} {control : Control} {phase : Phase} (right : a.Right setup.clock u.times c)
    (at_phase : control.At setup.clock c phase) (kept : phase.Kept setup.clock u c a)
    (ended : control = .finished → u.running ≠ some c) : Keeps setup (u.goto c control) c a := by
  refine ⟨right, ⟨phase, ?_, kept⟩, ?_⟩
  · rwa [Pool.goto_control, if_pos rfl]
  · rwa [Pool.goto_control, if_pos rfl]

/-- What a step does to the account of its coroutine, and leaves to the others. -/
structure StepKeeps (setup : Setup) (s : Pool) (label : Label) (s' : Pool) (a : Account) : Prop where
  own : ∃ a', Account.Step setup s s' label a a' ∧ Keeps setup s' label.coro a'
  only : Times.OnlyOf (some label.coro) s.times s'.times
  later : s.times.readings ≤ s'.times.readings
  control : ∀ d, d ≠ label.coro → s'.control d = s.control d
  running : ∀ d, d ≠ label.coro → (s'.running = some d ↔ s.running = some d)

theorem Step.keeps (step : Step setup s label s') (monotonic : Monotonic setup.clock)
    (keeps : Keeps setup s label.coro a) : StepKeeps setup s label s' a := by
  have others : ∀ (u : Pool) (c : Nat) (control : Control) (d : Nat), d ≠ c → (u.goto c control).control d = u.control d :=
    fun u c control d other => by rw [Pool.goto_control, if_neg other]
  obtain ⟨right, ⟨phase, at_phase, kept⟩, -⟩ := keeps
  cases step with
  | @resume c idle valid more =>
    -- Nobody runs, so it is not in a slice.
    have idle_self : s.running ≠ some c := by simp [idle]
    obtain rfl : phase = .suspended := by
      cases phase with
      | suspended => rfl
      | running => exact absurd kept.1 idle_self
      | updated => exact absurd kept.1 idle_self
    have current : a.current = .suspended := kept.elim (fun runs => absurd runs.1 idle_self) And.right
    have measured : ({ a with current := .resumed } : Account).measured = a.measured := by
      simp [Account.measured, current]
    refine ⟨⟨_, .resume current, right.congr measured, ⟨.suspended, at_phase, .inl ⟨rfl, rfl⟩⟩, ?_⟩, fun _ _ => rfl,
      le_rfl, fun _ _ => rfl, fun d other => ?_⟩
    · exact fun finished => absurd finished more
    · simp [idle, show c ≠ d from Ne.symm other]
  | @start c t runs control set =>
    rw [Label.coro, control] at at_phase
    obtain rfl : phase = .suspended := at_phase
    have current : a.current = .resumed := kept.elim And.right fun idle => absurd runs idle.1
    obtain ⟨right', read, only, before, prev⟩ := set_right right current set
    refine ⟨⟨_, .start current read, .goto right' rfl ⟨runs, _, ?_, rfl, before, prev⟩ nofun⟩, only,
      read ▸ Nat.le_succ _, others _ _ _, fun _ _ => Iff.rfl⟩
    exact read ▸ Nat.lt_succ_self _
  | claim runs control left file =>
    rw [Label.coro, control] at at_phase
    obtain rfl : phase = .running := at_phase
    obtain ⟨-, first, lt, current, before, prev⟩ := kept
    exact ⟨⟨a, .work current rfl rfl,
        .goto right (getSortedNumbers_clocked _ _) ⟨runs, first, lt, current, before, prev⟩ nofun⟩,
      fun _ _ => rfl, le_rfl, others _ _ _, fun _ _ => Iff.rfl⟩
  | @act c i β p rest b t runs control returned =>
    rw [Label.coro, control] at at_phase
    have clocked : Clocked setup.clock _ phase (.act _ _) := at_phase
    cases clocked with
    | silent same next =>
      obtain rfl := same _ _ _ returned
      obtain ⟨-, first, lt, current, before, prev⟩ := kept
      exact ⟨⟨a, .work current rfl rfl, .goto right (next _) ⟨runs, first, lt, current, before, prev⟩ nofun⟩,
        fun _ _ => rfl, le_rfl, others _ _ _, fun _ _ => Iff.rfl⟩
    | update next =>
      obtain ⟨-, first, lt, current, before, prev⟩ := kept
      obtain ⟨right', read, only⟩ := update_right monotonic right current lt before prev returned
      exact ⟨⟨_, .update current ⟨i, _, control⟩ read, .goto right' (next _) ⟨runs, first, _, rfl⟩ nofun⟩, only,
        read ▸ Nat.le_succ _, others _ _ _, fun _ _ => Iff.rfl⟩
    | set next =>
      have current : a.current = .resumed := kept.elim And.right fun idle => absurd runs idle.1
      obtain ⟨right', read, only, before, prev⟩ := set_right right current returned
      refine ⟨⟨_, .set current ⟨i, _, control⟩ read, .goto right' (next _) ⟨runs, _, ?_, rfl, before, prev⟩ nofun⟩, only,
        read ▸ Nat.le_succ _, others _ _ _, fun _ _ => Iff.rfl⟩
      exact read ▸ Nat.lt_succ_self _
  | @yield c i rest runs control =>
    rw [Label.coro, control] at at_phase
    have clocked : Clocked setup.clock _ phase (.yield _) := at_phase
    cases clocked with
    | yield next =>
      obtain ⟨-, first, last, current⟩ := kept
      refine ⟨⟨_, .yield current, .goto (close_right right current) next (.inr ⟨by simp, rfl⟩) nofun⟩, fun _ _ => rfl,
        le_rfl,
        others _ _ _, fun d other => ?_⟩
      simp [Pool.goto, runs, show c ≠ d from Ne.symm other]
  | write runs control room =>
    rw [Label.coro, control] at at_phase
    have clocked : Clocked setup.clock _ phase (.done _) := at_phase
    cases clocked with
    | done =>
      obtain ⟨-, first, lt, current, before, prev⟩ := kept
      exact ⟨⟨a, .work current rfl rfl, .goto right rfl ⟨runs, first, lt, current, before, prev⟩ nofun⟩,
        fun _ _ => rfl, le_rfl, others _ _ _, fun _ _ => Iff.rfl⟩
  | @finish c t runs control none_left updated =>
    rw [Label.coro, control] at at_phase
    obtain rfl : phase = .running := at_phase
    obtain ⟨-, first, lt, current, before, prev⟩ := kept
    obtain ⟨right', read, only⟩ := update_right monotonic right current lt before prev updated
    have closed := close_right right' rfl
    refine ⟨⟨_, .finish current read, .goto closed rfl (.inr ⟨by simp, rfl⟩) (by simp)⟩, only,
      read ▸ Nat.le_succ _, others _ _ _, fun d other => ?_⟩
    simp [Pool.goto, runs, show c ≠ d from Ne.symm other]

/-- An account that is right can be kept. -/
theorem Step.accounted (step : Step setup s label s') (monotonic : Monotonic setup.clock)
    (keeps : Keeps setup s label.coro (accounts label.coro)) :
    ∃ accounts', AccountedStep setup (s, accounts) label (s', accounts') := by
  obtain ⟨a', account, -⟩ := (step.keeps monotonic keeps).own
  exact ⟨_, .mk step account⟩

/-- Everyone's account stays right. -/
theorem AccountedStep.keeps {p p' : Pool × (Nat → Account)} (step : AccountedStep setup p label p')
    (monotonic : Monotonic setup.clock) (keeps : ∀ c, Keeps setup p.1 c (p.2 c)) : ∀ c, Keeps setup p'.1 c (p'.2 c) := by
  cases step with
  | mk step account =>
    obtain ⟨⟨a', account', own⟩, only, later, control, running⟩ := step.keeps monotonic (keeps _)
    obtain rfl := account.unique account'
    intro c
    by_cases mine : c = label.coro
    · subst mine
      simpa using own
    · simp only [Function.update_of_ne mine]
      exact (keeps c).others (control c mine) (running c mine) (only c (by simpa using Ne.symm mine)) later

/-! ## Runs -/

/-- Each run has its accounts. -/
theorem run_accounted (run : Run (Step setup) s labels s') (monotonic : Monotonic setup.clock)
    (keeps : ∀ c, Keeps setup s c (accounts c)) :
    ∃ accounts', Run (AccountedStep setup) (s, accounts) labels (s', accounts') := by
  induction run generalizing accounts with
  | nil => exact ⟨accounts, .nil _⟩
  | cons one _ ih =>
    obtain ⟨accounts₁, first⟩ := one.accounted monotonic (keeps _)
    obtain ⟨accounts', rest⟩ := ih (first.keeps monotonic keeps)
    exact ⟨accounts', .cons first rest⟩

theorem run_keeps {p p' : Pool × (Nat → Account)} (run : Run (AccountedStep setup) p labels p')
    (monotonic : Monotonic setup.clock) (keeps : ∀ c, Keeps setup p.1 c (p.2 c)) : ∀ c, Keeps setup p'.1 c (p'.2 c) := by
  induction run with
  | nil => exact keeps
  | cons one _ ih => exact ih (one.keeps monotonic keeps)

theorem init_keeps (setup : Setup) (c : Nat) : Keeps setup (.init setup) c .empty where
  right := ⟨⟨le_rfl, (by decide : (0 : Int) < 1000000000)⟩, rfl, by simp [Account.measured, Account.empty], .nil⟩
  kept := ⟨.suspended, rfl, .inr ⟨by simp [Pool.init], rfl⟩⟩
  ended := nofun

/-- What holds of the times of `c` wherever the clock has been read. -/
structure Exact (setup : Setup) (s : Pool) (c : Nat) (a : Account) : Prop where
  normal : (s.times.ctx c).coroWorkTime.Normal
  /-- Of the slices nothing is missing, and nothing is there twice. -/
  exact : (s.times.ctx c).coroWorkTime.nanoseconds = a.total setup.clock
  lasting : ∀ slice ∈ a.slices, slice.1 < slice.2
  apart : a.slices.Pairwise fun slice later => slice.2 < later.1
  ended : s.control c = .finished → a.current = .suspended

theorem Account.slices_sublist (a : Account) : a.slices.Sublist a.measured := by
  rw [Account.measured]
  split
  · exact List.sublist_append_left _ _
  · exact .refl _

theorem Keeps.exact (keeps : Keeps setup s c a) : Exact setup s c a := by
  obtain ⟨⟨normal, sum, before, apart⟩, ⟨phase, at_phase, kept⟩, ended⟩ := keeps
  refine ⟨normal, sum, ?_, apart.sublist a.slices_sublist, fun finished => ?_⟩
  · exact fun slice mem => (before slice (a.slices_sublist.subset mem)).1
  · rw [finished] at at_phase
    obtain rfl : phase = .suspended := at_phase
    exact kept.elim (fun runs => absurd runs.1 (ended finished)) And.right

/-- For every run, with a clock that is normalised and does not go back. -/
theorem work_time_exact (monotonic : Monotonic setup.clock) :
    (∀ labels s, Run (Step setup) (.init setup) labels s →
      ∃ accounts, Run (AccountedStep setup) (.init setup, fun _ => .empty) labels (s, accounts)) ∧
    (∀ labels s accounts, Run (AccountedStep setup) (.init setup, fun _ => .empty) labels (s, accounts) →
      ∀ c, Exact setup s c (accounts c)) ∧
    ∀ source target : Timespec, source.Normal → target.Normal → source.nanoseconds ≤ target.nanoseconds →
      (getTimeDiff source target).Normal ∧ 0 ≤ (getTimeDiff source target).tvSec ∧
        (getTimeDiff source target).nanoseconds = target.nanoseconds - source.nanoseconds := by
  refine ⟨fun labels s run => run_accounted run monotonic (init_keeps setup), fun labels s accounts run c => ?_, ?_⟩
  · exact (run_keeps run monotonic (init_keeps setup) c).exact
  · exact fun source target source_normal target_normal le => getTimeDiff_normal source_normal target_normal le

/-- One file with one number, two coroutines, and 0.75 seconds between two readings. -/
def ticking : Setup where
  files := ⟨[[5]], by simp⟩
  corosTotal := 2
  clock n := ⟨(3 * n / 4 : Nat), (250000000 * (3 * n % 4) : Nat)⟩
  depth := 33
  deep := Nat.le_succ _

theorem ticking_monotonic : Monotonic ticking.clock where
  normal n := by
    refine ⟨?_, ?_⟩ <;> simp only [ticking] <;> omega
  le_succ n := by
    simp only [ticking, Timespec.nanoseconds]
    omega

/-- The second coroutine finds no file while the first one is suspended. -/
def interrupted : List Label :=
  [.resume 0, .start 0, .claim 0 0, .act 0, .act 0, .yield 0, .resume 1, .start 1, .finish 1,
   .resume 0, .act 0, .write 0 0 [5], .finish 0]

theorem interrupted_runs : ∃ s accounts,
    Run (AccountedStep ticking) (.init ticking, fun _ => .empty) interrupted (s, accounts) ∧
      accounts 0 = ⟨[(0, 1), (4, 5)], .suspended⟩ ∧ accounts 1 = ⟨[(2, 3)], .suspended⟩ := by
  refine ⟨?s, ?accounts, ?run, ?slices⟩
  case run =>
    refine .cons (.mk (.resume rfl (by decide) (by nofun)) (.resume rfl)) ?_
    refine .cons (.mk (.start rfl rfl ⟨0, rfl⟩) (.start rfl rfl)) ?_
    refine .cons (.mk (.claim rfl rfl (by decide) rfl) (.work rfl rfl rfl)) ?_
    refine .cons (.mk (.act rfl rfl ⟨0, rfl⟩) (.work rfl rfl rfl)) ?_
    refine .cons (.mk (.act rfl rfl ⟨0, rfl⟩) (.update rfl ⟨_, _, rfl⟩ rfl)) ?_
    refine .cons (.mk (.yield rfl rfl) (.yield rfl)) ?_
    refine .cons (.mk (.resume rfl (by decide) (by nofun)) (.resume rfl)) ?_
    refine .cons (.mk (.start rfl rfl ⟨0, rfl⟩) (.start rfl rfl)) ?_
    refine .cons (.mk (.finish rfl rfl (by decide) ⟨0, rfl⟩) (.finish rfl rfl)) ?_
    refine .cons (.mk (.resume rfl (by decide) (by nofun)) (.resume rfl)) ?_
    refine .cons (.mk (.act rfl rfl ⟨0, rfl⟩) (.set rfl ⟨_, _, rfl⟩ rfl)) ?_
    refine .cons (.mk (.write rfl rfl (by decide)) (.work rfl rfl rfl)) ?_
    refine .cons (.mk (.finish rfl rfl (by decide) ⟨0, rfl⟩) (.finish rfl rfl)) ?_
    exact .nil _
  case slices => exact ⟨rfl, rfl⟩

/-- The 2.25 seconds between the two slices do not count. -/
theorem work_time_exact_ticking : ∃ s accounts,
    Run (AccountedStep ticking) (.init ticking, fun _ => .empty) interrupted (s, accounts) ∧
      accounts 0 = ⟨[(0, 1), (4, 5)], .suspended⟩ ∧ accounts 1 = ⟨[(2, 3)], .suspended⟩ ∧
      (∀ c, Exact ticking s c (accounts c)) ∧ (s.times.ctx 0).coroWorkTime.nanoseconds = 1500000000 := by
  obtain ⟨s, accounts, run, first, second⟩ := interrupted_runs
  have exact := (work_time_exact ticking_monotonic).2.1 _ _ _ run
  refine ⟨s, accounts, run, first, second, exact, ?_⟩
  rw [(exact 0).exact, first]
  decide

end SysprogLabs.FileSort
