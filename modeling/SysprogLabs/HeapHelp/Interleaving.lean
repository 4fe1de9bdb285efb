import SysprogLabs.HeapHelp.Report
import SysprogLabs.HeapHelp.Threads
import Mathlib.Algebra.Order.BigOperators.Group.Multiset
import Mathlib.Data.Fintype.Basic
import Mathlib.Data.Multiset.Bind

/-! # The process

Any number of threads call the hooks.  Each of them is either between two calls or has some of the
actions of its call behind it, and any thread may take the next step.  A user has a block from the end
of the call that returned it until he passes it to one.
-/

namespace SysprogLabs.HeapHelp

open Prog

variable {ι : Type}

structure Process (ι : Type) where
  threads : Threads State Int ι Address
  /-- The blocks that the users have. -/
  held : Multiset Address

namespace Process

abbrev state (p : Process ι) : State := p.threads.shared

/-- The thread is between two calls. -/
def Idle (p : Process ι) (i : ι) : Prop := p.threads.thread i = ⟨0, .done 0⟩

def start (staticBuf : Address) : Process ι where
  threads := ⟨.start staticBuf, fun _ => ⟨0, .done 0⟩⟩
  held := 0

end Process

/-- The pointer that the caller gives up. -/
def Hook.passed : Hook → Address
  | .heap (.realloc ptr _) | .heap (.free ptr) => ptr
  | .getline lineOld => lineOld
  | .freeaddrinfo ai => ai
  | _ => 0

/-- What the users have to keep to: a pointer is `NULL`, one that they have, or, for `realloc` and
    `free`, one into the static buffer. -/
def Hook.Valid (s : State) (held : Multiset Address) : Hook → Prop
  | .heap (.realloc ptr _) | .heap (.free ptr) => ptr = 0 ∨ s.allocIsStatic ptr ∨ ptr ∈ held
  | .getline ptr | .freeaddrinfo ptr => ptr = 0 ∨ ptr ∈ held
  | .strdup ptr => ¬ s.allocIsStatic ptr
  | _ => True

/-- What the system has to keep to: it has memory for the records, a `realloc` that returns `NULL` has
    released the block, and `getline` does not lose the line. -/
def Hook.Answered (s : State) (sys : Answer) (hook : Hook) : Prop :=
  sys.mapped = true ∧ match hook with
    | .heap (.realloc ptr _) => (if s.allocIsStatic ptr then 0 else ptr) ≠ 0 → sys.result = 0 → sys.released = true
    | .getline lineOld => lineOld ≠ 0 → sys.result ≠ 0
    | _ => True

inductive Event (ι : Type) where
  | start (i : ι) (hook : Hook) (sys : Answer)
  | act (i : ι)
  | finish (i : ι)

/-- One step of one thread. -/
inductive Process.Step [DecidableEq ι] : Process ι → Event ι → Process ι → Prop where
  | start {p : Process ι} {i : ι} {hook : Hook} {sys : Answer} : p.Idle i → hook.Valid p.state p.held →
      hook.Answered p.state sys → Process.Step p (.start i hook sys)
        ⟨⟨p.state, Function.update p.threads.thread i ⟨0, hook.code sys⟩⟩, p.held.erase hook.passed⟩
  | act {p : Process ι} {i : ι} {t' : Thread State Int Address} {s' : State} :
      (p.threads.thread i).Step depthPart p.state t' s' → s'.Granted →
      Process.Step p (.act i) ⟨⟨s', Function.update p.threads.thread i t'⟩, p.held⟩
  | finish {p : Process ι} {i : ι} {depth : Int} {res : Address} : p.threads.thread i = ⟨depth, .done res⟩ → res ≠ 0 →
      Process.Step p (.finish i) ⟨⟨p.state, Function.update p.threads.thread i ⟨depth, .done 0⟩⟩, res ::ₘ p.held⟩

/-- The list of the tracker is well formed, `alloc_count` is its length, every block that a user has is
    in it and is given out, and when no call is under way there is nothing else. -/
structure Process.Tracked (p : Process ι) (tracked : Traced) : Prop where
  lists : ∃ live pool, Chain p.state.records.link p.state.records.allocs live ∧
    Chain p.state.records.link p.state.records.allocPool pool ∧ (live ++ pool ++ p.state.records.unused).Nodup ∧
    live.map p.state.records.traced = tracked.map some ∧ p.state.records.allocCount = tracked.length
  held : p.held ≤ ↑(tracked.map Prod.fst) ∧ p.held ≤ ↑(p.state.blocks.map Prod.fst)
  idle : (∀ i, p.Idle i) → ↑(tracked.map Prod.fst) = p.held ∧ ↑(p.state.blocks.map Prod.fst) = p.held

/-! ## The invariant -/

section Hooks

variable {staticBuf : Address} {s : State} {held : Multiset Address} {all : Tokens}

/-- Every hook keeps to the protocol when it is given what the caller has. -/
theorem Hook.upholds {hook : Hook} {sys : Answer}
    (static : ∀ ptr, s.allocIsStatic ptr ↔ (State.start staticBuf).allocIsStatic ptr)
    (heap : ∀ ptr ∈ held, ¬ (State.start staticBuf).allocIsStatic ptr)
    (valid : hook.Valid s held) (answered : hook.Answered s sys) :
    (hook.code sys).Upholds (protocol staticBuf) (fun res l all => l = 0 ∧ all = given res)
      (HeapHelp.passed staticBuf hook.passed) 0 := by
  have null : ¬ (State.start staticBuf).allocIsStatic 0 := fun static => static.1 rfl
  have nothing : HeapHelp.passed staticBuf 0 = 0 := by rw [passed_heap null, given, if_pos rfl]
  obtain ⟨mapped, answered⟩ := answered
  cases hook with
  | heap call =>
    cases call with
    | malloc size =>
      rw [show (Hook.heap (.malloc size)).passed = 0 from rfl, nothing]
      exact malloc_upholds mapped size
    | calloc num size =>
      rw [show (Hook.heap (.calloc num size)).passed = 0 from rfl, nothing]
      exact calloc_upholds mapped num size
    | realloc ptr size =>
      simp only [static] at answered
      exact realloc_upholds mapped answered size
    | free ptr =>
      refine .bind (free_upholds.mono fun _ l all result => .pure ?_)
      obtain ⟨rfl, rfl⟩ := result
      exact ⟨rfl, rfl⟩
  | strdup ptr =>
    rw [show (Hook.strdup ptr).passed = 0 from rfl, nothing]
    exact strdup_upholds mapped ((static ptr).not.mp valid)
  | getline ptr =>
    refine getline_upholds mapped ?_ answered
    obtain rfl | mem := valid
    · exact null
    · exact heap ptr mem
  | getaddrinfo =>
    rw [show Hook.getaddrinfo.passed = 0 from rfl, nothing]
    exact getaddrinfo_upholds mapped
  | freeaddrinfo ptr =>
    refine .bind ((freeaddrinfo_upholds ?_).mono fun _ l all result => .pure ?_)
    · obtain rfl | mem := valid
      · exact null
      · exact heap ptr mem
    · obtain ⟨rfl, rfl⟩ := result
      exact ⟨rfl, rfl⟩

/-- A pointer that the caller passes is `NULL`, static or his. -/
theorem Hook.Valid.passed_cases {hook : Hook} (valid : hook.Valid s held) :
    hook.passed = 0 ∨ s.allocIsStatic hook.passed ∨ hook.passed ∈ held := by
  cases hook with
  | heap call =>
    cases call with
    | realloc | free => exact valid
    | malloc | calloc => exact .inl rfl
  | getline | freeaddrinfo => exact valid.imp_right .inr
  | strdup | getaddrinfo => exact .inl rfl

/-! ## What the users have -/

theorem bind_given_cons {ptr : Address} : (ptr ::ₘ held).bind given = given ptr + held.bind given :=
  Multiset.cons_bind ..

/-- What a user has is a live block. -/
theorem held_live {ptr : Address} (nonnull : ptr ≠ 0)
    (accounts : Accounts staticBuf ((ptr ::ₘ held).bind given + all) s) :
    ¬ (State.start staticBuf).allocIsStatic ptr := by
  rw [bind_given_cons, given_of_ne nonnull, Multiset.cons_swap] at accounts
  simp only [Multiset.cons_add] at accounts
  exact accounts.static_iff.not.mp accounts.live.2

theorem entries_add {all all' : Tokens} : (all + all').entries = all.entries + all'.entries := Multiset.filterMap_add ..

theorem blocks_add {all all' : Tokens} : (all + all').blocks = all.blocks + all'.blocks := Multiset.filterMap_add ..

theorem held_tokens (nonnull : ∀ ptr ∈ held, ptr ≠ 0) :
    Tokens.entries (held.bind given) = held ∧ Tokens.blocks (held.bind given) = held := by
  induction held using Multiset.induction_on with
  | empty => exact ⟨rfl, rfl⟩
  | cons ptr held ih =>
    obtain ⟨entries, blocks⟩ := ih fun other mem => nonnull other (Multiset.mem_cons_of_mem mem)
    have here := given_of_ne (nonnull ptr (Multiset.mem_cons_self ..))
    rw [bind_given_cons, entries_add, blocks_add, entries, blocks, here]
    simp only [Tokens.entries_entry, Tokens.entries_block, Tokens.entries_zero, Tokens.blocks_entry,
      Tokens.blocks_block, Tokens.blocks_zero, Multiset.cons_add, zero_add, true_and]

end Hooks

namespace Process

variable [Fintype ι] {staticBuf : Address} {p p' : Process ι} {event : Event ι}

structure Inv (p : Process ι) (staticBuf : Address) : Prop where
  obeys : p.threads.Obeys (protocol staticBuf) (fun res l all => l = 0 ∧ all = given res) (p.held.bind given)
  nonnull : ∀ ptr ∈ p.held, ptr ≠ 0

theorem Inv.start : (start staticBuf : Process ι).Inv staticBuf where
  obeys := by
    refine ⟨fun _ => 0, ?_, fun _ => ⟨rfl, rfl⟩⟩
    refine ⟨rfl, rfl, rfl, ⟨rfl, rfl⟩, ⟨.nil, ?_⟩, ?_, [], [], (start_tracks staticBuf).records, ?_⟩
    · simp [Process.start, State.start]
    · simp [Process.start, State.start]
    · simp [Process.start]
  nonnull := by simp [Process.start]

theorem Inv.heap (inv : p.Inv staticBuf) {ptr : Address} (mem : ptr ∈ p.held) :
    ¬ (State.start staticBuf).allocIsStatic ptr := by
  obtain ⟨hands, accounts, -⟩ := inv.obeys
  rw [← Multiset.cons_erase mem] at accounts
  exact held_live (inv.nonnull ptr mem) accounts

/-- The tokens of the users without those for a pointer that is passed. -/
theorem Inv.pass (inv : p.Inv staticBuf) {hook : Hook} (valid : hook.Valid p.state p.held)
    (static : ∀ ptr, p.state.allocIsStatic ptr ↔ (State.start staticBuf).allocIsStatic ptr) :
    p.held.bind given = passed staticBuf hook.passed + (p.held.erase hook.passed).bind given := by
  by_cases mem : hook.passed ∈ p.held
  · rw [passed_heap (inv.heap mem), ← bind_given_cons, Multiset.cons_erase mem]
  · rw [Multiset.erase_of_notMem mem]
    have nothing : passed staticBuf hook.passed = 0 := by
      obtain null | static' | held := valid.passed_cases
      · simp [passed, given, null]
      · simp [passed, given, (static _).mp static']
      · exact absurd held mem
    rw [nothing, zero_add]

theorem Inv.tracked (inv : p.Inv staticBuf) : ∃ tracked, p.Tracked tracked := by
  obtain ⟨held_entries, held_blocks⟩ := held_tokens inv.nonnull
  obtain ⟨hands, accounts, upholds⟩ := inv.obeys
  obtain ⟨inHand, tracked, ⟨live, pool, holds, about⟩, entries, -⟩ := accounts.tracked
  have blocks := accounts.blocks
  rw [entries_add, held_entries] at entries
  rw [blocks_add, held_blocks] at blocks
  refine ⟨tracked, ⟨live, pool, holds.listed, holds.pooled, ?_, about, ?_⟩, ⟨?_, ?_⟩, fun idle => ?_⟩
  · have apart := holds.apart
    rw [List.append_assoc, List.append_assoc] at apart
    simpa using (List.nodup_append.mp apart).2.1
  · have length := congrArg List.length about
    rw [List.length_map, List.length_map] at length
    rw [← length]
    exact holds.count
  · rw [← entries]
    exact Multiset.le_add_right ..
  · rw [← blocks]
    exact Multiset.le_add_right ..
  · have nothing : ∑ i, hands i = 0 := by
      refine Finset.sum_eq_zero fun i _ => ?_
      have result := upholds i
      rw [idle i] at result
      exact result.2
    rw [nothing] at entries blocks
    exact ⟨by simpa using entries.symm, by simpa using blocks.symm⟩

variable [DecidableEq ι]

theorem Inv.step (inv : p.Inv staticBuf) (step : p.Step event p') : p'.Inv staticBuf := by
  cases step with
  | @start i hook sys idle valid answered =>
    refine ⟨inv.obeys.replace fun hands others upholds accounts => ?_, fun ptr mem => ?_⟩
    · have static : ∀ ptr, p.state.allocIsStatic ptr ↔ (State.start staticBuf).allocIsStatic ptr := fun ptr =>
        Accounts.static_iff accounts
      rw [idle] at upholds
      obtain ⟨-, rfl⟩ := upholds
      refine ⟨passed staticBuf hook.passed, ?_, Hook.upholds static (fun ptr mem => inv.heap mem) valid answered⟩
      rw [inv.pass valid static] at accounts
      simpa [given, add_assoc] using accounts
    · exact inv.nonnull ptr (Multiset.mem_of_mem_erase mem)
  | act step granted => exact ⟨inv.obeys.act step granted, inv.nonnull⟩
  | @finish i depth res at_i given_out =>
    refine ⟨inv.obeys.replace fun hands others upholds accounts => ?_, fun ptr mem => ?_⟩
    · rw [at_i] at upholds
      obtain ⟨rfl, rfl⟩ := upholds
      refine ⟨0, ?_, rfl, rfl⟩
      rw [bind_given_cons]
      simpa [add_assoc, add_left_comm] using accounts
    · obtain rfl | mem := Multiset.mem_cons.mp mem
      · exact given_out
      · exact inv.nonnull ptr mem

theorem Inv.reachable (reachable : Reachable Process.Step (Process.start staticBuf) p) : p.Inv staticBuf := by
  apply Reachable.invariant reachable
  · exact Inv.start
  · exact fun _ _ _ inv step => inv.step step

/-- Whatever the threads do in whatever order, no assertion of the tracker fails and no thread is
    stuck, and the list has every block that a user has. -/
theorem tracked_by_threads (reachable : Reachable Process.Step (start staticBuf) p) :
    (∀ i, (∃ res, (p.threads.thread i).code = .done res) ∨ ∃ t' s', (p.threads.thread i).Step depthPart p.state t' s') ∧
      ∃ tracked, p.Tracked tracked := by
  have inv := Inv.reachable reachable
  refine ⟨fun i => ?_, inv.tracked⟩
  by_cases done : ∃ res, (p.threads.thread i).code = .done res
  · exact .inl done
  · exact .inr (inv.obeys.progress fun res at_i => done ⟨res, at_i⟩)

/-- The first thread has got ten bytes, and the second one is about to track the twenty that it has got. -/
def twoMallocs : List (Event (Fin 2)) :=
  [.start 0 (.heap (.malloc 10)) ⟨⟨4096, false, true, [1]⟩, 0, 0, 0⟩, .act 0, .act 0, .act 0, .act 0, .act 0, .act 0,
   .act 0, .act 0, .act 0, .act 0, .act 0, .act 0, .act 0, .finish 0,
   .start 1 (.heap (.malloc 20)) ⟨⟨8192, false, true, [2]⟩, 0, 0, 0⟩, .act 1, .act 1, .act 1]

attribute [local semireducible] allocationBatchSize in
theorem twoMallocs_runs : ∃ p : Process (Fin 2), Run Process.Step (start 0) twoMallocs p ∧ p.held = {4096} ∧
    p.state.blocks = [(8192, 20), (4096, 10)] ∧ p.state.records.allocCount = 1 ∧
    p.state.records.allocs.bind p.state.records.traced = some (4096, 10, [1]) := by
  have granted : ∀ s : State, s.staticBuf = 0 → s.staticSize = 0 →
      s.blocks = [] ∨ s.blocks = [(4096, 10)] ∨ s.blocks = [(8192, 20), (4096, 10)] → s.Granted := by
    rintro ⟨_, _, _, _, _, _, _⟩ rfl rfl (rfl | rfl | rfl)
    · exact ⟨by simp, by simp⟩
    · exact ⟨by simp, by simp [State.allocIsStatic]⟩
    · exact ⟨by simp, by simp [State.allocIsStatic]⟩
  refine ⟨?p, ?run, ?held⟩
  case run =>
    refine .cons (Step.start rfl trivial ⟨rfl, trivial⟩) ?_
    iterate 2 refine .cons (Step.act (.act ⟨2, rfl⟩) (granted _ rfl rfl (.inl rfl))) ?_
    iterate 11 refine .cons (Step.act (.act ⟨2, rfl⟩) (granted _ rfl rfl (.inr (.inl rfl)))) ?_
    refine .cons (Step.finish rfl (by decide)) ?_
    refine .cons (Step.start rfl trivial ⟨rfl, trivial⟩) ?_
    iterate 2 refine .cons (Step.act (.act ⟨2, rfl⟩) (granted _ rfl rfl (.inr (.inl rfl)))) ?_
    refine .cons (Step.act (.act ⟨2, rfl⟩) (granted _ rfl rfl (.inr (.inr rfl)))) ?_
    exact .nil _
  case held => exact ⟨rfl, rfl, rfl, rfl⟩

theorem tracked_by_two_threads : ∃ p : Process (Fin 2), p.held = {4096} ∧ p.state.blocks = [(8192, 20), (4096, 10)] ∧
    (∀ i, (∃ res, (p.threads.thread i).code = .done res) ∨ ∃ t' s', (p.threads.thread i).Step depthPart p.state t' s') ∧
    ∃ tracked, p.Tracked tracked := by
  obtain ⟨p, run, held, blocks, -, -⟩ := twoMallocs_runs
  exact ⟨p, held, blocks, tracked_by_threads ⟨_, run⟩⟩

/-- Whenever the process exits, the report is about the records of the list, newest first, and every block
    that a user has is among them. -/
theorem reports_held (mode : ReportMode) (dladdr : Address → Option Symbol)
    (reachable : Reachable Process.Step (start staticBuf) p) :
    ∃ tracked, p.Tracked tracked ∧ (heaphAtexit mode dladdr).Ensures ⟨p.state, ""⟩ fun _ e =>
      e.printed = Report.text dladdr mode tracked.leaks p.state.records.allocCountTotal := by
  have inv := Inv.reachable reachable
  obtain ⟨tracked, tracks⟩ := inv.tracked
  obtain ⟨hands, accounts, -⟩ := inv.obeys
  obtain ⟨inHand, tracked', ⟨live, pool, holds, traced⟩, -⟩ := accounts.tracked
  have same : tracked' = tracked := by
    obtain ⟨live', pool', listed, -, -, traced', -⟩ := tracks.lists
    obtain rfl := Chain.unique listed holds.listed
    exact List.map_injective_iff.mpr (Option.some_injective _) (traced.symm.trans traced')
  subst same
  have mapped : ∀ a ∈ live, ∃ record, p.state.records.record a = some record :=
    fun a mem => holds.mapped a (by simp [mem])
  obtain ⟨records, known⟩ := records_known mapped
  refine ⟨tracked', tracks, ?_⟩
  refine (heaphAtexit_returns mode holds known accounts.unlocked accounts.isExitDone).mono fun _ e printed => ?_
  rw [printed, String.empty_append, Traced.leaks_eq known traced]

-- The ten bytes are reported, and the twenty are not tracked yet.
theorem reports_held_block : ∃ p : Process (Fin 2), p.held = {4096} ∧ p.state.blocks = [(8192, 20), (4096, 10)] ∧
    p.Tracked [(4096, 10, [1])] ∧ (heaphAtexit .leaks inMain).Ensures ⟨p.state, ""⟩ fun _ e =>
      e.printed = Report.text inMain .leaks [⟨10, [1]⟩] p.state.records.allocCountTotal := by
  obtain ⟨p, run, held, blocks, count, first⟩ := twoMallocs_runs
  obtain ⟨tracked, tracks, reported⟩ := reports_held .leaks inMain ⟨_, run⟩
  obtain ⟨live, pool, listed, -, -, traced, length⟩ := tracks.lists
  have one : tracked.length = 1 := by omega
  obtain ⟨t, rfl⟩ := List.length_eq_one_iff.mp one
  obtain ⟨a, rfl, at_a⟩ := List.map_eq_singleton_iff.mp traced
  obtain rfl : t = (4096, 10, [1]) := by
    rw [listed.1, Option.bind_some, at_a] at first
    exact Option.some.inj first
  exact ⟨p, held, blocks, tracks, reported⟩

end Process

end SysprogLabs.HeapHelp
