import SysprogLabs.Tpool.Clients

/-! # Runs

What holds in every reachable state, whatever the clients do.  Further properties hold in
runs whose steps meet a condition; the conditions are decidable, so that a concrete run
can be replayed.
-/

namespace SysprogLabs.Tpool

variable {junk : Nat → Value} {s s' : System} {label : Action × Out}

/-! ## Objects and their records -/

theorem System.record {p : Nat} {t : ThreadPoolTask} (live : s.heap.tpTasks.cell p = some t) :
    s.shape.records.instances p = some t.fields := records_instance live

theorem System.object {p : Nat} {f : Fields} (found : s.shape.records.instances p = some f) :
    ∃ t, s.heap.tpTasks.cell p = some t ∧ t.fields = f :=
  Option.map_eq_some_iff.mp found

theorem System.pool_record {P : Nat} {pool : ThreadPool} (live : s.heap.pools.cell P = some pool) :
    s.shape.records.pools P = some pool.counters := records_pool live

/-! ## The invariants of every run -/

/-- What no call can break. -/
structure Sound (s : Shape) : Prop where
  staffed : Staffed s.records s.workers
  executing : Executing s.records (duty s.workers)
  logged : Logged s.records (duty s.workers) s.log
  owned : Owned s.records
  aware : s.Aware

theorem System.init_sound (clients : Nat) : Sound (System.init clients).shape where
  staffed := ⟨nofun, nofun, nofun, nofun, nofun⟩
  executing := by
    have idle : ∀ i pc, duty (System.init clients).shape.workers i ≠ some pc := nofun
    exact ⟨nofun, fun i pc _ here => absurd here (idle i pc), fun i pc _ _ here => absurd here (idle i pc),
      fun i _ pc _ _ here => absurd here (idle i pc), nofun⟩
  logged := ⟨fun _ => Nat.zero_le 1, fun _ _ => rfl, nofun, nofun, nofun, nofun, nofun, nofun, nofun, nofun,
    nofun⟩
  owned := ⟨nofun, nofun, nofun, nofun, nofun, nofun⟩
  aware client mem := by
    rw [List.eq_of_mem_replicate mem]
    trivial

theorem Change.sound {first : Nat → Ptr → Prop} {s s' : Shape} (change : Change junk first s label s')
    (sound : Sound s) : Sound s' where
  staffed := change.staffed sound.staffed
  executing := change.executing sound.executing
  logged := change.logged sound.executing sound.logged
  owned := change.owned sound.owned
  aware := change.aware sound.owned sound.staffed sound.aware

theorem Step.sound (step : Step junk s label s') (sound : Sound s.shape) : Sound s'.shape :=
  step.change.sound sound

/-- What a call leaves behind. -/
theorem Step.calls {c : Nat} {function : Call} {out : Out} (step : Step junk s (.call c function, out) s') :
    ∃ turn, s.clients[c]? = some .idle ∧ Calls junk s.shape.records function turn s'.shape.records ∧
      out = turn.out ∧ s'.log = turn.marks ++ s.log ∧ s'.clients = s.clients.set c turn.next := by
  obtain ⟨turn, idle, returned, same, shape⟩ := Step.ofCall step
  have does := Call.start_yields s.heap rfl turn s'.heap returned
  refine ⟨turn, idle, does, same, ?_, ?_⟩
  · show s'.shape.log = _
    rw [shape]
    exact does.sameLog
  · show s'.shape.clients = _
    rw [shape]
    exact does.sameClients

/-- What a step of a client inside a call leaves behind. -/
theorem Step.proceeds {c : Nat} {wait : WaitResult} {out : Out} (step : Step junk s (.proceed c wait, out) s') :
    ∃ client turn, s.clients[c]? = some client ∧ Proceeds s.shape.records wait client turn s'.shape.records ∧
      out = turn.out ∧ s'.log = turn.marks ++ s.log ∧ s'.clients = s.clients.set c turn.next := by
  obtain ⟨client, turn, here, returned, same, shape⟩ := Step.ofProceed step
  have does := Client.proceed_yields s.heap rfl turn s'.heap returned
  rw [does.silent] at shape
  exact ⟨client, turn, here, does, same, congrArg Shape.log shape, congrArg Shape.clients shape⟩

/-! ## Runs under a condition -/

/-- A step that meets a condition. -/
def StepWhen (junk : Nat → Value) (cond : System → Action × Out → System → Prop)
    (s : System) (label : Action × Out) (s' : System) : Prop :=
  Step junk s label s' ∧ cond s label s'

theorem reachable_sound {cond : System → Action × Out → System → Prop} {clients : Nat}
    (reachable : Reachable (StepWhen junk cond) (System.init clients) s) : Sound s.shape :=
  reachable.invariant (System.init_sound clients) fun _ _ _ sound step => step.1.sound sound

/-- The invariants of every run help to prove those of a run under a condition. -/
theorem reachable_invariant {cond : System → Action × Out → System → Prop} {clients : Nat} {Inv : System → Prop}
    (reachable : Reachable (StepWhen junk cond) (System.init clients) s) (init : Inv (System.init clients))
    (kept : ∀ s label s', Sound s.shape → Inv s → StepWhen junk cond s label s' → Inv s') : Inv s := by
  have both : Sound s.shape ∧ Inv s := by
    apply Reachable.invariant reachable
    · exact ⟨System.init_sound clients, init⟩
    · intro s label s' both step
      exact ⟨step.1.sound both.1, kept s label s' both.1 both.2 step⟩
  exact both.2

/-- The steps of a run during which the client `c` makes no call. -/
def NoCall (c : Nat) (cond : System → Action × Out → System → Prop)
    (s : System) (label : Action × Out) (s' : System) : Prop :=
  cond s label s' ∧ ∀ function, label.1 ≠ .call c function

/-- The step releases the instance. -/
def System.Releases (s s' : System) (p : Nat) : Prop :=
  (s.heap.tpTasks.cell p).isSome = true ∧ (s'.heap.tpTasks.cell p).isNone = true

instance (p : Nat) : Decidable (s.Releases s' p) := inferInstanceAs (Decidable (_ ∧ _))

/-- No instance is released while it is pending or running: its worker has set
    `is_finished`, in an earlier step or in this one. -/
def Careful (s : System) (_ : Action × Out) (s' : System) : Prop :=
  ∀ p < s.heap.tpTasks.next, s.Releases s' p → .completed p ∈ s'.log

instance : Decidable (Careful s label s') :=
  inferInstanceAs (Decidable (∀ p < s.heap.tpTasks.next, _ → _))

/-- The action of a thread with some fuel. -/
def Action.execute (junk : Nat → Value) (fuel : Nat) (action : Action) (s : System) : Option (Out × System) :=
  match (action.run junk).run fuel s with
  | .ok result => some result
  | .error _ => none

/-- A sequence of actions, each with some fuel, as long as every step meets the condition. -/
def replay (junk : Nat → Value) (cond : System → Action × Out → System → Prop)
    [∀ s label s', Decidable (cond s label s')] (fuel : Nat) :
    List Action → System → Option (List Out × System)
  | [], s => some ([], s)
  | action :: actions, s =>
    match action.execute junk fuel s with
    | some (out, s') =>
      if cond s (action, out) s' then (replay junk cond fuel actions s').map fun (outs, s'') => (out :: outs, s'')
      else none
    | none => none

theorem Action.execute_step {fuel : Nat} {action : Action} {out : Out}
    (executed : action.execute junk fuel s = some (out, s')) : Step junk s (action, out) s' := by
  rw [execute] at executed
  split at executed
  · next returned =>
    cases executed
    exact ⟨fuel, returned⟩
  · cases executed

section

variable {cond : System → Action × Out → System → Prop} [∀ s label s', Decidable (cond s label s')]
  {fuel : Nat} {actions : List Action}

theorem replay_run {outs : List Out} (replayed : replay junk cond fuel actions s = some (outs, s')) :
    Run (StepWhen junk cond) s (actions.zip outs) s' := by
  induction actions generalizing s outs with
  | nil =>
    cases replayed
    exact .nil _
  | cons action actions ih =>
    rw [replay] at replayed
    split at replayed
    · next out s₁ executed =>
      split at replayed
      · next meets =>
        obtain ⟨⟨outs', s₂⟩, later, same⟩ := Option.map_eq_some_iff.mp replayed
        cases same
        exact .cons ⟨Action.execute_step executed, meets⟩ (ih later)
      · cases replayed
    · cases replayed

/-- Actions whose replay ends in a state with the property `p` lead there in a run. -/
theorem replay_ends (junk : Nat → Value) (cond : System → Action × Out → System → Prop)
    [∀ s label s', Decidable (cond s label s')] (fuel : Nat) (actions : List Action) (s : System)
    (p : List Out → System → Bool)
    (ends : (replay junk cond fuel actions s).any (fun result => p result.1 result.2) = true) :
    ∃ outs s', Run (StepWhen junk cond) s (actions.zip outs) s' ∧ p outs s' = true := by
  cases replayed : replay junk cond fuel actions s with
  | none =>
    rw [replayed] at ends
    cases ends
  | some result =>
    rw [replayed] at ends
    exact ⟨result.1, result.2, replay_run replayed, ends⟩

end

end SysprogLabs.Tpool
