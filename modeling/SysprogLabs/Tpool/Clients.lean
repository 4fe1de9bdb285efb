import SysprogLabs.Tpool.History
import SysprogLabs.Tpool.Owners

/-! # What never goes back, and what clients know

An instance keeps its task and its pool, and a flag that joins, detaches or completes it
stays set until it is released.  So what a client has read when it looked up the newest
instance is still true when it gets the mutex.
-/

namespace SysprogLabs.Tpool

variable {junk : Nat → Value} {first : Nat → Ptr → Prop} {s s' : Shape} {r r' r'' : Records}
  {log log' : List Mark}

/-! ## Later stages -/

structure Fields.Later (f f' : Fields) : Prop where
  threadTask : f'.threadTask = f.threadTask
  pool : f'.pool = f.pool
  finished : f.isFinished = true → f'.isFinished = true
  joined : f.isJoined = true → f'.isJoined = true
  detached : f.isDetached = true → f'.isDetached = true
  pending : f'.Pending → f.Pending

theorem Fields.Later.refl (f : Fields) : f.Later f := ⟨rfl, rfl, id, id, id, id⟩

theorem Fields.Later.trans {f f' f'' : Fields} (h₁ : f.Later f') (h₂ : f'.Later f'') : f.Later f'' where
  threadTask := h₂.threadTask.trans h₁.threadTask
  pool := h₂.pool.trans h₁.pool
  finished done := h₂.finished (h₁.finished done)
  joined set := h₂.joined (h₁.joined set)
  detached set := h₂.detached (h₁.detached set)
  pending free := h₁.pending (h₂.pending free)

structure Counters.Later (c c' : Counters) : Prop where
  max : c'.maxThreadsCnt = c.maxThreadsCnt
  closed : c.isActive = false → c'.isActive = false

theorem Counters.Later.refl (c : Counters) : c.Later c := ⟨rfl, id⟩

/-- What is left of the objects of `r` has only moved on. -/
structure Records.Later (r r' : Records) : Prop where
  nextInstance : r.nextInstance ≤ r'.nextInstance
  nextPool : r.nextPool ≤ r'.nextPool
  instances : ∀ p f', r'.instances p = some f' → p < r.nextInstance → ∃ f, r.instances p = some f ∧ f.Later f'
  pools : ∀ P c', r'.pools P = some c' → P < r.nextPool → ∃ c, r.pools P = some c ∧ c.Later c'

namespace Records.Later

theorem refl (r : Records) : r.Later r where
  nextInstance := Nat.le_refl _
  nextPool := Nat.le_refl _
  instances _ f' found _ := ⟨f', found, .refl f'⟩
  pools _ c' live _ := ⟨c', live, .refl c'⟩

theorem trans (h₁ : r.Later r') (h₂ : r'.Later r'') : r.Later r'' where
  nextInstance := Nat.le_trans h₁.nextInstance h₂.nextInstance
  nextPool := Nat.le_trans h₁.nextPool h₂.nextPool
  instances p f'' found born := by
    obtain ⟨f', found', later'⟩ := h₂.instances p f'' found (Nat.lt_of_lt_of_le born h₁.nextInstance)
    obtain ⟨f, old, later⟩ := h₁.instances p f' found' born
    exact ⟨f, old, later.trans later'⟩
  pools P c'' live born := by
    obtain ⟨c', live', later'⟩ := h₂.pools P c'' live (Nat.lt_of_lt_of_le born h₁.nextPool)
    obtain ⟨c, old, later⟩ := h₁.pools P c' live' born
    exact ⟨c, old, later'.max.trans later.max, fun closed => later'.closed (later.closed closed)⟩

theorem setInstance {p : Nat} {f f' : Fields} (found : r.instances p = some f) (later : f.Later f') :
    r.Later (r.setInstance p (some f')) where
  nextInstance := Nat.le_refl _
  nextPool := Nat.le_refl _
  instances q g found' _ := by
    cases setInstance_some found' with
    | inl here =>
      obtain ⟨rfl, rfl⟩ := here
      exact ⟨f, found, later⟩
    | inr old => exact ⟨g, old.2, .refl g⟩
  pools := (refl r).pools

theorem setPool {P : Nat} {c c' : Counters} (live : r.pools P = some c) (later : c.Later c') :
    r.Later (r.setPool P (some c')) where
  nextInstance := Nat.le_refl _
  nextPool := Nat.le_refl _
  instances := (refl r).instances
  pools Q d live' _ := by
    by_cases here : Q = P
    · subst here
      cases (setPool_found _).symm.trans live'
      exact ⟨c, live, later⟩
    · exact ⟨d, (if_neg here).symm.trans live', .refl d⟩

theorem dropPool {P : Nat} : r.Later (r.setPool P none) where
  nextInstance := Nat.le_refl _
  nextPool := Nat.le_refl _
  instances := (refl r).instances
  pools Q d live' _ := by
    by_cases here : Q = P
    · subst here
      cases (setPool_found _).symm.trans live'
    · exact ⟨d, (if_neg here).symm.trans live', .refl d⟩

theorem dropTask {t : Nat} : r.Later (r.setTask t none) := { refl r with }

theorem release {t : Nat} {task : ThreadTask} : r.Later (r.release t task) where
  nextInstance := Nat.le_refl _
  nextPool := Nat.le_refl _
  instances p f' found _ := by
    simp only [Records.release] at found
    split at found
    · cases found
    · exact ⟨f', found, .refl f'⟩
  pools P c' live _ := by
    simp only [Records.release] at live
    split at live
    · obtain ⟨c, old, rfl⟩ := Option.map_eq_some_iff.mp live
      exact ⟨c, old, rfl, id⟩
    · exact ⟨c', live, .refl c'⟩

theorem push {P t : Nat} {task : ThreadTask} {c : Counters} (live : r.pools P = some c) :
    r.Later (r.push junk P t task c) where
  nextInstance := Nat.le_succ _
  nextPool := Nat.le_refl _
  instances p f' found born := by
    simp only [Records.push] at found
    rw [if_neg (by omega)] at found
    exact ⟨f', found, .refl f'⟩
  pools Q c' live' _ := by
    simp only [Records.push] at live'
    split at live'
    · next here =>
      cases live'
      exact ⟨c, here ▸ live, rfl, id⟩
    · exact ⟨c', live', .refl c'⟩

theorem addPool {c : Counters} : r.Later (r.addPool c) where
  nextInstance := Nat.le_refl _
  nextPool := Nat.le_succ _
  instances := (refl r).instances
  pools P c' live born := by
    simp only [Records.addPool] at live
    rw [if_neg (by omega)] at live
    exact ⟨c', live, .refl c'⟩

theorem complete {p P : Nat} {f : Fields} {c : Counters} (found : r.instances p = some f)
    (live : r.pools P = some c) : r.Later (r.complete P p f c) := by
  have finished : r.Later (r.setInstance p (some { f with isFinished := true, isRunning := false })) :=
    setInstance found ⟨rfl, rfl, fun _ => rfl, id, id, fun pending => by cases pending.2⟩
  exact finished.trans (setPool live ⟨rfl, id⟩)

end Records.Later

theorem Records.Deletes.later {t : Nat} {ret : Int} (deletes : r.Deletes t ret r') : r.Later r' := by
  cases deletes with
  | refused => exact .refl r
  | released => exact .release

theorem Calls.later {function : Call} {turn : Turn Client} (does : Calls junk r function turn r') :
    r.Later r' := by
  cases does with
  | pushed live room found => exact .push live
  | closed live empty => exact .setPool live ⟨rfl, fun _ => rfl⟩
  | poolCreated => exact .addPool
  | taskCreated => exact { Records.Later.refl r with }
  | poolRefused | counted | hasTasks | tooMany | lookedUp | notPushed | unpushed => exact .refl r

theorem Proceeds.later {wait : WaitResult} {client : Client} {turn : Turn Client}
    (does : Proceeds r wait client turn r') : r.Later r' := by
  cases does with
  | deleted deletes => exact deletes.later
  | @released t p pool f ret r' found finished deletes =>
    have marked : r.Later (r.setInstance p (some { f with isDetached := true })) :=
      .setInstance found ⟨rfl, rfl, id, id, fun _ => rfl, id⟩
    exact marked.trans deletes.later
  | detached found unfinished => exact .setInstance found ⟨rfl, rfl, id, id, fun _ => rfl, id⟩
  | blocked joins found unfinished => exact .setInstance found ⟨rfl, rfl, id, fun _ => rfl, id, id⟩
  | joined joins found finished => exact .setInstance found ⟨rfl, rfl, id, fun _ => rfl, id, id⟩
  | freed live => exact .dropTask
  | destroyed live => exact .dropPool
  | askedFinished | askedRunning | expired | timedOut | woken | waitsAgain | leaves => exact .refl r

theorem Works.later {first : Ptr → Prop} {value : Value} {P : Nat} {pc : WorkerPc} {turn : Turn WorkerPc}
    (does : Works r first value P pc turn r') : r.Later r' := by
  cases does with
  | slept => exact .refl r
  | exited looking live inactive => exact .setPool live ⟨rfl, id⟩
  | @picked pc c p f looking live active found taken pending =>
    have counted : r.Later (r.setPool P (some { c with activeThreadsCnt := c.activeThreadsCnt + 1 })) :=
      .setPool live ⟨rfl, id⟩
    exact counted.trans (.setInstance taken ⟨rfl, rfl, id, id, id, fun pending => by cases pending.1⟩)
  | called => exact .refl r
  | stored found => exact .setInstance found ⟨rfl, rfl, id, id, id, id⟩
  | completed found live kept => exact .complete found live
  | released found live detached deletes => exact (Records.Later.complete found live).trans deletes.later

theorem Change.later {label : Action × Out} (change : Change junk first s label s') :
    s.records.Later s'.records := by
  cases change with
  | call idle does =>
    rw [Shape.receive_records]
    exact does.later
  | proceed here does => exact does.later
  | work here does wakes =>
    rw [Shape.receive_records]
    exact does.later

/-- The log only grows. -/
theorem Shape.receive_log (woken : List Nat) (signals : List Signal) (s : Shape) :
    s.log <:+ (signals.foldl (Shape.receive woken) s).log := by
  induction signals generalizing s with
  | nil => exact List.suffix_rfl
  | cons sig signals ih =>
    rw [List.foldl_cons]
    refine .trans ?_ (ih _)
    cases sig with
    | create | broadcastWork | signalFinish => exact List.suffix_rfl
    | signalEnd p =>
      simp only [Shape.receive]
      split
      · exact List.suffix_rfl
      · exact List.suffix_cons _ _

theorem Change.log_grows {label : Action × Out} (change : Change junk first s label s') :
    s.log <:+ s'.log := by
  cases change with
  | call idle does =>
    apply List.IsSuffix.trans _ (Shape.receive_log _ _ _)
    exact List.suffix_append _ _
  | proceed here does => exact List.suffix_append _ _
  | work here does wakes =>
    apply List.IsSuffix.trans _ (Shape.receive_log _ _ _)
    exact List.suffix_append _ _

/-! ## Clients inside a call -/

/-- A pair of task and instance that a client has read, with the pool of the instance. -/
def Records.Knows (r : Records) (t p : Nat) (pool : Ptr) : Prop :=
  p < r.nextInstance ∧ ∀ f, r.instances p = some f → f.threadTask = t ∧ f.pool = pool

/-- What a client may rely on at its place. -/
def Client.Aware (r : Records) (log : List Mark) : Client → Prop
  | .locking _ t p pool => r.Knows t p pool
  | .joining t p pool _ notified => r.Knows t p pool ∧ (notified = true → .completed p ∈ log)
  | .deleting P _ => P < r.nextPool ∧ ∀ c, r.pools P = some c → c.isActive = false
  | .destroying P => P < r.nextPool ∧ ∀ c, r.pools P = some c → c.isActive = false
  | _ => True

theorem Records.Knows.later {t p : Nat} {pool : Ptr} (knows : r.Knows t p pool) (later : r.Later r') :
    r'.Knows t p pool := by
  constructor
  · exact Nat.lt_of_lt_of_le knows.1 later.nextInstance
  · intro f' found
    obtain ⟨f, old, same⟩ := later.instances p f' found knows.1
    rw [same.threadTask, same.pool]
    exact knows.2 f old

theorem Records.Later.closed (later : r.Later r') {P : Nat}
    (closed : P < r.nextPool ∧ ∀ c, r.pools P = some c → c.isActive = false) :
    P < r'.nextPool ∧ ∀ c, r'.pools P = some c → c.isActive = false := by
  constructor
  · exact Nat.lt_of_lt_of_le closed.1 later.nextPool
  · intro c' live
    obtain ⟨c, old, same⟩ := later.pools P c' live closed.1
    exact same.closed (closed.2 c old)

theorem Client.Aware.later {client : Client} (aware : client.Aware r log) (later : r.Later r')
    (grows : log ⊆ log') : client.Aware r' log' := by
  cases client with
  | idle => trivial
  | freeing => trivial
  | locking => exact Records.Knows.later aware later
  | joining => exact ⟨aware.1.later later, fun notified => grows (aware.2 notified)⟩
  | deleting => exact later.closed aware
  | destroying => exact later.closed aware

/-- A notified client has been told that its instance is finished, or that a thread has left. -/
theorem Client.Aware.notify {client : Client} (aware : client.Aware r log)
    (told : ∀ p, client.awaitsEnd p = true → .completed p ∈ log) : client.notify.Aware r log := by
  cases client with
  | joining t p pool timed notified =>
    constructor
    · exact aware.1
    · intro _
      cases notified with
      | true => exact aware.2 rfl
      | false => exact told p (by simp [awaitsEnd])
  | idle | locking | freeing | deleting | destroying => exact aware

theorem mem_wakeClients {waits : Client → Bool} {woken : List Nat} {clients : List Client} {client : Client}
    (mem : client ∈ wakeClients waits woken clients) :
    ∃ old ∈ clients, client = old ∨ (waits old = true ∧ client = old.notify) := by
  obtain ⟨i, inside, rfl⟩ := List.mem_mapIdx.mp mem
  refine ⟨_, List.getElem_mem inside, ?_⟩
  split
  · next both =>
    rw [Bool.and_eq_true] at both
    exact .inr ⟨both.1, rfl⟩
  · exact .inl rfl

/-- Every client knows what its place needs. -/
def Shape.Aware (s : Shape) : Prop := ∀ client ∈ s.clients, client.Aware s.records s.log

theorem Shape.Aware.receive {woken : List Nat} {sig : Signal} (aware : s.Aware)
    (told : ∀ p, sig = .signalEnd p → .completed p ∈ s.log) : (s.receive woken sig).Aware := by
  cases sig with
  | create => exact aware
  | broadcastWork => exact aware
  | signalFinish P =>
    intro client mem
    obtain ⟨old, before, same⟩ := mem_wakeClients mem
    cases same with
    | inl same => exact same ▸ aware old before
    | inr woke =>
      rw [woke.2]
      apply (aware old before).notify
      intro p waits
      -- A client blocked in `thread_pool_delete` is not blocked in a join.
      cases old <;> simp_all [Client.awaitsFinish, Client.awaitsEnd]
  | signalEnd p =>
    have grows : s.log ⊆ (s.receive woken (.signalEnd p)).log := (Shape.receive_log woken [.signalEnd p] s).subset
    intro client mem
    obtain ⟨old, before, same⟩ := mem_wakeClients mem
    have kept := (aware old before).later (.refl _) grows
    cases same with
    | inl same => exact same ▸ kept
    | inr woke =>
      rw [woke.2]
      apply kept.notify
      intro q waits
      have here : q = p := by
        cases old <;> simp_all [Client.awaitsEnd]
        split at waits <;> simp_all
      exact grows (here ▸ told p rfl)

theorem Shape.Aware.receiveAll {woken : List Nat} {signals : List Signal} (aware : s.Aware)
    (told : ∀ p, .signalEnd p ∈ signals → .completed p ∈ s.log) :
    (signals.foldl (Shape.receive woken) s).Aware := by
  induction signals generalizing s with
  | nil => exact aware
  | cons sig signals ih =>
    rw [List.foldl_cons]
    apply ih
    · exact aware.receive fun p here => told p (here ▸ List.mem_cons_self)
    · intro p mem
      exact (Shape.receive_log woken [sig] s).subset (told p (List.mem_cons_of_mem _ mem))

theorem Calls.aware {function : Call} {turn : Turn Client} (does : Calls junk r function turn r')
    (owned : Owned r) (staffed : ∀ P c, r.pools P = some c → P < r.nextPool) :
    turn.next.Aware r' log ∧ ∀ p, .signalEnd p ∉ turn.signals := by
  cases does with
  | @closed P c live empty =>
    have closed : P < (r.setPool P (some { c with isActive := false })).nextPool ∧
        ∀ c', (r.setPool P (some { c with isActive := false })).pools P = some c' → c'.isActive = false := by
      constructor
      · exact staffed P c live
      · intro c' live'
        cases (Records.setPool_found _).symm.trans live'
        rfl
    constructor
    · by_cases threads : c.threadsCnt ≠ 0
      · simp only [if_pos threads]
        exact closed
      · simp only [if_neg threads]
        exact closed
    · simp
  | @lookedUp call t p task f live newest found =>
    have knows : r.Knows t p f.pool := by
      constructor
      · exact (owned.born p f found).1
      · intro g found'
        cases found.symm.trans found'
        obtain ⟨g', here, owner⟩ := owned.listed t task p live (List.mem_of_head? newest)
        cases found.symm.trans here
        exact ⟨owner, rfl⟩
    exact ⟨knows, by simp⟩
  | @pushed P t c task =>
    constructor
    · trivial
    · by_cases busy : c.AllBusy <;> simp [busy]
  | poolRefused | poolCreated | counted | hasTasks | tooMany | taskCreated | notPushed | unpushed =>
    exact ⟨trivial, by simp⟩

theorem Proceeds.aware {wait : WaitResult} {client : Client} {turn : Turn Client}
    (does : Proceeds r wait client turn r') (aware : client.Aware r log) :
    turn.next.Aware r' log := by
  cases does with
  | blocked joins found unfinished =>
    constructor
    · exact Records.Knows.later aware (.setInstance found ⟨rfl, rfl, id, fun _ => rfl, id, id⟩)
    · intro notified
      cases notified
  | waitsAgain live threads => exact aware
  | leaves live threads => exact aware
  | askedFinished | askedRunning | expired | joined | timedOut | woken | deleted | detached | released | freed
  | destroyed => trivial

theorem Works.signals {first : Ptr → Prop} {value : Value} {P p : Nat} {pc : WorkerPc} {turn : Turn WorkerPc}
    (does : Works r first value P pc turn r') (ends : .signalEnd p ∈ turn.signals) :
    .completed p ∈ turn.marks := by
  cases does with
  | completed | released => simpa using ends
  | slept | exited | picked | called | stored => simp at ends

theorem Change.aware {label : Action × Out} (change : Change junk first s label s')
    (owned : Owned s.records) (staffed : Staffed s.records s.workers) (aware : s.Aware) : s'.Aware := by
  have later := change.later
  cases change with
  | @call c function turn r' idle does =>
    rw [Shape.receive_records] at later
    obtain ⟨knows, silent⟩ := @Calls.aware junk _ _ (turn.marks ++ s.log) _ _ does owned staffed.allocated
    apply Shape.Aware.receiveAll
    · intro client mem
      cases List.mem_or_eq_of_mem_set mem with
      | inl old => exact (aware client old).later later (List.subset_append_right _ _)
      | inr new => exact new ▸ knows
    · intro p mem
      exact absurd mem (silent p)
  | @proceed c wait client turn r' here does =>
    intro client' mem
    have grows : s.log ⊆ turn.marks ++ s.log := List.subset_append_right _ _
    cases List.mem_or_eq_of_mem_set mem with
    | inl old => exact (aware client' old).later later grows
    | inr new =>
      have before := aware client (List.mem_of_getElem? here)
      rw [new]
      exact (does.aware before).later (.refl _) grows
  | @work w value woken worker turn r' here does wakes =>
    rw [Shape.receive_records] at later
    apply Shape.Aware.receiveAll
    · intro client mem
      exact (aware client mem).later later (List.subset_append_right _ _)
    · intro p mem
      exact List.mem_append_left _ (does.signals mem)

/-! ## One client -/

/-- The signals of a call wake up workers only. -/
theorem Calls.sameClients {function : Call} {turn : Turn Client} (does : Calls junk r function turn r') :
    (turn.signals.foldl (Shape.receive []) s).clients = s.clients := by
  cases does with
  | @pushed P t c task =>
    by_cases busy : c.AllBusy
    · simp only [if_pos busy]
      rfl
    · simp only [if_neg busy]
      rfl
  | poolRefused | poolCreated | counted | hasTasks | closed | tooMany | taskCreated | lookedUp | notPushed
  | unpushed => rfl

theorem Client.notify_notify (client : Client) : client.notify.notify = client.notify := by
  cases client <;> rfl

theorem Shape.receive_client {woken : List Nat} {signals : List Signal} {c : Nat} {client' : Client}
    (here : (signals.foldl (Shape.receive woken) s).clients[c]? = some client') :
    ∃ client, s.clients[c]? = some client ∧ (client' = client ∨ client' = client.notify) := by
  induction signals generalizing s with
  | nil => exact ⟨client', here, .inl rfl⟩
  | cons sig signals ih =>
    obtain ⟨mid, at_mid, told⟩ := ih here
    have woke : ∀ waits, (wakeClients waits woken s.clients)[c]? = some mid →
        ∃ client, s.clients[c]? = some client ∧ (mid = client ∨ mid = client.notify) := by
      intro waits at_c
      rw [wakeClients, List.getElem?_mapIdx, Option.map_eq_some_iff] at at_c
      obtain ⟨client, before, same⟩ := at_c
      refine ⟨client, before, ?_⟩
      split at same
      · exact .inr same.symm
      · exact .inl same.symm
    have first : ∃ client, s.clients[c]? = some client ∧ (mid = client ∨ mid = client.notify) := by
      cases sig with
      | create | broadcastWork => exact ⟨mid, at_mid, .inl rfl⟩
      | signalFinish P => exact woke _ at_mid
      | signalEnd p => exact woke _ at_mid
    obtain ⟨client, before, told'⟩ := first
    refine ⟨client, before, ?_⟩
    cases told' with
    | inl same => exact same ▸ told
    | inr same =>
      subst same
      rw [Client.notify_notify, or_self] at told
      exact .inr told

theorem Shape.receive_length (woken : List Nat) (signals : List Signal) (s : Shape) :
    (signals.foldl (Shape.receive woken) s).clients.length = s.clients.length := by
  induction signals generalizing s with
  | nil => rfl
  | cons sig signals ih =>
    rw [List.foldl_cons, ih]
    cases sig with
    | create | broadcastWork => rfl
    | signalFinish | signalEnd => exact List.length_mapIdx

/-- Clients do not come or go. -/
theorem Change.clients_length {label : Action × Out} (change : Change junk first s label s') :
    s'.clients.length = s.clients.length := by
  cases change with
  | call idle does => rw [Shape.receive_length, List.length_set]
  | proceed here does => exact List.length_set
  | work here does wakes => exact Shape.receive_length _ _ _

theorem Change.still_there {label : Action × Out} (change : Change junk first s label s') {c : Nat}
    {client : Client} (here : s.clients[c]? = some client) : ∃ client', s'.clients[c]? = some client' := by
  have inside := (List.getElem?_eq_some_iff.mp here).1
  rw [← change.clients_length] at inside
  exact ⟨_, List.getElem?_eq_getElem inside⟩

/-- A client stays where it is, is notified, or goes on itself. -/
theorem Change.client {label : Action × Out} (change : Change junk first s label s') {c : Nat} {client' : Client}
    (noCall : ∀ function, label.1 ≠ .call c function) (here : s'.clients[c]? = some client') :
    ∃ client, s.clients[c]? = some client ∧ ((client' = client ∨ client' = client.notify) ∨
      ∃ wait turn, label = (.proceed c wait, turn.out) ∧ Proceeds s.records wait client turn s'.records ∧
        client' = turn.next) := by
  cases change with
  | @call d function turn r' idle does =>
    obtain ⟨client, before, told⟩ := Shape.receive_client here
    have apart : d ≠ c := by
      intro same
      exact noCall function (same ▸ rfl)
    rw [List.getElem?_set_ne apart] at before
    exact ⟨client, before, .inl told⟩
  | @proceed d wait client turn r' at_d does =>
    by_cases own : d = c
    · subst own
      obtain ⟨inside, -⟩ := List.getElem?_eq_some_iff.mp at_d
      have moved : client' = turn.next := by
        rw [List.getElem?_set_self inside] at here
        exact (Option.some.inj here).symm
      exact ⟨client, at_d, .inr ⟨wait, turn, rfl, does, moved⟩⟩
    · rw [List.getElem?_set_ne own] at here
      exact ⟨client', here, .inl (.inl rfl)⟩
  | work at_w does wakes =>
    obtain ⟨client, before, told⟩ := Shape.receive_client here
    exact ⟨client, before, .inl told⟩

/-- A client that is about to lock the mutex has been there before, or it has just looked up
    the newest instance. -/
theorem Change.locks {label : Action × Out} (change : Change junk first s label s') {c t p : Nat} {call : TaskCall}
    {pool : Ptr} (here : s'.clients[c]? = some (.locking call t p pool)) :
    (s.clients[c]? = some (.locking call t p pool) ∧ ∀ wait, label.1 ≠ .proceed c wait) ∨
    (label.1 = .call c (.onTask call t) ∧ ∃ f, s.records.instances p = some f ∧ f.pool = pool) := by
  have same : ∀ {client : Client}, (Client.locking call t p pool = client ∨ Client.locking call t p pool = client.notify) →
      client = .locking call t p pool := by
    intro client told
    cases told with
    | inl same => exact same.symm
    | inr same =>
      cases client <;> cases same
      rfl
  cases change with
  | @call d function turn r' idle does =>
    obtain ⟨client, before, told⟩ := Shape.receive_client here
    rw [same told] at before
    by_cases own : d = c
    · subst own
      rw [List.getElem?_set_self (List.getElem?_eq_some_iff.mp idle).1, Option.some.injEq] at before
      cases does with
      | lookedUp live newest found =>
        cases before
        exact .inr ⟨rfl, _, found, rfl⟩
      | @closed P c live empty =>
        dsimp only at before
        split at before
        · cases before
        · cases before
      | poolRefused | poolCreated | counted | hasTasks | tooMany | pushed | taskCreated | notPushed | unpushed =>
        cases before
    · rw [List.getElem?_set_ne own] at before
      exact .inl ⟨before, nofun⟩
  | @proceed d wait client turn r' at_d does =>
    by_cases own : d = c
    · subst own
      rw [List.getElem?_set_self (List.getElem?_eq_some_iff.mp at_d).1, Option.some.injEq] at here
      cases does <;> cases here
    · rw [List.getElem?_set_ne own] at here
      refine .inl ⟨here, ?_⟩
      rintro wait' at_label
      cases at_label
      exact own rfl
  | work at_w does wakes =>
    obtain ⟨client, before, told⟩ := Shape.receive_client here
    rw [same told] at before
    exact .inl ⟨before, nofun⟩

end SysprogLabs.Tpool
