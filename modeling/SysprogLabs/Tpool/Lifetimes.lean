import SysprogLabs.Tpool.Execution

/-! # How instances come and go

An instance comes with a successful push, and it goes when `delete_task` releases its
task.  `Shape.deletion` says which task a step passes to `delete_task`, and what that
function finds in the heap.
-/

namespace SysprogLabs.Tpool

variable {junk : Nat → Value} {first : Nat → Ptr → Prop} {s s' : Shape} {r r' : Records} {label : Action × Out}
  {t p P : Nat}

/-! ## All instances of a task -/

/-- The task is there, and all its instances have the property. -/
def Records.allOf (r : Records) (t : Nat) (q : Fields → Bool) : Bool :=
  (r.tasks t).any fun task => task.list.all fun p => (r.instances p).any q

theorem Records.allOf_iff {q : Fields → Bool} : r.allOf t q = true ↔
    ∃ task, r.tasks t = some task ∧ ∀ p ∈ task.list, ∃ f, r.instances p = some f ∧ q f = true := by
  simp only [allOf, Option.any_eq_true, List.all_eq_true]

/-- What `delete_task` returns depends on whether all instances are deletable. -/
theorem Records.Deletes.result {ret : Int} (deletes : r.Deletes t ret r') :
    (r.allOf t Fields.deletable = true ∧ ret = 0 ∧ ∃ task, r.tasks t = some task ∧ r' = r.release t task) ∨
    (r.allOf t Fields.deletable = false ∧ ret = tpoolErrTaskInPool ∧ r' = r) := by
  cases deletes with
  | @refused task p f live mem found kept =>
    refine .inr ⟨?_, rfl, rfl⟩
    rw [Bool.eq_false_iff, ne_eq, Records.allOf_iff]
    rintro ⟨task', live', all⟩
    cases live.symm.trans live'
    obtain ⟨f', found', deletable⟩ := all p mem
    cases found.symm.trans found'
    rw [kept] at deletable
    cases deletable
  | released live all pool => exact .inl ⟨Records.allOf_iff.mpr ⟨_, live, all⟩, rfl, _, live, rfl⟩

/-! ## New instances -/

/-- A new instance comes from a successful push. -/
theorem Change.fresh (change : Change junk first s label s') (sound : Sound s) {f : Fields}
    (found : s'.records.instances p = some f) (new : s.records.nextInstance ≤ p) :
    ∃ c P t task counters, label = (.call c (.poolPushTask P t), .returned 0) ∧ p = s.records.nextInstance ∧
      s.records.tasks t = some task ∧ s.records.pools P = some counters ∧
      s'.records = s.records.push junk P t task counters ∧
      f = { Fields.made t (junk p) with isPushed := true, pool := some P } := by
  have born : p < s'.records.nextInstance := ((change.owned sound.owned).born p f found).1
  cases change with
  | @call c function turn r' idle does =>
    simp only [Shape.receive_records] at born found ⊢
    cases does with
    | @pushed P t counters task live room known =>
      have here : p = s.records.nextInstance := by
        have : p < s.records.nextInstance + 1 := born
        omega
      subst here
      cases (if_pos rfl).symm.trans found
      exact ⟨c, P, t, task, counters, rfl, rfl, known, live, rfl, rfl⟩
    | poolRefused | poolCreated | counted | hasTasks | closed | tooMany | taskCreated | lookedUp | notPushed
    | unpushed => exact absurd born (Nat.not_lt.mpr new)
  | proceed here does =>
    rw [does.sameWork.nextInstance] at born
    omega
  | work here does wakes =>
    rw [Shape.receive_records, does.nextInstance] at born
    omega

/-- A task that is there was there, or `thread_task_new` has just made it. -/
theorem Change.oldTask (change : Change junk first s label s') {task : ThreadTask}
    (live : s'.records.tasks t = some task) (old : t < s.records.nextTask) :
    ∃ task₀, s.records.tasks t = some task₀ := by
  cases change with
  | call idle does =>
    rw [Shape.receive_records] at live
    cases does with
    | @pushed P u counters task' _ _ known =>
      by_cases here : t = u
      · exact here ▸ ⟨task', known⟩
      · exact ⟨task, (if_neg here).symm.trans live⟩
    | taskCreated =>
      have apart : t ≠ s.records.nextTask := Nat.ne_of_lt old
      exact ⟨task, (if_neg apart).symm.trans live⟩
    | poolRefused | poolCreated | counted | hasTasks | closed | tooMany | lookedUp | notPushed | unpushed =>
      exact ⟨task, live⟩
  | proceed here does => exact ⟨task, does.sameWork.tasks t task live⟩
  | @work w value woken worker turn r' here does wakes =>
    obtain ⟨P, pc⟩ := worker
    rw [Shape.receive_records] at live
    cases does with
    | released found known detached deletes => exact ⟨task, deletes.sameWork.tasks t task live⟩
    | slept | exited | picked | called | stored | completed => exact ⟨task, live⟩

/-! ## Calls of `delete_task` -/

/-- The task that a step passes to `delete_task`, and the records it is called with. -/
def Shape.deletion (s : Shape) : Action → Option (Nat × Records)
  | .call _ _ => none
  | .proceed c _ => match s.clients[c]? with
    | some (.locking .delete t _ _) => some (t, s.records)
    | some (.locking .detach t p _) => match s.records.instances p with
      | some f => if f.isFinished then some (t, s.records.setInstance p (some { f with isDetached := true })) else none
      | none => none
    | _ => none
  | .work w _ _ => match s.workers[w]? with
    | some ⟨P, .returned p⟩ => match s.records.instances p, s.records.pools P with
      | some f, some c => if f.isDetached then some (f.threadTask, s.records.complete P p f c) else none
      | _, _ => none
    | _ => none

/-- A step without a call of `delete_task` releases no instance. -/
theorem Change.keeps (change : Change junk first s label s') (none : s.deletion label.1 = none) {f : Fields}
    (found : s.records.instances p = some f) : ∃ f', s'.records.instances p = some f' := by
  have set : ∀ {q : Nat} {g : Fields}, ∃ f', (s.records.setInstance q (some g)).instances p = some f' := by
    intro q g
    by_cases here : p = q
    · exact here ▸ ⟨g, Records.setInstance_found _⟩
    · exact ⟨f, (if_neg here).trans found⟩
  cases change with
  | call idle does =>
    rw [Shape.receive_records]
    cases does with
    | pushed =>
      by_cases here : p = s.records.nextInstance
      · exact ⟨_, if_pos here⟩
      · exact ⟨f, (if_neg here).trans found⟩
    | poolRefused | poolCreated | counted | hasTasks | closed | tooMany | taskCreated | lookedUp | notPushed
    | unpushed => exact ⟨f, found⟩
  | proceed here does =>
    simp only [Shape.deletion, here] at none
    cases does with
    | deleted => cases none
    | released found' finished => simp [found', finished] at none
    | detached | blocked | joined => exact set
    | askedFinished | askedRunning | expired | timedOut | woken | freed | waitsAgain | leaves | destroyed =>
      exact ⟨f, found⟩
  | @work w value woken worker turn r' here does wakes =>
    obtain ⟨P, pc⟩ := worker
    simp only [Shape.deletion, here] at none
    rw [Shape.receive_records]
    cases does with
    | released found' live detached => simp [found', live, detached] at none
    | picked | stored | completed => exact set
    | slept | exited | called => exact ⟨f, found⟩

theorem Change.deletes (change : Change junk first s label s') (at_t : s.deletion label.1 = some (t, r)) :
    ∃ ret, r.Deletes t ret s'.records := by
  cases change with
  | call => cases at_t
  | proceed here does =>
    simp only [Shape.deletion, here] at at_t
    cases does with
    | deleted deletes =>
      cases at_t
      exact ⟨_, deletes⟩
    | released found finished deletes =>
      dsimp only at at_t
      rw [found] at at_t
      dsimp only at at_t
      rw [if_pos finished] at at_t
      cases at_t
      exact ⟨_, deletes⟩
    | detached found unfinished => simp [found, unfinished] at at_t
    | @blocked call _ _ _ _ _ joins | @joined call _ _ _ _ _ joins =>
      cases call with
      | join | timedJoin => cases at_t
      | isFinished | isRunning | delete | detach => cases joins
    | askedFinished | askedRunning | expired | timedOut | woken | freed | waitsAgain | leaves | destroyed =>
      cases at_t
  | @work w value woken worker turn r' here does wakes =>
    obtain ⟨P, pc⟩ := worker
    simp only [Shape.deletion, here] at at_t
    rw [Shape.receive_records]
    cases does with
    | released found live detached deletes =>
      simp only [found, live, detached, if_true] at at_t
      cases at_t
      exact ⟨_, deletes⟩
    | completed found live kept => simp [found, live, kept] at at_t
    | slept looking | exited looking | picked looking =>
      cases pc with
      | ready | asleep => cases at_t
      | picked | running | returned | exited => cases looking
    | called | stored => cases at_t

/-- The three callers of `delete_task`. -/
theorem Shape.deletion_cases {action : Action} (at_t : s.deletion action = some (t, r)) :
    (∃ c wait p pool, action = .proceed c wait ∧ s.clients[c]? = some (.locking .delete t p pool) ∧ r = s.records) ∨
    (∃ c wait p pool f, action = .proceed c wait ∧ s.clients[c]? = some (.locking .detach t p pool) ∧
      s.records.instances p = some f ∧ f.isFinished = true ∧
      r = s.records.setInstance p (some { f with isDetached := true })) ∨
    (∃ w value woken P p f c, action = .work w value woken ∧ s.workers[w]? = some ⟨P, .returned p⟩ ∧
      s.records.instances p = some f ∧ s.records.pools P = some c ∧ f.isDetached = true ∧ t = f.threadTask ∧
      r = s.records.complete P p f c) := by
  cases action with
  | call => cases at_t
  | proceed c wait =>
    simp only [Shape.deletion] at at_t
    split at at_t
    · next here =>
      cases at_t
      exact .inl ⟨c, wait, _, _, rfl, here, rfl⟩
    · next here =>
      split at at_t
      · next f found =>
        split at at_t
        · next finished =>
          cases at_t
          exact .inr (.inl ⟨c, wait, _, _, f, rfl, here, found, finished, rfl⟩)
        · cases at_t
      · cases at_t
    · cases at_t
  | work w value woken =>
    simp only [Shape.deletion] at at_t
    split at at_t
    · next here =>
      split at at_t
      · next f c found live =>
        split at at_t
        · next detached =>
          cases at_t
          exact .inr (.inr ⟨w, value, woken, _, _, f, c, rfl, here, found, live, detached, rfl, rfl⟩)
        · cases at_t
      · cases at_t
    · cases at_t

/-- In front of `delete_task` a step has only set a flag of one instance. -/
theorem Shape.deletion_later {action : Action} (at_t : s.deletion action = some (t, r)) :
    s.records.Later r ∧ r.tasks = s.records.tasks ∧
      ∀ p f, s.records.instances p = some f → ∃ f', r.instances p = some f' ∧ f.Later f' := by
  have set : ∀ {q : Nat} {g g' : Fields}, s.records.instances q = some g → g.Later g' → ∀ p f,
      s.records.instances p = some f → ∃ f', (s.records.setInstance q (some g')).instances p = some f' ∧ f.Later f' := by
    intro q g g' at_q later p f found
    by_cases here : p = q
    · subst here
      cases at_q.symm.trans found
      exact ⟨g', Records.setInstance_found _, later⟩
    · exact ⟨f, (if_neg here).trans found, .refl f⟩
  rcases Shape.deletion_cases at_t with ⟨-, -, -, -, -, -, rfl⟩ | ⟨-, -, p, -, f, -, -, found, -, rfl⟩ |
    ⟨-, -, -, P, p, f, c, -, -, found, live, -, -, rfl⟩
  · exact ⟨.refl _, rfl, fun p f found => ⟨f, found, .refl f⟩⟩
  · have marked : f.Later { f with isDetached := true } := ⟨rfl, rfl, id, id, fun _ => rfl, id⟩
    exact ⟨.setInstance found marked, rfl, set found marked⟩
  · have finished : f.Later { f with isFinished := true, isRunning := false } :=
      ⟨rfl, rfl, fun _ => rfl, id, id, fun pending => by cases pending.2⟩
    exact ⟨.complete found live, rfl, set found finished⟩

/-- An instance is released with its whole task, and then all its instances were deletable. -/
theorem Change.released (change : Change junk first s label s') {f : Fields}
    (found : s.records.instances p = some f) (gone : s'.records.instances p = none) (owned : Owned s.records) :
    ∃ r task, s.deletion label.1 = some (f.threadTask, r) ∧ s.records.tasks f.threadTask = some task ∧
      p ∈ task.list ∧ r.allOf f.threadTask Fields.deletable = true ∧ s'.records = r.release f.threadTask task := by
  cases at_t : s.deletion label.1 with
  | none =>
    obtain ⟨f', kept⟩ := change.keeps at_t found
    rw [gone] at kept
    cases kept
  | some deletion =>
    obtain ⟨t, r⟩ := deletion
    obtain ⟨ret, deletes⟩ := change.deletes at_t
    obtain ⟨later, tasks, instances⟩ := Shape.deletion_later at_t
    obtain ⟨f', found', -⟩ := instances p f found
    rcases deletes.result with ⟨all, -, task, live, released⟩ | ⟨-, -, same⟩
    · rw [released] at gone
      simp only [Records.release] at gone
      split at gone
      · next mem =>
        obtain ⟨g, found'', owner⟩ := owned.listed t task p (tasks ▸ live) mem
        cases found.symm.trans found''
        subst owner
        exact ⟨r, task, rfl, tasks ▸ live, mem, all, released⟩
      · rw [found'] at gone
        cases gone
    · rw [same, found'] at gone
      cases gone

/-- A task is released by `delete_task`, or by `thread_task_delete` that has seen it without instances. -/
theorem Change.lostTask (change : Change junk first s label s') {task : ThreadTask}
    (live : s.records.tasks t = some task) (gone : s'.records.tasks t = none) :
    (∃ r, s.deletion label.1 = some (t, r) ∧ r.allOf t Fields.deletable = true ∧
      s'.records = r.release t task) ∨
    ∃ c wait, label.1 = .proceed c wait ∧ s.clients[c]? = some (.freeing t) ∧ s'.records = s.records.setTask t none := by
  cases at_t : s.deletion label.1 with
  | some deletion =>
    obtain ⟨u, r⟩ := deletion
    obtain ⟨ret, deletes⟩ := change.deletes at_t
    have tasks := (Shape.deletion_later at_t).2.1
    rcases deletes.result with ⟨all, -, task', live', released⟩ | ⟨-, -, same⟩
    · have here : u = t := by
        by_contra apart
        rw [released] at gone
        simp only [Records.release, if_neg (Ne.symm apart), tasks, live] at gone
        cases gone
      subst here
      rw [tasks] at live'
      cases live.symm.trans live'
      exact .inl ⟨r, rfl, all, released⟩
    · rw [same, tasks, live] at gone
      cases gone
  | none =>
    cases change with
    | call idle does =>
      rw [Shape.receive_records] at gone
      cases does with
      | pushed =>
        simp only [Records.push] at gone
        split at gone
        · cases gone
        · rw [live] at gone
          cases gone
      | taskCreated =>
        simp only [Records.addTask] at gone
        split at gone
        · cases gone
        · rw [live] at gone
          cases gone
      | closed | poolCreated | poolRefused | counted | hasTasks | tooMany | lookedUp | notPushed | unpushed =>
        cases live.symm.trans gone
    | @proceed c wait client turn r' here does =>
      simp only [Shape.deletion, here] at at_t
      cases does with
      | deleted => cases at_t
      | released found finished => simp [found, finished] at at_t
      | @freed u task' known =>
        by_cases same : t = u
        · subst same
          exact .inr ⟨c, wait, rfl, here, rfl⟩
        · cases live.symm.trans ((if_neg same).symm.trans gone)
      | askedFinished | askedRunning | expired | blocked | joined | timedOut | woken | detached | waitsAgain | leaves
      | destroyed => cases live.symm.trans gone
    | @work w value woken worker turn r' here does wakes =>
      obtain ⟨P, pc⟩ := worker
      simp only [Shape.deletion, here] at at_t
      rw [Shape.receive_records] at gone
      cases does with
      | released found known detached => simp [found, known, detached] at at_t
      | slept | exited | picked | called | stored | completed => cases live.symm.trans gone

/-! ## How flags are set and pools are released -/

/-- Every flag of an instance is set by one piece of code. -/
structure Sets (s : Shape) (action : Action) (p : Nat) (f f' : Fields) : Prop where
  joined : f'.isJoined = f.isJoined ∨ ∃ c wait call t pool timed, action = .proceed c wait ∧
    s.clients[c]? = some (.locking call t p pool) ∧ call.Joins timed
  detached : f'.isDetached = f.isDetached ∨ ∃ c wait t pool, action = .proceed c wait ∧
    s.clients[c]? = some (.locking .detach t p pool)
  finished : f'.isFinished = f.isFinished ∨ ∃ w value woken P, action = .work w value woken ∧
    s.workers[w]? = some ⟨P, .returned p⟩

theorem Sets.refl (s : Shape) (action : Action) (p : Nat) (f : Fields) : Sets s action p f f :=
  ⟨.inl rfl, .inl rfl, .inl rfl⟩

theorem Records.Deletes.instance {ret : Int} {f : Fields} (deletes : r.Deletes t ret r')
    (found : r'.instances p = some f) : r.instances p = some f := by
  cases deletes with
  | refused => exact found
  | released =>
    simp only [Records.release] at found
    split at found
    · cases found
    · exact found

theorem Change.sets (change : Change junk first s label s') {f' : Fields}
    (found : s'.records.instances p = some f') (old : p < s.records.nextInstance) :
    ∃ f, s.records.instances p = some f ∧ Sets s label.1 p f f' := by
  have set : ∀ {q : Nat} {g g' : Fields}, s.records.instances q = some g → (p = q → Sets s label.1 p g g') →
      (s.records.setInstance q (some g')).instances p = some f' →
      ∃ f, s.records.instances p = some f ∧ Sets s label.1 p f f' := by
    intro q g g' at_q sets found
    cases Records.setInstance_some found with
    | inl here =>
      obtain ⟨rfl, rfl⟩ := here
      exact ⟨g, at_q, sets rfl⟩
    | inr other => exact ⟨f', other.2, .refl s label.1 p f'⟩
  have same : s.records.instances p = some f' → ∃ f, s.records.instances p = some f ∧ Sets s label.1 p f f' :=
    fun found => ⟨f', found, .refl s label.1 p f'⟩
  cases change with
  | call idle does =>
    rw [Shape.receive_records] at found
    cases does with
    | pushed =>
      simp only [Records.push] at found
      rw [if_neg (Nat.ne_of_lt old)] at found
      exact same found
    | poolRefused | poolCreated | counted | hasTasks | closed | tooMany | taskCreated | lookedUp | notPushed
    | unpushed => exact same found
  | @proceed c wait client turn r' here does =>
    cases does with
    | blocked joins known | joined joins known =>
      refine set known ?_ found
      rintro rfl
      exact ⟨.inr ⟨c, wait, _, _, _, _, rfl, here, joins⟩, .inl rfl, .inl rfl⟩
    | detached known unfinished =>
      refine set known ?_ found
      rintro rfl
      exact ⟨.inl rfl, .inr ⟨c, wait, _, _, rfl, here⟩, .inl rfl⟩
    | released known finished deletes =>
      refine set known ?_ (deletes.instance found)
      rintro rfl
      exact ⟨.inl rfl, .inr ⟨c, wait, _, _, rfl, here⟩, .inl rfl⟩
    | deleted deletes => exact same (deletes.instance found)
    | askedFinished | askedRunning | expired | timedOut | woken | freed | waitsAgain | leaves | destroyed =>
      exact same found
  | @work w value woken worker turn r' here does wakes =>
    obtain ⟨P, pc⟩ := worker
    rw [Shape.receive_records] at found
    cases does with
    | picked looking live active first taken =>
      refine set taken ?_ found
      exact fun _ => ⟨.inl rfl, .inl rfl, .inl rfl⟩
    | stored known =>
      refine set known ?_ found
      exact fun _ => ⟨.inl rfl, .inl rfl, .inl rfl⟩
    | completed known live kept =>
      refine set known ?_ found
      rintro rfl
      exact ⟨.inl rfl, .inl rfl, .inr ⟨w, value, woken, P, rfl, here⟩⟩
    | released known live detached deletes =>
      refine set known ?_ (deletes.instance found)
      rintro rfl
      exact ⟨.inl rfl, .inl rfl, .inr ⟨w, value, woken, P, rfl, here⟩⟩
    | slept | exited | called => exact same found

/-- A pool is only released at the end of `thread_pool_delete`. -/
theorem Change.lostPool (change : Change junk first s label s') {c : Counters}
    (live : s.records.pools P = some c) (gone : s'.records.pools P = none) :
    ∃ d wait, label.1 = .proceed d wait ∧ s.clients[d]? = some (.destroying P) := by
  have set : ∀ {Q : Nat} {d : Counters}, (s.records.setPool Q (some d)).pools P ≠ none := by
    intro Q d none
    by_cases here : P = Q
    · cases (if_pos here).symm.trans none
    · cases live.symm.trans ((if_neg here).symm.trans none)
  have deletes : ∀ {r r' : Records} {u : Nat} {ret : Int}, r.Deletes u ret r' → r.pools P ≠ none → r'.pools P ≠ none := by
    intro r r' u ret does there none
    cases does with
    | refused => exact there none
    | released =>
      simp only [Records.release] at none
      split at none
      · exact there (Option.map_eq_none_iff.mp none)
      · exact there none
  have there : s.records.pools P ≠ none := by
    rw [live]
    exact Option.some_ne_none c
  cases change with
  | call idle does =>
    rw [Shape.receive_records] at gone
    cases does with
    | pushed =>
      simp only [Records.push] at gone
      split at gone
      · cases gone
      · exact absurd gone there
    | closed => exact absurd gone set
    | poolCreated =>
      simp only [Records.addPool] at gone
      split at gone
      · cases gone
      · exact absurd gone there
    | poolRefused | counted | hasTasks | tooMany | taskCreated | lookedUp | notPushed | unpushed =>
      exact absurd gone there
  | @proceed d wait client turn r' here does =>
    cases does with
    | deleted does => exact absurd gone (deletes does there)
    | released known finished does => exact absurd gone (deletes does there)
    | @destroyed Q c' live' =>
      by_cases same : P = Q
      · subst same
        exact ⟨d, wait, rfl, here⟩
      · exact absurd ((if_neg same).symm.trans gone) there
    | askedFinished | askedRunning | expired | blocked | joined | timedOut | woken | detached | freed | waitsAgain
    | leaves => exact absurd gone there
  | @work w value woken worker turn r' here does wakes =>
    obtain ⟨Q, pc⟩ := worker
    rw [Shape.receive_records] at gone
    cases does with
    | released known live' detached does =>
      refine absurd gone (deletes does ?_)
      exact set
    | exited | picked => exact absurd gone set
    | completed => exact absurd gone set
    | slept | called | stored => exact absurd gone there

/-- A step allocates no pool, or the one that `thread_pool_new` makes. -/
theorem Change.newPool (change : Change junk first s label s') : s'.records.nextPool = s.records.nextPool ∨
    (s'.records.nextPool = s.records.nextPool + 1 ∧ ∃ c, s'.records.pools s.records.nextPool = some c) := by
  cases change with
  | call idle does =>
    rw [Shape.receive_records]
    cases does with
    | poolCreated => exact .inr ⟨rfl, _, if_pos rfl⟩
    | poolRefused | taskCreated | counted | hasTasks | closed | tooMany | pushed | lookedUp | notPushed
    | unpushed => exact .inl rfl
  | proceed here does => exact .inl does.sameThreads.nextPool
  | @work w value woken worker turn r' here does wakes =>
    obtain ⟨P, pc⟩ := worker
    rw [Shape.receive_records]
    cases does with
    | released found live detached does => exact .inl does.sameThreads.nextPool
    | slept | exited | picked | called | stored | completed => exact .inl rfl

end SysprogLabs.Tpool
