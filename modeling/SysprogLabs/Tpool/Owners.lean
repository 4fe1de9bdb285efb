import SysprogLabs.Tpool.Duties

/-! # Tasks, their instances, and the clients that look at them

A live task lists its instances, all of them live, and no instance of its own is missing.
A client inside a call still knows the task and the pool of the instance it looked up.
-/

namespace SysprogLabs.Tpool

variable {junk : Nat → Value} {first : Nat → Ptr → Prop} {s s' : Shape} {r r' : Records}

structure Owned (r : Records) : Prop where
  bounded : ∀ t task, r.tasks t = some task → t < r.nextTask
  born : ∀ p f, r.instances p = some f → p < r.nextInstance ∧ f.threadTask < r.nextTask
  nodup : ∀ t task, r.tasks t = some task → task.list.Nodup
  listed : ∀ t task p, r.tasks t = some task → p ∈ task.list →
    ∃ f, r.instances p = some f ∧ f.threadTask = t
  whole : ∀ p f task, r.instances p = some f → r.tasks f.threadTask = some task → p ∈ task.list
  pushed : ∀ p f, r.instances p = some f → f.isPushed = true ∧ ∃ P, f.pool = some P

namespace Owned

/-- The fields that tie an instance to its task and its pool never change. -/
theorem setInstance (owned : Owned r) {p : Nat} {f f' : Fields} (found : r.instances p = some f)
    (task : f'.threadTask = f.threadTask) (isPushed : f'.isPushed = f.isPushed) (pool : f'.pool = f.pool) :
    Owned (r.setInstance p (some f')) := by
  have before : ∀ q g, (r.setInstance p (some f')).instances q = some g → ∃ g₀, r.instances q = some g₀ ∧
      g.threadTask = g₀.threadTask ∧ g.isPushed = g₀.isPushed ∧ g.pool = g₀.pool := by
    intro q g found'
    cases Records.setInstance_some found' with
    | inl here =>
      obtain ⟨rfl, rfl⟩ := here
      exact ⟨f, found, task, isPushed, pool⟩
    | inr old => exact ⟨g, old.2, rfl, rfl, rfl⟩
  constructor
  · exact owned.bounded
  · intro q g found'
    obtain ⟨g₀, old, same, -⟩ := before q g found'
    rw [same]
    exact owned.born q g₀ old
  · exact owned.nodup
  · intro t task' q live mem
    obtain ⟨g, found', owner⟩ := owned.listed t task' q live mem
    by_cases here : q = p
    · subst here
      cases found.symm.trans found'
      exact ⟨f', Records.setInstance_found _, task.trans owner⟩
    · exact ⟨g, (if_neg here).trans found', owner⟩
  · intro q g task' found' live
    obtain ⟨g₀, old, same, -⟩ := before q g found'
    exact owned.whole q g₀ task' old (same ▸ live)
  · intro q g found'
    obtain ⟨g₀, old, -, same, pool'⟩ := before q g found'
    rw [same, pool']
    exact owned.pushed q g₀ old

theorem setPool (owned : Owned r) {P : Nat} {c : Option Counters} : Owned (r.setPool P c) := { owned with }

/-- `free(task)` outside the mutex may leave instances without a task. -/
theorem dropTask (owned : Owned r) {t : Nat} : Owned (r.setTask t none) := by
  have before : ∀ u task, (r.setTask t none).tasks u = some task → r.tasks u = some task :=
    (Records.SameWork.dropTask (r := r) (t := t)).tasks
  exact {
    bounded := fun u task live => owned.bounded u task (before u task live)
    born := owned.born
    nodup := fun u task live => owned.nodup u task (before u task live)
    listed := fun u task p live => owned.listed u task p (before u task live)
    whole := fun p f task found live => owned.whole p f task found (before _ task live)
    pushed := owned.pushed }

/-- A task is released with exactly its instances. -/
theorem release (owned : Owned r) {t : Nat} {task : ThreadTask} (live : r.tasks t = some task) :
    Owned (r.release t task) := by
  have instances : ∀ p f, (r.release t task).instances p = some f → p ∉ task.list ∧ r.instances p = some f := by
    intro p f found
    simp only [Records.release] at found
    split at found
    · cases found
    · next kept => exact ⟨kept, found⟩
  have tasks : ∀ u task', (r.release t task).tasks u = some task' → u ≠ t ∧ r.tasks u = some task' := by
    intro u task' live'
    simp only [Records.release] at live'
    split at live'
    · cases live'
    · next kept => exact ⟨kept, live'⟩
  constructor
  · intro u task' live'
    exact owned.bounded u task' (tasks u task' live').2
  · intro p f found
    exact owned.born p f (instances p f found).2
  · intro u task' live'
    exact owned.nodup u task' (tasks u task' live').2
  · intro u task' p live' mem
    obtain ⟨apart, old⟩ := tasks u task' live'
    obtain ⟨f, found, owner⟩ := owned.listed u task' p old mem
    have kept : p ∉ task.list := by
      intro other
      obtain ⟨g, found', owner'⟩ := owned.listed t task p live other
      cases found.symm.trans found'
      exact apart (owner.symm.trans owner')
    exact ⟨f, (if_neg kept).trans found, owner⟩
  · intro p f task' found live'
    exact owned.whole p f task' (instances p f found).2 (tasks _ task' live').2
  · intro p f found
    exact owned.pushed p f (instances p f found).2

theorem deletes (owned : Owned r) {t : Nat} {ret : Int} (deletes : r.Deletes t ret r') : Owned r' := by
  cases deletes with
  | refused => exact owned
  | released live all => exact owned.release live

theorem addTask (owned : Owned r) {function : Function} {arg : Value} :
    Owned (r.addTask { function, arg, list := [] }) := by
  have cases : ∀ t task, (r.addTask { function, arg, list := [] }).tasks t = some task →
      (t = r.nextTask ∧ task.list = []) ∨ r.tasks t = some task := by
    intro t task live
    by_cases new : t = r.nextTask
    · subst new
      cases (if_pos rfl).symm.trans live
      exact .inl ⟨rfl, rfl⟩
    · exact .inr ((if_neg new).symm.trans live)
  have next : (r.addTask { function, arg, list := [] }).nextTask = r.nextTask + 1 := rfl
  constructor
  · intro t task live
    rw [next]
    cases cases t task live with
    | inl new => omega
    | inr old => exact Nat.lt_succ_of_lt (owned.bounded t task old)
  · intro p f found
    exact ⟨(owned.born p f found).1, Nat.lt_succ_of_lt (owned.born p f found).2⟩
  · intro t task live
    cases cases t task live with
    | inl new => rw [new.2]; exact .nil
    | inr old => exact owned.nodup t task old
  · intro t task p live mem
    cases cases t task live with
    | inl new =>
      rw [new.2] at mem
      cases mem
    | inr old => exact owned.listed t task p old mem
  · intro p f task found live
    cases cases _ task live with
    | inl new =>
      have old := (owned.born p f found).2
      omega
    | inr old => exact owned.whole p f task found old
  · exact owned.pushed

theorem push (owned : Owned r) {P t : Nat} {task : ThreadTask} {c : Counters} (live : r.tasks t = some task) :
    Owned (r.push junk P t task c) := by
  have instances : ∀ p f, (r.push junk P t task c).instances p = some f →
      (p = r.nextInstance ∧ f.threadTask = t ∧ f.isPushed = true ∧ f.pool = some P) ∨
      (p ≠ r.nextInstance ∧ r.instances p = some f) := by
    intro p f found
    by_cases new : p = r.nextInstance
    · subst new
      cases (if_pos rfl).symm.trans found
      exact .inl ⟨rfl, rfl, rfl, rfl⟩
    · exact .inr ⟨new, (if_neg new).symm.trans found⟩
  have tasks : ∀ u task', (r.push junk P t task c).tasks u = some task' →
      (u = t ∧ task'.list = r.nextInstance :: task.list) ∨ (u ≠ t ∧ r.tasks u = some task') := by
    intro u task' live'
    by_cases here : u = t
    · subst here
      cases (if_pos rfl).symm.trans live'
      exact .inl ⟨rfl, rfl⟩
    · exact .inr ⟨here, (if_neg here).symm.trans live'⟩
  have unborn : r.nextInstance ∉ task.list := by
    intro mem
    obtain ⟨f, found, -⟩ := owned.listed t task _ live mem
    exact Nat.lt_irrefl _ (owned.born _ f found).1
  constructor
  · intro u task' live'
    cases tasks u task' live' with
    | inl here => rw [here.1]; exact owned.bounded t task live
    | inr old => exact owned.bounded u task' old.2
  · intro p f found
    have next : (r.push junk P t task c).nextInstance = r.nextInstance + 1 := rfl
    rw [next]
    cases instances p f found with
    | inl new => rw [new.1, new.2.1]; exact ⟨by omega, owned.bounded t task live⟩
    | inr old => exact ⟨Nat.lt_succ_of_lt (owned.born p f old.2).1, (owned.born p f old.2).2⟩
  · intro u task' live'
    cases tasks u task' live' with
    | inl here =>
      rw [here.2]
      exact List.nodup_cons.mpr ⟨unborn, owned.nodup t task live⟩
    | inr old => exact owned.nodup u task' old.2
  · intro u task' p live' mem
    have kept : ∀ f, r.instances p = some f → (r.push junk P t task c).instances p = some f := by
      intro f found
      have born := (owned.born p f found).1
      exact (if_neg (by omega)).trans found
    cases tasks u task' live' with
    | inl here =>
      rw [here.2] at mem
      cases List.mem_cons.mp mem with
      | inl new =>
        subst new
        exact ⟨_, if_pos rfl, here.1.symm⟩
      | inr old =>
        obtain ⟨f, found, owner⟩ := owned.listed t task p live old
        exact ⟨f, kept f found, owner.trans here.1.symm⟩
    | inr old =>
      obtain ⟨f, found, owner⟩ := owned.listed u task' p old.2 mem
      exact ⟨f, kept f found, owner⟩
  · intro p f task' found live'
    cases instances p f found with
    | inl new =>
      cases tasks _ task' live' with
      | inl here => rw [here.2, new.1]; exact List.mem_cons_self
      | inr old => exact absurd new.2.1 old.1
    | inr old =>
      cases tasks _ task' live' with
      | inl here =>
        rw [here.2]
        exact List.mem_cons_of_mem _ (owned.whole p f task old.2 (here.1 ▸ live))
      | inr old' => exact owned.whole p f task' old.2 old'.2
  · intro p f found
    cases instances p f found with
    | inl new => exact ⟨new.2.2.1, P, new.2.2.2⟩
    | inr old => exact owned.pushed p f old.2

end Owned

theorem Calls.owned {function : Call} {turn : Turn Client} (does : Calls junk r function turn r')
    (owned : Owned r) : Owned r' := by
  cases does with
  | pushed live room found => exact owned.push found
  | taskCreated => exact owned.addTask
  | closed => exact owned.setPool
  | poolCreated => exact { owned with }
  | poolRefused | counted | hasTasks | tooMany | lookedUp | notPushed | unpushed => exact owned

theorem Proceeds.owned {wait : WaitResult} {client : Client} {turn : Turn Client}
    (does : Proceeds r wait client turn r') (owned : Owned r) : Owned r' := by
  cases does with
  | deleted deletes => exact owned.deletes deletes
  | @released t p pool f ret r' found finished deletes =>
    have marked : Owned (r.setInstance p (some { f with isDetached := true })) :=
      owned.setInstance found rfl rfl rfl
    exact marked.deletes deletes
  | detached found unfinished => exact owned.setInstance found rfl rfl rfl
  | blocked joins found unfinished => exact owned.setInstance found rfl rfl rfl
  | joined joins found finished => exact owned.setInstance found rfl rfl rfl
  | freed live => exact owned.dropTask
  | destroyed live => exact owned.setPool
  | askedFinished | askedRunning | expired | timedOut | woken | waitsAgain | leaves => exact owned

theorem Owned.complete (owned : Owned r) {P p : Nat} {f : Fields} {c : Counters}
    (found : r.instances p = some f) : Owned (r.complete P p f c) := by
  have finished : Owned (r.setInstance p (some { f with isFinished := true, isRunning := false })) :=
    owned.setInstance found rfl rfl rfl
  exact finished.setPool

theorem Works.owned {first : Ptr → Prop} {value : Value} {P : Nat} {pc : WorkerPc} {turn : Turn WorkerPc}
    (does : Works r first value P pc turn r') (owned : Owned r) : Owned r' := by
  cases does with
  | slept => exact owned
  | exited => exact owned.setPool
  | picked looking live active found taken pending => exact owned.setPool.setInstance taken rfl rfl rfl
  | called => exact owned
  | stored found => exact owned.setInstance found rfl rfl rfl
  | completed found live kept => exact owned.complete found
  | released found live detached deletes => exact (owned.complete found).deletes deletes

theorem Change.owned {label : Action × Out} (change : Change junk first s label s')
    (owned : Owned s.records) : Owned s'.records := by
  cases change with
  | call idle does =>
    rw [Shape.receive_records]
    exact does.owned owned
  | proceed here does => exact does.owned owned
  | work here does wakes =>
    rw [Shape.receive_records]
    exact does.owned owned

end SysprogLabs.Tpool
