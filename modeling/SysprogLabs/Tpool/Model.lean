import SysprogLabs.Lib.Store
import SysprogLabs.Lib.Machine
import Mathlib.Data.Int.Init

/-! # The thread pool of `thread_pool.c`

The heap holds the three structs; a critical section under `pool->mutex` is one `Prog`
over the heap, and the code outside the mutex is cut where it reads or writes memory
that other threads use.  A `System` is the heap with the threads around it: the workers
the pools have created and any number of clients that call the API.

* A thread stands between two pieces of code; `Action` says which thread goes on, and
  with what the environment adds (the value a task's function returns, the clients a
  signal wakes up, what a timed wait returns).
* A thread that is blocked in `pthread_cond_wait` carries whether it has been notified.
  It may go on in any case, since spurious wakeups are allowed.
* `tp_task_list` is a list, newest instance first.  `malloc` and `pthread_create` never
  fail; `junk` is what the field `result` of a fresh instance holds.
* Taking the mutex of a released pool and reading or writing a released object are
  faults.  Signalling the condition variable of a released instance is only recorded.
* `pthread_cond_destroy` is left out, which must not be called while a thread waits on the
  condition variable, and so is the `timespec` of a timed join, which an infinite or too
  large `timeout` does not fit into.
-/

namespace SysprogLabs.Tpool

def tpoolMaxThreads : Int := 20
def tpoolMaxTasks : Int := 100000

/-! ## `enum thread_poool_errcode` -/

def tpoolErrInvalidArgument : Int := 1
def tpoolErrTooManyTasks : Int := 2
def tpoolErrHasTasks : Int := 3
def tpoolErrTaskNotPushed : Int := 4
def tpoolErrTaskInPool : Int := 5
def tpoolErrTimeout : Int := 7

/-! ## Objects -/

/-- A `void *`. -/
abbrev Value := Nat

/-- A `thread_task_f`. -/
abbrev Function := Nat

structure ThreadTask where
  function : Function
  arg : Value
  list : List Nat

structure ThreadPoolTask where
  threadTask : Nat
  result : Value
  isFinished : Bool
  isRunning : Bool
  isPushed : Bool
  isJoined : Bool
  isDetached : Bool
  next : Ptr
  prev : Ptr
  pool : Ptr

structure ThreadPool where
  maxThreadsCnt : Int
  threadsCnt : Int
  activeThreadsCnt : Int
  isActive : Bool
  task : Ptr
  lastTask : Ptr
  tasksCnt : Int

structure Heap where
  tpTasks : Store ThreadPoolTask
  tasks : Store ThreadTask
  pools : Store ThreadPool

def tpTaskHeap : Lens Heap (Store ThreadPoolTask) := ⟨Heap.tpTasks, fun st h => { h with tpTasks := st },
  fun _ _ => rfl, fun _ _ _ => rfl, fun _ => rfl⟩

def taskHeap : Lens Heap (Store ThreadTask) := ⟨Heap.tasks, fun st h => { h with tasks := st },
  fun _ _ => rfl, fun _ _ _ => rfl, fun _ => rfl⟩

def poolHeap : Lens Heap (Store ThreadPool) := ⟨Heap.pools, fun st h => { h with pools := st },
  fun _ _ => rfl, fun _ _ _ => rfl, fun _ => rfl⟩

@[simp] theorem tpTaskHeap_get (h : Heap) : tpTaskHeap.get h = h.tpTasks := rfl
@[simp] theorem tpTaskHeap_set (st : Store ThreadPoolTask) (h : Heap) :
    tpTaskHeap.set st h = { h with tpTasks := st } := rfl
@[simp] theorem taskHeap_get (h : Heap) : taskHeap.get h = h.tasks := rfl
@[simp] theorem taskHeap_set (st : Store ThreadTask) (h : Heap) :
    taskHeap.set st h = { h with tasks := st } := rfl
@[simp] theorem poolHeap_get (h : Heap) : poolHeap.get h = h.pools := rfl
@[simp] theorem poolHeap_set (st : Store ThreadPool) (h : Heap) :
    poolHeap.set st h = { h with pools := st } := rfl

/-! ## Threads -/

/-- A `double` number of seconds. -/
inductive Timeout where
  | finite (seconds : Rat)
  | infinity
  | minusInfinity
  | nan
  deriving DecidableEq

/-- `timeout <= 0.0` -/
def Timeout.isNotPositive : Timeout → Bool
  | .finite seconds => seconds ≤ 0
  | .infinity => false
  | .minusInfinity => true
  | .nan => false

/-- What `pthread_cond_timedwait_relative_np` returns: 0, `ETIMEDOUT` or another code. -/
inductive WaitResult where
  | woken
  | timedOut
  | failed
  deriving DecidableEq

/-- The calls that take a task and look up its newest instance first. -/
inductive TaskCall where
  | isFinished
  | isRunning
  | join
  | timedJoin (timeout : Timeout)
  | delete
  | detach
  deriving DecidableEq

inductive Call where
  | poolNew (maxThreadCount : Int)
  | poolThreadCount (pool : Nat)
  | poolDelete (pool : Nat)
  | poolPushTask (pool task : Nat)
  | taskNew (function : Function) (arg : Value)
  | onTask (call : TaskCall) (task : Nat)

/-- What a step shows of the call it belongs to. -/
inductive Out where
  | running
  | returned (ret : Int)
  | answered (value : Bool)
  /-- `thread_task_join` or `thread_task_timed_join` returns 0 and stores `*result`. -/
  | joined (result : Value)
  /-- `thread_pool_new` or `thread_task_new` returns 0 and stores the new object. -/
  | created (object : Nat)
  deriving DecidableEq

/-- Where a client stands. -/
inductive Client where
  | idle
  /-- It has looked up the newest instance and is about to lock the mutex. -/
  | locking (call : TaskCall) (task tpTask : Nat) (pool : Ptr)
  /-- It has found a task without instances and is about to free it. -/
  | freeing (task : Nat)
  /-- Blocked on `tp_task->end_cond`. -/
  | joining (task tpTask : Nat) (pool : Ptr) (timed notified : Bool)
  /-- Blocked on `pool->thread_finish_cond`. -/
  | deleting (pool : Nat) (notified : Bool)
  /-- It has left the wait loop of `thread_pool_delete` and is about to free the pool. -/
  | destroying (pool : Nat)
  deriving DecidableEq

/-- A call of a task's function on behalf of one instance. -/
structure Invocation where
  tpTask : Nat
  function : Function
  arg : Value
  deriving DecidableEq

/-- Where a worker stands. -/
inductive WorkerPc where
  /-- About to lock the mutex at the top of its loop. -/
  | ready
  /-- Blocked on `pool->work_cond`. -/
  | asleep (notified : Bool)
  | picked (tpTask : Nat)
  | running (call : Invocation)
  /-- It has stored the result and is about to lock the mutex again. -/
  | returned (tpTask : Nat)
  | exited
  deriving DecidableEq

structure Worker where
  pool : Nat
  pc : WorkerPc
  deriving DecidableEq

/-- What a piece of code does to other threads. -/
inductive Signal where
  | create (pool : Nat)
  | broadcastWork (pool : Nat)
  | signalFinish (pool : Nat)
  | signalEnd (tpTask : Nat)

/-- Entries of the log of a run.  No code reads it. -/
inductive Mark where
  | created (task : Nat) (function : Function) (arg : Value)
  | invoked (call : Invocation)
  | returned (call : Invocation) (value : Value)
  | completed (tpTask : Nat)
  | detached (task : Nat)
  /-- The condition variable of a released instance was signalled. -/
  | stale (tpTask : Nat)
  deriving DecidableEq

/-- What a piece of code leaves behind: where its thread stands now, and what others see. -/
structure Turn (pc : Type) where
  next : pc
  out : Out := .running
  signals : List Signal := []
  marks : List Mark := []

/-! ## The code -/

variable (junk : Nat → Value)

def lock (pool : Ptr) : Prog Heap Unit := do
  let _ ← poolHeap.load pool
  return ()

def getTpTask (task : Nat) : Prog Heap Ptr := do
  let task ← taskHeap.load (some task)
  return task.list.head?

def makeThreadPoolTask (threadTask : Nat) : Prog Heap Nat := do
  let task ← tpTaskHeap.malloc fun p =>
    { threadTask, result := junk p, isFinished := false, isRunning := false, isPushed := false,
      isJoined := false, isDetached := false, prev := none, next := none, pool := none }
  taskHeap.modify (some threadTask) fun t => { t with list := task :: t.list }
  return task

def threadPoolNew (maxThreadCount : Int) : Prog Heap (Turn Client) :=
  if maxThreadCount > tpoolMaxThreads ∨ maxThreadCount ≤ 0 then
    return { next := .idle, out := .returned tpoolErrInvalidArgument }
  else do
    let pool ← poolHeap.malloc fun _ =>
      { maxThreadsCnt := maxThreadCount, threadsCnt := 0, tasksCnt := 0, isActive := true,
        activeThreadsCnt := 0, task := none, lastTask := none }
    return { next := .idle, out := .created pool }

def threadPoolThreadCount (pool : Nat) : Prog Heap (Turn Client) := do
  let state ← poolHeap.load (some pool)
  return { next := .idle, out := .returned state.threadsCnt }

-- The test of the wait loop of `thread_pool_delete`.
def awaitThreads (pool : Nat) : Prog Heap Client := do
  let state ← poolHeap.load (some pool)
  return if state.threadsCnt ≠ 0 then .deleting pool false else .destroying pool

def threadPoolDelete (pool : Nat) : Prog Heap (Turn Client) := do
  let state ← poolHeap.load (some pool)
  if state.tasksCnt > 0 then return { next := .idle, out := .returned tpoolErrHasTasks }
  else
    poolHeap.modify (some pool) fun state => { state with isActive := false }
    let next ← awaitThreads pool
    return { next, signals := [.broadcastWork pool] }

-- Behind `pthread_cond_wait` in `thread_pool_delete`.
def threadPoolDeleteWoken (pool : Nat) : Prog Heap (Turn Client) := do
  let next ← awaitThreads pool
  return { next }

-- Behind `pthread_mutex_unlock` in `thread_pool_delete`.
def threadPoolDestroy (pool : Nat) : Prog Heap (Turn Client) := do
  poolHeap.free (some pool)
  return { next := .idle, out := .returned 0 }

def threadPoolPushTask (pool task : Nat) : Prog Heap (Turn Client) := do
  let state ← poolHeap.load (some pool)
  if state.tasksCnt = tpoolMaxTasks then
    return { next := .idle, out := .returned tpoolErrTooManyTasks }
  else
    let created := state.activeThreadsCnt = state.threadsCnt ∧ state.threadsCnt < state.maxThreadsCnt
    .when created do
      poolHeap.modify (some pool) fun state => { state with threadsCnt := state.threadsCnt + 1 }
    let tpTask ← makeThreadPoolTask junk task
    poolHeap.modify (some pool) fun state => { state with tasksCnt := state.tasksCnt + 1 }
    tpTaskHeap.modify (some tpTask) fun t => { t with isPushed := true }
    tpTaskHeap.modify (some tpTask) fun t => { t with pool := some pool }
    tpTaskHeap.modify (some tpTask) fun t => { t with next := state.task }
    .when (state.task ≠ none) do
      tpTaskHeap.modify state.task fun t => { t with prev := some tpTask }
    poolHeap.modify (some pool) fun state => { state with task := some tpTask }
    .when (state.lastTask = none) do
      poolHeap.modify (some pool) fun state => { state with lastTask := some tpTask }
    return { next := .idle, out := .returned 0,
             signals := (if created then [.create pool] else []) ++ [.broadcastWork pool] }

def threadTaskNew (function : Function) (arg : Value) : Prog Heap (Turn Client) := do
  let task ← taskHeap.malloc fun _ => { function, arg, list := [] }
  return { next := .idle, out := .created task, marks := [.created task function arg] }

def getTask (pool : Nat) : Prog Heap Ptr := do
  let state ← poolHeap.load (some pool)
  .loop (fun task => match task with
    | none => return .done none
    | some _ => do
      let t ← tpTaskHeap.load task
      if t.isRunning || t.isFinished then return .again t.next else return .done task) state.task

/-! ### `delete_task` -/

-- The loop of `delete_task` that looks for an instance which must not be released.
def deletable : List Nat → Prog Heap Bool
  | [] => return true
  | p :: list => do
    let tpTask ← tpTaskHeap.load (some p)
    if !(tpTask.isJoined || (tpTask.isDetached && tpTask.isFinished)) then return false
    else deletable list

def unlinkFromNeighbours (pool tpPrev tpNext : Ptr) : Prog Heap Unit :=
  if tpPrev = none then do
    .when (tpNext ≠ none) do
      tpTaskHeap.modify tpNext fun t => { t with prev := none }
    poolHeap.modify pool fun state => { state with task := tpNext }
  else do
    .when (tpNext ≠ none) do
      tpTaskHeap.modify tpNext fun t => { t with prev := tpPrev }
    tpTaskHeap.modify tpPrev fun t => { t with next := tpNext }

-- One round of the loop of `delete_task` that releases the instances.
def unlinkTask (pool : Ptr) (p : Nat) : Prog Heap Unit := do
  let tpTask ← tpTaskHeap.load (some p)
  let tpPrev := tpTask.prev
  let tpNext := tpTask.next
  let state ← poolHeap.load pool
  .when (state.lastTask = some p) do
    poolHeap.modify pool fun state => { state with lastTask := tpPrev }
  unlinkFromNeighbours pool tpPrev tpNext
  tpTaskHeap.free (some p)

def unlinkTasks (pool : Ptr) : List Nat → Prog Heap Unit
  | [] => return ()
  | p :: list => do
    unlinkTask pool p
    unlinkTasks pool list

def deleteTask (task : Nat) : Prog Heap Int := do
  let t ← taskHeap.load (some task)
  match t.list with
  | [] =>
    taskHeap.free (some task)
    return 0
  | newest :: _ =>
    let tpTask ← tpTaskHeap.load (some newest)
    if ← deletable t.list then
      unlinkTasks tpTask.pool t.list
      taskHeap.free (some task)
      poolHeap.modify tpTask.pool fun pool => { pool with tasksCnt := pool.tasksCnt - t.list.length }
      return 0
    else return tpoolErrTaskInPool

/-! ### Calls on a task -/

/-- What the calls on a task do before they lock the mutex. -/
def TaskCall.start (call : TaskCall) (task : Nat) : Prog Heap (Turn Client) := do
  match ← getTpTask task with
  | some p =>
    let tpTask ← tpTaskHeap.load (some p)
    return { next := .locking call task p tpTask.pool }
  | none =>
    match call with
    | .isFinished => return { next := .idle, out := .answered false }
    | .isRunning => return { next := .idle, out := .answered false }
    | .join => return { next := .idle, out := .returned tpoolErrTaskNotPushed }
    | .timedJoin _ => return { next := .idle, out := .returned tpoolErrTaskNotPushed }
    | .delete => return { next := .freeing task }
    | .detach => return { next := .idle, out := .returned tpoolErrTaskNotPushed }

-- `free(task)` in `thread_task_delete`, for a task that was not pushed.
def freeTask (task : Nat) : Prog Heap (Turn Client) := do
  taskHeap.free (some task)
  return { next := .idle, out := .returned 0 }

def threadTaskIsFinished (tpTask : Nat) (pool : Ptr) : Prog Heap (Turn Client) := do
  lock pool
  let t ← tpTaskHeap.load (some tpTask)
  return { next := .idle, out := .answered t.isFinished }

def threadTaskIsRunning (tpTask : Nat) (pool : Ptr) : Prog Heap (Turn Client) := do
  lock pool
  let t ← tpTaskHeap.load (some tpTask)
  return { next := .idle, out := .answered t.isRunning }

def threadTaskJoin (task tpTask : Nat) (pool : Ptr) : Prog Heap (Turn Client) := do
  lock pool
  tpTaskHeap.modify (some tpTask) fun t => { t with isJoined := true }
  let t ← tpTaskHeap.load (some tpTask)
  if t.isFinished = false then return { next := .joining task tpTask pool false false }
  else return { next := .idle, out := .joined t.result }

def threadTaskTimedJoin (timeout : Timeout) (task tpTask : Nat) (pool : Ptr) : Prog Heap (Turn Client) := do
  lock pool
  if timeout.isNotPositive then return { next := .idle, out := .returned tpoolErrTimeout }
  else
    tpTaskHeap.modify (some tpTask) fun t => { t with isJoined := true }
    let t ← tpTaskHeap.load (some tpTask)
    if t.isFinished = false then return { next := .joining task tpTask pool true false }
    else return { next := .idle, out := .joined t.result }

-- Behind the wait of both joins; only the timed one looks at what the wait returned.
def joinWoken (tpTask : Nat) (pool : Ptr) (timed : Bool) (wait : WaitResult) : Prog Heap (Turn Client) := do
  lock pool
  if timed = true ∧ wait = .timedOut then
    return { next := .idle, out := .returned tpoolErrTimeout }
  else
    let t ← tpTaskHeap.load (some tpTask)
    return { next := .idle, out := .joined t.result }

def threadTaskDelete (task : Nat) (pool : Ptr) : Prog Heap (Turn Client) := do
  lock pool
  let deleteResult ← deleteTask task
  return { next := .idle, out := .returned deleteResult }

def threadTaskDetach (task tpTask : Nat) (pool : Ptr) : Prog Heap (Turn Client) := do
  lock pool
  tpTaskHeap.modify (some tpTask) fun t => { t with isDetached := true }
  let t ← tpTaskHeap.load (some tpTask)
  if t.isFinished then
    let _ ← deleteTask task
    return { next := .idle, out := .returned 0, marks := [.detached task] }
  else return { next := .idle, out := .returned 0, marks := [.detached task] }

/-! ### `thread_pool_worker` -/

def moveToEnd (pool tpTask : Nat) : Prog Heap Unit := do
  let state ← poolHeap.load (some pool)
  if some tpTask ≠ state.lastTask then
    let t ← tpTaskHeap.load (some tpTask)
    if state.task = some tpTask then
      let tpNext := t.next
      poolHeap.modify (some pool) fun state => { state with task := tpNext }
      tpTaskHeap.modify tpNext fun t => { t with prev := none }
      tpTaskHeap.modify (some tpTask) fun t => { t with prev := state.lastTask }
      tpTaskHeap.modify state.lastTask fun t => { t with next := some tpTask }
      tpTaskHeap.modify (some tpTask) fun t => { t with next := none }
      poolHeap.modify (some pool) fun state => { state with lastTask := some tpTask }
    else
      let tpNext := t.next
      let tpPrev := t.prev
      tpTaskHeap.modify tpNext fun t => { t with prev := tpPrev }
      tpTaskHeap.modify tpPrev fun t => { t with next := tpNext }
      tpTaskHeap.modify (some tpTask) fun t => { t with prev := state.lastTask }
      tpTaskHeap.modify (some tpTask) fun t => { t with next := none }
      poolHeap.modify (some pool) fun state => { state with lastTask := some tpTask }
  else pure ()

-- What the worker does with what `get_task` has found.
def workerTake (pool : Nat) (tpTask : Ptr) : Prog Heap (Turn WorkerPc) := do
  let state ← poolHeap.load (some pool)
  if tpTask = none ∧ state.isActive = true then return { next := .asleep false }
  else
    poolHeap.modify (some pool) fun state => { state with activeThreadsCnt := state.activeThreadsCnt + 1 }
    if state.isActive = false then
      poolHeap.modify (some pool) fun state => { state with threadsCnt := state.threadsCnt - 1 }
      poolHeap.modify (some pool) fun state => { state with activeThreadsCnt := state.activeThreadsCnt - 1 }
      return { next := .exited, signals := [.signalFinish pool] }
    else
      let tpTask ← .require tpTask
      tpTaskHeap.modify (some tpTask) fun t => { t with isRunning := true }
      moveToEnd pool tpTask
      return { next := .picked tpTask }

-- From the lock at the top of the loop, or from the wait, to the next wait or unlock.
def workerPickUp (pool : Nat) : Prog Heap (Turn WorkerPc) := do
  let tpTask ← getTask pool
  workerTake pool tpTask

-- The evaluation of `function` and `arg` outside the mutex.
def workerCall (tpTask : Nat) : Prog Heap (Turn WorkerPc) := do
  let t ← tpTaskHeap.load (some tpTask)
  let task ← taskHeap.load (some t.threadTask)
  let call : Invocation := { tpTask, function := task.function, arg := task.arg }
  return { next := .running call, marks := [.invoked call] }

-- The function returns; its result is stored outside the mutex.
def workerStore (call : Invocation) (value : Value) : Prog Heap (Turn WorkerPc) := do
  tpTaskHeap.modify (some call.tpTask) fun t => { t with result := value }
  return { next := .returned call.tpTask, marks := [.returned call value] }

-- From the second lock to the second unlock.
def workerComplete (pool tpTask : Nat) : Prog Heap (Turn WorkerPc) := do
  lock (some pool)
  tpTaskHeap.modify (some tpTask) fun t => { t with isFinished := true }
  tpTaskHeap.modify (some tpTask) fun t => { t with isRunning := false }
  poolHeap.modify (some pool) fun state => { state with activeThreadsCnt := state.activeThreadsCnt - 1 }
  let t ← tpTaskHeap.load (some tpTask)
  if t.isDetached then
    let _ ← deleteTask t.threadTask
    return { next := .ready, signals := [.signalEnd tpTask], marks := [.completed tpTask] }
  else return { next := .ready, signals := [.signalEnd tpTask], marks := [.completed tpTask] }

/-! ## Who goes on -/

/-- What an idle client runs when it makes a call. -/
def Call.start : Call → Prog Heap (Turn Client)
  | .poolNew maxThreadCount => threadPoolNew maxThreadCount
  | .poolThreadCount pool => threadPoolThreadCount pool
  | .poolDelete pool => threadPoolDelete pool
  | .poolPushTask pool task => threadPoolPushTask junk pool task
  | .taskNew function arg => threadTaskNew function arg
  | .onTask call task => call.start task

/-- What a call on a task runs under the mutex. -/
def TaskCall.locked (task tpTask : Nat) (pool : Ptr) : TaskCall → Prog Heap (Turn Client)
  | .isFinished => threadTaskIsFinished tpTask pool
  | .isRunning => threadTaskIsRunning tpTask pool
  | .join => threadTaskJoin task tpTask pool
  | .timedJoin timeout => threadTaskTimedJoin timeout task tpTask pool
  | .delete => threadTaskDelete task pool
  | .detach => threadTaskDetach task tpTask pool

/-- What a client runs that is inside a call. -/
def Client.proceed (wait : WaitResult) : Client → Prog Heap (Turn Client)
  | .idle => .fault
  | .locking call task tpTask pool => call.locked task tpTask pool
  | .freeing task => freeTask task
  | .joining _ tpTask pool timed _ => joinWoken tpTask pool timed wait
  | .deleting pool _ => threadPoolDeleteWoken pool
  | .destroying pool => threadPoolDestroy pool

/-- What a worker runs; `value` is what the task's function returns. -/
def Worker.proceed (value : Value) (w : Worker) : Prog Heap (Turn WorkerPc) :=
  match w.pc with
  | .ready => workerPickUp w.pool
  | .asleep _ => workerPickUp w.pool
  | .picked tpTask => workerCall tpTask
  | .running call => workerStore call value
  | .returned tpTask => workerComplete w.pool tpTask
  | .exited => .fault

structure System where
  heap : Heap
  workers : List Worker
  clients : List Client
  log : List Mark

/-- No pool, no task, and `clients` threads that call nothing yet. -/
def System.init (clients : Nat) : System where
  heap := { tpTasks := .empty, tasks := .empty, pools := .empty }
  workers := []
  clients := List.replicate clients .idle
  log := []

def heapPart : Lens System Heap := ⟨System.heap, fun h s => { s with heap := h },
  fun _ _ => rfl, fun _ _ _ => rfl, fun _ => rfl⟩

@[simp] theorem heapPart_get (s : System) : heapPart.get s = s.heap := rfl
@[simp] theorem heapPart_set (h : Heap) (s : System) : heapPart.set h s = { s with heap := h } := rfl

/-! ### Signals -/

def Worker.notify (w : Worker) : Worker :=
  match w.pc with
  | .asleep _ => { w with pc := .asleep true }
  | _ => w

def Client.notify : Client → Client
  | .joining task tpTask pool timed _ => .joining task tpTask pool timed true
  | .deleting pool _ => .deleting pool true
  | client => client

/-- Blocked on `end_cond` of the instance, without a pending wakeup. -/
def Client.awaitsEnd (tpTask : Nat) : Client → Bool
  | .joining _ p _ _ false => p == tpTask
  | _ => false

/-- Blocked on `thread_finish_cond` of the pool, without a pending wakeup. -/
def Client.awaitsFinish (pool : Nat) : Client → Bool
  | .deleting p false => p == pool
  | _ => false

def wakeWorkers (pool : Nat) (workers : List Worker) : List Worker :=
  workers.map fun w => if w.pool = pool then w.notify else w

def wakeClients (waits : Client → Bool) (woken : List Nat) (clients : List Client) : List Client :=
  clients.mapIdx fun c client => if waits client && woken.contains c then client.notify else client

/-- `pthread_cond_signal` unblocks at least one thread, if any are blocked. -/
def wakesOne (waits : Client → Bool) (woken : List Nat) (clients : List Client) : Bool :=
  clients.all (fun client => !waits client) || woken.any fun c => (clients[c]?).any waits

def signal (waits : Client → Bool) (woken : List Nat) : Prog System Unit :=
  .step fun s => if wakesOne waits woken s.clients then
    some ((), { s with clients := wakeClients waits woken s.clients }) else none

def Signal.deliver (woken : List Nat) : Signal → Prog System Unit
  | .create pool => .update fun s => { s with workers := s.workers ++ [{ pool, pc := .ready }] }
  | .broadcastWork pool => .update fun s => { s with workers := wakeWorkers pool s.workers }
  | .signalFinish pool => signal (Client.awaitsFinish pool) woken
  | .signalEnd tpTask => do
    signal (Client.awaitsEnd tpTask) woken
    .update fun s => match s.heap.tpTasks.cell tpTask with
      | some _ => s
      | none => { s with log := .stale tpTask :: s.log }

def deliver (woken : List Nat) : List Signal → Prog System Unit
  | [] => return ()
  | signal :: signals => do
    signal.deliver woken
    deliver woken signals

/-! ### Steps -/

inductive Action where
  | call (client : Nat) (function : Call)
  | proceed (client : Nat) (wait : WaitResult)
  | work (worker : Nat) (value : Value) (woken : List Nat)

def Action.run : Action → Prog System Out
  | .call c function => do
    match ← .read fun s => s.clients[c]? with
    | some .idle =>
      let turn ← .zoom heapPart (function.start junk)
      .update fun s => { s with clients := s.clients.set c turn.next, log := turn.marks ++ s.log }
      deliver [] turn.signals
      return turn.out
    | _ => .fault
  | .proceed c wait => do
    let client ← .require (← .read fun s => s.clients[c]?)
    let turn ← .zoom heapPart (client.proceed wait)
    .update fun s => { s with clients := s.clients.set c turn.next, log := turn.marks ++ s.log }
    deliver [] turn.signals
    return turn.out
  | .work w value woken => do
    let worker ← .require (← .read fun s => s.workers[w]?)
    let turn ← .zoom heapPart (worker.proceed value)
    .update fun s => { s with workers := s.workers.set w { worker with pc := turn.next },
                              log := turn.marks ++ s.log }
    deliver woken turn.signals
    return turn.out

/-- One piece of code of one thread; the label is the action with what it shows. -/
def Step (s : System) (label : Action × Out) (s' : System) : Prop :=
  (label.1.run junk).Returns s label.2 s'

end SysprogLabs.Tpool
