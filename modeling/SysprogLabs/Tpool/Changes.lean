import SysprogLabs.Tpool.Sections

/-! # What a step of the system can do

`Change` lists everything a step can do to the records, the threads and the log, whatever
the links in the heap are.  Every invariant below is proved from it.
-/

namespace SysprogLabs.Tpool

open Prog

variable {junk : Nat → Value} {s s' : System} {out : Out}

/-- A system without the links. -/
structure Shape where
  records : Records
  workers : List Worker
  clients : List Client
  log : List Mark

def System.shape (s : System) : Shape where
  records := s.heap.records
  workers := s.workers
  clients := s.clients
  log := s.log

/-- The effect of a signal; `woken` are the clients it wakes up. -/
def Shape.receive (woken : List Nat) (s : Shape) : Signal → Shape
  | .create pool => { s with workers := s.workers ++ [{ pool, pc := .ready }] }
  | .broadcastWork pool => { s with workers := wakeWorkers pool s.workers }
  | .signalFinish pool => { s with clients := wakeClients (Client.awaitsFinish pool) woken s.clients }
  | .signalEnd p =>
    { s with clients := wakeClients (Client.awaitsEnd p) woken s.clients,
             log := if (s.records.instances p).isSome then s.log else .stale p :: s.log }

/-- Signals change no object. -/
@[simp] theorem Shape.receive_records (woken : List Nat) (signals : List Signal) (s : Shape) :
    (signals.foldl (Shape.receive woken) s).records = s.records := by
  induction signals generalizing s with
  | nil => rfl
  | cons sig signals ih =>
    rw [List.foldl_cons, ih]
    cases sig <;> rfl

/-- Signalling an instance logs at most that it was released. -/
theorem Shape.signalEnd_log {woken : List Nat} {p : Nat} {m : Mark} {s : Shape}
    (mem : m ∈ ([Signal.signalEnd p].foldl (Shape.receive woken) s).log) : m = .stale p ∨ m ∈ s.log := by
  simp only [List.foldl_cons, List.foldl_nil, Shape.receive] at mem
  split at mem
  · exact .inr mem
  · exact List.mem_cons.mp mem

/-- At least one of the blocked clients is woken up, if there are any. -/
def Signal.Wakes (woken : List Nat) (clients : List Client) : Signal → Prop
  | .signalFinish pool => wakesOne (Client.awaitsFinish pool) woken clients = true
  | .signalEnd p => wakesOne (Client.awaitsEnd p) woken clients = true
  | _ => True

/-! ## Signals -/

theorem signal_yields {waits : Client → Bool} {woken : List Nat} {Q : Unit → System → Prop}
    (holds : wakesOne waits woken s.clients = true →
      Q () { s with clients := wakeClients waits woken s.clients }) :
    (signal waits woken).Yields s Q := by
  rw [signal, yields_step]
  intro _ s' stepped
  split at stepped
  · next wakes =>
    cases stepped
    exact holds wakes
  · cases stepped

theorem Signal.deliver_yields {woken : List Nat} {sig : Signal} :
    (sig.deliver woken).Yields s fun _ s' =>
      s'.heap = s.heap ∧ s'.shape = s.shape.receive woken sig ∧ sig.Wakes woken s.clients := by
  cases sig with
  | create pool =>
    rw [Signal.deliver, yields_update]
    exact ⟨rfl, rfl, trivial⟩
  | broadcastWork pool =>
    rw [Signal.deliver, yields_update]
    exact ⟨rfl, rfl, trivial⟩
  | signalFinish pool =>
    apply signal_yields
    intro wakes
    exact ⟨rfl, rfl, wakes⟩
  | signalEnd p =>
    rw [Signal.deliver, yields_bind]
    apply signal_yields
    intro wakes
    rw [yields_update]
    cases live : s.heap.tpTasks.cell p with
    | none =>
      have dead : s.shape.records.instances p = none := by
        show (s.heap.tpTasks.cell p).map _ = none
        rw [live]
        rfl
      simp only [Shape.receive, dead, Option.isSome_none, Bool.false_eq_true, if_false]
      exact ⟨trivial, rfl, wakes⟩
    | some t =>
      have alive : s.shape.records.instances p = some t.fields := records_instance live
      simp only [Shape.receive, alive, Option.isSome_some, if_true]
      exact ⟨trivial, rfl, wakes⟩

theorem deliver_yields {woken : List Nat} {signals : List Signal} :
    (deliver woken signals).Yields s fun _ s' => s'.heap = s.heap ∧
      s'.shape = signals.foldl (Shape.receive woken) s.shape ∧
      ∀ sig, signals = [sig] → sig.Wakes woken s.clients := by
  induction signals generalizing s with
  | nil =>
    rw [deliver, yields_pure]
    exact ⟨rfl, rfl, fun _ none => by cases none⟩
  | cons sig signals ih =>
    rw [deliver, yields_bind]
    intro _ s₁ first
    obtain ⟨heap₁, shape₁, wakes⟩ := Signal.deliver_yields _ s₁ first
    intro _ s₂ rest
    obtain ⟨heap₂, shape₂, -⟩ := ih _ s₂ rest
    constructor
    · rw [heap₂, heap₁]
    · constructor
      · rw [List.foldl_cons, ← shape₁, shape₂]
      · intro sig' single
        cases single
        exact wakes

/-! ## The code a step runs -/

/-- A call of an idle client. -/
theorem Step.ofCall {c : Nat} {function : Call} (step : Step junk s (.call c function, out) s') :
    ∃ turn, s.clients[c]? = some .idle ∧ (function.start junk).Returns s.heap turn s'.heap ∧
      out = turn.out ∧ s'.shape = turn.signals.foldl (Shape.receive []) {
        records := s'.heap.records
        workers := s.workers
        clients := s.clients.set c turn.next
        log := turn.marks ++ s.log } := by
  have yields : ((Action.call c function).run junk).Yields s fun out s' =>
      ∃ turn, s.clients[c]? = some .idle ∧ (function.start junk).Returns s.heap turn s'.heap ∧
      out = turn.out ∧ s'.shape = turn.signals.foldl (Shape.receive []) {
        records := s'.heap.records
        workers := s.workers
        clients := s.clients.set c turn.next
        log := turn.marks ++ s.log } := by
    rw [Action.run, yields_bind, yields_read]
    split
    · next idle =>
      rw [yields_bind, yields_zoom]
      intro turn h' returned
      rw [yields_bind, yields_update, yields_bind]
      intro _ s' delivered
      obtain ⟨heap, shape, -⟩ := deliver_yields _ s' delivered
      rw [yields_pure]
      have heap : s'.heap = h' := heap
      rw [heap]
      exact ⟨turn, idle, returned, rfl, shape⟩
    · exact yields_fault
  exact yields out s' step

/-- A client inside a call goes on. -/
theorem Step.ofProceed {c : Nat} {wait : WaitResult} (step : Step junk s (.proceed c wait, out) s') :
    ∃ client turn, s.clients[c]? = some client ∧ (client.proceed wait).Returns s.heap turn s'.heap ∧
      out = turn.out ∧ s'.shape = turn.signals.foldl (Shape.receive []) {
        records := s'.heap.records
        workers := s.workers
        clients := s.clients.set c turn.next
        log := turn.marks ++ s.log } := by
  have yields : ((Action.proceed c wait).run junk).Yields s fun out s' =>
      ∃ client turn, s.clients[c]? = some client ∧ (client.proceed wait).Returns s.heap turn s'.heap ∧
      out = turn.out ∧ s'.shape = turn.signals.foldl (Shape.receive []) {
        records := s'.heap.records
        workers := s.workers
        clients := s.clients.set c turn.next
        log := turn.marks ++ s.log } := by
    rw [Action.run, yields_bind, yields_read, yields_bind, yields_require]
    intro client here
    rw [yields_bind, yields_zoom]
    intro turn h' returned
    rw [yields_bind, yields_update, yields_bind]
    intro _ s' delivered
    obtain ⟨heap, shape, -⟩ := deliver_yields _ s' delivered
    rw [yields_pure]
    have heap : s'.heap = h' := heap
    rw [heap]
    exact ⟨client, turn, here, returned, rfl, shape⟩
  exact yields out s' step

/-- A worker goes on. -/
theorem Step.ofWork {w : Nat} {value : Value} {woken : List Nat}
    (step : Step junk s (.work w value woken, out) s') :
    ∃ worker turn, s.workers[w]? = some worker ∧ (worker.proceed value).Returns s.heap turn s'.heap ∧
      out = turn.out ∧ (∀ sig, turn.signals = [sig] → sig.Wakes woken s.clients) ∧
      s'.shape = turn.signals.foldl (Shape.receive woken) {
        records := s'.heap.records
        workers := s.workers.set w { worker with pc := turn.next }
        clients := s.clients
        log := turn.marks ++ s.log } := by
  have yields : ((Action.work w value woken).run junk).Yields s fun out s' =>
      ∃ worker turn, s.workers[w]? = some worker ∧ (worker.proceed value).Returns s.heap turn s'.heap ∧
      out = turn.out ∧ (∀ sig, turn.signals = [sig] → sig.Wakes woken s.clients) ∧
      s'.shape = turn.signals.foldl (Shape.receive woken) {
        records := s'.heap.records
        workers := s.workers.set w { worker with pc := turn.next }
        clients := s.clients
        log := turn.marks ++ s.log } := by
    rw [Action.run, yields_bind, yields_read, yields_bind, yields_require]
    intro worker here
    rw [yields_bind, yields_zoom]
    intro turn h' returned
    rw [yields_bind, yields_update, yields_bind]
    intro _ s' delivered
    obtain ⟨heap, shape, wakes⟩ := deliver_yields _ s' delivered
    rw [yields_pure]
    have heap : s'.heap = h' := heap
    rw [heap]
    exact ⟨worker, turn, here, returned, rfl, wakes, shape⟩
  exact yields out s' step

/-! ## Changes -/

/-- What a step can do; `first` is what `get_task` may find in a pool. -/
inductive Change (junk : Nat → Value) (first : Nat → Ptr → Prop) (s : Shape) :
    Action × Out → Shape → Prop where
  | call {c : Nat} {function : Call} {turn : Turn Client} {r' : Records} (idle : s.clients[c]? = some .idle)
      (does : Calls junk s.records function turn r') :
      Change junk first s (.call c function, turn.out) (turn.signals.foldl (Shape.receive []) {
        records := r'
        workers := s.workers
        clients := s.clients.set c turn.next
        log := turn.marks ++ s.log })
  | proceed {c : Nat} {wait : WaitResult} {client : Client} {turn : Turn Client} {r' : Records}
      (here : s.clients[c]? = some client) (does : Proceeds s.records wait client turn r') :
      Change junk first s (.proceed c wait, turn.out) {
        records := r'
        workers := s.workers
        clients := s.clients.set c turn.next
        log := turn.marks ++ s.log }
  | work {w : Nat} {value : Value} {woken : List Nat} {worker : Worker} {turn : Turn WorkerPc} {r' : Records}
      (here : s.workers[w]? = some worker)
      (does : Works s.records (first worker.pool) value worker.pool worker.pc turn r')
      (wakes : ∀ sig, turn.signals = [sig] → sig.Wakes woken s.clients) :
      Change junk first s (.work w value woken, turn.out) (turn.signals.foldl (Shape.receive woken) {
        records := r'
        workers := s.workers.set w { worker with pc := turn.next }
        clients := s.clients
        log := turn.marks ++ s.log })

/-- A client signals only in `thread_pool_push_task` and at the start of `thread_pool_delete`. -/
theorem Proceeds.silent {r r' : Records} {wait : WaitResult} {client : Client} {turn : Turn Client}
    (does : Proceeds r wait client turn r') : turn.signals = [] := by
  cases does <;> rfl

theorem Step.change {label : Action × Out} (step : Step junk s label s') :
    Change junk s.heap.first s.shape label s'.shape := by
  obtain ⟨action, out⟩ := label
  cases action with
  | call c function =>
    obtain ⟨turn, idle, returned, rfl, shape⟩ := Step.ofCall step
    rw [shape]
    exact .call idle (Call.start_yields s.heap rfl turn s'.heap returned)
  | proceed c wait =>
    obtain ⟨client, turn, here, returned, rfl, shape⟩ := Step.ofProceed step
    have does := Client.proceed_yields s.heap rfl turn s'.heap returned
    rw [shape, does.silent]
    exact .proceed here does
  | work w value woken =>
    obtain ⟨worker, turn, here, returned, rfl, wakes, shape⟩ := Step.ofWork step
    rw [shape]
    exact .work here (Worker.proceed_yields turn s'.heap returned) wakes

end SysprogLabs.Tpool
