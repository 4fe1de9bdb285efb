import SysprogLabs.Tpool.Runs

/-! # Joiners are woken up

`pthread_cond_signal` unblocks one thread, and the instance is completed once: a second
client that waits for it is left behind.
-/

namespace SysprogLabs.Tpool

section

variable {junk : Nat → Value} {first : Nat → Ptr → Prop} {s s' : Shape} {label : Action × Out}
  {waits : Client → Bool} {woken : List Nat} {clients : List Client}

theorem awaitsEnd_notify (client : Client) (p : Nat) : client.notify.awaitsEnd p = false := by
  cases client <;> rfl

theorem awaitsFinish_notify (client : Client) (P : Nat) : client.notify.awaitsFinish P = false := by
  cases client <;> rfl

/-- If at most one client waits, a signal leaves nobody behind. -/
theorem wakeClients_all (told : ∀ client : Client, waits client.notify = false) (idle : waits .idle = false)
    (wakes : wakesOne waits woken clients = true) (one : clients.countP waits ≤ 1) :
    ∀ client ∈ wakeClients waits woken clients, waits client = false := by
  intro client mem
  obtain ⟨i, inside, rfl⟩ := List.mem_mapIdx.mp mem
  split
  · exact told _
  · next asleep =>
    rw [Bool.and_eq_true, not_and] at asleep
    by_contra waiting
    rw [Bool.not_eq_false] at waiting
    rw [wakesOne, Bool.or_eq_true] at wakes
    cases wakes with
    | inl nobody =>
      have quiet := List.all_eq_true.mp nobody _ (List.getElem_mem inside)
      rw [waiting] at quiet
      cases quiet
    | inr somebody =>
      obtain ⟨c, mem_c, waits_c⟩ := List.any_eq_true.mp somebody
      have apart : i ≠ c := fun same => asleep waiting (same ▸ List.contains_iff_mem.mpr mem_c)
      -- Without the client `i` nobody is left who waits, but `c` does.
      obtain ⟨client', at_c, waiting'⟩ := (Option.any_eq_true _ _).mp waits_c
      have rest := List.countP_set (p := waits) (a := .idle) inside
      rw [if_pos waiting, idle] at rest
      have none : (clients.set i .idle).countP waits = 0 := by
        rw [rest]
        simp only [Bool.false_eq_true, if_false]
        omega
      have here : (clients.set i .idle)[c]? = some client' := by rw [List.getElem?_set_ne apart, at_c]
      exact List.countP_eq_zero.mp none client' (List.mem_of_getElem? here) waiting'

/-- Nobody is blocked un-notified on an instance that is completed. -/
def Heard (s : Shape) : Prop :=
  ∀ p, .completed p ∈ s.log → ∀ client ∈ s.clients, client.awaitsEnd p = false

theorem Heard.wake (heard : Heard s) {waits : Client → Bool} {p : Nat} (completed : .completed p ∈ s.log) :
    ∀ client ∈ wakeClients waits woken s.clients, client.awaitsEnd p = false := by
  intro client mem
  obtain ⟨old, before, same⟩ := mem_wakeClients mem
  cases same with
  | inl same => exact same ▸ heard p completed old before
  | inr woke => exact woke.2 ▸ awaitsEnd_notify old p

theorem Calls.notJoining {r r' : Records} {function : Call} {turn : Turn Client} (does : Calls junk r function turn r')
    (p : Nat) : turn.next.awaitsEnd p = false := by
  cases does with
  | @closed P c live empty =>
    by_cases threads : c.threadsCnt ≠ 0
    · simp only [if_pos threads]
      rfl
    · simp only [if_neg threads]
      rfl
  | poolRefused | poolCreated | counted | hasTasks | tooMany | pushed | taskCreated | lookedUp | notPushed
  | unpushed => rfl

/-- A client only blocks on an instance that is not finished. -/
theorem Proceeds.joining {r r' : Records} {wait : WaitResult} {client : Client} {turn : Turn Client}
    (does : Proceeds r wait client turn r') {p : Nat} (waits : turn.next.awaitsEnd p = true) :
    ∃ f, r.instances p = some f ∧ f.isFinished = false := by
  cases does with
  | @blocked _ _ q _ _ f joins found unfinished =>
    obtain rfl : q = p := beq_iff_eq.mp waits
    exact ⟨f, found, unfinished⟩
  | askedFinished | askedRunning | expired | joined | timedOut | woken | deleted | detached | released | freed
  | waitsAgain | leaves | destroyed => cases waits

theorem Change.heard (change : Change junk first s label s') (sound : Sound s) (heard : Heard s)
    (one : ∀ w value woken P p, label.1 = .work w value woken → s.workers[w]? = some ⟨P, .returned p⟩ →
      s.clients.countP (Client.awaitsEnd p) ≤ 1) : Heard s' := by
  cases change with
  | call idle does =>
    intro p completed client mem
    rw [does.sameLog] at completed
    rw [does.sameClients] at mem
    cases List.mem_or_eq_of_mem_set mem with
    | inl old => exact heard p (mem_aside does.marks_aside completed id) client old
    | inr new => exact new ▸ does.notJoining p
  | proceed here does =>
    intro p completed client mem
    have before : .completed p ∈ s.log := mem_aside does.marks_aside completed id
    cases List.mem_or_eq_of_mem_set mem with
    | inl old => exact heard p before client old
    | inr new =>
      rw [new]
      by_contra waits
      obtain ⟨f, found, unfinished⟩ := does.joining (Bool.not_eq_false _ ▸ waits)
      rw [(sound.logged.completed p before).2.2 f found] at unfinished
      cases unfinished
  | @work w value woken worker turn r' here does wakes =>
    obtain ⟨P, pc⟩ := worker
    -- The completion of `q` wakes up the only client that waits for it.
    have finishes : ∀ q, pc = .returned q → wakesOne (Client.awaitsEnd q) woken s.clients = true →
        ∀ log : List Mark, (∀ p, .completed p ∈ log → p = q ∨ .completed p ∈ s.log) →
        ∀ p, .completed p ∈ log → ∀ client ∈ wakeClients (Client.awaitsEnd q) woken s.clients,
          client.awaitsEnd p = false := by
      intro q at_pc wakes log marks p completed
      cases marks p completed with
      | inl same =>
        subst same
        exact wakeClients_all (fun client => awaitsEnd_notify client p) rfl wakes
          (one w value woken P p rfl (at_pc ▸ here))
      | inr old => exact heard.wake old
    cases does with
    | slept | picked => exact heard
    | exited => exact fun p completed => heard.wake completed
    | called => exact fun p completed => heard p (by simpa using completed)
    | stored => exact fun p completed => heard p (by simpa using completed)
    | completed found live kept =>
      refine finishes _ rfl (wakes _ rfl) _ ?_
      intro p completed
      simpa using Shape.signalEnd_log completed
    | released found live detached deletes =>
      refine finishes _ rfl (wakes _ rfl) _ ?_
      intro p completed
      simpa using Shape.signalEnd_log completed

end

variable {junk : Nat → Value} {s s' : System} {label : Action × Out}

/-- A worker completes an instance on which more than one client is blocked un-notified. -/
def System.crowded (s : System) : Action → Bool
  | .work w _ _ => match s.workers[w]? with
    | some ⟨_, .returned p⟩ => 1 < s.clients.countP (Client.awaitsEnd p)
    | _ => false
  | _ => false

/-- No instance is completed while two clients are blocked on it. -/
def OneJoiner (s : System) (label : Action × Out) (_ : System) : Prop := s.crowded label.1 = false

instance : Decidable (OneJoiner s label s') := inferInstanceAs (Decidable (_ = _))

/-- If never more than one client is blocked on an instance when it is completed, no joiner
    of a finished instance is left without a wakeup. -/
theorem joiners_woken {clients : Nat} (reachable : Reachable (StepWhen junk OneJoiner) (System.init clients) s)
    (p : Nat) (finished : .completed p ∈ s.log ∨ ∃ t, s.heap.tpTasks.cell p = some t ∧ t.isFinished = true) :
    ∀ client ∈ s.clients, client.awaitsEnd p = false := by
  have heard : Heard s.shape := by
    apply reachable_invariant reachable
    · exact nofun
    · intro s label s' sound heard step
      refine step.1.change.heard sound heard ?_
      intro w value woken P q at_w here
      have few := step.2
      rw [OneJoiner, at_w] at few
      simp only [System.crowded, show s.workers[w]? = _ from here, decide_eq_false_iff_not, Nat.not_lt] at few
      exact few
  cases finished with
  | inl completed => exact heard p completed
  | inr done =>
    obtain ⟨t, live, done⟩ := done
    exact heard p ((reachable_sound reachable).logged.finished p t.fields (System.record live) done).1

theorem joiners_woken_one : ∃ s, Reachable (StepWhen (fun _ => 9) OneJoiner) (System.init 2) s ∧
    .completed 0 ∈ s.log ∧ ∀ client ∈ s.clients, client.awaitsEnd 0 = false := by
  obtain ⟨outs, s, run, shown⟩ := replay_ends (fun _ => 9) OneJoiner 5 [.call 0 (.poolNew 1),
    .call 0 (.taskNew 7 5), .call 0 (.poolPushTask 0 0), .call 0 (.onTask .join 0), .proceed 0 .woken, .work 0 0 [],
    .work 0 0 [], .work 0 42 [], .work 0 0 [0]] (.init 2) (fun _ s => s.log.contains (.completed 0))
    (by decide +kernel)
  have completed : .completed 0 ∈ s.log := List.contains_iff_mem.mp shown
  exact ⟨s, ⟨_, run⟩, completed, joiners_woken ⟨_, run⟩ 0 (.inl completed)⟩

/-- Two clients join the only instance before it is executed. -/
def joinTwice : List Action := [.call 0 (.poolNew 1), .call 0 (.taskNew 7 5), .call 0 (.poolPushTask 0 0),
  .call 0 (.onTask .join 0), .proceed 0 .woken, .call 1 (.onTask .join 0), .proceed 1 .woken, .work 0 0 [],
  .work 0 0 [], .work 0 42 [], .work 0 0 [0]]

/-- The signal wakes up one of two joiners, and the other one stays blocked. -/
theorem joiner_left_behind : ∃ outs s, Run (Step fun _ => 9) (.init 2) (joinTwice.zip outs) s ∧
    (∃ i, s.heap.tpTasks.cell 0 = some i ∧ i.isFinished = true) ∧
    ∃ client ∈ s.clients, client.awaitsEnd 0 = true := by
  obtain ⟨outs, s, run, shown⟩ := replay_ends (fun _ => 9) (fun _ _ _ => True) 5 joinTwice (.init 2)
    (fun _ s => (s.heap.tpTasks.cell 0).any (fun i => i.isFinished) && s.clients.any (Client.awaitsEnd 0))
    (by decide +kernel)
  rw [Bool.and_eq_true, Option.any_eq_true, List.any_eq_true] at shown
  exact ⟨outs, s, run.mono fun _ _ _ step => step.1, shown.1, shown.2⟩

end SysprogLabs.Tpool
