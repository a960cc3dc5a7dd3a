import Mathlib
import Timepiece.Proofs.Link.SessionEffects

/-!
# How much is left to do

A piece of work takes a bounded number of steps of the worker: a write is tried a limited number of
times, a permission is asked for a limited number of times, and no wait goes on for ever.

## Main definitions

* `Task.cost`, `Transfer.cost`, `Worker.load` — how many steps a task takes at most, and how many a
  transfer, or the worker, has still to make at most.
* `Transfer.Lessens` — what a step of a transfer leaves to do.

## Main results

* `Transfer.lessens_step`, `Session.load_step` — **every step leaves less to do, or waits for a
  moment that is to come**.
* `Session.config_step` — the settings, on which it depends how much that is, stay.
-/

namespace Timepiece

/-! ### Transfers -/

namespace Task

/-- How many steps a task may take, with those that are added if a request is refused. -/
def cost (config : LinkConfig) : Task → Nat
  | .arm _ => 1
  | .write _ _ => config.attempts
  | .awaitAck => 2
  | .awaitPermission _ left => 2 + (left - 1) * (config.attempts + 5)
  | .pause _ => 2

/-- How many steps of a task were made. -/
def made : Task → TaskMode → Nat
  | .write _ _, .resting attempts _ => attempts
  | .awaitAck, .waiting _ => 1
  | .awaitPermission _ _, .waiting _ => 1
  | .pause _, .pausing _ => 1
  | _, _ => 0

/-- How many steps some tasks may take. -/
def costs (config : LinkConfig) : List Task → Nat
  | [] => 0
  | task :: rest => task.cost config + costs config rest

variable {config : LinkConfig}

theorem cost_pos (task : Task) : 0 < task.cost config := by
  cases task with
  | write =>
    rw [cost, LinkConfig.attempts]
    omega
  | arm | awaitAck | awaitPermission | pause =>
    rw [cost]
    omega

@[simp] theorem costs_append (tasks rest : List Task) :
    costs config (tasks ++ rest) = costs config tasks + costs config rest := by
  induction tasks with
  | nil => exact (Nat.zero_add _).symm
  | cons task tasks ih =>
    rw [List.cons_append, costs, costs, ih]
    omega

/-- A request that is refused leaves less to do. -/
theorem costs_again (config : LinkConfig) (request : Bytes) {left : Nat} (ms : Nat) (h : 1 < left) :
    costs config (.pause ms :: Transfer.requestTasks request (left - 1)) + 1 =
      (Task.awaitPermission request left).cost config - 1 := by
  obtain ⟨count, rfl⟩ : ∃ count, left = count + 2 := ⟨left - 2, by omega⟩
  have hsucc : (count + 1) * (config.attempts + 5) =
      count * (config.attempts + 5) + (config.attempts + 5) := Nat.succ_mul _ _
  simp only [costs, cost, Transfer.requestTasks, Nat.add_sub_cancel,
    show count + 2 - 1 = count + 1 by omega]
  omega

end Task

namespace Transfer

variable {config : LinkConfig} {now : Nat} {taken : Bool} {signals : Signals} {t : Transfer}
  {rest : List Task}

/-- How many steps a transfer has still to make at most. -/
def cost (config : LinkConfig) (t : Transfer) : Nat :=
  match t.tasks with
  | [] => 0
  | task :: rest => max 1 (task.cost config - task.made t.mode) + Task.costs config rest

/-- What a step leaves to do: less than before, or as much, as it waits for a moment that is to
come; or the transfer has ended. -/
inductive Lessens (config : LinkConfig) (now : Nat) (t : Transfer) : TransferProgress → Prop
  | runs {next : Transfer} : next.cost config < t.cost config → Lessens config now t (.running next)
  | waits {due : Nat} : t.wakeup? = some due → now < due → Lessens config now t .blocked
  | ends {result : LinkResult} : Lessens config now t (.finished result)

theorem cost_of_ready (h : t.mode = .ready) : t.cost config = Task.costs config t.tasks := by
  obtain ⟨tasks, mode, ticket⟩ := t
  obtain rfl : mode = .ready := h
  cases tasks with
  | nil => rfl
  | cons task rest =>
    have hpos : 0 < task.cost config := Task.cost_pos task
    have hmade : task.made .ready = 0 := by cases task <;> rfl
    show max 1 (task.cost config - task.made .ready) + _ = task.cost config + _
    rw [hmade]
    omega

/-- With a task that is done there is less to do. -/
theorem lessens_proceed {task : Task} {t' : Transfer} (h : t.tasks = task :: rest) :
    Lessens config now t (t'.proceed rest) := by
  cases rest with
  | nil => exact .ends
  | cons next rest =>
    refine .runs ?_
    rw [cost_of_ready rfl]
    show Task.costs config (next :: rest) < t.cost config
    rw [cost, h]
    dsimp only
    omega

/-- With a step of a task that is not done there is less to do of that. -/
theorem lessens_same {task : Task} {mode : TaskMode} (h : t.tasks = task :: rest)
    (hmade : task.made t.mode < task.made mode) (hcost : task.made mode < task.cost config) :
    Lessens config now t (.running { t with mode }) := by
  refine .runs ?_
  simp only [cost, h]
  omega

/-- When a wait begins, a step of it was made. -/
theorem lessens_begins {task : Task} {mode : TaskMode} (h : t.tasks = task :: rest)
    (hnone : task.made t.mode = 0) (hone : task.made mode = 1) (hcost : 1 < task.cost config) :
    Lessens config now t (.running { t with mode }) := by
  refine lessens_same h ?_ ?_
  · rw [hnone, hone]
    exact Nat.zero_lt_one
  · rw [hone]
    exact hcost

theorem lessens_attemptWrite {attempts : Nat} {data : Bytes} {guard : Option SignalSlot}
    (h : t.tasks = .write data guard :: rest)
    (hattempts : (Task.write data guard).made t.mode = attempts) :
    Lessens config now t
      (attemptWrite config now taken signals t attempts data guard rest).progress := by
  unfold attemptWrite
  split
  · exact lessens_proceed h
  · split
    · next hmore =>
      refine lessens_same h ?_ hmore
      rw [hattempts]
      exact Nat.lt_succ_self attempts
    · exact .ends

theorem lessens_write {data : Bytes} {guard : Option SignalSlot}
    (h : t.tasks = .write data guard :: rest) :
    Lessens config now t (stepWrite config now taken signals t data guard rest).progress := by
  unfold stepWrite
  split
  · next attempts due hmode =>
    split
    · next hwait =>
      have hdue : t.wakeup? = some due := by rw [wakeup?, hmode]
      exact .waits hdue hwait
    · exact lessens_attemptWrite h (by rw [hmode]; rfl)
  · next hmode =>
    refine lessens_attemptWrite h ?_
    cases hready : t.mode with
    | resting attempts due => exact absurd hready (hmode attempts due)
    | ready | waiting | pausing => rfl

/-- A wait that goes on ends when its time is up. -/
theorem lt_of_await_none {α : Type} {r : Rendezvous α} {ticket deadline : Nat}
    (h : r.await? ticket (deadline ≤ now) = none) : now < deadline := by
  unfold Rendezvous.await? at h
  split at h
  · exact nomatch h
  · exact nomatch h
  · split at h
    · exact nomatch h
    · next hearly => exact Nat.not_le.1 (by simpa using hearly)

theorem lessens_ack (h : t.tasks = .awaitAck :: rest) :
    Lessens config now t (stepAck config now signals t rest).progress := by
  unfold stepAck
  split
  · next deadline hmode =>
    have hdue : t.wakeup? = some deadline := by rw [wakeup?, hmode]
    split
    · next hawait => exact .waits hdue (lt_of_await_none hawait)
    · exact lessens_proceed h
    · exact .ends
  · next hmode =>
    refine lessens_begins h ?_ rfl Nat.one_lt_two
    cases hbefore : t.mode with
    | waiting deadline => exact absurd hbefore (hmode deadline)
    | ready | resting | pausing => rfl

theorem lessens_permission {request : Bytes} {left : Nat}
    (h : t.tasks = .awaitPermission request left :: rest) :
    Lessens config now t (stepPermission config now signals t request left rest).progress := by
  unfold stepPermission
  split
  · next deadline hmode =>
    have hdue : t.wakeup? = some deadline := by rw [wakeup?, hmode]
    split
    · next hawait => exact .waits hdue (lt_of_await_none hawait)
    · exact lessens_proceed h
    · split
      · next hleft =>
        refine .runs ?_
        -- the request is made once more
        have hagain := Task.costs_again config request config.permissionRetry hleft
        rw [cost_of_ready rfl]
        simp only [cost, h, hmode, Task.made, Task.costs_append]
        omega
      · exact .ends
    · exact .ends
  · next hmode =>
    refine lessens_begins h ?_ rfl (Nat.lt_add_right _ Nat.one_lt_two)
    cases hbefore : t.mode with
    | waiting deadline => exact absurd hbefore (hmode deadline)
    | ready | resting | pausing => rfl

theorem lessens_pause {ms : Nat} (h : t.tasks = .pause ms :: rest) :
    Lessens config now t (stepPause now signals t ms rest).progress := by
  unfold stepPause
  split
  · next due hmode =>
    split
    · next hwait =>
      have hdue : t.wakeup? = some due := by rw [wakeup?, hmode]
      exact .waits hdue hwait
    · exact lessens_proceed h
  · next hmode =>
    refine lessens_begins h ?_ rfl Nat.one_lt_two
    cases hbefore : t.mode with
    | pausing due => exact absurd hbefore (hmode due)
    | ready | resting | waiting => rfl

/-- **Every step leaves less to do, or waits for a moment that is to come.** -/
theorem lessens_step (config : LinkConfig) (now : Nat) (taken : Bool) (signals : Signals)
    (t : Transfer) : Lessens config now t (t.step config now taken signals).progress := by
  unfold step
  split
  · exact .ends
  · next htasks => exact lessens_proceed htasks
  · next htasks => exact lessens_write htasks
  · next htasks => exact lessens_ack htasks
  · next htasks => exact lessens_permission htasks
  · next htasks => exact lessens_pause htasks

end Transfer

/-! ### The worker -/

/-- How many steps may follow when a transfer ends. -/
def Purpose.load (config : LinkConfig) : Purpose → Nat
  | .push _ _ pending => 1 + pending.length * (config.attempts + 2)
  | _ => 0

namespace Worker

/-- How many steps the worker has still to make at most. -/
def load (config : LinkConfig) : Worker → Nat
  | .idle => 0
  | .pushing pending => 1 + pending.length * (config.attempts + 2)
  | .transferring purpose transfer => purpose.load config + 1 + transfer.cost config

/-- The moment until which the worker waits. -/
def due? : Worker → Option Nat
  | .transferring _ transfer => transfer.wakeup?
  | _ => none

end Worker

namespace Session

variable {s : Session}

/-- After a transfer the worker has less to do. -/
theorem load_conclude (config : LinkConfig) (s : Session) (purpose : Purpose)
    (result : LinkResult) :
    (s.conclude purpose result).2.worker.load config = purpose.load config := by
  cases purpose <;> cases result <;> rfl

theorem load_advance {purpose : Purpose} {transfer : Transfer} (luck : Luck)
    (hworker : s.worker = .transferring purpose transfer) :
    (s.advance luck purpose transfer).2.worker.load s.config < s.worker.load s.config ∨
      (s.advance luck purpose transfer).2.worker = s.worker ∧
        ∃ due, s.worker.due? = some due ∧ s.now < due := by
  have hlessens := Transfer.lessens_step s.config s.now luck.accepts s.signals transfer
  rw [hworker]
  unfold advance
  generalize transfer.step s.config s.now luck.accepts s.signals = step at hlessens ⊢
  obtain ⟨progress, signals, attempt⟩ := step
  cases hlessens with
  | runs hless => exact .inl (Nat.add_lt_add_left hless _)
  | waits hdue hearly => exact .inr ⟨hworker, _, hdue, hearly⟩
  | ends =>
    refine .inl ?_
    dsimp only
    rw [load_conclude, Worker.load]
    omega

/-- Looking at a property leaves less to do. -/
theorem load_pushOne (s : Session) (entry : Nat × Property) (pending : List (Nat × Property)) :
    (s.pushOne entry.1 entry.2 pending).worker.load s.config <
      (Worker.pushing (entry :: pending)).load s.config := by
  have hsucc : (pending.length + 1) * (s.config.attempts + 2) =
      pending.length * (s.config.attempts + 2) + (s.config.attempts + 2) := Nat.succ_mul _ _
  obtain ⟨-, hnext⟩ | ⟨-, hnext⟩ := s.pushOne_cases entry pending
  · rw [hnext]
    simp only [Worker.load, List.length_cons]
    omega
  · rw [hnext]
    have hcost : (Transfer.ofWrite (Command.setProperty (UInt8.ofNat entry.1)
        (Value.encode entry.2 (s.services.value entry.2.key))).encode).cost s.config =
          s.config.attempts := Transfer.cost_of_ready rfl
    simp only [Worker.load, Purpose.load, List.length_cons, hcost]
    omega

/-- **Every step of the worker leaves less to do, or waits for a moment that is to come.** -/
theorem load_step (luck : Luck) (move : Move) (hbusy : s.worker ≠ .idle) :
    (s.step luck move).2.worker.load s.config < s.worker.load s.config ∨
      (s.step luck move).2.worker = s.worker ∧
        (move = .work → ∃ due, s.worker.due? = some due ∧ s.now < due) := by
  by_cases hwork : move = .work
  · subst hwork
    show (s.work luck).2.worker.load s.config < s.worker.load s.config ∨
      (s.work luck).2.worker = s.worker ∧ _
    cases hworker : s.worker with
    | idle => exact absurd hworker hbusy
    | pushing pending =>
      refine .inl ?_
      cases pending with
      | nil =>
        rw [work_of_done hworker]
        show 0 < 1 + _
        omega
      | cons entry pending =>
        rw [work_of_pending hworker]
        exact s.load_pushOne entry pending
    | transferring purpose transfer =>
      rw [work_of_transfer hworker, ← hworker]
      exact (load_advance luck hworker).imp_right fun hwaits => ⟨hwaits.1, fun _ => hwaits.2⟩
  · exact .inr ⟨worker_step luck s hwork, fun h => absurd h hwork⟩

/-! ### The settings -/

theorem config_tell (luck : Luck) (s : Session) (input : LinkInput) :
    (s.tell luck input).2.2.config = s.config := by
  obtain ⟨lifecycle, alarms, cache, queue, htell⟩ := tell_eq luck s input
  rw [htell]

theorem config_receive (luck : Luck) (s : Session) (event : RadioEvent) :
    (s.receive luck event).2.config = s.config := by
  obtain ⟨input, hreceive⟩ | ⟨id, hreceive⟩ | ⟨signals, hreceive, -⟩ :=
    receive_cases luck s event
  · rw [hreceive]
    exact config_tell luck s input
  · obtain ⟨queue, hactivate⟩ := s.activate_eq id
    rw [hreceive, hactivate]
  · rw [hreceive]

theorem config_advance {purpose : Purpose} {transfer : Transfer} (luck : Luck)
    (hworker : s.worker = .transferring purpose transfer) :
    (s.advance luck purpose transfer).2.config = s.config := by
  obtain ⟨signals, written, -, ⟨next, hnext⟩ | ⟨result, hnext⟩⟩ :=
    s.advance_cases luck purpose transfer hworker
  · rw [hnext]
  · rw [hnext]
    obtain ⟨-, handler, hlast⟩ | ⟨key, value, pending, cache, -, -, hlast⟩ :=
      (conclude_cases { s with signals } purpose result).2
    · rw [hlast]
    · rw [hlast]

/-- The settings stay with every move. -/
theorem config_step (luck : Luck) (s : Session) (move : Move) :
    (s.step luck move).2.config = s.config := by
  cases move with
  | submit job =>
    show (s.submit job).config = s.config
    obtain ⟨queue, senders, hsubmit⟩ := s.submit_eq job
    rw [hsubmit]
  | offer job =>
    show (s.offer job).config = s.config
    obtain ⟨queue, hoffer⟩ := s.offer_eq job
    rw [hoffer]
  | enter | wait | services => rfl
  | request request =>
    show (s.requested luck request).2.config = s.config
    obtain ⟨input, hrequested⟩ := requested_eq luck s request
    rw [hrequested]
    exact config_tell luck s input
  | radio event => exact config_receive luck s event
  | alarm =>
    show (s.ring luck).2.config = s.config
    obtain ⟨lifecycle, alarms, cache, queue, hring⟩ := ring_eq luck s
    rw [hring]
  | work =>
    have hworks := works_work luck s
    show (s.work luck).2.config = s.config
    generalize s.work luck = result at hworks ⊢
    cases hworks with
    | rests | ends => rfl
    | @takes job rest =>
      obtain ⟨worker, hnext, -⟩ := (took_begin luck (s.shifted rest) job).next
      rw [hnext]
      rfl
    | @looks entry pending =>
      obtain ⟨-, hnext⟩ | ⟨-, hnext⟩ := s.pushOne_cases entry pending
      · rw [hnext]
      · rw [hnext]
    | advances hworker => exact config_advance luck hworker

theorem config_after (s : Session) (moves : List (Luck × Move)) :
    (s.after moves).config = s.config := by
  induction moves using List.reverseRecOn with
  | nil => rfl
  | append_singleton past last ih =>
    obtain ⟨luck, move⟩ := last
    rw [after_concat, config_step, ih]
end Session

end Timepiece
