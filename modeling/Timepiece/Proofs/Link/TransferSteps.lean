import Mathlib
import Timepiece.Link.Transfer

/-!
# What a step of a transfer can do

A step does one of few things, depending on the first task.  What it does is said here once
for each task.

## Main definitions

* `Transfer.Attempts` — what can become of a write.
* `Transfer.Awaits` — what can become of a wait for an acknowledgement.
* `Transfer.Asks` — what can become of a wait for the answer to a request.
* `Transfer.Pauses` — what can become of a pause.

## Main results

* `Transfer.step_arm_slot`, `Transfer.attempts_step`, `Transfer.awaits_step`,
  `Transfer.asks_step`, `Transfer.pauses_step` — **a step does one of these things**.
-/

namespace Timepiece

namespace Transfer

variable {config : LinkConfig} {now : Nat} {taken : Bool} {signals : Signals} {t : Transfer}
  {rest : List Task}

theorem proceed_of_ne_nil (h : rest ≠ []) :
    t.proceed rest = .running { t with tasks := rest, mode := .ready } := by
  cases rest with
  | nil => exact absurd rfl h
  | cons => rfl

/-- The step that arms a slot. -/
theorem step_arm_slot {slot : SignalSlot} (h : t.tasks = .arm slot :: rest) (hrest : rest ≠ []) :
    t.step config now taken signals =
      ⟨.running ⟨rest, .ready, (signals.arm slot).1⟩, (signals.arm slot).2, none⟩ := by
  rw [step, h]
  show TransferStep.mk (proceed _ rest) _ _ = _
  rw [proceed_of_ne_nil hrest]
  cases slot <;> rfl

/-- The step that arms the slot for acknowledgements. -/
theorem step_arm (h : t.tasks = .arm .ack :: rest) (hrest : rest ≠ []) :
    t.step config now taken signals =
      ⟨.running ⟨rest, .ready, signals.ack.next⟩, { signals with ack := signals.ack.arm.2 },
        none⟩ :=
  step_arm_slot h hrest

/-- An attempt to write is taken and ends the task, or is refused and repeated later, or
is refused for good. -/
inductive Attempts (t : Transfer) (taken : Bool) (signals : Signals) (data : Bytes)
    (guard : Option SignalSlot) (rest : List Task) : TransferStep → Prop
  | rest : Attempts t taken signals data guard rest ⟨.blocked, signals, none⟩
  | taken : taken = true → Attempts t taken signals data guard rest
    ⟨t.proceed rest, signals, some data⟩
  | again {mode : TaskMode} : taken = false → Attempts t taken signals data guard rest
    ⟨.running { t with mode }, signals, some data⟩
  | refused {count : Nat} : taken = false → Attempts t taken signals data guard rest
    ⟨.finished (.error (.writeFailed count)), guard.elim signals (signals.giveUp t.ticket),
      some data⟩

theorem attempts_attemptWrite {attempts : Nat} {data : Bytes} {guard : Option SignalSlot} :
    Attempts t taken signals data guard rest
      (attemptWrite config now taken signals t attempts data guard rest) := by
  unfold attemptWrite
  split
  · next h => exact .taken h
  · next h =>
    have hrefused : taken = false := Bool.eq_false_iff.2 h
    split
    · exact .again hrefused
    · cases guard with
      | none => exact .refused hrefused
      | some slot => exact .refused hrefused

theorem attempts_step {data : Bytes} {guard : Option SignalSlot}
    (h : t.tasks = .write data guard :: rest) :
    Attempts t taken signals data guard rest (t.step config now taken signals) := by
  rw [step, h]
  show Attempts t taken signals data guard rest
    (stepWrite config now taken signals t data guard rest)
  -- a pause is over or goes on; without one the attempt is made at once
  unfold stepWrite
  split
  · split
    · exact .rest
    · exact attempts_attemptWrite
  · exact attempts_attemptWrite

/-- A wait for an acknowledgement begins, goes on, or ends with one or without. -/
inductive Awaits (t : Transfer) (signals : Signals) (rest : List Task) : TransferStep → Prop
  | begins {mode : TaskMode} : Awaits t signals rest ⟨.running { t with mode }, signals, none⟩
  | goesOn : Awaits t signals rest ⟨.blocked, signals, none⟩
  | released {ack : Rendezvous Unit} {timeUp : Bool} :
    signals.ack.await? t.ticket timeUp = some (some (), ack) →
    Awaits t signals rest ⟨t.proceed rest, { signals with ack }, none⟩
  | missing {ack : Rendezvous Unit} {timeUp : Bool} {fault : LinkFault} :
    signals.ack.await? t.ticket timeUp = some (none, ack) →
    Awaits t signals rest ⟨.finished (.error fault), { signals with ack }, none⟩

theorem awaits_step (h : t.tasks = .awaitAck :: rest) :
    Awaits t signals rest (t.step config now taken signals) := by
  rw [step, h]
  show Awaits t signals rest (stepAck config now signals t rest)
  -- the time begins to run with the first step of the wait
  unfold stepAck
  split
  · split
    · exact .goesOn
    · next hawait => exact .released hawait
    · next hawait => exact .missing hawait
  · exact .begins

/-- A wait for the answer to a request begins, goes on, or ends: with a permission, with a
refusal after which the request is repeated or not, or without an answer. -/
inductive Asks (config : LinkConfig) (t : Transfer) (signals : Signals) (request : Bytes)
    (left : Nat) (rest : List Task) : TransferStep → Prop
  | begins {mode : TaskMode} : Asks config t signals request left rest
    ⟨.running { t with mode }, signals, none⟩
  | goesOn : Asks config t signals request left rest ⟨.blocked, signals, none⟩
  | granted {permission : Rendezvous Bool} {timeUp : Bool} :
    signals.permission.await? t.ticket timeUp = some (some true, permission) →
    Asks config t signals request left rest ⟨t.proceed rest, { signals with permission }, none⟩
  | again {permission : Rendezvous Bool} {timeUp : Bool} : 1 < left →
    signals.permission.await? t.ticket timeUp = some (some false, permission) →
    Asks config t signals request left rest
      ⟨.running { t with
          tasks := .pause config.permissionRetry :: requestTasks request (left - 1) ++ rest
          mode := .ready }, { signals with permission }, none⟩
  | denied {permission : Rendezvous Bool} {timeUp : Bool} : left ≤ 1 →
    signals.permission.await? t.ticket timeUp = some (some false, permission) →
    Asks config t signals request left rest
      ⟨.finished (.error (.permissionDenied config.requests)), { signals with permission }, none⟩
  | missing {permission : Rendezvous Bool} {timeUp : Bool} :
    signals.permission.await? t.ticket timeUp = some (none, permission) →
    Asks config t signals request left rest
      ⟨.finished (.error (.permissionTimeout config.permissionTimeout)),
        { signals with permission }, none⟩

theorem asks_step {request : Bytes} {left : Nat}
    (h : t.tasks = .awaitPermission request left :: rest) :
    Asks config t signals request left rest (t.step config now taken signals) := by
  rw [step, h]
  show Asks config t signals request left rest
    (stepPermission config now signals t request left rest)
  unfold stepPermission
  split
  · split
    · exact .goesOn
    · next hawait => exact .granted hawait
    · next hawait =>
      split
      · next hleft => exact .again hleft hawait
      · next hleft => exact .denied (Nat.not_lt.1 hleft) hawait
    · next hawait => exact .missing hawait
  · exact .begins

/-- A pause begins, goes on, or is over. -/
inductive Pauses (t : Transfer) (signals : Signals) (rest : List Task) : TransferStep → Prop
  | begins {mode : TaskMode} : Pauses t signals rest ⟨.running { t with mode }, signals, none⟩
  | goesOn : Pauses t signals rest ⟨.blocked, signals, none⟩
  | ends : Pauses t signals rest ⟨t.proceed rest, signals, none⟩

theorem pauses_step {ms : Nat} (h : t.tasks = .pause ms :: rest) :
    Pauses t signals rest (t.step config now taken signals) := by
  rw [step, h]
  show Pauses t signals rest (stepPause now signals t ms rest)
  unfold stepPause
  split
  · split
    · exact .goesOn
    · exact .ends
  · exact .begins

end Transfer

end Timepiece
