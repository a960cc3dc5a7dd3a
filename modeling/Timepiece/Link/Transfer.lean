import Timepiece.Link.Agenda
import Timepiece.Link.Config
import Timepiece.Link.Framing
import Timepiece.Link.Notification
import Timepiece.Link.Rendezvous

/-!
# Transfers

A transfer is a row of writes with waits between them.  A write that is refused
is tried again after a pause that grows with every attempt.  A bulk upload waits
for an acknowledgement after its first write and after every chunk; a
notification is sent once the watch permits it, and a refusal is followed by a
new request.

A transfer advances in small steps, each of which makes at most one attempt to
write.  Between two steps anything may happen: time may pass, and answers may be
handed to the slots.

## Main definitions

* `Task` — one thing to do in a transfer.
* `Transfer` — what is left to do, and what is being waited for.
* `Transfer.step` — one step.
* `Transfer.ofWrite`, `Transfer.ofUpload`, `Transfer.ofNotification` — the
  transfers there are.
-/

namespace Timepiece

/-- The answers that transfers wait for. -/
structure Signals where
  ack : Rendezvous Unit
  permission : Rendezvous Bool
  deriving DecidableEq, Repr

/-- Which of the two slots. -/
inductive SignalSlot where
  | ack
  | permission
  deriving DecidableEq, Repr

namespace Signals

/-- Neither slot was ever armed. -/
def empty : Signals := ⟨.empty, .empty⟩

/-- Arms a slot. -/
def arm (signals : Signals) : SignalSlot → Nat × Signals
  | .ack =>
    let (ticket, ack) := signals.ack.arm
    (ticket, { signals with ack })
  | .permission =>
    let (ticket, permission) := signals.permission.arm
    (ticket, { signals with permission })

/-- Gives a slot up: it is disarmed, and what was handed over for a ticket is
thrown away. -/
def giveUp (signals : Signals) (ticket : Nat) : SignalSlot → Signals
  | .ack => { signals with ack := (signals.ack.drop ticket).disarm }
  | .permission => { signals with permission := (signals.permission.drop ticket).disarm }

end Signals

/-- One thing to do in a transfer. -/
inductive Task where
  /-- Arm a slot. -/
  | arm (slot : SignalSlot)
  /-- Write.  If that fails for good, the slot that is armed for the answer is
  given up. -/
  | write (data : Bytes) (guard : Option SignalSlot)
  /-- Wait for an acknowledgement. -/
  | awaitAck
  /-- Wait for the answer to a request, which was made that it may still be made
  `left` times, this one included. -/
  | awaitPermission (request : Bytes) (left : Nat)
  /-- Let some time pass. -/
  | pause (ms : Nat)
  deriving DecidableEq, Repr

/-- How far the first of the tasks has come. -/
inductive TaskMode where
  /-- Nothing was done yet. -/
  | ready
  /-- A write was refused some times and is tried again at a given moment. -/
  | resting (attempts : Nat) (due : Nat)
  /-- An answer is waited for until a given moment. -/
  | waiting (deadline : Nat)
  /-- A pause lasts until a given moment. -/
  | pausing (due : Nat)
  deriving DecidableEq, Repr

/-- A transfer: what is left to do, how far the first task has come, and the
ticket of the slot that was armed last. -/
structure Transfer where
  tasks : List Task
  mode : TaskMode
  ticket : Nat
  deriving DecidableEq, Repr

/-- The result of a request. -/
abbrev LinkResult := Except LinkFault Unit

/-- Where a transfer stands after a step. -/
inductive TransferProgress where
  | running (transfer : Transfer)
  /-- Nothing can be done before time passes or an answer comes. -/
  | blocked
  | finished (result : LinkResult)

/-- What a step did. -/
structure TransferStep where
  progress : TransferProgress
  signals : Signals
  /-- The attempt to write that was made, if one was. -/
  attempt : Option Bytes

namespace Transfer

/-- A transfer that has not begun. -/
def ofTasks (tasks : List Task) : Transfer := ⟨tasks, .ready, 0⟩

/-! ### The transfers there are -/

/-- A single write. -/
def ofWrite (data : Bytes) : Transfer := ofTasks [.write data none]

/-- The writes of a unit of an upload, and the wait for its acknowledgement. -/
def unitTasks (writes : List Bytes) : List Task :=
  .arm .ack :: writes.map (fun data => .write data (some .ack)) ++ [.awaitAck]

/-- The tasks of a bulk upload. -/
def uploadTasks (payload : Bytes) : List Task :=
  unitTasks [initUpload] ++ (uploadPlan payload).flatMap unitTasks ++ [.write commitUpload none]

/-- A bulk upload. -/
def ofUpload (payload : Bytes) : Transfer := ofTasks (uploadTasks payload)

/-- The tasks of a request that may be made some times. -/
def requestTasks (request : Bytes) (left : Nat) : List Task :=
  [.arm .permission, .write request (some .permission), .awaitPermission request left]

/-- The tasks of a notification, once it is permitted. -/
def dataTasks (payload : Bytes) : List Task :=
  (notificationPackets payload).map (fun data => .write data none) ++
    [.write Command.commitNotification.encode none]

/-- The request to send a notification of a given size. -/
def notificationRequest (payload : Bytes) : Bytes :=
  (Command.announceNotification (UInt16.ofNat payload.length)).encode

/-- A notification.  Its size has to be announced in two bytes. -/
def ofNotification (config : LinkConfig) (payload : Bytes) : Except LinkFault Transfer :=
  if payload.length ≤ maxAnnounced then
    .ok (ofTasks (requestTasks (notificationRequest payload) config.requests ++ dataTasks payload))
  else .error (.payloadTooLarge payload.length)

/-! ### Steps -/

/-- The transfer with its first task done. -/
def proceed (t : Transfer) (rest : List Task) : TransferProgress :=
  match rest with
  | [] => .finished (.ok ())
  | rest => .running { t with tasks := rest, mode := .ready }

/-- One attempt to write, after some that were refused. -/
def attemptWrite (config : LinkConfig) (now : Nat) (accepted : Bool) (signals : Signals)
    (t : Transfer) (attempts : Nat) (data : Bytes) (guard : Option SignalSlot)
    (rest : List Task) : TransferStep :=
  if accepted then ⟨t.proceed rest, signals, some data⟩
  else if attempts + 1 < config.attempts then
    ⟨.running { t with
        mode := .resting (attempts + 1) (endOfWait now (LinkConfig.retryDelay attempts)) },
      signals, some data⟩
  else
    ⟨.finished (.error (.writeFailed config.attempts)),
      (match guard with
        | some slot => signals.giveUp t.ticket slot
        | none => signals),
      some data⟩

/-- A write: the first attempt at once, a later one when its pause is over. -/
def stepWrite (config : LinkConfig) (now : Nat) (accepted : Bool) (signals : Signals)
    (t : Transfer) (data : Bytes) (guard : Option SignalSlot) (rest : List Task) : TransferStep :=
  match t.mode with
  | .resting attempts due =>
    if now < due then ⟨.blocked, signals, none⟩
    else attemptWrite config now accepted signals t attempts data guard rest
  | _ => attemptWrite config now accepted signals t 0 data guard rest

/-- A wait for an acknowledgement. -/
def stepAck (config : LinkConfig) (now : Nat) (signals : Signals) (t : Transfer)
    (rest : List Task) : TransferStep :=
  match t.mode with
  | .waiting deadline =>
    match signals.ack.await? t.ticket (deadline ≤ now) with
    | none => ⟨.blocked, signals, none⟩
    | some (some _, ack) => ⟨t.proceed rest, { signals with ack }, none⟩
    | some (none, ack) =>
      ⟨.finished (.error (.ackTimeout config.ackTimeout)), { signals with ack }, none⟩
  | _ => ⟨.running { t with mode := .waiting (endOfWait now config.ackTimeout) }, signals, none⟩

/-- A wait for the answer to a request. -/
def stepPermission (config : LinkConfig) (now : Nat) (signals : Signals) (t : Transfer)
    (request : Bytes) (left : Nat) (rest : List Task) : TransferStep :=
  match t.mode with
  | .waiting deadline =>
    match signals.permission.await? t.ticket (deadline ≤ now) with
    | none => ⟨.blocked, signals, none⟩
    | some (some true, permission) => ⟨t.proceed rest, { signals with permission }, none⟩
    | some (some false, permission) =>
      if 1 < left then
        ⟨.running { t with
            tasks := .pause config.permissionRetry :: requestTasks request (left - 1) ++ rest
            mode := .ready },
          { signals with permission }, none⟩
      else ⟨.finished (.error (.permissionDenied config.requests)), { signals with permission }, none⟩
    | some (none, permission) =>
      ⟨.finished (.error (.permissionTimeout config.permissionTimeout)), { signals with permission },
        none⟩
  | _ => ⟨.running { t with mode := .waiting (endOfWait now config.permissionTimeout) }, signals, none⟩

/-- A pause. -/
def stepPause (now : Nat) (signals : Signals) (t : Transfer) (ms : Nat) (rest : List Task) :
    TransferStep :=
  match t.mode with
  | .pausing due => if now < due then ⟨.blocked, signals, none⟩ else ⟨t.proceed rest, signals, none⟩
  | _ => ⟨.running { t with mode := .pausing (endOfWait now ms) }, signals, none⟩

/-- One step at a given moment.  If it makes an attempt to write, `accepted` says
whether the radio takes it. -/
def step (config : LinkConfig) (now : Nat) (accepted : Bool) (signals : Signals) (t : Transfer) :
    TransferStep :=
  match t.tasks with
  | [] => ⟨.finished (.ok ()), signals, none⟩
  | .arm slot :: rest =>
    let (ticket, signals) := signals.arm slot
    ⟨{ t with ticket }.proceed rest, signals, none⟩
  | .write data guard :: rest => stepWrite config now accepted signals t data guard rest
  | .awaitAck :: rest => stepAck config now signals t rest
  | .awaitPermission request left :: rest => stepPermission config now signals t request left rest
  | .pause ms :: rest => stepPause now signals t ms rest

/-- The moment at which a transfer that waits goes on by itself. -/
def wakeup? (t : Transfer) : Option Nat :=
  match t.mode with
  | .ready => none
  | .resting _ due => some due
  | .waiting deadline => some deadline
  | .pausing due => some due

end Transfer

end Timepiece
