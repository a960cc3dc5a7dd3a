import Timepiece.Link.Agenda
import Timepiece.Link.ScriptedWatch
import Timepiece.Link.Transfer

/-!
# Transfers in simulated time

One transfer after the other, against a watch whose radio takes and refuses
writes as its script says.  What the watch would answer does not matter here:
answers are handed over at moments that were entered beforehand.  Time passes
only while a transfer waits, or is let pass, and then from one moment at which
something happens to the next.

## Main definitions

* `TransferSimulation` — the watch, the slots, the present moment and the
  answers to come.
* `TransferSimulation.perform` — a transfer, until it ends.
* `TransferSimulation.pass` — lets time pass.
-/

namespace Timepiece

/-- An answer of the watch to a transfer. -/
inductive TransferAnswer where
  | ack
  | permission (granted : Bool)
  deriving DecidableEq, Repr

/-- Hands an answer to its slot. -/
def Signals.hand (signals : Signals) : TransferAnswer → Signals
  | .ack => { signals with ack := (signals.ack.fulfill ()).2 }
  | .permission granted => { signals with permission := (signals.permission.fulfill granted).2 }

/-- Transfers in simulated time. -/
structure TransferSimulation where
  config : LinkConfig
  watch : ScriptedWatch
  signals : Signals
  now : Nat
  /-- The answers to come. -/
  coming : Agenda TransferAnswer

namespace TransferSimulation

/-- Before the first transfer. -/
def start (config : LinkConfig) : TransferSimulation := ⟨config, {}, .empty, 0, []⟩

/-- Has an answer handed over some time later. -/
def schedule (s : TransferSimulation) (ms : Nat) (answer : TransferAnswer) : TransferSimulation :=
  { s with coming := s.coming.add (endOfWait s.now ms) answer }

/-- Hands over the answers that are due. -/
def settleSignals (now : Nat) (signals : Signals) :
    Agenda TransferAnswer → Signals × Agenda TransferAnswer
  | [] => (signals, [])
  | (due, answer) :: rest =>
    if due ≤ now then settleSignals now (signals.hand answer) rest
    else (signals, (due, answer) :: rest)

/-- Hands over what is due. -/
def settle (s : TransferSimulation) : TransferSimulation :=
  let (signals, coming) := settleSignals s.now s.signals s.coming
  { s with signals, coming }

/-- Lets some time pass. -/
def pass (s : TransferSimulation) (ms : Nat) : TransferSimulation :=
  { s with now := endOfWait s.now ms }.settle

/-- Lets time pass until the next answers are due, and hands over all that are due
then, if that is before the transfer goes on by itself; else lets time pass until
the transfer does. -/
def idle (s : TransferSimulation) (transfer : Transfer) : TransferSimulation :=
  match s.coming.earliest? with
  | some due =>
    if transfer.wakeup?.all (due < ·) then { s with now := max s.now due }.settle
    else { s with now := max s.now (transfer.wakeup?.getD s.now) }
  | none => { s with now := max s.now (transfer.wakeup?.getD s.now) }

/-- One step of a transfer against the watch. -/
def advance (s : TransferSimulation) (transfer : Transfer) :
    TransferProgress × TransferSimulation :=
  let step := transfer.step s.config s.now s.watch.accepts s.signals
  let watch := match step.attempt with
    | some data => (s.watch.suffer (.write data s.watch.accepts)).2
    | none => s.watch
  (step.progress, { s with watch, signals := step.signals })

/-- A transfer, until it ends or the fuel is used up.  A step of the transfer and
a wait between two steps take a unit of fuel each. -/
def performWith : Nat → TransferSimulation → Transfer → Option LinkResult × TransferSimulation
  | 0, s, _ => (none, s)
  | fuel + 1, s, transfer =>
    match s.advance transfer with
    | (.finished result, s) => (some result, s)
    | (.running transfer, s) => performWith fuel s transfer
    | (.blocked, s) => performWith fuel (s.idle transfer) transfer

/-- How much fuel a task takes at most, apart from answers that are handed over
while it waits. -/
def taskFuel (config : LinkConfig) : Task → Nat
  | .arm _ => 1
  | .write _ _ => 3 * config.attempts
  | .awaitAck => 4
  | .awaitPermission _ left => (3 * config.attempts + 16) * (left + 1)
  | .pause _ => 4

/-- Enough fuel for a transfer: what its tasks take, and a unit for every answer
that may be handed over meanwhile. -/
def fuel (s : TransferSimulation) (transfer : Transfer) : Nat :=
  (transfer.tasks.map (taskFuel s.config)).foldl (· + ·) 0 + s.coming.length + 1

/-- A transfer, until it ends; then what is due is handed over. -/
def perform (s : TransferSimulation) (transfer : Transfer) :
    Option LinkResult × TransferSimulation :=
  let (result, s) := performWith (s.fuel transfer) s transfer
  (result, s.settle)

end TransferSimulation

end Timepiece
