/-!
# The life of a connection

A connection is opened, its services are discovered, it settles, and then it can
be used.  It may be lost at any time, and may then be opened again.  The machine
here does nothing itself: to every input it answers with what has to be done.

A pause is started with the number of the present epoch.  The epoch is counted
up when the link is lost or given up, so that a pause from an earlier epoch has
no effect when it ends.

## Main definitions

* `LinkState` — what can be seen of a connection.
* `LinkInput`, `Directive` — what happens to a connection, and what has to be
  done.
* `Lifecycle` — the machine, `Lifecycle.step` its answer to one input and
  `Lifecycle.run` to many.
-/

namespace Timepiece

/-- What can be seen of a connection. -/
inductive LinkState where
  | disconnected
  | connecting
  | discovering
  | connected
  deriving DecidableEq, Repr, Inhabited

/-- The name of a state. -/
def LinkState.name : LinkState → String
  | disconnected => "disconnected"
  | connecting => "connecting"
  | discovering => "discovering services"
  | connected => "connected"

/-- What happens to a connection. -/
inductive LinkInput where
  /-- The host wants a connection. -/
  | connect (address : String)
  /-- The connection could not be started. -/
  | connectFailed
  /-- The radio reports that the link is up. -/
  | linkUp
  /-- The radio reports the end of the discovery. -/
  | servicesDiscovered (success : Bool)
  /-- The pause after a discovery is over. -/
  | settled (epoch : Nat)
  /-- The pause before the clock is set is over. -/
  | clockSyncDue (epoch : Nat)
  /-- The radio reports that the link is gone. -/
  | linkDown
  /-- The host wants no connection. -/
  | disconnect
  /-- The host gives the handle of the connection back. -/
  | close
  /-- The host says whether a lost connection is opened again. -/
  | setAutoReconnect (enabled : Bool)
  deriving DecidableEq, Repr

/-- What has to be done. -/
inductive Directive where
  /-- Open a connection afresh. -/
  | openLink (address : String)
  /-- Open the connection again through its handle. -/
  | reconnect
  | discover
  /-- Report `settled` after a pause. -/
  | scheduleSettle (epoch : Nat)
  /-- Let the watch report. -/
  | armNotifications
  /-- Forget what the watch was told. -/
  | clearPushCache
  /-- Report `clockSyncDue` after a pause. -/
  | scheduleClockSync (epoch : Nat)
  | syncClock
  | disconnect
  /-- Give the handle back. -/
  | close
  deriving DecidableEq, Repr

/-- A connection. -/
structure Lifecycle where
  state : LinkState
  /-- The address that was asked for last. -/
  address : Option String
  /-- Whether there is a handle for that address. -/
  hasHandle : Bool
  autoReconnect : Bool
  clockSync : Bool
  /-- Whether the host wants the connection to end. -/
  disconnectRequested : Bool
  epoch : Nat
  deriving DecidableEq, Repr

namespace Lifecycle

/-- A connection that was never opened. -/
def start (autoReconnect clockSync : Bool) : Lifecycle :=
  ⟨.disconnected, none, false, autoReconnect, clockSync, false, 0⟩

/-- Asks for a connection.  The address for which there is a handle is connected
again through it. -/
def connect (m : Lifecycle) (address : String) : List Directive × Lifecycle :=
  if m.hasHandle ∧ m.address = some address then
    ([.reconnect], { m with state := .connecting, disconnectRequested := false })
  else
    ([.openLink address],
      { m with state := .connecting, disconnectRequested := false, address := some address,
               hasHandle := true })

/-- The end of the pause after a discovery. -/
def settle (m : Lifecycle) (epoch : Nat) : List Directive × Lifecycle :=
  if epoch = m.epoch ∧ m.state = .discovering then
    (.armNotifications :: .clearPushCache ::
        (if m.clockSync then [.scheduleClockSync m.epoch] else []),
      { m with state := .connected })
  else ([], m)

/-- The loss of the link.  Unless the host asked for it, the connection is opened
again. -/
def lose (m : Lifecycle) : List Directive × Lifecycle :=
  let lost :=
    { m with state := .disconnected, epoch := m.epoch + 1, disconnectRequested := false }
  if m.disconnectRequested ∨ !m.autoReconnect ∨ !m.hasHandle then ([], lost)
  else
    match m.address with
    | some address => lost.connect address
    | none => ([], lost)

/-- The answer to an input. -/
def step (m : Lifecycle) : LinkInput → List Directive × Lifecycle
  | .connect address => m.connect address
  | .connectFailed => ([], { m with state := .disconnected })
  | .linkUp => ([.discover], { m with state := .discovering })
  | .servicesDiscovered success =>
    if success ∧ m.state = .discovering then ([.scheduleSettle m.epoch], m) else ([], m)
  | .settled epoch => m.settle epoch
  | .clockSyncDue epoch =>
    if epoch = m.epoch ∧ m.state = .connected then ([.syncClock], m) else ([], m)
  | .linkDown => m.lose
  | .disconnect =>
    if m.hasHandle then ([.disconnect], { m with disconnectRequested := true }) else ([], m)
  | .close =>
    if m.hasHandle then
      ([.close], { m with hasHandle := false, state := .disconnected, epoch := m.epoch + 1 })
    else ([], m)
  | .setAutoReconnect enabled => ([], { m with autoReconnect := enabled })

/-- The answers to a sequence of inputs. -/
def run (m : Lifecycle) : List LinkInput → List (List Directive) × Lifecycle
  | [] => ([], m)
  | input :: rest =>
    let (directives, next) := m.step input
    let (answers, last) := next.run rest
    (directives :: answers, last)

/-- A sequence may be run in two parts. -/
theorem run_append (m : Lifecycle) (a b : List LinkInput) :
    m.run (a ++ b) = ((m.run a).1 ++ ((m.run a).2.run b).1, ((m.run a).2.run b).2) := by
  induction a generalizing m with
  | nil => rfl
  | cons input rest ih => simp [run, ih]

end Lifecycle

end Timepiece
