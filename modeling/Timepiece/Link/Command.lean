import Timepiece.Link.Calendar
import Timepiece.Link.Fault

/-!
# Commands to the watch

What the host writes to the watch outside of bulk uploads: an opcode and its
arguments.

## Main definitions

* `Command` — a command, and `Command.encode`, its bytes.
* `Command.setTime?` — the command that sets the clock.
-/

namespace Timepiece

/-- A command to the watch. -/
inductive Command where
  /-- Sets the clock, in seconds of local time. -/
  | setTime (seconds : UInt32)
  /-- Announces a notification of a given size. -/
  | announceNotification (size : UInt16)
  /-- A piece of a notification. -/
  | notificationData (data : Bytes)
  /-- Ends a notification. -/
  | commitNotification
  /-- Keeps an alert on the screen for some more milliseconds. -/
  | extendAlert (id timeout : UInt16)
  /-- Takes an alert from the screen. -/
  | closeAlert (id : UInt16)
  /-- Sets a property of the active watch set. -/
  | setProperty (index : UInt8) (value : Bytes)
  deriving DecidableEq, Repr

namespace Command

/-- The command that sets the clock.  The watch holds 32 bits of seconds. -/
def setTime? (seconds : Int) : Except LinkFault Command :=
  if 0 ≤ seconds ∧ seconds < UInt32.size then .ok (.setTime (UInt32.ofNat seconds.toNat))
  else .error (.clockOutOfRange seconds)

/-- The byte that a command starts with. -/
def opcode : Command → UInt8
  | setTime _ => 0x10
  | announceNotification _ => 0x23
  | notificationData _ => 0x24
  | commitNotification => 0x25
  | extendAlert _ _ => 0x26
  | closeAlert _ => 0x27
  | setProperty _ _ => 0x30

/-- What follows the opcode of a command. -/
def arguments : Command → Bytes
  | setTime seconds => longBytes seconds
  | announceNotification size => wordBytes size
  | notificationData data => data
  | commitNotification => []
  | extendAlert id timeout => wordBytes id ++ wordBytes timeout
  | closeAlert id => wordBytes id
  | setProperty index value => index :: value

/-- The bytes of a command. -/
def encode (command : Command) : Bytes := command.opcode :: command.arguments

end Command

end Timepiece
