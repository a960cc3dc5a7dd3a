import Timepiece.Link.Fault

/-!
# Reports from the watch

What the watch tells the host: which watch set is active, which functions it
calls, whether it takes a notification, and that it has done what it was told.
Bytes behind a report are ignored.

## Main definitions

* `NotificationFunction` — what the watch asks of the notifications.
* `Report` — a report, and `Report.decode`, which reads one.
* `Report.encode` — the bytes of a report.
-/

namespace Timepiece

/-- What the watch asks of the notifications. -/
inductive NotificationFunction where
  | alertDismiss
  | alertOption1
  | alertOption2
  | showFirst
  /-- Shows the notification after one. -/
  | next (id : UInt16)
  /-- Shows the part after one of a notification. -/
  | nextPart (id : UInt16) (part : UInt8)
  /-- Shows the part before one of a notification. -/
  | previousPart (id : UInt16) (part : UInt8)
  deriving DecidableEq, Repr

namespace NotificationFunction

/-- The name of a function. -/
def name : NotificationFunction → String
  | alertDismiss => "alert_dismiss"
  | alertOption1 => "alert_option_1"
  | alertOption2 => "alert_option_2"
  | showFirst => "show_first"
  | next _ => "next"
  | nextPart _ _ => "next_part"
  | previousPart _ _ => "previous_part"

/-- The byte of a function. -/
def code : NotificationFunction → UInt8
  | alertDismiss => 0x01
  | alertOption1 => 0x02
  | alertOption2 => 0x03
  | showFirst => 0x10
  | next _ => 0x11
  | nextPart _ _ => 0x12
  | previousPart _ _ => 0x13

/-- What follows the byte of a function. -/
def arguments : NotificationFunction → Bytes
  | next id => wordBytes id
  | nextPart id part => wordBytes id ++ [part]
  | previousPart id part => wordBytes id ++ [part]
  | _ => []

/-- Whether a function answers an alert. -/
def answersAlert : NotificationFunction → Bool
  | alertDismiss | alertOption1 | alertOption2 => true
  | _ => false

/-- The 16-bit number of two bytes. -/
def word (a b : UInt8) : UInt16 := UInt16.ofNat (ofBigEndian [a, b])

/-- A function that names a part of a notification. -/
def decodePart (make : UInt16 → UInt8 → NotificationFunction) (code : UInt8) :
    Bytes → Except ProtocolFault NotificationFunction
  | a :: b :: part :: _ => .ok (make (word a b) part)
  | _ :: _ :: [] => .error (.functionWithoutPart code)
  | _ => .error (.functionWithoutId code)

/-- The function of a byte and its arguments. -/
def decode (code : UInt8) (arguments : Bytes) : Except ProtocolFault NotificationFunction :=
  if code = 0x01 then .ok alertDismiss
  else if code = 0x02 then .ok alertOption1
  else if code = 0x03 then .ok alertOption2
  else if code = 0x10 then .ok showFirst
  else if code = 0x11 then
    match arguments with
    | a :: b :: _ => .ok (next (word a b))
    | _ => .error (.functionWithoutId code)
  else if code = 0x12 then decodePart nextPart code arguments
  else if code = 0x13 then decodePart previousPart code arguments
  else .error (.unknownFunction code)

end NotificationFunction

/-- A report from the watch. -/
inductive Report where
  /-- The watch switched to the watch set with a number. -/
  | activeWatchSet (id : UInt32)
  /-- The watch calls the function at a place of the active watch set. -/
  | callFunction (index : UInt8)
  /-- The watch asks something of the notifications. -/
  | notification (function : NotificationFunction)
  /-- The watch takes a notification, or does not. -/
  | permission (granted : Bool)
  /-- The watch has done what it was told last. -/
  | acknowledged
  deriving DecidableEq, Repr

namespace Report

/-- The bytes of a report. -/
def encode : Report → Bytes
  | activeWatchSet id => 0x01 :: longBytes id
  | callFunction index => [0x02, index]
  | notification function => 0x03 :: function.code :: function.arguments
  | permission granted => [0x04, if granted then 1 else 0]
  | acknowledged => [0x05]

/-- The report of an opcode and what follows it. -/
def decodePayload (opcode : UInt8) (payload : Bytes) : Except ProtocolFault Report :=
  if opcode = 0x01 then
    match payload with
    | a :: b :: c :: d :: _ => .ok (.activeWatchSet (UInt32.ofNat (ofBigEndian [a, b, c, d])))
    | _ => .error (.truncated opcode)
  else if opcode = 0x02 then
    match payload with
    | index :: _ => .ok (.callFunction index)
    | [] => .error (.truncated opcode)
  else if opcode = 0x03 then
    match payload with
    | code :: arguments => (NotificationFunction.decode code arguments).map .notification
    | [] => .error (.truncated opcode)
  else if opcode = 0x04 then
    match payload with
    | granted :: _ => .ok (.permission (granted != 0))
    | [] => .error (.truncated opcode)
  else if opcode = 0x05 then .ok .acknowledged
  else .error (.unknown opcode)

/-- The report of some bytes. -/
def decode : Bytes → Except ProtocolFault Report
  | [] => .error .empty
  | opcode :: payload => decodePayload opcode payload

end Report

end Timepiece
