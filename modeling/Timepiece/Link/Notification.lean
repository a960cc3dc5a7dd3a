import Timepiece.Link.Fault

/-!
# Notifications

A notification interrupts the user, or joins the list of notifications, or
replaces the page that is shown.  It is sent as a header, which depends on its
kind, and its data.

## Main definitions

* `Notification` — a notification.
* `Notification.payload` — what is sent of it.
-/

namespace Timepiece

/-- A notification. -/
inductive Notification where
  /-- Interrupts the user, who may answer it. -/
  | alert (id : UInt16) (vibration : UInt32) (timeout : UInt16) (data : Bytes)
  /-- Joins the list of notifications. -/
  | info (vibration : UInt32) (timeout : UInt16) (data : Bytes)
  /-- Replaces the page that is shown. -/
  | update (data : Bytes)
  deriving DecidableEq, Repr

namespace Notification

/-- Whether a notification is an alert. -/
def isAlert : Notification → Bool
  | alert .. => true
  | _ => false

/-- What stands before the data. -/
def header : Notification → Bytes
  | alert id vibration timeout _ => 1 :: wordBytes id ++ longBytes vibration ++ wordBytes timeout
  | info vibration timeout _ => 2 :: longBytes vibration ++ wordBytes timeout
  | update _ => [3]

/-- The data of a notification. -/
def data : Notification → Bytes
  | alert _ _ _ data => data
  | info _ _ data => data
  | update data => data

/-- A header with its data. -/
def bytes (notification : Notification) : Bytes := notification.header ++ notification.data

/-- What is sent of a notification.  Its size has to be announced in two bytes. -/
def payload (notification : Notification) : Except LinkFault Bytes :=
  if notification.bytes.length ≤ maxAnnounced then .ok notification.bytes
  else .error (.payloadTooLarge notification.bytes.length)

end Notification

end Timepiece
