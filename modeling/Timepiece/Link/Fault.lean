import Timepiece.Bytes

/-!
# What can go wrong on the link

None of these faults changes the state of the connection: a transfer that fails
is given up.

## Main definitions

* `ProtocolFault` — why bytes from the watch are no report.
* `LinkFault` — why a request failed.
* `LinkFault.message` — the wording.
-/

namespace Timepiece

/-- Why bytes from the watch are no report. -/
inductive ProtocolFault where
  | empty
  | truncated (opcode : UInt8)
  | unknown (opcode : UInt8)
  | unknownFunction (code : UInt8)
  | functionWithoutId (code : UInt8)
  | functionWithoutPart (code : UInt8)
  deriving DecidableEq, Repr

/-- The wording of a fault in a report. -/
def ProtocolFault.message : ProtocolFault → String
  | empty => "empty command"
  | truncated opcode => s!"command 0x{hexByte opcode} is truncated"
  | unknown opcode => s!"unknown command 0x{hexByte opcode}"
  | unknownFunction code => s!"unknown notification function 0x{hexByte code}"
  | functionWithoutId code => s!"notification function 0x{hexByte code} without id"
  | functionWithoutPart code => s!"notification function 0x{hexByte code} without part"

/-- Why a request failed. -/
inductive LinkFault where
  | notConnected
  /-- Every attempt of a write was refused. -/
  | writeFailed (attempts : Nat)
  /-- The watch did not acknowledge in time. -/
  | ackTimeout (ms : Nat)
  /-- The watch did not answer a request for an upload in time. -/
  | permissionTimeout (ms : Nat)
  /-- The watch refused every request for an upload. -/
  | permissionDenied (requests : Nat)
  | payloadTooLarge (size : Nat)
  /-- The clock shows a time that the watch cannot hold. -/
  | clockOutOfRange (seconds : Int)
  | protocol (fault : ProtocolFault)
  deriving DecidableEq, Repr

/-- The greatest size that can be announced in two bytes. -/
def maxAnnounced : Nat := 65535

/-- The wording of a fault. -/
def LinkFault.message : LinkFault → String
  | notConnected => "device is not connected"
  | writeFailed attempts => s!"write failed after {attempts} attempts"
  | ackTimeout ms => s!"no acknowledgement within {ms} ms"
  | permissionTimeout ms => s!"no upload permission response within {ms} ms"
  | permissionDenied requests => s!"upload refused {requests} times"
  | payloadTooLarge size => s!"payload of {size} bytes exceeds {maxAnnounced} bytes"
  | clockOutOfRange seconds => s!"clock reading {seconds} s is outside the device time range"
  | protocol fault => s!"protocol error: {fault.message}"

end Timepiece
