import Timepiece.Json.Record

/-!
# Settings of the link

How long to wait, how often to try, and how much work to keep waiting.

## Main definitions

* `LinkConfig` — the settings.
* `LinkConfig.ofText`, `LinkConfig.toText` — their stored form.
* `LinkConfig.retryDelay` — the pause after a refused write.
-/

namespace Timepiece

/-- The settings of a link.  Times are in milliseconds. -/
structure LinkConfig where
  /-- Whether a connection that was lost is opened again. -/
  autoReconnect : Bool := true
  /-- Whether the clock is set after a connection is made. -/
  clockSync : Bool := true
  /-- The time between the discovery of services and the start of the
  connection. -/
  settleDelay : Nat := 1000
  /-- The time between the start of the connection and the setting of the
  clock. -/
  clockSyncDelay : Nat := 3000
  /-- How long to wait for an acknowledgement. -/
  ackTimeout : Nat := 10000
  /-- How long to wait for a permission. -/
  permissionTimeout : Nat := 10000
  /-- The pause after a refused permission. -/
  permissionRetry : Nat := 50
  /-- How often to ask for a permission. -/
  maxPermissionRequests : Nat := 20
  /-- How often to try a write. -/
  writeAttempts : Nat := 5
  /-- How much work may wait. -/
  commandQueue : Nat := 32
  deriving DecidableEq, Repr

namespace LinkConfig

/-- The greatest unsigned 64-bit number. -/
def maxDelay : Nat := UInt64.size - 1

/-- The pause after a refused write, the attempts counted from zero: a power of
five, as far as it fits 64 bits. -/
def retryDelay (attempt : Nat) : Nat :=
  if attempt ≤ 27 then min (Nat.pow 5 attempt) maxDelay else maxDelay

/-- How often a write is tried; at least once. -/
def attempts (config : LinkConfig) : Nat := max 1 config.writeAttempts

/-- How often a permission is asked for; at least once. -/
def requests (config : LinkConfig) : Nat := max 1 config.maxPermissionRequests

/-- How much work may wait; at least one piece. -/
def capacity (config : LinkConfig) : Nat := max 1 config.commandQueue

/-- The settings as JSON. -/
def toJson (c : LinkConfig) : Json :=
  .object [("auto_reconnect", .bool c.autoReconnect), ("clock_sync", .bool c.clockSync),
    ("settle_delay_ms", .ofNat c.settleDelay), ("clock_sync_delay_ms", .ofNat c.clockSyncDelay),
    ("ack_timeout_ms", .ofNat c.ackTimeout),
    ("permission_timeout_ms", .ofNat c.permissionTimeout),
    ("permission_retry_ms", .ofNat c.permissionRetry),
    ("max_permission_requests", .ofNat c.maxPermissionRequests),
    ("write_attempts", .ofNat c.writeAttempts), ("command_queue", .ofNat c.commandQueue)]

/-- The stored form of the settings. -/
def toText (c : LinkConfig) : String := c.toJson.render

/-- The settings, straight from the text.  What is missing has its usual value. -/
def ofOutline : Outline → Reading LinkConfig :=
  let usual : LinkConfig := {}
  let word := Outline.asBelow UInt32.size
  let long := Outline.asBelow UInt64.size
  Fields.fromOutline <|
    Fields.done LinkConfig.mk
      |>.default "auto_reconnect" Outline.asBool usual.autoReconnect
      |>.default "clock_sync" Outline.asBool usual.clockSync
      |>.default "settle_delay_ms" long usual.settleDelay
      |>.default "clock_sync_delay_ms" long usual.clockSyncDelay
      |>.default "ack_timeout_ms" long usual.ackTimeout
      |>.default "permission_timeout_ms" long usual.permissionTimeout
      |>.default "permission_retry_ms" long usual.permissionRetry
      |>.default "max_permission_requests" word usual.maxPermissionRequests
      |>.default "write_attempts" word usual.writeAttempts
      |>.default "command_queue" long usual.commandQueue

/-- The settings of a stored form. -/
def ofText (text : String) : Reading LinkConfig := readText ofOutline text

/-- The pause is never zero. -/
theorem retryDelay_pos (attempt : Nat) : 0 < retryDelay attempt := by
  unfold retryDelay
  split
  · have : 0 < Nat.pow 5 attempt := Nat.pow_pos (by decide)
    have : 0 < maxDelay := by decide
    omega
  · decide

end LinkConfig

end Timepiece
