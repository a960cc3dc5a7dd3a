import Timepiece.Link.Report
import Timepiece.Link.Session

/-!
# A scripted watch

A watch, and the radio that reaches it, that answer as a script says.  Left alone
it answers as a watch does: the link comes up, services are found, the packets
that end a unit of an upload are acknowledged, and notifications are permitted.

## Main definitions

* `ScriptedWatch` — the script, and what happened to the watch so far.
* `ScriptedWatch.luck` — what a session meets at its next try.
* `ScriptedWatch.suffer` — what an effect of a session does to the watch, and
  what the radio reports of it.
-/

namespace Timepiece

/-- What can be asked of the radio, and may go wrong. -/
inductive RadioRequest where
  | openLink
  | reconnect
  | discover
  | armNotifications
  deriving DecidableEq, Repr

/-- The calls that the radio of a scripted watch counts. -/
structure RadioCounts where
  /-- Attempts to write, refused ones included. -/
  attempts : Nat := 0
  reconnects : Nat := 0
  discoveries : Nat := 0
  armed : Nat := 0
  disconnects : Nat := 0
  closes : Nat := 0
  deriving DecidableEq, Repr

/-- A watch that answers as a script says. -/
structure ScriptedWatch where
  /-- How many of the next writes are refused. -/
  refusals : Nat := 0
  refusesAll : Bool := false
  /-- Whether writes stay without an answer. -/
  silent : Bool := false
  /-- The answers to the next requests for an upload; later ones are granted. -/
  permissions : List Bool := []
  discoveryFails : Bool := false
  /-- The requests that the radio cannot even begin. -/
  broken : List RadioRequest := []
  counts : RadioCounts := {}
  /-- The writes that were taken, the last one first. -/
  writes : List Bytes := []
  /-- The addresses that were opened, the last one first. -/
  opened : List String := []

namespace ScriptedWatch

/-- Whether the radio can begin a request. -/
def begins (w : ScriptedWatch) (request : RadioRequest) : Bool := !w.broken.contains request

/-- Whether the next write is taken. -/
def accepts (w : ScriptedWatch) : Bool := !w.refusesAll && w.refusals == 0

/-- What a session meets at its next try. -/
def luck (w : ScriptedWatch) (clock : Int) : Luck where
  opens := w.begins .openLink
  reconnects := w.begins .reconnect
  accepts := w.accepts
  clock := clock

/-- Makes a request fail, or not any more. -/
def setBroken (w : ScriptedWatch) (request : RadioRequest) (fails : Bool) : ScriptedWatch :=
  let others := w.broken.filter (· != request)
  { w with broken := if fails then request :: others else others }

/-! ### Answers -/

/-- Whether a write ends a unit of an upload, which is acknowledged.  The write
that closes the upload is not. -/
def endsUnit : Bytes → Bool
  | [] => false
  | [tag] => tag == PacketRole.last.tag
  | tag :: mark :: _ =>
    tag == PacketRole.last.tag || (tag == PacketRole.only.tag && mark != commitMark)

/-- Whether a write asks for the upload of a notification. -/
def asksPermission (data : Bytes) : Bool :=
  data.head? == some (Command.announceNotification 0).opcode

/-- The answer to a write that was taken. -/
def answer? (w : ScriptedWatch) (data : Bytes) : Option Report × ScriptedWatch :=
  if w.silent then (none, w)
  else if endsUnit data then (some .acknowledged, w)
  else if asksPermission data then
    (some (.permission (w.permissions.headD true)), { w with permissions := w.permissions.tail })
  else (none, w)

/-- A write that was taken. -/
def take (w : ScriptedWatch) (data : Bytes) : List RadioEvent × ScriptedWatch :=
  let (report, w) := { w with writes := data :: w.writes }.answer? data
  ((report.map fun report => RadioEvent.received report.encode).toList, w)

/-- A write that was refused. -/
def refuse (w : ScriptedWatch) : ScriptedWatch :=
  if w.refusesAll then w else { w with refusals := w.refusals - 1 }

/-! ### Effects -/

/-- Counts a call. -/
def count (w : ScriptedWatch) (change : RadioCounts → RadioCounts) : ScriptedWatch :=
  { w with counts := change w.counts }

/-- What an effect of a session does to the watch, and what the radio reports of
it. -/
def suffer (w : ScriptedWatch) : Effect → List RadioEvent × ScriptedWatch
  | .openLink address =>
    if w.begins .openLink then ([.linkUp], { w with opened := address :: w.opened }) else ([], w)
  | .reconnect =>
    if w.begins .reconnect then
      ([.linkUp], w.count fun c => { c with reconnects := c.reconnects + 1 })
    else ([], w)
  | .discover =>
    if w.begins .discover then
      ([.servicesDiscovered (!w.discoveryFails)],
        w.count fun c => { c with discoveries := c.discoveries + 1 })
    else ([], w)
  | .armNotifications =>
    if w.begins .armNotifications then
      ([], w.count fun c => { c with armed := c.armed + 1 })
    else ([], w)
  | .disconnect => ([.linkDown], w.count fun c => { c with disconnects := c.disconnects + 1 })
  | .close => ([], w.count fun c => { c with closes := c.closes + 1 })
  | .write data accepted =>
    let w := w.count fun c => { c with attempts := c.attempts + 1 }
    if accepted then w.take data else ([], w.refuse)
  | _ => ([], w)

/-- The writes and the openings since the last time, in order. -/
def takeNews (w : ScriptedWatch) : List Bytes × List String × ScriptedWatch :=
  (w.writes.reverse, w.opened.reverse, { w with writes := [], opened := [] })

end ScriptedWatch

end Timepiece
