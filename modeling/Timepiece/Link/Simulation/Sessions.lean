import Timepiece.Link.MemoryHost
import Timepiece.Link.ScriptedWatch
import Timepiece.Text.Blank

/-!
# Sessions in simulated time

A session, the watch it is connected to, and the host, in one world.  What the
radio reports waits in an inbox until the session hears it.  An alarm that went off
waits too, and is heard before the radio.  Whoever has something to do waits for his
turn: the side of the session that hears, its worker, alarms that go off, and work for
which a place in the queue became free.  A turn lasts until nothing is left to do,
except that the session hears only so much in one turn.  Nothing takes time: time
passes only when everything waits, to the next moment at which something is due.

## Main definitions

* `Simulation` — the world.
* `Simulation.move` — a move of the session, with what follows from it outside.
* `Simulation.next?` — what happens next by itself.
* `Simulation.settle`, `Simulation.pass`, `Simulation.finish` — letting things
  happen until everything waits, for some time, and until a request is answered.
-/

namespace Timepiece

/-- Who waits for his turn. -/
inductive Turn where
  /-- The session hears what is in the inbox. -/
  | hear
  /-- The worker goes on. -/
  | work
  /-- An alarm goes off. -/
  | ring
  /-- Work enters the queue. -/
  | enter
  deriving DecidableEq, Repr

/-- A session, its watch and its host in simulated time. -/
structure Simulation where
  session : Session
  watch : ScriptedWatch
  host : MemoryHost
  /-- Whether the session can ask the host anything. -/
  served : Bool
  /-- What the clock shows, in seconds of local time. -/
  clock : Int
  /-- What the radio reported and the session did not hear yet. -/
  inbox : List RadioEvent
  /-- How many alarms went off and were not heard yet. -/
  rung : Nat
  /-- How many of the alarms that are due went off or wait to do so. -/
  called : Nat
  /-- Who waits for his turn, the first one whose turn it is. -/
  turns : List Turn
  /-- How much was heard in the turn that lasts. -/
  heard : Nat
  /-- What the session asked of the host since the last time, the last first. -/
  log : List Effect
  /-- The results of requests. -/
  replies : List (Nat × LinkResult)
  /-- Whether the connection that was asked for last is being made. -/
  started : Bool
  /-- The number of the next request. -/
  nextRequest : Nat

namespace Simulation

/-- A world in which nothing happened yet. -/
def start (config : LinkConfig) (host : MemoryHost) (served : Bool) (clock : Int) : Simulation where
  session := .start config (if served then host.services else .none)
  watch := {}
  host := host
  served := served
  clock := clock
  inbox := []
  rung := 0
  called := 0
  turns := []
  heard := 0
  log := []
  replies := []
  started := false
  nextRequest := 0

/-- The present moment. -/
def now (s : Simulation) : Nat := s.session.now

/-! ### Turns -/

/-- Lets someone wait for his turn, unless he does already. -/
def queueUp (turn : Turn) (wanted : Bool) (s : Simulation) : Simulation :=
  if wanted && !s.turns.contains turn then { s with turns := s.turns ++ [turn] } else s

/-- How many alarms are due. -/
def dueAlarms (s : Simulation) : Nat :=
  (s.session.alarms.takeWhile fun alarm => alarm.1 ≤ s.now).length

/-- Lets alarms that became due go off in their turn. -/
def queueAlarms (s : Simulation) : Simulation :=
  let due := s.dueAlarms
  { s with called := max s.called due, turns := s.turns ++ List.replicate (due - s.called) .ring }

/-- Lets work for which a place became free enter in its turn. -/
def queueEntries (s : Simulation) : Simulation :=
  let waiting := s.turns.count .enter
  { s with turns := s.turns ++ List.replicate (s.session.entering.length - waiting) .enter }

/-- Lets everyone who has something to do wait for his turn. -/
def rouse (s : Simulation) : Simulation :=
  (s.queueAlarms.queueEntries.queueUp .work (!s.session.isBlocked)).queueUp .hear
    (0 < s.rung || !s.inbox.isEmpty)

/-! ### Moves -/

/-- What an effect of the session does to the world. -/
def apply (s : Simulation) (effect : Effect) : Simulation :=
  match effect with
  | .reply request result => { s with replies := (request, result) :: s.replies }
  | .started success => { s with started := success }
  | .invoke _ | .showFirst | .showNext _ | .showPart _ _ | .answerAlert _ _ =>
    { s with log := effect :: s.log }
  | effect =>
    let (events, watch) := s.watch.suffer effect
    { s with watch, inbox := s.inbox ++ events }

/-- A move of the session, with what follows from it outside. -/
def move (s : Simulation) (move : Move) : Simulation :=
  let (effects, session) := s.session.step (s.watch.luck s.clock) move
  (effects.foldl apply { s with session }).rouse

/-- The radio reports something. -/
def deliver (s : Simulation) (events : List RadioEvent) : Simulation :=
  { s with inbox := s.inbox ++ events }.rouse

/-- Changes the host; the session sees it at once. -/
def setHost (s : Simulation) (host : MemoryHost) : Simulation :=
  let s := { s with host }
  if s.served then s.move (.services host.services) else s

/-- How much the session hears in one turn. -/
def attention : Nat := 128

/-- The session hears an alarm that went off, or else what the radio reported first.
After so much its turn is over, and it waits for the next one. -/
def hear (s : Simulation) : Simulation :=
  if attention ≤ s.heard then { s with turns := s.turns.tail ++ [.hear], heard := 0 }
  else if 0 < s.rung then
    { s with rung := s.rung - 1, called := s.called - 1, heard := s.heard + 1 }.move .alarm
  else
    match s.inbox with
    | [] => { s with turns := s.turns.tail, heard := 0 }
    | event :: inbox => { s with inbox, heard := s.heard + 1 }.move (.radio event)

/-- What happens next before time passes, if anything does. -/
def stir? (s : Simulation) : Option Simulation :=
  match s.turns with
  | [] => none
  | .hear :: _ => some s.hear
  | .work :: turns =>
    some (if s.session.isBlocked then { s with turns } else s.move .work)
  | .ring :: turns => some { s with turns, rung := s.rung + 1 }.rouse
  | .enter :: turns => some ({ s with turns }.move .enter)

/-- What happens next by itself, not later than at a given moment. -/
def next? (latest : Option Nat) (s : Simulation) : Option Simulation :=
  match s.stir? with
  | some s => some s
  | none =>
    match s.session.wakeup? with
    | some due => if latest.all (due ≤ ·) then some (s.move (.wait due)) else none
    | none => none

/-- Lets things happen, not later than at a given moment, until some condition
holds, nothing happens by itself any more, or the fuel is used up. -/
def runUntil (stop : Simulation → Bool) (latest : Option Nat) : Nat → Simulation → Simulation
  | 0, s => s
  | fuel + 1, s =>
    if stop s then s
    else
      match s.next? latest with
      | some s => runUntil stop latest fuel s
      | none => s

/-- How many things may happen in one go.  A session that goes on by itself for
longer is cut off. -/
def patience : Nat := 1000000000000

/-- Lets everything happen that happens before time passes. -/
def settle (s : Simulation) : Simulation := runUntil (fun _ => false) (some s.now) patience s

/-- Lets some time pass. -/
def pass (s : Simulation) (ms : Nat) : Simulation :=
  let latest := endOfWait s.now ms
  (runUntil (fun _ => false) (some latest) patience s).move (.wait latest)

/-! ### Requests -/

/-- The result of a request, once there is one. -/
def reply? (s : Simulation) (request : Nat) : Option LinkResult := s.replies.lookup request

/-- Lets time pass until a request is answered, and everything happen that
happens then. -/
def finish (s : Simulation) (request : Nat) : Option LinkResult × Simulation :=
  let s := (runUntil (fun s => (s.reply? request).isSome) none patience s).settle
  (s.reply? request, s)

/-- Submits work under the number of a new request. -/
def submit (s : Simulation) (job : Nat → Job) : Nat × Simulation :=
  let request := s.nextRequest
  (request, { s with nextRequest := request + 1 }.move (.submit (job request)))

/-- Asks for a connection.  A blank address is refused. -/
def connect (s : Simulation) (address : String) : Bool × Simulation :=
  if address.toList.all Text.isBlank then (false, s)
  else
    let s := s.move (.request (.connect address))
    (s.started, s)

/-- Has the clock of the watch set.  A reading that the watch cannot hold is no
request. -/
def syncClock (s : Simulation) : Except LinkFault (Nat × Simulation) :=
  (Command.setTime? s.clock).map fun command => s.submit (.command command)

/-- What the session asked of the host since the last time, in order. -/
def takeLog (s : Simulation) : List Effect × Simulation := (s.log.reverse, { s with log := [] })

end Simulation

end Timepiece
