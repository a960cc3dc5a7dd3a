import Timepiece.Link.Agenda
import Timepiece.Link.Lifecycle
import Timepiece.Link.PushCache
import Timepiece.Link.Report
import Timepiece.Link.Transfer
import Timepiece.WatchSet.Bundle

/-!
# Sessions

A session keeps the connection to one watch.  It has two sides.  One hears the
radio, the host and its own alarms, keeps the life of the connection, and passes
on what the watch reports; it never waits.  The other works through a queue, one
job after the other: transfers asked for by the host, and properties of the
active watch set whose values may have changed.  The two meet in the slots for
answers, in the cache of pushed values, and in what they know of the active watch
set and of the alert on the screen.

The session is a machine that makes one move at a time.  What it cannot know —
whether the radio takes a write, whether a connection can be started, what the
clock shows — comes with the move as `Luck`.

## Main definitions

* `Job` — a piece of work.
* `Session` — a session, and `Session.step`, its answer to a `Move`.
* `Effect` — what a move does to the world outside.
* `Session.run` — the effects of a sequence of moves.
-/

namespace Timepiece

/-! ### The world outside -/

/-- What a session asks of the host. -/
structure Services where
  /-- The value that an extension reports of a property. -/
  value : PropertyKey → Option Value
  /-- The compiled watch set of a number. -/
  find : UInt32 → Option Bundle
  /-- Whether there is someone who pages through notifications. -/
  pages : Bool

/-- A host without extensions, watch sets and notifications. -/
def Services.none : Services := ⟨fun _ => Option.none, fun _ => Option.none, false⟩

/-- What the radio reports. -/
inductive RadioEvent where
  | linkUp
  | linkDown
  | servicesDiscovered (success : Bool)
  | received (data : Bytes)
  deriving DecidableEq, Repr

/-- What the host asks of the connection. -/
inductive LinkRequest where
  | connect (address : String)
  | disconnect
  | close
  | setAutoReconnect (enabled : Bool)
  deriving DecidableEq, Repr

/-- What the session cannot know before it tries. -/
structure Luck where
  /-- Whether a connection can be opened afresh. -/
  opens : Bool
  /-- Whether a connection can be opened again. -/
  reconnects : Bool
  /-- Whether the radio takes a write. -/
  accepts : Bool
  /-- What the clock shows, in seconds of local time. -/
  clock : Int

/-- What a move does to the world outside. -/
inductive Effect where
  | openLink (address : String)
  | reconnect
  | discover
  | armNotifications
  | disconnect
  | close
  /-- An attempt to write, and whether it was taken. -/
  | write (data : Bytes) (accepted : Bool)
  | invoke (function : Function)
  | showFirst
  | showNext (id : UInt16)
  | showPart (id : UInt16) (part : UInt8)
  /-- An answer to an alert for whoever sent it. -/
  | answerAlert (handler : String) (function : NotificationFunction)
  /-- Whether a connection that was asked for is being made. -/
  | started (success : Bool)
  /-- The result of a request. -/
  | reply (request : Nat) (result : LinkResult)

/-! ### Work -/

/-- A piece of work.  Requests of the host have a number, under which they are
answered. -/
inductive Job where
  | upload (payload : Bytes) (request : Nat)
  | notification (notification : Notification) (handler : Option String) (request : Nat)
  | command (command : Command) (request : Nat)
  /-- Push a property if its value changed. -/
  | push (key : PropertyKey)
  /-- Push the properties of an extension whose values changed. -/
  | pushExtension (extension : String)
  /-- Push all properties whose values changed. -/
  | pushAll
  | syncClock

/-- What follows when a transfer ends. -/
inductive Purpose where
  /-- A request is answered. -/
  | request (request : Nat)
  /-- A request is answered, and answers to the alert go to its handler. -/
  | alert (handler : Option String) (request : Nat)
  /-- The value is noted, and the next properties follow. -/
  | push (key : PropertyKey) (value : Option Value) (pending : List (Nat × Property))
  /-- Nothing. -/
  | clock

/-- What is being worked on. -/
inductive Worker where
  | idle
  /-- Properties are still to be looked at, each with its place. -/
  | pushing (pending : List (Nat × Property))
  | transferring (purpose : Purpose) (transfer : Transfer)

/-- An alarm that was set. -/
inductive Alarm where
  | settled (epoch : Nat)
  | clockSyncDue (epoch : Nat)
  deriving DecidableEq, Repr

/-- What happens to the connection when an alarm goes off. -/
def Alarm.input : Alarm → LinkInput
  | settled epoch => .settled epoch
  | clockSyncDue epoch => .clockSyncDue epoch

/-- A session. -/
structure Session where
  config : LinkConfig
  services : Services
  /-- The present moment, in milliseconds. -/
  now : Nat
  lifecycle : Lifecycle
  alarms : Agenda Alarm
  signals : Signals
  cache : PushCache
  active : Option Bundle
  /-- Who gets the answers to the alert on the screen. -/
  handler : Option String
  /-- The work that waits. -/
  queue : List Job
  /-- The work for which a place in the queue is kept, but which was not put there
  yet. -/
  entering : List Job
  /-- The work for which there is no place in the queue yet. -/
  senders : List Job
  worker : Worker

/-- What can happen to a session. -/
inductive Move where
  /-- The host has work, and waits for room in the queue. -/
  | submit (job : Job)
  /-- The host has work, which is dropped if there is no room in the queue. -/
  | offer (job : Job)
  /-- The first piece of work for which a place is kept enters the queue. -/
  | enter
  | request (request : LinkRequest)
  | radio (event : RadioEvent)
  /-- The first alarm that is due goes off. -/
  | alarm
  /-- The worker makes a step. -/
  | work
  /-- Time passes. -/
  | wait (moment : Nat)
  /-- The host changes. -/
  | services (services : Services)

namespace Session

/-- A session that was just started. -/
def start (config : LinkConfig) (services : Services) : Session where
  config := config
  services := services
  now := 0
  lifecycle := .start config.autoReconnect config.clockSync
  alarms := []
  signals := .empty
  cache := .empty
  active := none
  handler := none
  queue := []
  entering := []
  senders := []
  worker := .idle

/-- The state of the connection. -/
def state (s : Session) : LinkState := s.lifecycle.state

/-- Whether the connection can be used. -/
def isConnected (s : Session) : Bool := s.state = .connected

/-! ### The queue -/

/-- Whether there is room in the queue for one more piece of work. -/
def hasRoom (s : Session) : Bool :=
  s.senders.isEmpty && s.queue.length + s.entering.length < s.config.capacity

/-- Puts work into the queue, or lets it wait for room. -/
def submit (s : Session) (job : Job) : Session :=
  if s.hasRoom then { s with queue := s.queue ++ [job] }
  else { s with senders := s.senders ++ [job] }

/-- Puts work into the queue if there is room. -/
def offer (s : Session) (job : Job) : Session :=
  if s.hasRoom then { s with queue := s.queue ++ [job] } else s

/-- Takes the first piece of work out of the queue; its place is kept for the first
piece of work that waited for room. -/
def takeJob? (s : Session) : Option (Job × Session) :=
  match s.queue with
  | [] => none
  | job :: rest =>
    some (job, { s with
      queue := rest, entering := s.entering ++ s.senders.take 1, senders := s.senders.drop 1 })

/-- Puts the first piece of work for which a place is kept into the queue. -/
def enter (s : Session) : Session :=
  { s with queue := s.queue ++ s.entering.take 1, entering := s.entering.drop 1 }

/-! ### The connection -/

/-- Does what has to be done.  Whether a connection could be started is part of
the result; if it could not, the connection is told. -/
def execute (luck : Luck) (s : Session) : Directive → Bool × List Effect × Session
  | .openLink address =>
    if luck.opens then (true, [.openLink address], s)
    else (false, [.openLink address], { s with lifecycle := (s.lifecycle.step .connectFailed).2 })
  | .reconnect =>
    if luck.reconnects then (true, [.reconnect], s)
    else (false, [.reconnect], { s with lifecycle := (s.lifecycle.step .connectFailed).2 })
  | .discover => (true, [.discover], s)
  | .scheduleSettle epoch =>
    (true, [],
      { s with alarms := s.alarms.add (endOfWait s.now s.config.settleDelay) (.settled epoch) })
  | .armNotifications => (true, [.armNotifications], s)
  | .clearPushCache => (true, [], { s with cache := .empty })
  | .scheduleClockSync epoch =>
    (true, [],
      { s with alarms :=
          s.alarms.add (endOfWait s.now s.config.clockSyncDelay) (.clockSyncDue epoch) })
  | .syncClock => (true, [], s.offer .syncClock)
  | .disconnect => (true, [.disconnect], s)
  | .close => (true, [.close], s)

/-- Does several things, one after the other. -/
def executeAll (luck : Luck) (s : Session) : List Directive → Bool × List Effect × Session
  | [] => (true, [], s)
  | directive :: rest =>
    let (started, effects, s) := s.execute luck directive
    let (others, more, s) := executeAll luck s rest
    (started && others, effects ++ more, s)

/-- Tells the connection what happened, and does what has to be done. -/
def tell (luck : Luck) (s : Session) (input : LinkInput) : Bool × List Effect × Session :=
  let (directives, lifecycle) := s.lifecycle.step input
  { s with lifecycle }.executeAll luck directives

/-- Tells the connection what happened, where it does not matter whether a
connection could be started. -/
def hear (luck : Luck) (s : Session) (input : LinkInput) : List Effect × Session :=
  let (_, effects, s) := s.tell luck input
  (effects, s)

/-! ### Reports -/

/-- Passes on what the watch asks of the notifications. -/
def page (s : Session) (function : NotificationFunction) : List Effect :=
  if function.answersAlert then
    match s.handler with
    | some handler => [.answerAlert handler function]
    | none => []
  else if s.services.pages then
    match function with
    | .showFirst => [.showFirst]
    | .next id => [.showNext id]
    | .nextPart id part => if part < 255 then [.showPart id (part + 1)] else []
    | .previousPart id part => if 0 < part then [.showPart id (part - 1)] else []
    | _ => []
  else []

/-- Switches to the watch set of a number.  What was pushed for another one says
nothing about it, and its properties are all pushed. -/
def activate (s : Session) (id : UInt32) : Session :=
  let found := s.services.find id
  let s := { s with active := found, cache := .empty }
  if found.isSome then s.offer .pushAll else s

/-- Passes a report on. -/
def dispatch (s : Session) : Report → List Effect × Session
  | .acknowledged => ([], { s with signals := { s.signals with ack := (s.signals.ack.fulfill ()).2 } })
  | .permission granted =>
    ([], { s with signals :=
      { s.signals with permission := (s.signals.permission.fulfill granted).2 } })
  | .activeWatchSet id => ([], s.activate id)
  | .callFunction index =>
    match s.active.bind (·.function? index.toNat) with
    | some function => ([.invoke function], s)
    | none => ([], s)
  | .notification function => (s.page function, s)

/-- What the radio reports.  What is no report of the watch is ignored. -/
def receive (luck : Luck) (s : Session) : RadioEvent → List Effect × Session
  | .linkUp => s.hear luck .linkUp
  | .linkDown => s.hear luck .linkDown
  | .servicesDiscovered success => s.hear luck (.servicesDiscovered success)
  | .received data =>
    match Report.decode data with
    | .ok report => s.dispatch report
    | .error _ => ([], s)

/-- What the host asks of the connection. -/
def requested (luck : Luck) (s : Session) : LinkRequest → List Effect × Session
  | .connect address =>
    let (started, effects, s) := s.tell luck (.connect address)
    (effects ++ [.started started], s)
  | .disconnect => s.hear luck .disconnect
  | .close => s.hear luck .close
  | .setAutoReconnect enabled => s.hear luck (.setAutoReconnect enabled)

/-- The first alarm that is due goes off. -/
def ring (luck : Luck) (s : Session) : List Effect × Session :=
  match s.alarms.takeDue? s.now with
  | some (alarm, alarms) => { s with alarms }.hear luck alarm.input
  | none => ([], s)

/-! ### The worker -/

/-- The properties of the active watch set that are picked, with their places. -/
def pick (s : Session) (picked : Property → Bool) : List (Nat × Property) :=
  match s.active with
  | none => []
  | some bundle =>
    (bundle.properties.zipIdx.map fun entry => (entry.2, entry.1)).filter fun entry =>
      picked entry.2

/-- Begins to push properties, if the connection can be used. -/
def beginPush (s : Session) (picked : Property → Bool) : List Effect × Session :=
  if s.isConnected then ([], { s with worker := .pushing (s.pick picked) }) else ([], s)

/-- Begins a transfer for a request, if the connection can be used. -/
def beginRequest (s : Session) (request : Nat) (purpose : Purpose)
    (transfer : Except LinkFault Transfer) : List Effect × Session :=
  if s.isConnected then
    match transfer with
    | .ok transfer => ([], { s with worker := .transferring purpose transfer })
    | .error fault => ([.reply request (.error fault)], s)
  else ([.reply request (.error .notConnected)], s)

/-- The transfer of a notification. -/
def notificationTransfer (config : LinkConfig) (notification : Notification) :
    Except LinkFault Transfer :=
  match notification.payload with
  | .ok payload => Transfer.ofNotification config payload
  | .error fault => .error fault

/-- Begins a piece of work. -/
def begin (luck : Luck) (s : Session) : Job → List Effect × Session
  | .upload payload request =>
    s.beginRequest request (.request request) (.ok (.ofUpload payload))
  | .notification notification handler request =>
    s.beginRequest request
      (if notification.isAlert then .alert handler request else .request request)
      (notificationTransfer s.config notification)
  | .command command request =>
    s.beginRequest request (.request request) (.ok (.ofWrite command.encode))
  | .push key => s.beginPush fun property => property.key = key
  | .pushExtension extension => s.beginPush fun property => property.extension = extension
  | .pushAll => s.beginPush fun _ => true
  | .syncClock =>
    if s.isConnected then
      match Command.setTime? luck.clock with
      | .ok command => ([], { s with worker := .transferring .clock (.ofWrite command.encode) })
      | .error _ => ([], s)
    else ([], s)

/-- The greatest place of a property that can be named in a command. -/
def maxIndex : Nat := 255

/-- Looks at a property: it is pushed if its value is not the one that was pushed
last and its place can be named. -/
def pushOne (s : Session) (index : Nat) (property : Property) (pending : List (Nat × Property)) :
    Session :=
  let value := s.services.value property.key
  if s.cache.isCurrent property.key value || maxIndex < index then
    { s with worker := .pushing pending }
  else
    let command := Command.setProperty (UInt8.ofNat index) (Value.encode property value)
    { s with worker := .transferring (.push property.key value pending) (.ofWrite command.encode) }

/-- What follows when a transfer ends. -/
def conclude (s : Session) (purpose : Purpose) (result : LinkResult) : List Effect × Session :=
  match purpose, result with
  | .request request, result => ([.reply request result], { s with worker := .idle })
  | .alert handler request, .ok () =>
    ([.reply request (.ok ())], { s with worker := .idle, handler })
  | .alert _ request, .error fault => ([.reply request (.error fault)], { s with worker := .idle })
  | .push key value pending, .ok () =>
    ([], { s with worker := .pushing pending, cache := s.cache.record key value })
  | .push _ _ pending, .error _ => ([], { s with worker := .pushing pending })
  | .clock, _ => ([], { s with worker := .idle })

/-- One step of a transfer. -/
def advance (luck : Luck) (s : Session) (purpose : Purpose) (transfer : Transfer) :
    List Effect × Session :=
  let step := transfer.step s.config s.now luck.accepts s.signals
  let written := step.attempt.toList.map fun data => Effect.write data luck.accepts
  let s := { s with signals := step.signals }
  match step.progress with
  | .running transfer => (written, { s with worker := .transferring purpose transfer })
  | .blocked => (written, s)
  | .finished result =>
    let (effects, s) := s.conclude purpose result
    (written ++ effects, s)

/-- One step of the worker. -/
def work (luck : Luck) (s : Session) : List Effect × Session :=
  match s.worker with
  | .idle =>
    match s.takeJob? with
    | some (job, s) => s.begin luck job
    | none => ([], s)
  | .pushing [] => ([], { s with worker := .idle })
  | .pushing ((index, property) :: pending) => ([], s.pushOne index property pending)
  | .transferring purpose transfer => s.advance luck purpose transfer

/-- Whether the worker can do nothing before something else happens. -/
def isBlocked (s : Session) : Bool :=
  match s.worker with
  | .idle => s.queue.isEmpty
  | .pushing _ => false
  | .transferring _ transfer =>
    match (transfer.step s.config s.now true s.signals).progress with
    | .blocked => true
    | _ => false

/-- The next moment at which the session goes on by itself. -/
def wakeup? (s : Session) : Option Nat :=
  earlier? s.alarms.earliest?
    (match s.worker with
      | .transferring _ transfer => transfer.wakeup?
      | _ => none)

/-! ### Moves -/

/-- The answer to a move. -/
def step (luck : Luck) (s : Session) : Move → List Effect × Session
  | .submit job => ([], s.submit job)
  | .offer job => ([], s.offer job)
  | .enter => ([], s.enter)
  | .request request => s.requested luck request
  | .radio event => s.receive luck event
  | .alarm => s.ring luck
  | .work => s.work luck
  | .wait moment => ([], { s with now := max s.now moment })
  | .services services => ([], { s with services })

/-- The answers to a sequence of moves. -/
def run (s : Session) : List (Luck × Move) → List Effect × Session
  | [] => ([], s)
  | (luck, move) :: rest =>
    let (effects, s) := s.step luck move
    let (more, s) := s.run rest
    (effects ++ more, s)

/-- A sequence may be run in two parts. -/
theorem run_append (s : Session) (a b : List (Luck × Move)) :
    s.run (a ++ b) = ((s.run a).1 ++ ((s.run a).2.run b).1, ((s.run a).2.run b).2) := by
  induction a generalizing s with
  | nil => simp [run]
  | cons move rest ih => simp [run, ih]

end Session

end Timepiece
