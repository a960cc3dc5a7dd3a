import Timepiece.WatchSet.Source

/-!
# Actions

A list of actions is what the watch does when a button is pressed.  An action
calls a function of the watch by its name, or chooses between lists of actions by
the value of a source.  The handlers of a screen name a list of actions for each
event; a choice may also stand around the handlers of several events.

Where a list is called for, a single object stands for a list of one.

## Main definitions

* `Call` — a call of a function of the watch.
* `RawCall`, `RawCall.call` — a call as it is written, and the rule that gives it
  its meaning.
* `Action` — a call or a choice.
* `Handlers` — the actions of a screen by event.
-/

namespace Timepiece

/-! ### Calls -/

/-- What can be done with the stopwatch. -/
inductive StopwatchCall where
  | start
  | stop
  | reset
  | startStop
  | nextLap
  deriving DecidableEq, Repr

/-- What can be done with a field of the model. -/
inductive ModelChange where
  | set (value : Source)
  | add (value : Source)
  | subtract (value : Source)
  | increment
  | decrement
  deriving DecidableEq, Repr

/-- A call of a function of the watch. -/
inductive Call where
  | toggleBacklight
  | toggleColors
  | stopwatch (call : StopwatchCall)
  | showScreen (screen : String)
  | close
  | settings
  | extensionFunction (extension function parameter : String)
  | model (field : String) (change : ModelChange)
  deriving DecidableEq, Repr

/-- A call as it is written: the name of the function and whatever arguments
stand beside it. -/
structure RawCall where
  action : String
  screenId : Option String
  extensionId : Option String
  function : Option String
  parameter : Option String
  value : Option Source

namespace RawCall

/-- The names of the functions without arguments. -/
def plainCalls : List (String × Call) :=
  [("toggleBacklight", .toggleBacklight), ("toggleColors", .toggleColors),
   ("stopwatch.start", .stopwatch .start), ("stopwatch.stop", .stopwatch .stop),
   ("stopwatch.reset", .stopwatch .reset), ("stopwatch.startStop", .stopwatch .startStop),
   ("stopwatch.nextLap", .stopwatch .nextLap), ("close", .close), ("settings", .settings)]

/-- An argument that must be there. -/
def needed {α : Type} (raw : RawCall) (argument : String) : Option α → Reading α
  | some v => .ok v
  | none => .error (.refused s!"{raw.action} requires {argument}")

/-- What to say of a name that is none. -/
def invalid (raw : RawCall) : Fault := .refused s!"Invalid action: {raw.action}"

/-- The name of a field and that of a change: the parts before and after the
first dot. -/
def splitDot (path : List Char) : Option (List Char × List Char) :=
  match path.dropWhile (· != '.') with
  | _ :: change => some (path.takeWhile (· != '.'), change)
  | [] => none

/-- The change of a model field that a name asks for. -/
def change (raw : RawCall) (name : List Char) : Reading ModelChange :=
  if name = "set".toList then (raw.needed "value" raw.value).map .set
  else if name = "add".toList then (raw.needed "value" raw.value).map .add
  else if name = "subtract".toList then (raw.needed "value" raw.value).map .subtract
  else if name = "increment".toList then .ok .increment
  else if name = "decrement".toList then .ok .decrement
  else .error raw.invalid

/-- The call of a name of the form `model.field.change`, given what follows
`model.`. -/
def modelCall (raw : RawCall) (path : List Char) : Reading Call :=
  match splitDot path with
  | none => .error raw.invalid
  | some (field, name) =>
    if field.isEmpty || name.contains '.' then .error raw.invalid
    else (raw.change name).map (.model (String.ofList field))

/-- What follows a word at the start of a text. -/
def afterWord? (word text : List Char) : Option (List Char) :=
  if word.isPrefixOf text then some (text.drop word.length) else none

/-- The call that is written. -/
def call (raw : RawCall) : Reading Call :=
  match plainCalls.lookup raw.action with
  | some call => .ok call
  | none =>
    if raw.action = "showScreen" then (raw.needed "screenId" raw.screenId).map .showScreen
    else if raw.action = "extensionFunction" then do
      let extension ← raw.needed "extensionId" raw.extensionId
      let function ← raw.needed "function" raw.function
      .ok (.extensionFunction extension function (raw.parameter.getD ""))
    else
      match afterWord? "model.".toList raw.action.toList with
      | some path => raw.modelCall path
      | none => .error raw.invalid

/-- A call as it is written, from a JSON value. -/
def ofJson : Json → Reading RawCall :=
  Fields.fromJson <|
    Fields.done RawCall.mk
      |>.required "action" Json.asText
      |>.optional "screenId" (Json.asOption Json.asText)
      |>.optional "extensionId" (Json.asOption Json.asText)
      |>.optional "function" (Json.asOption Json.asText)
      |>.optional "parameter" (Json.asOption Json.asText)
      |>.optional "value" (Json.asOption Source.ofJson)

end RawCall

/-- A call, from a JSON value. -/
def Call.ofJson (value : Json) : Reading Call :=
  match RawCall.ofJson value with
  | .ok raw => Reading.handOn raw.call
  | .error fault => .error fault

/-! ### Lists of one -/

/-- A list of things that are written as objects; a single object stands for a
list of one. -/
def oneOrMany {α : Type} (read : Json → Reading α) : Json → Reading (List α)
  | .array items => Reading.handOn (Json.readItems read [] items)
  | .object members => Reading.handOn ((read (.object members)).map fun v => [v])
  | other => .error (.refused s!"expected an object or an array, found {other.render}")

/-! ### Actions -/

/-- A call, or a choice between lists of actions by the value of a source. -/
inductive Action where
  | call (call : Call)
  | choose (on : Source) (options : List (String × List Action))

namespace Action

/-- The action that a value of at most the given depth describes. -/
def readAt : (depth : Nat) → Json → Reading Action
  | 0, _ => .error (.refused "Invalid action")
  | depth + 1, value =>
    if (value.member? "action").isSome then Reading.handOn ((Call.ofJson value).map .call)
    else if (value.member? "choose").isSome then
      Reading.handOn <| Fields.fromJson
        (Fields.done Action.choose
          |>.required "choose" Source.ofJson
          |>.required "when" (Json.asMap (oneOrMany (readAt depth)))) value
    else .error (.refused "Invalid action")

/-- The action that a JSON value describes. -/
def ofJson (value : Json) : Reading Action := readAt value.depth value

end Action

/-! ### Handlers -/

/-- A choice around the handlers of several events: for each value of the source
the actions of each event. -/
structure HandlerChoice where
  on : Source
  options : Members (Members (List Action))

/-- The actions of a screen by event. -/
structure Handlers where
  choose : Option HandlerChoice
  events : Members (List Action)

namespace Handlers

/-- Handlers in the middle of being read. -/
structure Draft where
  on : Option Source
  options : Option (Members (Members (List Action)))
  /-- The events so far. -/
  events : Members (List Action)

/-- Takes a member in. -/
def Draft.take (draft : Draft) (key : String) (value : Json) : Reading Draft :=
  if key = "choose" then (Source.ofJson value).map fun on => { draft with on := some on }
  else if key = "when" then
    (Json.asMap (Json.asMap (oneOrMany Action.ofJson)) value).map fun options =>
      { draft with options := some options }
  else
    (oneOrMany Action.ofJson value).map fun actions =>
      { draft with events := draft.events.put key actions }

/-- The handlers, once all members have been taken in. -/
def Draft.finish (draft : Draft) : Reading Handlers :=
  match draft.on, draft.options with
  | some on, some options => .ok ⟨some ⟨on, options⟩, draft.events⟩
  | none, none => .ok ⟨none, draft.events⟩
  | some _, none => .error (.refused "choose requires when")
  | none, some _ => .error (.refused "when requires choose")

/-- Takes members in, one by one. -/
def Draft.takeAll (draft : Draft) : List (String × Json) → Reading Handlers
  | [] => draft.finish
  | (key, value) :: rest =>
    match draft.take key value with
    | .ok draft => draft.takeAll rest
    | .error fault => .error fault

/-- The handlers that the members of an object describe. -/
def ofMembers (members : Members Json) : Reading Handlers :=
  Draft.takeAll ⟨none, none, []⟩ members

end Handlers

end Timepiece
