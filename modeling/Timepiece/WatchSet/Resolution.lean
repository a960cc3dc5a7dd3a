import Timepiece.WatchSet.Document
import Timepiece.WatchSet.Encoding
import Timepiece.WatchSet.NumberRange
import Timepiece.WatchSet.Scope
import Timepiece.WatchSet.Symbols

/-!
# From documents to programs

Every construct of a document is taken to the construct of the program in which
its names are resolved.  The order is that of the document, and the first name
or size that is wrong refuses it; where a construct holds several parts, the
order in which they are looked at is part of what is promised.

What a source is needed for is told to it beforehand, and a source may sharpen
that: a written text takes only its own length, and a field of the model tells
how symbolic values are compared with it.

## Main definitions

* `Need` — what a source is needed for.
* `Source.resolve`, `Action.resolveList`, `Control.resolveList`,
  `Handlers.resolve`, `Screen.resolve` — the constructs of a document as those
  of a program.
-/

namespace Timepiece

open Compiling (lift refuse ensure allocate)

/-- The fields of a model, by name. -/
abbrev Model := Members FieldEntry

/-! ### Sources -/

/-- What a source is needed for. -/
structure Need where
  kind : ValueKind
  range : Range
  /-- How symbolic values are compared with the source, if they are. -/
  meaning : Option Meaning

namespace Need

/-- A number. -/
def number (range : Range) : Need := ⟨.number, range, none⟩

/-- A number of which nothing else is known. -/
def anyNumber : Need := number ⟨0⟩

/-- A text of at most a given length. -/
def text (length : Nat) : Need := ⟨.text, ⟨UInt8.ofNat length⟩, none⟩

end Need

/-- A list whose count fits one byte. -/
def countFits (what : Counted) (count : Nat) : Compiling Unit :=
  ensure (count ≤ maxCount) (.tooMany what)

/-- A part whose length fits two bytes. -/
def lengthFits (what : Measured) (length : Nat) : Compiling Unit :=
  ensure (length ≤ maxLength) (.tooLarge what length)

namespace Source

/-- The number of a literal. -/
def literalNumber (meaning : Option Meaning) (literal : Literal) : Except Refusal Int :=
  match meaning, literal with
  | some meaning, literal => meaning.ordinal literal.symbol
  | none, .integer n => .ok n
  | none, .text s =>
    match Text.signed64? (Text.trim s.toList) with
    | some n => .ok n
    | none => .error (.notANumber s)

/-- The bytes of a literal that is needed as a number. -/
def numberBytes (meaning : Option Meaning) (literal : Literal) : Except Refusal Bytes :=
  match literalNumber meaning literal with
  | .error refusal => .error refusal
  | .ok n =>
    if Text.inSigned32 n then .ok (signedBytes (Int32.ofInt n)) else .error (.numberTooLarge n)

/-- The bytes of a literal that is needed as a text. -/
def textBytes (literal : Literal) : Except Refusal Bytes :=
  let bytes := literal.symbol.toUTF8.toList
  if bytes.length ≤ maxCount then .ok bytes else .error (.textTooLong bytes.length)

/-- A literal, and the need as it sharpens it. -/
def resolveFixed (need : Need) (literal : Literal) : Except Refusal (Program.Origin × Need) :=
  match need.kind with
  | .text =>
    match textBytes literal with
    | .ok bytes => .ok (.fixed bytes, { need with range := ⟨UInt8.ofNat bytes.length⟩ })
    | .error refusal => .error refusal
  | .number =>
    match numberBytes need.meaning literal with
    | .ok bytes => .ok (.fixed bytes, need)
    | .error refusal => .error refusal
  | .ordinal => .error (.fixedNotSupported need.kind)

/-- A name that stands for a number of the watch. -/
def resolveKey (need : Need) (source name : String) (table : List (String × UInt8))
    (unknown : Refusal) : Except Refusal UInt8 :=
  if need.kind = .number then
    match Symbols.key? table name with
    | some key => .ok key
    | none => .error unknown
  else .error (.kindNotProduced source need.kind)

/-- An origin, and the need as it sharpens it. -/
def resolveOrigin (around : Surroundings) (model : Model) (need : Need) :
    Origin → Compiling (Program.Origin × Need)
  | .fixed literal => lift (resolveFixed need literal)
  | .internal name => do
    let key ← lift (resolveKey need "internal" name Symbols.internal (.unknownInternal name))
    pure (.internal key, need)
  | .sensor name => do
    let key ← lift (resolveKey need "sensor" name Symbols.sensor (.unknownSensor name))
    pure (.sensor key, need)
  | .extension extension property => do
    let index ← Compiling.property around ⟨extension, property, need.kind, need.range⟩
    pure (.property index, need)
  | .model name =>
    match model.find? name with
    | some entry => pure (.field entry.id, { need with meaning := some entry.meaning })
    | none => refuse (.unknownField name)

/-- The keys of converters. -/
def converterKeys : List String → Except Refusal (List UInt8)
  | [] => .ok []
  | name :: rest =>
    match Symbols.key? Symbols.converter name with
    | none => .error (.unknownConverter name)
    | some key => (converterKeys rest).map (key :: ·)

/-- A chain of converters. -/
def resolveConverters : Option (List String) → Compiling (Option (List UInt8))
  | none => pure none
  | some names => do
    countFits .converters names.length
    let keys ← lift (converterKeys names)
    pure (some keys)

/-- A source, and the need as it sharpens it.  The index is a number of which
nothing else is known, and comes before the converters. -/
def resolve (around : Surroundings) (model : Model) (need : Need) :
    Source → Compiling (Program.Source × Need)
  | plain origin converters => do
    let (origin, need) ← resolveOrigin around model need origin
    let converters ← resolveConverters converters
    pure (.plain origin converters, need)
  | indexed origin index converters => do
    let (origin, need) ← resolveOrigin around model need origin
    let (index, _) ← resolve around model .anyNumber index
    let converters ← resolveConverters converters
    pure (.indexed origin index converters, need)

/-- A source of which only the bytes matter. -/
def resolveFor (around : Surroundings) (model : Model) (need : Need) (source : Source) :
    Compiling Program.Source := do
  let (source, _) ← source.resolve around model need
  pure source

end Source

/-- The ordinal of an option of a choice.  Only fields of the model can be chosen
by. -/
def optionOrdinal (meaning : Option Meaning) (option : String) : Except Refusal UInt8 :=
  match meaning with
  | none => .error (.optionNotSupported option)
  | some meaning =>
    match meaning.ordinal option with
    | .error refusal => .error refusal
    | .ok n => if 0 ≤ n ∧ n < 256 then .ok (UInt8.ofNat n.toNat) else .error (.optionOutOfRange option)

/-! ### Actions -/

/-- The instruction of a change of a field. -/
def ModelChange.resolve (around : Surroundings) (model : Model) (entry : FieldEntry) :
    ModelChange → Compiling Program.Instruction
  | .set value => do
    pure (.setField entry.id (← value.resolveFor around model (need entry)))
  | .add value => do
    pure (.addToField entry.id (← value.resolveFor around model (need entry)))
  | .subtract value => do
    pure (.subtractFromField entry.id (← value.resolveFor around model (need entry)))
  | .increment => pure (.incrementField entry.id)
  | .decrement => pure (.decrementField entry.id)
where
  /-- A number that is compared with the field. -/
  need (entry : FieldEntry) : Need := { Need.anyNumber with meaning := some entry.meaning }

/-- The instruction of a call. -/
def Call.resolve (around : Surroundings) (model : Model) : Call → Compiling Program.Instruction
  | .toggleBacklight => pure .toggleBacklight
  | .toggleColors => pure .toggleColors
  | .close => pure .close
  | .settings => pure .settings
  | .stopwatch call => pure (.stopwatch call)
  | .showScreen screen => do pure (.showScreen (← lift (around.screen screen)))
  | .extensionFunction extension function parameter => do
    pure (.callFunction (← Compiling.function ⟨extension, function, parameter⟩))
  | .model field change =>
    match model.find? field with
    | some entry => change.resolve around model entry
    | none => refuse (.unknownActionField field)

namespace Action

mutual

/-- The instruction of an action. -/
def resolve (around : Surroundings) (model : Model) : Action → Compiling Program.Instruction
  | .call c => c.resolve around model
  | .choose on options => do
    let (on, need) ← on.resolve around model .anyNumber
    countFits .chooseOptions options.length
    let options ← resolveOptions around model need.meaning options
    pure (.choose on options)

/-- The instructions of the actions of a list, one after the other. -/
def resolveAll (around : Surroundings) (model : Model) :
    List Action → Compiling (List Program.Instruction)
  | [] => pure []
  | action :: rest => do
    let instruction ← resolve around model action
    let instructions ← resolveAll around model rest
    pure (instruction :: instructions)

/-- The options of a choice. -/
def resolveOptions (around : Surroundings) (model : Model) (meaning : Option Meaning) :
    List (String × List Action) → Compiling (List (UInt8 × List Program.Instruction))
  | [] => pure []
  | (option, actions) :: rest => do
    let ordinal ← lift (optionOrdinal meaning option)
    countFits .actions actions.length
    let body ← resolveAll around model actions
    lengthFits .chooseOption (Program.instructionsBytes body).length
    let options ← resolveOptions around model meaning rest
    pure ((ordinal, body) :: options)

end

/-- The instructions of a list of actions. -/
def resolveList (around : Surroundings) (model : Model) (actions : List Action) :
    Compiling (List Program.Instruction) := do
  countFits .actions actions.length
  resolveAll around model actions

end Action

/-! ### Handlers -/

/-- The byte of an event. -/
def eventKey (name : String) : Except Refusal UInt8 :=
  match Symbols.key? Symbols.event name with
  | some key => .ok key
  | none => .error (.unknownEvent name)

namespace HandlerChoice

/-- The events of a choice, each at its first place. -/
def events (choice : HandlerChoice) : List String :=
  (choice.options.flatMap fun option => option.2.names).foldl
    (fun seen event => if seen.contains event then seen else seen ++ [event]) []

/-- The options that say something of an event, with what they say. -/
def optionsFor (choice : HandlerChoice) (event : String) : List (String × List Action) :=
  choice.options.filterMap fun option =>
    (option.2.find? event).map fun actions => (option.1, actions)

end HandlerChoice

namespace Handlers

/-- Puts a handler into a list of handlers by increasing event. -/
def insert (handler : Program.Handler) : List Program.Handler → List Program.Handler
  | [] => [handler]
  | first :: rest =>
    if handler.event < first.event then handler :: first :: rest
    else first :: insert handler rest

/-- The handlers of events, put to those already there.  No event may be handled
twice. -/
def resolveInto (around : Surroundings) (model : Model) (done : List Program.Handler) :
    List (String × List Action) → Compiling (List Program.Handler)
  | [] => pure done
  | (event, actions) :: rest => do
    let key ← lift (eventKey event)
    ensure (!done.any (·.event == key)) (.eventHandledTwice event)
    let body ← Action.resolveList around model actions
    resolveInto around model (insert ⟨key, body⟩ done) rest

/-- The handlers that a choice prescribes for some events, put to those already
there.  Each has one instruction, the choice between what its options say of the
event; what the choice is made by is looked up for every event anew. -/
def resolveChoice (around : Surroundings) (model : Model) (choice : HandlerChoice)
    (done : List Program.Handler) : List String → Compiling (List Program.Handler)
  | [] => pure done
  | event :: rest => do
    let key ← lift (eventKey event)
    ensure (!done.any (·.event == key)) (.eventHandledTwice event)
    let instruction ← Action.resolve around model (.choose choice.on (choice.optionsFor event))
    resolveChoice around model choice (insert ⟨key, [instruction]⟩ done) rest

/-- Whether the places of all handlers fit two bytes. -/
def placesFit (start : Nat) : List Program.Handler → Bool
  | [] => true
  | handler :: rest => start ≤ maxLength && placesFit (start + handler.bytes.length) rest

/-- The handlers of a screen, by increasing event.  Those of the choice are looked
at first. -/
def resolve (around : Surroundings) (model : Model) (handlers : Handlers) :
    Compiling (List Program.Handler) := do
  let chosen ← match handlers.choose with
    | none => pure []
    | some choice => resolveChoice around model choice [] choice.events
  let resolved ← resolveInto around model chosen handlers.events
  ensure (placesFit 0 resolved) .handlersTooLarge
  pure resolved

end Handlers

/-! ### Controls -/

/-- The width of the screen. -/
def screenWidth : Nat := 144

/-- The height of the screen. -/
def screenHeight : Nat := 168

/-- A number that is not negative and not above a bound.  One that is not given
is zero. -/
def byteWithin (name : String) (greatest : Nat) (value : Option Int) : Except Refusal UInt8 :=
  let n := value.getD 0
  if 0 ≤ n ∧ n ≤ greatest then .ok (UInt8.ofNat n.toNat) else .error (.outOfRange name greatest)

/-- A place on the screen. -/
def Position.resolve (p : Position) : Except Refusal Program.Position := do
  let x ← byteWithin "x" (screenWidth - 1) p.x
  let y ← byteWithin "y" (screenHeight - 1) p.y
  pure ⟨x, y⟩

/-- A size on the screen. -/
def Size.resolve (s : Size) : Except Refusal Program.Size := do
  let width ← byteWithin "width" screenWidth s.width
  let height ← byteWithin "height" screenHeight s.height
  pure ⟨width, height⟩

/-- The style of a number of a given range.  Numbers led by a one are never
filled up. -/
def NumberStyle.resolve (around : Surroundings) (range : NumberRange) :
    NumberStyle → Except Refusal Program.NumberStyle
  | .generated space leftPadded thickness width height => do
    let space ← byteWithin "space" 31 space
    let thickness ← byteWithin "thickness" 63 thickness
    let width ← byteWithin "width" screenWidth width
    let height ← byteWithin "height" screenHeight height
    pure (.generated space (leftPadded && range.allowsPadding) thickness width height)
  | .numbersFont space leftPadded resource => do
    let space ← byteWithin "space" 31 space
    let resource ← around.resource resource
    pure (.font space (leftPadded && range.allowsPadding) resource)

/-- How many bytes of scratch memory a number takes. -/
def numberScratch : Nat := 4

/-- A number. -/
def NumberControl.resolve (around : Surroundings) (model : Model) (control : NumberControl) :
    Compiling Program.Control := do
  let range ← lift (match NumberRange.ofText? control.numberRange with
    | some range => .ok range
    | none => .error (.unknownNumberRange control.numberRange))
  let position ← lift control.position.resolve
  let style ← lift (control.style.resolve around range)
  let scratch ← allocate numberScratch
  let source ← control.source.resolveFor around model (.number range.dataRange)
  pure (.number range.key position style scratch source)

/-- The length of a text that does not give one. -/
def defaultTextLength : Int := 20

/-- A text.  It takes one byte of scratch memory more than the longest text that
its source can yield. -/
def TextControl.resolve (around : Surroundings) (model : Model) (control : TextControl) :
    Compiling Program.Control := do
  let position ← lift control.position.resolve
  let size ← lift control.size.resolve
  let font ← lift (match Symbols.key? Symbols.font control.font with
    | some key => .ok key
    | none => .error (.unknownFont control.font))
  let length := control.length.getD defaultTextLength
  ensure (0 ≤ length && length ≤ maxTextLength) .textLengthOutOfRange
  let (source, need) ← control.source.resolve around model (.text length.toNat)
  let scratch ← allocate (need.range.raw.toNat + 1)
  pure (.text position size font control.style scratch source)

/-- A progress bar. -/
def ProgressControl.resolve (around : Surroundings) (model : Model) (control : ProgressControl) :
    Compiling Program.Control := do
  ensure (Text.inSigned32 control.maxValue) .maxValueOutOfRange
  let position ← lift control.position.resolve
  let size ← lift control.size.resolve
  let border ← lift (byteWithin "border" 255 control.style.border)
  let scratch ← allocate numberScratch
  let range := Range.number (byteCount control.maxValue.toNat) 0
  let source ← control.source.resolveFor around model (.number range)
  pure (.progress (Int32.ofInt control.maxValue) position size control.style.orientation border
    scratch source)

/-- An image. -/
def ImageControl.resolve (around : Surroundings) (control : ImageControl) :
    Except Refusal Program.Control := do
  let position ← control.position.resolve
  let size ← control.size.resolve
  let resource ← around.resource control.resource
  pure (.image position size resource)

/-- The room that the place of an image in a set needs. -/
def imageSetRange : Range := Range.number 2 0

/-- An image out of a set. -/
def ImageSetControl.resolve (around : Surroundings) (model : Model) (control : ImageSetControl) :
    Compiling Program.Control := do
  let position ← lift control.position.resolve
  let size ← lift control.size.resolve
  let resource ← lift (around.resource control.resource)
  let scratch ← allocate numberScratch
  let source ← control.source.resolveFor around model (.number imageSetRange)
  pure (.imageSet position size resource scratch source)

/-- How many bytes of scratch memory a choice between controls takes. -/
def choiceScratch : Nat := 1

namespace Control

mutual

/-- The control of a program. -/
def resolve (around : Surroundings) (model : Model) : Control → Compiling Program.Control
  | .number control => control.resolve around model
  | .text control => control.resolve around model
  | .progress control => control.resolve around model
  | .image control => lift (control.resolve around)
  | .imageSet control => control.resolve around model
  | .choose on options => do
    let (on, need) ← on.resolve around model .anyNumber
    let scratch ← allocate choiceScratch
    countFits .chooseOptions options.length
    let options ← resolveOptions around model need.meaning options
    pure (.choose on scratch options)

/-- The controls of a list, one after the other. -/
def resolveAll (around : Surroundings) (model : Model) :
    List Control → Compiling (List Program.Control)
  | [] => pure []
  | control :: rest => do
    let record ← resolve around model control
    let records ← resolveAll around model rest
    pure (record :: records)

/-- The options of a choice. -/
def resolveOptions (around : Surroundings) (model : Model) (meaning : Option Meaning) :
    List (String × List Control) → Compiling (List (UInt8 × List Program.Control))
  | [] => pure []
  | (option, controls) :: rest => do
    let ordinal ← lift (optionOrdinal meaning option)
    countFits .controls controls.length
    let body ← resolveAll around model controls
    lengthFits .chooseOption (Program.controlsBytes body).length
    let options ← resolveOptions around model meaning rest
    pure ((ordinal, body) :: options)

end

/-- The controls of a list. -/
def resolveList (around : Surroundings) (model : Model) (controls : List Control) :
    Compiling (List Program.Control) := do
  countFits .controls controls.length
  resolveAll around model controls

end Control

/-! ### Models -/

/-- A source that may be missing, needed as a number. -/
def Source.resolveOptional (around : Surroundings) (model : Model) (need : Need) :
    Option Source → Compiling (Option Program.Source)
  | none => pure none
  | some source => do pure (some (← source.resolveFor around model need))

/-- A field of a model, and the fields known from there on.  A field knows itself
and those before it.  An enumeration is a number between zero and its last
ordinal. -/
def ModelField.resolve (around : Surroundings) (model : Model) (name : String) (id : UInt8) :
    ModelField → Compiling (Program.Field × Model)
  | .integer value max min overflow => do
    let model := model.put name ⟨id, .integer⟩
    let value ← Source.resolveOptional around model .anyNumber value
    let max ← Source.resolveOptional around model .anyNumber max
    let min ← Source.resolveOptional around model .anyNumber min
    pure (⟨value, max, min, overflow⟩, model)
  | .enumeration values value overflow => do
    ensure (!values.isEmpty) (.emptyEnumeration name)
    let meaning := Meaning.ofSymbols values
    let model := model.put name ⟨id, meaning⟩
    let need := { Need.anyNumber with meaning := some meaning }
    let value ← Source.resolveOptional around model need value
    let max ← (Source.constant (values.length - 1)).resolveFor around model .anyNumber
    let min ← (Source.constant 0).resolveFor around model .anyNumber
    pure (⟨value, some max, some min, overflow⟩, model)

/-- The fields of a model, numbered from a given one on, and what is known of
them. -/
def resolveFields (around : Surroundings) (model : Model) (id : Nat) :
    List (String × ModelField) → Compiling (List Program.Field × Model)
  | [] => pure ([], model)
  | (name, field) :: rest => do
    let (field, model) ← field.resolve around model name (UInt8.ofNat id)
    let (fields, model) ← resolveFields around model (id + 1) rest
    pure (field :: fields, model)

/-- A model. -/
def resolveModel (around : Surroundings) (fields : Members ModelField) :
    Compiling (List Program.Field × Model) := do
  countFits .modelFields fields.length
  let (fields, model) ← resolveFields around [] 0 fields
  lengthFits .screenModel (Program.modelBytes fields).length
  pure (fields, model)

/-! ### Screens -/

/-- The values of settings. -/
def settingValues : List (String × Bool) → Except Refusal (List Bool)
  | [] => .ok []
  | (name, value) :: rest =>
    if name = "invertible" then (settingValues rest).map (value :: ·)
    else .error (.unknownSetting name)

/-- The settings of a screen. -/
def resolveSettings (settings : Members Bool) : Compiling (List Bool) := do
  countFits .settings settings.length
  let values ← lift (settingValues settings)
  lengthFits .screenSettings (Program.settingsBytes values).length
  pure values

/-- Whether the actions of a watch face apply where no handler does. -/
def resolveDefaultActions : Option String → Except Refusal Bool
  | none => .ok false
  | some name => if name = "watchface" then .ok true else .error (.unknownDefaultActions name)

namespace Screen

/-- The model of a screen, which may have none. -/
def resolveModel (around : Surroundings) :
    Option (Members ModelField) → Compiling (Option (List Program.Field) × Model)
  | none => pure (none, [])
  | some fields => do
    let (fields, model) ← Timepiece.resolveModel around fields
    pure (some fields, model)

/-- The handlers of a screen, which may have none. -/
def resolveHandlers (around : Surroundings) (model : Model) :
    Option Handlers → Compiling (Option (List Program.Handler))
  | none => pure none
  | some handlers => do
    let handlers ← handlers.resolve around model
    lengthFits .screenActions (Program.handlersBytes handlers).length
    pure (some handlers)

/-- The settings of a screen, which may have none. -/
def resolveSettings : Option (Members Bool) → Compiling (Option (List Bool))
  | none => pure none
  | some settings => do pure (some (← Timepiece.resolveSettings settings))

/-- A screen.  It starts with an empty scratch memory; how much of it was handed
out is noted before the settings are looked at. -/
def resolve (around : Surroundings) (screen : Screen) : Compiling Program.Screen := do
  modify fun ledger => { ledger with scratch := .empty }
  let (fields, model) ← resolveModel around screen.model
  let controls ← Control.resolveList around model screen.controls
  lengthFits .screenControls (Program.controlsBytes controls).length
  let handlers ← resolveHandlers around model screen.actions
  let watchface ← lift (resolveDefaultActions screen.defaultActions)
  let ledger ← get
  let settings ← resolveSettings screen.settings
  pure ⟨fields, controls, handlers, watchface, UInt16.ofNat ledger.scratch.size, settings⟩

/-- The screens of a document, one after the other. -/
def resolveAll (around : Surroundings) : List Screen → Compiling (List Program.Screen)
  | [] => pure []
  | screen :: rest => do
    let first ← screen.resolve around
    let others ← resolveAll around rest
    pure (first :: others)

end Screen

end Timepiece
