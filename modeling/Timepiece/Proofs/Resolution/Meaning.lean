import Mathlib
import Timepiece.Proofs.Resolution.Handlers
import Timepiece.Proofs.Resolution.Tables
import Timepiece.Proofs.Resolution.Yields

/-!
# What stands for what

A construct of a program stands for one of a document if it has the same shape and
every name has been replaced by what the name means: by the key of a table of the
watch, by the position of a screen, resource or field, by a place in the table of
properties or functions at which exactly that property or function is found, or by the
ordinal of an option.  Texts and numbers have become their bytes, what was left out is
zero, and controls have their scratch memory one after the other.

Nothing here says how a program is found.  The relations mention the finished tables
only, and for fields the declarations of the screen.

## Main definitions

* `Origin.Stands`, `Source.Stands` — sources, with what they are needed for and how a
  source sharpens that.
* `Action.Stands`, `Handlers.Stand` — actions and handlers.
* `Control.Stands` — controls, with the scratch memory before and after them.
* `ModelField.Stands`, `Screen.Stands` — models and screens.
-/

namespace Timepiece

variable (around : Surroundings) (tables : Tables) (fields : Members ModelField)

/-! ### Sources -/

/-- How symbolic values are compared with a field. -/
def ModelField.meaning : ModelField → Meaning
  | integer _ _ _ _ => .integer
  | enumeration values _ _ => .ofSymbols values

/-- What an origin has become.  A text takes only the room of its own bytes, and a field
tells how values are compared with it. -/
inductive Origin.Stands : Need → Origin → Program.Origin → Need → Prop
  | text {need : Need} {literal : Literal} {bytes : Bytes} : need.kind = .text →
    bytes = literal.symbol.toUTF8.toList → bytes.length ≤ maxCount →
    Stands need (.fixed literal) (.fixed bytes)
      { need with range := ⟨UInt8.ofNat bytes.length⟩ }
  | number {need : Need} {literal : Literal} {n : Int} : need.kind = .number →
    Source.literalNumber need.meaning literal = .ok n → Text.inSigned32 n = true →
    Stands need (.fixed literal) (.fixed (signedBytes (Int32.ofInt n))) need
  | internal {need : Need} {name : String} {key : UInt8} : need.kind = .number →
    Symbols.key? Symbols.internal name = some key →
    Stands need (.internal name) (.internal key) need
  | sensor {need : Need} {name : String} {key : UInt8} : need.kind = .number →
    Symbols.key? Symbols.sensor name = some key →
    Stands need (.sensor name) (.sensor key) need
  | extension {need : Need} {owner name : String} {index : UInt8} {entry : Property} :
    tables.properties[index.toNat]? = some entry →
    entry.Serves ⟨owner, name, need.kind, need.range⟩ →
    Stands need (.extension owner name) (.property index) need
  | model {need : Need} {name : String} {id : UInt8} {field : ModelField} :
    fields[id.toNat]? = some (name, field) →
    Stands need (.model name) (.field id) { need with meaning := some field.meaning }

/-- What a chain of converters has become. -/
def ConvertersStand : Option (List String) → Option (List UInt8) → Prop :=
  Option.Rel (List.Forall₂ fun name key => Symbols.key? Symbols.converter name = some key)

/-- What a source has become.  An index is some number. -/
inductive Source.Stands : Need → Source → Program.Source → Need → Prop
  | plain {need need' : Need} {origin : Origin} {out : Program.Origin}
    {converters : Option (List String)} {keys : Option (List UInt8)} :
    origin.Stands tables fields need out need' → ConvertersStand converters keys →
    Stands need (.plain origin converters) (.plain out keys) need'
  | indexed {need need' needed : Need} {origin : Origin} {out : Program.Origin}
    {index : Source} {place : Program.Source} {converters : Option (List String)}
    {keys : Option (List UInt8)} :
    origin.Stands tables fields need out need' → Stands .anyNumber index place needed →
    ConvertersStand converters keys →
    Stands need (.indexed origin index converters) (.indexed out place keys) need'

/-- What a source has become of which only the bytes matter. -/
def Source.StandsFor (need : Need) (source : Source) (out : Program.Source) : Prop :=
  ∃ need', source.Stands tables fields need out need'

/-! ### Actions -/

/-- What a change of a field has become. -/
inductive ModelChange.Stands (id : UInt8) (field : ModelField) :
    ModelChange → Program.Instruction → Prop
  | set {value : Source} {out : Program.Source} :
    value.StandsFor tables fields { Need.anyNumber with meaning := some field.meaning } out →
    Stands id field (.set value) (.setField id out)
  | add {value : Source} {out : Program.Source} :
    value.StandsFor tables fields { Need.anyNumber with meaning := some field.meaning } out →
    Stands id field (.add value) (.addToField id out)
  | subtract {value : Source} {out : Program.Source} :
    value.StandsFor tables fields { Need.anyNumber with meaning := some field.meaning } out →
    Stands id field (.subtract value) (.subtractFromField id out)
  | increment : Stands id field .increment (.incrementField id)
  | decrement : Stands id field .decrement (.decrementField id)

/-- What a call has become. -/
inductive Call.Stands : Call → Program.Instruction → Prop
  | toggleBacklight : Stands .toggleBacklight .toggleBacklight
  | toggleColors : Stands .toggleColors .toggleColors
  | stopwatch {call : StopwatchCall} : Stands (.stopwatch call) (.stopwatch call)
  | close : Stands .close .close
  | settings : Stands .settings .settings
  | showScreen {screen : String} {number : UInt16} :
    around.screens[number.toNat]? = some screen → Stands (.showScreen screen) (.showScreen number)
  | callFunction {owner name parameter : String} {index : UInt16} :
    tables.functions[index.toNat]? = some ⟨owner, name, parameter⟩ →
    Stands (.extensionFunction owner name parameter) (.callFunction index)
  | model {name : String} {change : ModelChange} {id : UInt8} {field : ModelField}
    {out : Program.Instruction} : fields[id.toNat]? = some (name, field) →
    change.Stands tables fields id field out → Stands (.model name change) out

/-- What an action has become. -/
inductive Action.Stands : Action → Program.Instruction → Prop
  | call {call : Call} {out : Program.Instruction} : call.Stands around tables fields out →
    Stands (.call call) out
  | choose {on : Source} {need : Need} {source : Program.Source}
    {options : List (String × List Action)} {resolved : List (UInt8 × List Program.Instruction)} :
    on.Stands tables fields .anyNumber source need →
    List.Forall₂ (fun option out => optionOrdinal need.meaning option.1 = .ok out.1) options
      resolved →
    List.Forall₂ (fun option out => List.Forall₂ Stands option.2 out.2) options resolved →
    Stands (.choose on options) (.choose source resolved)

/-- What the actions of an event have become. -/
structure HandlerStands (event : String × List Action) (out : Program.Handler) : Prop where
  key : Symbols.key? Symbols.event event.1 = some out.event
  body : List.Forall₂ (Action.Stands around tables fields) event.2 out.body

/-- What handlers have become: one for every event, by increasing event. -/
def Handlers.Stand (handlers : Handlers) (out : List Program.Handler) : Prop :=
  ∃ listed, List.Forall₂ (HandlerStands around tables fields) handlers.byEvent listed ∧
    out.Perm listed ∧ out.Pairwise fun a b => a.event < b.event

/-! ### Parts of controls -/

/-- What a coordinate or length has become.  One that is not given is zero. -/
def LengthStands (value : Option Int) (out : UInt8) : Prop := (out.toNat : Int) = value.getD 0

/-- What a place has become. -/
structure Position.Stands (position : Position) (out : Program.Position) : Prop where
  x : LengthStands position.x out.x
  y : LengthStands position.y out.y

/-- What a size has become. -/
structure Size.Stands (size : Size) (out : Program.Size) : Prop where
  width : LengthStands size.width out.width
  height : LengthStands size.height out.height

/-- What the style of a number has become.  Only numbers without a leading one are
filled up. -/
inductive NumberStyle.Stands (range : NumberRange) : NumberStyle → Program.NumberStyle → Prop
  | generated {space thickness width height : Option Int} {padded : Bool}
    {space' thickness' width' height' : UInt8} : LengthStands space space' → space'.toNat < 32 →
    LengthStands thickness thickness' → LengthStands width width' → LengthStands height height' →
    Stands range (.generated space padded thickness width height)
      (.generated space' (padded && !range.leadingOne) thickness' width' height')
  | font {space : Option Int} {padded : Bool} {resource : String} {space' index : UInt8} :
    LengthStands space space' → space'.toNat < 32 →
    around.resources[index.toNat]? = some resource →
    Stands range (.numbersFont space padded resource)
      (.font space' (padded && !range.leadingOne) index)

/-! ### Controls -/

/-- What a control has become, with how much of the scratch memory has been handed out
before and after it. -/
inductive Control.Stands : Control → Nat → Program.Control → Nat → Prop
  | number {control : NumberControl} {range : NumberRange} {position : Program.Position}
    {style : Program.NumberStyle} {scratch : UInt16} {source : Program.Source} :
    NumberRange.ofText? control.numberRange = some range → control.position.Stands position →
    control.style.Stands around range style →
    control.source.StandsFor tables fields (.number range.dataRange) source →
    Stands (.number control) scratch.toNat (.number range.key position style scratch source)
      (scratch.toNat + numberScratch)
  | text {control : TextControl} {position : Program.Position} {size : Program.Size}
    {font : UInt8} {scratch : UInt16} {source : Program.Source} {need : Need} :
    control.position.Stands position → control.size.Stands size →
    Symbols.key? Symbols.font control.font = some font →
    control.source.Stands tables fields
      (.text (control.length.getD defaultTextLength).toNat) source need →
    Stands (.text control) scratch.toNat (.text position size font control.style scratch source)
      (scratch.toNat + (need.range.raw.toNat + 1))
  | progress {control : ProgressControl} {position : Program.Position} {size : Program.Size}
    {maxValue : Int32} {border : UInt8} {scratch : UInt16} {source : Program.Source} :
    maxValue.toInt = control.maxValue → control.position.Stands position →
    control.size.Stands size → LengthStands control.style.border border →
    control.source.StandsFor tables fields
      (.number (Range.number (byteCount control.maxValue.toNat) 0)) source →
    Stands (.progress control) scratch.toNat
      (.progress maxValue position size control.style.orientation border scratch source)
      (scratch.toNat + numberScratch)
  | image {control : ImageControl} {position : Program.Position} {size : Program.Size}
    {index : UInt8} {scratch : Nat} : control.position.Stands position →
    control.size.Stands size → around.resources[index.toNat]? = some control.resource →
    Stands (.image control) scratch (.image position size index) scratch
  | imageSet {control : ImageSetControl} {position : Program.Position} {size : Program.Size}
    {index : UInt8} {scratch : UInt16} {source : Program.Source} :
    control.position.Stands position → control.size.Stands size →
    around.resources[index.toNat]? = some control.resource →
    control.source.StandsFor tables fields (.number imageSetRange) source →
    Stands (.imageSet control) scratch.toNat (.imageSet position size index scratch source)
      (scratch.toNat + numberScratch)
  | choose {on : Source} {need : Need} {source : Program.Source} {scratch : UInt16}
    {options : List (String × List Control)} {resolved : List (UInt8 × List Program.Control)}
    {after : Nat} : on.Stands tables fields .anyNumber source need →
    List.Forall₂ (fun option out => optionOrdinal need.meaning option.1 = .ok out.1) options
      resolved →
    Threaded (fun option before out after => Threaded Stands option.2 before out.2 after) options
      (scratch.toNat + choiceScratch) resolved after →
    Stands (.choose on options) scratch.toNat (.choose source scratch resolved) after

/-! ### Models -/

/-- What a field of a model has become.  An enumeration is bounded by zero and its last
ordinal. -/
inductive ModelField.Stands : ModelField → Program.Field → Prop
  | integer {value max min : Option Source} {value' max' min' : Option Program.Source}
    {overflow : Bool} :
    Option.Rel (Source.StandsFor tables fields .anyNumber) value value' →
    Option.Rel (Source.StandsFor tables fields .anyNumber) max max' →
    Option.Rel (Source.StandsFor tables fields .anyNumber) min min' →
    Stands (.integer value max min overflow) ⟨value', max', min', overflow⟩
  | enumeration {values : List String} {value : Option Source} {value' : Option Program.Source}
    {max min : Program.Source} {overflow : Bool} : values ≠ [] →
    Option.Rel (Source.StandsFor tables fields
      { Need.anyNumber with meaning := some (.ofSymbols values) }) value value' →
    (Source.constant (values.length - 1)).StandsFor tables fields .anyNumber max →
    (Source.constant 0).StandsFor tables fields .anyNumber min →
    Stands (.enumeration values value overflow) ⟨value', some max, some min, overflow⟩

/-! ### Screens -/

/-- The fields that a screen declares. -/
def Screen.declared (screen : Screen) : Members ModelField := screen.model.getD []

/-- What a screen has become. -/
structure Screen.Stands (screen : Screen) (out : Program.Screen) : Prop where
  model : Option.Rel
    (List.Forall₂ fun field out => field.2.Stands tables screen.declared out)
    screen.model out.model
  controls : Threaded (Control.Stands around tables screen.declared) screen.controls 0 out.controls
    out.scratch.toNat
  handlers : Option.Rel (Handlers.Stand around tables screen.declared) screen.actions out.handlers
  defaultActions : screen.defaultActions = if out.watchface then some "watchface" else none
  settings : out.settings = screen.settings.map fun settings => settings.map Prod.snd

end Timepiece
