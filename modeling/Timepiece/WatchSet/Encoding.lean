import Timepiece.WatchSet.Program

/-!
# The bytes of a program

A program is stored in sections, each led by its kind and length.  Inside, every
construct is led by a byte that tells what it is, lists by their count, and parts
whose end cannot be told otherwise by their length.

The functions here are total; a count or length that does not fit its bytes is
cut.  A program for which all of them fit comes back from its bytes.

## Main definitions

* `Program.Source.bytes`, `Program.instructionsBytes`, `Program.controlsBytes`,
  `Program.modelBytes`, `Program.handlersBytes`, `Program.Screen.bytes` — the
  bytes of the parts of a program.
* `Program.offsetTable` — entries of different lengths with their offsets.
* `Program.bytes` — the whole.
-/

namespace Timepiece

namespace Program

/-! ### Counts and lengths -/

/-- A count in one byte. -/
def countByte (n : Nat) : UInt8 := UInt8.ofNat n

/-- Bytes led by their length. -/
def block (body : Bytes) : Bytes := bigEndian 2 body.length ++ body

/-- Bytes led by their kind and length. -/
def sectionBytes (kind : UInt8) (body : Bytes) : Bytes := kind :: block body

/-- The byte that ends a list of sections. -/
def endMark : UInt8 := 0xFF

/-! ### Sources -/

/-- The kind of an origin. -/
def Origin.kind : Origin → UInt8
  | .fixed _ => 0x00
  | .internal _ => 0x01
  | .sensor _ => 0x02
  | .property _ => 0x03
  | .field _ => 0x04

/-- What follows the kind of an origin. -/
def Origin.payload : Origin → Bytes
  | .fixed bytes => countByte bytes.length :: bytes
  | .internal key => [key]
  | .sensor key => [key]
  | .property index => [index]
  | .field id => [id]

/-- The flag of a source with an index. -/
def indexFlag : UInt8 := 0x40

/-- The flag of a source with converters. -/
def converterFlag : UInt8 := 0x80

/-- The flag that converters set. -/
def flagOf (converters : Option (List UInt8)) : UInt8 :=
  if converters.isSome then converterFlag else 0

/-- A chain of converters. -/
def convertersBytes : Option (List UInt8) → Bytes
  | none => []
  | some keys => countByte keys.length :: keys

/-- The bytes of a source. -/
def Source.bytes : Source → Bytes
  | plain origin converters =>
    (origin.kind + flagOf converters) :: origin.payload ++ convertersBytes converters
  | indexed origin index converters =>
    (origin.kind + indexFlag + flagOf converters) :: origin.payload ++ index.bytes ++
      convertersBytes converters

/-! ### Instructions -/

/-- The byte of a call to the stopwatch. -/
def stopwatchKey : StopwatchCall → UInt8
  | .start => 0x30
  | .stop => 0x31
  | .reset => 0x32
  | .startStop => 0x33
  | .nextLap => 0x34

mutual

/-- The bytes of an instruction. -/
def Instruction.bytes : Instruction → Bytes
  | .toggleBacklight => [0x01]
  | .toggleColors => [0x02]
  | .showScreen number => 0x10 :: wordBytes number
  | .settings => [0x11]
  | .close => [0x12]
  | .callFunction index => 0x20 :: wordBytes index
  | .stopwatch call => [stopwatchKey call]
  | .setField field value => 0x40 :: field :: value.bytes
  | .addToField field value => 0x41 :: field :: value.bytes
  | .subtractFromField field value => 0x42 :: field :: value.bytes
  | .incrementField field => [0x43, field]
  | .decrementField field => [0x44, field]
  | .choose on options =>
    0x50 :: on.bytes ++ countByte options.length :: instructionOptionsBytes options

/-- The instructions of a list, one after the other. -/
def instructionBodies : List Instruction → Bytes
  | [] => []
  | instruction :: rest => instruction.bytes ++ instructionBodies rest

/-- The options of a choice: each its ordinal and its list of instructions. -/
def instructionOptionsBytes : List (UInt8 × List Instruction) → Bytes
  | [] => []
  | (ordinal, body) :: rest =>
    ordinal :: block (countByte body.length :: instructionBodies body) ++
      instructionOptionsBytes rest

end

/-- The bytes of a list of instructions. -/
def instructionsBytes (body : List Instruction) : Bytes :=
  countByte body.length :: instructionBodies body

/-! ### Controls -/

/-- The bytes of a position. -/
def Position.bytes (p : Position) : Bytes := [p.x, p.y]

/-- The bytes of a size. -/
def Size.bytes (s : Size) : Bytes := [s.width, s.height]

/-- The bit of a number that is filled up with zeros. -/
def paddedBit (padded : Bool) : UInt8 := if padded then 0x20 else 0

/-- The bytes of a reference to a resource. -/
def resourceBytes (resource : UInt8) : Bytes := [0x01, resource]

/-- The bytes of the style of a number. -/
def NumberStyle.bytes : NumberStyle → Bytes
  | .generated space padded thickness width height =>
    [paddedBit padded + space, thickness, width, height]
  | .font space padded resource => (0x40 + paddedBit padded + space) :: 0 :: resourceBytes resource

/-- The bits of a horizontal alignment. -/
def horizontalBits : HorizontalAlign → UInt8
  | .left => 0x00
  | .center => 0x01
  | .right => 0x02

/-- The bits of a vertical alignment. -/
def verticalBits : VerticalAlign → UInt8
  | .top => 0x00
  | .center => 0x04
  | .bottom => 0x08

/-- The byte of the style of a text. -/
def textStyleByte (style : TextStyle) : UInt8 :=
  horizontalBits style.horizontal + verticalBits style.vertical +
    (if style.multiline then 0x10 else 0)

/-- The byte of an orientation. -/
def orientationByte : Orientation → UInt8
  | .horizontal => 0x00
  | .vertical => 0x20

mutual

/-- The bytes of a control. -/
def Control.bytes : Control → Bytes
  | .number range position style scratch source =>
    0x01 :: range :: position.bytes ++ style.bytes ++ wordBytes scratch ++ source.bytes
  | .progress maxValue position size orientation border scratch source =>
    0x02 :: signedBytes maxValue ++ position.bytes ++ size.bytes ++
      [orientationByte orientation, border, 0, 0] ++ wordBytes scratch ++ source.bytes
  | .text position size font style scratch source =>
    0x04 :: position.bytes ++ size.bytes ++ [font, textStyleByte style, 0, 0] ++
      wordBytes scratch ++ source.bytes
  | .image position size resource =>
    0x05 :: position.bytes ++ size.bytes ++ resourceBytes resource
  | .imageSet position size resource scratch source =>
    0x06 :: position.bytes ++ size.bytes ++ resourceBytes resource ++ wordBytes scratch ++
      source.bytes
  | .choose on scratch options =>
    0x07 :: on.bytes ++ wordBytes scratch ++
      countByte options.length :: controlOptionsBytes options

/-- The controls of a list, one after the other. -/
def controlBodies : List Control → Bytes
  | [] => []
  | control :: rest => control.bytes ++ controlBodies rest

/-- The options of a choice: each its ordinal and its list of controls. -/
def controlOptionsBytes : List (UInt8 × List Control) → Bytes
  | [] => []
  | (ordinal, body) :: rest =>
    ordinal :: block (countByte body.length :: controlBodies body) ++ controlOptionsBytes rest

end

/-- The bytes of a list of controls. -/
def controlsBytes (body : List Control) : Bytes := countByte body.length :: controlBodies body

/-! ### Models -/

/-- The flags of a field: which sources follow, and whether it wraps around. -/
def Field.flags (field : Field) : UInt8 :=
  (if field.initial.isSome then 0x80 else 0) + (if field.overflow then 0x40 else 0) +
    (if field.max.isSome then 0x20 else 0) + (if field.min.isSome then 0x10 else 0)

/-- The bytes of a source, if there is one. -/
def optionalSourceBytes : Option Source → Bytes
  | none => []
  | some source => source.bytes

/-- The bytes of a field. -/
def Field.bytes (field : Field) : Bytes :=
  0x01 :: field.flags :: optionalSourceBytes field.initial ++ optionalSourceBytes field.max ++
    optionalSourceBytes field.min

/-- The bytes of a model. -/
def modelBytes (fields : List Field) : Bytes :=
  countByte fields.length :: fields.flatMap Field.bytes

/-! ### Handlers -/

/-- The bytes of the actions of a handler. -/
def Handler.bytes (handler : Handler) : Bytes := instructionsBytes handler.body

/-- The index of a table of handlers: each event with the place of its actions
behind the index. -/
def handlerIndex (offset : Nat) : List Handler → Bytes
  | [] => []
  | handler :: rest =>
    handler.event :: bigEndian 2 offset ++ handlerIndex (offset + handler.bytes.length) rest

/-- The bytes of a table of handlers. -/
def handlersBytes (handlers : List Handler) : Bytes :=
  countByte handlers.length :: handlerIndex 0 handlers ++ handlers.flatMap Handler.bytes

/-! ### Screens -/

/-- The bytes of a setting. -/
def settingBytes (value : Bool) : Bytes := [0x01, if value then 1 else 0]

/-- The bytes of settings. -/
def settingsBytes (settings : List Bool) : Bytes :=
  countByte settings.length :: settings.flatMap settingBytes

/-- A section that may be missing. -/
def optionalSection {α : Type} (kind : UInt8) (bytes : α → Bytes) : Option α → Bytes
  | none => []
  | some part => sectionBytes kind (bytes part)

/-- The bytes of a screen. -/
def Screen.bytes (screen : Screen) : Bytes :=
  optionalSection 0x05 modelBytes screen.model ++
    sectionBytes 0x01 (controlsBytes screen.controls) ++
    optionalSection 0x02 handlersBytes screen.handlers ++
    (if screen.watchface then [0x04, 0x01] else []) ++
    0x03 :: wordBytes screen.scratch ++
    optionalSection 0x06 settingsBytes screen.settings ++ [endMark]

/-! ### Whole programs -/

/-- The offsets of entries, in a given width, the first one at a given place. -/
def offsets (width start : Nat) : List Bytes → Bytes
  | [] => []
  | entry :: rest => bigEndian width start ++ offsets width (start + entry.length) rest

/-- Where the first entry of an offset table stands. -/
def tableHead (width count : Nat) : Nat := 1 + count * width

/-- Entries led by their count and by their places, measured from the start of
the table. -/
def offsetTable (width : Nat) (entries : List Bytes) : Bytes :=
  countByte entries.length :: offsets width (tableHead width entries.length) entries ++
    entries.flatten

/-- The bytes of the list of properties. -/
def propertiesBytes (properties : List PropertyEntry) : Bytes :=
  countByte properties.length ::
    properties.flatMap fun property => [property.kind.key, property.range.raw]

/-- The bytes of the list of screens. -/
def screensBytes (screens : List Screen) : Bytes := offsetTable 2 (screens.map Screen.bytes)

/-- The bytes of the list of resources. -/
def resourcesBytes (resources : List Bytes) : Bytes := offsetTable 3 resources

/-- What every program starts with. -/
def magic : Bytes := [0x05, 0x53]

/-- The version of the format. -/
def formatVersion : Bytes := [0x00, 0x01]

/-- The bytes of a program. -/
def bytes (program : Program) : Bytes :=
  magic ++ formatVersion ++ longBytes program.id ++
    sectionBytes 0x01 (screensBytes program.screens) ++
    sectionBytes 0x02 (propertiesBytes program.properties) ++
    optionalSection 0x03 resourcesBytes program.resources ++ [endMark]

end Program

end Timepiece
