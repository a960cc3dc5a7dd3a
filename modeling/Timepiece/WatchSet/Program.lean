import Timepiece.External.Property
import Timepiece.WatchSet.Control

/-!
# Programs

A program is a document in which every name has been replaced by what it stands
for: by a byte of a table, the number of a field, screen, resource, property or
function, or the ordinal of an option.  Order and nesting are those of the
document.

## Main definitions

* `Program.Source`, `Program.Instruction`, `Program.Control`, `Program.Field`,
  `Program.Screen` — the parts of a program.
* `Program` — the whole.
-/

namespace Timepiece

namespace Program

/-! ### Sources -/

/-- Where a value comes from. -/
inductive Origin where
  /-- The bytes of a number or text. -/
  | fixed (bytes : Bytes)
  | internal (key : UInt8)
  | sensor (key : UInt8)
  | property (index : UInt8)
  | field (id : UInt8)
  deriving DecidableEq, Repr

/-- An origin with its index and its converters. -/
inductive Source where
  | plain (origin : Origin) (converters : Option (List UInt8))
  | indexed (origin : Origin) (index : Source) (converters : Option (List UInt8))
  deriving DecidableEq, Repr

/-- A source from its parts. -/
def Source.ofParts (origin : Origin) (index : Option Source) (converters : Option (List UInt8)) :
    Source :=
  match index with
  | none => plain origin converters
  | some index => indexed origin index converters

/-! ### Instructions -/

/-- What the watch does when a button is pressed. -/
inductive Instruction where
  | toggleBacklight
  | toggleColors
  | close
  | settings
  | stopwatch (call : StopwatchCall)
  | showScreen (number : UInt16)
  | callFunction (index : UInt16)
  | setField (field : UInt8) (value : Source)
  | addToField (field : UInt8) (value : Source)
  | subtractFromField (field : UInt8) (value : Source)
  | incrementField (field : UInt8)
  | decrementField (field : UInt8)
  | choose (on : Source) (options : List (UInt8 × List Instruction))

/-! ### Controls -/

/-- How the digits of a number are drawn. -/
inductive NumberStyle where
  | generated (space : UInt8) (padded : Bool) (thickness width height : UInt8)
  | font (space : UInt8) (padded : Bool) (resource : UInt8)
  deriving DecidableEq, Repr

/-- A place on the screen. -/
structure Position where
  x : UInt8
  y : UInt8
  deriving DecidableEq, Repr

/-- A size on the screen. -/
structure Size where
  width : UInt8
  height : UInt8
  deriving DecidableEq, Repr

/-- What a screen shows.  A control whose value changes has a piece of the
screen's scratch memory, given by its offset. -/
inductive Control where
  | number (range : UInt8) (position : Position) (style : NumberStyle) (scratch : UInt16)
    (source : Source)
  | text (position : Position) (size : Size) (font : UInt8) (style : TextStyle)
    (scratch : UInt16) (source : Source)
  | progress (maxValue : Int32) (position : Position) (size : Size) (orientation : Orientation)
    (border : UInt8) (scratch : UInt16) (source : Source)
  | image (position : Position) (size : Size) (resource : UInt8)
  | imageSet (position : Position) (size : Size) (resource : UInt8) (scratch : UInt16)
    (source : Source)
  | choose (on : Source) (scratch : UInt16) (options : List (UInt8 × List Control))

/-! ### Screens -/

/-- A field of a model: its initial value and bounds, as far as it has them, and
whether it wraps around at its bounds. -/
structure Field where
  initial : Option Source
  max : Option Source
  min : Option Source
  overflow : Bool
  deriving DecidableEq, Repr

/-- A handler: the event it handles and what is done. -/
structure Handler where
  event : UInt8
  body : List Instruction

/-- A screen. -/
structure Screen where
  model : Option (List Field)
  controls : List Control
  /-- The handlers by increasing event. -/
  handlers : Option (List Handler)
  /-- Whether the actions of a watch face apply where no handler does. -/
  watchface : Bool
  /-- The size of the scratch memory. -/
  scratch : UInt16
  /-- The values of the settings that are given; there is one setting, whether
  the screen may be inverted. -/
  settings : Option (List Bool)

/-- A property as a program lists it. -/
structure PropertyEntry where
  kind : ValueKind
  range : Range
  deriving DecidableEq, Repr

end Program

/-- A whole program. -/
structure Program where
  id : UInt32
  screens : List Program.Screen
  properties : List Program.PropertyEntry
  resources : Option (List Bytes)

end Timepiece
