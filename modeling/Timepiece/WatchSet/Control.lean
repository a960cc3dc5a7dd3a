import Timepiece.WatchSet.Action

/-!
# Controls

What a screen shows: numbers, texts, progress bars, images, images out of a set,
and choices between lists of controls by the value of a source.

## Main definitions

* `NumberControl`, `TextControl`, `ProgressControl`, `ImageControl`,
  `ImageSetControl` — the visible controls.
* `Control` — a visible control or a choice.
* `Control.ofJson` — the control that a JSON value describes.
-/

namespace Timepiece

/-! ### Parts of controls -/

/-- The place of a control.  A coordinate that is not given is zero. -/
structure Position where
  x : Option Int
  y : Option Int
  deriving DecidableEq, Repr

/-- The size of a control.  A length that is not given is zero. -/
structure Size where
  width : Option Int
  height : Option Int
  deriving DecidableEq, Repr

/-- How the digits of a number are drawn. -/
inductive NumberStyle where
  /-- By strokes. -/
  | generated (space : Option Int) (leftPadded : Bool) (thickness width height : Option Int)
  /-- From a resource that holds images of the digits. -/
  | numbersFont (space : Option Int) (leftPadded : Bool) (resource : String)
  deriving DecidableEq, Repr

/-- How a text is aligned from left to right. -/
inductive HorizontalAlign where
  | left
  | center
  | right
  deriving DecidableEq, Repr

/-- How a text is aligned from top to bottom. -/
inductive VerticalAlign where
  | top
  | center
  | bottom
  deriving DecidableEq, Repr

/-- How a text is laid out. -/
structure TextStyle where
  horizontal : HorizontalAlign
  vertical : VerticalAlign
  multiline : Bool
  deriving DecidableEq, Repr

/-- Which way a progress bar grows. -/
inductive Orientation where
  | horizontal
  | vertical
  deriving DecidableEq, Repr

/-- How a progress bar is drawn. -/
structure ProgressStyle where
  orientation : Orientation
  border : Option Int
  deriving DecidableEq, Repr

/-! ### Controls -/

/-- A number. -/
structure NumberControl where
  numberRange : String
  position : Position
  style : NumberStyle
  source : Source
  deriving DecidableEq, Repr

/-- A text in one of the fonts of the watch. -/
structure TextControl where
  position : Position
  size : Size
  font : String
  style : TextStyle
  length : Option Int
  source : Source
  deriving DecidableEq, Repr

/-- A progress bar. -/
structure ProgressControl where
  maxValue : Int
  position : Position
  size : Size
  style : ProgressStyle
  source : Source
  deriving DecidableEq, Repr

/-- An image. -/
structure ImageControl where
  position : Position
  size : Size
  resource : String
  deriving DecidableEq, Repr

/-- An image out of a set, picked by a source. -/
structure ImageSetControl where
  position : Position
  size : Size
  resource : String
  source : Source
  deriving DecidableEq, Repr

/-- A visible control, or a choice between lists of controls by the value of a
source. -/
inductive Control where
  | number (control : NumberControl)
  | text (control : TextControl)
  | progress (control : ProgressControl)
  | image (control : ImageControl)
  | imageSet (control : ImageSetControl)
  | choose (on : Source) (options : List (String × List Control))

namespace Control

/-! ### Reading -/

/-- A coordinate or length that may be missing. -/
def optionalInteger : Json → Reading (Option Int) := Json.asOption Json.asSigned64

/-- A position. -/
def positionOfJson : Json → Reading Position :=
  Fields.fromJson <|
    Fields.done Position.mk
      |>.optional "x" optionalInteger
      |>.optional "y" optionalInteger

/-- A size. -/
def sizeOfJson : Json → Reading Size :=
  Fields.fromJson <|
    Fields.done Size.mk
      |>.optional "width" optionalInteger
      |>.optional "height" optionalInteger

/-- A reference to a resource of the document. -/
def resourceOfJson : Json → Reading String :=
  Choice.tagged .nameOrPosition
    [("resource", Fields.done (fun id => id) |>.required "id" Json.asText)]

/-- A reference to a font of the watch. -/
def fontOfJson : Json → Reading String :=
  Choice.tagged .nameOrPosition
    [("builtin", Fields.done (fun name => name) |>.required "name" Json.asText)]

/-- The style of a number. -/
def numberStyleOfJson : Json → Reading NumberStyle :=
  Choice.tagged .nameOrPosition
    [("generated", Fields.done NumberStyle.generated
        |>.optional "space" optionalInteger
        |>.default "leftPadded" Json.asBool false
        |>.optional "thickness" optionalInteger
        |>.optional "width" optionalInteger
        |>.optional "height" optionalInteger),
     ("numbersFont", Fields.done NumberStyle.numbersFont
        |>.optional "space" optionalInteger
        |>.default "leftPadded" Json.asBool false
        |>.required "numbersFont" resourceOfJson)]

/-- The style of a text. -/
def textStyleOfJson : Json → Reading TextStyle :=
  Fields.fromJson <|
    Fields.done TextStyle.mk
      |>.default "horizontalAlign"
        (Choice.ofJson [("left", .left), ("center", .center), ("right", .right)]) .left
      |>.default "verticalAlign"
        (Choice.ofJson [("top", .top), ("center", .center), ("bottom", .bottom)]) .top
      |>.default "multiline" Json.asBool false

/-- The style of a progress bar. -/
def progressStyleOfJson : Json → Reading ProgressStyle :=
  Fields.fromJson <|
    Fields.done ProgressStyle.mk
      |>.default "orientation"
        (Choice.ofJson [("horizontal", .horizontal), ("vertical", .vertical)]) .horizontal
      |>.optional "border" optionalInteger

/-- The visible controls. -/
def forms : List (String × Fields Json Control) :=
  [("number", Fields.done (fun range position style source =>
        number ⟨range, position, style, source⟩)
      |>.required "numberRange" Json.asText
      |>.required "position" positionOfJson
      |>.required "style" numberStyleOfJson
      |>.required "source" Source.ofJson),
   ("text", Fields.done (fun position size font style length source =>
        text ⟨position, size, font, style, length, source⟩)
      |>.required "position" positionOfJson
      |>.required "size" sizeOfJson
      |>.required "font" fontOfJson
      |>.default "style" textStyleOfJson ⟨.left, .top, false⟩
      |>.optional "length" optionalInteger
      |>.required "source" Source.ofJson),
   ("progress", Fields.done (fun maxValue position size style source =>
        progress ⟨maxValue, position, size, style, source⟩)
      |>.required "maxValue" Json.asSigned64
      |>.required "position" positionOfJson
      |>.required "size" sizeOfJson
      |>.default "style" progressStyleOfJson ⟨.horizontal, none⟩
      |>.required "source" Source.ofJson),
   ("image", Fields.done (fun position size resource => image ⟨position, size, resource⟩)
      |>.required "position" positionOfJson
      |>.default "style" sizeOfJson ⟨none, none⟩
      |>.required "image" resourceOfJson),
   ("imageFromSet", Fields.done (fun position size resource source =>
        imageSet ⟨position, size, resource, source⟩)
      |>.required "position" positionOfJson
      |>.required "style" sizeOfJson
      |>.required "imageSet" resourceOfJson
      |>.required "source" Source.ofJson)]

/-- The control that a value of at most the given depth describes. -/
def readAt : (depth : Nat) → Json → Reading Control
  | 0, _ => .error (.refused "Invalid screen control")
  | depth + 1, value =>
    if (value.member? Choice.tag).isSome then Choice.tagged .name forms value
    else if (value.member? "choose").isSome then
      Fields.fromJson
        (Fields.done Control.choose
          |>.required "choose" Source.ofJson
          |>.required "when" (Json.asMap (oneOrMany (readAt depth)))) value
    else .error (.refused "Invalid screen control")

/-- The control that a JSON value describes. -/
def ofJson (value : Json) : Reading Control := readAt value.depth value

end Control

end Timepiece
