import Timepiece.WatchSet.Control

/-!
# Documents

A watch set is described by a document: its name, the resources that its screens
use, and the screens.  A screen has a model, whose fields are numbered in the
order in which they stand, controls, handlers, and settings.

## Main definitions

* `ModelField`, `Screen`, `Resource`, `Document` — the parts of a document.
* `Document.ofText` — the document that a text describes.
-/

namespace Timepiece

/-- A field of a screen's model. -/
inductive ModelField where
  | integer (value max min : Option Source) (overflow : Bool)
  | enumeration (values : List String) (value : Option Source) (overflow : Bool)
  deriving DecidableEq, Repr

/-- A screen. -/
structure Screen where
  id : String
  model : Option (Members ModelField)
  controls : List Control
  actions : Option Handlers
  defaultActions : Option String
  settings : Option (Members Bool)

/-- An attachment of a document, written as base64 text. -/
structure Resource where
  id : String
  data : String
  deriving DecidableEq, Repr

/-- A document. -/
structure Document where
  kind : String
  version : Int
  name : String
  resources : Option (List Resource)
  screens : List Screen

/-! ### Reading -/

/-- A source that may be missing. -/
def ModelField.optionalSource : Json → Reading (Option Source) := Json.asOption Source.ofJson

/-- A field of a model, straight from the text. -/
def ModelField.ofOutline : Outline → Reading ModelField :=
  Choice.taggedOutline
    [("integer", Fields.done ModelField.integer
        |>.default "value" optionalSource none
        |>.default "max" optionalSource none
        |>.default "min" optionalSource none
        |>.default "overflow" Json.asBool false),
     ("enum", Fields.done ModelField.enumeration
        |>.required "values" (Json.asList Json.asText)
        |>.default "value" optionalSource none
        |>.default "overflow" Json.asBool false)]

/-- A list of controls, taken in as a whole. -/
def Control.listOfOutline (outline : Outline) : Reading (List Control) := do
  oneOrMany Control.ofJson (← outline.merged)

/-- Handlers, taken in as a whole. -/
def Handlers.ofOutline (outline : Outline) : Reading Handlers := do
  Handlers.ofMembers (← outline.mergedMembers)

/-- A screen, straight from the text. -/
def Screen.ofOutline : Outline → Reading Screen :=
  Fields.fromOutline <|
    Fields.done Screen.mk
      |>.required "id" Outline.asText
      |>.default "model" (Outline.asOption (Outline.asMap ModelField.ofOutline)) none
      |>.required "controls" Control.listOfOutline
      |>.default "actions" (Outline.asOption Handlers.ofOutline) none
      |>.default "defaultActions" (Outline.asOption Outline.asText) none
      |>.default "settings" (Outline.asOption (Outline.asMap Outline.asBool)) none

/-- An attachment, straight from the text. -/
def Resource.ofOutline : Outline → Reading Resource :=
  Fields.fromOutline <|
    Fields.done Resource.mk
      |>.required "id" Outline.asText
      |>.required "data" Outline.asText

namespace Document

/-- The resources and screens of a document, straight from the text. -/
def dataOfOutline : Outline → Reading (Option (List Resource) × List Screen) :=
  Fields.fromOutline <|
    Fields.done Prod.mk
      |>.default "resources" (Outline.asOption (Outline.asList Resource.ofOutline)) none
      |>.required "screens" (Outline.asList Screen.ofOutline)

/-- A document, straight from the text. -/
def ofOutline : Outline → Reading Document :=
  Fields.fromOutline <|
    Fields.done (fun kind version name (contents : Option (List Resource) × List Screen) =>
        ⟨kind, version, name, contents.1, contents.2⟩)
      |>.required "type" Outline.asText
      |>.required "apiVersion" Outline.asSigned64
      |>.required "name" Outline.asText
      |>.required "data" dataOfOutline

/-- The document that a text describes. -/
def ofText (text : String) : Reading Document := readText ofOutline text

end Document

end Timepiece
