import Timepiece.External.Property
import Timepiece.Json.Fault

/-!
# Why a document does not compile

A document either compiles as a whole or is refused for one reason, the first
that is met.

## Main definitions

* `Refusal` — the reasons.
* `Refusal.message` — their wordings.
-/

namespace Timepiece

/-- What is counted in one byte. -/
inductive Counted where
  | actions
  | chooseOptions
  | controls
  | converters
  | modelFields
  | settings
  deriving DecidableEq, Repr

/-- The name of what is counted. -/
def Counted.name : Counted → String
  | actions => "actions"
  | chooseOptions => "choose options"
  | controls => "controls"
  | converters => "converters"
  | modelFields => "model fields"
  | settings => "settings"

/-- What has its length in two bytes. -/
inductive Measured where
  | chooseOption
  | screenModel
  | screenControls
  | screenActions
  | screenSettings
  | screens
  | properties
  | resources
  deriving DecidableEq, Repr

/-- The name of what is measured. -/
def Measured.name : Measured → String
  | chooseOption => "Choose option"
  | screenModel => "Screen model"
  | screenControls => "Screen controls"
  | screenActions => "Screen actions"
  | screenSettings => "Screen settings"
  | screens => "Screens section"
  | properties => "External properties section"
  | resources => "Resources section"

/-- What has its places in an offset table. -/
inductive Tabled where
  | screens
  | resources
  deriving DecidableEq, Repr

/-- The name of what is in a table. -/
def Tabled.name : Tabled → String
  | screens => "screens"
  | resources => "resources"

/-- The reason why a document does not compile. -/
inductive Refusal where
  -- the document as a whole
  | unreadable (fault : Fault)
  | notAWatchSet
  | unknownVersion
  | tooManyScreens
  | repeatedScreen (id : String)
  | tooManyResources
  | repeatedResource (id : String)
  | brokenResource (id : String)
  -- sizes
  | tooMany (what : Counted)
  | tooLarge (what : Measured) (size : Nat)
  | tooMuchData (what : Tabled)
  | handlersTooLarge
  | tooManyProperties
  | tooManyFunctions
  | scratchExhausted
  -- names
  | unknownScreen (id : String)
  | unknownResource (id : String)
  | unknownInternal (name : String)
  | unknownSensor (name : String)
  | unknownConverter (name : String)
  | unknownFont (name : String)
  | unknownEvent (name : String)
  | unknownSetting (name : String)
  | unknownNumberRange (text : String)
  | unknownField (name : String)
  | unknownActionField (name : String)
  | unknownDefaultActions (name : String)
  | unavailableExtension (id : String)
  -- values
  | outOfRange (name : String) (greatest : Nat)
  | textLengthOutOfRange
  | maxValueOutOfRange
  | textTooLong (size : Nat)
  | notANumber (text : String)
  | notAnInteger (symbol : String)
  | unknownSymbol (symbol : String)
  | numberTooLarge (n : Int)
  | optionNotSupported (option : String)
  | optionOutOfRange (option : String)
  -- uses
  | emptyEnumeration (name : String)
  | eventHandledTwice (name : String)
  | kindNotProduced (source : String) (kind : ValueKind)
  | fixedNotSupported (kind : ValueKind)
  | kindConflict (conflict : KindConflict)
  deriving DecidableEq, Repr

/-- The greatest count in one byte. -/
def maxCount : Nat := 255

/-- The greatest length in two bytes. -/
def maxLength : Nat := 65535

/-- The greatest length of a text on the screen. -/
def maxTextLength : Nat := 64

/-- The wording of a reason. -/
def Refusal.message : Refusal → String
  | unreadable _ => "JSON format error"
  | notAWatchSet => "Invalid file type"
  | unknownVersion => "Invalid api version"
  | tooManyScreens => "Invalid number of screens"
  | repeatedScreen id => s!"Screen {id} is already defined"
  | tooManyResources => "Too many resources"
  | repeatedResource id => s!"Resource {id} is already defined"
  | brokenResource id => s!"Invalid data of resource {id}"
  | tooMany what => s!"Too many {what.name}, {maxCount} is max"
  | tooLarge what size => s!"{what.name} is too large: {size} bytes"
  | tooMuchData what => s!"Too much {what.name} data"
  | handlersTooLarge => "Event handlers are too large"
  | tooManyProperties => s!"Too many external properties, {maxCount} is max"
  | tooManyFunctions => "Too many extension functions"
  | scratchExhausted => s!"Screen scratch memory exceeds {maxLength} bytes"
  | unknownScreen id => s!"Screen is not defined: {id}"
  | unknownResource id => s!"Resource is not defined: {id}"
  | unknownInternal name => s!"Unknown internal property: {name}"
  | unknownSensor name => s!"Unknown sensor property: {name}"
  | unknownConverter name => s!"Unknown converter: {name}"
  | unknownFont name => s!"Invalid font name: {name}"
  | unknownEvent name => s!"Unknown event key: {name}"
  | unknownSetting name => s!"Unknown setting: {name}"
  | unknownNumberRange text => s!"Unknown number format: {text}"
  | unknownField name => s!"Invalid model property: {name}"
  | unknownActionField name => s!"Invalid field name in action: model.{name}"
  | unknownDefaultActions name => s!"Invalid default actions: {name}"
  | unavailableExtension id => s!"Extension is not available: {id}"
  | outOfRange name greatest => s!"Value of {name} is not in range [0, {greatest}]"
  | textLengthOutOfRange => s!"Text length is not in range [0, {maxTextLength}]"
  | maxValueOutOfRange => "Value of maxValue is not in range"
  | textTooLong size => s!"Static text is too long: {size} bytes"
  | notANumber text => s!"Invalid numeric value: {text}"
  | notAnInteger symbol => s!"Invalid integer value: {symbol}"
  | unknownSymbol symbol => s!"Unknown enum value: {symbol}"
  | numberTooLarge n => s!"Static value {n} does not fit in 32 bits"
  | optionNotSupported option => s!"Choose value not supported: {option}"
  | optionOutOfRange option => s!"Choose value out of range: {option}"
  | emptyEnumeration name => s!"Enum field {name} has no values"
  | eventHandledTwice name => s!"Event: {name} already handled"
  | kindNotProduced source kind => s!"The {source} data source cannot produce a {kind.name} value"
  | fixedNotSupported kind => s!"Static data source not supported for type: {kind.name}"
  | kindConflict conflict => conflict.message

end Timepiece
