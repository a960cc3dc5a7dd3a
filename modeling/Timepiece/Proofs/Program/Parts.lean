import Mathlib
import Timepiece.WatchSet.Encoding
import Timepiece.WatchSet.Refusal

/-!
# The parts of a program

Sources are nested through their indices, instructions and controls through the
options of choices.  What is said of all parts of a program is said of those at
every depth.

Counts, lengths and the spacing of digits have bounds, within which the bytes of a
program can be told apart.  A program that keeps to them at every depth fits.

## Main definitions

* `Source.Within`, `InstructionBranch`, `ControlBranch` — a source, a list of
  instructions and a list of controls at some depth in another one.
* `Screen.HasInstructions`, `Screen.HasControls`, `Screen.HasSource` — what stands
  in a screen, at any depth.
* `Source.Fits`, `Instruction.Fits`, `Control.Fits`, `Screen.Fits` — the parts that
  keep to the bounds of the format.

## Main results

* `Screen.Fits.instructions`, `Screen.Fits.controlList`, `Screen.Fits.source` — all
  parts of a screen that fits fit.
-/

namespace Timepiece

namespace Program

/-! ### What stands where -/

/-- The source is the other one, or stands in its index. -/
inductive Source.Within : Source → Source → Prop
  | self {s : Source} : Within s s
  | index {s index : Source} {origin : Origin} {converters : Option (List UInt8)} :
    Within s index → Within s (.indexed origin index converters)

/-- Where a source gets its value from. -/
def Source.origin : Source → Origin
  | plain origin _ => origin
  | indexed origin _ _ => origin

/-- The sources that an instruction takes. -/
def Instruction.sources : Instruction → List Source
  | .setField _ value => [value]
  | .addToField _ value => [value]
  | .subtractFromField _ value => [value]
  | .choose on _ => [on]
  | _ => []

/-- The list of instructions is the other one, or stands in an option of one of its
choices. -/
inductive InstructionBranch : List Instruction → List Instruction → Prop
  | self {body : List Instruction} : InstructionBranch body body
  | option {inner body : List Instruction} {on : Source}
    {options : List (UInt8 × List Instruction)} {option : UInt8 × List Instruction} :
    .choose on options ∈ body → option ∈ options → InstructionBranch inner option.2 →
    InstructionBranch inner body

/-- The sources that a control takes. -/
def Control.sources : Control → List Source
  | .number _ _ _ _ source => [source]
  | .text _ _ _ _ _ source => [source]
  | .progress _ _ _ _ _ _ source => [source]
  | .image _ _ _ => []
  | .imageSet _ _ _ _ source => [source]
  | .choose on _ _ => [on]

/-- The list of controls is the other one, or stands in an option of one of its
choices. -/
inductive ControlBranch : List Control → List Control → Prop
  | self {body : List Control} : ControlBranch body body
  | option {inner body : List Control} {on : Source} {scratch : UInt16}
    {options : List (UInt8 × List Control)} {option : UInt8 × List Control} :
    .choose on scratch options ∈ body → option ∈ options → ControlBranch inner option.2 →
    ControlBranch inner body

/-- The sources that a field has. -/
def Field.sources (field : Field) : List Source :=
  field.initial.toList ++ field.max.toList ++ field.min.toList

namespace Screen

/-- The list of instructions stands in a handler of the screen, at any depth. -/
def HasInstructions (screen : Screen) (body : List Instruction) : Prop :=
  ∃ handlers, screen.handlers = some handlers ∧
    ∃ handler ∈ handlers, InstructionBranch body handler.body

/-- The list of controls stands in the screen, at any depth. -/
def HasControls (screen : Screen) (body : List Control) : Prop :=
  ControlBranch body screen.controls

/-- The source is taken by something in the screen, or stands in the index of one
that is. -/
inductive HasSource (screen : Screen) (source : Source) : Prop
  | field {fields : List Field} {field : Field} {taken : Source} :
    screen.model = some fields → field ∈ fields → taken ∈ field.sources → source.Within taken →
    HasSource screen source
  | control {body : List Control} {control : Control} {taken : Source} :
    screen.HasControls body → control ∈ body → taken ∈ control.sources → source.Within taken →
    HasSource screen source
  | instruction {body : List Instruction} {instruction : Instruction} {taken : Source} :
    screen.HasInstructions body → instruction ∈ body → taken ∈ instruction.sources →
    source.Within taken → HasSource screen source

end Screen

/-! ### The bounds of the format -/

/-- The bytes of a number or text can be counted. -/
def Origin.Fits : Origin → Prop
  | .fixed bytes => bytes.length ≤ maxCount
  | _ => True

/-- A chain of converters can be counted. -/
def ConvertersFit (converters : Option (List UInt8)) : Prop :=
  ∀ keys ∈ converters, keys.length ≤ maxCount

/-- The origin and the converters of a source fit, and so does its index. -/
def Source.Fits : Source → Prop
  | .plain origin converters => origin.Fits ∧ ConvertersFit converters
  | .indexed origin index converters => origin.Fits ∧ index.Fits ∧ ConvertersFit converters

/-- The sources of an instruction fit; the options of a choice can be counted, and
their lists counted and measured. -/
inductive Instruction.Fits : Instruction → Prop
  | plain {instruction : Instruction} (hplain : ∀ on options, instruction ≠ .choose on options)
    (hsources : ∀ source ∈ instruction.sources, source.Fits) : Fits instruction
  | choose {on : Source} {options : List (UInt8 × List Instruction)} (hon : on.Fits)
    (hcount : options.length ≤ maxCount)
    (hlists : ∀ option ∈ options,
      option.2.length ≤ maxCount ∧ (instructionsBytes option.2).length ≤ maxLength)
    (hbodies : ∀ option ∈ options, ∀ instruction ∈ option.2, Fits instruction) :
    Fits (.choose on options)

/-- A list of instructions can be counted, and its instructions fit. -/
structure InstructionsFit (body : List Instruction) : Prop where
  count : body.length ≤ maxCount
  fits : ∀ instruction ∈ body, instruction.Fits

/-- How far apart the digits of a number are fits five bits. -/
def NumberStyle.Fits : NumberStyle → Prop
  | .generated space _ _ _ _ => space.toNat < 32
  | .font space _ _ => space.toNat < 32

/-- The style and the sources of a control fit; the options of a choice can be
counted, and their lists counted and measured. -/
inductive Control.Fits : Control → Prop
  | number {range : UInt8} {position : Position} {style : NumberStyle} {scratch : UInt16}
    {source : Source} (hstyle : style.Fits) (hsource : source.Fits) :
    Fits (.number range position style scratch source)
  | text {position : Position} {size : Size} {font : UInt8} {style : TextStyle} {scratch : UInt16}
    {source : Source} (hsource : source.Fits) : Fits (.text position size font style scratch source)
  | progress {maxValue : Int32} {position : Position} {size : Size} {orientation : Orientation}
    {border : UInt8} {scratch : UInt16} {source : Source} (hsource : source.Fits) :
    Fits (.progress maxValue position size orientation border scratch source)
  | image {position : Position} {size : Size} {resource : UInt8} :
    Fits (.image position size resource)
  | imageSet {position : Position} {size : Size} {resource : UInt8} {scratch : UInt16}
    {source : Source} (hsource : source.Fits) :
    Fits (.imageSet position size resource scratch source)
  | choose {on : Source} {scratch : UInt16} {options : List (UInt8 × List Control)} (hon : on.Fits)
    (hcount : options.length ≤ maxCount)
    (hlists : ∀ option ∈ options,
      option.2.length ≤ maxCount ∧ (controlsBytes option.2).length ≤ maxLength)
    (hbodies : ∀ option ∈ options, ∀ control ∈ option.2, Fits control) :
    Fits (.choose on scratch options)

/-- A list of controls can be counted, and its controls fit. -/
structure ControlsFit (body : List Control) : Prop where
  count : body.length ≤ maxCount
  fits : ∀ control ∈ body, control.Fits

/-- The fields of a model can be counted and measured, and their sources fit. -/
structure ModelFits (fields : List Field) : Prop where
  count : fields.length ≤ maxCount
  length : (modelBytes fields).length ≤ maxLength
  fits : ∀ field ∈ fields, ∀ source ∈ field.sources, source.Fits

/-- Handlers can be counted and measured, and their instructions fit. -/
structure HandlersFit (handlers : List Handler) : Prop where
  count : handlers.length ≤ maxCount
  length : (handlersBytes handlers).length ≤ maxLength
  fits : ∀ handler ∈ handlers, InstructionsFit handler.body

/-- Settings can be counted and measured. -/
structure SettingsFit (settings : List Bool) : Prop where
  count : settings.length ≤ maxCount
  length : (settingsBytes settings).length ≤ maxLength

/-- The sections of a screen can be measured, and what is in them fits. -/
structure Screen.Fits (screen : Screen) : Prop where
  model : ∀ fields ∈ screen.model, ModelFits fields
  controls : ControlsFit screen.controls
  controlsLength : (controlsBytes screen.controls).length ≤ maxLength
  handlers : ∀ handlers ∈ screen.handlers, HandlersFit handlers
  settings : ∀ settings ∈ screen.settings, SettingsFit settings

/-! ### Parts of what fits -/

theorem Source.Fits.within {source taken : Source} (h : taken.Fits) (hw : source.Within taken) :
    source.Fits := by
  induction hw with
  | self => exact h
  | index _ ih => exact ih h.2.1

theorem Instruction.Fits.source {instruction : Instruction} (h : instruction.Fits) {source : Source}
    (hs : source ∈ instruction.sources) : source.Fits := by
  cases h with
  | plain _ hsources => exact hsources source hs
  | choose hon _ _ _ =>
    rw [Instruction.sources, List.mem_singleton] at hs
    exact hs ▸ hon

theorem InstructionsFit.branch {inner body : List Instruction} (hb : InstructionBranch inner body)
    (h : InstructionsFit body) : InstructionsFit inner := by
  induction hb with
  | self => exact h
  | option hchoose hoption _ ih =>
    apply ih
    -- only a choice has options
    cases h.fits _ hchoose with
    | plain hplain _ => exact absurd rfl (hplain _ _)
    | choose _ _ hlists hbodies => exact ⟨(hlists _ hoption).1, hbodies _ hoption⟩

theorem Control.Fits.source {control : Control} (h : control.Fits) {source : Source}
    (hs : source ∈ control.sources) : source.Fits := by
  cases h <;> simp only [Control.sources, List.mem_singleton, List.not_mem_nil] at hs <;>
    subst hs <;> assumption

theorem ControlsFit.branch {inner body : List Control} (hb : ControlBranch inner body)
    (h : ControlsFit body) : ControlsFit inner := by
  induction hb with
  | self => exact h
  | option hchoose hoption _ ih =>
    apply ih
    cases h.fits _ hchoose with
    | choose _ _ hlists hbodies => exact ⟨(hlists _ hoption).1, hbodies _ hoption⟩

namespace Screen.Fits

variable {screen : Screen}

/-- All lists of instructions of a screen that fits fit. -/
theorem instructions (h : screen.Fits) {body : List Instruction}
    (hb : screen.HasInstructions body) : InstructionsFit body := by
  obtain ⟨handlers, hhandlers, handler, hmem, hbranch⟩ := hb
  exact ((h.handlers handlers hhandlers).fits handler hmem).branch hbranch

/-- All lists of controls of a screen that fits fit. -/
theorem controlList (h : screen.Fits) {body : List Control} (hb : screen.HasControls body) :
    ControlsFit body :=
  h.controls.branch hb

/-- All sources of a screen that fits fit. -/
theorem source (h : screen.Fits) {source : Source} (hs : screen.HasSource source) :
    source.Fits := by
  cases hs with
  | field hmodel hfield htaken hw =>
    exact ((h.model _ hmodel).fits _ hfield _ htaken).within hw
  | control hbody hcontrol htaken hw =>
    exact (((h.controlList hbody).fits _ hcontrol).source htaken).within hw
  | instruction hbody hinstruction htaken hw =>
    exact (((h.instructions hbody).fits _ hinstruction).source htaken).within hw

end Screen.Fits

end Program

end Timepiece
