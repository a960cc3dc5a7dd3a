import Mathlib
import Timepiece.Proofs.Resolution.Rules
import Timepiece.Proofs.Resolution.Tables
import Timepiece.WatchSet.Compiler

/-!
# The references of a document

Which properties and functions a document refers to, with what it needs the
properties for, can be read off the document itself: screen by screen, first the
model, then the controls, then the handlers, and in a source its origin before its
index.  Compiling takes exactly these references in, in this order.

## Main definitions

* `Source.references`, `Action.references`, `Control.references`,
  `Screen.references` — the references.

## Main results

* `Screen.enters_of_resolveAll` — **compiling takes in the references of the screens**.
-/

namespace Timepiece

open Compiling

/-! ### Sources -/

/-- The reference of an origin that is needed for something. -/
def Origin.references (need : Need) : Origin → List Reference
  | .extension owner property => [.property ⟨owner, property, need.kind, need.range⟩]
  | _ => []

/-- The references of a source.  An index is always needed as some number. -/
def Source.references (need : Need) : Source → List Reference
  | plain origin _ => origin.references need
  | indexed origin index _ => origin.references need ++ index.references .anyNumber

/-- How values are compared with a source does not matter for its references. -/
theorem Source.references_meaning (source : Source) (need : Need) (meaning : Option Meaning) :
    source.references { need with meaning } = source.references need := by
  cases source with
  | plain origin converters => cases origin <;> rfl
  | indexed origin index converters => cases origin <;> rfl

@[simp] theorem Ledger.tables_allocated (l : Ledger) (length : Nat) :
    (l.allocated length).tables = l.tables := rfl

variable {around : Surroundings} {model : Model} {need need' : Need} {l l' : Ledger}

theorem Source.enters_of_resolveOrigin {origin : Origin} {out : Program.Origin}
    (h : Yields (resolveOrigin around model need origin) l (out, need') l') :
    l.tables.Enters around (origin.references need) l'.tables := by
  cases origin with
  | fixed literal =>
    obtain ⟨-, rfl⟩ := yields_resolveOrigin_fixed_iff.1 h
    exact .nil
  | internal name =>
    obtain ⟨-, -, -, -, -, rfl⟩ := yields_resolveOrigin_internal_iff.1 h
    exact .nil
  | sensor name =>
    obtain ⟨-, -, -, -, -, rfl⟩ := yields_resolveOrigin_sensor_iff.1 h
    exact .nil
  | extension owner name =>
    obtain ⟨index, hproperty, -⟩ := yields_resolveOrigin_extension_iff.1 h
    obtain ⟨hallows, place, table, henter, hplace, -, rfl⟩ := yields_property_iff.1 hproperty
    exact .property hallows henter hplace .nil
  | model name =>
    obtain ⟨-, -, -, -, rfl⟩ := yields_resolveOrigin_model_iff.1 h
    exact .nil

theorem Source.enters_of_resolve {source : Source} {out : Program.Source}
    (h : Yields (source.resolve around model need) l (out, need') l') :
    l.tables.Enters around (source.references need) l'.tables := by
  induction source generalizing need need' l out l' with
  | plain origin converters =>
    obtain ⟨o, l₁, keys, horigin, hconverters, -⟩ := yields_resolve_plain_iff.1 h
    obtain ⟨-, rfl⟩ := yields_resolveConverters_iff.1 hconverters
    exact enters_of_resolveOrigin horigin
  | indexed origin index converters ih =>
    obtain ⟨o, l₁, i, needed, l₂, keys, horigin, hindex, hconverters, -⟩ :=
      yields_resolve_indexed_iff.1 h
    obtain ⟨-, rfl⟩ := yields_resolveConverters_iff.1 hconverters
    exact (enters_of_resolveOrigin horigin).append (ih hindex)

theorem Source.enters_of_resolveFor {source : Source} {out : Program.Source}
    (h : Yields (source.resolveFor around model need) l out l') :
    l.tables.Enters around (source.references need) l'.tables := by
  obtain ⟨need', h⟩ := yields_resolveFor_iff.1 h
  exact enters_of_resolve h

/-! ### Lists -/

/-- Where every item takes in its references, the list takes in all of them. -/
theorem Threaded.enters {α β : Type} {step : α → Ledger → β → Ledger → Prop}
    {references : α → List Reference} {items : List α} {results : List β}
    (h : Threaded step items l results l')
    (hstep : ∀ a ∈ items, ∀ {l b l'}, step a l b l' →
      l.tables.Enters around (references a) l'.tables) :
    l.tables.Enters around (items.flatMap references) l'.tables := by
  induction h with
  | nil => exact .nil
  | cons hfirst _ ih =>
    obtain ⟨ha, hitems⟩ := List.forall_mem_cons.1 hstep
    rw [List.flatMap_cons]
    exact (ha hfirst).append (ih hitems)

/-! ### Actions -/

/-- The references of a change of a field. -/
def ModelChange.references : ModelChange → List Reference
  | set value => value.references .anyNumber
  | add value => value.references .anyNumber
  | subtract value => value.references .anyNumber
  | increment => []
  | decrement => []

/-- The references of a call. -/
def Call.references : Call → List Reference
  | .extensionFunction extension function parameter => [.function ⟨extension, function, parameter⟩]
  | .model _ change => change.references
  | _ => []

namespace Action

mutual

/-- The references of an action. -/
def references : Action → List Reference
  | .call c => c.references
  | .choose on options => on.references .anyNumber ++ optionReferences options

/-- The references of the actions of a list. -/
def listReferences : List Action → List Reference
  | [] => []
  | action :: rest => references action ++ listReferences rest

/-- The references of the options of a choice. -/
def optionReferences : List (String × List Action) → List Reference
  | [] => []
  | (_, actions) :: rest => listReferences actions ++ optionReferences rest

end

theorem listReferences_eq (actions : List Action) :
    listReferences actions = actions.flatMap references := by
  induction actions with
  | nil => rfl
  | cons first others ih => rw [listReferences, ih, List.flatMap_cons]

theorem optionReferences_eq (options : List (String × List Action)) :
    optionReferences options = options.flatMap fun option => option.2.flatMap references := by
  induction options with
  | nil => rfl
  | cons first others ih =>
    obtain ⟨option, actions⟩ := first
    rw [optionReferences, ih, List.flatMap_cons, listReferences_eq]

end Action

theorem ModelChange.enters_of_resolve {change : ModelChange} {entry : FieldEntry}
    {out : Program.Instruction} (h : Yields (change.resolve around model entry) l out l') :
    l.tables.Enters around change.references l'.tables := by
  cases change with
  | set value =>
    obtain ⟨source, hvalue, -⟩ := yields_resolve_set_iff.1 h
    have henters := Source.enters_of_resolveFor hvalue
    -- the field only says how values are compared, not what is needed
    rwa [resolve.need, Source.references_meaning] at henters
  | add value =>
    obtain ⟨source, hvalue, -⟩ := yields_resolve_add_iff.1 h
    have henters := Source.enters_of_resolveFor hvalue
    rwa [resolve.need, Source.references_meaning] at henters
  | subtract value =>
    obtain ⟨source, hvalue, -⟩ := yields_resolve_subtract_iff.1 h
    have henters := Source.enters_of_resolveFor hvalue
    rwa [resolve.need, Source.references_meaning] at henters
  | increment =>
    obtain ⟨-, rfl⟩ := yields_pure_iff.1 h
    exact .nil
  | decrement =>
    obtain ⟨-, rfl⟩ := yields_pure_iff.1 h
    exact .nil

theorem Call.enters_of_resolve {call : Call} {out : Program.Instruction}
    (h : Yields (call.resolve around model) l out l') :
    l.tables.Enters around call.references l'.tables := by
  cases call with
  | showScreen screen =>
    obtain ⟨-, -, -, rfl⟩ := yields_resolve_showScreen_iff.1 h
    exact .nil
  | extensionFunction owner name parameter =>
    obtain ⟨index, hfunction, -⟩ := yields_resolve_extensionFunction_iff.1 h
    obtain ⟨hplace, -, rfl⟩ := yields_function_iff.1 hfunction
    exact .function hplace .nil
  | model field change =>
    obtain ⟨entry, -, hchange⟩ := yields_resolve_model_iff.1 h
    exact ModelChange.enters_of_resolve hchange
  | toggleBacklight | toggleColors | stopwatch | close | settings =>
    obtain ⟨-, rfl⟩ := yields_pure_iff.1 h
    exact .nil

theorem Action.enters_of_resolve {action : Action} :
    ∀ {l out l'}, Yields (action.resolve around model) l out l' →
      l.tables.Enters around action.references l'.tables := by
  induction action using Action.induction with
  | hcall c =>
    intro l out l' h
    rw [resolve] at h
    exact Call.enters_of_resolve h
  | hchoose on options ih =>
    intro l out l' h
    obtain ⟨source, need, l₁, resolved, hon, -, hoptions, -⟩ := yields_resolve_choose_iff.1 h
    rw [references, optionReferences_eq]
    refine (Source.enters_of_resolve hon).append (hoptions.enters fun option ho _ _ _ hstep => ?_)
    -- the ordinal and the lengths of an option refer to nothing
    obtain ⟨-, -, hbody, -⟩ := hstep
    exact hbody.enters fun action ha _ _ _ haction => ih option ho action ha haction

theorem Action.enters_of_resolveList {actions : List Action} {body : List Program.Instruction}
    (h : Yields (resolveList around model actions) l body l') :
    l.tables.Enters around (actions.flatMap references) l'.tables :=
  (yields_resolveList_iff.1 h).2.enters fun _ _ _ _ _ haction => enters_of_resolve haction

/-! ### Handlers -/

/-- The references of handlers, those of a choice around several events once for every
event. -/
def Handlers.references (handlers : Handlers) : List Reference :=
  handlers.byEvent.flatMap fun event => event.2.flatMap Action.references

theorem Handlers.enters_of_resolveInto {events : List (String × List Action)}
    {done out : List Program.Handler} (h : Yields (resolveInto around model done events) l out l') :
    l.tables.Enters around (events.flatMap fun event => event.2.flatMap Action.references)
      l'.tables := by
  obtain ⟨compiled, hcompiled, -⟩ := threaded_of_resolveInto h
  exact hcompiled.enters fun _ _ _ _ _ hevent => Action.enters_of_resolveList hevent.2

/-! ### Controls -/

/-- The references of a number, which is needed in the range that it shows. -/
def NumberControl.references (control : NumberControl) : List Reference :=
  match NumberRange.ofText? control.numberRange with
  | some range => control.source.references (.number range.dataRange)
  | none => []

/-- The references of a text, which is needed in its length. -/
def TextControl.references (control : TextControl) : List Reference :=
  control.source.references (.text (control.length.getD defaultTextLength).toNat)

/-- The references of a progress bar, which is needed up to its greatest value. -/
def ProgressControl.references (control : ProgressControl) : List Reference :=
  control.source.references (.number (Range.number (byteCount control.maxValue.toNat) 0))

/-- The references of an image out of a set. -/
def ImageSetControl.references (control : ImageSetControl) : List Reference :=
  control.source.references (.number imageSetRange)

namespace Control

mutual

/-- The references of a control. -/
def references : Control → List Reference
  | .number control => control.references
  | .text control => control.references
  | .progress control => control.references
  | .image _ => []
  | .imageSet control => control.references
  | .choose on options => on.references .anyNumber ++ optionReferences options

/-- The references of the controls of a list. -/
def listReferences : List Control → List Reference
  | [] => []
  | control :: rest => references control ++ listReferences rest

/-- The references of the options of a choice. -/
def optionReferences : List (String × List Control) → List Reference
  | [] => []
  | (_, controls) :: rest => listReferences controls ++ optionReferences rest

end

theorem listReferences_eq (controls : List Control) :
    listReferences controls = controls.flatMap references := by
  induction controls with
  | nil => rfl
  | cons first others ih => rw [listReferences, ih, List.flatMap_cons]

theorem optionReferences_eq (options : List (String × List Control)) :
    optionReferences options = options.flatMap fun option => option.2.flatMap references := by
  induction options with
  | nil => rfl
  | cons first others ih =>
    obtain ⟨option, controls⟩ := first
    rw [optionReferences, ih, List.flatMap_cons, listReferences_eq]

theorem enters_of_resolve {control : Control} :
    ∀ {l out l'}, Yields (control.resolve around model) l out l' →
      l.tables.Enters around control.references l'.tables := by
  induction control using Control.induction with
  | hnumber c =>
    intro l out l' h
    rw [resolve] at h
    obtain ⟨range, position, style, source, need, hrange, -, -, -, hsource, -⟩ :=
      NumberControl.yields_resolve_iff.1 h
    rw [references, NumberControl.references, hrange, ← l.tables_allocated numberScratch]
    exact Source.enters_of_resolve hsource
  | htext c =>
    intro l out l' h
    rw [resolve] at h
    obtain ⟨position, size, font, source, need, l₁, -, -, -, -, -, hsource, -, -, rfl⟩ :=
      TextControl.yields_resolve_iff.1 h
    rw [Ledger.tables_allocated]
    exact Source.enters_of_resolve hsource
  | hprogress c =>
    intro l out l' h
    rw [resolve] at h
    obtain ⟨position, size, border, source, need, -, -, -, -, -, hsource, -⟩ :=
      ProgressControl.yields_resolve_iff.1 h
    rw [← l.tables_allocated numberScratch]
    exact Source.enters_of_resolve hsource
  | himage c =>
    intro l out l' h
    rw [resolve] at h
    obtain ⟨-, rfl⟩ := yields_lift_iff.1 h
    exact .nil
  | himageSet c =>
    intro l out l' h
    rw [resolve] at h
    obtain ⟨position, size, place, source, need, -, -, -, -, hsource, -⟩ :=
      ImageSetControl.yields_resolve_iff.1 h
    rw [← l.tables_allocated numberScratch]
    exact Source.enters_of_resolve hsource
  | hchoose on options ih =>
    intro l out l' h
    obtain ⟨source, need, l₁, resolved, hon, -, -, hoptions, -⟩ := yields_resolve_choose_iff.1 h
    rw [references, optionReferences_eq]
    refine (Source.enters_of_resolve hon).append ?_
    rw [← l₁.tables_allocated choiceScratch]
    -- the scratch memory of the choice leaves the tables as they are
    refine hoptions.enters fun option ho _ _ _ hstep => ?_
    obtain ⟨-, -, hbody, -⟩ := hstep
    exact hbody.enters fun control hc _ _ _ hcontrol => ih option ho control hc hcontrol

theorem enters_of_resolveList {controls : List Control} {body : List Program.Control}
    (h : Yields (resolveList around model controls) l body l') :
    l.tables.Enters around (controls.flatMap references) l'.tables :=
  (yields_resolveList_iff.1 h).2.enters fun _ _ _ _ _ hcontrol => enters_of_resolve hcontrol

end Control

/-! ### Models -/

/-- The references of a source that may be missing. -/
def Source.optionalReferences (need : Need) : Option Source → List Reference
  | none => []
  | some source => source.references need

theorem Source.optionalReferences_meaning (source : Option Source) (need : Need)
    (meaning : Option Meaning) :
    optionalReferences { need with meaning } source = optionalReferences need source := by
  cases source with
  | none => rfl
  | some source => exact source.references_meaning need meaning

/-- The references of a field. -/
def ModelField.references : ModelField → List Reference
  | integer value max min _ =>
    Source.optionalReferences .anyNumber value ++ (Source.optionalReferences .anyNumber max ++
      Source.optionalReferences .anyNumber min)
  | enumeration _ value _ => Source.optionalReferences .anyNumber value

theorem Source.enters_of_resolveOptional {source : Option Source} {out : Option Program.Source}
    (h : Yields (resolveOptional around model need source) l out l') :
    l.tables.Enters around (optionalReferences need source) l'.tables := by
  have h := yields_resolveOptional_iff.1 h
  cases source with
  | none =>
    obtain ⟨-, rfl⟩ := h
    exact .nil
  | some source =>
    obtain ⟨resolved, need', hsource, -⟩ := h
    exact enters_of_resolve hsource

theorem ModelField.enters_of_resolve {field : ModelField} {name : String} {id : UInt8}
    {out : Program.Field} {known : Model}
    (h : Yields (field.resolve around model name id) l (out, known) l') :
    l.tables.Enters around field.references l'.tables := by
  cases field with
  | integer value max min overflow =>
    obtain ⟨initial, upper, lower, l₁, l₂, -, hvalue, hmax, hmin, -⟩ :=
      yields_resolve_integer_iff.1 h
    exact (Source.enters_of_resolveOptional hvalue).append
      ((Source.enters_of_resolveOptional hmax).append (Source.enters_of_resolveOptional hmin))
  | enumeration values value overflow =>
    obtain ⟨initial, upper, lower, l₁, l₂, -, -, hvalue, hmax, hmin, -⟩ :=
      yields_resolve_enumeration_iff.1 h
    -- the bounds are written out and refer to nothing
    have hbounds := (Source.enters_of_resolveFor hmax).append (Source.enters_of_resolveFor hmin)
    have henters := (Source.enters_of_resolveOptional hvalue).append hbounds
    simpa [Source.constant, Source.references, Origin.references, references,
      Source.optionalReferences_meaning] using henters

theorem enters_of_resolveFields {fields : List (String × ModelField)} {id : Nat}
    {out : List Program.Field} {known : Model}
    (h : Yields (resolveFields around model id fields) l (out, known) l') :
    l.tables.Enters around (fields.flatMap fun field => field.2.references) l'.tables := by
  induction fields generalizing model id l out with
  | nil =>
    obtain ⟨-, rfl⟩ := yields_pure_iff.1 h
    exact .nil
  | cons first others ih =>
    obtain ⟨name, field⟩ := first
    obtain ⟨out', model', l₁, rest, hfield, hothers, -⟩ := yields_resolveFields_cons_iff.1 h
    rw [List.flatMap_cons]
    exact (ModelField.enters_of_resolve hfield).append (ih hothers)

/-! ### Screens -/

namespace Screen

/-- The references of a screen: of its model, its controls and its handlers. -/
def references (screen : Screen) : List Reference :=
  (screen.model.toList.flatMap fun fields => fields.flatMap fun field => field.2.references) ++
    (screen.controls.flatMap Control.references ++
      screen.actions.toList.flatMap Handlers.references)

theorem enters_of_resolveModel {declared : Option (Members ModelField)}
    {out : Option (List Program.Field)} {known : Model}
    (h : Yields (Screen.resolveModel around declared) l (out, known) l') :
    l.tables.Enters around
      (declared.toList.flatMap fun fields => fields.flatMap fun field => field.2.references)
      l'.tables := by
  have h := Screen.yields_resolveModel_iff.1 h
  cases declared with
  | none =>
    obtain ⟨-, -, rfl⟩ := h
    exact .nil
  | some fields =>
    obtain ⟨resolved, hresolved, -⟩ := h
    rw [Option.toList_some, List.flatMap_singleton]
    exact enters_of_resolveFields (Timepiece.yields_resolveModel_iff.1 hresolved).2.1

theorem enters_of_resolveHandlers {handlers : Option Handlers}
    {out : Option (List Program.Handler)}
    (h : Yields (resolveHandlers around model handlers) l out l') :
    l.tables.Enters around (handlers.toList.flatMap Handlers.references) l'.tables := by
  have h := yields_resolveHandlers_iff.1 h
  cases handlers with
  | none =>
    obtain ⟨-, rfl⟩ := h
    exact .nil
  | some handlers =>
    obtain ⟨resolved, hresolved, -⟩ := h
    rw [Option.toList_some, List.flatMap_singleton]
    exact Handlers.enters_of_resolveInto (Handlers.yields_resolve_iff.1 hresolved).1

theorem enters_of_resolve {screen : Screen} {out : Program.Screen}
    (h : Yields (screen.resolve around) l out l') :
    l.tables.Enters around screen.references l'.tables := by
  obtain ⟨fields, model, l₁, controls, l₂, handlers, watchface, settings, hmodel, hcontrols, -,
    hhandlers, -⟩ := yields_resolve_iff.1 h
  exact (enters_of_resolveModel hmodel).append
    ((Control.enters_of_resolveList hcontrols).append (enters_of_resolveHandlers hhandlers))

theorem enters_of_resolveAll {screens : List Screen} {out : List Program.Screen}
    (h : Yields (resolveAll around screens) l out l') :
    l.tables.Enters around (screens.flatMap references) l'.tables :=
  (yields_resolveAll_iff.1 h).enters fun _ _ _ _ _ hscreen => enters_of_resolve hscreen

end Screen

end Timepiece
