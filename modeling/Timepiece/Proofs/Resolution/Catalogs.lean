import Mathlib
import Timepiece.Proofs.Resolution.Tabulation

/-!
# Catalogs of extensions

A compiler may be given a list of the extensions that there are.  Whether a document
compiles depends on that list only through the properties that the document refers to: if
all of them are of extensions in the list, it compiles to what it would compile to without
one, and otherwise it does not compile.  Calls of functions are not looked at.

## Main definitions

* `Document.functionReferences` — the functions that a document calls.
* `Surroundings.under` — the same surroundings under another catalog.
* `Surroundings.Admits` — the properties among some references may be used.

## Main results

* `Screen.resolveAll_under` — screens compile under every catalog that admits their
  references, and to the same.
* `Tables.Enters.functions` — functions stand in the order of first use.
* `Document.cataloged` — **a catalog admits properties**; functions are of extensions in it
  only if the document happens to call no others.
* `Document.calls_uncataloged` — a document that compiles and calls another one.
-/

namespace Timepiece

open Compiling

/-! ### What a catalog admits -/

/-- The same screens and resources under another catalog. -/
def Surroundings.under (around : Surroundings) (catalog : Option (List String)) : Surroundings :=
  { around with catalog }

/-- The properties among the references may be used. -/
def Surroundings.Admits (around : Surroundings) (references : List Reference) : Prop :=
  ∀ reference, .property reference ∈ references → around.allows reference.extension = true

namespace Surroundings

variable {around : Surroundings} {references others : List Reference}

/-- Without a catalog everything is admitted. -/
theorem admits_under_none (around : Surroundings) (references : List Reference) :
    (around.under none).Admits references :=
  fun _ _ => rfl

/-- A catalog allows what is in it. -/
theorem allows_iff {extensions : List String} (h : around.catalog = some extensions)
    {extension : String} : around.allows extension = true ↔ extension ∈ extensions := by
  unfold allows
  rw [h]
  exact List.contains_iff_mem

theorem Admits.left (h : around.Admits (references ++ others)) : around.Admits references :=
  fun reference hr => h reference (List.mem_append_left _ hr)

theorem Admits.right (h : around.Admits (references ++ others)) : around.Admits others :=
  fun reference hr => h reference (List.mem_append_right _ hr)

/-- What is admitted of a list is admitted of each item. -/
theorem Admits.of_mem {α : Type} {items : List α} {referencesOf : α → List Reference}
    (h : around.Admits (items.flatMap referencesOf)) {a : α} (ha : a ∈ items) :
    around.Admits (referencesOf a) :=
  fun reference hr => h reference (List.mem_flatMap.2 ⟨a, ha, hr⟩)

end Surroundings

/-- Only what is admitted is taken in. -/
theorem Tables.Enters.admits {around : Surroundings} {t t' : Tables}
    {references : List Reference} (h : Enters around t references t') :
    around.Admits references := by
  induction h with
  | nil => exact fun _ hr => absurd hr List.not_mem_nil
  | property hallows _ _ _ ih =>
    intro reference hr
    rcases List.mem_cons.1 hr with hfirst | hrest
    · obtain rfl := Reference.property.inj hfirst
      exact hallows
    · exact ih reference hrest
  | function _ _ ih =>
    intro reference hr
    rcases List.mem_cons.1 hr with hfirst | hrest
    · cases hfirst
    · exact ih reference hrest

/-! ### Compiling under another catalog -/

/-- Steps that are also steps of another kind. -/
theorem Threaded.imp {σ α β : Type} {step step' : α → σ → β → σ → Prop} {items : List α}
    {results : List β} {s s' : σ} (h : Threaded step items s results s')
    (hstep : ∀ a ∈ items, ∀ {s b s'}, step a s b s' → step' a s b s') :
    Threaded step' items s results s' := by
  induction h with
  | nil => exact .nil
  | cons hfirst _ ih =>
    obtain ⟨ha, hitems⟩ := List.forall_mem_cons.1 hstep
    exact .cons (ha hfirst) (ih hitems)

section Under

variable {around : Surroundings} {catalog : Option (List String)} {model : Model}
  {need need' : Need} {l l' : Ledger}

theorem Source.resolveOrigin_under {origin : Origin} {out : Program.Origin}
    (hadmits : (around.under catalog).Admits (origin.references need))
    (h : Yields (resolveOrigin around model need origin) l (out, need') l') :
    Yields (resolveOrigin (around.under catalog) model need origin) l (out, need') l' := by
  cases origin with
  | fixed literal => exact h
  | internal name => exact h
  | sensor name => exact h
  | model name => exact h
  | extension owner name =>
    -- the only place where a catalog is looked at
    obtain ⟨index, hproperty, hout⟩ := yields_resolveOrigin_extension_iff.1 h
    obtain ⟨-, hentered⟩ := yields_property_iff.1 hproperty
    have hallows := hadmits _ List.mem_cons_self
    exact yields_resolveOrigin_extension_iff.2
      ⟨index, yields_property_iff.2 ⟨hallows, hentered⟩, hout⟩

theorem Source.resolve_under {source : Source} {out : Program.Source}
    (hadmits : (around.under catalog).Admits (source.references need))
    (h : Yields (source.resolve around model need) l (out, need') l') :
    Yields (source.resolve (around.under catalog) model need) l (out, need') l' := by
  induction source generalizing need need' l out l' with
  | plain origin converters =>
    obtain ⟨o, l₁, keys, horigin, hrest⟩ := yields_resolve_plain_iff.1 h
    exact yields_resolve_plain_iff.2 ⟨o, l₁, keys, resolveOrigin_under hadmits horigin, hrest⟩
  | indexed origin index converters ih =>
    obtain ⟨o, l₁, i, needed, l₂, keys, horigin, hindex, hrest⟩ := yields_resolve_indexed_iff.1 h
    exact yields_resolve_indexed_iff.2 ⟨o, l₁, i, needed, l₂, keys,
      resolveOrigin_under hadmits.left horigin, ih hadmits.right hindex, hrest⟩

theorem Source.resolveFor_under {source : Source} {out : Program.Source}
    (hadmits : (around.under catalog).Admits (source.references need))
    (h : Yields (source.resolveFor around model need) l out l') :
    Yields (source.resolveFor (around.under catalog) model need) l out l' := by
  obtain ⟨need', h⟩ := yields_resolveFor_iff.1 h
  exact yields_resolveFor_iff.2 ⟨need', resolve_under hadmits h⟩

theorem Source.resolveOptional_under {source : Option Source} {out : Option Program.Source}
    (hadmits : (around.under catalog).Admits (optionalReferences need source))
    (h : Yields (resolveOptional around model need source) l out l') :
    Yields (resolveOptional (around.under catalog) model need source) l out l' := by
  cases source with
  | none => exact h
  | some source =>
    obtain ⟨resolved, need', hsource, hout⟩ := yields_resolveOptional_iff.1 h
    exact yields_resolveOptional_iff.2 ⟨resolved, need', resolve_under hadmits hsource, hout⟩

/-! #### Actions -/

theorem ModelChange.resolve_under {change : ModelChange} {entry : FieldEntry}
    {out : Program.Instruction} (hadmits : (around.under catalog).Admits change.references)
    (h : Yields (change.resolve around model entry) l out l') :
    Yields (change.resolve (around.under catalog) model entry) l out l' := by
  -- how values are compared with the field does not matter for what is referred to
  have hneed (value : Source) : value.references (resolve.need entry) =
      value.references .anyNumber := value.references_meaning .anyNumber _
  cases change with
  | set value =>
    obtain ⟨source, hvalue, hout⟩ := yields_resolve_set_iff.1 h
    rw [references, ← hneed] at hadmits
    exact yields_resolve_set_iff.2 ⟨source, Source.resolveFor_under hadmits hvalue, hout⟩
  | add value =>
    obtain ⟨source, hvalue, hout⟩ := yields_resolve_add_iff.1 h
    rw [references, ← hneed] at hadmits
    exact yields_resolve_add_iff.2 ⟨source, Source.resolveFor_under hadmits hvalue, hout⟩
  | subtract value =>
    obtain ⟨source, hvalue, hout⟩ := yields_resolve_subtract_iff.1 h
    rw [references, ← hneed] at hadmits
    exact yields_resolve_subtract_iff.2 ⟨source, Source.resolveFor_under hadmits hvalue, hout⟩
  | increment => exact h
  | decrement => exact h

theorem Call.resolve_under {call : Call} {out : Program.Instruction}
    (hadmits : (around.under catalog).Admits call.references)
    (h : Yields (call.resolve around model) l out l') :
    Yields (call.resolve (around.under catalog) model) l out l' := by
  cases call with
  | model field change =>
    obtain ⟨entry, hentry, hchange⟩ := yields_resolve_model_iff.1 h
    exact yields_resolve_model_iff.2 ⟨entry, hentry, ModelChange.resolve_under hadmits hchange⟩
  | showScreen screen => exact h
  | extensionFunction owner name parameter => exact h
  | toggleBacklight | toggleColors | stopwatch | close | settings => exact h

theorem Action.resolve_under {action : Action} :
    ∀ {l out l'}, (around.under catalog).Admits action.references →
      Yields (action.resolve around model) l out l' →
      Yields (action.resolve (around.under catalog) model) l out l' := by
  induction action using Action.induction with
  | hcall c =>
    intro l out l' hadmits h
    rw [resolve] at h ⊢
    exact Call.resolve_under hadmits h
  | hchoose on options ih =>
    intro l out l' hadmits h
    rw [references, optionReferences_eq] at hadmits
    obtain ⟨source, need, l₁, resolved, hon, hcount, hoptions, hout⟩ :=
      yields_resolve_choose_iff.1 h
    refine yields_resolve_choose_iff.2 ⟨source, need, l₁, resolved,
      Source.resolve_under hadmits.left hon, hcount, ?_, hout⟩
    refine hoptions.imp fun option ho _ _ _ hstep => ?_
    obtain ⟨hordinal, hlength, hbody, hfits⟩ := hstep
    refine ⟨hordinal, hlength, hbody.imp fun action ha _ _ _ haction => ?_, hfits⟩
    exact ih option ho action ha ((hadmits.right.of_mem ho).of_mem ha) haction

theorem Action.resolveList_under {actions : List Action} {body : List Program.Instruction}
    (hadmits : (around.under catalog).Admits (actions.flatMap references))
    (h : Yields (resolveList around model actions) l body l') :
    Yields (resolveList (around.under catalog) model actions) l body l' := by
  obtain ⟨hcount, hbody⟩ := yields_resolveList_iff.1 h
  refine yields_resolveList_iff.2 ⟨hcount, hbody.imp fun action ha _ _ _ haction => ?_⟩
  exact resolve_under (hadmits.of_mem ha) haction

theorem Handlers.resolveInto_under {events : List (String × List Action)}
    {done out : List Program.Handler}
    (hadmits : (around.under catalog).Admits
      (events.flatMap fun event => event.2.flatMap Action.references))
    (h : Yields (resolveInto around model done events) l out l') :
    Yields (resolveInto (around.under catalog) model done events) l out l' := by
  induction events generalizing done l with
  | nil => exact h
  | cons first others ih =>
    obtain ⟨event, actions⟩ := first
    rw [List.flatMap_cons] at hadmits
    obtain ⟨key, body, l₁, hkey, hnew, hbody, hothers⟩ := yields_resolveInto_cons_iff.1 h
    exact yields_resolveInto_cons_iff.2 ⟨key, body, l₁, hkey, hnew,
      Action.resolveList_under hadmits.left hbody, ih hadmits.right hothers⟩

/-! #### Controls -/

theorem Control.resolve_under {control : Control} :
    ∀ {l out l'}, (around.under catalog).Admits control.references →
      Yields (control.resolve around model) l out l' →
      Yields (control.resolve (around.under catalog) model) l out l' := by
  induction control using Control.induction with
  | hnumber c =>
    intro l out l' hadmits h
    rw [resolve] at h ⊢
    obtain ⟨range, position, style, source, need, hrange, hposition, hstyle, hroom, hsource,
      hout⟩ := NumberControl.yields_resolve_iff.1 h
    rw [references, NumberControl.references, hrange] at hadmits
    have hstyle' : c.style.resolve (around.under catalog) range = .ok style := by
      rw [← hstyle]
      cases c.style <;> rfl
    exact NumberControl.yields_resolve_iff.2 ⟨range, position, style, source, need, hrange,
      hposition, hstyle', hroom, Source.resolve_under hadmits hsource, hout⟩
  | htext c =>
    intro l out l' hadmits h
    rw [resolve] at h ⊢
    obtain ⟨position, size, font, source, need, l₁, hposition, hsize, hfont, hle, hge, hsource,
      hrest⟩ := TextControl.yields_resolve_iff.1 h
    exact TextControl.yields_resolve_iff.2 ⟨position, size, font, source, need, l₁, hposition,
      hsize, hfont, hle, hge, Source.resolve_under hadmits hsource, hrest⟩
  | hprogress c =>
    intro l out l' hadmits h
    rw [resolve] at h ⊢
    obtain ⟨position, size, border, source, need, hmax, hposition, hsize, hborder, hroom, hsource,
      hout⟩ := ProgressControl.yields_resolve_iff.1 h
    exact ProgressControl.yields_resolve_iff.2 ⟨position, size, border, source, need, hmax,
      hposition, hsize, hborder, hroom, Source.resolve_under hadmits hsource, hout⟩
  | himage c =>
    intro l out l' _ h
    rw [resolve] at h ⊢
    exact h
  | himageSet c =>
    intro l out l' hadmits h
    rw [resolve] at h ⊢
    obtain ⟨position, size, place, source, need, hposition, hsize, hplace, hroom, hsource, hout⟩ :=
      ImageSetControl.yields_resolve_iff.1 h
    exact ImageSetControl.yields_resolve_iff.2 ⟨position, size, place, source, need, hposition,
      hsize, hplace, hroom, Source.resolve_under hadmits hsource, hout⟩
  | hchoose on options ih =>
    intro l out l' hadmits h
    rw [references, optionReferences_eq] at hadmits
    obtain ⟨source, need, l₁, resolved, hon, hroom, hcount, hoptions, hout⟩ :=
      yields_resolve_choose_iff.1 h
    refine yields_resolve_choose_iff.2 ⟨source, need, l₁, resolved,
      Source.resolve_under hadmits.left hon, hroom, hcount, ?_, hout⟩
    refine hoptions.imp fun option ho _ _ _ hstep => ?_
    obtain ⟨hordinal, hlength, hbody, hfits⟩ := hstep
    refine ⟨hordinal, hlength, hbody.imp fun control hc _ _ _ hcontrol => ?_, hfits⟩
    exact ih option ho control hc ((hadmits.right.of_mem ho).of_mem hc) hcontrol

theorem Control.resolveList_under {controls : List Control} {body : List Program.Control}
    (hadmits : (around.under catalog).Admits (controls.flatMap references))
    (h : Yields (resolveList around model controls) l body l') :
    Yields (resolveList (around.under catalog) model controls) l body l' := by
  obtain ⟨hcount, hbody⟩ := yields_resolveList_iff.1 h
  refine yields_resolveList_iff.2 ⟨hcount, hbody.imp fun control hc _ _ _ hcontrol => ?_⟩
  exact resolve_under (hadmits.of_mem hc) hcontrol

/-! #### Models -/

theorem ModelField.resolve_under {field : ModelField} {name : String} {id : UInt8}
    {out : Program.Field} {known : Model}
    (hadmits : (around.under catalog).Admits field.references)
    (h : Yields (field.resolve around model name id) l (out, known) l') :
    Yields (field.resolve (around.under catalog) model name id) l (out, known) l' := by
  cases field with
  | integer value max min overflow =>
    obtain ⟨initial, upper, lower, l₁, l₂, hknown, hvalue, hmax, hmin, hout⟩ :=
      yields_resolve_integer_iff.1 h
    exact yields_resolve_integer_iff.2 ⟨initial, upper, lower, l₁, l₂, hknown,
      Source.resolveOptional_under hadmits.left hvalue,
      Source.resolveOptional_under hadmits.right.left hmax,
      Source.resolveOptional_under hadmits.right.right hmin, hout⟩
  | enumeration values value overflow =>
    obtain ⟨initial, upper, lower, l₁, l₂, hvalues, hknown, hvalue, hbounds⟩ :=
      yields_resolve_enumeration_iff.1 h
    rw [references, ← Source.optionalReferences_meaning] at hadmits
    exact yields_resolve_enumeration_iff.2 ⟨initial, upper, lower, l₁, l₂, hvalues, hknown,
      Source.resolveOptional_under hadmits hvalue, hbounds⟩

theorem resolveFields_under {fields : List (String × ModelField)} {id : Nat}
    {out : List Program.Field} {known : Model}
    (hadmits : (around.under catalog).Admits (fields.flatMap fun field => field.2.references))
    (h : Yields (resolveFields around model id fields) l (out, known) l') :
    Yields (resolveFields (around.under catalog) model id fields) l (out, known) l' := by
  induction fields generalizing model id l out with
  | nil => exact h
  | cons first others ih =>
    obtain ⟨name, field⟩ := first
    rw [List.flatMap_cons] at hadmits
    obtain ⟨out', model', l₁, rest, hfield, hothers, hout⟩ := yields_resolveFields_cons_iff.1 h
    exact yields_resolveFields_cons_iff.2 ⟨out', model', l₁, rest,
      ModelField.resolve_under hadmits.left hfield, ih hadmits.right hothers, hout⟩

/-! #### Screens -/

namespace Screen

theorem resolveModel_under {declared : Option (Members ModelField)}
    {out : Option (List Program.Field)} {known : Model}
    (hadmits : (around.under catalog).Admits
      (declared.toList.flatMap fun fields => fields.flatMap fun field => field.2.references))
    (h : Yields (Screen.resolveModel around declared) l (out, known) l') :
    Yields (Screen.resolveModel (around.under catalog) declared) l (out, known) l' := by
  cases declared with
  | none => exact h
  | some fields =>
    rw [Option.toList_some, List.flatMap_singleton] at hadmits
    obtain ⟨resolved, hresolved, hout⟩ := Screen.yields_resolveModel_iff.1 h
    obtain ⟨hcount, hfields, hfits⟩ := Timepiece.yields_resolveModel_iff.1 hresolved
    exact Screen.yields_resolveModel_iff.2 ⟨resolved, Timepiece.yields_resolveModel_iff.2
      ⟨hcount, resolveFields_under hadmits hfields, hfits⟩, hout⟩

theorem resolveHandlers_under {handlers : Option Handlers} {out : Option (List Program.Handler)}
    (hadmits : (around.under catalog).Admits (handlers.toList.flatMap Handlers.references))
    (h : Yields (resolveHandlers around model handlers) l out l') :
    Yields (resolveHandlers (around.under catalog) model handlers) l out l' := by
  cases handlers with
  | none => exact h
  | some handlers =>
    rw [Option.toList_some, List.flatMap_singleton] at hadmits
    obtain ⟨resolved, hresolved, hrest⟩ := yields_resolveHandlers_iff.1 h
    obtain ⟨hinto, hplaces⟩ := Handlers.yields_resolve_iff.1 hresolved
    exact yields_resolveHandlers_iff.2 ⟨resolved, Handlers.yields_resolve_iff.2
      ⟨Handlers.resolveInto_under hadmits hinto, hplaces⟩, hrest⟩

theorem resolve_under {screen : Screen} {out : Program.Screen}
    (hadmits : (around.under catalog).Admits screen.references)
    (h : Yields (screen.resolve around) l out l') :
    Yields (screen.resolve (around.under catalog)) l out l' := by
  obtain ⟨fields, model, l₁, controls, l₂, handlers, watchface, settings, hmodel, hcontrols, hfits,
    hhandlers, hrest⟩ := yields_resolve_iff.1 h
  exact yields_resolve_iff.2 ⟨fields, model, l₁, controls, l₂, handlers, watchface, settings,
    resolveModel_under hadmits.left hmodel,
    Control.resolveList_under hadmits.right.left hcontrols, hfits,
    resolveHandlers_under hadmits.right.right hhandlers, hrest⟩

/-- **Screens compile under every catalog that admits their references, and to the same.** -/
theorem resolveAll_under {screens : List Screen} {out : List Program.Screen}
    (hadmits : (around.under catalog).Admits (screens.flatMap references))
    (h : Yields (resolveAll around screens) l out l') :
    Yields (resolveAll (around.under catalog) screens) l out l' := by
  refine yields_resolveAll_iff.2 ((yields_resolveAll_iff.1 h).imp fun screen hs _ _ _ hscreen => ?_)
  exact resolve_under (hadmits.of_mem hs) hscreen

end Screen

end Under

/-! ### Documents -/

namespace Document

variable {catalog catalog' : Option (List String)} {document : Document} {id : UInt32}
  {bundle : Bundle}

theorem resolve_under {assembly : Assembly}
    (hadmits : (document.surroundings catalog').Admits document.references)
    (h : document.resolve catalog = .ok assembly) : document.resolve catalog' = .ok assembly := by
  unfold resolve at h ⊢
  obtain ⟨_, hcheck, h⟩ := bind_eq_ok_iff.1 h
  obtain ⟨resources, hresources, h⟩ := bind_eq_ok_iff.1 h
  refine bind_eq_ok_iff.2 ⟨_, hcheck, bind_eq_ok_iff.2 ⟨_, hresources, ?_⟩⟩
  dsimp only at h ⊢
  split at h
  · obtain ⟨_, h, -⟩ := bind_eq_ok_iff.1 h
    exact nomatch h
  · next hscreens =>
    rw [if_neg hscreens]
    obtain ⟨_, hnames, h⟩ := bind_eq_ok_iff.1 h
    obtain ⟨⟨screens, ledger⟩, hyields, h⟩ := bind_eq_ok_iff.1 h
    -- only the screens are compiled in surroundings
    have hyields' : Yields (Screen.resolveAll (document.surroundings catalog') document.screens)
        ⟨[], [], .empty⟩ screens ledger := Screen.resolveAll_under hadmits hyields
    exact bind_eq_ok_iff.2 ⟨_, hnames, bind_eq_ok_iff.2 ⟨_, hyields', h⟩⟩

theorem Compiles.under (hadmits : (document.surroundings catalog').Admits document.references)
    (h : document.Compiles catalog id bundle) : document.Compiles catalog' id bundle := by
  obtain ⟨assembly, hresolve, hbundle⟩ := h
  exact ⟨assembly, resolve_under hadmits hresolve, hbundle⟩

/-- A catalog admits the references of a document if it has the extensions of their
properties. -/
theorem admits_iff {extensions : List String} :
    (document.surroundings (some extensions)).Admits document.references ↔
      ∀ reference ∈ document.propertyReferences, reference.extension ∈ extensions := by
  constructor
  · intro h reference hr
    exact (Surroundings.allows_iff rfl).1 (h reference (Reference.mem_filterMap_property?.1 hr))
  · intro h reference hr
    exact (Surroundings.allows_iff rfl).2 (h reference (Reference.mem_filterMap_property?.2 hr))

end Document

/-! ### The table of functions -/

/-- The function of a reference, if it is one to a function. -/
def Reference.function? : Reference → Option Function
  | .property _ => none
  | .function reference => some reference

/-- The functions that a document calls, in the order in which the calls stand. -/
def Document.functionReferences (document : Document) : List Function :=
  document.references.filterMap Reference.function?

namespace Tables

variable {around : Surroundings} {t t' : Tables} {references : List Reference}

/-- A table is longer by a function that is not in it yet. -/
theorem functions_enterFunction (table : List Function) (reference : Function) :
    (Compiling.enterFunction table reference).2 =
      if reference ∈ table then table else table ++ [reference] := by
  obtain ⟨hget, htable⟩ | ⟨hnew, -, htable⟩ := Compiling.enterFunction_cases table reference
  · rw [htable, if_pos (List.mem_of_getElem? hget)]
  · rw [htable, if_neg hnew]

/-- **Functions stand in the order of first use**, after those that were there before. -/
theorem Enters.functions (h : Enters around t references t') :
    t'.functions =
      t.functions ++
        ((references.filterMap Reference.function?).filter (· ∉ t.functions)).eraseDups := by
  induction h with
  | nil => simp
  | property _ _ _ _ ih =>
    rw [ih]
    rfl
  | @function t t' reference rest _ _ ih =>
    have hlist : (Reference.function reference :: rest).filterMap Reference.function? =
        reference :: rest.filterMap Reference.function? := rfl
    rw [ih, functions_enterFunction, hlist, append_eraseDups_cons]

end Tables

namespace Document

/-- **The functions of a bundle are those that the document calls**, each once. -/
theorem Compiles.functions_eq {catalog : Option (List String)} {id : UInt32} {document : Document}
    {bundle : Bundle} (h : document.Compiles catalog id bundle) :
    bundle.functions = document.functionReferences.eraseDups := by
  obtain ⟨program, -, hcompiled⟩ := h.compiled
  have hfunctions := hcompiled.enters.functions
  simpa [Tables.empty, Bundle.tables, functionReferences] using hfunctions

/-- **What a catalog does.**  A document compiles with it as it would without one, if the catalog
has the extensions of all properties that the document refers to, wherever it does, and not
otherwise.  So all properties of the bundle are of extensions in the catalog.  The functions of
the bundle are just those that the document calls; they are not looked at, and are of extensions
in the catalog if and only if the document calls no others. -/
theorem cataloged (document : Document) (catalog : List String) (id : UInt32) (bundle : Bundle) :
    (document.Compiles (some catalog) id bundle ↔ document.Compiles none id bundle ∧
      ∀ reference ∈ document.propertyReferences, reference.extension ∈ catalog) ∧
    (document.Compiles (some catalog) id bundle →
      (∀ entry ∈ bundle.properties, entry.extension ∈ catalog) ∧
      bundle.functions = document.functionReferences.eraseDups ∧
      ((∀ function ∈ bundle.functions, function.extension ∈ catalog) ↔
        ∀ function ∈ document.functionReferences, function.extension ∈ catalog)) := by
  have hadmitted (h : document.Compiles (some catalog) id bundle) :
      ∀ reference ∈ document.propertyReferences, reference.extension ∈ catalog := by
    obtain ⟨program, -, hcompiled⟩ := h.compiled
    exact admits_iff.1 hcompiled.enters.admits
  refine ⟨⟨fun h => ⟨h.under ?_, hadmitted h⟩, fun ⟨h, hall⟩ => h.under (admits_iff.2 hall)⟩, ?_⟩
  · exact Surroundings.admits_under_none (document.surroundings none) _
  · intro h
    refine ⟨fun entry hentry => ?_, h.functions_eq, ?_⟩
    · -- an entry is there for a reference to its property
      obtain ⟨reference, hr, hidentity⟩ := h.tabulates.exists_reference hentry
      have hextension : reference.extension = entry.extension := congrArg Prod.fst hidentity
      rw [← hextension]
      exact hadmitted h reference hr
    · rw [h.functions_eq]
      simp only [List.mem_eraseDups]

/-- The sample shows a property of the weather and calls a function of the music. -/
theorem cataloged_sample : ∃ bundle, sample.Compiles (some ["weather", "music"]) 7 bundle ∧
    (∀ entry ∈ bundle.properties, entry.extension ∈ ["weather", "music"]) ∧
      ∀ function ∈ bundle.functions, function.extension ∈ ["weather", "music"] := by
  obtain ⟨bundle, hcompiles⟩ := exists_compiles_sample
  have hcatalog := cataloged sample ["weather", "music"] 7 bundle
  have hlisted := hcatalog.1.2 ⟨hcompiles, by decide +kernel⟩
  obtain ⟨hproperties, -, hfunctions⟩ := hcatalog.2 hlisted
  exact ⟨bundle, hlisted, hproperties, hfunctions.2 (by decide +kernel)⟩

/-- With a catalog that has only the weather, the sample compiles all the same, and its bundle
has a function of the music. -/
theorem calls_uncataloged : ∃ bundle, sample.Compiles (some ["weather"]) 7 bundle ∧
    ∃ function ∈ bundle.functions, function.extension ∉ ["weather"] := by
  have hok : (sample.resolve (some ["weather"]) >>= fun assembly => assembly.bundle 7).map
      Bundle.functions = .ok [⟨"music", "play", ""⟩] := by
    decide +kernel
  obtain ⟨bundle, hbundle, hfunctions⟩ := map_eq_ok_iff.1 hok
  refine ⟨bundle, bind_eq_ok_iff.1 hbundle, ⟨"music", "play", ""⟩, ?_, by decide⟩
  rw [hfunctions]
  exact List.mem_cons_self

end Document

end Timepiece
