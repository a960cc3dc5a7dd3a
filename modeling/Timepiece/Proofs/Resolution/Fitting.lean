import Mathlib
import Timepiece.Proofs.Program.Parts
import Timepiece.Proofs.Resolution.Soundness

/-!
# Compiled programs fit

Compiling checks every count and every length that a program writes down, so what it
yields can be read back from its bytes.

## Main results

* `Source.fits_of_resolve`, `Action.fits_of_resolve`, `Control.fits_of_resolve` —
  sources, instructions and controls fit.
* `Handlers.fit_of_resolve` — a table of handlers can be counted, since no event is
  handled twice.
* `Screen.fits_of_resolve` — **compiled screens fit**.
-/

namespace Timepiece

open Compiling

variable {around : Surroundings} {model : Model} {need need' : Need} {l l' : Ledger}

/-- What a table gives for a name stands in the table. -/
theorem Symbols.mem_of_key? {table : List (String × UInt8)} {name : String} {key : UInt8}
    (h : key? table name = some key) : key ∈ table.map Prod.snd := by
  obtain ⟨before, after, rfl, -⟩ := List.lookup_eq_some_iff.1 h
  simp

/-! ### Sources -/

theorem Source.fits_of_resolveFixed {literal : Literal} {out : Program.Origin}
    (h : resolveFixed need literal = .ok (out, need')) : out.Fits := by
  obtain ⟨bytes, rfl, ⟨-, htext, -⟩ | ⟨-, hnumber, -⟩⟩ := resolveFixed_eq_ok_iff.1 h
  · exact (textBytes_eq_ok_iff.1 htext).2
  · obtain ⟨n, -, -, rfl⟩ := numberBytes_eq_ok_iff.1 hnumber
    show (signedBytes _).length ≤ maxCount
    rw [signedBytes, longBytes, length_bigEndian]
    decide

theorem Source.fits_of_resolveOrigin {origin : Origin} {out : Program.Origin}
    (h : Yields (resolveOrigin around model need origin) l (out, need') l') : out.Fits := by
  cases origin with
  | fixed literal => exact fits_of_resolveFixed (yields_resolveOrigin_fixed_iff.1 h).1
  | internal name =>
    obtain ⟨key, -, -, rfl, -⟩ := yields_resolveOrigin_internal_iff.1 h
    exact trivial
  | sensor name =>
    obtain ⟨key, -, -, rfl, -⟩ := yields_resolveOrigin_sensor_iff.1 h
    exact trivial
  | extension owner name =>
    obtain ⟨index, -, rfl, -⟩ := yields_resolveOrigin_extension_iff.1 h
    exact trivial
  | model name =>
    obtain ⟨entry, -, rfl, -⟩ := yields_resolveOrigin_model_iff.1 h
    exact trivial

theorem Source.convertersFit_of_resolve {converters : Option (List String)}
    {keys : Option (List UInt8)} (h : Yields (resolveConverters converters) l keys l') :
    Program.ConvertersFit keys := by
  obtain ⟨hkeys, -⟩ := yields_resolveConverters_iff.1 h
  cases converters with
  | none =>
    obtain rfl := hkeys
    exact fun _ h => nomatch h
  | some names =>
    obtain ⟨hcount, found, hfound, rfl⟩ := hkeys
    intro keys hkeys
    obtain rfl := Option.some.inj hkeys
    rw [← (converterKeys_eq_ok_iff.1 hfound).length_eq]
    exact hcount

theorem Source.fits_of_resolve {source : Source} {out : Program.Source}
    (h : Yields (source.resolve around model need) l (out, need') l') : out.Fits := by
  induction source generalizing need need' l out l' with
  | plain origin converters =>
    obtain ⟨o, l₁, keys, horigin, hconverters, rfl⟩ := yields_resolve_plain_iff.1 h
    exact ⟨fits_of_resolveOrigin horigin, convertersFit_of_resolve hconverters⟩
  | indexed origin index converters ih =>
    obtain ⟨o, l₁, i, needed, l₂, keys, horigin, hindex, hconverters, rfl⟩ :=
      yields_resolve_indexed_iff.1 h
    exact ⟨fits_of_resolveOrigin horigin, ih hindex, convertersFit_of_resolve hconverters⟩

theorem Source.fits_of_resolveFor {source : Source} {out : Program.Source}
    (h : Yields (source.resolveFor around model need) l out l') : out.Fits := by
  obtain ⟨need', h⟩ := yields_resolveFor_iff.1 h
  exact fits_of_resolve h

/-! ### Actions -/

/-- An instruction without sources fits. -/
theorem Program.Instruction.Fits.of_nil {instruction : Program.Instruction}
    (hplain : ∀ on options, instruction ≠ .choose on options) (h : instruction.sources = []) :
    instruction.Fits := by
  refine .plain hplain fun source hs => ?_
  rw [h] at hs
  exact absurd hs List.not_mem_nil

/-- An instruction with one source fits if its source does. -/
theorem Program.Instruction.Fits.of_singleton {instruction : Program.Instruction}
    (hplain : ∀ on options, instruction ≠ .choose on options) {source : Program.Source}
    (h : instruction.sources = [source]) (hsource : source.Fits) : instruction.Fits := by
  refine .plain hplain fun other hs => ?_
  rw [h] at hs
  exact List.mem_singleton.1 hs ▸ hsource

theorem ModelChange.fits_of_resolve {change : ModelChange} {entry : FieldEntry}
    {out : Program.Instruction} (h : Yields (change.resolve around model entry) l out l') :
    out.Fits := by
  cases change with
  | set value =>
    obtain ⟨source, hvalue, rfl⟩ := yields_resolve_set_iff.1 h
    exact .of_singleton (fun _ _ => nofun) rfl (Source.fits_of_resolveFor hvalue)
  | add value =>
    obtain ⟨source, hvalue, rfl⟩ := yields_resolve_add_iff.1 h
    exact .of_singleton (fun _ _ => nofun) rfl (Source.fits_of_resolveFor hvalue)
  | subtract value =>
    obtain ⟨source, hvalue, rfl⟩ := yields_resolve_subtract_iff.1 h
    exact .of_singleton (fun _ _ => nofun) rfl (Source.fits_of_resolveFor hvalue)
  | increment | decrement =>
    obtain ⟨rfl, -⟩ := yields_pure_iff.1 h
    exact .of_nil (fun _ _ => nofun) rfl

theorem Call.fits_of_resolve {call : Call} {out : Program.Instruction}
    (h : Yields (call.resolve around model) l out l') : out.Fits := by
  cases call with
  | showScreen screen =>
    obtain ⟨place, -, rfl, -⟩ := yields_resolve_showScreen_iff.1 h
    exact .of_nil (fun _ _ => nofun) rfl
  | extensionFunction owner name parameter =>
    obtain ⟨index, -, rfl⟩ := yields_resolve_extensionFunction_iff.1 h
    exact .of_nil (fun _ _ => nofun) rfl
  | model name change =>
    obtain ⟨entry, -, hchange⟩ := yields_resolve_model_iff.1 h
    exact ModelChange.fits_of_resolve hchange
  | toggleBacklight | toggleColors | stopwatch | close | settings =>
    obtain ⟨rfl, -⟩ := yields_pure_iff.1 h
    exact .of_nil (fun _ _ => nofun) rfl

theorem Action.fits_of_resolve {action : Action} : ∀ {l out l'},
    Yields (action.resolve around model) l out l' → out.Fits := by
  induction action using Action.induction with
  | hcall c =>
    intro l out l' h
    rw [resolve] at h
    exact Call.fits_of_resolve h
  | hchoose on options ih =>
    intro l out l' h
    obtain ⟨source, need, l₁, resolved, hon, hcount, hoptions, rfl⟩ :=
      yields_resolve_choose_iff.1 h
    refine .choose (Source.fits_of_resolve hon) (hoptions.length_eq ▸ hcount) ?_ ?_
    -- every option of the instruction comes from one of the action
    · intro option' ho'
      obtain ⟨option, -, _, _, -, hactions, hbody, hlength⟩ := hoptions.exists_of_mem ho'
      exact ⟨hbody.length_eq ▸ hactions, hlength⟩
    · intro option' ho' instruction hi
      obtain ⟨option, ho, _, _, -, -, hbody, -⟩ := hoptions.exists_of_mem ho'
      obtain ⟨action, ha, _, _, haction⟩ := hbody.exists_of_mem hi
      exact ih option ho action ha haction

theorem Action.fit_of_resolveList {actions : List Action} {body : List Program.Instruction}
    (h : Yields (resolveList around model actions) l body l') : Program.InstructionsFit body := by
  obtain ⟨hcount, hbody⟩ := yields_resolveList_iff.1 h
  refine ⟨hbody.length_eq ▸ hcount, fun instruction hi => ?_⟩
  obtain ⟨action, -, _, _, haction⟩ := hbody.exists_of_mem hi
  exact fits_of_resolve haction

/-! ### Handlers -/

namespace Handlers

theorem fit_of_resolveInto {events : List (String × List Action)} {out : List Program.Handler}
    (h : Yields (resolveInto around model [] events) l out l') :
    ∀ handler ∈ out, Program.InstructionsFit handler.body ∧
      handler.event ∈ Symbols.event.map Prod.snd := by
  obtain ⟨compiled, hcompiled, hperm, -⟩ := threaded_of_resolveInto h
  intro handler hmem
  obtain ⟨event, -, _, _, hkey, hbody⟩ := hcompiled.exists_of_mem (hperm.mem_iff.1 hmem)
  exact ⟨Action.fit_of_resolveList hbody, Symbols.mem_of_key? hkey⟩

/-- Since no event is handled twice, there are not more handlers than events. -/
theorem length_le_of_pairwise {handlers : List Program.Handler}
    (hsorted : handlers.Pairwise fun a b => a.event < b.event)
    (hevents : ∀ handler ∈ handlers, handler.event ∈ Symbols.event.map Prod.snd) :
    handlers.length ≤ maxCount := by
  have hnodup : (handlers.map Program.Handler.event).Nodup := by
    rw [List.nodup_iff_pairwise_ne, List.pairwise_map]
    refine hsorted.imp fun hlt heq => ?_
    rw [heq] at hlt
    exact UInt8.lt_irrefl _ hlt
  -- the events are distinct members of the table of events, which is short
  have hsubset : handlers.map Program.Handler.event ⊆ Symbols.event.map Prod.snd := by
    intro event hevent
    obtain ⟨handler, hmem, rfl⟩ := List.mem_map.1 hevent
    exact hevents handler hmem
  have hlength := (hnodup.subperm hsubset).length_le
  rw [List.length_map] at hlength
  exact hlength.trans (by decide)

theorem fit_of_resolve (hcountable : around.Countable) {fields : Members ModelField}
    (hknows : model.Knows fields) {handlers : Handlers} {out : List Program.Handler}
    (h : Yields (handlers.resolve around model) l out l')
    (hlength : (Program.handlersBytes out).length ≤ maxLength) : Program.HandlersFit out := by
  have hinto := (yields_resolve_iff.1 h).1
  have hfit := fit_of_resolveInto hinto
  -- the count is not checked when handlers are compiled, but no two of them share an event
  obtain ⟨-, -, -, hsorted⟩ := stand_of_resolve hcountable hknows h (.refl l'.tables)
  exact ⟨length_le_of_pairwise hsorted fun handler hmem => (hfit handler hmem).2, hlength,
    fun handler hmem => (hfit handler hmem).1⟩

end Handlers

/-! ### Controls -/

theorem NumberStyle.Stands.fits {range : NumberRange} {style : NumberStyle}
    {out : Program.NumberStyle} (h : style.Stands around range out) : out.Fits := by
  cases h with
  | generated _ hspace _ _ _ => exact hspace
  | font _ hspace _ => exact hspace

theorem Control.fits_of_resolve (hcountable : around.Countable) {control : Control} :
    ∀ {l out l'}, Yields (control.resolve around model) l out l' → out.Fits := by
  induction control using Control.induction with
  | hnumber c =>
    intro l out l' h
    rw [resolve] at h
    obtain ⟨range, position, style, source, need, -, -, hstyle, -, hsource, rfl⟩ :=
      NumberControl.yields_resolve_iff.1 h
    exact .number (NumberStyle.stands_of_resolve hcountable hstyle).fits
      (Source.fits_of_resolve hsource)
  | htext c =>
    intro l out l' h
    rw [resolve] at h
    obtain ⟨position, size, font, source, need, l₁, -, -, -, -, -, hsource, -, rfl, -⟩ :=
      TextControl.yields_resolve_iff.1 h
    exact .text (Source.fits_of_resolve hsource)
  | hprogress c =>
    intro l out l' h
    rw [resolve] at h
    obtain ⟨position, size, border, source, need, -, -, -, -, -, hsource, rfl⟩ :=
      ProgressControl.yields_resolve_iff.1 h
    exact .progress (Source.fits_of_resolve hsource)
  | himage c =>
    intro l out l' h
    rw [resolve] at h
    obtain ⟨himage, -⟩ := yields_lift_iff.1 h
    obtain ⟨position, size, place, -, -, -, rfl⟩ := ImageControl.resolve_eq_ok_iff.1 himage
    exact .image
  | himageSet c =>
    intro l out l' h
    rw [resolve] at h
    obtain ⟨position, size, place, source, need, -, -, -, -, hsource, rfl⟩ :=
      ImageSetControl.yields_resolve_iff.1 h
    exact .imageSet (Source.fits_of_resolve hsource)
  | hchoose on options ih =>
    intro l out l' h
    obtain ⟨source, need, l₁, resolved, hon, -, hcount, hoptions, rfl⟩ :=
      yields_resolve_choose_iff.1 h
    refine .choose (Source.fits_of_resolve hon) (hoptions.length_eq ▸ hcount) ?_ ?_
    -- every option of the record comes from one of the control
    · intro option' ho'
      obtain ⟨option, -, _, _, -, hcontrols, hbody, hlength⟩ := hoptions.exists_of_mem ho'
      exact ⟨hbody.length_eq ▸ hcontrols, hlength⟩
    · intro option' ho' record hr
      obtain ⟨option, ho, _, _, -, -, hbody, -⟩ := hoptions.exists_of_mem ho'
      obtain ⟨control, hc, _, _, hcontrol⟩ := hbody.exists_of_mem hr
      exact ih option ho control hc hcontrol

theorem Control.fit_of_resolveList (hcountable : around.Countable) {controls : List Control}
    {body : List Program.Control} (h : Yields (resolveList around model controls) l body l') :
    Program.ControlsFit body := by
  obtain ⟨hcount, hbody⟩ := yields_resolveList_iff.1 h
  refine ⟨hbody.length_eq ▸ hcount, fun record hr => ?_⟩
  obtain ⟨control, -, _, _, hcontrol⟩ := hbody.exists_of_mem hr
  exact fits_of_resolve hcountable hcontrol

/-! ### Models -/

theorem Source.fit_of_resolveOptional {source : Option Source} {out : Option Program.Source}
    (h : Yields (resolveOptional around model need source) l out l') :
    ∀ resolved ∈ out, resolved.Fits := by
  have h := yields_resolveOptional_iff.1 h
  cases source with
  | none =>
    obtain ⟨rfl, -⟩ := h
    exact fun _ h => nomatch h
  | some source =>
    obtain ⟨resolved, need', hsource, rfl⟩ := h
    intro other hother
    obtain rfl := Option.some.inj hother
    exact fits_of_resolve hsource

theorem ModelField.fits_of_resolve {field : ModelField} {name : String} {id : UInt8}
    {out : Program.Field} {known : Model}
    (h : Yields (field.resolve around model name id) l (out, known) l') :
    ∀ source ∈ out.sources, source.Fits := by
  intro source hs
  rw [Program.Field.sources, List.mem_append, List.mem_append, Option.mem_toList,
    Option.mem_toList, Option.mem_toList] at hs
  cases field with
  | integer value max min overflow =>
    obtain ⟨initial, upper, lower, l₁, l₂, -, hvalue, hmax, hmin, rfl⟩ :=
      yields_resolve_integer_iff.1 h
    rcases hs with (hs | hs) | hs
    · exact Source.fit_of_resolveOptional hvalue source hs
    · exact Source.fit_of_resolveOptional hmax source hs
    · exact Source.fit_of_resolveOptional hmin source hs
  | enumeration values value overflow =>
    obtain ⟨initial, upper, lower, l₁, l₂, -, -, hvalue, hmax, hmin, rfl⟩ :=
      yields_resolve_enumeration_iff.1 h
    rcases hs with (hs | hs) | hs
    · exact Source.fit_of_resolveOptional hvalue source hs
    · exact Option.some.inj hs ▸ Source.fits_of_resolveFor hmax
    · exact Option.some.inj hs ▸ Source.fits_of_resolveFor hmin

theorem fit_of_resolveFields {declared : List (String × ModelField)} {id : Nat}
    {out : List Program.Field} {known : Model}
    (h : Yields (resolveFields around model id declared) l (out, known) l') :
    out.length = declared.length ∧ ∀ field ∈ out, ∀ source ∈ field.sources, source.Fits := by
  induction declared generalizing model id l out with
  | nil =>
    obtain ⟨hout, -⟩ := yields_pure_iff.1 h
    obtain ⟨rfl, rfl⟩ := Prod.mk.inj hout
    exact ⟨rfl, fun _ h => absurd h List.not_mem_nil⟩
  | cons first others ih =>
    obtain ⟨name, field⟩ := first
    obtain ⟨out', model', l₁, rest, hfield, hothers, rfl⟩ := yields_resolveFields_cons_iff.1 h
    obtain ⟨hlength, hrest⟩ := ih hothers
    refine ⟨by rw [List.length_cons, List.length_cons, hlength], ?_⟩
    exact List.forall_mem_cons.2 ⟨ModelField.fits_of_resolve hfield, hrest⟩

/-! ### Screens -/

namespace Screen

theorem fit_of_resolveModel {declared : Option (Members ModelField)}
    {out : Option (List Program.Field)} {known : Model}
    (h : Yields (Screen.resolveModel around declared) l (out, known) l') :
    ∀ fields ∈ out, Program.ModelFits fields := by
  have h := Screen.yields_resolveModel_iff.1 h
  cases declared with
  | none =>
    obtain ⟨rfl, -⟩ := h
    exact fun _ h => nomatch h
  | some declared =>
    obtain ⟨resolved, hresolved, rfl⟩ := h
    obtain ⟨hcount, hfields, hlength⟩ := Timepiece.yields_resolveModel_iff.1 hresolved
    obtain ⟨hsame, hfit⟩ := fit_of_resolveFields hfields
    intro fields hmem
    obtain rfl := Option.some.inj hmem
    exact ⟨hsame ▸ hcount, hlength, hfit⟩

theorem fit_of_resolveHandlers (hcountable : around.Countable) {fields : Members ModelField}
    (hknows : model.Knows fields) {handlers : Option Handlers}
    {out : Option (List Program.Handler)}
    (h : Yields (resolveHandlers around model handlers) l out l') :
    ∀ handlers ∈ out, Program.HandlersFit handlers := by
  have h := yields_resolveHandlers_iff.1 h
  cases handlers with
  | none =>
    obtain ⟨rfl, -⟩ := h
    exact fun _ h => nomatch h
  | some handlers =>
    obtain ⟨resolved, hresolved, hlength, rfl⟩ := h
    intro other hmem
    obtain rfl := Option.some.inj hmem
    exact Handlers.fit_of_resolve hcountable hknows hresolved hlength

theorem fit_of_resolveSettings {settings : Option (Members Bool)} {out : Option (List Bool)}
    (h : Yields (Screen.resolveSettings settings) l out l') :
    ∀ values ∈ out, Program.SettingsFit values := by
  obtain ⟨h, -⟩ := yields_resolveSettings_iff.1 h
  cases settings with
  | none =>
    obtain rfl := h
    exact fun _ h => nomatch h
  | some settings =>
    obtain ⟨hcount, -, hlength, rfl⟩ := h
    intro values hmem
    obtain rfl := Option.some.inj hmem
    exact ⟨by rw [List.length_map]; exact hcount, hlength⟩

/-- **Compiled screens fit.** -/
theorem fits_of_resolve (hcountable : around.Countable) {screen : Screen} {out : Program.Screen}
    (h : Yields (screen.resolve around) l out l') : out.Fits := by
  obtain ⟨declared, model, l₁, controls, l₂, handlers, watchface, settings, hmodel, hcontrols,
    hlength, hhandlers, -, hsettings, rfl⟩ := yields_resolve_iff.1 h
  obtain ⟨-, hknows, -⟩ := stands_of_resolveModel hmodel (.refl l₁.tables)
  exact ⟨fit_of_resolveModel hmodel, Control.fit_of_resolveList hcountable hcontrols, hlength,
    fit_of_resolveHandlers hcountable hknows hhandlers, fit_of_resolveSettings hsettings⟩

end Screen

end Timepiece
