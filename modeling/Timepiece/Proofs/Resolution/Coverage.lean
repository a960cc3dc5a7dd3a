import Mathlib
import Timepiece.Proofs.Program.Parts
import Timepiece.Proofs.Resolution.Documents

/-!
# Every entry is used

An entry comes into a table only when a reference is compiled, and the place it gets is
written into the program there and then.  So every place of the tables is found
somewhere in the program.

## Main definitions

* `Tables.Mentioned` — the places that are new in the second tables have a property.
* `Program.SourceUses`, `Program.InstructionsUse`, `Program.ControlsUse` — the places in
  a source, a list of instructions and a list of controls have it.

## Main results

* `Document.Compiled.property_used`, `Document.Compiled.function_used` — **every property
  and every function of a bundle is referred to by its program**.
-/

namespace Timepiece

open Compiling

/-! ### New places -/

/-- The places that are in the second tables but not yet in the first. -/
structure Tables.Mentioned (P Q : Nat → Prop) (t t' : Tables) : Prop where
  properties : ∀ place, t.properties.length ≤ place → place < t'.properties.length → P place
  functions : ∀ place, t.functions.length ≤ place → place < t'.functions.length → Q place

variable {P Q : Nat → Prop} {around : Surroundings} {model : Model} {need need' : Need}
  {l l' : Ledger}

namespace Tables.Mentioned

theorem refl (t : Tables) : t.Mentioned P Q t where
  properties := fun _ hle hlt => absurd hlt (Nat.not_lt.2 hle)
  functions := fun _ hle hlt => absurd hlt (Nat.not_lt.2 hle)

theorem trans {t t' t'' : Tables} (h : t.Mentioned P Q t') (h' : t'.Mentioned P Q t'') :
    t.Mentioned P Q t'' where
  properties := by
    intro place hle hlt
    rcases Nat.lt_or_ge place t'.properties.length with hmid | hmid
    · exact h.properties place hle hmid
    · exact h'.properties place hmid hlt
  functions := by
    intro place hle hlt
    rcases Nat.lt_or_ge place t'.functions.length with hmid | hmid
    · exact h.functions place hle hmid
    · exact h'.functions place hmid hlt

/-- Only the place that is written can be new in the table of properties. -/
theorem of_property {reference : Property} {index : UInt8}
    (h : Yields (property around reference) l index l') (hP : P index.toNat) :
    l.tables.Mentioned P Q l'.tables := by
  obtain ⟨-, place, table, henter, hplace, rfl, rfl⟩ := yields_property_iff.1 h
  refine ⟨fun other hle hlt => ?_, fun _ hle hlt => absurd hlt (Nat.not_lt.2 hle)⟩
  obtain ⟨entry, merged, -, -, -, rfl⟩ | ⟨-, rfl, rfl⟩ := enterProperty_eq_ok henter
  -- an entry that is widened stands at an old place
  · exact absurd hlt (by simpa [Ledger.tables] using hle)
  · have hother : other = l.properties.length := by
      simp only [Ledger.tables, List.length_append, List.length_singleton] at hle hlt
      omega
    rw [UInt8.toNat_ofNat', Nat.mod_eq_of_lt (hplace.trans (by decide))] at hP
    exact hother ▸ hP

/-- Only the place that is written can be new in the table of functions. -/
theorem of_function {reference : Function} {index : UInt16}
    (h : Yields (function reference) l index l') (hQ : Q index.toNat) :
    l.tables.Mentioned P Q l'.tables := by
  obtain ⟨hplace, rfl, rfl⟩ := yields_function_iff.1 h
  refine ⟨fun _ hle hlt => absurd hlt (Nat.not_lt.2 hle), fun other hle hlt => ?_⟩
  have hindex : (UInt16.ofNat (enterFunction l.functions reference).1).toNat =
      (enterFunction l.functions reference).1 := toNat_offset hplace
  rw [hindex] at hQ
  obtain ⟨-, htable⟩ | ⟨-, hlast, htable⟩ := enterFunction_cases l.functions reference
  · exact absurd hlt (by simpa [Ledger.tables, htable] using hle)
  · have hother : other = l.functions.length := by
      simp only [Ledger.tables, htable, List.length_append, List.length_singleton] at hle hlt
      omega
    rw [hother, ← hlast]
    exact hQ

end Tables.Mentioned

/-! ### Sources -/

/-- The places of properties in a source. -/
def Program.SourceUses (P : Nat → Prop) (source : Program.Source) : Prop :=
  ∀ inner : Program.Source, inner.Within source → ∀ index, inner.origin = .property index →
    P index.toNat

theorem Source.mentioned_of_resolveOrigin {origin : Origin} {out : Program.Origin}
    (h : Yields (resolveOrigin around model need origin) l (out, need') l')
    (hP : ∀ index, out = .property index → P index.toNat) :
    l.tables.Mentioned P Q l'.tables := by
  cases origin with
  | fixed literal =>
    rw [(yields_resolveOrigin_fixed_iff.1 h).2]
    exact .refl _
  | internal name =>
    obtain ⟨-, -, -, -, -, rfl⟩ := yields_resolveOrigin_internal_iff.1 h
    exact .refl _
  | sensor name =>
    obtain ⟨-, -, -, -, -, rfl⟩ := yields_resolveOrigin_sensor_iff.1 h
    exact .refl _
  | extension owner name =>
    obtain ⟨index, hproperty, rfl, -⟩ := yields_resolveOrigin_extension_iff.1 h
    exact .of_property hproperty (hP index rfl)
  | model name =>
    obtain ⟨-, -, -, -, rfl⟩ := yields_resolveOrigin_model_iff.1 h
    exact .refl _

theorem Source.mentioned_of_resolve {source : Source} {out : Program.Source}
    (h : Yields (source.resolve around model need) l (out, need') l')
    (hP : Program.SourceUses P out) : l.tables.Mentioned P Q l'.tables := by
  induction source generalizing need need' l out l' with
  | plain origin converters =>
    obtain ⟨o, l₁, keys, horigin, hconverters, rfl⟩ := yields_resolve_plain_iff.1 h
    obtain ⟨-, rfl⟩ := convertersStand_of_resolve hconverters
    exact mentioned_of_resolveOrigin horigin (hP _ .self)
  | indexed origin index converters ih =>
    obtain ⟨o, l₁, i, needed, l₂, keys, horigin, hindex, hconverters, rfl⟩ :=
      yields_resolve_indexed_iff.1 h
    obtain ⟨-, rfl⟩ := convertersStand_of_resolve hconverters
    exact (mentioned_of_resolveOrigin horigin (hP _ .self)).trans
      (ih hindex fun inner hw => hP inner (.index hw))

theorem Source.mentioned_of_resolveFor {source : Source} {out : Program.Source}
    (h : Yields (source.resolveFor around model need) l out l') (hP : Program.SourceUses P out) :
    l.tables.Mentioned P Q l'.tables := by
  obtain ⟨need', h⟩ := yields_resolveFor_iff.1 h
  exact mentioned_of_resolve h hP

/-! ### Actions -/

/-- The places of properties and functions in a list of instructions, at any depth. -/
def Program.InstructionsUse (P Q : Nat → Prop) (body : List Program.Instruction) : Prop :=
  ∀ inner, InstructionBranch inner body → ∀ instruction ∈ inner,
    (∀ taken ∈ instruction.sources, SourceUses P taken) ∧
      ∀ index, instruction = .callFunction index → Q index.toNat

theorem Program.InstructionsUse.option {body : List Program.Instruction}
    (h : InstructionsUse P Q body) {on : Program.Source}
    {options : List (UInt8 × List Program.Instruction)} (hchoose : .choose on options ∈ body)
    {option : UInt8 × List Program.Instruction} (ho : option ∈ options) :
    InstructionsUse P Q option.2 := fun inner hb => h inner (.option hchoose ho hb)

theorem ModelChange.mentioned_of_resolve {change : ModelChange} {entry : FieldEntry}
    {out : Program.Instruction} (h : Yields (change.resolve around model entry) l out l')
    (hP : ∀ taken ∈ out.sources, Program.SourceUses P taken) :
    l.tables.Mentioned P Q l'.tables := by
  cases change with
  | set value =>
    obtain ⟨source, hvalue, rfl⟩ := yields_resolve_set_iff.1 h
    exact Source.mentioned_of_resolveFor hvalue (hP source List.mem_cons_self)
  | add value =>
    obtain ⟨source, hvalue, rfl⟩ := yields_resolve_add_iff.1 h
    exact Source.mentioned_of_resolveFor hvalue (hP source List.mem_cons_self)
  | subtract value =>
    obtain ⟨source, hvalue, rfl⟩ := yields_resolve_subtract_iff.1 h
    exact Source.mentioned_of_resolveFor hvalue (hP source List.mem_cons_self)
  | increment | decrement =>
    rw [(yields_pure_iff.1 h).2]
    exact .refl _

theorem Call.mentioned_of_resolve {call : Call} {out : Program.Instruction}
    (h : Yields (call.resolve around model) l out l')
    (hP : ∀ taken ∈ out.sources, Program.SourceUses P taken)
    (hQ : ∀ index, out = .callFunction index → Q index.toNat) :
    l.tables.Mentioned P Q l'.tables := by
  cases call with
  | showScreen screen =>
    obtain ⟨place, -, -, rfl⟩ := yields_resolve_showScreen_iff.1 h
    exact .refl _
  | extensionFunction owner name parameter =>
    obtain ⟨index, hfunction, rfl⟩ := yields_resolve_extensionFunction_iff.1 h
    exact .of_function hfunction (hQ index rfl)
  | model name change =>
    obtain ⟨entry, -, hchange⟩ := yields_resolve_model_iff.1 h
    exact ModelChange.mentioned_of_resolve hchange hP
  | toggleBacklight | toggleColors | stopwatch | close | settings =>
    rw [(yields_pure_iff.1 h).2]
    exact .refl _

/-- Where every step mentions what it takes in, all steps together do. -/
theorem Threaded.mentioned {α β : Type} {step : α → Ledger → β → Ledger → Prop} {items : List α}
    {results : List β} (h : Threaded step items l results l')
    (hstep : ∀ a ∈ items, ∀ b ∈ results, ∀ {l l'}, step a l b l' →
      l.tables.Mentioned P Q l'.tables) : l.tables.Mentioned P Q l'.tables :=
  h.relation (R := fun l l' => l.tables.Mentioned P Q l'.tables) (fun l => .refl l.tables)
    (fun hfirst hrest => hfirst.trans hrest) hstep

/-- An action mentions what it takes in: the instruction that it becomes stands in a list
whose places are used. -/
theorem Action.mentioned_of_resolve {action : Action} : ∀ {l out l' body},
    Yields (action.resolve around model) l out l' → out ∈ body →
      Program.InstructionsUse P Q body → l.tables.Mentioned P Q l'.tables := by
  induction action using Action.induction with
  | hcall c =>
    intro l out l' body h hmem huse
    rw [resolve] at h
    obtain ⟨hsources, hfunction⟩ := huse body .self out hmem
    exact Call.mentioned_of_resolve h hsources hfunction
  | hchoose on options ih =>
    intro l out l' body h hmem huse
    obtain ⟨source, need, l₁, resolved, hon, -, hoptions, rfl⟩ := yields_resolve_choose_iff.1 h
    obtain ⟨hsources, -⟩ := huse body .self _ hmem
    refine (Source.mentioned_of_resolve hon (hsources source List.mem_cons_self)).trans
      (hoptions.mentioned fun option ho out ho' l l' hstep => ?_)
    -- the instructions of an option are a branch of the list that the choice stands in
    exact hstep.2.2.1.mentioned fun action ha instruction hi l l' haction =>
      ih option ho action ha haction hi (huse.option hmem ho')

theorem Action.mentioned_of_resolveList {actions : List Action} {body : List Program.Instruction}
    (h : Yields (resolveList around model actions) l body l')
    (huse : Program.InstructionsUse P Q body) : l.tables.Mentioned P Q l'.tables :=
  (yields_resolveList_iff.1 h).2.mentioned fun _ _ _ hmem _ _ haction =>
    mentioned_of_resolve haction hmem huse

theorem Handlers.mentioned_of_resolveInto {events : List (String × List Action)}
    {done out : List Program.Handler} (h : Yields (resolveInto around model done events) l out l')
    (huse : ∀ handler ∈ out, Program.InstructionsUse P Q handler.body) :
    l.tables.Mentioned P Q l'.tables := by
  obtain ⟨compiled, hcompiled, hperm, -⟩ := threaded_of_resolveInto h
  -- nothing is lost when handlers are put in order
  refine hcompiled.mentioned fun _ _ handler hmem _ _ hevent => ?_
  exact Action.mentioned_of_resolveList hevent.2
    (huse handler (hperm.mem_iff.2 (List.mem_append_right _ hmem)))

/-! ### Controls -/

/-- The places of properties in a list of controls, at any depth. -/
def Program.ControlsUse (P : Nat → Prop) (body : List Program.Control) : Prop :=
  ∀ inner, ControlBranch inner body → ∀ control ∈ inner, ∀ taken ∈ control.sources,
    SourceUses P taken

theorem Program.ControlsUse.option {body : List Program.Control} (h : ControlsUse P body)
    {on : Program.Source} {scratch : UInt16} {options : List (UInt8 × List Program.Control)}
    (hchoose : .choose on scratch options ∈ body) {option : UInt8 × List Program.Control}
    (ho : option ∈ options) : ControlsUse P option.2 :=
  fun inner hb => h inner (.option hchoose ho hb)

/-- A control mentions what it takes in. -/
theorem Control.mentioned_of_resolve {control : Control} : ∀ {l out l' body},
    Yields (control.resolve around model) l out l' → out ∈ body →
      Program.ControlsUse P body → l.tables.Mentioned P Q l'.tables := by
  induction control using Control.induction with
  | hnumber c =>
    intro l out l' body h hmem huse
    rw [resolve] at h
    obtain ⟨range, position, style, source, need, -, -, -, -, hsource, rfl⟩ :=
      NumberControl.yields_resolve_iff.1 h
    rw [← l.tables_allocated numberScratch]
    exact Source.mentioned_of_resolve hsource (huse body .self _ hmem source List.mem_cons_self)
  | htext c =>
    intro l out l' body h hmem huse
    rw [resolve] at h
    obtain ⟨position, size, font, source, need, l₁, -, -, -, -, -, hsource, -, rfl, rfl⟩ :=
      TextControl.yields_resolve_iff.1 h
    rw [Ledger.tables_allocated]
    exact Source.mentioned_of_resolve hsource (huse body .self _ hmem source List.mem_cons_self)
  | hprogress c =>
    intro l out l' body h hmem huse
    rw [resolve] at h
    obtain ⟨position, size, border, source, need, -, -, -, -, -, hsource, rfl⟩ :=
      ProgressControl.yields_resolve_iff.1 h
    rw [← l.tables_allocated numberScratch]
    exact Source.mentioned_of_resolve hsource (huse body .self _ hmem source List.mem_cons_self)
  | himage c =>
    intro l out l' body h _ _
    rw [resolve] at h
    rw [(yields_lift_iff.1 h).2]
    exact .refl _
  | himageSet c =>
    intro l out l' body h hmem huse
    rw [resolve] at h
    obtain ⟨position, size, place, source, need, -, -, -, -, hsource, rfl⟩ :=
      ImageSetControl.yields_resolve_iff.1 h
    rw [← l.tables_allocated numberScratch]
    exact Source.mentioned_of_resolve hsource (huse body .self _ hmem source List.mem_cons_self)
  | hchoose on options ih =>
    intro l out l' body h hmem huse
    obtain ⟨source, need, l₁, resolved, hon, -, -, hoptions, rfl⟩ := yields_resolve_choose_iff.1 h
    refine (Source.mentioned_of_resolve hon
      (huse body .self _ hmem source List.mem_cons_self)).trans ?_
    rw [← l₁.tables_allocated choiceScratch]
    refine hoptions.mentioned fun option ho out ho' l l' hstep => ?_
    -- the controls of an option are a branch of the list that the choice stands in
    exact hstep.2.2.1.mentioned fun control hc record hr l l' hcontrol =>
      ih option ho control hc hcontrol hr (huse.option hmem ho')

theorem Control.mentioned_of_resolveList {controls : List Control} {body : List Program.Control}
    (h : Yields (resolveList around model controls) l body l')
    (huse : Program.ControlsUse P body) : l.tables.Mentioned P Q l'.tables :=
  (yields_resolveList_iff.1 h).2.mentioned fun _ _ _ hmem _ _ hcontrol =>
    mentioned_of_resolve hcontrol hmem huse

/-! ### Models -/

theorem Source.mentioned_of_resolveOptional {source : Option Source} {out : Option Program.Source}
    (h : Yields (resolveOptional around model need source) l out l')
    (hP : ∀ taken ∈ out, Program.SourceUses P taken) : l.tables.Mentioned P Q l'.tables := by
  have h := yields_resolveOptional_iff.1 h
  cases source with
  | none =>
    rw [h.2]
    exact .refl _
  | some source =>
    obtain ⟨resolved, need', hsource, rfl⟩ := h
    exact mentioned_of_resolve hsource (hP resolved rfl)

theorem ModelField.mentioned_of_resolve {field : ModelField} {name : String} {id : UInt8}
    {out : Program.Field} {known : Model}
    (h : Yields (field.resolve around model name id) l (out, known) l')
    (hP : ∀ taken ∈ out.sources, Program.SourceUses P taken) :
    l.tables.Mentioned P Q l'.tables := by
  have hinitial : ∀ taken ∈ out.initial, Program.SourceUses P taken := fun taken ht =>
    hP taken (by simp [Program.Field.sources, Option.mem_def.1 ht])
  have hupper : ∀ taken ∈ out.max, Program.SourceUses P taken := fun taken ht =>
    hP taken (by simp [Program.Field.sources, Option.mem_def.1 ht])
  have hlower : ∀ taken ∈ out.min, Program.SourceUses P taken := fun taken ht =>
    hP taken (by simp [Program.Field.sources, Option.mem_def.1 ht])
  cases field with
  | integer value max min overflow =>
    obtain ⟨initial, upper, lower, l₁, l₂, -, hvalue, hmax, hmin, rfl⟩ :=
      yields_resolve_integer_iff.1 h
    exact (Source.mentioned_of_resolveOptional hvalue hinitial).trans
      ((Source.mentioned_of_resolveOptional hmax hupper).trans
        (Source.mentioned_of_resolveOptional hmin hlower))
  | enumeration values value overflow =>
    obtain ⟨initial, upper, lower, l₁, l₂, -, -, hvalue, hmax, hmin, rfl⟩ :=
      yields_resolve_enumeration_iff.1 h
    exact (Source.mentioned_of_resolveOptional hvalue hinitial).trans
      ((Source.mentioned_of_resolveFor hmax (hupper upper rfl)).trans
        (Source.mentioned_of_resolveFor hmin (hlower lower rfl)))

theorem mentioned_of_resolveFields {declared : List (String × ModelField)} {id : Nat}
    {out : List Program.Field} {known : Model}
    (h : Yields (resolveFields around model id declared) l (out, known) l')
    (hP : ∀ field ∈ out, ∀ taken ∈ field.sources, Program.SourceUses P taken) :
    l.tables.Mentioned P Q l'.tables := by
  induction declared generalizing model id l out with
  | nil =>
    rw [(yields_pure_iff.1 h).2]
    exact .refl _
  | cons first others ih =>
    obtain ⟨name, field⟩ := first
    obtain ⟨out', model', l₁, rest, hfield, hothers, rfl⟩ := yields_resolveFields_cons_iff.1 h
    obtain ⟨hfirst, hrest⟩ := List.forall_mem_cons.1 hP
    exact (ModelField.mentioned_of_resolve hfield hfirst).trans (ih hothers hrest)

/-! ### Screens -/

namespace Screen

theorem mentioned_of_resolveModel {declared : Option (Members ModelField)}
    {out : Option (List Program.Field)} {known : Model}
    (h : Yields (Screen.resolveModel around declared) l (out, known) l')
    (hP : ∀ fields, out = some fields → ∀ field ∈ fields, ∀ taken ∈ field.sources,
      Program.SourceUses P taken) : l.tables.Mentioned P Q l'.tables := by
  have h := Screen.yields_resolveModel_iff.1 h
  cases declared with
  | none =>
    obtain ⟨-, -, rfl⟩ := h
    exact .refl _
  | some declared =>
    obtain ⟨resolved, hresolved, rfl⟩ := h
    exact mentioned_of_resolveFields (Timepiece.yields_resolveModel_iff.1 hresolved).2.1
      (hP resolved rfl)

theorem mentioned_of_resolveHandlers {handlers : Option Handlers}
    {out : Option (List Program.Handler)}
    (h : Yields (resolveHandlers around model handlers) l out l')
    (huse : ∀ handlers, out = some handlers → ∀ handler ∈ handlers,
      Program.InstructionsUse P Q handler.body) : l.tables.Mentioned P Q l'.tables := by
  have h := yields_resolveHandlers_iff.1 h
  cases handlers with
  | none =>
    obtain ⟨-, rfl⟩ := h
    exact .refl _
  | some handlers =>
    obtain ⟨resolved, hresolved, -, rfl⟩ := h
    exact Handlers.mentioned_of_resolveInto (Handlers.yields_resolve_iff.1 hresolved).1
      (huse resolved rfl)

theorem mentioned_of_resolve {screen : Screen} {out : Program.Screen}
    (h : Yields (screen.resolve around) l out l')
    (hP : ∀ source, out.HasSource source → ∀ index, source.origin = .property index →
      P index.toNat)
    (hQ : ∀ body, out.HasInstructions body → ∀ index, .callFunction index ∈ body →
      Q index.toNat) : l.tables.Mentioned P Q l'.tables := by
  obtain ⟨declared, model, l₁, controls, l₂, handlers, watchface, settings, hmodel, hcontrols, -,
    hhandlers, -, -, rfl⟩ := yields_resolve_iff.1 h
  refine (mentioned_of_resolveModel hmodel ?_).trans
    ((Control.mentioned_of_resolveList hcontrols ?_).trans
      (mentioned_of_resolveHandlers hhandlers ?_))
  · intro fields hfields field hfield taken htaken source hw
    exact hP source (.field hfields hfield htaken hw)
  · intro body hbody control hcontrol taken htaken source hw
    exact hP source (.control hbody hcontrol htaken hw)
  · intro listed hlisted handler hhandler body hbody instruction hinstruction
    have hhas : Program.Screen.HasInstructions
        ⟨declared, controls, handlers, watchface, UInt16.ofNat l'.scratch.size, settings⟩ body :=
      ⟨listed, hlisted, handler, hhandler, hbody⟩
    constructor
    · intro taken htaken source hw
      exact hP source (.instruction hhas hinstruction htaken hw)
    · intro index hindex
      exact hQ body hhas index (hindex ▸ hinstruction)

end Screen

/-! ### Documents -/

namespace Document.Compiled

variable {catalog : Option (List String)} {document : Document} {bundle : Bundle}
  {program : Program}

theorem mentioned (h : document.Compiled catalog bundle program) :
    Tables.empty.Mentioned
      (fun place => ∃ screen ∈ program.screens, ∃ source, screen.HasSource source ∧
        ∃ index, source.origin = .property index ∧ index.toNat = place)
      (fun place => ∃ screen ∈ program.screens, ∃ body, screen.HasInstructions body ∧
        ∃ index, .callFunction index ∈ body ∧ index.toNat = place) bundle.tables := by
  obtain ⟨ledger, hyields, htables⟩ := h.yields
  rw [← htables]
  refine (Screen.yields_resolveAll_iff.1 hyields).mentioned fun _ _ screen hscreen _ _ h => ?_
  exact Screen.mentioned_of_resolve h
    (fun source hsource index hindex => ⟨screen, hscreen, source, hsource, index, hindex, rfl⟩)
    fun body hbody index hindex => ⟨screen, hscreen, body, hbody, index, hindex, rfl⟩

/-- **Every property of a bundle is named by its program.** -/
theorem property_used (h : document.Compiled catalog bundle program) {place : Nat}
    (hplace : place < bundle.properties.length) :
    ∃ screen ∈ program.screens, ∃ source, screen.HasSource source ∧
      ∃ index, source.origin = .property index ∧ index.toNat = place :=
  h.mentioned.properties place (Nat.zero_le _) hplace

/-- **Every function of a bundle is called by its program.** -/
theorem function_used (h : document.Compiled catalog bundle program) {place : Nat}
    (hplace : place < bundle.functions.length) :
    ∃ screen ∈ program.screens, ∃ body, screen.HasInstructions body ∧
      ∃ index, .callFunction index ∈ body ∧ index.toNat = place :=
  h.mentioned.functions place (Nat.zero_le _) hplace

end Document.Compiled

end Timepiece
