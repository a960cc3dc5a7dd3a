import Mathlib
import Timepiece.Proofs.Resolution.Handlers
import Timepiece.Proofs.Resolution.Yields

/-!
# The rules of compilation

For every construct of a document there is one rule that says when it compiles, to
what, and what that did to the tables.  Later results go by these rules and never
look into a computation again.

## Main definitions

* `Action.OptionStep`, `Control.OptionStep` — what is done for one option of a choice.
* `Handlers.HandlerOf` — what is done for one event.

## Main results

* `Action.induction`, `Control.induction` — what choices have if their options have it,
  all actions and controls have.
* `Source.yields_resolve_plain_iff`, `Source.yields_resolve_indexed_iff` — sources.
* `Action.yields_resolve_choose_iff`, `Control.yields_resolve_choose_iff` — choices.
* `NumberControl.yields_resolve_iff` and those of the other controls.
* `yields_resolveFields_cons_iff` — models.
* `Handlers.threaded_of_resolveInto`, `Handlers.nodup_keys` — handlers are compiled one after the
  other, and are for different events.
* `Screen.yields_resolve_iff` — screens.
-/

namespace Timepiece

open Compiling

/-! ### Induction -/

/-- To show something of all actions, choices may be taken to have it of all actions
in their options. -/
theorem Action.induction {P : Action → Prop} (hcall : ∀ c, P (call c))
    (hchoose : ∀ on options, (∀ option ∈ options, ∀ action ∈ option.2, P action) →
      P (choose on options)) : ∀ action, P action
  | call c => hcall c
  | choose on options => hchoose on options fun option _ action _ =>
    Action.induction hcall hchoose action
termination_by action => sizeOf action
decreasing_by
  -- an action is smaller than its option, and that is smaller than the choice
  have hoption : sizeOf option < sizeOf options := List.sizeOf_lt_of_mem ‹_›
  have haction : sizeOf action < sizeOf option.2 := List.sizeOf_lt_of_mem ‹_›
  obtain ⟨name, actions⟩ := option
  simp only [Prod.mk.sizeOf_spec, choose.sizeOf_spec] at *
  omega

/-- To show something of all controls, choices may be taken to have it of all controls
in their options. -/
theorem Control.induction {P : Control → Prop} (hnumber : ∀ c, P (number c))
    (htext : ∀ c, P (text c)) (hprogress : ∀ c, P (progress c)) (himage : ∀ c, P (image c))
    (himageSet : ∀ c, P (imageSet c))
    (hchoose : ∀ on options, (∀ option ∈ options, ∀ control ∈ option.2, P control) →
      P (choose on options)) : ∀ control, P control
  | number c => hnumber c
  | text c => htext c
  | progress c => hprogress c
  | image c => himage c
  | imageSet c => himageSet c
  | choose on options => hchoose on options fun option _ control _ =>
    Control.induction hnumber htext hprogress himage himageSet hchoose control
termination_by control => sizeOf control
decreasing_by
  -- a control is smaller than its option, and that is smaller than the choice
  have hoption : sizeOf option < sizeOf options := List.sizeOf_lt_of_mem ‹_›
  have hcontrol : sizeOf control < sizeOf option.2 := List.sizeOf_lt_of_mem ‹_›
  obtain ⟨name, controls⟩ := option
  simp only [Prod.mk.sizeOf_spec, choose.sizeOf_spec] at *
  omega

variable {around : Surroundings} {model : Model} {l l' : Ledger}

/-! ### Sources -/

namespace Source

variable {need need' : Need}

theorem textBytes_eq_ok_iff {literal : Literal} {bytes : Bytes} :
    textBytes literal = .ok bytes ↔
      bytes = literal.symbol.toUTF8.toList ∧ bytes.length ≤ maxCount := by
  unfold textBytes
  by_cases h : literal.symbol.toUTF8.toList.length ≤ maxCount
  · rw [if_pos h, Except.ok.injEq]
    constructor
    · rintro rfl
      exact ⟨rfl, h⟩
    · rintro ⟨rfl, -⟩
      rfl
  · rw [if_neg h]
    constructor
    · intro hok
      nomatch hok
    · rintro ⟨rfl, hlength⟩
      exact absurd hlength h

theorem numberBytes_eq_ok_iff {meaning : Option Meaning} {literal : Literal} {bytes : Bytes} :
    numberBytes meaning literal = .ok bytes ↔
      ∃ n, literalNumber meaning literal = .ok n ∧ Text.inSigned32 n = true ∧
        bytes = signedBytes (Int32.ofInt n) := by
  unfold numberBytes
  cases literalNumber meaning literal with
  | error refusal => simp
  | ok n =>
    by_cases h : Text.inSigned32 n = true
    · simp only [h, if_true, Except.ok.injEq, exists_eq_left', true_and]
      exact eq_comm
    · simp [h]

/-- What is written is a text or a number. -/
theorem resolveFixed_eq_ok_iff {literal : Literal} {out : Program.Origin} :
    resolveFixed need literal = .ok (out, need') ↔
      ∃ bytes, out = .fixed bytes ∧
        (need.kind = .text ∧ textBytes literal = .ok bytes ∧
            need' = { need with range := ⟨UInt8.ofNat bytes.length⟩ } ∨
          need.kind = .number ∧ numberBytes need.meaning literal = .ok bytes ∧ need' = need) := by
  unfold resolveFixed
  -- an ordinal is never written out
  cases need.kind with
  | text =>
    cases textBytes literal with
    | error refusal => simp
    | ok bytes => simp [eq_comm]
  | number =>
    cases numberBytes need.meaning literal with
    | error refusal => simp
    | ok bytes => simp [eq_comm]
  | ordinal => simp

/-- A name of the watch is a number. -/
theorem resolveKey_eq_ok_iff {source name : String} {table : List (String × UInt8)}
    {unknown : Refusal} {key : UInt8} :
    resolveKey need source name table unknown = .ok key ↔
      need.kind = .number ∧ Symbols.key? table name = some key := by
  unfold resolveKey
  by_cases hkind : need.kind = .number
  · rw [if_pos hkind]
    cases Symbols.key? table name with
    | none => simp
    | some found => simp [hkind]
  · rw [if_neg hkind]
    simp [hkind]

theorem yields_resolveOrigin_fixed_iff {literal : Literal} {out : Program.Origin} :
    Yields (resolveOrigin around model need (.fixed literal)) l (out, need') l' ↔
      resolveFixed need literal = .ok (out, need') ∧ l' = l := by
  simp [resolveOrigin]

theorem yields_resolveOrigin_internal_iff {name : String} {out : Program.Origin} :
    Yields (resolveOrigin around model need (.internal name)) l (out, need') l' ↔
      ∃ key, need.kind = .number ∧ Symbols.key? Symbols.internal name = some key ∧
        out = .internal key ∧ need' = need ∧ l' = l := by
  simp [resolveOrigin, resolveKey_eq_ok_iff]
  grind

theorem yields_resolveOrigin_sensor_iff {name : String} {out : Program.Origin} :
    Yields (resolveOrigin around model need (.sensor name)) l (out, need') l' ↔
      ∃ key, need.kind = .number ∧ Symbols.key? Symbols.sensor name = some key ∧
        out = .sensor key ∧ need' = need ∧ l' = l := by
  simp [resolveOrigin, resolveKey_eq_ok_iff]
  grind

theorem yields_resolveOrigin_extension_iff {extension name : String} {out : Program.Origin} :
    Yields (resolveOrigin around model need (.extension extension name)) l (out, need') l' ↔
      ∃ index, Yields (property around ⟨extension, name, need.kind, need.range⟩) l index l' ∧
        out = .property index ∧ need' = need := by
  simp [resolveOrigin]

theorem yields_resolveOrigin_model_iff {name : String} {out : Program.Origin} :
    Yields (resolveOrigin around model need (.model name)) l (out, need') l' ↔
      ∃ entry, model.find? name = some entry ∧ out = .field entry.id ∧
        need' = { need with meaning := some entry.meaning } ∧ l' = l := by
  cases hfind : model.find? name with
  | none => simp [resolveOrigin, hfind]
  | some entry => simp [resolveOrigin, hfind, and_assoc]

theorem converterKeys_eq_ok_iff {names : List String} {keys : List UInt8} :
    converterKeys names = .ok keys ↔
      List.Forall₂ (fun name key => Symbols.key? Symbols.converter name = some key) names keys := by
  induction names generalizing keys with
  | nil => simp [converterKeys, eq_comm]
  | cons name others ih =>
    unfold converterKeys
    cases hkey : Symbols.key? Symbols.converter name with
    | none => simp [List.forall₂_cons_left_iff, hkey]
    | some key =>
      simp [List.forall₂_cons_left_iff, hkey, map_eq_ok_iff, ih]
      grind

theorem yields_resolveConverters_iff {converters : Option (List String)}
    {keys : Option (List UInt8)} :
    Yields (resolveConverters converters) l keys l' ↔
      (match converters with
        | none => keys = none
        | some names => names.length ≤ maxCount ∧
            ∃ found, converterKeys names = .ok found ∧ keys = some found) ∧ l' = l := by
  cases converters with
  | none => simp [resolveConverters]
  | some names =>
    simp [resolveConverters]
    grind

theorem yields_resolve_plain_iff {origin : Origin} {converters : Option (List String)}
    {out : Program.Source} :
    Yields ((plain origin converters).resolve around model need) l (out, need') l' ↔
      ∃ o l₁ keys, Yields (resolveOrigin around model need origin) l (o, need') l₁ ∧
        Yields (resolveConverters converters) l₁ keys l' ∧ out = .plain o keys := by
  simp [resolve]

theorem yields_resolve_indexed_iff {origin : Origin} {index : Source}
    {converters : Option (List String)} {out : Program.Source} :
    Yields ((indexed origin index converters).resolve around model need) l (out, need') l' ↔
      ∃ o l₁ i needed l₂ keys, Yields (resolveOrigin around model need origin) l (o, need') l₁ ∧
        Yields (index.resolve around model .anyNumber) l₁ (i, needed) l₂ ∧
        Yields (resolveConverters converters) l₂ keys l' ∧ out = .indexed o i keys := by
  simp [resolve]

theorem yields_resolveFor_iff {source : Source} {out : Program.Source} :
    Yields (source.resolveFor around model need) l out l' ↔
      ∃ need', Yields (source.resolve around model need) l (out, need') l' := by
  simp [resolveFor]

end Source

/-! ### Actions -/

namespace ModelChange

variable {entry : FieldEntry} {out : Program.Instruction}

theorem yields_resolve_set_iff {value : Source} :
    Yields ((set value).resolve around model entry) l out l' ↔
      ∃ source, Yields (value.resolveFor around model (resolve.need entry)) l source l' ∧
        out = .setField entry.id source := by
  simp [resolve]

theorem yields_resolve_add_iff {value : Source} :
    Yields ((add value).resolve around model entry) l out l' ↔
      ∃ source, Yields (value.resolveFor around model (resolve.need entry)) l source l' ∧
        out = .addToField entry.id source := by
  simp [resolve]

theorem yields_resolve_subtract_iff {value : Source} :
    Yields ((subtract value).resolve around model entry) l out l' ↔
      ∃ source, Yields (value.resolveFor around model (resolve.need entry)) l source l' ∧
        out = .subtractFromField entry.id source := by
  simp [resolve]

end ModelChange

namespace Call

variable {out : Program.Instruction}

theorem lift_screen {id : String} {number : UInt16} :
    around.screen id = .ok number ↔
      ∃ place, around.screens.idxOf? id = some place ∧ number = UInt16.ofNat place := by
  unfold Surroundings.screen
  cases around.screens.idxOf? id with
  | none => simp
  | some place => simp [eq_comm]

theorem yields_resolve_showScreen_iff {screen : String} :
    Yields ((showScreen screen).resolve around model) l out l' ↔
      ∃ place, around.screens.idxOf? screen = some place ∧
        out = .showScreen (UInt16.ofNat place) ∧ l' = l := by
  simp [resolve, lift_screen]
  grind

theorem yields_resolve_extensionFunction_iff {extension name parameter : String} :
    Yields ((extensionFunction extension name parameter).resolve around model) l out l' ↔
      ∃ index, Yields (function ⟨extension, name, parameter⟩) l index l' ∧
        out = .callFunction index := by
  simp [resolve]

theorem yields_resolve_model_iff {field : String} {change : ModelChange} :
    Yields ((Call.model field change).resolve around model) l out l' ↔
      ∃ entry, model.find? field = some entry ∧
        Yields (change.resolve around model entry) l out l' := by
  cases hfind : model.find? field with
  | none => simp [resolve, hfind]
  | some entry => simp [resolve, hfind]

end Call

namespace Action

/-- The step from an option of a choice to that of the program. -/
def OptionStep (around : Surroundings) (model : Model) (meaning : Option Meaning)
    (option : String × List Action) (before : Ledger) (out : UInt8 × List Program.Instruction)
    (after : Ledger) : Prop :=
  optionOrdinal meaning option.1 = .ok out.1 ∧ option.2.length ≤ maxCount ∧
    Threaded (fun action l => Yields (action.resolve around model) l) option.2 before out.2 after ∧
    (Program.instructionsBytes out.2).length ≤ maxLength

theorem yields_resolveAll_iff {actions : List Action} {body : List Program.Instruction} :
    Yields (resolveAll around model actions) l body l' ↔
      Threaded (fun action l => Yields (action.resolve around model) l) actions l body l' := by
  induction actions generalizing l body with
  | nil => simp [resolveAll, Threaded.nil_iff]
  | cons first others ih =>
    simp [resolveAll, Threaded.cons_iff, ih]
    grind

theorem yields_resolveOptions_iff {meaning : Option Meaning}
    {options : List (String × List Action)} {out : List (UInt8 × List Program.Instruction)} :
    Yields (resolveOptions around model meaning options) l out l' ↔
      Threaded (OptionStep around model meaning) options l out l' := by
  induction options generalizing l out with
  | nil => simp [resolveOptions, Threaded.nil_iff]
  | cons first others ih =>
    obtain ⟨option, actions⟩ := first
    simp [resolveOptions, Threaded.cons_iff, ih, OptionStep, yields_resolveAll_iff]
    grind

theorem yields_resolve_choose_iff {on : Source} {options : List (String × List Action)}
    {out : Program.Instruction} :
    Yields ((choose on options).resolve around model) l out l' ↔
      ∃ source need l₁ resolved, Yields (on.resolve around model .anyNumber) l (source, need) l₁ ∧
        options.length ≤ maxCount ∧
        Threaded (OptionStep around model need.meaning) options l₁ resolved l' ∧
        out = .choose source resolved := by
  simp [resolve, yields_resolveOptions_iff]

theorem yields_resolveList_iff {actions : List Action} {body : List Program.Instruction} :
    Yields (resolveList around model actions) l body l' ↔
      actions.length ≤ maxCount ∧
        Threaded (fun action l => Yields (action.resolve around model) l) actions l body l' := by
  simp [resolveList, yields_resolveAll_iff]

end Action

/-! ### Handlers -/

namespace Handlers

theorem eventKey_eq_ok_iff {name : String} {key : UInt8} :
    eventKey name = .ok key ↔ Symbols.key? Symbols.event name = some key := by
  unfold eventKey
  cases Symbols.key? Symbols.event name with
  | none => simp
  | some found => simp

theorem yields_resolveInto_cons_iff {done handlers : List Program.Handler} {event : String}
    {actions : List Action} {rest : List (String × List Action)} :
    Yields (resolveInto around model done ((event, actions) :: rest)) l handlers l' ↔
      ∃ key body l₁, Symbols.key? Symbols.event event = some key ∧
        (∀ handler ∈ done, handler.event ≠ key) ∧
        Yields (Action.resolveList around model actions) l body l₁ ∧
        Yields (resolveInto around model (insert ⟨key, body⟩ done) rest) l₁ handlers l' := by
  simp [resolveInto, eventKey_eq_ok_iff]

theorem insert_perm (handler : Program.Handler) (handlers : List Program.Handler) :
    (insert handler handlers).Perm (handler :: handlers) := by
  induction handlers with
  | nil => exact .refl _
  | cons first others ih =>
    unfold insert
    split
    · exact .refl _
    · exact (ih.cons first).trans (.swap handler first others)

/-- A handler of an event that is not yet handled keeps the order. -/
theorem pairwise_insert {handler : Program.Handler} {handlers : List Program.Handler}
    (hnew : ∀ other ∈ handlers, other.event ≠ handler.event)
    (h : handlers.Pairwise fun a b => a.event < b.event) :
    (insert handler handlers).Pairwise fun a b => a.event < b.event := by
  induction handlers with
  | nil => exact List.pairwise_singleton _ _
  | cons first others ih =>
    obtain ⟨hfirst, hothers⟩ := List.pairwise_cons.1 h
    obtain ⟨hne, hnew⟩ := List.forall_mem_cons.1 hnew
    unfold insert
    split
    · next hlt =>
      refine List.pairwise_cons.2 ⟨?_, h⟩
      intro other hother
      rcases List.mem_cons.1 hother with rfl | hother
      · exact hlt
      · exact UInt8.lt_trans hlt (hfirst other hother)
    · next hle =>
      refine List.pairwise_cons.2 ⟨?_, ih hnew hothers⟩
      intro other hother
      rcases List.mem_cons.1 ((insert_perm handler others).mem_iff.1 hother) with rfl | hother
      · rw [UInt8.lt_iff_toNat_lt] at hle ⊢
        have hne' : first.event.toNat ≠ other.event.toNat := fun h => hne (UInt8.toNat.inj h)
        omega
      · exact hfirst other hother

/-- A handler is that of an event with a list of actions. -/
def HandlerOf (around : Surroundings) (model : Model) (event : String × List Action) (l : Ledger)
    (handler : Program.Handler) (l' : Ledger) : Prop :=
  Symbols.key? Symbols.event event.1 = some handler.event ∧
    Yields (Action.resolveList around model event.2) l handler.body l'

/-- **Handlers are compiled one after the other**, and then put in their places. -/
theorem threaded_of_resolveInto {events : List (String × List Action)}
    {done out : List Program.Handler} (h : Yields (resolveInto around model done events) l out l') :
    ∃ compiled, Threaded (HandlerOf around model) events l compiled l' ∧
      out.Perm (done ++ compiled) ∧
      (done.Pairwise (fun a b => a.event < b.event) →
        out.Pairwise fun a b => a.event < b.event) := by
  induction events generalizing done l with
  | nil =>
    obtain ⟨rfl, rfl⟩ := yields_pure_iff.1 h
    exact ⟨[], .nil, by rw [List.append_nil], id⟩
  | cons first others ih =>
    obtain ⟨event, actions⟩ := first
    obtain ⟨key, body, mid, hkey, hnew, hbody, hothers⟩ := yields_resolveInto_cons_iff.1 h
    obtain ⟨compiled, hcompiled, hperm, hpairwise⟩ := ih hothers
    have hfirst : HandlerOf around model (event, actions) l ⟨key, body⟩ mid := ⟨hkey, hbody⟩
    refine ⟨⟨key, body⟩ :: compiled, .cons hfirst hcompiled, hperm.trans ?_,
      fun hsorted => hpairwise (pairwise_insert hnew hsorted)⟩
    exact ((insert_perm _ done).append_right compiled).trans List.perm_middle.symm

theorem keys_of_threaded {events : List (String × List Action)} {compiled : List Program.Handler}
    (h : Threaded (HandlerOf around model) events l compiled l') :
    events.map (fun event => Symbols.key? Symbols.event event.1) =
      compiled.map fun handler => some handler.event := by
  induction h with
  | nil => rfl
  | cons hfirst _ ih => rw [List.map_cons, List.map_cons, hfirst.1, ih]

theorem yields_resolve_iff {handlers : Handlers} {out : List Program.Handler} :
    Yields (handlers.resolve around model) l out l' ↔
      Yields (resolveInto around model [] handlers.byEvent) l out l' ∧ placesFit 0 out = true := by
  simp [resolve_byEvent]

/-- Handlers that compile are for events with different bytes. -/
theorem nodup_keys {handlers : Handlers} {out : List Program.Handler}
    (h : Yields (handlers.resolve around model) l out l') :
    ((handlers.byEvent.map Prod.fst).map (Symbols.key? Symbols.event)).Nodup := by
  obtain ⟨compiled, hcompiled, hperm, hsorted⟩ := threaded_of_resolveInto (yields_resolve_iff.1 h).1
  have hdistinct : (out.map fun handler => some handler.event).Nodup := by
    rw [List.nodup_iff_pairwise_ne, List.pairwise_map]
    refine (hsorted .nil).imp fun hlt heq => ?_
    rw [Option.some.inj heq] at hlt
    exact UInt8.lt_irrefl _ hlt
  rw [List.map_map]
  exact keys_of_threaded hcompiled ▸ (hperm.map _).nodup_iff.1 hdistinct

end Handlers

/-! ### Controls -/

theorem resource_eq_ok_iff {id : String} {index : UInt8} :
    around.resource id = .ok index ↔
      ∃ place, around.resources.idxOf? id = some place ∧ index = UInt8.ofNat place := by
  unfold Surroundings.resource
  cases around.resources.idxOf? id with
  | none => simp
  | some place => simp [eq_comm]

section Visible

variable {out : Program.Control}

theorem NumberControl.yields_resolve_iff {control : NumberControl} :
    Yields (control.resolve around model) l out l' ↔
      ∃ range position style source need, NumberRange.ofText? control.numberRange = some range ∧
        control.position.resolve = .ok position ∧ control.style.resolve around range = .ok style ∧
        l.scratch.size + numberScratch ≤ maxLength ∧
        Yields (control.source.resolve around model (.number range.dataRange))
          (l.allocated numberScratch) (source, need) l' ∧
        out = .number range.key position style (UInt16.ofNat l.scratch.size) source := by
  cases hrange : NumberRange.ofText? control.numberRange with
  | none => simp [resolve, hrange]
  | some range =>
    simp [resolve, hrange, Source.yields_resolveFor_iff]

theorem ProgressControl.yields_resolve_iff {control : ProgressControl} :
    Yields (control.resolve around model) l out l' ↔
      ∃ position size border source need, Text.inSigned32 control.maxValue = true ∧
        control.position.resolve = .ok position ∧ control.size.resolve = .ok size ∧
        byteWithin "border" 255 control.style.border = .ok border ∧
        l.scratch.size + numberScratch ≤ maxLength ∧
        Yields (control.source.resolve around model
            (.number (Range.number (byteCount control.maxValue.toNat) 0)))
          (l.allocated numberScratch) (source, need) l' ∧
        out = .progress (Int32.ofInt control.maxValue) position size control.style.orientation
          border (UInt16.ofNat l.scratch.size) source := by
  simp [resolve, Source.yields_resolveFor_iff]

theorem TextControl.yields_resolve_iff {control : TextControl} :
    Yields (control.resolve around model) l out l' ↔
      ∃ position size font source need l₁, control.position.resolve = .ok position ∧
        control.size.resolve = .ok size ∧ Symbols.key? Symbols.font control.font = some font ∧
        0 ≤ control.length.getD defaultTextLength ∧
        control.length.getD defaultTextLength ≤ maxTextLength ∧
        Yields (control.source.resolve around model
            (.text (control.length.getD defaultTextLength).toNat)) l (source, need) l₁ ∧
        l₁.scratch.size + (need.range.raw.toNat + 1) ≤ maxLength ∧
        out = .text position size font control.style (UInt16.ofNat l₁.scratch.size) source ∧
        l' = l₁.allocated (need.range.raw.toNat + 1) := by
  cases hfont : Symbols.key? Symbols.font control.font with
  | none => simp [resolve, hfont]
  | some font =>
    simp [resolve, hfont]
    grind

theorem ImageControl.resolve_eq_ok_iff {control : ImageControl} :
    control.resolve around = .ok out ↔
      ∃ position size place, control.position.resolve = .ok position ∧
        control.size.resolve = .ok size ∧
        around.resources.idxOf? control.resource = some place ∧
        out = .image position size (UInt8.ofNat place) := by
  simp [resolve, bind_eq_ok_iff, resource_eq_ok_iff, pure, Except.pure, eq_comm (b := out)]

theorem ImageSetControl.yields_resolve_iff {control : ImageSetControl} :
    Yields (control.resolve around model) l out l' ↔
      ∃ position size place source need, control.position.resolve = .ok position ∧
        control.size.resolve = .ok size ∧
        around.resources.idxOf? control.resource = some place ∧
        l.scratch.size + numberScratch ≤ maxLength ∧
        Yields (control.source.resolve around model (.number imageSetRange))
          (l.allocated numberScratch) (source, need) l' ∧
        out = .imageSet position size (UInt8.ofNat place) (UInt16.ofNat l.scratch.size) source := by
  simp [resolve, Source.yields_resolveFor_iff, resource_eq_ok_iff]

end Visible

namespace Control

/-- The step from an option of a choice to that of the program. -/
def OptionStep (around : Surroundings) (model : Model) (meaning : Option Meaning)
    (option : String × List Control) (before : Ledger) (out : UInt8 × List Program.Control)
    (after : Ledger) : Prop :=
  optionOrdinal meaning option.1 = .ok out.1 ∧ option.2.length ≤ maxCount ∧
    Threaded (fun control l => Yields (control.resolve around model) l) option.2 before out.2
      after ∧
    (Program.controlsBytes out.2).length ≤ maxLength

theorem yields_resolveAll_iff {controls : List Control} {body : List Program.Control} :
    Yields (resolveAll around model controls) l body l' ↔
      Threaded (fun control l => Yields (control.resolve around model) l) controls l body l' := by
  induction controls generalizing l body with
  | nil => simp [resolveAll, Threaded.nil_iff]
  | cons first others ih =>
    simp [resolveAll, Threaded.cons_iff, ih]
    grind

theorem yields_resolveOptions_iff {meaning : Option Meaning}
    {options : List (String × List Control)} {out : List (UInt8 × List Program.Control)} :
    Yields (resolveOptions around model meaning options) l out l' ↔
      Threaded (OptionStep around model meaning) options l out l' := by
  induction options generalizing l out with
  | nil => simp [resolveOptions, Threaded.nil_iff]
  | cons first others ih =>
    obtain ⟨option, controls⟩ := first
    simp [resolveOptions, Threaded.cons_iff, ih, OptionStep, yields_resolveAll_iff]
    grind

theorem yields_resolve_choose_iff {on : Source} {options : List (String × List Control)}
    {out : Program.Control} :
    Yields ((choose on options).resolve around model) l out l' ↔
      ∃ source need l₁ resolved, Yields (on.resolve around model .anyNumber) l (source, need) l₁ ∧
        l₁.scratch.size + choiceScratch ≤ maxLength ∧ options.length ≤ maxCount ∧
        Threaded (OptionStep around model need.meaning) options (l₁.allocated choiceScratch)
          resolved l' ∧
        out = .choose source (UInt16.ofNat l₁.scratch.size) resolved := by
  simp [resolve, yields_resolveOptions_iff]

theorem yields_resolveList_iff {controls : List Control} {body : List Program.Control} :
    Yields (resolveList around model controls) l body l' ↔
      controls.length ≤ maxCount ∧
        Threaded (fun control l => Yields (control.resolve around model) l) controls l body l' := by
  simp [resolveList, yields_resolveAll_iff]

end Control

/-! ### Models -/

section Models

variable {need : Need}

theorem Source.yields_resolveOptional_iff {source : Option Source} {out : Option Program.Source} :
    Yields (resolveOptional around model need source) l out l' ↔
      match source with
      | none => out = none ∧ l' = l
      | some source => ∃ resolved need', Yields (source.resolve around model need) l
          (resolved, need') l' ∧ out = some resolved := by
  cases source with
  | none => simp [resolveOptional]
  | some source =>
    simp [resolveOptional, yields_resolveFor_iff]

theorem ModelField.yields_resolve_integer_iff {name : String} {id : UInt8}
    {value max min : Option Source} {overflow : Bool} {out : Program.Field} {known : Model} :
    Yields ((integer value max min overflow).resolve around model name id) l (out, known) l' ↔
      ∃ initial upper lower l₁ l₂, known = model.put name ⟨id, .integer⟩ ∧
        Yields (Source.resolveOptional around known .anyNumber value) l initial l₁ ∧
        Yields (Source.resolveOptional around known .anyNumber max) l₁ upper l₂ ∧
        Yields (Source.resolveOptional around known .anyNumber min) l₂ lower l' ∧
        out = ⟨initial, upper, lower, overflow⟩ := by
  simp [resolve]
  grind

theorem ModelField.yields_resolve_enumeration_iff {name : String} {id : UInt8}
    {values : List String} {value : Option Source} {overflow : Bool} {out : Program.Field}
    {known : Model} :
    Yields ((enumeration values value overflow).resolve around model name id) l (out, known) l' ↔
      ∃ initial upper lower l₁ l₂, values ≠ [] ∧
        known = model.put name ⟨id, .ofSymbols values⟩ ∧
        Yields (Source.resolveOptional around known
          { Need.anyNumber with meaning := some (.ofSymbols values) } value) l initial l₁ ∧
        Yields ((Source.constant (values.length - 1)).resolveFor around known .anyNumber) l₁
          upper l₂ ∧
        Yields ((Source.constant 0).resolveFor around known .anyNumber) l₂ lower l' ∧
        out = ⟨initial, some upper, some lower, overflow⟩ := by
  simp [resolve]
  grind

theorem yields_resolveFields_cons_iff {id : Nat} {name : String} {field : ModelField}
    {rest : List (String × ModelField)} {out : List Program.Field} {known : Model} :
    Yields (resolveFields around model id ((name, field) :: rest)) l (out, known) l' ↔
      ∃ first model' l₁ others, Yields (field.resolve around model name (UInt8.ofNat id)) l
          (first, model') l₁ ∧
        Yields (resolveFields around model' (id + 1) rest) l₁ (others, known) l' ∧
        out = first :: others := by
  simp [resolveFields]

theorem yields_resolveModel_iff {fields : Members ModelField} {out : List Program.Field}
    {known : Model} :
    Yields (resolveModel around fields) l (out, known) l' ↔
      fields.length ≤ maxCount ∧ Yields (resolveFields around [] 0 fields) l (out, known) l' ∧
        (Program.modelBytes out).length ≤ maxLength := by
  simp [resolveModel]

end Models

/-! ### Screens -/

theorem settingValues_eq_ok_iff {settings : List (String × Bool)} {values : List Bool} :
    settingValues settings = .ok values ↔
      (∀ setting ∈ settings, setting.1 = "invertible") ∧ values = settings.map Prod.snd := by
  induction settings generalizing values with
  | nil => simp [settingValues, eq_comm]
  | cons first others ih =>
    obtain ⟨name, value⟩ := first
    by_cases hname : name = "invertible"
    · simp [settingValues, hname, map_eq_ok_iff, ih]
      grind
    · simp [settingValues, hname]

theorem resolveDefaultActions_eq_ok_iff {name : Option String} {watchface : Bool} :
    resolveDefaultActions name = .ok watchface ↔
      name = none ∧ watchface = false ∨ name = some "watchface" ∧ watchface = true := by
  cases name with
  | none => simp [resolveDefaultActions, eq_comm]
  | some name =>
    by_cases hname : name = "watchface"
    · simp [resolveDefaultActions, hname, eq_comm]
    · simp [resolveDefaultActions, hname]

namespace Screen

theorem yields_resolveModel_iff {fields : Option (Members ModelField)}
    {out : Option (List Program.Field)} {known : Model} :
    Yields (Screen.resolveModel around fields) l (out, known) l' ↔
      match fields with
      | none => out = none ∧ known = [] ∧ l' = l
      | some fields => ∃ resolved, Yields (Timepiece.resolveModel around fields) l
          (resolved, known) l' ∧ out = some resolved := by
  cases fields with
  | none => simp [Screen.resolveModel, and_assoc]
  | some fields => simp [Screen.resolveModel]

theorem yields_resolveHandlers_iff {handlers : Option Handlers}
    {out : Option (List Program.Handler)} :
    Yields (resolveHandlers around model handlers) l out l' ↔
      match handlers with
      | none => out = none ∧ l' = l
      | some handlers => ∃ resolved, Yields (handlers.resolve around model) l resolved l' ∧
          (Program.handlersBytes resolved).length ≤ maxLength ∧ out = some resolved := by
  cases handlers with
  | none => simp [resolveHandlers]
  | some handlers =>
    simp [resolveHandlers]

theorem yields_resolveSettings_iff {settings : Option (Members Bool)} {out : Option (List Bool)} :
    Yields (Screen.resolveSettings settings) l out l' ↔
      (match settings with
        | none => out = none
        | some settings => settings.length ≤ maxCount ∧
            (∀ setting ∈ settings, setting.1 = "invertible") ∧
            (Program.settingsBytes (settings.map Prod.snd)).length ≤ maxLength ∧
            out = some (settings.map Prod.snd)) ∧ l' = l := by
  cases settings with
  | none => simp [Screen.resolveSettings]
  | some settings =>
    simp [Screen.resolveSettings, Timepiece.resolveSettings, settingValues_eq_ok_iff]
    grind

theorem yields_resolve_iff {screen : Screen} {out : Program.Screen} :
    Yields (screen.resolve around) l out l' ↔
      ∃ fields model l₁ controls l₂ handlers watchface settings,
        Yields (Screen.resolveModel around screen.model) { l with scratch := .empty }
          (fields, model) l₁ ∧
        Yields (Control.resolveList around model screen.controls) l₁ controls l₂ ∧
        (Program.controlsBytes controls).length ≤ maxLength ∧
        Yields (resolveHandlers around model screen.actions) l₂ handlers l' ∧
        resolveDefaultActions screen.defaultActions = .ok watchface ∧
        Yields (Screen.resolveSettings screen.settings) l' settings l' ∧
        out = ⟨fields, controls, handlers, watchface, UInt16.ofNat l'.scratch.size, settings⟩ := by
  simp [resolve]
  grind [yields_resolveSettings_iff]

theorem yields_resolveAll_iff {screens : List Screen} {out : List Program.Screen} :
    Yields (resolveAll around screens) l out l' ↔
      Threaded (fun screen l => Yields (screen.resolve around) l) screens l out l' := by
  induction screens generalizing l out with
  | nil => simp [resolveAll, Threaded.nil_iff]
  | cons first others ih =>
    simp [resolveAll, Threaded.cons_iff, ih]
    grind

end Screen

end Timepiece
