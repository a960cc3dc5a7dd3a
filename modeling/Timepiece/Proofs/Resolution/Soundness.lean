import Mathlib
import Timepiece.Proofs.Resolution.Meaning
import Timepiece.Proofs.Resolution.References

/-!
# Compiling keeps the meaning

Every construct of a program stands for the construct of the document that it was
compiled from, whatever the tables become later.

## Main definitions

* `Model.Knows` — what is known of the fields of a screen while it is compiled.
* `Surroundings.Countable` — screens and resources can be told apart by their numbers.

## Main results

* `Source.stands_of_resolve`, `Action.stands_of_resolve`, `Control.stands_of_resolve` —
  sources, actions and controls.
* `Screen.stands_of_resolve` — **screens**.
-/

namespace Timepiece

open Compiling

/-- What is known of fields is true of the fields that are declared. -/
def Model.Knows (fields : Members ModelField) (model : Model) : Prop :=
  ∀ name entry, model.find? name = some entry →
    ∃ field, fields[entry.id.toNat]? = some (name, field) ∧ entry.meaning = field.meaning

/-- The positions of all screens and resources can be written. -/
structure Surroundings.Countable (around : Surroundings) : Prop where
  screens : around.screens.length ≤ 65536
  resources : around.resources.length ≤ 256

variable {around : Surroundings} {model : Model} {fields : Members ModelField}
  {need need' : Need} {l l' : Ledger} {final : Tables}

/-- A number that fits two bytes is written as it is. -/
theorem toNat_offset {size : Nat} (h : size ≤ maxLength) :
    (UInt16.ofNat size).toNat = size := by
  unfold maxLength at h
  rw [UInt16.toNat_ofNat', Nat.mod_eq_of_lt]
  omega

/-! ### Sources -/

theorem Source.stands_of_resolveFixed {literal : Literal} {out : Program.Origin}
    (h : resolveFixed need literal = .ok (out, need')) :
    (Origin.fixed literal).Stands final fields need out need' := by
  obtain ⟨bytes, rfl, ⟨hkind, htext, rfl⟩ | ⟨hkind, hnumber, rfl⟩⟩ := resolveFixed_eq_ok_iff.1 h
  · obtain ⟨hbytes, hlength⟩ := textBytes_eq_ok_iff.1 htext
    exact .text hkind hbytes hlength
  · obtain ⟨n, hliteral, hsigned, rfl⟩ := numberBytes_eq_ok_iff.1 hnumber
    exact .number hkind hliteral hsigned

/-- The place of a property, as it is written, keeps an entry that serves. -/
theorem Compiling.serves_of_property {reference : Property} {index : UInt8}
    (h : Yields (property around reference) l index l') (hfinal : l'.tables.Grows final) :
    ∃ entry, final.properties[index.toNat]? = some entry ∧ entry.Serves reference := by
  obtain ⟨-, place, table, henter, hplace, rfl, rfl⟩ := yields_property_iff.1 h
  obtain ⟨entry, hentry, hserves⟩ := Tables.serves_of_enterProperty (t := l.tables) henter
  obtain ⟨entry', hentry', hserves'⟩ := hfinal.properties hentry
  have hindex : (UInt8.ofNat place).toNat = place := by
    rw [UInt8.toNat_ofNat', Nat.mod_eq_of_lt (hplace.trans (by decide))]
  rw [hindex]
  exact ⟨entry', hentry', hserves'.trans hserves⟩

/-- The place of a function, as it is written, keeps the function. -/
theorem Compiling.getElem?_of_function {reference : Function} {index : UInt16}
    (h : Yields (function reference) l index l') (hfinal : l'.tables.Grows final) :
    final.functions[index.toNat]? = some reference := by
  obtain ⟨hplace, rfl, rfl⟩ := yields_function_iff.1 h
  have hget := Tables.getElem?_enterFunction l.functions reference
  rw [toNat_offset hplace]
  exact hfinal.function hget

theorem Source.stands_of_resolveOrigin {origin : Origin} {out : Program.Origin}
    (hknows : model.Knows fields)
    (h : Yields (resolveOrigin around model need origin) l (out, need') l')
    (hfinal : l'.tables.Grows final) : origin.Stands final fields need out need' := by
  cases origin with
  | fixed literal => exact stands_of_resolveFixed (yields_resolveOrigin_fixed_iff.1 h).1
  | internal name =>
    obtain ⟨key, hkind, hkey, rfl, rfl, -⟩ := yields_resolveOrigin_internal_iff.1 h
    exact .internal hkind hkey
  | sensor name =>
    obtain ⟨key, hkind, hkey, rfl, rfl, -⟩ := yields_resolveOrigin_sensor_iff.1 h
    exact .sensor hkind hkey
  | extension owner name =>
    obtain ⟨index, hproperty, rfl, rfl⟩ := yields_resolveOrigin_extension_iff.1 h
    obtain ⟨entry, hentry, hserves⟩ := serves_of_property hproperty hfinal
    exact .extension hentry hserves
  | model name =>
    obtain ⟨entry, hentry, rfl, rfl, -⟩ := yields_resolveOrigin_model_iff.1 h
    obtain ⟨field, hfield, hmeaning⟩ := hknows _ _ hentry
    rw [hmeaning]
    exact .model hfield

theorem Source.convertersStand_of_resolve {converters : Option (List String)}
    {keys : Option (List UInt8)} (h : Yields (resolveConverters converters) l keys l') :
    ConvertersStand converters keys ∧ l' = l := by
  obtain ⟨hkeys, rfl⟩ := yields_resolveConverters_iff.1 h
  refine ⟨?_, rfl⟩
  cases converters with
  | none =>
    obtain rfl := hkeys
    exact .none
  | some names =>
    obtain ⟨-, found, hfound, rfl⟩ := hkeys
    exact .some (converterKeys_eq_ok_iff.1 hfound)

theorem Source.stands_of_resolve (hknows : model.Knows fields) {source : Source}
    {out : Program.Source} (h : Yields (source.resolve around model need) l (out, need') l')
    (hfinal : l'.tables.Grows final) : source.Stands final fields need out need' := by
  induction source generalizing need need' l out l' with
  | plain origin converters =>
    obtain ⟨o, l₁, keys, horigin, hconverters, rfl⟩ := yields_resolve_plain_iff.1 h
    obtain ⟨hkeys, rfl⟩ := convertersStand_of_resolve hconverters
    exact .plain (stands_of_resolveOrigin hknows horigin hfinal) hkeys
  | indexed origin index converters ih =>
    obtain ⟨o, l₁, i, needed, l₂, keys, horigin, hindex, hconverters, rfl⟩ :=
      yields_resolve_indexed_iff.1 h
    obtain ⟨hkeys, rfl⟩ := convertersStand_of_resolve hconverters
    -- the tables after the origin have only grown by the index
    have hgrown := (enters_of_resolve hindex).grows.trans hfinal
    exact .indexed (stands_of_resolveOrigin hknows horigin hgrown) (ih hindex hfinal) hkeys

theorem Source.standsFor_of_resolveFor (hknows : model.Knows fields) {source : Source}
    {out : Program.Source} (h : Yields (source.resolveFor around model need) l out l')
    (hfinal : l'.tables.Grows final) : source.StandsFor final fields need out := by
  obtain ⟨need', h⟩ := yields_resolveFor_iff.1 h
  exact ⟨need', stands_of_resolve hknows h hfinal⟩

/-! ### Actions -/

theorem ModelChange.stands_of_resolve (hknows : model.Knows fields) {change : ModelChange}
    {entry : FieldEntry} {field : ModelField} (hmeaning : entry.meaning = field.meaning)
    {out : Program.Instruction} (h : Yields (change.resolve around model entry) l out l')
    (hfinal : l'.tables.Grows final) : change.Stands final fields entry.id field out := by
  have hneed : resolve.need entry = { Need.anyNumber with meaning := some field.meaning } := by
    rw [resolve.need, hmeaning]
  cases change with
  | set value =>
    obtain ⟨source, hvalue, rfl⟩ := yields_resolve_set_iff.1 h
    exact .set (hneed ▸ Source.standsFor_of_resolveFor hknows hvalue hfinal)
  | add value =>
    obtain ⟨source, hvalue, rfl⟩ := yields_resolve_add_iff.1 h
    exact .add (hneed ▸ Source.standsFor_of_resolveFor hknows hvalue hfinal)
  | subtract value =>
    obtain ⟨source, hvalue, rfl⟩ := yields_resolve_subtract_iff.1 h
    exact .subtract (hneed ▸ Source.standsFor_of_resolveFor hknows hvalue hfinal)
  | increment =>
    obtain ⟨rfl, -⟩ := yields_pure_iff.1 h
    exact .increment
  | decrement =>
    obtain ⟨rfl, -⟩ := yields_pure_iff.1 h
    exact .decrement

theorem Call.stands_of_resolve (hcountable : around.Countable) (hknows : model.Knows fields)
    {call : Call} {out : Program.Instruction} (h : Yields (call.resolve around model) l out l')
    (hfinal : l'.tables.Grows final) : call.Stands around final fields out := by
  cases call with
  | showScreen screen =>
    obtain ⟨place, hplace, rfl, -⟩ := yields_resolve_showScreen_iff.1 h
    have hget := getElem?_of_idxOf? hplace
    obtain ⟨hlt, -⟩ := List.getElem?_eq_some_iff.1 hget
    refine .showScreen ?_
    rw [UInt16.toNat_ofNat', Nat.mod_eq_of_lt (hlt.trans_le hcountable.screens)]
    exact hget
  | extensionFunction owner name parameter =>
    obtain ⟨index, hfunction, rfl⟩ := yields_resolve_extensionFunction_iff.1 h
    exact .callFunction (getElem?_of_function hfunction hfinal)
  | model name change =>
    obtain ⟨entry, hentry, hchange⟩ := yields_resolve_model_iff.1 h
    obtain ⟨field, hfield, hmeaning⟩ := hknows _ _ hentry
    exact .model hfield (ModelChange.stands_of_resolve hknows hmeaning hchange hfinal)
  | toggleBacklight =>
    obtain ⟨rfl, -⟩ := yields_pure_iff.1 h
    exact .toggleBacklight
  | toggleColors =>
    obtain ⟨rfl, -⟩ := yields_pure_iff.1 h
    exact .toggleColors
  | stopwatch call =>
    obtain ⟨rfl, -⟩ := yields_pure_iff.1 h
    exact .stopwatch
  | close =>
    obtain ⟨rfl, -⟩ := yields_pure_iff.1 h
    exact .close
  | settings =>
    obtain ⟨rfl, -⟩ := yields_pure_iff.1 h
    exact .settings

/-- The tables grow from one option of a choice to the next. -/
theorem Action.OptionStep.grows {meaning : Option Meaning} {option : String × List Action}
    {out : UInt8 × List Program.Instruction} (h : OptionStep around model meaning option l out l') :
    l.tables.Grows l'.tables := by
  obtain ⟨-, -, hbody, -⟩ := h
  exact (hbody.enters fun _ _ _ _ _ haction => enters_of_resolve haction).grows

theorem Action.stands_of_resolve (hcountable : around.Countable) (hknows : model.Knows fields)
    {action : Action} : ∀ {l out l'}, Yields (action.resolve around model) l out l' →
      l'.tables.Grows final → action.Stands around final fields out := by
  induction action using Action.induction with
  | hcall c =>
    intro l out l' h hfinal
    rw [resolve] at h
    exact .call (Call.stands_of_resolve hcountable hknows h hfinal)
  | hchoose on options ih =>
    intro l out l' h hfinal
    obtain ⟨source, need, l₁, resolved, hon, -, hoptions, rfl⟩ := yields_resolve_choose_iff.1 h
    -- whatever option is compiled, the tables at the end have grown from those after it
    obtain ⟨hmid, hordinals⟩ := hoptions.forall₂ (P := fun l => l.tables.Grows final) hfinal
      (fun _ _ _ _ _ hstep hlater => hstep.grows.trans hlater) fun _ _ _ _ _ hstep _ => hstep.1
    obtain ⟨-, hbodies⟩ := hoptions.forall₂ (P := fun l => l.tables.Grows final)
      (Q := fun option out => List.Forall₂ (Action.Stands around final fields) option.2 out.2)
      hfinal (fun _ _ _ _ _ hstep hlater => hstep.grows.trans hlater)
      fun option ho l out l' hstep hlater => by
        obtain ⟨-, -, hbody, -⟩ := hstep
        exact (hbody.forall₂ (P := fun l => l.tables.Grows final) hlater
          (fun _ _ _ _ _ h hlater => (enters_of_resolve h).grows.trans hlater)
          fun action ha _ _ _ h => ih option ho action ha h).2
    exact .choose (Source.stands_of_resolve hknows hon hmid) hordinals hbodies

theorem Action.stand_of_resolveList (hcountable : around.Countable) (hknows : model.Knows fields)
    {actions : List Action} {body : List Program.Instruction}
    (h : Yields (resolveList around model actions) l body l') (hfinal : l'.tables.Grows final) :
    List.Forall₂ (Action.Stands around final fields) actions body :=
  ((yields_resolveList_iff.1 h).2.forall₂ (P := fun l => l.tables.Grows final) hfinal
    (fun _ _ _ _ _ h hlater => (enters_of_resolve h).grows.trans hlater)
    fun _ _ _ _ _ h => stands_of_resolve hcountable hknows h).2

/-! ### Handlers -/

namespace Handlers

theorem stand_of_resolveInto (hcountable : around.Countable) (hknows : model.Knows fields)
    {events : List (String × List Action)} {done out : List Program.Handler}
    (h : Yields (resolveInto around model done events) l out l') (hfinal : l'.tables.Grows final)
    (hsorted : done.Pairwise fun a b => a.event < b.event) :
    ∃ listed, List.Forall₂ (HandlerStands around final fields) events listed ∧
      out.Perm (done ++ listed) ∧ out.Pairwise fun a b => a.event < b.event := by
  obtain ⟨compiled, hcompiled, hperm, hpairwise⟩ := threaded_of_resolveInto h
  refine ⟨compiled, ?_, hperm, hpairwise hsorted⟩
  exact (hcompiled.forall₂ (P := fun l => l.tables.Grows final) hfinal
    (fun _ _ _ _ _ h hlater => (Action.enters_of_resolveList h.2).grows.trans hlater)
    fun _ _ _ _ _ h hlater =>
      ⟨h.1, Action.stand_of_resolveList hcountable hknows h.2 hlater⟩).2

theorem stand_of_resolve (hcountable : around.Countable) (hknows : model.Knows fields)
    {handlers : Handlers} {out : List Program.Handler}
    (h : Yields (handlers.resolve around model) l out l') (hfinal : l'.tables.Grows final) :
    handlers.Stand around final fields out :=
  stand_of_resolveInto hcountable hknows (yields_resolve_iff.1 h).1 hfinal .nil

end Handlers

/-! ### Scratch memory -/

theorem Source.scratch_of_resolveOrigin {origin : Origin} {out : Program.Origin}
    (h : Yields (resolveOrigin around model need origin) l (out, need') l') :
    l'.scratch = l.scratch := by
  cases origin with
  | fixed literal => rw [(yields_resolveOrigin_fixed_iff.1 h).2]
  | internal name =>
    obtain ⟨-, -, -, -, -, rfl⟩ := yields_resolveOrigin_internal_iff.1 h
    rfl
  | sensor name =>
    obtain ⟨-, -, -, -, -, rfl⟩ := yields_resolveOrigin_sensor_iff.1 h
    rfl
  | extension owner name =>
    obtain ⟨index, hproperty, -⟩ := yields_resolveOrigin_extension_iff.1 h
    obtain ⟨-, -, -, -, -, -, rfl⟩ := yields_property_iff.1 hproperty
    rfl
  | model name =>
    obtain ⟨-, -, -, -, rfl⟩ := yields_resolveOrigin_model_iff.1 h
    rfl

/-- Sources take no scratch memory. -/
theorem Source.scratch_of_resolve {source : Source} {out : Program.Source}
    (h : Yields (source.resolve around model need) l (out, need') l') : l'.scratch = l.scratch := by
  induction source generalizing need need' l out l' with
  | plain origin converters =>
    obtain ⟨o, l₁, keys, horigin, hconverters, -⟩ := yields_resolve_plain_iff.1 h
    obtain ⟨-, rfl⟩ := convertersStand_of_resolve hconverters
    exact scratch_of_resolveOrigin horigin
  | indexed origin index converters ih =>
    obtain ⟨o, l₁, i, needed, l₂, keys, horigin, hindex, hconverters, -⟩ :=
      yields_resolve_indexed_iff.1 h
    obtain ⟨-, rfl⟩ := convertersStand_of_resolve hconverters
    exact (ih hindex).trans (scratch_of_resolveOrigin horigin)

theorem Source.scratch_of_resolveFor {source : Source} {out : Program.Source}
    (h : Yields (source.resolveFor around model need) l out l') : l'.scratch = l.scratch := by
  obtain ⟨need', h⟩ := yields_resolveFor_iff.1 h
  exact scratch_of_resolve h

theorem Call.scratch_of_resolve {call : Call} {out : Program.Instruction}
    (h : Yields (call.resolve around model) l out l') : l'.scratch = l.scratch := by
  cases call with
  | showScreen screen =>
    obtain ⟨-, -, -, rfl⟩ := yields_resolve_showScreen_iff.1 h
    rfl
  | extensionFunction owner name parameter =>
    obtain ⟨index, hfunction, -⟩ := yields_resolve_extensionFunction_iff.1 h
    obtain ⟨-, -, rfl⟩ := yields_function_iff.1 hfunction
    rfl
  | model name change =>
    obtain ⟨entry, -, hchange⟩ := yields_resolve_model_iff.1 h
    cases change with
    | set value =>
      obtain ⟨source, hvalue, -⟩ := ModelChange.yields_resolve_set_iff.1 hchange
      exact Source.scratch_of_resolveFor hvalue
    | add value =>
      obtain ⟨source, hvalue, -⟩ := ModelChange.yields_resolve_add_iff.1 hchange
      exact Source.scratch_of_resolveFor hvalue
    | subtract value =>
      obtain ⟨source, hvalue, -⟩ := ModelChange.yields_resolve_subtract_iff.1 hchange
      exact Source.scratch_of_resolveFor hvalue
    | increment | decrement => rw [(yields_pure_iff.1 hchange).2]
  | toggleBacklight | toggleColors | stopwatch | close | settings => rw [(yields_pure_iff.1 h).2]

/-- Where no step takes scratch memory, all steps together take none. -/
theorem Threaded.scratch {α β : Type} {step : α → Ledger → β → Ledger → Prop} {items : List α}
    {results : List β} (h : Threaded step items l results l')
    (hstep : ∀ a ∈ items, ∀ {l b l'}, step a l b l' → l'.scratch = l.scratch) :
    l'.scratch = l.scratch := by
  induction h with
  | nil => rfl
  | cons hfirst _ ih =>
    obtain ⟨ha, hitems⟩ := List.forall_mem_cons.1 hstep
    exact (ih hitems).trans (ha hfirst)

/-- Actions take no scratch memory. -/
theorem Action.scratch_of_resolve {action : Action} : ∀ {l out l'},
    Yields (action.resolve around model) l out l' → l'.scratch = l.scratch := by
  induction action using Action.induction with
  | hcall c =>
    intro l out l' h
    rw [resolve] at h
    exact Call.scratch_of_resolve h
  | hchoose on options ih =>
    intro l out l' h
    obtain ⟨source, need, l₁, resolved, hon, -, hoptions, -⟩ := yields_resolve_choose_iff.1 h
    rw [← Source.scratch_of_resolve hon]
    exact hoptions.scratch fun option ho _ _ _ hstep =>
      hstep.2.2.1.scratch fun action ha _ _ _ haction => ih option ho action ha haction

theorem Handlers.scratch_of_resolveInto {events : List (String × List Action)}
    {done out : List Program.Handler} (h : Yields (resolveInto around model done events) l out l') :
    l'.scratch = l.scratch := by
  obtain ⟨compiled, hcompiled, -⟩ := threaded_of_resolveInto h
  exact hcompiled.scratch fun _ _ _ _ _ hevent => (Action.yields_resolveList_iff.1 hevent.2).2.scratch
    fun _ _ _ _ _ haction => Action.scratch_of_resolve haction

theorem Source.scratch_of_resolveOptional {source : Option Source} {out : Option Program.Source}
    (h : Yields (resolveOptional around model need source) l out l') : l'.scratch = l.scratch := by
  have h := yields_resolveOptional_iff.1 h
  cases source with
  | none => rw [h.2]
  | some source =>
    obtain ⟨resolved, need', hsource, -⟩ := h
    exact scratch_of_resolve hsource

theorem ModelField.scratch_of_resolve {field : ModelField} {name : String} {id : UInt8}
    {out : Program.Field} {known : Model}
    (h : Yields (field.resolve around model name id) l (out, known) l') :
    l'.scratch = l.scratch := by
  cases field with
  | integer value max min overflow =>
    obtain ⟨initial, upper, lower, l₁, l₂, -, hvalue, hmax, hmin, -⟩ :=
      yields_resolve_integer_iff.1 h
    rw [Source.scratch_of_resolveOptional hmin, Source.scratch_of_resolveOptional hmax,
      Source.scratch_of_resolveOptional hvalue]
  | enumeration values value overflow =>
    obtain ⟨initial, upper, lower, l₁, l₂, -, -, hvalue, hmax, hmin, -⟩ :=
      yields_resolve_enumeration_iff.1 h
    rw [Source.scratch_of_resolveFor hmin, Source.scratch_of_resolveFor hmax,
      Source.scratch_of_resolveOptional hvalue]

/-- Models take no scratch memory. -/
theorem scratch_of_resolveFields {declared : List (String × ModelField)} {id : Nat}
    {out : List Program.Field} {known : Model}
    (h : Yields (resolveFields around model id declared) l (out, known) l') :
    l'.scratch = l.scratch := by
  induction declared generalizing model id l out with
  | nil => rw [(yields_pure_iff.1 h).2]
  | cons first others ih =>
    obtain ⟨name, field⟩ := first
    obtain ⟨out', model', l₁, rest, hfield, hothers, -⟩ := yields_resolveFields_cons_iff.1 h
    rw [ih hothers, ModelField.scratch_of_resolve hfield]

/-! ### Controls -/

theorem lengthStands_of_byteWithin {name : String} {greatest : Nat} {value : Option Int}
    {out : UInt8} (hgreatest : greatest < 256) (h : byteWithin name greatest value = .ok out) :
    LengthStands value out ∧ out.toNat ≤ greatest := by
  unfold byteWithin at h
  dsimp only at h
  split at h
  · next hrange =>
    obtain rfl := Except.ok.inj h
    unfold LengthStands
    rw [UInt8.toNat_ofNat', Nat.mod_eq_of_lt (by omega)]
    omega
  · exact nomatch h

theorem Position.stands_of_resolve {position : Position} {out : Program.Position}
    (h : position.resolve = .ok out) : position.Stands out := by
  unfold resolve at h
  obtain ⟨x, hx, h⟩ := bind_eq_ok_iff.1 h
  obtain ⟨y, hy, h⟩ := bind_eq_ok_iff.1 h
  obtain rfl := Except.ok.inj h
  exact ⟨(lengthStands_of_byteWithin (by decide) hx).1,
    (lengthStands_of_byteWithin (by decide) hy).1⟩

theorem Size.stands_of_resolve {size : Size} {out : Program.Size}
    (h : size.resolve = .ok out) : size.Stands out := by
  unfold resolve at h
  obtain ⟨width, hwidth, h⟩ := bind_eq_ok_iff.1 h
  obtain ⟨height, hheight, h⟩ := bind_eq_ok_iff.1 h
  obtain rfl := Except.ok.inj h
  exact ⟨(lengthStands_of_byteWithin (by decide) hwidth).1,
    (lengthStands_of_byteWithin (by decide) hheight).1⟩

/-- The position of a resource, as it is written, is the position of the resource. -/
theorem Surroundings.Countable.resource (hcountable : around.Countable) {id : String}
    {place : Nat} (h : around.resources.idxOf? id = some place) :
    around.resources[(UInt8.ofNat place).toNat]? = some id := by
  have hget := getElem?_of_idxOf? h
  obtain ⟨hlt, -⟩ := List.getElem?_eq_some_iff.1 hget
  rw [UInt8.toNat_ofNat', Nat.mod_eq_of_lt (hlt.trans_le hcountable.resources)]
  exact hget

theorem NumberStyle.stands_of_resolve (hcountable : around.Countable) {range : NumberRange}
    {style : NumberStyle} {out : Program.NumberStyle} (h : style.resolve around range = .ok out) :
    style.Stands around range out := by
  cases style with
  | generated space padded thickness width height =>
    unfold resolve at h
    obtain ⟨space', hspace, h⟩ := bind_eq_ok_iff.1 h
    obtain ⟨thickness', hthickness, h⟩ := bind_eq_ok_iff.1 h
    obtain ⟨width', hwidth, h⟩ := bind_eq_ok_iff.1 h
    obtain ⟨height', hheight, h⟩ := bind_eq_ok_iff.1 h
    obtain rfl := Except.ok.inj h
    obtain ⟨hspace, hle⟩ := lengthStands_of_byteWithin (by decide) hspace
    exact .generated hspace (Nat.lt_succ_of_le hle)
      (lengthStands_of_byteWithin (by decide) hthickness).1
      (lengthStands_of_byteWithin (by decide) hwidth).1
      (lengthStands_of_byteWithin (by decide) hheight).1
  | numbersFont space padded resource =>
    unfold resolve at h
    obtain ⟨space', hspace, h⟩ := bind_eq_ok_iff.1 h
    obtain ⟨index, hindex, h⟩ := bind_eq_ok_iff.1 h
    obtain rfl := Except.ok.inj h
    obtain ⟨hspace, hle⟩ := lengthStands_of_byteWithin (by decide) hspace
    obtain ⟨place, hplace, rfl⟩ := resource_eq_ok_iff.1 hindex
    exact .font hspace (Nat.lt_succ_of_le hle) (hcountable.resource hplace)

/-- A number of 32 bits keeps its value. -/
theorem toInt_ofInt_of_inSigned32 {n : Int} (h : Text.inSigned32 n = true) :
    (Int32.ofInt n).toInt = n := by
  rw [Text.inSigned32, Bool.and_eq_true, decide_eq_true_iff, decide_eq_true_iff] at h
  exact Int32.toInt_ofInt_of_le h.1 h.2

/-- The tables grow from one option of a choice to the next. -/
theorem Control.OptionStep.grows {meaning : Option Meaning} {option : String × List Control}
    {out : UInt8 × List Program.Control} (h : OptionStep around model meaning option l out l') :
    l.tables.Grows l'.tables := by
  obtain ⟨-, -, hbody, -⟩ := h
  exact (hbody.enters fun _ _ _ _ _ hcontrol => enters_of_resolve hcontrol).grows

/-- The place of a control in the scratch memory, as it is written, is where that memory
ended. -/
theorem Control.Stands.of_offset {control : Control} {size length : Nat} {out : Program.Control}
    (hfits : size + length ≤ maxLength)
    (h : control.Stands around final fields (UInt16.ofNat size).toNat out
      ((UInt16.ofNat size).toNat + length)) :
    control.Stands around final fields size out (size + length) := by
  rwa [toNat_offset (Nat.le_of_add_right_le hfits)] at h

theorem Control.stands_of_resolve (hcountable : around.Countable) (hknows : model.Knows fields)
    {control : Control} : ∀ {l out l'}, Yields (control.resolve around model) l out l' →
      l'.tables.Grows final →
      control.Stands around final fields l.scratch.size out l'.scratch.size := by
  induction control using Control.induction with
  | hnumber c =>
    intro l out l' h hfinal
    rw [resolve] at h
    obtain ⟨range, position, style, source, need', hrange, hposition, hstyle, hfits, hsource,
      rfl⟩ := NumberControl.yields_resolve_iff.1 h
    rw [Source.scratch_of_resolve hsource]
    refine .of_offset hfits (.number hrange (Position.stands_of_resolve hposition)
      (NumberStyle.stands_of_resolve hcountable hstyle) ?_)
    exact ⟨need', Source.stands_of_resolve hknows hsource hfinal⟩
  | htext c =>
    intro l out l' h hfinal
    rw [resolve] at h
    obtain ⟨position, size, font, source, need', l₁, hposition, hsize, hfont, -, -, hsource, hfits,
      rfl, rfl⟩ := TextControl.yields_resolve_iff.1 h
    -- a text takes its memory after its source, which takes none
    rw [← Source.scratch_of_resolve hsource]
    exact .of_offset hfits (.text (Position.stands_of_resolve hposition)
      (Size.stands_of_resolve hsize) hfont (Source.stands_of_resolve hknows hsource hfinal))
  | hprogress c =>
    intro l out l' h hfinal
    rw [resolve] at h
    obtain ⟨position, size, border, source, need', hsigned, hposition, hsize, hborder, hfits,
      hsource, rfl⟩ := ProgressControl.yields_resolve_iff.1 h
    rw [Source.scratch_of_resolve hsource]
    refine .of_offset hfits (.progress (toInt_ofInt_of_inSigned32 hsigned)
      (Position.stands_of_resolve hposition) (Size.stands_of_resolve hsize)
      (lengthStands_of_byteWithin (by decide) hborder).1 ?_)
    exact ⟨need', Source.stands_of_resolve hknows hsource hfinal⟩
  | himage c =>
    intro l out l' h hfinal
    rw [resolve] at h
    obtain ⟨himage, rfl⟩ := yields_lift_iff.1 h
    obtain ⟨position, size, place, hposition, hsize, hplace, rfl⟩ :=
      ImageControl.resolve_eq_ok_iff.1 himage
    exact .image (Position.stands_of_resolve hposition) (Size.stands_of_resolve hsize)
      (hcountable.resource hplace)
  | himageSet c =>
    intro l out l' h hfinal
    rw [resolve] at h
    obtain ⟨position, size, place, source, need', hposition, hsize, hplace, hfits, hsource, rfl⟩ :=
      ImageSetControl.yields_resolve_iff.1 h
    rw [Source.scratch_of_resolve hsource]
    refine .of_offset hfits (.imageSet (Position.stands_of_resolve hposition)
      (Size.stands_of_resolve hsize) (hcountable.resource hplace) ?_)
    exact ⟨need', Source.stands_of_resolve hknows hsource hfinal⟩
  | hchoose on options ih =>
    intro l out l' h hfinal
    obtain ⟨source, need', l₁, resolved, hon, hfits, -, hoptions, rfl⟩ :=
      yields_resolve_choose_iff.1 h
    obtain ⟨hmid, hordinals⟩ := hoptions.forall₂ (P := fun l => l.tables.Grows final) hfinal
      (fun _ _ _ _ _ hstep hlater => hstep.grows.trans hlater) fun _ _ _ _ _ hstep _ => hstep.1
    -- the memory is handed on from option to option, and in an option from control to control
    obtain ⟨-, hbodies⟩ := hoptions.map (P := fun l => l.tables.Grows final)
      (f := fun l => l.scratch.size) (g := fun option before out after =>
        Threaded (Control.Stands around final fields) option.2 before out.2 after)
      hfinal (fun _ _ _ _ _ hstep hlater => hstep.grows.trans hlater)
      fun option ho l out l' hstep hlater => by
        obtain ⟨-, -, hbody, -⟩ := hstep
        exact (hbody.map (P := fun l => l.tables.Grows final) (f := fun l => l.scratch.size)
          hlater (fun _ _ _ _ _ h hlater => (enters_of_resolve h).grows.trans hlater)
          fun control hc _ _ _ h => ih option ho control hc h).2
    have hoffset := toNat_offset (Nat.le_of_add_right_le hfits)
    have hstands : Stands around final fields (.choose on options)
        (UInt16.ofNat l₁.scratch.size).toNat
        (.choose source (UInt16.ofNat l₁.scratch.size) resolved) l'.scratch.size := by
      refine .choose (Source.stands_of_resolve hknows hon hmid) hordinals ?_
      rw [hoffset]
      exact hbodies
    rw [hoffset] at hstands
    rw [← Source.scratch_of_resolve hon]
    exact hstands

theorem Control.stand_of_resolveList (hcountable : around.Countable) (hknows : model.Knows fields)
    {controls : List Control} {body : List Program.Control}
    (h : Yields (resolveList around model controls) l body l') (hfinal : l'.tables.Grows final) :
    Threaded (Control.Stands around final fields) controls l.scratch.size body l'.scratch.size :=
  ((yields_resolveList_iff.1 h).2.map (P := fun l => l.tables.Grows final)
    (f := fun l => l.scratch.size) hfinal
    (fun _ _ _ _ _ h hlater => (enters_of_resolve h).grows.trans hlater)
    fun _ _ _ _ _ h => stands_of_resolve hcountable hknows h).2

/-- Where every step leaves the scratch memory countable, all steps together do. -/
theorem Threaded.scratch_le {α β : Type} {step : α → Ledger → β → Ledger → Prop} {items : List α}
    {results : List β} (h : Threaded step items l results l') (hle : l.scratch.size ≤ maxLength)
    (hstep : ∀ a ∈ items, ∀ {l b l'}, step a l b l' → l.scratch.size ≤ maxLength →
      l'.scratch.size ≤ maxLength) : l'.scratch.size ≤ maxLength := by
  induction h with
  | nil => exact hle
  | cons hfirst _ ih =>
    obtain ⟨ha, hitems⟩ := List.forall_mem_cons.1 hstep
    exact ih (ha hfirst hle) hitems

/-- The scratch memory that has been handed out can be counted. -/
theorem Control.scratch_le_of_resolve {control : Control} : ∀ {l out l'},
    Yields (control.resolve around model) l out l' → l.scratch.size ≤ maxLength →
      l'.scratch.size ≤ maxLength := by
  induction control using Control.induction with
  | hnumber c =>
    intro l out l' h _
    rw [resolve] at h
    obtain ⟨range, position, style, source, need, -, -, -, hfits, hsource, -⟩ :=
      NumberControl.yields_resolve_iff.1 h
    rw [Source.scratch_of_resolve hsource]
    exact hfits
  | htext c =>
    intro l out l' h _
    rw [resolve] at h
    obtain ⟨position, size, font, source, need, l₁, -, -, -, -, -, -, hfits, -, rfl⟩ :=
      TextControl.yields_resolve_iff.1 h
    exact hfits
  | hprogress c =>
    intro l out l' h _
    rw [resolve] at h
    obtain ⟨position, size, border, source, need, -, -, -, -, hfits, hsource, -⟩ :=
      ProgressControl.yields_resolve_iff.1 h
    rw [Source.scratch_of_resolve hsource]
    exact hfits
  | himage c =>
    intro l out l' h hle
    rw [resolve] at h
    obtain ⟨-, rfl⟩ := yields_lift_iff.1 h
    exact hle
  | himageSet c =>
    intro l out l' h _
    rw [resolve] at h
    obtain ⟨position, size, place, source, need, -, -, -, hfits, hsource, -⟩ :=
      ImageSetControl.yields_resolve_iff.1 h
    rw [Source.scratch_of_resolve hsource]
    exact hfits
  | hchoose on options ih =>
    intro l out l' h _
    obtain ⟨source, need, l₁, resolved, -, hfits, -, hoptions, -⟩ := yields_resolve_choose_iff.1 h
    refine hoptions.scratch_le hfits fun option ho _ _ _ hstep hle => ?_
    obtain ⟨-, -, hbody, -⟩ := hstep
    exact hbody.scratch_le hle fun control hc _ _ _ hcontrol => ih option ho control hc hcontrol

theorem Control.scratch_le_of_resolveList {controls : List Control} {body : List Program.Control}
    (h : Yields (resolveList around model controls) l body l') (hle : l.scratch.size ≤ maxLength) :
    l'.scratch.size ≤ maxLength :=
  (yields_resolveList_iff.1 h).2.scratch_le hle
    fun _ _ _ _ _ hcontrol => scratch_le_of_resolve hcontrol

/-! ### Models -/

theorem Model.knows_nil (fields : Members ModelField) : Model.Knows fields [] :=
  fun _ _ h => nomatch h

/-- A field at its position may be put to what is known. -/
theorem Model.Knows.put (h : model.Knows fields) {name : String} {id : UInt8} {field : ModelField}
    (hfield : fields[id.toNat]? = some (name, field)) :
    Model.Knows fields (Members.put model name ⟨id, field.meaning⟩) := by
  intro other entry hentry
  by_cases hname : other = name
  · subst hname
    rw [Members.find?_put_self] at hentry
    obtain rfl := Option.some.inj hentry
    exact ⟨field, hfield, rfl⟩
  · rw [Members.find?_put_of_ne model _ hname] at hentry
    exact h other entry hentry

theorem Source.rel_of_resolveOptional (hknows : model.Knows fields) {source : Option Source}
    {out : Option Program.Source} (h : Yields (resolveOptional around model need source) l out l')
    (hfinal : l'.tables.Grows final) : Option.Rel (StandsFor final fields need) source out := by
  have h := yields_resolveOptional_iff.1 h
  cases source with
  | none =>
    obtain ⟨rfl, -⟩ := h
    exact .none
  | some source =>
    obtain ⟨resolved, need', hsource, rfl⟩ := h
    exact .some ⟨need', stands_of_resolve hknows hsource hfinal⟩

theorem ModelField.stands_of_resolve (hknows : model.Knows fields) {field : ModelField}
    {name : String} {id : UInt8} (hfield : fields[id.toNat]? = some (name, field))
    {out : Program.Field} {known : Model}
    (h : Yields (field.resolve around model name id) l (out, known) l')
    (hfinal : l'.tables.Grows final) : field.Stands final fields out ∧ known.Knows fields := by
  have hput := hknows.put hfield
  cases field with
  | integer value max min overflow =>
    obtain ⟨initial, upper, lower, l₁, l₂, rfl, hvalue, hmax, hmin, rfl⟩ :=
      yields_resolve_integer_iff.1 h
    -- the sources are compiled one after the other, each from the tables of the one before
    have hfinal₂ := (Source.enters_of_resolveOptional hmin).grows.trans hfinal
    have hfinal₁ := (Source.enters_of_resolveOptional hmax).grows.trans hfinal₂
    exact ⟨.integer (Source.rel_of_resolveOptional hput hvalue hfinal₁)
      (Source.rel_of_resolveOptional hput hmax hfinal₂)
      (Source.rel_of_resolveOptional hput hmin hfinal), hput⟩
  | enumeration values value overflow =>
    obtain ⟨initial, upper, lower, l₁, l₂, hvalues, rfl, hvalue, hmax, hmin, rfl⟩ :=
      yields_resolve_enumeration_iff.1 h
    have hfinal₂ := (Source.enters_of_resolveFor hmin).grows.trans hfinal
    have hfinal₁ := (Source.enters_of_resolveFor hmax).grows.trans hfinal₂
    exact ⟨.enumeration hvalues (Source.rel_of_resolveOptional hput hvalue hfinal₁)
      (Source.standsFor_of_resolveFor hput hmax hfinal₂)
      (Source.standsFor_of_resolveFor hput hmin hfinal), hput⟩

theorem stands_of_resolveFields (before : Members ModelField) {declared : Members ModelField}
    (hfields : fields = before ++ declared) (hcount : fields.length ≤ maxCount)
    (hknows : model.Knows fields) {out : List Program.Field} {known : Model}
    (h : Yields (resolveFields around model before.length declared) l (out, known) l')
    (hfinal : l'.tables.Grows final) :
    List.Forall₂ (fun field out => field.2.Stands final fields out) declared out ∧
      known.Knows fields := by
  induction declared generalizing before model l out with
  | nil =>
    obtain ⟨hout, -⟩ := yields_pure_iff.1 h
    obtain ⟨rfl, rfl⟩ := Prod.mk.inj hout
    exact ⟨.nil, hknows⟩
  | cons first others ih =>
    obtain ⟨name, field⟩ := first
    obtain ⟨out', model', l₁, rest, hfield, hothers, rfl⟩ := yields_resolveFields_cons_iff.1 h
    -- a model has at most 255 fields, so a byte holds every position
    have hposition : fields[(UInt8.ofNat before.length).toNat]? = some (name, field) := by
      have hlt : before.length < 256 := by
        have hlength := congrArg List.length hfields
        rw [List.length_append, List.length_cons] at hlength
        unfold maxCount at hcount
        omega
      rw [UInt8.toNat_ofNat', Nat.mod_eq_of_lt hlt, hfields, List.getElem?_append_right le_rfl,
        Nat.sub_self, List.getElem?_cons_zero]
    have hlater := (enters_of_resolveFields hothers).grows.trans hfinal
    obtain ⟨hstands, hknown⟩ := ModelField.stands_of_resolve hknows hposition hfield hlater
    have hfields' : fields = (before ++ [(name, field)]) ++ others := by
      rw [List.append_assoc, List.singleton_append, hfields]
    rw [show before.length + 1 = (before ++ [(name, field)]).length by simp] at hothers
    obtain ⟨hrest, hall⟩ := ih (before ++ [(name, field)]) hfields' hknown hothers
    exact ⟨.cons hstands hrest, hall⟩

/-! ### Screens -/

namespace Screen

theorem stands_of_resolveModel {screen : Screen} {out : Option (List Program.Field)}
    {known : Model} (h : Yields (Screen.resolveModel around screen.model) l (out, known) l')
    (hfinal : l'.tables.Grows final) :
    Option.Rel (List.Forall₂ fun field out => field.2.Stands final screen.declared out)
      screen.model out ∧ known.Knows screen.declared ∧ l'.scratch = l.scratch := by
  have h := Screen.yields_resolveModel_iff.1 h
  unfold declared
  cases hmodel : screen.model with
  | none =>
    rw [hmodel] at h
    obtain ⟨rfl, rfl, rfl⟩ := h
    exact ⟨.none, Model.knows_nil _, rfl⟩
  | some fields =>
    rw [hmodel] at h
    obtain ⟨resolved, hresolved, rfl⟩ := h
    obtain ⟨hcount, hfields, -⟩ := Timepiece.yields_resolveModel_iff.1 hresolved
    have hstands := stands_of_resolveFields [] rfl hcount (Model.knows_nil _) hfields hfinal
    exact ⟨.some hstands.1, hstands.2, scratch_of_resolveFields hfields⟩

theorem stand_of_resolveHandlers (hcountable : around.Countable) (hknows : model.Knows fields)
    {handlers : Option Handlers} {out : Option (List Program.Handler)}
    (h : Yields (resolveHandlers around model handlers) l out l') (hfinal : l'.tables.Grows final) :
    Option.Rel (Handlers.Stand around final fields) handlers out ∧ l'.scratch = l.scratch := by
  have h := yields_resolveHandlers_iff.1 h
  cases handlers with
  | none =>
    obtain ⟨rfl, rfl⟩ := h
    exact ⟨.none, rfl⟩
  | some handlers =>
    obtain ⟨resolved, hresolved, -, rfl⟩ := h
    have hinto := (Handlers.yields_resolve_iff.1 hresolved).1
    exact ⟨.some (Handlers.stand_of_resolve hcountable hknows hresolved hfinal),
      Handlers.scratch_of_resolveInto hinto⟩

theorem settings_of_resolve {settings : Option (Members Bool)} {out : Option (List Bool)}
    (h : Yields (Screen.resolveSettings settings) l out l') :
    out = settings.map fun settings => settings.map Prod.snd := by
  obtain ⟨h, -⟩ := yields_resolveSettings_iff.1 h
  cases settings with
  | none => exact h
  | some settings =>
    obtain ⟨-, -, -, rfl⟩ := h
    rfl

/-- **A compiled screen stands for the screen it was compiled from.** -/
theorem stands_of_resolve (hcountable : around.Countable) {screen : Screen}
    {out : Program.Screen} (h : Yields (screen.resolve around) l out l')
    (hfinal : l'.tables.Grows final) : screen.Stands around final out := by
  obtain ⟨declared, model, l₁, controls, l₂, handlers, watchface, settings, hmodel, hcontrols, -,
    hhandlers, hwatchface, hsettings, rfl⟩ := yields_resolve_iff.1 h
  -- the tables after the controls have grown by the handlers, those after the model by both
  have hlater₂ := (enters_of_resolveHandlers hhandlers).grows.trans hfinal
  have hlater₁ := (Control.enters_of_resolveList hcontrols).grows.trans hlater₂
  obtain ⟨hfields, hknows, hstart⟩ := stands_of_resolveModel hmodel hlater₁
  obtain ⟨hevents, hend⟩ := stand_of_resolveHandlers hcountable hknows hhandlers hfinal
  have hstart : l₁.scratch.size = 0 := by rw [hstart]; rfl
  have hshown := Control.stand_of_resolveList hcountable hknows hcontrols hlater₂
  have hsize := Control.scratch_le_of_resolveList hcontrols (hstart ▸ Nat.zero_le _)
  have hwritten : (UInt16.ofNat l'.scratch.size).toNat = l₂.scratch.size := by
    rw [hend, toNat_offset hsize]
  rw [hstart, ← hwritten] at hshown
  refine ⟨hfields, hshown, hevents, ?_, settings_of_resolve hsettings⟩
  obtain ⟨hdefault, rfl⟩ | ⟨hdefault, rfl⟩ := resolveDefaultActions_eq_ok_iff.1 hwatchface
  · exact hdefault
  · exact hdefault

end Screen

end Timepiece
