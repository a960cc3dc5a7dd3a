import Mathlib
import Timepiece.Proofs.Json.Outcomes
import Timepiece.Proofs.Resolution.Literals

/-!
# The options of a choice

The options of a choice have different names, because they are the keys of an object.  What the
watch compares are the numbers for which they stand.  Different symbols of an enumeration stand for
different numbers, but an integer can be spelled in many ways.  So the watch can tell the options of
a choice apart if and only if no two of them spell the same integer.

## Main definitions

* `Screen.HasChoice`, `Program.Screen.HasChoice` — the choices on a screen, at any depth, among
  controls and in the handlers of events.
* `Source.SpellsApart` — no two options spell the same integer.
* `Screen.Distinguishes` — the choices of a program and the options from which they come.
* `Document.twins` — a document in which two options spell the same integer.

## Main results

* `Document.nodup_of_ofText` — **options have different names.**
* `Compiler.options_apart` — **options are told apart if they spell different integers**, and
  otherwise they are not.
* `Document.unapart_twins` — options may have different names and the same number.
-/

namespace Timepiece

/-! ### Choices -/

/-- The choices in an action: what they are made by, and their options. -/
inductive Action.HasChoice : Action → Source → List String → Prop
  | here {on : Source} {options : List (String × List Action)} :
    HasChoice (.choose on options) on (options.map Prod.fst)
  | option {outer on : Source} {options : List (String × List Action)}
    {option : String × List Action} {action : Action} {keys : List String} : option ∈ options →
    action ∈ option.2 → HasChoice action on keys → HasChoice (.choose outer options) on keys

/-- The choices in a control. -/
inductive Control.HasChoice : Control → Source → List String → Prop
  | here {on : Source} {options : List (String × List Control)} :
    HasChoice (.choose on options) on (options.map Prod.fst)
  | option {outer on : Source} {options : List (String × List Control)}
    {option : String × List Control} {control : Control} {keys : List String} : option ∈ options →
    control ∈ option.2 → HasChoice control on keys → HasChoice (.choose outer options) on keys

/-- The choices on a screen.  A choice around handlers is one in every handler. -/
inductive Screen.HasChoice (screen : Screen) (on : Source) (keys : List String) : Prop
  | control {control : Control} : control ∈ screen.controls → control.HasChoice on keys →
    HasChoice screen on keys
  | handler {handlers : Handlers} {event : String × List Action} {action : Action} :
    screen.actions = some handlers → event ∈ handlers.byEvent → action ∈ event.2 →
    action.HasChoice on keys → HasChoice screen on keys

namespace Program

/-- The choices in an instruction: what they are made by, and the ordinals of their options. -/
inductive Instruction.HasChoice : Instruction → Source → List UInt8 → Prop
  | here {on : Source} {options : List (UInt8 × List Instruction)} :
    HasChoice (.choose on options) on (options.map Prod.fst)
  | option {outer on : Source} {options : List (UInt8 × List Instruction)}
    {option : UInt8 × List Instruction} {instruction : Instruction} {ordinals : List UInt8} :
    option ∈ options → instruction ∈ option.2 → HasChoice instruction on ordinals →
    HasChoice (.choose outer options) on ordinals

/-- The choices in a control. -/
inductive Control.HasChoice : Control → Source → List UInt8 → Prop
  | here {on : Source} {scratch : UInt16} {options : List (UInt8 × List Control)} :
    HasChoice (.choose on scratch options) on (options.map Prod.fst)
  | option {outer on : Source} {scratch : UInt16} {options : List (UInt8 × List Control)}
    {option : UInt8 × List Control} {control : Control} {ordinals : List UInt8} :
    option ∈ options → control ∈ option.2 → HasChoice control on ordinals →
    HasChoice (.choose outer scratch options) on ordinals

/-- The choices on a screen. -/
inductive Screen.HasChoice (screen : Screen) (on : Source) (ordinals : List UInt8) : Prop
  | control {control : Control} : control ∈ screen.controls → control.HasChoice on ordinals →
    HasChoice screen on ordinals
  | handler {handlers : List Handler} {handler : Handler} {instruction : Instruction} :
    screen.handlers = some handlers → handler ∈ handlers → instruction ∈ handler.body →
    instruction.HasChoice on ordinals → HasChoice screen on ordinals

end Program

/-! ### Options with different names -/

/-- A call that is read is no choice, and the names of the options of a choice are distinct. -/
theorem Action.nodup_of_readAt {depth : Nat} {value : Json} {action : Action}
    (h : readAt depth value = .ok action) {on : Source} {keys : List String}
    (hchoice : action.HasChoice on keys) : keys.Nodup := by
  induction depth generalizing value action with
  | zero => exact absurd h (by simp [readAt])
  | succ depth ih =>
    unfold readAt at h
    split at h
    · cases hcall : Call.ofJson value with
      | error fault => exact absurd h (by simp [hcall, Except.map, Reading.handOn])
      | ok c =>
        rw [hcall] at h
        obtain rfl := Except.ok.inj h
        cases hchoice
    · split at h
      · have hgives := Fields.gives_of_fromJson (Reading.handOn_eq_ok_iff.1 h)
        simp only [Fields.gives_required_iff] at hgives
        obtain ⟨_, ⟨_, rfl, _, source, -, rfl⟩, _, options, hoptions, rfl⟩ := hgives
        obtain ⟨hnodup, hread⟩ := Json.asMap_eq_ok hoptions
        cases hchoice with
        | here => exact hnodup
        | option hoption haction hinner =>
          obtain ⟨_, hlist⟩ := hread _ hoption
          obtain ⟨_, hitem⟩ := oneOrMany_eq_ok hlist _ haction
          exact ih hitem hinner
      · exact absurd h (by simp)

/-- A control that has a form is no choice. -/
theorem Control.not_hasChoice_of_forms {form : String × Fields Json Control} (hform : form ∈ forms)
    {control : Control} (h : form.2.Gives control) (on : Source) (keys : List String) :
    ¬ control.HasChoice on keys := by
  refine Fields.Always.of_gives (P := fun control => ¬ control.HasChoice on keys) ?_ h
  -- every form makes controls of its own kind, whatever its fields are
  simp only [forms, List.mem_cons, List.not_mem_nil, or_false] at hform
  rcases hform with rfl | rfl | rfl | rfl | rfl <;>
    simp only [Fields.required, Fields.default, Fields.optional, Fields.Always] <;>
      intros <;> exact fun h => nomatch h

theorem Control.nodup_of_readAt {depth : Nat} {value : Json} {control : Control}
    (h : readAt depth value = .ok control) {on : Source} {keys : List String}
    (hchoice : control.HasChoice on keys) : keys.Nodup := by
  induction depth generalizing value control with
  | zero => exact absurd h (by simp [readAt])
  | succ depth ih =>
    unfold readAt at h
    split at h
    · obtain ⟨form, hform, hgives⟩ := Choice.gives_of_tagged h
      exact absurd hchoice (not_hasChoice_of_forms hform hgives on keys)
    · split at h
      · have hgives := Fields.gives_of_fromJson h
        simp only [Fields.gives_required_iff] at hgives
        obtain ⟨_, ⟨_, rfl, _, source, -, rfl⟩, _, options, hoptions, rfl⟩ := hgives
        obtain ⟨hnodup, hread⟩ := Json.asMap_eq_ok hoptions
        cases hchoice with
        | here => exact hnodup
        | option hoption hcontrol hinner =>
          obtain ⟨_, hlist⟩ := hread _ hoption
          obtain ⟨_, hitem⟩ := oneOrMany_eq_ok hlist _ hcontrol
          exact ih hitem hinner
      · exact absurd h (by simp)

theorem Action.nodup_of_list {value : Json} {actions : List Action}
    (h : oneOrMany ofJson value = .ok actions) :
    ∀ action ∈ actions, ∀ on keys, action.HasChoice on keys → keys.Nodup := by
  intro action haction on keys hchoice
  obtain ⟨item, hitem⟩ := oneOrMany_eq_ok h action haction
  exact nodup_of_readAt hitem hchoice

/-- The options that say something of an event stand in the same order as all of them. -/
theorem HandlerChoice.keys_optionsFor (choice : HandlerChoice) (event : String) :
    ((choice.optionsFor event).map Prod.fst).Sublist choice.options.names := by
  rw [optionsFor, List.map_filterMap]
  induction choice.options with
  | nil => exact .slnil
  | cons first rest ih =>
    rw [List.filterMap_cons]
    cases first.2.find? event with
    | none => exact ih.cons _
    | some actions => exact ih.cons_cons _

namespace Handlers

/-- The names are distinct in what was read of handlers so far. -/
structure Draft.Distinct (draft : Draft) : Prop where
  options : ∀ options ∈ draft.options, options.names.Nodup ∧ ∀ option ∈ options,
    ∀ event ∈ option.2, ∀ action ∈ event.2, ∀ on keys, action.HasChoice on keys → keys.Nodup
  events : ∀ event ∈ draft.events, ∀ action ∈ event.2, ∀ on keys, action.HasChoice on keys →
    keys.Nodup

theorem Draft.Distinct.take {draft next : Draft} (hdraft : draft.Distinct) {key : String}
    {value : Json} (h : draft.take key value = .ok next) : next.Distinct := by
  unfold Draft.take at h
  split at h
  · cases hon : Source.ofJson value with
    | error fault => exact absurd h (by simp [hon, Except.map])
    | ok on =>
      rw [hon] at h
      obtain rfl := Except.ok.inj h
      exact ⟨hdraft.options, hdraft.events⟩
  · split at h
    · cases hoptions : Json.asMap (Json.asMap (oneOrMany Action.ofJson)) value with
      | error fault => exact absurd h (by simp [hoptions, Except.map])
      | ok options =>
        rw [hoptions] at h
        obtain rfl := Except.ok.inj h
        refine ⟨fun read hread => ?_, hdraft.events⟩
        obtain rfl := Option.some.inj hread
        obtain ⟨hnodup, hmaps⟩ := Json.asMap_eq_ok hoptions
        refine ⟨hnodup, fun option hoption event hevent => ?_⟩
        obtain ⟨_, hmap⟩ := hmaps option hoption
        obtain ⟨_, hlist⟩ := (Json.asMap_eq_ok hmap).2 event hevent
        exact Action.nodup_of_list hlist
    · cases hactions : oneOrMany Action.ofJson value with
      | error fault => exact absurd h (by simp [hactions, Except.map])
      | ok actions =>
        rw [hactions] at h
        obtain rfl := Except.ok.inj h
        refine ⟨hdraft.options, fun event hevent => ?_⟩
        rcases Members.mem_of_mem_put hevent with rfl | hevent
        · exact Action.nodup_of_list hactions
        · exact hdraft.events event hevent

theorem Draft.Distinct.nodup {draft : Draft} (hdraft : draft.Distinct) {members : Members Json}
    {handlers : Handlers} (h : draft.takeAll members = .ok handlers) :
    ∀ event ∈ handlers.byEvent, ∀ action ∈ event.2, ∀ on keys, action.HasChoice on keys →
      keys.Nodup := by
  induction members generalizing draft with
  | cons first rest ih =>
    obtain ⟨key, value⟩ := first
    unfold Draft.takeAll at h
    split at h
    · next htake => exact ih (hdraft.take htake) h
    · exact absurd h (by simp)
  | nil =>
    obtain ⟨on?, options?, events⟩ := draft
    have hevents := hdraft.events
    cases on? <;> cases options? <;> simp only [Draft.takeAll, Draft.finish] at h
    · obtain rfl := Except.ok.inj h
      exact hevents
    · exact absurd h (by simp)
    · exact absurd h (by simp)
    · next source options =>
      obtain rfl := Except.ok.inj h
      obtain ⟨hnodup, hoptions⟩ := hdraft.options options rfl
      intro event hevent action haction
      rcases List.mem_append.1 hevent with hevent | hevent
      · obtain ⟨name, -, rfl⟩ := List.mem_map.1 hevent
        obtain rfl := List.mem_singleton.1 haction
        intro on keys hchoice
        -- what the options say of an event was read with them
        cases hchoice with
        | here =>
          exact hnodup.sublist (HandlerChoice.keys_optionsFor _ name)
        | option hoption haction hinner =>
          obtain ⟨option, hmem, hsaid⟩ := List.mem_filterMap.1 hoption
          obtain ⟨actions, hfind, rfl⟩ := Option.map_eq_some_iff.1 hsaid
          exact hoptions option hmem _ (Members.mem_of_find? hfind) _ haction _ _ hinner
      · exact hevents event hevent action haction

end Handlers

/-- The names that a screen gives are distinct: those of its fields, and the options of every
choice. -/
structure Screen.Named (screen : Screen) : Prop where
  fields : screen.declared.names.Nodup
  options : ∀ on keys, screen.HasChoice on keys → keys.Nodup

theorem Control.nodup_of_listOfOutline {outline : Outline} {controls : List Control}
    (h : listOfOutline outline = .ok controls) :
    ∀ control ∈ controls, ∀ on keys, control.HasChoice on keys → keys.Nodup := by
  obtain ⟨value, -, hlist⟩ := bind_eq_ok_iff.1 h
  intro control hcontrol on keys hchoice
  obtain ⟨item, hitem⟩ := oneOrMany_eq_ok hlist control hcontrol
  exact nodup_of_readAt hitem hchoice

theorem Handlers.nodup_of_ofOutline {outline : Outline} {handlers : Handlers}
    (h : ofOutline outline = .ok handlers) :
    ∀ event ∈ handlers.byEvent, ∀ action ∈ event.2, ∀ on keys, action.HasChoice on keys →
      keys.Nodup := by
  obtain ⟨members, -, hmembers⟩ := bind_eq_ok_iff.1 h
  have hstart : Draft.Distinct ⟨none, none, []⟩ :=
    ⟨fun _ h => absurd h (by simp), fun _ h => absurd h List.not_mem_nil⟩
  exact hstart.nodup hmembers

theorem Screen.named_of_ofOutline {outline : Outline} {screen : Screen}
    (h : ofOutline outline = .ok screen) : screen.Named := by
  have hgives := Fields.gives_of_fromOutline h
  simp only [Fields.gives_required_iff, Fields.gives_default_iff] at hgives
  obtain ⟨_, ⟨_, ⟨_, ⟨_, ⟨_, ⟨_, rfl, _, id, -, rfl⟩, model, hmodel, rfl⟩, _, controls, hcontrols,
    rfl⟩, actions, hactions, rfl⟩, _, -, rfl⟩, _, -, rfl⟩ := hgives
  refine ⟨?_, fun on keys hchoice => ?_⟩
  · cases model with
    | none => exact .nil
    | some fields =>
      obtain ⟨raw, hread⟩ := hmodel.resolve_right (by simp)
      exact Outline.nodup_of_asMap (Outline.asOption_eq_ok hread)
  · cases hchoice with
    | control hcontrol hchoice =>
      exact Control.nodup_of_listOfOutline hcontrols _ hcontrol on keys hchoice
    | @handler handlers _ _ hhandlers hevent haction hchoice =>
      obtain rfl : actions = some handlers := hhandlers
      obtain ⟨raw, hread⟩ := hactions.resolve_right (by simp)
      exact Handlers.nodup_of_ofOutline (Outline.asOption_eq_ok hread) _ hevent _ haction on keys
        hchoice

/-- **In a document that is read from a text, options have different names.** -/
theorem Document.nodup_of_ofText {source : String} {document : Document}
    (h : ofText source = .ok document) : ∀ screen ∈ document.screens, screen.Named := by
  have hread : ofOutline (Outline.ofText source.toList).1 = .ok document := by
    unfold ofText readText at h
    dsimp only at h
    split at h
    · exact absurd h (by simp)
    · next value hvalue =>
      split at h
      · exact Except.ok.inj h ▸ hvalue
      · exact absurd h (by simp)
  have hgives := Fields.gives_of_fromOutline hread
  simp only [Fields.gives_required_iff] at hgives
  obtain ⟨_, ⟨_, ⟨_, ⟨_, rfl, _, kind, -, rfl⟩, _, version, -, rfl⟩, _, name, -, rfl⟩, _, contents,
    hcontents, rfl⟩ := hgives
  have hdata := Fields.gives_of_fromOutline hcontents
  simp only [Fields.gives_required_iff, Fields.gives_default_iff] at hdata
  obtain ⟨_, ⟨_, rfl, resources, -, rfl⟩, _, screens, hscreens, rfl⟩ := hdata
  intro screen hscreen
  obtain ⟨outline, houtline⟩ := Outline.asList_eq_ok hscreens screen hscreen
  exact Screen.named_of_ofOutline houtline

/-! ### Options that spell integers -/

/-- No two options spell the same integer, if that is what they are compared with. -/
def Source.SpellsApart (fields : Members ModelField) (on : Source) (keys : List String) : Prop :=
  ∀ name value max min overflow, on.field? = some name →
    (name, ModelField.integer value max min overflow) ∈ fields →
      keys.Pairwise fun a b => ∀ n, Text.Spells (Text.trim a.toList) n →
        ¬ Text.Spells (Text.trim b.toList) n

/-- The choice of a document that has become one of a program. -/
def ChoiceStands (tables : Tables) (fields : Members ModelField) (on : Source)
    (keys : List String) (out : Program.Source) (ordinals : List UInt8) : Prop :=
  ∃ need, on.Stands tables fields .anyNumber out need ∧
    List.Forall₂ (fun key ordinal => optionOrdinal need.meaning key = .ok ordinal) keys ordinals

section Standing

variable {around : Surroundings} {tables : Tables} {fields : Members ModelField}

/-- What differs on one side differs on the other one. -/
theorem pairwise_of_forall₂ {α β : Type} {R : α → β → Prop} {P : α → α → Prop}
    {Q : β → β → Prop} (hstep : ∀ a a' b b', R a b → R a' b' → P a a' → Q b b') {items : List α}
    {results : List β} (h : List.Forall₂ R items results) (hitems : items.Pairwise P) :
    results.Pairwise Q := by
  induction h with
  | nil => exact .nil
  | cons hfirst hrest ih =>
    obtain ⟨hothers, hitems⟩ := List.pairwise_cons.1 hitems
    refine List.pairwise_cons.2 ⟨fun result hresult => ?_, ih hitems⟩
    obtain ⟨item, hitem, hrel⟩ := exists_left_of_forall₂ hrest hresult
    exact hstep _ _ _ _ hfirst hrel (hothers item hitem)

theorem exists_some_of_rel {α β : Type} {R : α → β → Prop} {a : α} {result : Option β}
    (h : Option.Rel R (some a) result) : ∃ b, result = some b ∧ R a b := by
  cases h with
  | some hrel => exact ⟨_, rfl, hrel⟩

/-- A name that stands once is that of one field. -/
theorem Members.eq_of_mem {α : Type} {members : Members α} (h : members.names.Nodup)
    {name : String} {a b : α} (ha : (name, a) ∈ members) (hb : (name, b) ∈ members) : a = b :=
  congrArg Prod.snd (List.inj_on_of_nodup_map h ha hb rfl)

/-- The ordinals of options are distinct if and only if no two options spell the same integer. -/
theorem ChoiceStands.nodup_iff {on : Source} {keys : List String} {out : Program.Source}
    {ordinals : List UInt8} (h : ChoiceStands tables fields on keys out ordinals)
    (hfields : fields.names.Nodup) (hkeys : keys.Nodup) :
    ordinals.Nodup ↔ on.SpellsApart fields keys := by
  obtain ⟨need, hon, hordinals⟩ := h
  obtain hnone | ⟨name, place, field, hname, -, hfield, hmeaning⟩ := hon.chosen
  · -- without a field there is no ordinal, and so there is no option
    cases hordinals with
    | nil => exact iff_of_true .nil fun _ _ _ _ _ _ _ => .nil
    | cons hordinal _ => exact absurd hordinal (by simp [hnone, optionOrdinal])
  · have hdenotes : List.Forall₂ (fun key ordinal => field.Denotes key (UInt8.toNat ordinal)) keys
        ordinals := by
      rw [hmeaning] at hordinals
      exact hordinals.imp fun key ordinal hordinal => optionOrdinal_eq_ok_iff.1 hordinal
    have hmem := List.mem_of_getElem? hfield
    cases field with
    | enumeration symbols value overflow =>
      refine iff_of_true ?_ fun name' value' max min overflow' hname' hmem' => ?_
      · refine pairwise_of_forall₂ (fun a a' b b' ha ha' hne heq => hne ?_) hdenotes hkeys
        subst heq
        exact ha.eq_of_enumeration ha'
      · obtain rfl := Option.some.inj (hname.symm.trans hname')
        exact absurd (Members.eq_of_mem hfields hmem hmem') (by simp)
    | integer value max min overflow =>
      constructor
      · intro hnodup name' value' max' min' overflow' _ _
        refine pairwise_of_forall₂ (fun b b' a a' ha ha' hne n hn hn' => hne ?_) hdenotes.flip
          hnodup
        have hb := Text.Spells.unique ha hn
        have hb' := Text.Spells.unique ha' hn'
        exact UInt8.toNat_inj.1 (Int.ofNat.inj (hb.trans hb'.symm))
      · intro hapart
        refine pairwise_of_forall₂ (fun a a' b b' ha ha' happart heq => ?_) hdenotes
          (hapart name value max min overflow hname hmem)
        subst heq
        exact happart _ ha ha'

theorem chosen_of_options {on : Source} {out : Program.Source} {need : Need} {α β : Type}
    (hon : on.Stands tables fields .anyNumber out need) {options : List (String × α)}
    {resolved : List (UInt8 × β)}
    (h : List.Forall₂ (fun option out => optionOrdinal need.meaning option.1 = .ok out.1) options
      resolved) :
    ChoiceStands tables fields on (options.map Prod.fst) out (resolved.map Prod.fst) :=
  ⟨need, hon, List.forall₂_map_left_iff.2 (List.forall₂_map_right_iff.2 h)⟩

/-- The choices in an instruction come from those in the action for which it stands. -/
theorem Action.Stands.exists_choice {out : Program.Instruction} {taken : Program.Source}
    {ordinals : List UInt8} (hchoice : out.HasChoice taken ordinals) {action : Action}
    (h : action.Stands around tables fields out) :
    ∃ on keys, action.HasChoice on keys ∧ ChoiceStands tables fields on keys taken ordinals := by
  induction hchoice generalizing action with
  | here =>
    cases h with
    | choose hon hordinals _ =>
      exact ⟨_, _, .here, chosen_of_options hon hordinals⟩
    | call hcall =>
      cases hcall with
      | model _ hchange => cases hchange
  | option hoption hinstruction _ ih =>
    cases h with
    | choose hon hordinals hbodies =>
      obtain ⟨option, hmem, hbody⟩ := exists_left_of_forall₂ hbodies hoption
      obtain ⟨action, haction, hstands⟩ := exists_left_of_forall₂ hbody hinstruction
      obtain ⟨on, keys, hinner, hchoice⟩ := ih hstands
      exact ⟨on, keys, .option hmem haction hinner, hchoice⟩
    | call hcall =>
      cases hcall with
      | model _ hchange => cases hchange

/-- The choices in an action are there in the instruction that stands for it. -/
theorem Action.HasChoice.exists_stands {action : Action} {on : Source} {keys : List String}
    (hchoice : action.HasChoice on keys) {out : Program.Instruction}
    (h : action.Stands around tables fields out) :
    ∃ taken ordinals, out.HasChoice taken ordinals ∧
      ChoiceStands tables fields on keys taken ordinals := by
  induction hchoice generalizing out with
  | here =>
    cases h with
    | choose hon hordinals _ =>
      exact ⟨_, _, .here, chosen_of_options hon hordinals⟩
  | option hoption haction _ ih =>
    cases h with
    | choose hon hordinals hbodies =>
      obtain ⟨option, hmem, hbody⟩ := exists_right_of_forall₂ hbodies hoption
      obtain ⟨instruction, hinstruction, hstands⟩ := exists_right_of_forall₂ hbody haction
      obtain ⟨taken, ordinals, hinner, hchoice⟩ := ih hstands
      exact ⟨taken, ordinals, .option hmem hinstruction hinner, hchoice⟩

/-- The choices in a control come from those in the control for which it stands. -/
theorem Control.Stands.exists_choice {out : Program.Control} {taken : Program.Source}
    {ordinals : List UInt8} (hchoice : out.HasChoice taken ordinals) {control : Control}
    {before after : Nat} (h : control.Stands around tables fields before out after) :
    ∃ on keys, control.HasChoice on keys ∧ ChoiceStands tables fields on keys taken ordinals := by
  induction hchoice generalizing control before after with
  | here =>
    cases h with
    | choose hon hordinals _ =>
      exact ⟨_, _, .here, chosen_of_options hon hordinals⟩
  | option hoption hcontrol _ ih =>
    cases h with
    | choose hon hordinals hbodies =>
      obtain ⟨option, hmem, _, _, hbody⟩ := hbodies.exists_of_mem hoption
      obtain ⟨control, hcontrol, _, _, hstands⟩ := hbody.exists_of_mem hcontrol
      obtain ⟨on, keys, hinner, hchoice⟩ := ih hstands
      exact ⟨on, keys, .option hmem hcontrol hinner, hchoice⟩

/-- The choices in a control are there in the control that stands for it. -/
theorem Control.HasChoice.exists_stands {control : Control} {on : Source} {keys : List String}
    (hchoice : control.HasChoice on keys) {before after : Nat} {out : Program.Control}
    (h : control.Stands around tables fields before out after) :
    ∃ taken ordinals, out.HasChoice taken ordinals ∧
      ChoiceStands tables fields on keys taken ordinals := by
  induction hchoice generalizing before after out with
  | here =>
    cases h with
    | choose hon hordinals _ =>
      exact ⟨_, _, .here, chosen_of_options hon hordinals⟩
  | option hoption hcontrol _ ih =>
    cases h with
    | choose hon hordinals hbodies =>
      obtain ⟨option, hmem, _, _, hbody⟩ := exists_right_of_forall₂ hbodies.exists_steps hoption
      obtain ⟨control, hcontrol, _, _, hstands⟩ :=
        exists_right_of_forall₂ hbody.exists_steps hcontrol
      obtain ⟨taken, ordinals, hinner, hchoice⟩ := ih hstands
      exact ⟨taken, ordinals, .option hmem hcontrol hinner, hchoice⟩

/-! ### Screens -/

variable {screen : Screen} {out : Program.Screen}

/-- Every choice on a screen of a program comes from one on the screen of the document. -/
theorem Screen.Stands.exists_choice (h : screen.Stands around tables out)
    {taken : Program.Source} {ordinals : List UInt8} (hchoice : out.HasChoice taken ordinals) :
    ∃ on keys, screen.HasChoice on keys ∧
      ChoiceStands tables screen.declared on keys taken ordinals := by
  cases hchoice with
  | control hcontrol hchoice =>
    obtain ⟨control, hmem, _, _, hstands⟩ := h.controls.exists_of_mem hcontrol
    obtain ⟨on, keys, hinner, hchoice⟩ := hstands.exists_choice hchoice
    exact ⟨on, keys, .control hmem hinner, hchoice⟩
  | handler hhandlers hhandler hinstruction hchoice =>
    have hrel := h.handlers
    rw [hhandlers] at hrel
    obtain ⟨handlers, hactions, listed, hlisted, hperm, -⟩ := exists_of_rel_some hrel
    obtain ⟨event, hevent, hstands⟩ := exists_left_of_forall₂ hlisted (hperm.mem_iff.1 hhandler)
    obtain ⟨action, haction, hstands⟩ := exists_left_of_forall₂ hstands.body hinstruction
    obtain ⟨on, keys, hinner, hchoice⟩ := hstands.exists_choice hchoice
    exact ⟨on, keys, .handler hactions hevent haction hinner, hchoice⟩

/-- Every choice on a screen of a document is there on the screen of the program. -/
theorem Screen.HasChoice.exists_stands {on : Source} {keys : List String}
    (hchoice : screen.HasChoice on keys) (h : screen.Stands around tables out) :
    ∃ taken ordinals, out.HasChoice taken ordinals ∧
      ChoiceStands tables screen.declared on keys taken ordinals := by
  cases hchoice with
  | control hcontrol hchoice =>
    obtain ⟨control, hmem, _, _, hstands⟩ :=
      exists_right_of_forall₂ h.controls.exists_steps hcontrol
    obtain ⟨taken, ordinals, hinner, hchoice⟩ := hchoice.exists_stands hstands
    exact ⟨taken, ordinals, .control hmem hinner, hchoice⟩
  | handler hactions hevent haction hchoice =>
    have hrel := h.handlers
    rw [hactions] at hrel
    obtain ⟨handlers, hhandlers, listed, hlisted, hperm, -⟩ := exists_some_of_rel hrel
    obtain ⟨handler, hhandler, hstands⟩ := exists_right_of_forall₂ hlisted hevent
    obtain ⟨instruction, hinstruction, hstands⟩ := exists_right_of_forall₂ hstands.body haction
    obtain ⟨taken, ordinals, hinner, hchoice⟩ := hchoice.exists_stands hstands
    exact ⟨taken, ordinals, .handler hhandlers (hperm.mem_iff.2 hhandler) hinstruction hinner,
      hchoice⟩

/-- What is known of the choices on a screen of a program, and of those on the screen of the
document. -/
structure Screen.Distinguishes (screen : Screen) (out : Program.Screen) : Prop where
  /-- Every choice comes from options with different names, and distinguishes them if and only if
  they spell different integers. -/
  blocks : ∀ taken ordinals, out.HasChoice taken ordinals → ∃ on keys, screen.HasChoice on keys ∧
    keys.Nodup ∧ (ordinals.Nodup ↔ on.SpellsApart screen.declared keys)
  /-- All choices together do so if and only if this holds of all options. -/
  all : (∀ taken ordinals, out.HasChoice taken ordinals → ordinals.Nodup) ↔
    ∀ on keys, screen.HasChoice on keys → on.SpellsApart screen.declared keys

theorem Screen.Stands.distinguishes (h : screen.Stands around tables out) (hnamed : screen.Named) :
    screen.Distinguishes out := by
  have hblocks : ∀ taken ordinals, out.HasChoice taken ordinals → ∃ on keys,
      screen.HasChoice on keys ∧ keys.Nodup ∧
        (ordinals.Nodup ↔ on.SpellsApart screen.declared keys) := by
    intro taken ordinals hchoice
    obtain ⟨on, keys, hon, hstands⟩ := h.exists_choice hchoice
    have hkeys := hnamed.options on keys hon
    exact ⟨on, keys, hon, hkeys, hstands.nodup_iff hnamed.fields hkeys⟩
  refine ⟨hblocks, fun hall on keys hon => ?_, fun hall taken ordinals hchoice => ?_⟩
  · obtain ⟨taken, ordinals, hchoice, hstands⟩ := hon.exists_stands h
    exact (hstands.nodup_iff hnamed.fields (hnamed.options on keys hon)).1 (hall _ _ hchoice)
  · obtain ⟨on, keys, hon, -, hiff⟩ := hblocks taken ordinals hchoice
    exact hiff.2 (hall on keys hon)

end Standing

/-! ### Documents -/

/-- **Options are told apart if and only if they spell different integers.** -/
theorem Compiler.options_apart {compiler : Compiler} {source : String} {id : Option UInt32}
    {bundle : Bundle} (h : (compiler.compile source id).1 = .ok bundle) :
    ∃ (document : Document) (program : Program), Document.ofText source = .ok document ∧
      bundle.binary = program.bytes ∧
        List.Forall₂ Screen.Distinguishes document.screens program.screens := by
  obtain ⟨document, hread, hcompiles⟩ := compile_eq_ok_iff.1 h
  obtain ⟨program, -, hcompiled⟩ := hcompiles.compiled
  refine ⟨document, program, hread, hcompiled.binary, ?_⟩
  exact forall₂_of_mem hcompiled.stand fun screen hscreen out hstands =>
    hstands.distinguishes (Document.nodup_of_ofText hread screen hscreen)

namespace Document

/-- Two pages are chosen by an integer, and both options spell one. -/
def twins : Document where
  kind := "watchset"
  version := 1
  name := "twins"
  resources := none
  screens :=
    [{ id := "main"
       model := some [("page", .integer none none none false)]
       controls := [.choose (.plain (.model "page") none) [("1", []), ("01", [])]]
       actions := none
       defaultActions := none
       settings := none }]

/-- The text of the document. -/
def twinsText : Json :=
  .object [("type", .text "watchset"), ("apiVersion", .number (.integer 1)),
    ("name", .text "twins"), ("data", .object [("screens", .array [.object [("id", .text "main"),
      ("model", .object [("page", .object [("type", .text "integer")])]),
      ("controls", .object [("choose", .object [("type", .text "model"),
        ("property", .text "page")]),
        ("when", .object [("1", .array []), ("01", .array [])])])]])])]

theorem ofText_twinsText : ofText twinsText.render = .ok twins := by
  have hintegral : twinsText.Integral := by
    simp [twinsText, Json.Integral, Json.ItemsIntegral, Json.MembersIntegral, Token.maxUnsigned]
  unfold ofText
  rw [Json.readText_render _ hintegral (by decide)]
  rfl

theorem exists_compiles_twins : ∃ bundle, twins.Compiles none 7 bundle := by
  have hok : (twins.resolve none >>= fun assembly => assembly.bundle 7).isOk = true := by
    decide +kernel
  exact exists_compiles hok

/-- The two options are those of a choice, and they are not apart. -/
theorem not_spellsApart_twins : ∃ screen ∈ twins.screens, ∃ on keys, screen.HasChoice on keys ∧
    ¬ on.SpellsApart screen.declared keys := by
  refine ⟨_, List.mem_cons_self, _, _, .control List.mem_cons_self .here, fun hapart => ?_⟩
  have hpairwise := hapart "page" none none none false rfl List.mem_cons_self
  have hone : Text.Spells (Text.trim "1".toList) 1 :=
    (Text.signed64?_eq_some_iff.1 (by decide +kernel)).1
  have hother : Text.Spells (Text.trim "01".toList) 1 :=
    (Text.signed64?_eq_some_iff.1 (by decide +kernel)).1
  exact (List.pairwise_cons.1 hpairwise).1 "01" List.mem_cons_self 1 hone hother

/-- What is known of the choices of a program holds of one that does not tell options apart. -/
theorem options_apart_twins : ∃ bundle : Bundle,
    (Compiler.initial.compile twinsText.render (some 7)).1 = .ok bundle ∧
      ∃ (document : Document) (program : Program), ofText twinsText.render = .ok document ∧
        bundle.binary = program.bytes ∧
          List.Forall₂ Screen.Distinguishes document.screens program.screens := by
  obtain ⟨bundle, hcompiles⟩ := exists_compiles_twins
  have hcompile : (Compiler.initial.compile twinsText.render (some 7)).1 = .ok bundle :=
    Compiler.compile_eq_ok_iff.2 ⟨twins, ofText_twinsText, hcompiles⟩
  exact ⟨bundle, hcompile, Compiler.options_apart hcompile⟩

/-- **Options with different names may have the same number.** -/
theorem unapart_twins : ¬ ∀ (compiler : Compiler) (source : String) (id : Option UInt32)
    (bundle : Bundle), (compiler.compile source id).1 = .ok bundle →
      ∀ program : Program, bundle.binary = program.bytes → ∀ screen ∈ program.screens,
        ∀ taken ordinals, screen.HasChoice taken ordinals → ordinals.Nodup := by
  intro h
  obtain ⟨bundle, hcompiles⟩ := exists_compiles_twins
  obtain ⟨program, -, hcompiled⟩ := hcompiles.compiled
  obtain ⟨screen, hscreen, on, keys, hchoice, hunapart⟩ := not_spellsApart_twins
  obtain ⟨out, hout, hstands⟩ := exists_right_of_forall₂ hcompiled.stand hscreen
  have hall := h Compiler.initial twinsText.render (some 7) bundle
    (Compiler.compile_eq_ok_iff.2 ⟨twins, ofText_twinsText, hcompiles⟩) program hcompiled.binary
    out hout
  have hnamed := nodup_of_ofText ofText_twinsText screen hscreen
  exact hunapart ((hstands.distinguishes hnamed).all.1 hall on keys hchoice)

end Document

end Timepiece
