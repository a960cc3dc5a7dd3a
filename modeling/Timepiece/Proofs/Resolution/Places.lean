import Mathlib
import Timepiece.Proofs.Program.Parts
import Timepiece.Proofs.Resolution.Meaning

/-!
# Every place of a program

If a screen of a program stands for a screen of a document, then whatever is found in it,
at any depth, stands for something of the document.  So a number that is written anywhere
in the program means what it means where it stands for a name.

## Main definitions

* `Program.Screen.Closed` — no number in a screen leads out of its table.

## Main results

* `Screen.Stands.controlList`, `Screen.Stands.instructions`, `Screen.Stands.source` —
  lists of controls, lists of instructions and sources at any depth stand for something.
* `Screen.Stands.closed` — **screens that stand for something are closed**.
-/

namespace Timepiece

/-! ### Lists that correspond -/

section Lists

variable {α β : Type} {R : α → β → Prop} {items : List α} {results : List β}

theorem exists_left_of_forall₂ (h : List.Forall₂ R items results) {b : β} (hb : b ∈ results) :
    ∃ a ∈ items, R a b := by
  induction h with
  | nil => exact absurd hb List.not_mem_nil
  | cons hfirst _ ih =>
    rcases List.mem_cons.1 hb with rfl | hb
    · exact ⟨_, List.mem_cons_self, hfirst⟩
    · obtain ⟨a, ha, h⟩ := ih hb
      exact ⟨a, List.mem_cons_of_mem _ ha, h⟩

theorem exists_right_of_forall₂ (h : List.Forall₂ R items results) {a : α} (ha : a ∈ items) :
    ∃ b ∈ results, R a b := by
  obtain ⟨b, hb, hrel⟩ := exists_left_of_forall₂ h.flip ha
  exact ⟨b, hb, hrel⟩

theorem exists_of_rel_some {item : Option α} {b : β} (h : Option.Rel R item (some b)) :
    ∃ a, item = some a ∧ R a b := by
  cases h with
  | some hrel => exact ⟨_, rfl, hrel⟩

end Lists

variable {around : Surroundings} {tables : Tables} {fields : Members ModelField}

/-! ### Parts -/

theorem Source.Stands.within {need need' : Need} {source : Source} {out inner : Program.Source}
    (hw : inner.Within out) (h : source.Stands tables fields need out need') :
    ∃ needed source needed', Stands tables fields needed source inner needed' := by
  induction hw generalizing need need' source with
  | self => exact ⟨need, source, need', h⟩
  | index _ ih =>
    cases h with
    | indexed _ hindex _ => exact ih hindex

/-- The sources of an instruction stand for sources. -/
theorem Action.Stands.source {action : Action} {out : Program.Instruction}
    (h : action.Stands around tables fields out) {taken : Program.Source}
    (ht : taken ∈ out.sources) :
    ∃ need source need', Source.Stands tables fields need source taken need' := by
  cases h with
  | choose hon _ _ =>
    obtain rfl := List.mem_singleton.1 ht
    exact ⟨_, _, _, hon⟩
  | call h =>
    cases h with
    | model _ hchange =>
      cases hchange with
      | set hvalue | add hvalue | subtract hvalue =>
        obtain rfl := List.mem_singleton.1 ht
        obtain ⟨need', hvalue⟩ := hvalue
        exact ⟨_, _, need', hvalue⟩
      | increment | decrement => exact absurd ht List.not_mem_nil
    | _ => exact absurd ht List.not_mem_nil

/-- The lists of instructions in the options of choices stand for lists of actions. -/
theorem Action.stand_of_branch {inner body : List Program.Instruction}
    (hb : Program.InstructionBranch inner body) {actions : List Action}
    (h : List.Forall₂ (Action.Stands around tables fields) actions body) :
    ∃ actions, List.Forall₂ (Action.Stands around tables fields) actions inner := by
  induction hb generalizing actions with
  | self => exact ⟨actions, h⟩
  | option hchoose hoption _ ih =>
    obtain ⟨action, -, hstands⟩ := exists_left_of_forall₂ h hchoose
    -- a call has become an instruction without options
    cases hstands with
    | choose _ _ hbodies =>
      obtain ⟨option, -, hbody⟩ := exists_left_of_forall₂ hbodies hoption
      exact ih hbody
    | call hcall =>
      cases hcall with
      | model _ hchange => cases hchange

/-- The sources of a control stand for sources. -/
theorem Control.Stands.source {control : Control} {before after : Nat} {out : Program.Control}
    (h : control.Stands around tables fields before out after) {taken : Program.Source}
    (ht : taken ∈ out.sources) :
    ∃ need source need', Source.Stands tables fields need source taken need' := by
  cases h with
  | number _ _ _ hsource | progress _ _ _ _ hsource | imageSet _ _ _ hsource =>
    obtain rfl := List.mem_singleton.1 ht
    obtain ⟨need', hsource⟩ := hsource
    exact ⟨_, _, need', hsource⟩
  | text _ _ _ hsource =>
    obtain rfl := List.mem_singleton.1 ht
    exact ⟨_, _, _, hsource⟩
  | image _ _ _ => exact absurd ht List.not_mem_nil
  | choose hon _ _ =>
    obtain rfl := List.mem_singleton.1 ht
    exact ⟨_, _, _, hon⟩

/-- The lists of controls in the options of choices stand for lists of controls. -/
theorem Control.stand_of_branch {inner body : List Program.Control}
    (hb : Program.ControlBranch inner body) {controls : List Control} {before after : Nat}
    (h : Threaded (Control.Stands around tables fields) controls before body after) :
    ∃ controls before after,
      Threaded (Control.Stands around tables fields) controls before inner after := by
  induction hb generalizing controls before after with
  | self => exact ⟨controls, before, after, h⟩
  | option hchoose hoption _ ih =>
    obtain ⟨control, -, _, _, hstands⟩ := h.exists_of_mem hchoose
    cases hstands with
    | choose _ _ hbodies =>
      obtain ⟨option, -, _, _, hbody⟩ := hbodies.exists_of_mem hoption
      exact ih hbody

/-- The sources of a field stand for sources. -/
theorem ModelField.Stands.source {field : ModelField} {out : Program.Field}
    (h : field.Stands tables fields out) {taken : Program.Source} (ht : taken ∈ out.sources) :
    ∃ need source need', Source.Stands tables fields need source taken need' := by
  -- the three sources of a field are looked at in the same way
  have hoptional : ∀ {need source out},
      Option.Rel (Source.StandsFor tables fields need) source out →
      taken ∈ out → ∃ need source need', Source.Stands tables fields need source taken need' := by
    intro need source out hrel hmem
    cases hrel with
    | none => exact nomatch hmem
    | some hstands =>
      obtain ⟨need', hstands⟩ := hstands
      exact ⟨need, _, need', Option.some.inj hmem ▸ hstands⟩
  rw [Program.Field.sources, List.mem_append, List.mem_append, Option.mem_toList,
    Option.mem_toList, Option.mem_toList] at ht
  cases h with
  | integer hvalue hmax hmin =>
    rcases ht with (ht | ht) | ht
    · exact hoptional hvalue ht
    · exact hoptional hmax ht
    · exact hoptional hmin ht
  | enumeration _ hvalue hmax hmin =>
    rcases ht with (ht | ht) | ht
    · exact hoptional hvalue ht
    · exact hoptional (.some hmax) ht
    · exact hoptional (.some hmin) ht

/-! ### Screens -/

namespace Screen.Stands

variable {screen : Screen} {out : Program.Screen}

/-- Every list of controls in a screen stands for one. -/
theorem controlList (h : screen.Stands around tables out) {body : List Program.Control}
    (hb : out.HasControls body) :
    ∃ controls before after,
      Threaded (Control.Stands around tables screen.declared) controls before body after :=
  Control.stand_of_branch hb h.controls

/-- Every list of instructions in a screen stands for one. -/
theorem instructions (h : screen.Stands around tables out) {body : List Program.Instruction}
    (hb : out.HasInstructions body) :
    ∃ actions, List.Forall₂ (Action.Stands around tables screen.declared) actions body := by
  obtain ⟨handlers, hhandlers, handler, hmem, hbranch⟩ := hb
  have hrel := h.handlers
  rw [hhandlers] at hrel
  obtain ⟨declared, -, listed, hlisted, hperm, -⟩ := exists_of_rel_some hrel
  -- handlers are sorted by event, so a handler is found by membership and not by its place
  obtain ⟨event, -, hevent⟩ := exists_left_of_forall₂ hlisted (hperm.mem_iff.1 hmem)
  exact Action.stand_of_branch hbranch hevent.body

/-- Every source in a screen stands for one. -/
theorem source (h : screen.Stands around tables out) {source : Program.Source}
    (hs : out.HasSource source) :
    ∃ need declared need', Source.Stands tables screen.declared need declared source need' := by
  -- a source is taken by a field, a control or an instruction at some depth
  cases hs with
  | field hmodel hfield htaken hw =>
    have hrel := h.model
    rw [hmodel] at hrel
    obtain ⟨declared, -, hfields⟩ := exists_of_rel_some hrel
    obtain ⟨field, -, hstands⟩ := exists_left_of_forall₂ hfields hfield
    obtain ⟨need, declared, need', htaken⟩ := hstands.source htaken
    exact htaken.within hw
  | control hbody hcontrol htaken hw =>
    obtain ⟨controls, before, after, hcontrols⟩ := h.controlList hbody
    obtain ⟨control, -, _, _, hstands⟩ := hcontrols.exists_of_mem hcontrol
    obtain ⟨need, declared, need', htaken⟩ := hstands.source htaken
    exact htaken.within hw
  | instruction hbody hinstruction htaken hw =>
    obtain ⟨actions, hactions⟩ := h.instructions hbody
    obtain ⟨action, -, hstands⟩ := exists_left_of_forall₂ hactions hinstruction
    obtain ⟨need, declared, need', htaken⟩ := hstands.source htaken
    exact htaken.within hw

end Screen.Stands

/-! ### Closed screens -/

namespace Program

/-- The fields that an instruction changes. -/
def Instruction.changed : Instruction → List UInt8
  | .setField field _ => [field]
  | .addToField field _ => [field]
  | .subtractFromField field _ => [field]
  | .incrementField field => [field]
  | .decrementField field => [field]
  | _ => []

/-- The resources that a control shows. -/
def Control.resources : Control → List UInt8
  | .number _ _ (.font _ _ resource) _ _ => [resource]
  | .image _ _ resource => [resource]
  | .imageSet _ _ resource _ _ => [resource]
  | _ => []

/-- Wherever a screen has the number of a screen, resource, property, function or field,
there is one with that number. -/
structure Screen.Closed (around : Surroundings) (tables : Tables) (fields : Members ModelField)
    (screen : Screen) : Prop where
  screens : ∀ body, screen.HasInstructions body → ∀ number, .showScreen number ∈ body →
    number.toNat < around.screens.length
  functions : ∀ body, screen.HasInstructions body → ∀ index, .callFunction index ∈ body →
    index.toNat < tables.functions.length
  changed : ∀ body, screen.HasInstructions body → ∀ instruction ∈ body,
    ∀ id ∈ instruction.changed, id.toNat < fields.length
  resources : ∀ body, screen.HasControls body → ∀ control ∈ body, ∀ index ∈ control.resources,
    index.toNat < around.resources.length
  properties : ∀ source, screen.HasSource source → ∀ index, source.origin = .property index →
    index.toNat < tables.properties.length
  fields : ∀ source, screen.HasSource source → ∀ id, source.origin = .field id →
    id.toNat < fields.length

end Program

/-- A screen is shown by its position. -/
theorem Action.Stands.screen {action : Action} {number : UInt16}
    (h : action.Stands around tables fields (.showScreen number)) :
    ∃ screen, action = .call (.showScreen screen) ∧
      around.screens[number.toNat]? = some screen := by
  cases h with
  | call h =>
    cases h with
    | showScreen hget => exact ⟨_, rfl, hget⟩
    | model _ hchange => cases hchange

/-- A function is called by its place. -/
theorem Action.Stands.function {action : Action} {index : UInt16}
    (h : action.Stands around tables fields (.callFunction index)) :
    ∃ owner name parameter, action = .call (.extensionFunction owner name parameter) ∧
      tables.functions[index.toNat]? = some ⟨owner, name, parameter⟩ := by
  cases h with
  | call h =>
    cases h with
    | callFunction hget => exact ⟨_, _, _, rfl, hget⟩
    | model _ hchange => cases hchange

/-- A field is changed by its position. -/
theorem Action.Stands.changed {action : Action} {out : Program.Instruction}
    (h : action.Stands around tables fields out) {id : UInt8} (hid : id ∈ out.changed) :
    ∃ name change field, action = .call (.model name change) ∧
      fields[id.toNat]? = some (name, field) := by
  cases h with
  | choose _ _ _ => exact absurd hid List.not_mem_nil
  | call h =>
    cases h with
    | model hget hchange =>
      cases hchange with
      | set _ | add _ | subtract _ | increment | decrement =>
        obtain rfl := List.mem_singleton.1 hid
        exact ⟨_, _, _, rfl, hget⟩
    | _ => exact absurd hid List.not_mem_nil

theorem NumberStyle.Stands.resource {range : NumberRange} {style : NumberStyle}
    {space index : UInt8} {padded : Bool}
    (h : style.Stands around range (.font space padded index)) :
    ∃ resource, around.resources[index.toNat]? = some resource := by
  cases h with
  | font _ _ hget => exact ⟨_, hget⟩

/-- A resource is shown by its position. -/
theorem Control.Stands.resource {control : Control} {before after : Nat} {out : Program.Control}
    (h : control.Stands around tables fields before out after) {index : UInt8}
    (hindex : index ∈ out.resources) :
    ∃ resource, around.resources[index.toNat]? = some resource := by
  cases h with
  | @number _ _ _ style _ _ _ _ hstyle _ =>
    cases style with
    | generated _ _ _ _ _ => exact absurd hindex List.not_mem_nil
    | font _ _ _ =>
      obtain rfl := List.mem_singleton.1 hindex
      exact hstyle.resource
  | image _ _ hget | imageSet _ _ hget _ =>
    obtain rfl := List.mem_singleton.1 hindex
    exact ⟨_, hget⟩
  | text _ _ _ _ | progress _ _ _ _ _ | choose _ _ _ => exact absurd hindex List.not_mem_nil

/-- A property is named by its place. -/
theorem Source.Stands.property {need need' : Need} {source : Source} {out : Program.Source}
    (h : source.Stands tables fields need out need') {index : UInt8}
    (hindex : out.origin = .property index) :
    ∃ owner name entry, source.origin = .extension owner name ∧
      tables.properties[index.toNat]? = some entry ∧ entry.identity = (owner, name) := by
  cases h with
  | plain horigin _ | indexed horigin _ _ =>
    obtain rfl := hindex
    cases horigin with
    | extension hget hserves => exact ⟨_, _, _, rfl, hget, hserves.identity⟩

/-- A field is read by its position. -/
theorem Source.Stands.field {need need' : Need} {source : Source} {out : Program.Source}
    (h : source.Stands tables fields need out need') {id : UInt8}
    (hid : out.origin = .field id) :
    ∃ name field, source.origin = .model name ∧ fields[id.toNat]? = some (name, field) := by
  cases h with
  | plain horigin _ | indexed horigin _ _ =>
    obtain rfl := hid
    cases horigin with
    | model hget => exact ⟨_, _, rfl, hget⟩

/-- **Screens that stand for something are closed.** -/
theorem Screen.Stands.closed {screen : Screen} {out : Program.Screen}
    (h : screen.Stands around tables out) : out.Closed around tables screen.declared where
  screens := by
    intro body hbody number hmem
    obtain ⟨actions, hactions⟩ := h.instructions hbody
    obtain ⟨action, -, hstands⟩ := exists_left_of_forall₂ hactions hmem
    obtain ⟨id, -, hget⟩ := hstands.screen
    exact (List.getElem?_eq_some_iff.1 hget).1
  functions := by
    intro body hbody index hmem
    obtain ⟨actions, hactions⟩ := h.instructions hbody
    obtain ⟨action, -, hstands⟩ := exists_left_of_forall₂ hactions hmem
    obtain ⟨owner, name, parameter, -, hget⟩ := hstands.function
    exact (List.getElem?_eq_some_iff.1 hget).1
  changed := by
    intro body hbody instruction hmem id hid
    obtain ⟨actions, hactions⟩ := h.instructions hbody
    obtain ⟨action, -, hstands⟩ := exists_left_of_forall₂ hactions hmem
    obtain ⟨name, change, field, -, hget⟩ := hstands.changed hid
    exact (List.getElem?_eq_some_iff.1 hget).1
  resources := by
    intro body hbody control hmem index hindex
    obtain ⟨controls, before, after, hcontrols⟩ := h.controlList hbody
    obtain ⟨declared, -, _, _, hstands⟩ := hcontrols.exists_of_mem hmem
    obtain ⟨resource, hget⟩ := hstands.resource hindex
    exact (List.getElem?_eq_some_iff.1 hget).1
  properties := by
    intro source hsource index hindex
    obtain ⟨need, declared, need', hstands⟩ := h.source hsource
    obtain ⟨owner, name, entry, -, hget, -⟩ := hstands.property hindex
    exact (List.getElem?_eq_some_iff.1 hget).1
  fields := by
    intro source hsource id hid
    obtain ⟨need, declared, need', hstands⟩ := h.source hsource
    obtain ⟨name, field, -, hget⟩ := hstands.field hid
    exact (List.getElem?_eq_some_iff.1 hget).1

end Timepiece
