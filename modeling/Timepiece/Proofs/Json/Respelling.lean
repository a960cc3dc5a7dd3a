import Mathlib
import Timepiece.Proofs.Json.Agreement

/-!
# One thing, or a list of one

At some places a document may have one thing or a list of things: controls, actions, and the names
of converters.  One thing may be written as a list of one there, at as many places as one likes.

## Main definitions

* `Form` — what a document has at a place, and what it has below it.
* `Respelled` — a value in which lists of one stand for single things at any places of a form.
* `Json.spelledOut` — a value in which they do so at all places.
* `Respelled.Alike` — two values of a form that is none of those where there may be lists.

## Main results

* `Respelled.spelledOut` — every single thing may be written as a list of one.
* `Respelled.eq_of_plain` — below a plain place nothing is respelled.
* `Respelled.merged` — values that are respelled stay so when repeated keys are merged.
-/

namespace Timepiece

/-! ### Forms -/

/-- What a document has at a place, as far as there may be lists below it. -/
inductive Form where
  /-- Something without lists of one. -/
  | plain
  | document
  /-- The resources and screens of a document. -/
  | data
  | screen
  /-- A field of a model. -/
  | field
  | control
  | action
  | handlers
  | source
  /-- The name of a converter, or a chain of names. -/
  | converters
  | list (each : Form)
  | map (each : Form)
  /-- One thing, or a list of things. -/
  | oneOrMany (each : Form)

namespace Form

/-- What is at a member of an object. -/
def member : Form → String → Form
  | document, name => if name = "data" then data else plain
  | data, name => if name = "screens" then list screen else plain
  | screen, name =>
    if name = "model" then map field
    else if name = "controls" then oneOrMany control
    else if name = "actions" then handlers
    else plain
  | field, name => if name = "value" ∨ name = "max" ∨ name = "min" then source else plain
  | control, name =>
    if name = "source" ∨ name = "choose" then source
    else if name = "when" then map (oneOrMany control)
    else plain
  | action, name =>
    if name = "value" ∨ name = "choose" then source
    else if name = "when" then map (oneOrMany action)
    else plain
  | handlers, name =>
    if name = "choose" then source
    else if name = "when" then map (map (oneOrMany action))
    else oneOrMany action
  | source, name =>
    if name = "index" then source else if name = "converter" then converters else plain
  | map each, _ => each
  | oneOrMany each, name => each.member name
  | _, _ => plain

/-- What is at an item of an array, be it one of a list or a record that is written as an array. -/
def item : Form → Nat → Form
  | document, 3 => data
  | data, 1 => list screen
  | screen, 1 => map field
  | screen, 2 => oneOrMany control
  | screen, 3 => handlers
  | field, 1 => source
  | field, 2 => source
  | field, 3 => source
  | list each, _ => each
  | oneOrMany each, _ => each
  | _, _ => plain

end Form

/-! ### Respelling -/

mutual

/-- At any places below one of the given form, a list of one stands for a single thing. -/
inductive Respelled : Form → Json → Json → Prop
  | same {form : Form} {value : Json} : Respelled form value value
  | array {form : Form} {items items' : List Json} : ItemsRespelled form 0 items items' →
    Respelled form (.array items) (.array items')
  | object {form : Form} {members members' : List (String × Json)} :
    MembersRespelled form members members' → Respelled form (.object members) (.object members')
  /-- A single object is written as a list. -/
  | single {each : Form} {members members' : List (String × Json)} :
    MembersRespelled each members members' →
    Respelled (.oneOrMany each) (.object members) (.array [.object members'])
  /-- A single name is written as a chain. -/
  | converter {name : String} : Respelled .converters (.text name) (.array [.text name])

/-- The items of an array from a place on, each respelled. -/
inductive ItemsRespelled : Form → Nat → List Json → List Json → Prop
  | nil {form : Form} {place : Nat} : ItemsRespelled form place [] []
  | cons {form : Form} {place : Nat} {item item' : Json} {rest rest' : List Json} :
    Respelled (form.item place) item item' → ItemsRespelled form (place + 1) rest rest' →
    ItemsRespelled form place (item :: rest) (item' :: rest')

/-- The members of an object, each respelled. -/
inductive MembersRespelled : Form → List (String × Json) → List (String × Json) → Prop
  | nil {form : Form} : MembersRespelled form [] []
  | cons {form : Form} {key : String} {value value' : Json} {rest rest' : List (String × Json)} :
    Respelled (form.member key) value value' → MembersRespelled form rest rest' →
    MembersRespelled form ((key, value) :: rest) ((key, value') :: rest')

end

theorem ItemsRespelled.same {form : Form} (place : Nat) (items : List Json) :
    ItemsRespelled form place items items := by
  induction items generalizing place with
  | nil => exact .nil
  | cons item rest ih => exact .cons .same (ih (place + 1))

theorem MembersRespelled.same {form : Form} (members : List (String × Json)) :
    MembersRespelled form members members := by
  induction members with
  | nil => exact .nil
  | cons member rest ih => exact .cons .same ih

/-! ### Plain places -/

mutual

/-- Below a plain place nothing is respelled. -/
theorem Respelled.eq_of_plain : ∀ {value value' : Json}, Respelled .plain value value' →
    value = value'
  | _, _, .same => rfl
  | _, _, .array h => congrArg Json.array h.eq_of_plain
  | _, _, .object h => congrArg Json.object h.eq_of_plain

theorem ItemsRespelled.eq_of_plain : ∀ {place : Nat} {items items' : List Json},
    ItemsRespelled .plain place items items' → items = items'
  | _, _, _, .nil => rfl
  | _, _, _, .cons hitem hrest => by rw [Respelled.eq_of_plain hitem, hrest.eq_of_plain]

theorem MembersRespelled.eq_of_plain : ∀ {members members' : List (String × Json)},
    MembersRespelled .plain members members' → members = members'
  | _, _, .nil => rfl
  | _, _, .cons hvalue hrest => by rw [Respelled.eq_of_plain hvalue, hrest.eq_of_plain]

end

/-- Where every item is plain. -/
theorem ItemsRespelled.eq_of_item {form : Form} (hplain : ∀ place, form.item place = .plain)
    {place : Nat} {items items' : List Json} (h : ItemsRespelled form place items items') :
    items = items' := by
  induction items generalizing place items' with
  | nil =>
    cases h
    rfl
  | cons first rest ih =>
    cases h with
    | cons hfirst hrest =>
      rw [hplain] at hfirst
      rw [hfirst.eq_of_plain, ih hrest]

/-- A single thing has the members of one of many. -/
theorem MembersRespelled.of_oneOrMany {each : Form} {members members' : List (String × Json)}
    (h : MembersRespelled (.oneOrMany each) members members') :
    MembersRespelled each members members' := by
  induction members generalizing members' with
  | nil =>
    cases h
    exact .nil
  | cons first rest ih =>
    cases h with
    | cons hfirst hrest => exact .cons hfirst (ih hrest)

theorem Respelled.null_iff {form : Form} {value value' : Json} (h : Respelled form value value') :
    value = .null ↔ value' = .null := by
  cases h <;> simp

/-! ### Everything spelled out -/

/-- A single thing as a list of one. -/
def Form.wrap : Form → Json → Json
  | oneOrMany _, .object members => .array [.object members]
  | converters, .text name => .array [.text name]
  | _, value => value

namespace Json

mutual

/-- The value with a list of one for every single thing. -/
def spelledOut (form : Form) : Json → Json
  | .array items => .array (itemsSpelledOut form 0 items)
  | .object members => form.wrap (.object (membersSpelledOut form members))
  | value => form.wrap value

/-- The same for the items of an array from a place on. -/
def itemsSpelledOut (form : Form) (place : Nat) : List Json → List Json
  | [] => []
  | item :: rest =>
    spelledOut (form.item place) item :: itemsSpelledOut form (place + 1) rest

/-- The same for the members of an object. -/
def membersSpelledOut (form : Form) : List (String × Json) → List (String × Json)
  | [] => []
  | (key, value) :: rest =>
    (key, spelledOut (form.member key) value) :: membersSpelledOut form rest

end

end Json

/-- A single object may be written as a list of one. -/
theorem Respelled.wrap_object {form : Form} {members members' : List (String × Json)}
    (h : MembersRespelled form members members') :
    Respelled form (.object members) (form.wrap (.object members')) := by
  cases form with
  | oneOrMany each => exact .single h.of_oneOrMany
  | _ => exact .object h

/-- A single name may be written as a chain of one. -/
theorem Respelled.wrap_text {form : Form} (name : String) :
    Respelled form (.text name) (form.wrap (.text name)) := by
  cases form with
  | converters => exact .converter
  | _ => exact .same

mutual

/-- Every single thing may be written as a list of one. -/
theorem Respelled.spelledOut : ∀ (form : Form) (value : Json),
    Respelled form value (value.spelledOut form)
  | form, .object members => .wrap_object (MembersRespelled.spelledOut form members)
  | form, .array items => .array (ItemsRespelled.spelledOut form 0 items)
  | _, .text name => .wrap_text name
  | form, .null => by cases form <;> exact .same
  | form, .bool _ => by cases form <;> exact .same
  | form, .number _ => by cases form <;> exact .same

theorem ItemsRespelled.spelledOut : ∀ (form : Form) (place : Nat) (items : List Json),
    ItemsRespelled form place items (Json.itemsSpelledOut form place items)
  | _, _, [] => .nil
  | form, place, item :: rest =>
    .cons (Respelled.spelledOut (form.item place) item) (ItemsRespelled.spelledOut form _ rest)

theorem MembersRespelled.spelledOut : ∀ (form : Form) (members : List (String × Json)),
    MembersRespelled form members (Json.membersSpelledOut form members)
  | _, [] => .nil
  | form, (key, value) :: rest =>
    .cons (Respelled.spelledOut (form.member key) value) (MembersRespelled.spelledOut form rest)

end

/-! ### Repeated keys -/

namespace MembersRespelled

variable {form : Form} {members members' : List (String × Json)}

theorem put (h : MembersRespelled form members members') {key : String} {value value' : Json}
    (hvalue : Respelled (form.member key) value value') :
    MembersRespelled form (Members.put members key value) (Members.put members' key value') := by
  induction members generalizing members' with
  | nil =>
    cases h
    exact .cons hvalue .nil
  | cons first rest ih =>
    cases h with
    | cons hfirst hrest =>
      unfold Members.put
      split
      · next heq =>
        subst heq
        exact .cons hvalue hrest
      · exact .cons hfirst (ih hrest)

/-- Members that are merged with those before them. -/
theorem foldl_put {done done' : List (String × Json)} (hdone : MembersRespelled form done done')
    (h : MembersRespelled form members members') :
    MembersRespelled form
      (members.foldl (fun members pair => Members.put members pair.1 pair.2) done)
      (members'.foldl (fun members pair => Members.put members pair.1 pair.2) done') := by
  induction members generalizing members' done done' with
  | nil =>
    cases h
    exact hdone
  | cons first rest ih =>
    cases h with
    | cons hfirst hrest =>
      have hothers := ih (hdone.put hfirst) hrest
      exact hothers

end MembersRespelled

mutual

/-- Values that are respelled stay so when repeated keys are merged. -/
theorem Respelled.merged : ∀ {form : Form} {value value' : Json}, Respelled form value value' →
    Respelled form value.merged value'.merged
  | _, _, _, .same => .same
  | _, _, _, .array h => .array h.merged
  | _, _, _, .object h => .object (MembersRespelled.foldl_put .nil h.merged)
  | _, _, _, .single h => .single (MembersRespelled.foldl_put .nil h.merged)
  | _, _, _, .converter => .converter

theorem ItemsRespelled.merged : ∀ {form : Form} {place : Nat} {items items' : List Json},
    ItemsRespelled form place items items' →
      ItemsRespelled form place (Json.mergedItems items) (Json.mergedItems items')
  | _, _, _, _, .nil => .nil
  | _, _, _, _, .cons hitem hrest => .cons hitem.merged hrest.merged

theorem MembersRespelled.merged : ∀ {form : Form} {members members' : List (String × Json)},
    MembersRespelled form members members' →
      MembersRespelled form (Json.mergedMembers members) (Json.mergedMembers members')
  | _, _, _, .nil => .nil
  | _, _, _, .cons hvalue hrest => .cons hvalue.merged hrest.merged

end

/-! ### Records and leaves -/

/-- A value that holds no others. -/
inductive Json.Leaf : Json → Prop
  | null : Leaf .null
  | bool (b : Bool) : Leaf (.bool b)
  | number (n : Number) : Leaf (.number n)
  | text (s : String) : Leaf (.text s)

/-- Values that are respelled where there may be no list of one: either the same leaf, or arrays or
objects with respelled values. -/
inductive Respelled.Alike (form : Form) : Json → Json → Prop
  | leaf {value : Json} : value.Leaf → Alike form value value
  | array {items items' : List Json} : ItemsRespelled form 0 items items' →
    Alike form (.array items) (.array items')
  | object {members members' : List (String × Json)} : MembersRespelled form members members' →
    Alike form (.object members) (.object members')

/-- There may be no list of one where the form is another one. -/
theorem Respelled.alike {form : Form} {value value' : Json} (h : Respelled form value value')
    (hone : ∀ each, form ≠ .oneOrMany each) (hchain : form ≠ .converters) :
    Alike form value value' := by
  cases h with
  | same =>
    cases value with
    | array items => exact .array (.same 0 items)
    | object members => exact .object (.same members)
    | null | bool | number | text => exact .leaf (by constructor)
  | array h => exact .array h
  | object h => exact .object h
  | single h => exact absurd rfl (hone _)
  | converter => exact absurd rfl hchain

/-! ### Depths -/

/-- Values that are respelled, and not deeper than two bounds. -/
def Form.Relates (form : Form) (d d' : Nat) (value value' : Json) : Prop :=
  Respelled form value value' ∧ value.depth ≤ d ∧ value'.depth ≤ d'

/-- The same for a member of an object. -/
def Form.RelatesMember (form : Form) (d d' : Nat) (first second : String × Json) : Prop :=
  first.1 = second.1 ∧ (form.member first.1).Relates d d' first.2 second.2

theorem MembersRespelled.relates {form : Form} {d d' : Nat}
    {members members' : List (String × Json)}
    (h : MembersRespelled form members members') (hdepth : Json.depthOfMembers members ≤ d)
    (hdepth' : Json.depthOfMembers members' ≤ d') :
    List.Forall₂ (form.RelatesMember d d') members members' := by
  induction members generalizing members' with
  | nil =>
    cases h
    exact .nil
  | cons first rest ih =>
    cases h with
    | cons hfirst hrest =>
      obtain ⟨hle, hdepth⟩ := Nat.max_le.1 hdepth
      obtain ⟨hle', hdepth'⟩ := Nat.max_le.1 hdepth'
      exact .cons ⟨rfl, hfirst, hle, hle'⟩ (ih hrest hdepth hdepth')

theorem ItemsRespelled.relates {form : Form} {place d d' : Nat} {items items' : List Json}
    (h : ItemsRespelled form place items items') (hdepth : Json.depthOfItems items ≤ d)
    (hdepth' : Json.depthOfItems items' ≤ d') :
    Placed (fun place => (form.item place).Relates d d') place items items' := by
  induction items generalizing place items' with
  | nil =>
    cases h
    exact .nil
  | cons first rest ih =>
    cases h with
    | cons hfirst hrest =>
      obtain ⟨hle, hdepth⟩ := Nat.max_le.1 hdepth
      obtain ⟨hle', hdepth'⟩ := Nat.max_le.1 hdepth'
      exact .cons ⟨hfirst, hle, hle'⟩ (ih hrest hdepth hdepth')

/-- Where the place does not matter. -/
theorem Placed.forall₂ {ν ν' : Type} {R : ν → ν' → Prop} {place : Nat} {items : List ν}
    {items' : List ν'} (h : Placed (fun _ => R) place items items') :
    List.Forall₂ R items items' := by
  induction h with
  | nil => exact .nil
  | cons hitem _ ih => exact .cons hitem ih

end Timepiece
