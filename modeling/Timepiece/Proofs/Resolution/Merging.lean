import Mathlib
import Timepiece.Proofs.Numbers.Ranges
import Timepiece.Proofs.Resolution.Documents

/-!
# Entries that are merged

A property that a document refers to several times has one entry.  The entry has room
for every reference, and no more of either part than some reference asks for: its size
class is the greatest one, and so is its precision, but the two may come from different
references.

## Main definitions

* `Property.Merges` — an entry is the maximum of references to its property.
* `Reference.Modest` — a reference to a number asks for at most two decimals.

## Main results

* `Document.Compiled.merges` — **every entry of a bundle is the maximum of the references
  of the document to its property**.
* `Document.modest_of_mem_references` — no reference of a document asks for more than two
  decimals.
-/

namespace Timepiece

/-! ### The maximum of references -/

/-- The entry has the room of all references to its property; a number has its size
class from one of them, and its precision from one of them. -/
structure Property.Merges (entry : Property) (references : List Reference) : Prop where
  serves : ∀ {reference : Property}, .property reference ∈ references →
    reference.identity = entry.identity → entry.Serves reference
  sizeClass : entry.kind = .number → ∃ reference, .property reference ∈ references ∧
    reference.identity = entry.identity ∧ reference.range.sizeClass = entry.range.sizeClass
  precision : entry.kind = .number → ∃ reference, .property reference ∈ references ∧
    reference.identity = entry.identity ∧ reference.range.precision = entry.range.precision

namespace Property

/-- A number that has taken a reference in has each part of its range from the one or the
other. -/
theorem range_of_absorb {entry reference merged : Property}
    (h : entry.absorb reference = .ok merged) :
    merged.identity = entry.identity ∧ merged.kind = entry.kind ∧
      reference.kind = entry.kind ∧
      merged.range = Range.merge entry.kind entry.range reference.range := by
  unfold absorb at h
  split at h
  · next hkind =>
    obtain rfl := Except.ok.inj h
    exact ⟨rfl, rfl, hkind.symm, rfl⟩
  · exact nomatch h

/-- Where a part of the range of a kind is the greater one of two when a reference is
taken in, it is that part of some reference to the same property. -/
theorem part_of_absorb {kind : ValueKind} {part : Range → Nat}
    (hpart : ∀ a b, part (Range.merge kind a b) = max (part a) (part b))
    {references : List Reference} {entry reference merged : Property}
    (hidentity : entry.identity = reference.identity)
    (hentry : entry.kind = kind → ∃ r, .property r ∈ references ∧
      r.identity = entry.identity ∧ part r.range = part entry.range)
    (hreference : reference.kind = kind → ∃ r, .property r ∈ references ∧
      r.identity = reference.identity ∧ part r.range = part reference.range)
    (h : entry.absorb reference = .ok merged) (hkind : merged.kind = kind) :
    ∃ r, .property r ∈ references ∧ r.identity = merged.identity ∧
      part r.range = part merged.range := by
  obtain ⟨hmerged, hsame, hother, hrange⟩ := range_of_absorb h
  have hkind : entry.kind = kind := hsame ▸ hkind
  have hmax : part merged.range = max (part entry.range) (part reference.range) := by
    rw [hrange, hkind, hpart]
  rw [hmax, hmerged]
  -- the greater part was there before, or is that of the reference
  rcases le_total (part reference.range) (part entry.range) with hle | hle
  · rw [max_eq_left hle]
    exact hentry hkind
  · rw [max_eq_right hle, hidentity]
    exact hreference (hother.trans hkind)

end Property

namespace Tables

variable {around : Surroundings} {t t' : Tables} {references : List Reference}

/-- An entry is found by its property. -/
theorem Sound.eq_of_identity (h : t.Sound) {a b : Property} (ha : a ∈ t.properties)
    (hb : b ∈ t.properties) (hidentity : a.identity = b.identity) : a = b :=
  List.inj_on_of_nodup_map h.identities ha hb hidentity

/-- Every reference that is taken in is served in the end. -/
theorem Enters.serves (h : Enters around t references t') {reference : Property}
    (hr : .property reference ∈ references) :
    ∃ entry ∈ t'.properties, entry.Serves reference := by
  induction h with
  | nil => exact absurd hr List.not_mem_nil
  | function _ _ ih =>
    rcases List.mem_cons.1 hr with heq | hr
    · exact nomatch heq
    · exact ih hr
  | property _ henter _ hrest ih =>
    rcases List.mem_cons.1 hr with heq | hr
    · obtain rfl := Reference.property.inj heq
      obtain ⟨entry, hentry, hserves⟩ := serves_of_enterProperty henter
      obtain ⟨entry', hentry', hserves'⟩ := hrest.grows.properties hentry
      exact ⟨entry', List.mem_of_getElem? hentry', hserves'.trans hserves⟩
    · exact ih hr

/-- Where a part of a range is the greater one of two when entries of a kind are merged, every
entry of that kind has it from some reference, if there was no entry before. -/
theorem Enters.exists_part {kind : ValueKind} {part : Range → Nat}
    (h : Enters around empty references t')
    (hpart : ∀ a b, part (Range.merge kind a b) = max (part a) (part b)) {entry : Property}
    (hentry : entry ∈ t'.properties) :
    entry.kind = kind → ∃ r, .property r ∈ references ∧ r.identity = entry.identity ∧
      part r.range = part entry.range :=
  h.forall_properties (Property.part_of_absorb hpart)
    (fun _ hmem => absurd hmem List.not_mem_nil) (fun r hr _ => ⟨r, hr, rfl, rfl⟩) entry hentry

/-- **Every entry is the maximum of the references to its property**, if there was none
before. -/
theorem Enters.merges (h : Enters around empty references t') {entry : Property}
    (hentry : entry ∈ t'.properties) : entry.Merges references where
  serves := by
    intro reference hr hidentity
    -- the entry that serves the reference has its identity, and there is only one of those
    obtain ⟨other, hother, hserves⟩ := h.serves hr
    have hsame : other = entry := (h.sound sound_empty).eq_of_identity hother hentry
      (hserves.identity.trans hidentity)
    exact hsame ▸ hserves
  sizeClass := h.exists_part Range.sizeClass_merge hentry
  precision := h.exists_part Range.precision_merge hentry

end Tables

/-! ### Decimals -/

/-- A need for a number asks for at most as many decimals as can be shown. -/
def Need.Modest (need : Need) : Prop :=
  need.kind = .number → need.range.precision ≤ NumberRange.maxDecimals

/-- A reference to a number asks for at most as many decimals as can be shown. -/
def Reference.Modest : Reference → Prop
  | .property reference =>
    reference.kind = .number → reference.range.precision ≤ NumberRange.maxDecimals
  | .function _ => True

namespace Need

theorem modest_anyNumber : anyNumber.Modest := fun _ => Nat.zero_le _

theorem modest_number {sizeClass decimals : Nat} (h : decimals ≤ NumberRange.maxDecimals) :
    (number (Range.number sizeClass decimals)).Modest := by
  intro _
  show (Range.number sizeClass decimals).precision ≤ NumberRange.maxDecimals
  rw [Range.precision_number]
  exact (Nat.mod_le _ _).trans h

theorem modest_text (length : Nat) : (text length).Modest := fun h => nomatch h

end Need

theorem Origin.modest_of_mem_references {origin : Origin} {need : Need} (h : need.Modest) :
    ∀ reference ∈ origin.references need, reference.Modest := by
  cases origin with
  | extension owner name =>
    intro reference hr
    obtain rfl := List.mem_singleton.1 hr
    exact h
  | fixed _ | internal _ | sensor _ | model _ => exact fun _ hr => absurd hr List.not_mem_nil

theorem Source.modest_of_mem_references {source : Source} {need : Need} (h : need.Modest) :
    ∀ reference ∈ source.references need, reference.Modest := by
  induction source generalizing need with
  | plain origin converters => exact Origin.modest_of_mem_references h
  | indexed origin index converters ih =>
    exact List.forall_mem_append.2 ⟨Origin.modest_of_mem_references h, ih Need.modest_anyNumber⟩

theorem Source.modest_of_mem_optionalReferences {source : Option Source} {need : Need}
    (h : need.Modest) : ∀ reference ∈ optionalReferences need source, reference.Modest := by
  cases source with
  | none => exact fun _ hr => absurd hr List.not_mem_nil
  | some source => exact source.modest_of_mem_references h

/-- What is true of all parts of the items of a list is true of all parts together. -/
theorem Reference.modest_of_mem_flatMap {α : Type} {items : List α}
    {references : α → List Reference}
    (h : ∀ item ∈ items, ∀ reference ∈ references item, reference.Modest) :
    ∀ reference ∈ items.flatMap references, reference.Modest := by
  intro reference hr
  obtain ⟨item, hitem, hr⟩ := List.mem_flatMap.1 hr
  exact h item hitem reference hr

theorem Call.modest_of_mem_references (call : Call) :
    ∀ reference ∈ call.references, reference.Modest := by
  cases call with
  | extensionFunction owner name parameter =>
    intro reference hr
    obtain rfl := List.mem_singleton.1 hr
    exact trivial
  | model name change =>
    cases change with
    | set value | add value | subtract value =>
      exact value.modest_of_mem_references Need.modest_anyNumber
    | increment | decrement => exact fun _ hr => absurd hr List.not_mem_nil
  | _ => exact fun _ hr => absurd hr List.not_mem_nil

theorem Action.modest_of_mem_references (action : Action) :
    ∀ reference ∈ action.references, reference.Modest := by
  induction action using Action.induction with
  | hcall c => exact c.modest_of_mem_references
  | hchoose on options ih =>
    rw [references, optionReferences_eq]
    refine List.forall_mem_append.2 ⟨on.modest_of_mem_references Need.modest_anyNumber, ?_⟩
    exact Reference.modest_of_mem_flatMap fun option ho =>
      Reference.modest_of_mem_flatMap fun action ha => ih option ho action ha

theorem Handlers.modest_of_mem_references (handlers : Handlers) :
    ∀ reference ∈ handlers.references, reference.Modest :=
  Reference.modest_of_mem_flatMap fun _ _ =>
    Reference.modest_of_mem_flatMap fun action _ => action.modest_of_mem_references

theorem Control.modest_of_mem_references (control : Control) :
    ∀ reference ∈ control.references, reference.Modest := by
  induction control using Control.induction with
  | hnumber c =>
    rw [references, NumberControl.references]
    cases hrange : NumberRange.ofText? c.numberRange with
    | none => exact fun _ hr => absurd hr List.not_mem_nil
    | some range =>
      obtain ⟨-, hdrawable⟩ := NumberRange.ofText?_eq_some hrange
      exact c.source.modest_of_mem_references (Need.modest_number hdrawable.decimals)
  | htext c => exact c.source.modest_of_mem_references (Need.modest_text _)
  | hprogress c => exact c.source.modest_of_mem_references (Need.modest_number (Nat.zero_le _))
  | himage c => exact fun _ hr => absurd hr List.not_mem_nil
  | himageSet c => exact c.source.modest_of_mem_references (Need.modest_number (Nat.zero_le _))
  | hchoose on options ih =>
    rw [references, optionReferences_eq]
    refine List.forall_mem_append.2 ⟨on.modest_of_mem_references Need.modest_anyNumber, ?_⟩
    exact Reference.modest_of_mem_flatMap fun option ho =>
      Reference.modest_of_mem_flatMap fun control hc => ih option ho control hc

theorem ModelField.modest_of_mem_references (field : ModelField) :
    ∀ reference ∈ field.references, reference.Modest := by
  cases field with
  | integer value max min overflow =>
    exact List.forall_mem_append.2
      ⟨Source.modest_of_mem_optionalReferences Need.modest_anyNumber,
        List.forall_mem_append.2
          ⟨Source.modest_of_mem_optionalReferences Need.modest_anyNumber,
            Source.modest_of_mem_optionalReferences Need.modest_anyNumber⟩⟩
  | enumeration values value overflow =>
    exact Source.modest_of_mem_optionalReferences Need.modest_anyNumber

/-- **No reference of a document asks for more decimals than can be shown.** -/
theorem Document.modest_of_mem_references (document : Document) :
    ∀ reference ∈ document.references, reference.Modest := by
  refine Reference.modest_of_mem_flatMap fun screen _ => ?_
  refine List.forall_mem_append.2 ⟨?_, List.forall_mem_append.2 ⟨?_, ?_⟩⟩
  · exact Reference.modest_of_mem_flatMap fun _ _ =>
      Reference.modest_of_mem_flatMap fun field _ => field.2.modest_of_mem_references
  · exact Reference.modest_of_mem_flatMap fun control _ => control.modest_of_mem_references
  · exact Reference.modest_of_mem_flatMap fun handlers _ => handlers.modest_of_mem_references

/-! ### Bundles -/

theorem Document.Compiled.merges {catalog : Option (List String)} {document : Document}
    {bundle : Bundle} {program : Program} (h : document.Compiled catalog bundle program)
    {entry : Property} (hentry : entry ∈ bundle.properties) : entry.Merges document.references :=
  h.enters.merges hentry

end Timepiece
