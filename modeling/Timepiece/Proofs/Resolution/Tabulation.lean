import Mathlib
import Timepiece.Proofs.Program.Sections
import Timepiece.Proofs.Resolution.Merging

/-!
# The table of properties

Which entries a bundle has for the properties of extensions is a matter of the references of
the document alone.  They stand in the order in which the properties are referred to first, and
each part of a range is the greatest one that is asked for.  How often a property is referred
to, and in which order, does not matter for its entry.

## Main definitions

* `Document.propertyReferences` — the references of a document to properties.
* `Property.parts` — a part of the ranges in which a property is referred to.
* `Bundle.Tabulates` — the table of a bundle is that of some references.

## Main results

* `Tables.Enters.identities` — **entries stand in the order of first use**.
* `Bundle.Tabulates.entry_eq` — an entry is known from the set of the references.
* `Document.tabulated` — **the table of a bundle is that of the references of the document**,
  and the program lists it; a document that needs a property in two kinds does not compile.
-/

namespace Timepiece

/-- The property of a reference, if it is one to a property. -/
def Reference.property? : Reference → Option Property
  | .property reference => some reference
  | .function _ => none

theorem Reference.mem_filterMap_property? {references : List Reference} {property : Property} :
    property ∈ references.filterMap Reference.property? ↔ .property property ∈ references := by
  rw [List.mem_filterMap]
  constructor
  · rintro ⟨reference, hmem, hproperty⟩
    cases reference with
    | property other => exact Option.some.inj hproperty ▸ hmem
    | function other => exact nomatch hproperty
  · exact fun hmem => ⟨_, hmem, rfl⟩

/-- The references of a document to properties, in the order in which they stand. -/
def Document.propertyReferences (document : Document) : List Property :=
  document.references.filterMap Reference.property?

/-- The greatest length of a text. -/
def Range.length (range : Range) : Nat := range.raw.toNat

/-- A part of the ranges in which some references need the property of an identity. -/
def Property.parts (references : List Property) (identity : String × String)
    (part : Range → Nat) : Set Nat :=
  {n | ∃ reference ∈ references, reference.identity = identity ∧ part reference.range = n}

/-- The table of a bundle is that of some references. -/
structure Bundle.Tabulates (bundle : Bundle) (references : List Property) : Prop where
  /-- Every property that is referred to is listed once, in the order of first use. -/
  order : bundle.properties.map Property.identity =
    (references.map Property.identity).eraseDups
  /-- All references to a property are of its kind. -/
  kind : ∀ entry ∈ bundle.properties, ∀ reference ∈ references,
    reference.identity = entry.identity → reference.kind = entry.kind
  /-- The size class of a number is the greatest one. -/
  sizeClass : ∀ entry ∈ bundle.properties, entry.kind = .number →
    IsGreatest (Property.parts references entry.identity Range.sizeClass) entry.range.sizeClass
  /-- The precision of a number is the greatest one. -/
  precision : ∀ entry ∈ bundle.properties, entry.kind = .number →
    IsGreatest (Property.parts references entry.identity Range.precision) entry.range.precision
  /-- The length of a text is the greatest one. -/
  length : ∀ entry ∈ bundle.properties, entry.kind ≠ .number →
    IsGreatest (Property.parts references entry.identity Range.length) entry.range.length
  /-- The program has one section of properties: their count, and the kind and the range of
  each. -/
  listed : ∃ parts, Container.parts bundle.binary = .ok parts ∧
    parts.filter (·.1 = 0x02) =
      [(0x02, UInt8.ofNat bundle.properties.length ::
        bundle.properties.flatMap fun entry => [entry.kind.key, entry.range.raw])]
  /-- The count is not cut. -/
  count : bundle.properties.length ≤ 255

/-! ### The order -/

namespace Tables

variable {around : Surroundings} {t t' : Tables} {references : List Reference}

/-- A table is longer by a property that is not in it yet, and keeps its identities
otherwise. -/
theorem identities_of_enterProperty {reference : Property} {place : Nat} {table : List Property}
    (h : Compiling.enterProperty t.properties reference = .ok (place, table)) :
    table.map Property.identity =
      if reference.identity ∈ t.properties.map Property.identity then
        t.properties.map Property.identity
      else t.properties.map Property.identity ++ [reference.identity] := by
  obtain ⟨entry, merged, hentry, hidentity, habsorb, rfl⟩ | ⟨hnew, rfl, rfl⟩ :=
    Compiling.enterProperty_eq_ok h
  · have hmem : reference.identity ∈ t.properties.map Property.identity :=
      hidentity ▸ List.mem_map_of_mem (List.mem_of_getElem? hentry)
    rw [if_pos hmem]
    exact identities_set hentry (Property.absorb_serves hidentity habsorb).1.identity
  · rw [if_neg hnew, List.map_append, List.map_singleton]

/-- What is new in a list, one after the other. -/
theorem append_eraseDups_cons {α : Type} [BEq α] [LawfulBEq α] (known later : List α) (first : α) :
    known ++ ((first :: later).filter (· ∉ known)).eraseDups =
      (if first ∈ known then known else known ++ [first]) ++
        (later.filter (· ∉ if first ∈ known then known else known ++ [first])).eraseDups := by
  by_cases h : first ∈ known
  · simp [h]
  · have hlater : (later.filter (· ∉ known)).filter (fun other => !other == first) =
        later.filter (· ∉ known ++ [first]) := by
      rw [List.filter_filter]
      refine List.filter_congr fun other _ => ?_
      by_cases hother : other = first <;> simp [hother]
    rw [if_neg h, List.filter_cons, if_pos (by simpa using h), List.eraseDups_cons, hlater,
      List.append_assoc, List.singleton_append]

/-- **Entries stand in the order of first use**, after those that were there before. -/
theorem Enters.identities (h : Enters around t references t') :
    t'.properties.map Property.identity =
      t.properties.map Property.identity ++
        (((references.filterMap Reference.property?).map Property.identity).filter
          (· ∉ t.properties.map Property.identity)).eraseDups := by
  induction h with
  | nil => simp
  | function _ _ ih =>
    rw [ih]
    rfl
  | @property t t' reference place table rest _ henter _ _ ih =>
    have hlist : (Reference.property reference :: rest).filterMap Reference.property? =
        reference :: rest.filterMap Reference.property? := rfl
    rw [ih, identities_of_enterProperty henter, hlist, List.map_cons, append_eraseDups_cons]

end Tables

/-! ### What a table says -/

/-- A range is its byte. -/
theorem Range.eq_of_length {a b : Range} (h : a.length = b.length) : a = b :=
  congrArg Range.mk (UInt8.toNat_inj.1 h)

namespace Bundle.Tabulates

variable {bundle other : Bundle} {references others : List Property}

/-- Every reference has its entry. -/
theorem exists_entry (h : bundle.Tabulates references) {reference : Property}
    (hr : reference ∈ references) :
    ∃ entry ∈ bundle.properties, entry.identity = reference.identity := by
  have hmem : reference.identity ∈ bundle.properties.map Property.identity := by
    rw [h.order, List.mem_eraseDups]
    exact List.mem_map_of_mem hr
  exact List.mem_map.1 hmem

/-- Every entry has a reference. -/
theorem exists_reference (h : bundle.Tabulates references) {entry : Property}
    (hentry : entry ∈ bundle.properties) :
    ∃ reference ∈ references, reference.identity = entry.identity := by
  have hmem : entry.identity ∈ bundle.properties.map Property.identity :=
    List.mem_map_of_mem hentry
  rw [h.order, List.mem_eraseDups] at hmem
  exact List.mem_map.1 hmem

/-- Two references to one property are of one kind. -/
theorem kind_eq (h : bundle.Tabulates references) {a b : Property} (ha : a ∈ references)
    (hb : b ∈ references) (hidentity : a.identity = b.identity) : a.kind = b.kind := by
  obtain ⟨entry, hentry, hsame⟩ := h.exists_entry ha
  rw [h.kind entry hentry a ha hsame.symm,
    h.kind entry hentry b hb (hidentity.symm.trans hsame.symm)]

/-- The parts that a property is needed with depend on the set of its references. -/
theorem parts_congr {identity : String × String}
    (hsame : ∀ r : Property, r.identity = identity → (r ∈ references ↔ r ∈ others))
    (part : Range → Nat) :
    Property.parts references identity part = Property.parts others identity part := by
  ext n
  constructor
  · rintro ⟨r, hr, hid, hpart⟩
    exact ⟨r, (hsame r hid).1 hr, hid, hpart⟩
  · rintro ⟨r, hr, hid, hpart⟩
    exact ⟨r, (hsame r hid).2 hr, hid, hpart⟩

/-- **An entry is known from the set of the references** to its property, whatever their order
and however often they stand. -/
theorem entry_eq (h : bundle.Tabulates references) (h' : other.Tabulates others)
    {entry entry' : Property} (hentry : entry ∈ bundle.properties)
    (hentry' : entry' ∈ other.properties) (hidentity : entry.identity = entry'.identity)
    (hsame : ∀ r : Property, r.identity = entry.identity → (r ∈ references ↔ r ∈ others)) :
    entry = entry' := by
  obtain ⟨reference, hr, href⟩ := h.exists_reference hentry
  have hkind : entry.kind = entry'.kind := by
    rw [← h.kind entry hentry reference hr href,
      ← h'.kind entry' hentry' reference ((hsame reference href).1 hr) (href.trans hidentity)]
  have hparts (part : Range → Nat) : Property.parts references entry.identity part =
      Property.parts others entry'.identity part := by
    rw [parts_congr hsame part, hidentity]
  have hrange : entry.range = entry'.range := by
    refine Range.eq_of_length ?_
    by_cases hnumber : entry.kind = .number
    · have hnumber' : entry'.kind = .number := hkind ▸ hnumber
      have hsize := h.sizeClass entry hentry hnumber
      have hprecision := h.precision entry hentry hnumber
      rw [hparts] at hsize hprecision
      rw [Range.length, Range.length, Range.raw_eq, Range.raw_eq,
        hsize.unique (h'.sizeClass entry' hentry' hnumber'),
        hprecision.unique (h'.precision entry' hentry' hnumber')]
    · have hlength := h.length entry hentry hnumber
      rw [hparts] at hlength
      exact hlength.unique (h'.length entry' hentry' (hkind ▸ hnumber))
  obtain ⟨extension, property, kind, range⟩ := entry
  obtain ⟨extension', property', kind', range'⟩ := entry'
  obtain ⟨rfl, rfl⟩ : extension = extension' ∧ property = property' := by
    simpa [Property.identity] using hidentity
  obtain rfl : kind = kind' := hkind
  obtain rfl : range = range' := hrange
  rfl

end Bundle.Tabulates

/-! ### Documents -/

/-- The program of a bundle lists the properties of the bundle. -/
theorem Document.Compiles.listed {catalog : Option (List String)} {id : UInt32}
    {document : Document} {bundle : Bundle} (h : document.Compiles catalog id bundle) :
    ∃ parts, Container.parts bundle.binary = .ok parts ∧
      parts.filter (·.1 = 0x02) =
        [(0x02, UInt8.ofNat bundle.properties.length ::
          bundle.properties.flatMap fun entry => [entry.kind.key, entry.range.raw])] := by
  obtain ⟨assembly, -, hbundle⟩ := h
  obtain ⟨hsections, rfl⟩ := Assembly.bundle_eq_ok_iff.1 hbundle
  refine ⟨_, Container.parts_bytes hsections, ?_⟩
  have hlist : Program.propertiesBytes (assembly.properties.map Assembly.entry) =
      UInt8.ofNat assembly.properties.length ::
        assembly.properties.flatMap fun entry => [entry.kind.key, entry.range.raw] := by
    rw [Program.propertiesBytes, Program.countByte, List.length_map, List.flatMap_map]
    rfl
  rw [← hlist]
  -- the section stands between those of the screens and of the resources
  unfold Program.parts Assembly.program
  cases assembly.resources <;> rfl

/-- An entry of a number has no less of either part than the references that it serves. -/
theorem Property.Serves.number {entry reference : Property} (h : entry.Serves reference)
    (hkind : entry.kind = .number) :
    reference.range.sizeClass ≤ entry.range.sizeClass ∧
      reference.range.precision ≤ entry.range.precision := by
  have hcovers := h.range
  rw [← h.kind, hkind] at hcovers
  exact hcovers

/-- Any other entry has no smaller byte. -/
theorem Property.Serves.length {entry reference : Property} (h : entry.Serves reference)
    (hkind : entry.kind ≠ .number) : reference.range.length ≤ entry.range.length := by
  have hcovers := h.range
  rw [← h.kind] at hcovers
  cases hentry : entry.kind with
  | number => exact absurd hentry hkind
  | text | ordinal =>
    rw [hentry] at hcovers
    exact hcovers

/-- A part that some reference has, and none exceeds, is the greatest one. -/
theorem Document.isGreatest_parts {document : Document} {entry : Property} {part : Range → Nat}
    (hsome : ∃ r, .property r ∈ document.references ∧ r.identity = entry.identity ∧
      part r.range = part entry.range)
    (hall : ∀ r ∈ document.propertyReferences, r.identity = entry.identity →
      part r.range ≤ part entry.range) :
    IsGreatest (Property.parts document.propertyReferences entry.identity part)
      (part entry.range) := by
  obtain ⟨r, hr, hid, hpart⟩ := hsome
  refine ⟨⟨r, Reference.mem_filterMap_property?.2 hr, hid, hpart⟩, ?_⟩
  rintro n ⟨other, hother, hsame, rfl⟩
  exact hall other hother hsame

/-- The table of a bundle is that of the references of the document. -/
theorem Document.Compiles.tabulates {catalog : Option (List String)} {id : UInt32}
    {document : Document} {bundle : Bundle} (h : document.Compiles catalog id bundle) :
    bundle.Tabulates document.propertyReferences := by
  obtain ⟨program, -, hcompiled⟩ := h.compiled
  have hmerges (entry : Property) (hentry : entry ∈ bundle.properties) :
      entry.Merges document.references := hcompiled.merges hentry
  have hserves (entry : Property) (hentry : entry ∈ bundle.properties) (reference : Property)
      (hr : reference ∈ document.propertyReferences)
      (hid : reference.identity = entry.identity) : entry.Serves reference :=
    (hmerges entry hentry).serves (Reference.mem_filterMap_property?.1 hr) hid
  refine {
    order := ?_
    kind := fun entry hentry reference hr hid => (hserves entry hentry reference hr hid).kind.symm
    sizeClass := fun entry hentry hnumber => ?_
    precision := fun entry hentry hnumber => ?_
    length := fun entry hentry hother => ?_
    listed := h.listed
    count := hcompiled.sound.propertyCount }
  · have hidentities := hcompiled.enters.identities
    simpa [Tables.empty, Bundle.tables, propertyReferences] using hidentities
  · exact isGreatest_parts ((hmerges entry hentry).sizeClass hnumber)
      fun r hr hid => ((hserves entry hentry r hr hid).number hnumber).1
  · exact isGreatest_parts ((hmerges entry hentry).precision hnumber)
      fun r hr hid => ((hserves entry hentry r hr hid).number hnumber).2
  · exact isGreatest_parts (hcompiled.enters.exists_part (Range.raw_merge hother) hentry rfl)
      fun r hr hid => (hserves entry hentry r hr hid).length hother

/-- **The table of a bundle is that of the references of the document**, in the order of first
use and with the greatest parts that are asked for, and the program lists it.  An entry is known
from the set of the references to its property.  A document that needs a property in two kinds
does not compile. -/
theorem Document.tabulated (document : Document) :
    (∀ catalog id bundle, document.Compiles catalog id bundle →
      bundle.Tabulates document.propertyReferences ∧
        ∀ (other : Document) (catalog' : Option (List String)) (id' : UInt32) (bundle' : Bundle),
          other.Compiles catalog' id' bundle' →
          ∀ entry ∈ bundle.properties, ∀ entry' ∈ bundle'.properties,
            entry.identity = entry'.identity →
            (∀ r : Property, r.identity = entry.identity →
              (r ∈ document.propertyReferences ↔ r ∈ other.propertyReferences)) →
            entry = entry') ∧
    ∀ a ∈ document.propertyReferences, ∀ b ∈ document.propertyReferences,
      a.identity = b.identity → a.kind ≠ b.kind →
        ∀ catalog id bundle, ¬ document.Compiles catalog id bundle := by
  refine ⟨fun catalog id bundle h => ⟨h.tabulates, ?_⟩, ?_⟩
  · intro other catalog' id' bundle' h' entry hentry entry' hentry' hidentity hsame
    exact h.tabulates.entry_eq h'.tabulates hentry hentry' hidentity hsame
  · intro a ha b hb hidentity hkind catalog id bundle h
    exact hkind (h.tabulates.kind_eq ha hb hidentity)

/-- A document that shows one property as a number and as a text. -/
def Document.ambiguous : Document where
  kind := "watchset"
  version := 1
  name := "ambiguous"
  resources := none
  screens :=
    [{ id := "main"
       model := none
       controls :=
         [.text ⟨⟨none, none⟩, ⟨some 60, some 20⟩, "smallBold", ⟨.left, .top, false⟩, none,
            .plain (.extension "weather" "sky") none⟩,
          .choose (.plain (.extension "weather" "sky") none) []]
       actions := none
       defaultActions := none
       settings := none }]

theorem Document.tabulated_sample :
    (∃ bundle, sample.Compiles none 7 bundle ∧ bundle.Tabulates sample.propertyReferences) ∧
      ∀ catalog id bundle, ¬ ambiguous.Compiles catalog id bundle := by
  obtain ⟨bundle, hcompiles⟩ := exists_compiles_sample
  refine ⟨⟨bundle, hcompiles, ((tabulated sample).1 none 7 bundle hcompiles).1⟩, ?_⟩
  exact (tabulated ambiguous).2 ⟨"weather", "sky", .text, ⟨20⟩⟩ (by decide +kernel)
    ⟨"weather", "sky", .number, ⟨0⟩⟩ (by decide +kernel) rfl (by decide)

end Timepiece
