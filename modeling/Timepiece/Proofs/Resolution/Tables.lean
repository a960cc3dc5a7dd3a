import Mathlib
import Timepiece.WatchSet.Scope

/-!
# Tables that grow

The tables of properties and functions grow while a document is compiled.  A
reference that is taken in gets a place, and that place stays its own: later
references may widen the entry that stands there, but never move or replace it.

## Main definitions

* `Property.Serves` — an entry is for the property of a reference and has the room
  that the reference needs.
* `Tables`, `Tables.Grows` — the two tables, and the order in which they grow.
* `Tables.Sound` — no entry stands twice, and all places can be written.
* `Reference`, `Tables.Enters` — one reference after the other is taken in.

## Main results

* `Tables.Enters.grows` — **places are kept**.
* `Tables.Enters.sound` — **no entry comes to stand twice**.
* `Tables.Enters.forall_properties` — what is true of all references and kept by
  widening is true of all entries.
-/

namespace Timepiece

/-- What is found at a place stands at that place. -/
theorem getElem?_of_idxOf? {α : Type} [BEq α] [LawfulBEq α] {items : List α} {item : α}
    {place : Nat} (h : items.idxOf? item = some place) : items[place]? = some item := by
  obtain ⟨hlt, hitem, -⟩ := List.idxOf?_eq_some_iff.1 h
  rw [List.getElem?_eq_getElem hlt, hitem]

/-! ### Entries that serve references -/

/-- The first range has the room that the second one asks for. -/
def Range.Covers (kind : ValueKind) (wide narrow : Range) : Prop :=
  match kind with
  | .number => narrow.sizeClass ≤ wide.sizeClass ∧ narrow.precision ≤ wide.precision
  | .text | .ordinal => narrow.raw.toNat ≤ wide.raw.toNat

namespace Range.Covers

variable {kind : ValueKind} {a b c : Range}

theorem refl (kind : ValueKind) (a : Range) : Covers kind a a := by
  cases kind with
  | number => exact ⟨le_rfl, le_rfl⟩
  | text => exact le_refl a.raw.toNat
  | ordinal => exact le_refl a.raw.toNat

theorem trans (hab : Covers kind a b) (hbc : Covers kind b c) : Covers kind a c := by
  cases kind with
  | number => exact ⟨hbc.1.trans hab.1, hbc.2.trans hab.2⟩
  | text => exact Nat.le_trans hbc hab
  | ordinal => exact Nat.le_trans hbc hab

/-- A merged range has the room of both. -/
theorem merge (kind : ValueKind) (a b : Range) :
    Covers kind (Range.merge kind a b) a ∧ Covers kind (Range.merge kind a b) b := by
  cases kind with
  | number => refine ⟨⟨?_, ?_⟩, ?_, ?_⟩ <;> simp
  | text =>
    have h := raw_merge (show ValueKind.text ≠ .number by decide) a b
    constructor <;> simp [Covers, h]
  | ordinal =>
    have h := raw_merge (show ValueKind.ordinal ≠ .number by decide) a b
    constructor <;> simp [Covers, h]

end Range.Covers

namespace Property

/-- Which property of which extension it is. -/
def identity (property : Property) : String × String := (property.extension, property.property)

theorem same_iff {a b : Property} : a.same b = true ↔ a.identity = b.identity := by
  simp [same, identity]

/-- The entry is for the property of the reference and has the room it needs. -/
structure Serves (entry reference : Property) : Prop where
  identity : entry.identity = reference.identity
  kind : entry.kind = reference.kind
  range : Range.Covers reference.kind entry.range reference.range

theorem Serves.refl (entry : Property) : entry.Serves entry :=
  ⟨rfl, rfl, .refl _ _⟩

theorem Serves.trans {a b c : Property} (hab : a.Serves b) (hbc : b.Serves c) : a.Serves c :=
  ⟨hab.identity.trans hbc.identity, hab.kind.trans hbc.kind,
    (hbc.kind ▸ hab.range).trans hbc.range⟩

/-- An entry that has taken a reference in serves as before, and the reference too. -/
theorem absorb_serves {entry reference merged : Property}
    (hidentity : entry.identity = reference.identity) (h : entry.absorb reference = .ok merged) :
    merged.Serves entry ∧ merged.Serves reference := by
  unfold absorb at h
  split at h
  · next hkind =>
    obtain rfl := Except.ok.inj h
    obtain ⟨hentry, hreference⟩ := Range.Covers.merge entry.kind entry.range reference.range
    exact ⟨⟨rfl, rfl, hentry⟩, ⟨hidentity, hkind, hkind ▸ hreference⟩⟩
  · exact nomatch h

end Property

/-! ### One reference -/

namespace Compiling

/-- A property that is taken in either widens the entry that it has, or gets a new
one. -/
theorem enterProperty_eq_ok {table table' : List Property} {reference : Property} {place : Nat}
    (h : enterProperty table reference = .ok (place, table')) :
    (∃ entry merged, table[place]? = some entry ∧ entry.identity = reference.identity ∧
      entry.absorb reference = .ok merged ∧ table' = table.set place merged) ∨
    (reference.identity ∉ table.map Property.identity ∧ place = table.length ∧
      table' = table ++ [reference]) := by
  unfold enterProperty at h
  cases hfind : table.findIdx? (·.same reference) with
  | none =>
    rw [hfind] at h
    obtain ⟨rfl, rfl⟩ := Prod.mk.inj (Except.ok.inj h)
    refine Or.inr ⟨?_, rfl, rfl⟩
    intro hmem
    obtain ⟨entry, hentry, hidentity⟩ := List.mem_map.1 hmem
    have hsame := List.findIdx?_eq_none_iff.1 hfind entry hentry
    rw [Property.same_iff.2 hidentity] at hsame
    exact absurd hsame (by decide)
  | some index =>
    rw [hfind] at h
    obtain ⟨hlt, hsame, -⟩ := List.findIdx?_eq_some_iff_getElem.1 hfind
    have hentry : table[index]? = some table[index] := List.getElem?_eq_getElem hlt
    simp only [absorbAt, hentry] at h
    cases habsorb : table[index].absorb reference with
    | error conflict =>
      rw [habsorb] at h
      exact nomatch h
    | ok merged =>
      rw [habsorb] at h
      obtain ⟨rfl, rfl⟩ := Prod.mk.inj (Except.ok.inj h)
      exact Or.inl ⟨_, merged, hentry, Property.same_iff.1 hsame, habsorb, rfl⟩

/-- A function that is taken in stands at its place; the table is as before, or
longer by it. -/
theorem enterFunction_cases (table : List Function) (reference : Function) :
    (table[(enterFunction table reference).1]? = some reference ∧
      (enterFunction table reference).2 = table) ∨
    (reference ∉ table ∧ (enterFunction table reference).1 = table.length ∧
      (enterFunction table reference).2 = table ++ [reference]) := by
  unfold enterFunction
  cases hfind : table.idxOf? reference with
  | none => exact Or.inr ⟨List.idxOf?_eq_none_iff.1 hfind, rfl, rfl⟩
  | some index =>
    exact Or.inl ⟨getElem?_of_idxOf? hfind, rfl⟩

end Compiling

/-! ### Growth -/

/-- The tables that grow while a document is compiled. -/
structure Tables where
  properties : List Property
  functions : List Function

/-- The tables among all that grows. -/
def Ledger.tables (l : Ledger) : Tables := ⟨l.properties, l.functions⟩

/-- Every entry of the first tables has kept its place in the second, and serves all
that it served. -/
structure Tables.Grows (t t' : Tables) : Prop where
  properties : ∀ {place : Nat} {entry : Property}, t.properties[place]? = some entry →
    ∃ entry' : Property, t'.properties[place]? = some entry' ∧ entry'.Serves entry
  functions : t.functions <+: t'.functions

/-- No entry stands twice, and every place can be written. -/
structure Tables.Sound (t : Tables) : Prop where
  identities : (t.properties.map Property.identity).Nodup
  functions : t.functions.Nodup
  propertyCount : t.properties.length ≤ maxCount
  functionCount : t.functions.length ≤ maxLength + 1

namespace Tables

theorem Grows.refl (t : Tables) : t.Grows t :=
  ⟨fun {_ entry} h => ⟨entry, h, .refl entry⟩, List.prefix_refl _⟩

theorem Grows.trans {t t' t'' : Tables} (h : t.Grows t') (h' : t'.Grows t'') : t.Grows t'' := by
  refine ⟨fun {place entry} hentry => ?_, h.functions.trans h'.functions⟩
  obtain ⟨entry', hentry', hserves⟩ := h.properties hentry
  obtain ⟨entry'', hentry'', hserves'⟩ := h'.properties hentry'
  exact ⟨entry'', hentry'', hserves'.trans hserves⟩

/-- A function that has a place keeps it. -/
theorem Grows.function {t t' : Tables} (h : t.Grows t') {place : Nat} {function : Function}
    (hget : t.functions[place]? = some function) : t'.functions[place]? = some function := by
  obtain ⟨more, hmore⟩ := h.functions
  obtain ⟨hlt, -⟩ := List.getElem?_eq_some_iff.1 hget
  rw [← hmore, List.getElem?_append_left hlt]
  exact hget

/-- Nothing has been taken in yet. -/
def empty : Tables := ⟨[], []⟩

theorem sound_empty : empty.Sound := by
  refine ⟨List.nodup_nil, List.nodup_nil, Nat.zero_le _, Nat.zero_le _⟩

/-! ### References -/

end Tables

/-- A reference from a document to something of an extension. -/
inductive Reference where
  | property (property : Property)
  | function (function : Function)
  deriving DecidableEq, Repr

namespace Tables

/-- The references are taken in one after the other.  Properties must be allowed, and
every reference must get a place that can be written. -/
inductive Enters (around : Surroundings) : Tables → List Reference → Tables → Prop
  | nil {t : Tables} : Enters around t [] t
  | property {t t' : Tables} {reference : Property} {place : Nat} {table : List Property}
    {rest : List Reference} :
    around.allows reference.extension = true →
    Compiling.enterProperty t.properties reference = .ok (place, table) → place < maxCount →
    Enters around { t with properties := table } rest t' →
    Enters around t (.property reference :: rest) t'
  | function {t t' : Tables} {reference : Function} {rest : List Reference} :
    (Compiling.enterFunction t.functions reference).1 ≤ maxLength →
    Enters around { t with functions := (Compiling.enterFunction t.functions reference).2 } rest
      t' →
    Enters around t (.function reference :: rest) t'

variable {around : Surroundings} {t t' t'' : Tables} {references others : List Reference}

theorem Enters.append (h : Enters around t references t') (h' : Enters around t' others t'') :
    Enters around t (references ++ others) t'' := by
  induction h with
  | nil => exact h'
  | property hallows henter hplace _ ih => exact .property hallows henter hplace (ih h')
  | function hplace _ ih => exact .function hplace (ih h')

section Property

variable {reference : Property} {place : Nat} {table : List Property}

/-- The entry at the place of a property serves it. -/
theorem serves_of_enterProperty
    (h : Compiling.enterProperty t.properties reference = .ok (place, table)) :
    ∃ entry, table[place]? = some entry ∧ entry.Serves reference := by
  obtain ⟨entry, merged, hentry, hidentity, habsorb, rfl⟩ | ⟨-, rfl, rfl⟩ :=
    Compiling.enterProperty_eq_ok h
  · obtain ⟨hlt, -⟩ := List.getElem?_eq_some_iff.1 hentry
    refine ⟨merged, ?_, (Property.absorb_serves hidentity habsorb).2⟩
    rw [List.getElem?_set_self hlt]
  · exact ⟨reference, List.getElem?_concat_length, .refl reference⟩

theorem grows_of_enterProperty
    (h : Compiling.enterProperty t.properties reference = .ok (place, table)) :
    t.Grows { t with properties := table } := by
  refine ⟨fun {at' old} hold => ?_, List.prefix_refl _⟩
  obtain ⟨entry, merged, hentry, hidentity, habsorb, rfl⟩ | ⟨-, rfl, rfl⟩ :=
    Compiling.enterProperty_eq_ok h
  · by_cases hat : place = at'
    · subst hat
      obtain rfl := Option.some.inj (hold.symm.trans hentry)
      obtain ⟨hlt, -⟩ := List.getElem?_eq_some_iff.1 hentry
      exact ⟨merged, List.getElem?_set_self hlt, (Property.absorb_serves hidentity habsorb).1⟩
    · exact ⟨old, by rw [List.getElem?_set_ne hat]; exact hold, .refl old⟩
  · obtain ⟨hlt, -⟩ := List.getElem?_eq_some_iff.1 hold
    exact ⟨old, by rw [List.getElem?_append_left hlt]; exact hold, .refl old⟩

/-- An entry that is replaced by one of the same identity leaves the identities as they
are. -/
theorem identities_set {properties : List Property} {entry merged : Property}
    (hentry : properties[place]? = some entry) (h : merged.identity = entry.identity) :
    (properties.set place merged).map Property.identity = properties.map Property.identity := by
  obtain ⟨hlt, hget⟩ := List.getElem?_eq_some_iff.1 hentry
  rw [List.map_set, h, ← hget, ← List.getElem_map Property.identity, List.set_getElem_self]
  simpa using hlt

theorem Sound.enterProperty (hsound : t.Sound)
    (h : Compiling.enterProperty t.properties reference = .ok (place, table))
    (hplace : place < maxCount) : Sound { t with properties := table } := by
  obtain ⟨entry, merged, hentry, hidentity, habsorb, rfl⟩ | ⟨hnew, rfl, rfl⟩ :=
    Compiling.enterProperty_eq_ok h
  · -- an entry that is widened keeps its identity, and so do all others
    have hsame := identities_set hentry (Property.absorb_serves hidentity habsorb).1.identity
    refine { hsound with identities := ?_, propertyCount := ?_ }
    · rw [hsame]
      exact hsound.identities
    · rw [List.length_set]
      exact hsound.propertyCount
  · refine { hsound with identities := ?_, propertyCount := ?_ }
    · rw [List.map_append, List.map_singleton, ← List.concat_eq_append]
      exact hsound.identities.concat hnew
    · rw [List.length_append, List.length_singleton]
      exact hplace

end Property

section Function

variable {reference : Function}

/-- The function stands at its place. -/
theorem getElem?_enterFunction (table : List Function) (reference : Function) :
    (Compiling.enterFunction table reference).2[(Compiling.enterFunction table reference).1]? =
      some reference := by
  obtain ⟨hget, htable⟩ | ⟨-, hplace, htable⟩ := Compiling.enterFunction_cases table reference
  · rw [htable, hget]
  · rw [htable, hplace, List.getElem?_concat_length]

theorem prefix_enterFunction (table : List Function) (reference : Function) :
    table <+: (Compiling.enterFunction table reference).2 := by
  obtain ⟨-, htable⟩ | ⟨-, -, htable⟩ := Compiling.enterFunction_cases table reference
  · rw [htable]
  · rw [htable]
    exact List.prefix_append _ _

theorem grows_enterFunction (t : Tables) (reference : Function) :
    t.Grows { t with functions := (Compiling.enterFunction t.functions reference).2 } :=
  ⟨fun {_ entry} hentry => ⟨entry, hentry, .refl entry⟩, prefix_enterFunction _ _⟩

theorem Sound.enterFunction (hsound : t.Sound)
    (hplace : (Compiling.enterFunction t.functions reference).1 ≤ maxLength) :
    Sound { t with functions := (Compiling.enterFunction t.functions reference).2 } := by
  obtain ⟨-, htable⟩ | ⟨hnew, hlast, htable⟩ :=
    Compiling.enterFunction_cases t.functions reference
  · rw [htable]
    exact hsound
  · rw [htable]
    refine { hsound with functions := ?_, functionCount := ?_ }
    · rw [← List.concat_eq_append]
      exact hsound.functions.concat hnew
    · rw [List.length_append, List.length_singleton]
      omega

end Function

/-- **Places are kept.** -/
theorem Enters.grows (h : Enters around t references t') : t.Grows t' := by
  induction h with
  | nil => exact .refl _
  | property _ henter _ _ ih => exact (grows_of_enterProperty henter).trans ih
  | function _ _ ih => exact (grows_enterFunction _ _).trans ih

/-- **No entry comes to stand twice**, and no place becomes too large. -/
theorem Enters.sound (h : Enters around t references t') (hsound : t.Sound) : t'.Sound := by
  induction h with
  | nil => exact hsound
  | property _ henter hplace _ ih => exact ih (hsound.enterProperty henter hplace)
  | function hplace _ ih => exact ih (hsound.enterFunction hplace)

/-- What is true of every property that is taken in, and stays true of an entry that
takes another one in, is true of all entries. -/
theorem Enters.forall_properties {Q : Property → Prop}
    (hmerge : ∀ {entry reference merged : Property}, entry.identity = reference.identity →
      Q entry → Q reference → entry.absorb reference = .ok merged → Q merged)
    (h : Enters around t references t') (hentries : ∀ entry ∈ t.properties, Q entry)
    (hreferences : ∀ reference, .property reference ∈ references → Q reference) :
    ∀ entry ∈ t'.properties, Q entry := by
  induction h with
  | nil => exact hentries
  | function _ _ ih =>
    exact ih hentries fun reference hr => hreferences reference (List.mem_cons_of_mem _ hr)
  | @property t t' reference place table rest _ henter _ _ ih =>
    have hnew : Q reference := hreferences reference List.mem_cons_self
    refine ih ?_ fun reference hr => hreferences reference (List.mem_cons_of_mem _ hr)
    intro entry hentry
    obtain ⟨old, merged, hold, hidentity, habsorb, rfl⟩ | ⟨-, -, rfl⟩ :=
      Compiling.enterProperty_eq_ok henter
    -- the entry is an old one, the one that was widened, or the new one
    · rcases List.mem_or_eq_of_mem_set hentry with hmem | rfl
      · exact hentries entry hmem
      · exact hmerge hidentity (hentries old (List.mem_of_getElem? hold)) hnew habsorb
    · rcases List.mem_append.1 hentry with hmem | hmem
      · exact hentries entry hmem
      · rw [List.mem_singleton.1 hmem]
        exact hnew

end Tables

end Timepiece
