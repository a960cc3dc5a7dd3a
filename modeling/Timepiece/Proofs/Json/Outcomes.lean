import Mathlib
import Timepiece.WatchSet.Document

/-!
# What readers give

Whatever a reader gives is made of what the readers of its parts give.  A record has values that
were read or that stand for what is missing; a list and the members of an object have values that
were read, and the names of the members are distinct even where a key is repeated.

## Main definitions

* `Field.Gives`, `Fields.Gives` — the values of a field, and the records of fields.
* `Fields.Always` — what holds of a record with whatever values.

## Main results

* `Fields.gives_of_fromJson`, `Fields.gives_of_fromOutline` — **a record that is read is one of its
  fields.**
* `Json.asMap_eq_ok`, `Outline.asMap_eq_ok` — **the names of what is read are distinct.**
-/

namespace Timepiece

variable {α β ν : Type}

/-! ### Members -/

namespace Members

/-- A value that is put is the only new one. -/
theorem mem_of_mem_put {members : Members α} {name : String} {value : α} {pair : String × α}
    (h : pair ∈ members.put name value) : pair = (name, value) ∨ pair ∈ members := by
  induction members with
  | nil => exact .inl (List.mem_singleton.1 h)
  | cons first rest ih =>
    obtain ⟨key, old⟩ := first
    unfold put at h
    split at h
    · next hkey =>
      rcases List.mem_cons.1 h with rfl | h
      · exact .inl (by rw [hkey])
      · exact .inr (.tail _ h)
    · rcases List.mem_cons.1 h with rfl | h
      · exact .inr (.head _)
      · exact (ih h).imp_right (.tail _)

/-- What is found is there. -/
theorem mem_of_find? {members : Members α} {name : String} {value : α}
    (h : members.find? name = some value) : (name, value) ∈ members := by
  obtain ⟨before, after, rfl, -⟩ := List.lookup_eq_some_iff.1 h
  exact List.mem_append_right _ List.mem_cons_self

/-- Names stay distinct. -/
theorem nodup_put {members : Members α} (h : members.names.Nodup) (name : String) (value : α) :
    (members.put name value).names.Nodup := by
  induction members with
  | nil => exact List.nodup_singleton name
  | cons first rest ih =>
    obtain ⟨key, old⟩ := first
    obtain ⟨hkey, hrest⟩ := List.nodup_cons.1 h
    unfold put
    split
    · exact h
    · next hne =>
      refine List.nodup_cons.2 ⟨fun hmem => ?_, ih hrest⟩
      obtain ⟨pair, hpair, hfst⟩ := List.mem_map.1 hmem
      rcases mem_of_mem_put hpair with rfl | hpair
      · exact hne hfst.symm
      · exact hkey (List.mem_map.2 ⟨pair, hpair, hfst⟩)

end Members

/-! ### Records -/

/-- A value that was read for a field, or stands for it where it is missing. -/
def Field.Gives (field : Field ν β) (value : β) : Prop :=
  (∃ raw, field.read raw = .ok value) ∨ field.absent? = some value ∨ field.omitted? = some value

namespace Fields

/-- A record of values of the fields. -/
def Gives : {α : Type} → Fields ν α → α → Prop
  | _, .done value, result => result = value
  | _, .and before field slot, result => ∃ build value, before.Gives build ∧
      (slot = some value ∨ field.Gives value) ∧ result = build value

section Declaring

variable {name : String} {read : ν → Reading β} {result : α}

theorem gives_required_iff {before : Fields ν (β → α)} :
    (before.required name read).Gives result ↔
      ∃ build, before.Gives build ∧ ∃ raw value, read raw = .ok value ∧ result = build value := by
  constructor
  · rintro ⟨build, value, hbuild, hslot | ⟨raw, hread⟩ | habsent | homitted, rfl⟩
    · exact absurd hslot (by simp)
    · exact ⟨build, hbuild, raw, value, hread, rfl⟩
    · exact absurd habsent (by simp)
    · exact absurd homitted (by simp)
  · rintro ⟨build, hbuild, raw, value, hread, rfl⟩
    exact ⟨build, value, hbuild, .inr (.inl ⟨raw, hread⟩), rfl⟩

theorem gives_default_iff {before : Fields ν (β → α)} {missing : β} :
    (before.default name read missing).Gives result ↔
      ∃ build, before.Gives build ∧
        ∃ value, ((∃ raw, read raw = .ok value) ∨ value = missing) ∧ result = build value := by
  constructor
  · rintro ⟨build, value, hbuild, hslot | hread | habsent | homitted, rfl⟩
    · exact absurd hslot (by simp)
    · exact ⟨build, hbuild, value, .inl hread, rfl⟩
    · exact ⟨build, hbuild, value, .inr (Option.some.inj habsent).symm, rfl⟩
    · exact ⟨build, hbuild, value, .inr (Option.some.inj homitted).symm, rfl⟩
  · rintro ⟨build, hbuild, value, hread | rfl, rfl⟩
    · exact ⟨build, value, hbuild, .inr (.inl hread), rfl⟩
    · exact ⟨build, value, hbuild, .inr (.inr (.inl rfl)), rfl⟩

end Declaring

/-- Something holds of a record with whatever values. -/
def Always : {α : Type} → Fields ν α → (α → Prop) → Prop
  | _, .done value, P => P value
  | _, .and before _ _, P => before.Always fun build => ∀ value, P (build value)

theorem Always.of_gives {fields : Fields ν α} {P : α → Prop} (h : fields.Always P) {result : α}
    (hresult : fields.Gives result) : P result := by
  induction fields with
  | done value => exact hresult ▸ h
  | and before field slot ih =>
    obtain ⟨build, value, hbuild, -, rfl⟩ := hresult
    exact ih h hbuild value

theorem gives_of_take {fields next : Fields ν α} {key : String} {value : ν}
    (h : fields.take key value = .ok next) {result : α} (hnext : next.Gives result) :
    fields.Gives result := by
  induction fields with
  | done value =>
    obtain rfl := Except.ok.inj h
    exact hnext
  | and before field slot ih =>
    unfold take at h
    split at h
    · split at h
      · exact absurd h (by simp)
      · split at h
        · next hread =>
          obtain rfl := Except.ok.inj h
          obtain ⟨build, v, hbuild, hvalue, rfl⟩ := hnext
          refine ⟨build, v, hbuild, .inr ?_, rfl⟩
          rcases hvalue with hslot | hvalue
          · obtain rfl := Option.some.inj hslot
            exact .inl ⟨value, hread⟩
          · exact hvalue
        · exact absurd h (by simp)
    · split at h
      · next hbefore =>
        obtain rfl := Except.ok.inj h
        obtain ⟨build, v, hbuild, hvalue, rfl⟩ := hnext
        exact ⟨build, v, ih hbefore hbuild, hvalue, rfl⟩
      · exact absurd h (by simp)

theorem gives_of_finish {fields : Fields ν α} {result : α} (h : fields.finish = .ok result) :
    fields.Gives result := by
  induction fields with
  | done value => exact (Except.ok.inj h).symm
  | and before field slot ih =>
    unfold finish at h
    split at h
    · exact absurd h (by simp)
    · next build hbuild =>
      split at h
      · next v hvalue =>
        refine ⟨build, v, ih hbuild, ?_, (Except.ok.inj h).symm⟩
        cases slot with
        | none => exact .inr (.inr (.inl hvalue))
        | some w => exact .inl hvalue
      · exact absurd h (by simp)

theorem gives_of_fromMembers {fields : Fields ν α} {members : List (String × ν)} {result : α}
    (h : fields.fromMembers members = .ok result) : fields.Gives result := by
  induction members generalizing fields with
  | nil => exact gives_of_finish h
  | cons first rest ih =>
    obtain ⟨key, value⟩ := first
    unfold fromMembers at h
    split at h
    · next htake => exact gives_of_take htake (ih h)
    · exact absurd h (by simp)

theorem gives_of_fromKeys {fields : Fields Outline α} {stop : Option Breach}
    {members : List (Key × Outline)} {result : α}
    (h : fields.fromKeys stop members = .ok result) : fields.Gives result := by
  induction members generalizing fields with
  | nil =>
    unfold fromKeys at h
    split at h
    · exact gives_of_finish h
    · exact absurd h (by simp)
  | cons first rest ih =>
    obtain ⟨key, value⟩ := first
    cases key with
    | broken b => exact absurd h (by simp [fromKeys])
    | name key =>
      unfold fromKeys at h
      split at h
      · next htake => exact gives_of_take htake (ih h)
      · exact absurd h (by simp)

theorem gives_of_takeItems {fields : Fields ν α} {stop : Option Breach} {items rest : List ν}
    {result : α} (h : fields.takeItems stop items = .ok (result, rest)) : fields.Gives result := by
  induction fields generalizing rest with
  | done value =>
    obtain ⟨rfl, -⟩ := Prod.mk.inj (Except.ok.inj h)
    rfl
  | and before field slot ih =>
    unfold takeItems at h
    split at h
    · exact absurd h (by simp)
    · next build item others hbefore =>
      cases hread : field.read item with
      | error fault => exact absurd h (by simp [hread, Except.map])
      | ok v =>
        rw [hread] at h
        obtain ⟨rfl, -⟩ := Prod.mk.inj (Except.ok.inj h)
        exact ⟨build, v, ih hbefore, .inr (.inl ⟨item, hread⟩), rfl⟩
    · next build hbefore =>
      split at h
      · exact absurd h (by simp)
      · next v homitted =>
        obtain ⟨rfl, -⟩ := Prod.mk.inj (Except.ok.inj h)
        exact ⟨build, v, ih hbefore, .inr (.inr (.inr homitted)), rfl⟩
      · exact absurd h (by simp)

theorem gives_of_fromItems {fields : Fields ν α} {stop : Option Breach} {excess : Fault}
    {items : List ν} {result : α} (h : fields.fromItems stop excess items = .ok result) :
    fields.Gives result := by
  unfold fromItems at h
  split at h
  · exact absurd h (by simp)
  · exact absurd h (by simp)
  · next htake =>
    cases stop with
    | none =>
      obtain rfl := Except.ok.inj h
      exact gives_of_takeItems htake
    | some b => exact absurd h (by simp [Outline.stopped])

/-- **A record that is read from a value is one of its fields.** -/
theorem gives_of_fromJson {fields : Fields Json α} {value : Json} {result : α}
    (h : fields.fromJson value = .ok result) : fields.Gives result := by
  cases value with
  | object members => exact gives_of_fromMembers h
  | array items => exact gives_of_fromItems h
  | null | bool | number | text => exact absurd h (by simp [fromJson])

/-- **A record that is read straight from a text is one of its fields.** -/
theorem gives_of_fromOutline {fields : Fields Outline α} {outline : Outline} {result : α}
    (h : fields.fromOutline outline = .ok result) : fields.Gives result := by
  cases outline with
  | object members stop => exact gives_of_fromKeys h
  | array items stop => exact gives_of_fromItems h
  | null | bool | number | text | unreadable => exact absurd h (by simp [fromOutline])

end Fields

/-! ### Choices -/

namespace Choice

theorem mem_of_ofName {forms : List (String × Fields ν α)} {name : String} {fields : Fields ν α}
    (h : ofName forms name = .ok fields) : ∃ form ∈ forms, form.2 = fields := by
  unfold ofName at h
  split at h
  · next hlookup =>
    obtain rfl := Except.ok.inj h
    obtain ⟨before, after, rfl, -⟩ := List.lookup_eq_some_iff.1 hlookup
    exact ⟨_, List.mem_append_right _ List.mem_cons_self, rfl⟩
  · exact absurd h (by simp)

/-- A tag names one of the forms. -/
theorem mem_of_readTag {tagForm : TagForm} {forms : List (String × Fields ν α)} {value : Json}
    {fields : Fields ν α} (h : readTag tagForm forms value = .ok fields) :
    ∃ form ∈ forms, form.2 = fields := by
  unfold readTag at h
  split at h
  · exact mem_of_ofName h
  · split at h
    · split at h
      · next form hform =>
        exact ⟨form, List.mem_of_getElem? hform, Except.ok.inj h⟩
      · exact absurd h (by simp)
    · exact absurd h (by simp)
  · exact absurd h (by simp)

theorem mem_of_splitMembers {tagForm : TagForm} {forms : List (String × Fields Json α)}
    {found : Option (Fields Json α)} (hfound : ∀ fields ∈ found, ∃ form ∈ forms, form.2 = fields)
    {others members rest : List (String × Json)} {fields : Fields Json α}
    (h : splitMembers (readTag tagForm forms) found others members = .ok (fields, rest)) :
    ∃ form ∈ forms, form.2 = fields := by
  induction members generalizing found others with
  | nil =>
    unfold splitMembers at h
    split at h
    · obtain ⟨rfl, -⟩ := Prod.mk.inj (Except.ok.inj h)
      exact hfound _ rfl
    · exact absurd h (by simp)
  | cons first members ih =>
    obtain ⟨key, value⟩ := first
    unfold splitMembers at h
    split at h
    · split at h
      · exact absurd h (by simp)
      · split at h
        · next hread =>
          refine ih (fun fields hmem => ?_) h
          obtain rfl := Option.some.inj hmem
          exact mem_of_readTag hread
        · exact absurd h (by simp)
    · exact ih hfound h

/-- **A record that a tag names is one of the fields of a form.** -/
theorem gives_of_tagged {tagForm : TagForm} {forms : List (String × Fields Json α)} {value : Json}
    {result : α} (h : tagged tagForm forms value = .ok result) :
    ∃ form ∈ forms, form.2.Gives result := by
  cases value with
  | object members =>
    dsimp only [tagged, taggedMembers] at h
    split at h
    · next hsplit =>
      obtain ⟨form, hform, rfl⟩ := mem_of_splitMembers (by simp) hsplit
      exact ⟨form, hform, Fields.gives_of_fromMembers h⟩
    · exact absurd h (by simp)
  | array items =>
    cases items with
    | nil => exact absurd h (by simp [tagged, taggedItems])
    | cons first rest =>
      dsimp only [tagged, taggedItems] at h
      split at h
      · next htag =>
        obtain ⟨form, hform, rfl⟩ := mem_of_readTag htag
        exact ⟨form, hform, Fields.gives_of_fromItems h⟩
      · exact absurd h (by simp)
  | null | bool | number | text => exact absurd h (by simp [tagged])

end Choice

/-! ### Lists and members -/

theorem Reading.handOn_eq_ok_iff {reading : Reading α} {value : α} :
    reading.handOn = .ok value ↔ reading = .ok value := by
  cases reading <;> simp [handOn]

/-- What is there is read. -/
theorem Json.asOption_eq_ok {read : Json → Reading α} {value : Json} {result : α}
    (h : asOption read value = .ok (some result)) : read value = .ok result := by
  unfold asOption at h
  split at h
  · exact absurd h (by simp)
  · cases hread : read value with
    | error fault => exact absurd h (by simp [hread, Except.map])
    | ok v =>
      rw [hread] at h
      exact congrArg _ (Option.some.inj (Except.ok.inj h))

/-- What is there is read. -/
theorem Outline.asOption_eq_ok {read : Outline → Reading α} {outline : Outline} {result : α}
    (h : asOption read outline = .ok (some result)) : read outline = .ok result := by
  unfold asOption at h
  split at h
  · exact absurd h (by simp)
  · cases hread : read outline with
    | error fault => exact absurd h (by simp [hread, Except.map])
    | ok v =>
      rw [hread] at h
      exact congrArg _ (Option.some.inj (Except.ok.inj h))

theorem Json.readItems_eq_ok {read : Json → Reading α} {done results : List α} {items : List Json}
    (h : readItems read done items = .ok results) :
    ∀ result ∈ results, result ∈ done ∨ ∃ item, read item = .ok result := by
  induction items generalizing done with
  | nil =>
    obtain rfl := Except.ok.inj h
    exact fun result hmem => .inl (List.mem_reverse.1 hmem)
  | cons first rest ih =>
    unfold readItems at h
    split at h
    · next v hread =>
      intro result hmem
      rcases ih h result hmem with hdone | hitem
      · rcases List.mem_cons.1 hdone with rfl | hdone
        · exact .inr ⟨first, hread⟩
        · exact .inl hdone
      · exact .inr hitem
    · exact absurd h (by simp)

theorem Json.readMembers_eq_ok {read : Json → Reading α} {done results : Members α}
    {members : List (String × Json)} (h : readMembers read done members = .ok results)
    (hdone : done.names.Nodup) :
    results.names.Nodup ∧
      ∀ result ∈ results, result ∈ done ∨ ∃ value, read value = .ok result.2 := by
  induction members generalizing done with
  | nil =>
    obtain rfl := Except.ok.inj h
    exact ⟨hdone, fun result hmem => .inl hmem⟩
  | cons first rest ih =>
    obtain ⟨key, value⟩ := first
    unfold readMembers at h
    split at h
    · next v hread =>
      obtain ⟨hnodup, hresults⟩ := ih h (Members.nodup_put hdone key v)
      refine ⟨hnodup, fun result hmem => ?_⟩
      rcases hresults result hmem with hput | hvalue
      · rcases Members.mem_of_mem_put hput with rfl | hdone
        · exact .inr ⟨value, hread⟩
        · exact .inl hdone
      · exact .inr hvalue
    · exact absurd h (by simp)

/-- **The names of the members of an object are distinct.** -/
theorem Json.asMap_eq_ok {read : Json → Reading α} {value : Json} {results : Members α}
    (h : asMap read value = .ok results) :
    results.names.Nodup ∧ ∀ result ∈ results, ∃ value, read value = .ok result.2 := by
  cases value with
  | object members =>
    obtain ⟨hnodup, hresults⟩ := readMembers_eq_ok h .nil
    refine ⟨hnodup, fun result hmem => ?_⟩
    exact (hresults result hmem).resolve_left List.not_mem_nil
  | null | bool | number | text | array => exact absurd h (by simp [asMap])

theorem Outline.nodup_of_readMembers {read : Outline → Reading α} {stop : Option Breach}
    {done results : Members α} {members : List (Key × Outline)}
    (h : readMembers read stop done members = .ok results) (hdone : done.names.Nodup) :
    results.names.Nodup := by
  induction members generalizing done with
  | nil =>
    cases stop with
    | none =>
      obtain rfl := Except.ok.inj h
      exact hdone
    | some b => exact absurd h (by simp [readMembers, stopped])
  | cons first rest ih =>
    obtain ⟨key, value⟩ := first
    cases key with
    | broken b => exact absurd h (by simp [readMembers])
    | name key =>
      unfold readMembers at h
      split at h
      · next v hread => exact ih h (Members.nodup_put hdone key v)
      · exact absurd h (by simp)

/-- **The names of the members of an object are distinct.** -/
theorem Outline.nodup_of_asMap {read : Outline → Reading α} {outline : Outline}
    {results : Members α} (h : asMap read outline = .ok results) : results.names.Nodup := by
  cases outline with
  | object members stop => exact nodup_of_readMembers h .nil
  | null | bool | number | text | array | unreadable => exact absurd h (by simp [asMap])

theorem Outline.readItems_eq_ok {read : Outline → Reading α} {stop : Option Breach}
    {done results : List α} {items : List Outline}
    (h : readItems read stop done items = .ok results) :
    ∀ result ∈ results, result ∈ done ∨ ∃ item, read item = .ok result := by
  induction items generalizing done with
  | nil =>
    cases stop with
    | none =>
      obtain rfl := Except.ok.inj h
      exact fun result hmem => .inl (List.mem_reverse.1 hmem)
    | some b => exact absurd h (by simp [readItems, stopped])
  | cons first rest ih =>
    unfold readItems at h
    split at h
    · next v hread =>
      intro result hmem
      rcases ih h result hmem with hdone | hitem
      · rcases List.mem_cons.1 hdone with rfl | hdone
        · exact .inr ⟨first, hread⟩
        · exact .inl hdone
      · exact .inr hitem
    · exact absurd h (by simp)

theorem Outline.asList_eq_ok {read : Outline → Reading α} {outline : Outline} {results : List α}
    (h : asList read outline = .ok results) :
    ∀ result ∈ results, ∃ item, read item = .ok result := by
  cases outline with
  | array items stop =>
    intro result hmem
    exact (readItems_eq_ok h result hmem).resolve_left List.not_mem_nil
  | null | bool | number | text | object | unreadable => exact absurd h (by simp [asList])

/-- What stands in a list of one or many was read. -/
theorem oneOrMany_eq_ok {read : Json → Reading α} {value : Json} {results : List α}
    (h : oneOrMany read value = .ok results) :
    ∀ result ∈ results, ∃ item, read item = .ok result := by
  unfold oneOrMany at h
  split at h
  · next items =>
    intro result hmem
    have hread := Json.readItems_eq_ok (Reading.handOn_eq_ok_iff.1 h) result hmem
    exact hread.resolve_left List.not_mem_nil
  · next members =>
    cases hread : read (.object members) with
    | error fault => exact absurd h (by simp [hread, Except.map, Reading.handOn])
    | ok v =>
      rw [hread] at h
      obtain rfl := Except.ok.inj h
      intro result hmem
      obtain rfl := List.mem_singleton.1 hmem
      exact ⟨_, hread⟩
  · exact absurd h (by simp)

end Timepiece
