import Mathlib
import Timepiece.Proofs.Json.Outcomes

/-!
# Records that are read

A record is read from the members of an object if and only if every field has a value: the one that
its reader gives for the member of its name, or what stands for it where there is none.  The order
of the members makes no difference, and neither do members that belong to no field.

## Main definitions

* `Field.Holds`, `Fields.Holds` — the value of a field, and the record, that members hold.

## Main results

* `Fields.fromMembers_eq_ok_iff` — **what is read of members is the record that they hold.**
* `Json.asOption_eq_ok_some_iff`, `Json.asOption_eq_ok_none_iff` — values that may be `null`.
-/

namespace Timepiece

variable {α β ν : Type}

/-- The value that members hold for a field, of which something may have been read already.  A
field that was read may not stand among the members once more. -/
def Field.Holds (field : Field ν β) (slot : Option β) (members : List (String × ν)) (value : β) :
    Prop :=
  match slot, members.lookup field.name with
  | none, some raw => field.read raw = .ok value
  | none, none => field.absent? = some value
  | some v, none => v = value
  | some _, some _ => False

namespace Fields

/-- The names of the fields. -/
def names {α : Type} : Fields ν α → List String
  | .done _ => []
  | .and before field _ => field.name :: before.names

/-- The record that members hold, with what was already read of it. -/
def Holds : {α : Type} → Fields ν α → List (String × ν) → α → Prop
  | _, .done value, _, result => value = result
  | _, .and before field slot, members, result => ∃ build value, before.Holds members build ∧
      field.Holds slot members value ∧ build value = result

variable {fields next : Fields ν α} {key : String} {raw : ν} {members : List (String × ν)}
  {result : α}

/-! ### At the end of the members -/

theorem finish_eq_ok_iff : fields.finish = .ok result ↔ fields.Holds [] result := by
  induction fields with
  | done value => exact ⟨Except.ok.inj, congrArg _⟩
  | and before field slot ih =>
    have hslot : ∀ value, field.Holds slot [] value ↔ slot.or field.absent? = some value := by
      intro value
      cases slot with
      | none => rfl
      | some v => exact Option.some_inj.symm
    simp only [Holds, hslot, ← ih, finish]
    cases before.finish with
    | error fault => simp
    | ok build =>
      cases slot.or field.absent? with
      | none => simp
      | some value => simp

/-! ### One member after the other -/

theorem names_take (h : fields.take key raw = .ok next) : next.names = fields.names := by
  induction fields with
  | done value =>
    obtain rfl := Except.ok.inj h
    rfl
  | and before field slot ih =>
    unfold take at h
    split at h
    · split at h
      · cases h
      · split at h
        · obtain rfl := Except.ok.inj h
          rfl
        · cases h
    · split at h
      · next hbefore =>
        obtain rfl := Except.ok.inj h
        exact congrArg (List.cons field.name) (ih hbefore)
      · cases h

/-- A member that belongs to no field makes no difference. -/
theorem holds_cons_of_not_mem (h : key ∉ fields.names) :
    fields.Holds ((key, raw) :: members) result ↔ fields.Holds members result := by
  induction fields with
  | done value => rfl
  | and before field slot ih =>
    have hne : field.name ≠ key := fun heq => h (heq ▸ List.mem_cons_self)
    have hbefore : key ∉ before.names := fun hmem => h (List.mem_cons_of_mem _ hmem)
    simp only [Holds, Field.Holds, List.lookup_cons, beq_eq_false_iff_ne.2 hne, ih hbefore]

/-- Members hold a record if and only if the first one can be taken in and the others hold what is
then left of it. -/
theorem holds_cons_iff (hnames : fields.names.Nodup) (hkey : members.lookup key = none) :
    fields.Holds ((key, raw) :: members) result ↔
      ∃ next, fields.take key raw = .ok next ∧ next.Holds members result := by
  induction fields with
  | done value => simp [take, Holds]
  | and before field slot ih =>
    obtain ⟨hfield, hbefore⟩ := List.nodup_cons.1 hnames
    by_cases heq : key = field.name
    · -- the fields before this one have other names
      subst heq
      have hskip : ∀ build, before.Holds ((field.name, raw) :: members) build ↔
          before.Holds members build := fun _ => holds_cons_of_not_mem hfield
      simp only [Holds, Field.Holds, List.lookup_cons, beq_self_eq_true, hskip, take, if_pos]
      cases slot with
      | some v => simp
      | none =>
        cases hread : field.read raw with
        | error fault => simp [hread]
        | ok v => simp [Holds, Field.Holds, hkey, hread]
    · have hne : (field.name == key) = false := beq_eq_false_iff_ne.2 (Ne.symm heq)
      simp only [Holds, Field.Holds, List.lookup_cons, hne, take, if_neg heq, ih hbefore]
      cases before.take key raw with
      | error fault => simp
      | ok next => simp [Holds, Field.Holds]

/-- **What is read of members is the record that they hold.** -/
theorem fromMembers_eq_ok_iff (hnames : fields.names.Nodup)
    (hmembers : (members.map Prod.fst).Nodup) :
    fields.fromMembers members = .ok result ↔ fields.Holds members result := by
  induction members generalizing fields with
  | nil => exact finish_eq_ok_iff
  | cons first rest ih =>
    obtain ⟨key, raw⟩ := first
    obtain ⟨hkey, hrest⟩ := List.nodup_cons.1 hmembers
    have hlookup : rest.lookup key = none := by
      rw [List.lookup_eq_none_iff]
      intro member hmember
      exact bne_iff_ne.2 fun heq => hkey (List.mem_map.2 ⟨member, hmember, heq.symm⟩)
    rw [holds_cons_iff hnames hlookup, fromMembers]
    cases htake : fields.take key raw with
    | error fault => simp
    | ok next =>
      have hnext := ih ((names_take htake).symm ▸ hnames) hrest
      simp [hnext]

end Fields

/-! ### Values that may be missing -/

namespace Json

variable {read : Json → Reading α} {value : Json}

theorem asOption_eq_ok_none_iff : asOption read value = .ok none ↔ value = .null := by
  cases value with
  | null => simp [asOption]
  | bool | number | text | array | object =>
    simp only [asOption, reduceCtorEq, iff_false]
    cases read _ with
    | error fault => simp [Except.map]
    | ok v => simp [Except.map]

theorem asOption_eq_ok_some_iff {v : α} (hnull : ∀ v, read .null ≠ .ok v) :
    asOption read value = .ok (some v) ↔ read value = .ok v := by
  constructor
  · exact asOption_eq_ok
  · intro hread
    cases value with
    | null => exact absurd hread (hnull v)
    | bool | number | text | array | object =>
      rw [asOption, hread]
      · rfl
      · simp

end Json

end Timepiece
