import Timepiece.Json.Reader

/-!
# Records

A record is written as an object whose keys are the names of its fields, or as
an array of its fields in the order in which they are declared.  Unknown keys are
skipped; a known key may stand only once; the fields that are still missing at
the end are reported in the order of their declaration.

## Main definitions

* `Field` — a name, how its value is read, and what stands for it if it is
  missing.
* `Fields` — the fields of a record, with what was already read of them.
* `Fields.fromMembers`, `Fields.fromItems` — the two forms of a record.
* `Fields.fromJson`, `Fields.fromOutline` — a record from a whole value or
  straight from the text.
-/

namespace Timepiece

/-- A field of a record. -/
structure Field (ν β : Type) where
  name : String
  read : ν → Reading β
  /-- What stands for the field if an object lacks it. -/
  absent? : Option β
  /-- What stands for the field if an array is too short for it. -/
  omitted? : Option β

/-- The fields of a record in the order of their declaration, each with what was
already read of it. -/
inductive Fields (ν : Type) : Type → Type 1 where
  | done {α : Type} (value : α) : Fields ν α
  | and {α β : Type} (before : Fields ν (β → α)) (field : Field ν β) (slot : Option β) :
    Fields ν α

namespace Fields

variable {ν α β : Type}

/-! ### Declaring fields -/

/-- A field that must be there. -/
def required (before : Fields ν (β → α)) (name : String) (read : ν → Reading β) : Fields ν α :=
  .and before ⟨name, read, none, none⟩ none

/-- A field that has a value of its own if it is missing. -/
def default (before : Fields ν (β → α)) (name : String) (read : ν → Reading β) (value : β) :
    Fields ν α :=
  .and before ⟨name, read, some value, some value⟩ none

/-- A field that may be missing in an object, though not in an array. -/
def optional (before : Fields ν (Option β → α)) (name : String)
    (read : ν → Reading (Option β)) : Fields ν α :=
  .and before ⟨name, read, some none, none⟩ none

/-! ### Objects -/

/-- Reads the value of a key, if it is that of a field. -/
def take {α : Type} : Fields ν α → (key : String) → (value : ν) → Except Fault (Fields ν α)
  | .done result, _, _ => .ok (.done result)
  | .and before field slot, key, value =>
    if key = field.name then
      match slot with
      | some _ => .error (.duplicateField key)
      | none =>
        match field.read value with
        | .ok v => .ok (.and before field (some v))
        | .error fault => .error fault
    else
      match before.take key value with
      | .ok before => .ok (.and before field slot)
      | .error fault => .error fault

/-- The record, once all keys have been read. -/
def finish {α : Type} : Fields ν α → Reading α
  | .done result => .ok result
  | .and before field slot =>
    match before.finish with
    | .error fault => .error fault
    | .ok build =>
      match slot.or field.absent? with
      | some v => .ok (build v)
      | none => .error (.missingField field.name)

/-- A record from the members of an object. -/
def fromMembers (fields : Fields ν α) : List (String × ν) → Reading α
  | [] => fields.finish
  | (key, value) :: rest =>
    match fields.take key value with
    | .ok fields => fields.fromMembers rest
    | .error fault => .error fault

/-- A record from the members of an object as they stand in the text. -/
def fromKeys (stop : Option Breach) (fields : Fields Outline α) :
    List (Key × Outline) → Reading α
  | [] =>
    match stop with
    | none => fields.finish
    | some b => .error (.breach b)
  | (.broken b, _) :: _ => .error (.breach b)
  | (.name key, value) :: rest =>
    match fields.take key value with
    | .ok fields => fields.fromKeys stop rest
    | .error fault => .error fault

/-! ### Arrays -/

/-- Reads the fields from the first items of an array and returns the others.  An
array that breaks off cannot do without a field. -/
def takeItems {α : Type} (stop : Option Breach) : Fields ν α → List ν → Reading (α × List ν)
  | .done result, items => .ok (result, items)
  | .and before field _, items =>
    match before.takeItems stop items with
    | .error fault => .error fault
    | .ok (build, item :: rest) => (field.read item).map fun v => (build v, rest)
    | .ok (build, []) =>
      match stop, field.omitted? with
      | some b, _ => .error (.breach b)
      | none, some v => .ok (build v, [])
      | none, none => .error .mismatch

/-- A record from the items of an array.  What to say of items that are left over
depends on where the array comes from. -/
def fromItems (stop : Option Breach) (excess : Fault) (fields : Fields ν α) (items : List ν) :
    Reading α :=
  match fields.takeItems stop items with
  | .error fault => .error fault
  | .ok (_, _ :: _) => .error excess
  | .ok (value, []) => Outline.stopped stop value

/-! ### Whole records -/

/-- A record from a whole value. -/
def fromJson (fields : Fields Json α) : Json → Reading α
  | .object members => fields.fromMembers members
  | .array items => fields.fromItems none .mismatch items
  | _ => .error .mismatch

/-- A record straight from the text. -/
def fromOutline (fields : Fields Outline α) : Outline → Reading α
  | .object members stop => fields.fromKeys stop members
  | .array items stop => fields.fromItems stop (.breach .malformed) items
  | .unreadable b => .error (.breach b)
  | _ => .error .mismatch

end Fields

end Timepiece
