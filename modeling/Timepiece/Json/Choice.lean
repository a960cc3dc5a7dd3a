import Timepiece.Json.Record

/-!
# Choices among named forms

Where a document may hold one of several forms, the form is named: by a text, or
by the member `type` of the object that holds the rest.  The name is looked for
first, wherever it stands.

## Main definitions

* `Choice.ofName` — one of several values that have nothing but a name.
* `Choice.tagged`, `Choice.taggedOutline` — one of several records, named by
  `type`.
-/

namespace Timepiece.Choice

universe u

/-! ### Names -/

/-- Looks a name up. -/
def ofName {α : Type u} (forms : List (String × α)) (name : String) : Except Fault α :=
  match forms.lookup name with
  | some form => .ok form
  | none => .error (.unknownVariant name (forms.map Prod.fst))

/-- One of several names, written as a text or as an object whose only member has
that name and is empty. -/
def ofJson {α : Type} (forms : List (String × α)) : Json → Reading α
  | .text name => ofName forms name
  | .object [(name, value)] =>
    match ofName forms name, value with
    | .error fault, _ => .error fault
    | .ok form, .null => .ok form
    | .ok form, .object [] => .ok form
    | .ok _, _ => .error .mismatch
  | _ => .error .mismatch

/-- The empty value of the only member of an object that stands for a name. -/
def emptyMember {α : Type} (form : α) (stop : Option Breach) (rest : List (Key × Outline)) :
    Outline → Reading α
  | .null => if rest.isEmpty then Outline.stopped stop form else .error (.breach .malformed)
  | .unreadable b => .error (.breach b)
  | _ => .error .mismatch

/-- One of several names, straight from the text.  Here a value of another kind
counts as malformed, even one that is cut short. -/
def ofOutline {α : Type} (forms : List (String × α)) : Outline → Reading α
  | .text name => ofName forms name
  | .object [] stop => .error (.breach (stop.getD .malformed))
  | .object ((.name name, value) :: rest) stop =>
    match ofName forms name with
    | .error fault => .error fault
    | .ok form => emptyMember form stop rest value
  | .object ((.broken b, _) :: _) _ => .error (.breach b)
  | .unreadable .ended => .error (.breach .ended)
  | _ => .error (.breach .malformed)

/-! ### Records named by `type` -/

/-- The member that names the form. -/
def tag : String := "type"

/-- How the name of a form may be given. -/
inductive TagForm where
  /-- By its text. -/
  | name
  /-- By its text or by its position among the forms. -/
  | nameOrPosition

/-- The form that a tag names. -/
def readTag {α : Type u} (tagForm : TagForm) (forms : List (String × α)) : Json → Except Fault α
  | .text name => ofName forms name
  | .number (.integer n) =>
    match tagForm, n with
    | .nameOrPosition, .ofNat n =>
      match forms[n]? with
      | some form => .ok form.2
      | none => .error .mismatch
    | _, _ => .error .mismatch
  | _ => .error .mismatch

/-- Looks for the tag among the members of an object.  The others, with those
already passed, which are kept in reverse, stay in their order. -/
def splitMembers {α : Type u} (readTag : Json → Except Fault α) (found : Option α)
    (others : List (String × Json)) :
    List (String × Json) → Except Fault (α × List (String × Json))
  | [] =>
    match found with
    | some form => .ok (form, others.reverse)
    | none => .error (.missingField tag)
  | (key, value) :: rest =>
    if key = tag then
      match found with
      | some _ => .error (.duplicateField tag)
      | none =>
        match readTag value with
        | .ok form => splitMembers readTag (some form) others rest
        | .error fault => .error fault
    else splitMembers readTag found ((key, value) :: others) rest

/-- Looks for the tag among the members of an object as they stand in the text;
the others are taken in as a whole. -/
def splitKeys {α : Type u} (readTag : Json → Except Fault α) (stop : Option Breach)
    (found : Option α) (others : List (String × Json)) :
    List (Key × Outline) → Except Fault (α × List (String × Json))
  | [] =>
    match stop, found with
    | some b, _ => .error (.breach b)
    | none, some form => .ok (form, others.reverse)
    | none, none => .error (.missingField tag)
  | (.broken b, _) :: _ => .error (.breach b)
  | (.name key, outline) :: rest =>
    if key = tag then
      match found with
      | some _ => .error (.duplicateField tag)
      | none =>
        match outline with
        | .array _ _ => .error .mismatch
        | .object _ _ => .error .mismatch
        | outline =>
          match outline.value with
          | .error fault => .error fault
          | .ok value =>
            match readTag value with
            | .ok form => splitKeys readTag stop (some form) others rest
            | .error fault => .error fault
    else
      match outline.value with
      | .ok value => splitKeys readTag stop found ((key, value) :: others) rest
      | .error fault => .error fault

/-- One of several records, from the members of an object. -/
def taggedMembers {α : Type} (tagForm : TagForm) (forms : List (String × Fields Json α))
    (members : List (String × Json)) : Reading α :=
  match splitMembers (readTag tagForm forms) none [] members with
  | .ok (fields, others) => fields.fromMembers others
  | .error fault => .error fault

/-- One of several records, from the items of an array, of which the first is the
tag. -/
def taggedItems {α : Type} (tagForm : TagForm) (forms : List (String × Fields Json α)) :
    List Json → Reading α
  | [] => .error (.missingField tag)
  | first :: rest =>
    match readTag tagForm forms first with
    | .ok fields => fields.fromItems none .mismatch rest
    | .error fault => .error fault

/-- One of several records, from a whole value. -/
def tagged {α : Type} (tagForm : TagForm) (forms : List (String × Fields Json α)) :
    Json → Reading α
  | .object members => taggedMembers tagForm forms members
  | .array items => taggedItems tagForm forms items
  | _ => .error .mismatch

/-- One of several records, straight from the text. -/
def taggedOutline {α : Type} (forms : List (String × Fields Json α)) : Outline → Reading α
  | .object members stop =>
    match splitKeys (readTag .name forms) stop none [] members with
    | .ok (fields, others) => fields.fromMembers others
    | .error fault => .error fault
  | .array [] stop =>
    match stop with
    | some b => .error (.breach b)
    | none => .error (.missingField tag)
  | .array (first :: rest) stop =>
    match first with
    | .array _ _ => .error .mismatch
    | .object _ _ => .error .mismatch
    | first =>
      match first.value with
      | .error fault => .error fault
      | .ok value =>
        match readTag .name forms value with
        | .error fault => .error fault
        | .ok fields =>
          match Outline.itemValues stop [] rest with
          | .ok items => fields.fromItems none .mismatch items
          | .error fault => .error fault
  | .unreadable b => .error (.breach b)
  | _ => .error .mismatch

end Timepiece.Choice
