import Mathlib
import Timepiece.Proofs.Json.Outlines
import Timepiece.Proofs.Json.Outcomes

/-!
# Readers that agree

Two readers agree on two values if they give the same, or refuse the values for the same reason.
Readers of what holds other values agree if the readers of these values do, item by item and member
by member.

## Main definitions

* `Reading.Both` — two readings that give related values, or fail for the same reason.
* `Fields.Agree` — two declarations of the same fields, whose readers agree on related values.
* `Placed` — two lists whose items are related place by place.

## Main results

* `Fields.Agree.fromMembers`, `Fields.Agree.fromItems` — **records agree if their fields do.**
* `Json.asMap_agree`, `oneOrMany_array` — members and items.
-/

namespace Timepiece

universe u v

variable {α β ν ν' : Type}

/-! ### Readings -/

/-- Two readings give related values, or fail for the same reason. -/
inductive Reading.Both {α : Type u} {β : Type v} (P : α → β → Prop) :
    Except Fault α → Except Fault β → Prop
  | ok {a : α} {b : β} : P a b → Both P (.ok a) (.ok b)
  | error (fault : Fault) : Both P (.error fault) (.error fault)

theorem Reading.Both.exists {α : Type u} {β : Type v} {P : α → β → Prop} {first : Except Fault α}
    {second : Except Fault β} (h : Both P first second) :
    (∃ a b, first = .ok a ∧ second = .ok b ∧ P a b) ∨
      ∃ fault, first = .error fault ∧ second = .error fault := by
  cases h with
  | ok h => exact .inl ⟨_, _, rfl, rfl, h⟩
  | error fault => exact .inr ⟨fault, rfl, rfl⟩

/-! ### Lists -/

/-- Two lists, the items of which are related to each other at their places. -/
inductive Placed (R : Nat → ν → ν' → Prop) : Nat → List ν → List ν' → Prop
  | nil {place : Nat} : Placed R place [] []
  | cons {place : Nat} {item : ν} {item' : ν'} {rest : List ν} {rest' : List ν'} :
    R place item item' → Placed R (place + 1) rest rest' →
    Placed R place (item :: rest) (item' :: rest')

/-- Places may be counted from another one. -/
theorem Placed.shift {R : Nat → ν → ν' → Prop} {offset place : Nat} {items : List ν}
    {items' : List ν'} (h : Placed R (place + offset) items items') :
    Placed (fun place => R (place + offset)) place items items' := by
  induction items generalizing place items' with
  | nil =>
    cases h
    exact .nil
  | cons item rest ih =>
    cases h with
    | cons hitem hrest => exact .cons hitem (ih (by rwa [Nat.add_right_comm] at hrest))

/-! ### Records -/

namespace Fields

/-- How many fields are declared. -/
def count {α : Type} : Fields ν α → Nat
  | .done _ => 0
  | .and before _ _ => before.count + 1

/-- The same fields are declared, and their readers agree on values that are related in the place
of the field or under its name. -/
inductive Agree (R : Nat → String → ν → ν' → Prop) :
    {α : Type} → Fields ν α → Fields ν' α → Prop
  | done {α : Type} (value : α) : Agree R (.done value) (.done value)
  | and {α β : Type} {before : Fields ν (β → α)} {before' : Fields ν' (β → α)} {name : String}
    {read : ν → Reading β} {read' : ν' → Reading β} {absent? omitted? slot : Option β} :
    Agree R before before' →
    (∀ a b, R before.count name a b → read a = read' b) →
    Agree R (.and before ⟨name, read, absent?, omitted?⟩ slot)
      (.and before' ⟨name, read', absent?, omitted?⟩ slot)

namespace Agree

variable {R : Nat → String → ν → ν' → Prop} {fields : Fields ν α} {fields' : Fields ν' α}

section Declaring

variable {name : String}

theorem required {before : Fields ν (β → α)} {before' : Fields ν' (β → α)}
    {read : ν → Reading β} {read' : ν' → Reading β} (h : Agree R before before')
    (hread : ∀ a b, R before.count name a b → read a = read' b) :
    Agree R (before.required name read) (before'.required name read') :=
  .and h hread

theorem default {before : Fields ν (β → α)} {before' : Fields ν' (β → α)}
    {read : ν → Reading β} {read' : ν' → Reading β} {missing : β} (h : Agree R before before')
    (hread : ∀ a b, R before.count name a b → read a = read' b) :
    Agree R (before.default name read missing) (before'.default name read' missing) :=
  .and h hread

theorem optional {before : Fields ν (Option β → α)} {before' : Fields ν' (Option β → α)}
    {read : ν → Reading (Option β)} {read' : ν' → Reading (Option β)} (h : Agree R before before')
    (hread : ∀ a b, R before.count name a b → read a = read' b) :
    Agree R (before.optional name read) (before'.optional name read') :=
  .and h hread

end Declaring

theorem take (h : Agree R fields fields') {key : String} {a : ν} {b : ν'}
    (hvalue : ∀ place, R place key a b) :
    Reading.Both (fun next next' => Agree R next next' ∧ next.count = fields.count)
      (fields.take key a) (fields'.take key b) := by
  induction h with
  | done value => exact .ok ⟨.done value, rfl⟩
  | @and _ _ before before' name read read' absent? omitted? slot hbefore hread ih =>
    unfold Fields.take
    dsimp only
    split
    · next hkey =>
      cases slot with
      | some v => exact .error _
      | none =>
        subst hkey
        dsimp only
        rw [hread a b (hvalue before.count)]
        cases read' b with
        | error fault => exact .error fault
        | ok v => exact .ok ⟨.and hbefore hread, rfl⟩
    · obtain ⟨next, next', htake, htake', hnext, hcount⟩ | ⟨fault, htake, htake'⟩ := ih.exists
      · rw [htake, htake']
        refine .ok ⟨.and hnext ?_, congrArg (· + 1) hcount⟩
        rwa [hcount]
      · rw [htake, htake']
        exact .error fault

theorem finish (h : Agree R fields fields') : fields.finish = fields'.finish := by
  induction h with
  | done value => rfl
  | and _ _ ih => simp only [Fields.finish, ih]

/-- **Records agree if their fields do.** -/
theorem fromMembers (h : Agree R fields fields') {members : List (String × ν)}
    {members' : List (String × ν')}
    (hmembers : List.Forall₂ (fun m m' => m.1 = m'.1 ∧ ∀ place, R place m.1 m.2 m'.2) members
      members') : fields.fromMembers members = fields'.fromMembers members' := by
  induction hmembers generalizing fields fields' with
  | nil => exact h.finish
  | @cons first first' rest rest' hfirst _ ih =>
    obtain ⟨key, value⟩ := first
    obtain ⟨key', value'⟩ := first'
    obtain ⟨hkey, hvalue⟩ := hfirst
    obtain rfl : key = key' := hkey
    unfold Fields.fromMembers
    obtain ⟨next, next', htake, htake', hnext, -⟩ | ⟨fault, htake, htake'⟩ :=
      (h.take hvalue).exists
    · rw [htake, htake']
      exact ih hnext
    · rw [htake, htake']

/-- The same is read of the first items, and the others are still related. -/
theorem takeItems {P : Nat → ν → ν' → Prop} (h : Agree R fields fields')
    (hplace : ∀ place name a b, P place a b → R place name a b) (stop : Option Breach)
    {items : List ν} {items' : List ν'} (hitems : Placed P 0 items items') :
    Reading.Both (fun taken taken' => taken.1 = taken'.1 ∧ Placed P fields.count taken.2 taken'.2)
      (fields.takeItems stop items) (fields'.takeItems stop items') := by
  induction h with
  | done value => exact .ok ⟨rfl, hitems⟩
  | @and _ _ before before' name read read' absent? omitted? slot hbefore hread ih =>
    unfold Fields.takeItems
    -- what is left of both arrays is empty, or begins with related items
    obtain ⟨⟨build, left⟩, ⟨build', left'⟩, htake, htake', hbuild, hleft⟩ |
      ⟨fault, htake, htake'⟩ := ih.exists
    · rw [htake, htake']
      obtain rfl : build = build' := hbuild
      dsimp only at hleft
      cases hleft with
      | nil =>
        dsimp only
        cases stop with
        | some b => exact .error _
        | none =>
          cases omitted? with
          | none => exact .error _
          | some v => exact .ok ⟨rfl, .nil⟩
      | @cons _ item item' rest rest' hitem hrest =>
        dsimp only
        rw [hread item item' (hplace _ name _ _ hitem)]
        cases read' item' with
        | error fault => exact .error fault
        | ok v => exact .ok ⟨rfl, hrest⟩
    · rw [htake, htake']
      exact .error fault

/-- **Records agree if their fields do**, also where they are written as arrays. -/
theorem fromItems {P : Nat → ν → ν' → Prop} (h : Agree R fields fields')
    (hplace : ∀ place name a b, P place a b → R place name a b) (stop : Option Breach)
    (excess : Fault) {items : List ν} {items' : List ν'} (hitems : Placed P 0 items items') :
    fields.fromItems stop excess items = fields'.fromItems stop excess items' := by
  unfold Fields.fromItems
  obtain ⟨⟨result, left⟩, ⟨result', left'⟩, htake, htake', hresult, hleft⟩ |
    ⟨fault, htake, htake'⟩ := (h.takeItems hplace stop hitems).exists
  · rw [htake, htake']
    obtain rfl : result = result' := hresult
    dsimp only at hleft
    cases hleft with
    | nil => rfl
    | cons _ _ => rfl
  · rw [htake, htake']

end Agree

end Fields

/-! ### Lists and members -/

namespace Json

variable {read read' : Json → Reading α}

theorem asOption_agree {a b : Json} (hnull : a = .null ↔ b = .null) (hread : read a = read' b) :
    asOption read a = asOption read' b := by
  by_cases ha : a = .null
  · rw [ha, hnull.1 ha]
    rfl
  · have hb := mt hnull.2 ha
    cases a <;> cases b <;> simp_all [asOption]

theorem readItems_agree {items items' : List Json}
    (h : List.Forall₂ (fun a b => read a = read' b) items items') (done : List α) :
    readItems read done items = readItems read' done items' := by
  induction h generalizing done with
  | nil => rfl
  | cons hfirst _ ih =>
    rw [readItems, readItems, hfirst]
    cases read' _ with
    | error fault => rfl
    | ok v => exact ih (v :: done)

theorem readMembers_agree {members members' : List (String × Json)}
    (h : List.Forall₂ (fun m m' => m.1 = m'.1 ∧ read m.2 = read' m'.2) members members')
    (done : Members α) : readMembers read done members = readMembers read' done members' := by
  induction h generalizing done with
  | nil => rfl
  | @cons first first' _ _ hfirst _ ih =>
    obtain ⟨key, value⟩ := first
    obtain ⟨key', value'⟩ := first'
    obtain ⟨hkey, hvalue⟩ := hfirst
    obtain rfl : key = key' := hkey
    rw [readMembers, readMembers, hvalue]
    cases read' _ with
    | error fault => rfl
    | ok v => exact ih (done.put key v)

end Json

/-! ### Values and their trees -/

namespace Json

mutual

/-- The value of the tree of a value. -/
theorem value_outline : ∀ value : Json, value.outline.value = .ok value
  | .null => rfl
  | .bool _ => rfl
  | .number _ => rfl
  | .text _ => rfl
  | .array items => by
    rw [outline, Outline.value, itemValues_outlines items []]
    rfl
  | .object members => by
    rw [outline, Outline.value, memberValues_outlines members []]
    rfl

theorem itemValues_outlines : ∀ (items done : List Json),
    Outline.itemValues none done (itemOutlines items) = .ok (done.reverse ++ items)
  | [], done => by rw [itemOutlines, Outline.itemValues, List.append_nil]
  | item :: rest, done => by
    rw [itemOutlines, Outline.itemValues, value_outline item]
    dsimp only
    rw [itemValues_outlines rest, List.reverse_cons, List.append_assoc]
    rfl

theorem memberValues_outlines : ∀ (members done : List (String × Json)),
    Outline.memberValues none done (memberOutlines members) = .ok (done.reverse ++ members)
  | [], done => by rw [memberOutlines, Outline.memberValues, List.append_nil]
  | (key, value) :: rest, done => by
    rw [memberOutlines, Outline.memberValues, value_outline value]
    dsimp only
    rw [memberValues_outlines rest, List.reverse_cons, List.append_assoc]
    rfl

end

end Json

end Timepiece
