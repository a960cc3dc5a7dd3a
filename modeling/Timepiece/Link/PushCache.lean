import Timepiece.External.Value

/-!
# What the watch was last told

A property is not sent again while its value stays the same.  For that the values
that were sent last are kept; a property of which nothing is kept counts as sent
without a value.

## Main definitions

* `PushCache` — the values that were sent last.
* `PushCache.isCurrent`, `PushCache.record` — asking and noting.

## Main results

* `PushCache.find?_record_self`, `PushCache.find?_record_of_ne` — a note changes
  what is kept of its own property and nothing else.
-/

namespace Timepiece

/-- Which property of which extension. -/
structure PropertyKey where
  extension : String
  property : String
  deriving DecidableEq, Repr

/-- The key of a property. -/
def Property.key (p : Property) : PropertyKey := ⟨p.extension, p.property⟩

/-- The values that were sent last. -/
structure PushCache where
  entries : List (PropertyKey × Value)

namespace PushCache

/-- Nothing was sent. -/
def empty : PushCache := ⟨[]⟩

/-- The value that was sent last. -/
def find? (cache : PushCache) (key : PropertyKey) : Option Value := cache.entries.lookup key

/-- Whether a report equals what was sent last. -/
def isCurrent (cache : PushCache) (key : PropertyKey) (value : Option Value) : Bool :=
  Value.sameOption (cache.find? key) value

/-- The entries without those of a property. -/
def without (key : PropertyKey) (entries : List (PropertyKey × Value)) :
    List (PropertyKey × Value) :=
  entries.filter fun entry => entry.1 != key

/-- Notes what was sent. -/
def record (cache : PushCache) (key : PropertyKey) (value : Option Value) : PushCache :=
  match value with
  | some v => ⟨(key, v) :: without key cache.entries⟩
  | none => ⟨without key cache.entries⟩

/-- How many values are kept. -/
def size (cache : PushCache) : Nat := cache.entries.length

@[simp] theorem find?_empty (key : PropertyKey) : empty.find? key = none := rfl

theorem lookup_without_self (key : PropertyKey) (entries : List (PropertyKey × Value)) :
    (without key entries).lookup key = none := by
  induction entries with
  | nil => rfl
  | cons entry rest ih =>
    obtain ⟨k, v⟩ := entry
    by_cases h : k = key
    · have hw : without key ((k, v) :: rest) = without key rest := by simp [without, h]
      rw [hw, ih]
    · have hw : without key ((k, v) :: rest) = (k, v) :: without key rest := by simp [without, h]
      have h' : (key == k) = false := by simpa using fun e => h e.symm
      rw [hw, List.lookup_cons, h', ih]

theorem lookup_without_of_ne {key other : PropertyKey} (h : other ≠ key)
    (entries : List (PropertyKey × Value)) :
    (without key entries).lookup other = entries.lookup other := by
  induction entries with
  | nil => rfl
  | cons entry rest ih =>
    obtain ⟨k, v⟩ := entry
    by_cases hk : k = key
    · subst hk
      have h' : (other == k) = false := by simpa using h
      simpa [without, List.lookup_cons, h'] using ih
    · have hw : without key ((k, v) :: rest) = (k, v) :: without key rest := by
        simp [without, hk]
      rw [hw, List.lookup_cons, List.lookup_cons, ih]

/-- A note is kept. -/
@[simp] theorem find?_record_self (cache : PushCache) (key : PropertyKey) (value : Option Value) :
    (cache.record key value).find? key = value := by
  cases value with
  | none => exact lookup_without_self key cache.entries
  | some v => simp [record, find?]

/-- A note about one property changes nothing of another. -/
theorem find?_record_of_ne (cache : PushCache) {key other : PropertyKey} (h : other ≠ key)
    (value : Option Value) : (cache.record key value).find? other = cache.find? other := by
  cases value with
  | none => exact lookup_without_of_ne h cache.entries
  | some v =>
    have h' : (other == key) = false := by simpa using h
    simpa [record, find?, List.lookup_cons, h'] using lookup_without_of_ne h cache.entries

end PushCache

end Timepiece
