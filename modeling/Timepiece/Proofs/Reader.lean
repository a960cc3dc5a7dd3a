import Mathlib
import Timepiece.WatchSet.Encoding
import Timepiece.WatchSet.Refusal

/-!
# Readers of bytes

A reader takes a value off the front of a string of bytes and leaves the rest.
It sees nothing but bytes, so what it makes of a written value may depend neither
on what was meant nor on what follows.  Both are put into one notion: a reader
takes a value from its bytes if it does so whatever bytes come after them, and
leaves exactly those.

## Main definitions

* `Reader` — readers, and `Reader.Takes`, the notion above.
* `Reader.byte`, `Reader.word`, `Reader.long`, `Reader.many` — the plain readers.
* `Reader.counted`, `Reader.measured`, `Reader.sectionOf` — the readers of lists
  that are led by their count, of parts that are led by their length, and of parts
  that may be missing.

## Main results

* `Reader.Takes.bind` — what is written one after the other is read one after the
  other.
* `Reader.takes_counted`, `Reader.takes_measured` — counts and lengths that fit their
  bytes are read back.
-/

namespace Timepiece

/-- A reader takes a value off the front of a string of bytes, or fails. -/
abbrev Reader (α : Type) := StateT Bytes Option α

namespace Reader

variable {α β : Type}

/-- The reader takes the value from the bytes, whatever follows them. -/
def Takes (r : Reader α) (bytes : Bytes) (value : α) : Prop :=
  ∀ rest, r (bytes ++ rest) = some (value, rest)

/-! ### Reading one thing after the other -/

theorem takes_pure (value : α) : Takes (pure value) [] value := fun _ => rfl

theorem Takes.bind {r : Reader α} {f : α → Reader β} {first second : Bytes} {a : α} {b : β}
    (hr : Takes r first a) (hf : Takes (f a) second b) :
    Takes (r >>= f) (first ++ second) b := by
  intro rest
  show (r (first ++ second ++ rest)).bind _ = _
  rw [List.append_assoc, hr]
  exact hf rest

/-- The last thing that is read is made into something else. -/
theorem Takes.bind_pure {r : Reader α} {f : α → β} {bytes : Bytes} {a : α} (hr : Takes r bytes a) :
    Takes (r >>= fun a => pure (f a)) bytes (f a) := by
  have h := hr.bind (f := fun a => pure (f a)) (takes_pure (f a))
  rwa [List.append_nil] at h

/-- Without anything behind them the bytes are used up. -/
theorem Takes.apply_self {r : Reader α} {bytes : Bytes} {value : α} (h : Takes r bytes value) :
    r bytes = some (value, []) := by
  have h := h []
  rwa [List.append_nil] at h

/-! ### Bytes and words -/

/-- The next byte. -/
def byte : Reader UInt8
  | [] => none
  | first :: rest => some (first, rest)

theorem takes_byte (value : UInt8) : Takes byte [value] value := fun _ => rfl

/-- What is led by a byte is read by looking at that byte first. -/
theorem takes_byte_bind {f : UInt8 → Reader α} {first : UInt8} {bytes : Bytes} {value : α}
    (h : Takes (f first) bytes value) : Takes (byte >>= f) (first :: bytes) value :=
  (takes_byte first).bind h

/-- The next bytes, of a given number. -/
def many (count : Nat) : Reader Bytes := fun bytes =>
  if count ≤ bytes.length then some (bytes.take count, bytes.drop count) else none

theorem takes_many (bytes : Bytes) : Takes (many bytes.length) bytes bytes := by
  intro rest
  have hle : bytes.length ≤ (bytes ++ rest).length := by simp
  rw [many, if_pos hle, List.take_left, List.drop_left]

/-- A number in a given width. -/
def number (width : Nat) : Reader Nat := do
  let bytes ← many width
  pure (ofBigEndian bytes)

theorem takes_number (width : Nat) {n : Nat} (h : n < Nat.pow 256 width) :
    Takes (number width) (bigEndian width n) n := by
  have hread : Takes (many width) (bigEndian width n) (bigEndian width n) := by
    have h := takes_many (bigEndian width n)
    rwa [length_bigEndian] at h
  have hvalue : ofBigEndian (bigEndian width n) = n := by
    rw [ofBigEndian_bigEndian, Nat.mod_eq_of_lt h]
  have hread := hread.bind_pure (f := ofBigEndian)
  rwa [hvalue] at hread

/-- A 16-bit word. -/
def word : Reader UInt16 := do
  let n ← number 2
  pure (UInt16.ofNat n)

theorem takes_word (value : UInt16) : Takes word (wordBytes value) value := by
  have h := (takes_number 2 value.toNat_lt).bind_pure (f := UInt16.ofNat)
  rwa [UInt16.ofNat_toNat] at h

/-- A 32-bit word. -/
def long : Reader UInt32 := do
  let n ← number 4
  pure (UInt32.ofNat n)

theorem takes_long (value : UInt32) : Takes long (longBytes value) value := by
  have h := (takes_number 4 value.toNat_lt).bind_pure (f := UInt32.ofNat)
  rwa [UInt32.ofNat_toNat] at h

/-- A signed 32-bit number. -/
def signed : Reader Int32 := do
  let n ← long
  pure n.toInt32

theorem takes_signed (value : Int32) : Takes signed (signedBytes value) value :=
  (takes_long value.toUInt32).bind_pure (f := UInt32.toInt32)

/-! ### Lists -/

/-- A given number of things of one kind. -/
def times (r : Reader α) : (count : Nat) → Reader (List α)
  | 0 => pure []
  | count + 1 => do
    let first ← r
    let others ← times r count
    pure (first :: others)

theorem takes_times {r : Reader α} {write : α → Bytes} {items : List α}
    (h : ∀ item ∈ items, Takes r (write item) item) :
    Takes (times r items.length) (items.flatMap write) items := by
  induction items with
  | nil => exact takes_pure []
  | cons first others ih =>
    obtain ⟨hfirst, hothers⟩ := List.forall_mem_cons.1 h
    rw [List.flatMap_cons]
    exact hfirst.bind ((ih hothers).bind_pure (f := fun others => first :: others))

/-- A list led by its count. -/
def counted (r : Reader α) : Reader (List α) := do
  let count ← byte
  times r count.toNat

theorem toNat_countByte {n : Nat} (h : n ≤ maxCount) : (Program.countByte n).toNat = n := by
  have hn : n < 256 := by
    unfold maxCount at h
    omega
  rw [Program.countByte, UInt8.toNat_ofNat', Nat.mod_eq_of_lt hn]

theorem takes_counted {r : Reader α} {write : α → Bytes} {items : List α}
    (hcount : items.length ≤ maxCount) (h : ∀ item ∈ items, Takes r (write item) item) :
    Takes (counted r) (Program.countByte items.length :: items.flatMap write) items := by
  apply takes_byte_bind
  rw [toNat_countByte hcount]
  exact takes_times h

/-- Bytes led by their count. -/
def countedBytes : Reader Bytes := do
  let count ← byte
  many count.toNat

theorem takes_countedBytes {bytes : Bytes} (h : bytes.length ≤ maxCount) :
    Takes countedBytes (Program.countByte bytes.length :: bytes) bytes := by
  apply takes_byte_bind
  rw [toNat_countByte h]
  exact takes_many bytes

/-! ### Blocks and sections -/

/-- A value that takes up bytes to the last one. -/
def whole (r : Reader α) (bytes : Bytes) : Reader α :=
  match r bytes with
  | some (value, []) => pure value
  | _ => failure

/-- A part led by its length, of which nothing may be left over. -/
def measured (r : Reader α) : Reader α := do
  let length ← number 2
  let body ← many length
  whole r body

theorem takes_measured {r : Reader α} {body : Bytes} {value : α} (hlength : body.length ≤ maxLength)
    (h : Takes r body value) : Takes (measured r) (Program.block body) value := by
  have hlt : body.length < Nat.pow 256 2 := by
    have hpow : Nat.pow 256 2 = 65536 := rfl
    unfold maxLength at hlength
    omega
  have hwhole : Takes (whole r body) [] value := by
    rw [whole, h.apply_self]
    exact takes_pure value
  -- the length is read first, and cuts off exactly the bytes of the part
  have hbody := (takes_many body).bind (f := whole r) hwhole
  rw [List.append_nil] at hbody
  exact (takes_number 2 hlt).bind hbody

/-- A part led by its kind and length; nothing if the next byte is of another
kind. -/
def sectionOf (kind : UInt8) (r : Reader α) : Reader (Option α) := fun bytes =>
  match bytes with
  | [] => some (none, [])
  | first :: rest =>
    if first = kind then
      match measured r rest with
      | some (value, rest) => some (some value, rest)
      | none => none
    else some (none, bytes)

/-- A section that may be missing is read back before anything that is led by
another kind. -/
theorem takes_sectionOf_bind {kind first : UInt8} {r : Reader α} {write : α → Bytes}
    {part : Option α} {f : Option α → Reader β} {bytes : Bytes} {b : β}
    (hpart : ∀ value ∈ part, (write value).length ≤ maxLength ∧ Takes r (write value) value)
    (hfirst : first ≠ kind) (hf : Takes (f part) (first :: bytes) b) :
    Takes (sectionOf kind r >>= f)
      (Program.optionalSection kind write part ++ first :: bytes) b := by
  intro rest
  -- a missing part is told by the first byte of what follows it
  have hread : sectionOf kind r
      (Program.optionalSection kind write part ++ (first :: bytes ++ rest)) =
        some (part, first :: bytes ++ rest) := by
    cases part with
    | none => simp [sectionOf, Program.optionalSection, hfirst]
    | some value =>
      obtain ⟨hlength, htakes⟩ := hpart value rfl
      have hblock := takes_measured hlength htakes (first :: bytes ++ rest)
      simp only [Program.optionalSection, Program.sectionBytes, List.cons_append, sectionOf,
        if_true] at hblock ⊢
      rw [hblock]
  show (sectionOf kind r _).bind _ = _
  rw [List.append_assoc, hread]
  exact hf rest

end Reader

end Timepiece
