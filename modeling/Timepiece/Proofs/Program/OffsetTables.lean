import Mathlib
import Timepiece.Proofs.Reader
import Timepiece.WatchSet.Compiler

/-!
# Tables of places

Entries of different lengths stand one behind the other, and a table in front of them tells where
each of them begins.  Where an entry ends is not told: it goes on to where the next one begins, and
the last one to the end.  Such a table can be read only if its places cut the bytes behind it into
pieces of which nothing is left over; the entries are these pieces then.

## Main definitions

* `placesFrom` — the places of entries that stand one behind the other.
* `cut?` — the pieces into which places cut bytes.
* `readTable` — the entries of a table that is led by their count.
* `screenCount`, `resourceCount` — how the counts of screens and of resources are to be read.

## Main results

* `cut?_placesFrom` — **entries are the pieces into which their places cut them**.
* `readTable_offsetTable` — a table comes back from its bytes, if its places fit their width.
-/

namespace Timepiece

namespace Program

open Reader

variable {start place width : Nat} {entries : List Bytes}

/-! ### Places -/

/-- The places of entries that stand one behind the other, the first one at a given place. -/
def placesFrom (start : Nat) : List Bytes → List Nat
  | [] => []
  | entry :: rest => start :: placesFrom (start + entry.length) rest

@[simp] theorem length_placesFrom (start : Nat) (entries : List Bytes) :
    (placesFrom start entries).length = entries.length := by
  induction entries generalizing start with
  | nil => rfl
  | cons entry rest ih => rw [placesFrom, List.length_cons, ih, List.length_cons]

/-- No entry begins behind the end. -/
theorem le_of_mem_placesFrom (h : place ∈ placesFrom start entries) :
    place ≤ start + entries.flatten.length := by
  induction entries generalizing start with
  | nil => exact absurd h List.not_mem_nil
  | cons entry rest ih =>
    rw [List.flatten_cons, List.length_append]
    rcases List.mem_cons.1 h with rfl | h
    · exact Nat.le_add_right _ _
    · have hle := ih h
      omega

theorem offsets_eq (width start : Nat) (entries : List Bytes) :
    offsets width start entries = (placesFrom start entries).flatMap (bigEndian width) := by
  induction entries generalizing start with
  | nil => rfl
  | cons entry rest ih => rw [offsets, placesFrom, List.flatMap_cons, ih]

/-! ### Pieces -/

/-- The pieces into which places cut bytes that begin at a given place.  The first place has to be
that one; none may be before the one in front of it or behind the end; and where there is no place
there may be no bytes. -/
def cut? (start : Nat) : List Nat → Bytes → Option (List Bytes)
  | [], bytes => if bytes = [] then some [] else none
  | [place], bytes => if place = start then some [bytes] else none
  | place :: next :: rest, bytes =>
    if place = start ∧ start ≤ next ∧ next - start ≤ bytes.length then
      (cut? next (next :: rest) (bytes.drop (next - start))).map (bytes.take (next - start) :: ·)
    else none

/-- **Entries are the pieces into which their places cut them.** -/
theorem cut?_placesFrom (start : Nat) (entries : List Bytes) :
    cut? start (placesFrom start entries) entries.flatten = some entries := by
  induction entries generalizing start with
  | nil => rfl
  | cons entry rest ih =>
    cases rest with
    | nil => simp [placesFrom, cut?]
    | cons next rest =>
      -- what stands between the first two places is the first entry
      have hlength : start + entry.length - start = entry.length := Nat.add_sub_cancel_left ..
      have hrest := ih (start + entry.length)
      rw [placesFrom] at hrest
      rw [placesFrom, placesFrom, cut?, hlength, List.flatten_cons, List.drop_left, List.take_left,
        hrest, if_pos ⟨rfl, Nat.le_add_right _ _, by simp⟩]
      rfl

/-! ### Tables that are led by their count -/

/-- The entries of a table with places of a given width, which are measured from the beginning of
the table.  How many entries there are is told by the first byte and by what follows it. -/
def readTable (width : Nat) (count : UInt8 → Bytes → Nat) : Bytes → Option (List Bytes)
  | [] => none
  | first :: rest =>
    (times (number width) (count first rest) rest).bind fun read =>
      cut? (tableHead width (count first rest)) read.1 read.2

/-- As many screens as the count says. -/
def screenCount (count : UInt8) (_ : Bytes) : Nat := count.toNat

/-- As many resources as the count says; but a zero that something follows stands for 256. -/
def resourceCount (count : UInt8) (rest : Bytes) : Nat :=
  if count = 0 ∧ rest ≠ [] then 256 else count.toNat

/-- What follows the count of a table. -/
def tableRest (width : Nat) (entries : List Bytes) : Bytes :=
  offsets width (tableHead width entries.length) entries ++ entries.flatten

theorem length_tableRest (width : Nat) (entries : List Bytes) :
    (tableRest width entries).length = entries.length * width + entries.flatten.length := by
  rw [tableRest, offsets_eq, List.length_append, List.length_flatMap]
  simp

theorem length_offsetTable (width : Nat) (entries : List Bytes) :
    (offsetTable width entries).length =
      tableHead width entries.length + entries.flatten.length := by
  show (tableRest width entries).length + 1 = _
  rw [length_tableRest, tableHead]
  omega

/-- A table comes back from its bytes, if its places fit their width and its count is read as it was
meant. -/
theorem readTable_offsetTable {count : UInt8 → Bytes → Nat}
    (hcount : count (countByte entries.length) (tableRest width entries) = entries.length)
    (hfits : (offsetTable width entries).length < Nat.pow 256 width) :
    readTable width count (offsetTable width entries) = some entries := by
  have hplaces : Takes (times (number width) entries.length)
      (offsets width (tableHead width entries.length) entries)
      (placesFrom (tableHead width entries.length) entries) := by
    have hplace : ∀ place ∈ placesFrom (tableHead width entries.length) entries,
        Takes (number width) (bigEndian width place) place := by
      intro place hmem
      have hle := le_of_mem_placesFrom hmem
      rw [← length_offsetTable] at hle
      exact takes_number width (hle.trans_lt hfits)
    have htimes := takes_times hplace
    rwa [length_placesFrom, ← offsets_eq] at htimes
  show readTable width count (countByte entries.length :: tableRest width entries) = _
  rw [readTable, hcount, tableRest, hplaces]
  exact cut?_placesFrom _ _

theorem screenCount_countByte (h : entries.length ≤ maxCount) (rest : Bytes) :
    screenCount (countByte entries.length) rest = entries.length := toNat_countByte h

/-- A count of resources is read as it was meant, also if there are none or 256. -/
theorem resourceCount_countByte (h : entries.length ≤ maxResources) (hwidth : 0 < width) :
    resourceCount (countByte entries.length) (tableRest width entries) = entries.length := by
  have hzero : countByte entries.length = 0 ↔ entries.length % 256 = 0 := by
    rw [← UInt8.toNat_inj, countByte, UInt8.toNat_ofNat']
    rfl
  have hrest : tableRest width entries ≠ [] ↔ 0 < entries.length := by
    rw [← List.length_pos_iff, length_tableRest]
    constructor
    · intro hpos
      by_contra hnone
      obtain rfl := List.length_eq_zero_iff.1 (Nat.eq_zero_of_not_pos hnone)
      exact absurd hpos (by simp)
    · exact fun hpos => Nat.add_pos_left (Nat.mul_pos hpos hwidth) _
  have htoNat : (countByte entries.length).toNat = entries.length % 256 := UInt8.toNat_ofNat'
  simp only [resourceCount, hzero, hrest, htoNat]
  unfold maxResources at h
  split <;> omega

end Program

end Timepiece
