import Mathlib
import Timepiece.WatchSet.Container
import Timepiece.WatchSet.Refusal

/-!
# The sections of a program

A program that is written out can be taken apart into its sections again, without knowing
what is in them.

## Main definitions

* `Program.parts` — the sections that are written.
* `Container.parts` — the sections that are found in bytes, with what they contain.
* `Container.places`, `Container.partsBytes` — where sections stand that are written one after
  the other, and their bytes.

## Main results

* `Container.parts_bytes` — **what is found is what was written**, if every section fits its
  length.
-/

namespace Timepiece

/-- The sections of a program: what they are, and what they contain. -/
def Program.parts (program : Program) : List (UInt8 × Bytes) :=
  (0x01, screensBytes program.screens) :: (0x02, propertiesBytes program.properties) ::
    program.resources.toList.map fun resources => (0x03, resourcesBytes resources)

/-- Every section fits the two bytes of its length. -/
def Program.SectionsFit (program : Program) : Prop :=
  ∀ part ∈ program.parts, part.2.length ≤ maxLength

theorem Program.sectionsFit_iff {program : Program} :
    program.SectionsFit ↔ (screensBytes program.screens).length ≤ maxLength ∧
      (propertiesBytes program.properties).length ≤ maxLength ∧
      ∀ resources ∈ program.resources, (resourcesBytes resources).length ≤ maxLength := by
  unfold SectionsFit parts
  cases program.resources <;> simp

namespace Container

/-- What a section contains. -/
def Section.contents (binary : Bytes) (s : Section) : Bytes := (binary.drop s.offset).take s.length

/-- The sections of a program, with what they contain. -/
def parts (binary : Bytes) : Except Defect (List (UInt8 × Bytes)) :=
  (sections binary).map fun found => found.map fun s => (s.id, s.contents binary)

/-- Where parts stand that are written from a given place on. -/
def places (start : Nat) : List (UInt8 × Bytes) → List Section
  | [] => []
  | (kind, body) :: rest =>
    ⟨kind, start + 3, body.length⟩ :: places (start + 3 + body.length) rest

/-- The bytes of parts that are written one after the other. -/
def partsBytes (parts : List (UInt8 × Bytes)) : Bytes :=
  parts.flatMap fun part => Program.sectionBytes part.1 part.2

/-- A part can be written as a section that is found again. -/
def Writable (part : UInt8 × Bytes) : Prop :=
  part.1 ≠ Program.endMark ∧ part.2.length ≤ maxLength

variable {kind : UInt8} {body rest : Bytes}

theorem reaches_iff {α : Type} {length : Nat} {items : List α} :
    reaches length items = true ↔ length ≤ items.length := by
  induction length generalizing items with
  | zero => simp [reaches]
  | succ length ih =>
    cases items with
    | nil => simp [reaches]
    | cons first items => simp [reaches, ih]

/-- A length in two bytes is found again. -/
theorem exists_length_bytes {n : Nat} (h : n ≤ maxLength) :
    ∃ a b, bigEndian 2 n = [a, b] ∧ ofBigEndian [a, b] = n := by
  refine ⟨UInt8.ofNat (n / 256), UInt8.ofNat n, rfl, ?_⟩
  have hread := ofBigEndian_bigEndian 2 n
  rw [Nat.mod_eq_of_lt (Nat.lt_of_le_of_lt h (by decide))] at hread
  exact hread

theorem length_sectionBytes (kind : UInt8) (body : Bytes) :
    (Program.sectionBytes kind body).length = 3 + body.length := by
  simp [Program.sectionBytes, Program.block]
  omega

/-- One section is found, and the search goes on behind it. -/
theorem sectionsFrom_sectionBytes (hkind : kind ≠ Program.endMark)
    (hlength : body.length ≤ maxLength) (start : Nat) (found : List Section) :
    sectionsFrom start found (Program.sectionBytes kind body ++ rest) =
      sectionsFrom (start + 3 + body.length) (⟨kind, start + 3, body.length⟩ :: found) rest := by
  obtain ⟨a, b, hbytes, hread⟩ := exists_length_bytes hlength
  have hreaches : reaches body.length (body ++ rest) = true := reaches_iff.2 (by simp)
  rw [Program.sectionBytes, Program.block, hbytes]
  show sectionsFrom start found (kind :: a :: b :: (body ++ rest)) = _
  rw [sectionsFrom, if_neg hkind]
  simp only [hread, hreaches, if_true, List.drop_left]

/-- At the mark that ends the sections the search ends. -/
theorem sectionsFrom_endMark (start : Nat) (found : List Section) (trailing : Bytes) :
    sectionsFrom start found (Program.endMark :: trailing) = .ok found.reverse := by
  unfold sectionsFrom
  rw [if_pos rfl]

/-- All parts are found, up to the mark that ends them, whatever follows it. -/
theorem sectionsFrom_partsBytes {parts : List (UInt8 × Bytes)}
    (h : ∀ part ∈ parts, Writable part) (start : Nat) (found : List Section) (trailing : Bytes) :
    sectionsFrom start found (partsBytes parts ++ Program.endMark :: trailing) =
      .ok (found.reverse ++ places start parts) := by
  induction parts generalizing start found with
  | nil => simp [partsBytes, places, sectionsFrom_endMark]
  | cons part parts ih =>
    obtain ⟨kind, body⟩ := part
    obtain ⟨⟨hkind, hlength⟩, hparts⟩ := List.forall_mem_cons.1 h
    rw [partsBytes, List.flatMap_cons, List.append_assoc,
      sectionsFrom_sectionBytes hkind hlength]
    rw [← partsBytes, ih hparts, places, List.reverse_cons, List.append_assoc]
    rfl

theorem contents_sectionBytes (before : Bytes) (kind : UInt8) (body after : Bytes) :
    Section.contents (before ++ Program.sectionBytes kind body ++ after)
      ⟨kind, before.length + 3, body.length⟩ = body := by
  have hsplit : before ++ Program.sectionBytes kind body ++ after =
      before ++ kind :: bigEndian 2 body.length ++ (body ++ after) := by
    simp [Program.sectionBytes, Program.block]
  rw [Section.contents, hsplit, List.drop_left' (by simp), List.take_left]

/-- At the places of parts stands what they contain. -/
theorem contents_places (before : Bytes) (parts : List (UInt8 × Bytes)) (after : Bytes) :
    ((places before.length parts).map fun s =>
      (s.id, s.contents (before ++ partsBytes parts ++ after))) = parts := by
  induction parts generalizing before with
  | nil => rfl
  | cons part parts ih =>
    obtain ⟨kind, body⟩ := part
    have hlength : (before ++ Program.sectionBytes kind body).length =
        before.length + 3 + body.length := by
      rw [List.length_append, length_sectionBytes]
      omega
    have hsplit : before ++ partsBytes ((kind, body) :: parts) ++ after =
        before ++ Program.sectionBytes kind body ++ partsBytes parts ++ after := by
      simp [partsBytes]
    have hrest := ih (before ++ Program.sectionBytes kind body)
    rw [hlength] at hrest
    rw [places, List.map_cons, hsplit, hrest, List.append_assoc (before ++ _),
      contents_sectionBytes]

/-- What stands before the sections of a program. -/
def headBytes (program : Program) : Bytes :=
  Program.magic ++ Program.formatVersion ++ longBytes program.id

theorem bytes_eq (program : Program) :
    program.bytes = headBytes program ++ partsBytes program.parts ++ [Program.endMark] := by
  unfold Program.bytes headBytes partsBytes Program.parts
  cases program.resources <;> simp [Program.optionalSection]

/-- The header of a program is found. -/
theorem splitHeader_headBytes (program : Program) (rest : Bytes) :
    splitHeader (headBytes program ++ rest) = .ok (⟨1, program.id⟩, rest) := by
  have hid : UInt32.ofNat (ofBigEndian (bigEndian 4 program.id.toNat)) = program.id := by
    rw [ofBigEndian_bigEndian, Nat.mod_eq_of_lt (UInt32.toNat_lt program.id), UInt32.ofNat_toNat]
  have hheader : splitHeader (headBytes program ++ rest) =
      .ok (⟨1, UInt32.ofNat (ofBigEndian (bigEndian 4 program.id.toNat))⟩, rest) := rfl
  rw [hheader, hid]

/-- The sections of a program can be written. -/
theorem writable_parts {program : Program} (h : program.SectionsFit) :
    ∀ part ∈ program.parts, Writable part := by
  refine fun part hmem => ⟨?_, h part hmem⟩
  -- none of the three kinds is the mark that ends the sections
  have hkind : part.1 = 0x01 ∨ part.1 = 0x02 ∨ part.1 = 0x03 := by
    simp only [Program.parts, List.mem_cons, List.mem_map] at hmem
    rcases hmem with rfl | rfl | ⟨resources, -, rfl⟩ <;> simp
  rcases hkind with hkind | hkind | hkind <;> rw [hkind] <;> decide

/-- The sections of a program are found where they were written. -/
theorem sections_bytes {program : Program} (h : program.SectionsFit) :
    sections program.bytes = .ok (places headerLength program.parts) := by
  rw [bytes_eq, List.append_assoc, sections, splitHeader_headBytes]
  exact sectionsFrom_partsBytes (writable_parts h) headerLength [] []

/-- **What is found is what was written.** -/
theorem parts_bytes {program : Program} (h : program.SectionsFit) :
    parts program.bytes = .ok program.parts := by
  have hfound := sections_bytes h
  have hhead : (headBytes program).length = headerLength := rfl
  rw [parts, hfound, bytes_eq, ← hhead]
  exact congrArg Except.ok (contents_places _ _ _)

end Container

end Timepiece
