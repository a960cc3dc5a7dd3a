import Mathlib
import Timepiece.Proofs.Numbers.Words
import Timepiece.Proofs.Resolution.Documents

/-!
# The layout of programs

Bytes hold sections in one way only: a header, the sections one after the other, each led by
its kind and its length, and the mark that ends them.  Anything may stand behind the mark.
The search for sections succeeds on exactly those bytes, and tells where they stand.

## Main definitions

* `Container.Holds` — bytes hold sections at some places.
* `Document.Sectioned` — the sections of a compiled document.

## Main results

* `Container.exists_parts_of_sectionsFrom` — what is found stands there.
* `Container.sections_eq_ok_iff` — **sections are found where bytes hold them**, and nowhere
  else.
* `Document.Compiles.sectioned` — a program is tiled by its sections.
* `Container.sections_layout` — both.
-/

namespace Timepiece

/-- Two bytes stand for a length that fits two bytes. -/
theorem ofBigEndian_pair_le (a b : UInt8) : ofBigEndian [a, b] ≤ maxLength := by
  have ha := a.toNat_lt
  have hb := b.toNat_lt
  have hvalue : ofBigEndian [a, b] = (0 * 256 + a.toNat) * 256 + b.toNat := rfl
  rw [hvalue, maxLength]
  omega

namespace Container

variable {start : Nat} {found all : List Section} {bytes binary : Bytes}

/-! ### Sections that are found -/

/-- Bytes that are led by a kind and a length are a section and what follows it, if they reach
that far. -/
theorem eq_sectionBytes (kind : UInt8) {a b : UInt8} {body : Bytes}
    (h : ofBigEndian [a, b] ≤ body.length) :
    kind :: a :: b :: body =
      Program.sectionBytes kind (body.take (ofBigEndian [a, b])) ++
        body.drop (ofBigEndian [a, b]) := by
  have hlength : bigEndian 2 (ofBigEndian [a, b]) = [a, b] := bigEndian_ofBigEndian [a, b]
  rw [Program.sectionBytes, Program.block, List.length_take_of_le h, hlength, List.cons_append,
    List.append_assoc, List.take_append_drop]
  rfl

/-- **What is found stands there**, one section after the other, up to the mark. -/
theorem exists_parts_of_sectionsFrom (h : sectionsFrom start found bytes = .ok all) :
    ∃ parts trailing, (∀ part ∈ parts, Writable part) ∧
      bytes = partsBytes parts ++ Program.endMark :: trailing ∧
      all = found.reverse ++ places start parts := by
  fun_induction sectionsFrom start found bytes with
  | case1 => cases h
  | case2 start found rest =>
    refine ⟨[], rest, fun _ hmem => absurd hmem List.not_mem_nil, rfl, ?_⟩
    rw [places, List.append_nil, Except.ok.inj h]
  | case3 start found kind hkind a b body length hreaches ih =>
    have hle : length ≤ body.length := reaches_iff.1 hreaches
    have htake : (body.take length).length = length := List.length_take_of_le hle
    obtain ⟨parts, trailing, hparts, hrest, rfl⟩ := ih h
    have hpart : Writable (kind, body.take length) := by
      refine ⟨hkind, ?_⟩
      rw [htake]
      exact ofBigEndian_pair_le a b
    refine ⟨(kind, body.take length) :: parts, trailing, List.forall_mem_cons.2 ⟨hpart, hparts⟩,
      ?_, ?_⟩
    · rw [eq_sectionBytes kind hle, hrest, partsBytes, partsBytes, List.flatMap_cons,
        List.append_assoc]
    · rw [places, htake, List.reverse_cons, List.append_assoc, List.singleton_append]
  | case4 => cases h
  | case5 => cases h

/-- Bytes hold sections: a header, the sections one after the other, and a mark, behind which
anything may stand. -/
structure Holds (binary : Bytes) (found : List Section) : Prop where
  header : ∃ h, header binary = .ok h
  sections : ∃ parts trailing, (∀ part ∈ parts, Writable part) ∧
    binary.drop headerLength = partsBytes parts ++ Program.endMark :: trailing ∧
    found = places headerLength parts

/-- What follows the header starts at a fixed place. -/
theorem drop_of_splitHeader {h : Header} {rest : Bytes}
    (hsplit : splitHeader binary = .ok (h, rest)) : binary.drop headerLength = rest := by
  unfold splitHeader at hsplit
  split at hsplit
  · split at hsplit
    · exact nomatch hsplit
    · split at hsplit
      · exact nomatch hsplit
      · exact (Prod.mk.inj (Except.ok.inj hsplit)).2
  · exact nomatch hsplit

/-- **Sections are found where bytes hold them.** -/
theorem sections_eq_ok_iff : sections binary = .ok found ↔ Holds binary found := by
  cases hsplit : splitHeader binary with
  | error defect =>
    have hheader : header binary = .error defect := by rw [header, hsplit]; rfl
    refine iff_of_false (fun h => ?_) fun h => ?_
    · rw [sections, hsplit] at h
      cases h
    · obtain ⟨_, h⟩ := h.header
      rw [hheader] at h
      cases h
  | ok split =>
    obtain ⟨h, rest⟩ := split
    have hheader : header binary = .ok h := by rw [header, hsplit]; rfl
    have hsections : sections binary = sectionsFrom headerLength [] rest := by
      rw [sections, hsplit]
    have hrest := drop_of_splitHeader hsplit
    rw [hsections]
    constructor
    · intro hfound
      obtain ⟨parts, trailing, hparts, hbytes, hall⟩ := exists_parts_of_sectionsFrom hfound
      exact ⟨⟨h, hheader⟩, parts, trailing, hparts, hrest.trans hbytes, hall⟩
    · rintro ⟨-, parts, trailing, hparts, hbytes, rfl⟩
      rw [← hrest, hbytes]
      exact sectionsFrom_partsBytes hparts headerLength [] trailing

/-- Sections that are written lie within what is written. -/
theorem within_of_mem_places {parts : List (UInt8 × Bytes)} {s : Section}
    (h : s ∈ places start parts) :
    start < s.offset ∧ s.offset + s.length ≤ start + (partsBytes parts).length := by
  induction parts generalizing start with
  | nil => exact absurd h List.not_mem_nil
  | cons part parts ih =>
    obtain ⟨kind, body⟩ := part
    have hlength : (partsBytes ((kind, body) :: parts)).length =
        3 + body.length + (partsBytes parts).length := by
      rw [partsBytes, List.flatMap_cons, List.length_append, length_sectionBytes, partsBytes]
    rcases List.mem_cons.1 h with rfl | h
    · dsimp only
      omega
    · have hwithin := ih h
      omega

/-- Sections lie within the bytes that hold them. -/
theorem Holds.within (h : Holds binary found) {s : Section} (hs : s ∈ found) :
    headerLength < s.offset ∧ s.offset + s.length < binary.length := by
  obtain ⟨-, parts, trailing, -, hbytes, rfl⟩ := h
  obtain ⟨hafter, hwithin⟩ := within_of_mem_places hs
  have hlength := congrArg List.length hbytes
  rw [List.length_drop, List.length_append, List.length_cons] at hlength
  omega

end Container

/-! ### Documents -/

/-- The sections of a compiled document: the header has the number of the program, and after
it the sections tile the bytes up to a mark that is their last. -/
structure Document.Sectioned (document : Document) (id : UInt32) (bundle : Bundle) : Prop where
  header : Container.header bundle.binary = .ok ⟨1, id⟩
  sections : ∃ parts,
    Container.sections bundle.binary = .ok (Container.places Container.headerLength parts) ∧
      (Container.places Container.headerLength parts).map Container.Section.name =
        "screens" :: "external properties" ::
          (if document.resources.isSome then ["resources"] else []) ∧
      bundle.binary = bundle.binary.take Container.headerLength ++ Container.partsBytes parts ++
        [Program.endMark]

/-- **A program is tiled by its sections.** -/
theorem Document.Compiles.sectioned {catalog : Option (List String)} {id : UInt32}
    {document : Document} {bundle : Bundle} (h : document.Compiles catalog id bundle) :
    document.Sectioned id bundle := by
  obtain ⟨assembly, hresolve, hbundle⟩ := h
  obtain ⟨hsections, rfl⟩ := Assembly.bundle_eq_ok_iff.1 hbundle
  have hresources := (resolved_of_resolve hresolve).isSome_resources
  refine ⟨?_, (assembly.program id).parts, Container.sections_bytes hsections, ?_, ?_⟩
  · rw [Container.header, Container.bytes_eq, List.append_assoc, Container.splitHeader_headBytes]
    rfl
  · -- the list of resources is a section if there is one
    rw [hresources]
    obtain ⟨name, screens, properties, functions, resources⟩ := assembly
    cases resources <;> rfl
  · have hhead : (Container.headBytes (assembly.program id)).length = Container.headerLength := rfl
    dsimp only
    rw [Container.bytes_eq, List.append_assoc, List.take_left' hhead, List.append_assoc]

/-- **The search for sections inverts the layout.**  It succeeds on exactly the bytes that hold
sections, tells where these stand, and leads to nothing outside the bytes; and on a compiled
document it finds the header and the sections that were written. -/
theorem Container.sections_layout :
    (∀ (binary : Bytes) (found : List Section),
      (sections binary = .ok found ↔ Holds binary found) ∧
      (sections binary = .ok found → ∀ s ∈ found, s.offset + s.length ≤ binary.length)) ∧
    ∀ (catalog : Option (List String)) (id : UInt32) (document : Document) (bundle : Bundle),
      document.Compiles catalog id bundle → document.Sectioned id bundle := by
  refine ⟨fun binary found => ⟨sections_eq_ok_iff, fun hfound s hs => ?_⟩,
    fun catalog id document bundle h => h.sectioned⟩
  exact Nat.le_of_lt ((sections_eq_ok_iff.1 hfound).within hs).2

/-- Sections of any kind are found, also empty ones and ones that hold the mark, and what
follows the mark does not count. -/
theorem Container.sections_layout_sample :
    (∃ bundle, Document.sample.Compiles none 7 bundle ∧ Document.sample.Sectioned 7 bundle) ∧
      sections ([0x05, 0x53, 0x00, 0x01, 0, 0, 0, 7] ++ [0xAA, 0, 2, 0xFF, 9] ++ [0x01, 0, 0] ++
        [0xFF, 1, 2]) = .ok [⟨0xAA, 11, 2⟩, ⟨0x01, 16, 0⟩] := by
  obtain ⟨bundle, hcompiles⟩ := Document.exists_compiles_sample
  refine ⟨⟨bundle, hcompiles, sections_layout.2 none 7 Document.sample bundle hcompiles⟩, ?_⟩
  refine (sections_layout.1 _ _).1.2
    ⟨⟨_, rfl⟩, [(0xAA, [0xFF, 9]), (0x01, [])], [1, 2], ?_, rfl, rfl⟩
  intro part hpart
  rcases List.mem_pair.1 hpart with rfl | rfl <;> exact ⟨by decide, by decide⟩

end Timepiece
