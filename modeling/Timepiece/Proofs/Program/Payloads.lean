import Mathlib
import Timepiece.Proofs.Program.OffsetTables
import Timepiece.Proofs.Resolution.Documents
import Timepiece.Proofs.Text.Base64

/-!
# Screens and resources in the bytes of a program

The screens of a program and the resources that it brings are entries of tables, and an entry may
have any length, also none.  Whoever reads the tables gets the screens as they were compiled, and for
every resource the bytes for which its text stands.  A list of resources is no reason to refuse a
document, unless two of them share a name, or there are too many, or their section is too long.

## Main definitions

* `Container.payload?` — what the section of a kind contains.
* `Resource.Holds` — the text of a resource is that of some bytes, with blanks anywhere.
* `Document.Unpacks` — what is read in the bytes of a program.
* `Document.resolveDetached` — a document whose resources are left out.

## Main results

* `Resource.decode_of_holds` — resources with distinct names are decoded.
* `Document.tables_lossless` — **the tables of a program are lossless**, and resources that fit are
  never refused.
-/

namespace Timepiece

open Compiling

/-! ### Sections -/

namespace Container

/-- What the section of a kind contains. -/
def payload? (kind : UInt8) (binary : Bytes) : Option Bytes :=
  (parts binary).toOption.bind fun found => found.lookup kind

variable {program : Program}

theorem payload?_screens (h : program.SectionsFit) :
    payload? 0x01 program.bytes = some (Program.screensBytes program.screens) := by
  rw [payload?, parts_bytes h]
  simp [Program.parts, Except.toOption]

theorem payload?_resources (h : program.SectionsFit) {resources : List Bytes}
    (hresources : program.resources = some resources) :
    payload? 0x03 program.bytes = some (Program.resourcesBytes resources) := by
  rw [payload?, parts_bytes h]
  simp [Program.parts, List.lookup_cons, Except.toOption, hresources]

end Container

/-! ### Resources -/

namespace Program

theorem go_checkPlaces_eq_ok_iff {what : Tabled} {width start : Nat} {entries : List Bytes} :
    checkPlaces.go what width start entries = .ok () ↔
      ∀ place ∈ placesFrom start entries, place < Nat.pow 256 width := by
  induction entries generalizing start with
  | nil => simp [checkPlaces.go, placesFrom]
  | cons entry rest ih =>
    rw [checkPlaces.go, placesFrom, List.forall_mem_cons]
    split
    · next hstart => rw [ih, and_iff_right hstart]
    · next hstart => exact iff_of_false (fun h => by cases h) fun h => hstart h.1

/-- The places of a table that is not too long fit. -/
theorem checkPlaces_of_length {what : Tabled} {width : Nat} {entries : List Bytes}
    (h : (offsetTable width entries).length < Nat.pow 256 width) :
    checkPlaces what width entries = .ok () := by
  refine go_checkPlaces_eq_ok_iff.2 fun place hplace => ?_
  rw [length_offsetTable] at h
  exact (le_of_mem_placesFrom hplace).trans_lt h

end Program

namespace Resource

variable {resource : Resource} {resources : List Resource} {entry : Bytes} {entries : List Bytes}

/-- The text of a resource is that of some bytes, with blanks anywhere. -/
def Holds (resource : Resource) (entry : Bytes) : Prop :=
  Base64.encode entry = Text.dropBlanks resource.data.toList

theorem bytes_eq_ok_iff : resource.bytes = .ok entry ↔ resource.Holds entry := by
  unfold Resource.bytes Holds
  rw [← Base64.decode?_eq_some_iff]
  cases Base64.decode? (Text.dropBlanks resource.data.toList) with
  | none => simp
  | some bytes => simp

theorem decodeAll_of_holds {seen : List String} (h : List.Forall₂ Holds resources entries)
    (hnodup : (resources.map Resource.id).Nodup)
    (hnew : ∀ name ∈ seen, name ∉ resources.map Resource.id) :
    decodeAll seen resources = .ok entries := by
  induction h generalizing seen with
  | nil => rfl
  | @cons first entry others rest hfirst _ ih =>
    rw [List.map_cons] at hnodup hnew
    obtain ⟨hother, hothers⟩ := List.nodup_cons.1 hnodup
    have hseen : seen.contains first.id = false := by
      rw [← Bool.not_eq_true, List.contains_iff_mem]
      exact fun hmem => hnew first.id hmem List.mem_cons_self
    have hrest : decodeAll (first.id :: seen) others = .ok rest := by
      refine ih hothers (List.forall_mem_cons.2 ⟨hother, fun name hmem hname => ?_⟩)
      exact hnew name hmem (List.mem_cons_of_mem _ hname)
    rw [decodeAll, hseen, bytes_eq_ok_iff.2 hfirst, hrest]
    rfl

/-- Resources with distinct names are decoded, if there are not too many. -/
theorem decode_of_holds (h : List.Forall₂ Holds resources entries)
    (hnodup : (resources.map Resource.id).Nodup) (hcount : resources.length ≤ maxResources) :
    decode (some resources) = .ok (some entries) := by
  have hdecode : decodeAll [] resources = .ok entries :=
    decodeAll_of_holds h hnodup fun _ hmem => absurd hmem List.not_mem_nil
  rw [decode, hdecode, if_neg (Nat.not_lt.2 hcount)]
  rfl

end Resource

/-! ### Documents without their resources -/

/-- A document whose resources are left out.  The screens may still name them. -/
def Document.resolveDetached (catalog : Option (List String)) (document : Document) :
    Except Refusal Assembly := do
  document.check
  if maxScreens < document.screens.length then .error .tooManyScreens
  checkScreenNames [] (document.screens.map Screen.id)
  let (screens, ledger) ←
    (Screen.resolveAll (document.surroundings catalog) document.screens).run ⟨[], [], .empty⟩
  checkPlaces .screens 2 (screens.map Program.Screen.bytes)
  pure ⟨document.name, screens, ledger.properties, ledger.functions, none⟩

/-- An assembly with resources. -/
def Assembly.attach (entries : List Bytes) (assembly : Assembly) : Assembly :=
  { assembly with resources := some entries }

variable {catalog : Option (List String)} {document : Document} {entries : List Bytes}

/-- Resources that are decoded and whose places fit are attached to what is compiled anyway. -/
theorem Document.resolve_eq_detached
    (hdecode : Resource.decode document.resources = .ok (some entries))
    (hplaces : checkPlaces .resources 3 entries = .ok ()) :
    document.resolve catalog =
      (document.resolveDetached catalog).map (Assembly.attach entries) := by
  unfold resolve resolveDetached surroundings
  cases document.check with
  | error refusal => rfl
  | ok =>
    simp only [hdecode, bind, Except.bind]
    by_cases hcount : maxScreens < document.screens.length
    · rw [if_pos hcount, if_pos hcount]
      rfl
    rw [if_neg hcount, if_neg hcount]
    cases checkScreenNames [] (document.screens.map Screen.id) with
    | error refusal => rfl
    | ok =>
      dsimp only
      split
      · rfl
      · rw [hplaces]
        dsimp only
        split <;> rfl

theorem Document.resources_of_resolveDetached {assembly : Assembly}
    (h : document.resolveDetached catalog = .ok assembly) : assembly.resources = none := by
  unfold resolveDetached at h
  obtain ⟨_, -, h⟩ := bind_eq_ok_iff.1 h
  dsimp only at h
  split at h
  · obtain ⟨_, h, -⟩ := bind_eq_ok_iff.1 h
    exact nomatch h
  · obtain ⟨_, -, h⟩ := bind_eq_ok_iff.1 h
    obtain ⟨_, -, h⟩ := bind_eq_ok_iff.1 h
    obtain ⟨_, -, h⟩ := bind_eq_ok_iff.1 h
    rw [← Except.ok.inj h]

/-- A section of resources that fits is no reason to refuse a program. -/
theorem Assembly.bundle_attach_eq_error_iff {assembly : Assembly} {id : UInt32} {refusal : Refusal}
    (hnone : assembly.resources = none)
    (hlength : (Program.resourcesBytes entries).length ≤ maxLength) :
    (assembly.attach entries).bundle id = .error refusal ↔ assembly.bundle id = .error refusal := by
  have hsections : checkSections ((assembly.attach entries).program id) =
      checkSections (assembly.program id) := by
    have hresources : checkLength .resources (Program.resourcesBytes entries) = .ok () :=
      checkLength_eq_ok_iff.2 hlength
    show (checkLength .screens _ >>= fun _ => checkLength .properties _ >>= fun _ =>
      checkLength .resources (Program.resourcesBytes entries)) = _
    obtain ⟨name, screens, properties, functions, resources⟩ := assembly
    obtain rfl : resources = none := hnone
    rw [hresources]
    rfl
  rw [bundle, bundle, hsections]
  cases checkSections (assembly.program id) with
  | error refusal => exact Iff.rfl
  | ok => exact iff_of_false (fun h => nomatch h) fun h => nomatch h

/-! ### Tables -/

/-- The resources of a document that is resolved are decoded one by one. -/
theorem Document.Resolved.exists_entries {assembly : Assembly} {resources : List Resource}
    (h : document.Resolved catalog assembly) (hsome : document.resources = some resources) :
    ∃ entries, assembly.resources = some entries ∧
      List.Forall₂ (fun resource entry => resource.bytes = .ok entry) resources entries := by
  have hrel := h.resources
  rw [hsome] at hrel
  generalize assembly.resources = decoded at hrel ⊢
  cases hrel with
  | some hentries => exact ⟨_, rfl, hentries⟩

/-- What is read in the bytes of a program: of its screens, which are compiled one after the other,
and of the resources that the document brings. -/
structure Document.Unpacks (catalog : Option (List String)) (document : Document)
    (bundle : Bundle) : Prop where
  screens : ∃ payload screens ledger, Container.payload? 0x01 bundle.binary = some payload ∧
    Program.readTable 2 Program.screenCount payload = some (screens.map Program.Screen.bytes) ∧
    Threaded (fun screen l => Yields (screen.resolve (document.surroundings catalog)) l)
      document.screens ⟨[], [], .empty⟩ screens ledger
  resources : ∀ resources, document.resources = some resources →
    ∃ payload entries, Container.payload? 0x03 bundle.binary = some payload ∧
      Program.readTable 3 Program.resourceCount payload = some entries ∧
      List.Forall₂ Resource.Holds resources entries

theorem Document.Compiles.unpacks {id : UInt32} {bundle : Bundle}
    (h : document.Compiles catalog id bundle) : document.Unpacks catalog bundle := by
  obtain ⟨assembly, hresolve, hbundle⟩ := h
  have hresolved := resolved_of_resolve hresolve
  obtain ⟨hsections, rfl⟩ := Assembly.bundle_eq_ok_iff.1 hbundle
  obtain ⟨hscreens, -, hresources⟩ := Program.sectionsFit_iff.1 hsections
  obtain ⟨ledger, hyields, -⟩ := hresolved.yields
  have hthreaded := Screen.yields_resolveAll_iff.1 hyields
  refine ⟨⟨_, assembly.screens, ledger, Container.payload?_screens hsections, ?_, hthreaded⟩, ?_⟩
  · have hcount : (assembly.screens.map Program.Screen.bytes).length ≤ maxCount := by
      have hcount := hresolved.screenCount
      rw [surroundings, List.length_map] at hcount
      rw [List.length_map, hthreaded.length_eq]
      exact hcount
    exact Program.readTable_offsetTable (Program.screenCount_countByte hcount _)
      (Nat.lt_succ_of_le hscreens)
  · intro resources hsome
    obtain ⟨entries, hentries, hbytes⟩ := hresolved.exists_entries hsome
    have hcount := hresolved.resourceCount
    rw [surroundings, hsome, Option.getD_some, List.length_map, hbytes.length_eq] at hcount
    refine ⟨_, entries, Container.payload?_resources hsections hentries, ?_,
      hbytes.imp fun _ _ => Resource.bytes_eq_ok_iff.1⟩
    have hlength : (Program.resourcesBytes entries).length < Nat.pow 256 3 :=
      (hresources entries hentries).trans_lt (by decide)
    exact Program.readTable_offsetTable (Program.resourceCount_countByte hcount (by decide)) hlength

/-- **The tables of a program are lossless.**  Of a document that compiles, the table in the section
of its screens has the screens as they were compiled, in the order of the document; and if it brings
resources, the table in their section has for each of them the bytes for which its text stands.
Resources with distinct names, of which there are not more than 256 and whose section is not too
long, are never refused, wherever there are blanks in their texts: the document is refused only if
it would be refused without them, and for the same reason. -/
theorem Document.tables_lossless :
    (∀ catalog id document bundle, Document.Compiles catalog id document bundle →
      document.Unpacks catalog bundle) ∧
    ∀ resources entries, List.Forall₂ Resource.Holds resources entries →
      (resources.map Resource.id).Nodup → resources.length ≤ maxResources →
      (Program.resourcesBytes entries).length ≤ maxLength →
      ∀ catalog id (document : Document), document.resources = some resources → ∀ refusal,
        (document.resolve catalog >>= fun assembly => assembly.bundle id) = .error refusal ↔
          (document.resolveDetached catalog >>= fun assembly => assembly.bundle id) =
            .error refusal := by
  refine ⟨fun catalog id document bundle h => h.unpacks, ?_⟩
  intro resources entries hholds hnodup hcount hlength catalog id document hsome refusal
  have hdecode : Resource.decode document.resources = .ok (some entries) :=
    hsome ▸ Resource.decode_of_holds hholds hnodup hcount
  have hplaces : checkPlaces .resources 3 entries = .ok () :=
    Program.checkPlaces_of_length (hlength.trans_lt (by decide))
  rw [resolve_eq_detached hdecode hplaces]
  cases hdetached : document.resolveDetached catalog with
  | error refusal => exact Iff.rfl
  | ok assembly =>
    exact Assembly.bundle_attach_eq_error_iff (resources_of_resolveDetached hdetached) hlength

/-- The resources of the sample, with blanks in the text of the first, and an empty one. -/
def Document.spaced : Document :=
  { sample with resources := some [⟨"digits", " A Q\nID\t"⟩, ⟨"nothing", " "⟩] }

theorem Document.holds_spaced : List.Forall₂ Resource.Holds
    [⟨"digits", " A Q\nID\t"⟩, ⟨"nothing", " "⟩] [[1, 2, 3], []] :=
  .cons (by decide +kernel : Base64.encode _ = _)
    (.cons (by decide +kernel : Base64.encode _ = _) .nil)

/-- The sample is unpacked, and blanks in the texts of its resources are no reason to refuse it. -/
theorem Document.tables_lossless_sample :
    (∃ bundle, sample.Compiles none 7 bundle ∧ sample.Unpacks none bundle) ∧
      ∃ bundle, spaced.Compiles none 7 bundle := by
  obtain ⟨bundle, hcompiles⟩ := exists_compiles_sample
  refine ⟨⟨bundle, hcompiles, tables_lossless.1 none 7 sample bundle hcompiles⟩, ?_⟩
  have hrefused := tables_lossless.2 _ _ holds_spaced (by decide) (by decide) (by decide) none 7
    spaced rfl
  have hok : (spaced.resolveDetached none >>= fun assembly => assembly.bundle 7).isOk = true := by
    decide +kernel
  cases hbundle : spaced.resolve none >>= fun assembly => assembly.bundle 7 with
  | error refusal =>
    rw [(hrefused refusal).1 hbundle] at hok
    exact nomatch hok
  | ok bundle => exact ⟨bundle, bind_eq_ok_iff.1 hbundle⟩

end Timepiece
