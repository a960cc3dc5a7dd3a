import Mathlib
import Timepiece.Proofs.Program.Sections
import Timepiece.Proofs.Resolution.Fitting

/-!
# Documents that compile

A document that compiles has distinct names for its screens and resources, few enough
of both, and screens that compile one after the other from empty tables.  The bundle
holds the tables as they are at the end and the bytes of the program.

## Main definitions

* `Document.Compiles` — a document compiles to a bundle.
* `Document.references` — the references of a document.
* `Document.Resolved` — all that is known of a document without names.
* `Document.Compiled` — all that is known then, with the program that was written.
* `Document.sample` — a small document that compiles.

## Main results

* `Assembly.bundle_eq_ok_iff` — a program is written if its sections fit.
* `Document.Compiles.compiled` — **what compiling a document does**.
* `Compiler.compile_eq_ok_iff` — compiling a text is reading it and compiling what was
  read.
-/

namespace Timepiece

open Compiling

/-! ### Names -/

theorem checkScreenNames_eq_ok {seen names : List String}
    (h : checkScreenNames seen names = .ok ()) :
    names.Nodup ∧ ∀ name ∈ names, name ∉ seen := by
  induction names generalizing seen with
  | nil => exact ⟨.nil, fun _ h => absurd h List.not_mem_nil⟩
  | cons first others ih =>
    unfold checkScreenNames at h
    split at h
    · exact nomatch h
    · next hnew =>
      obtain ⟨hnodup, hothers⟩ := ih h
      -- the later names were checked against the first one too
      have hfirst : first ∉ others := fun hmem => hothers first hmem List.mem_cons_self
      refine ⟨List.nodup_cons.2 ⟨hfirst, hnodup⟩, List.forall_mem_cons.2 ⟨?_, ?_⟩⟩
      · simpa using hnew
      · exact fun name hmem hseen => hothers name hmem (List.mem_cons_of_mem _ hseen)

theorem Resource.decodeAll_eq_ok {seen : List String} {resources : List Resource}
    {entries : List Bytes} (h : decodeAll seen resources = .ok entries) :
    (resources.map Resource.id).Nodup ∧ (∀ resource ∈ resources, resource.id ∉ seen) ∧
      List.Forall₂ (fun resource entry => resource.bytes = .ok entry) resources entries := by
  induction resources generalizing seen entries with
  | nil =>
    obtain rfl := Except.ok.inj h
    exact ⟨.nil, fun _ h => absurd h List.not_mem_nil, .nil⟩
  | cons first others ih =>
    unfold decodeAll at h
    split at h
    · exact nomatch h
    · next hnew =>
      obtain ⟨bytes, hbytes, h⟩ := bind_eq_ok_iff.1 h
      obtain ⟨rest, hrest, h⟩ := bind_eq_ok_iff.1 h
      obtain rfl := Except.ok.inj h
      obtain ⟨hnodup, hothers, hentries⟩ := ih hrest
      have hfirst : first.id ∉ others.map Resource.id := by
        intro hmem
        obtain ⟨resource, hresource, hid⟩ := List.mem_map.1 hmem
        exact hothers resource hresource (hid ▸ List.mem_cons_self)
      refine ⟨List.nodup_cons.2 ⟨hfirst, hnodup⟩, List.forall_mem_cons.2 ⟨?_, ?_⟩,
        .cons hbytes hentries⟩
      · simpa using hnew
      · exact fun resource hmem hseen => hothers resource hmem (List.mem_cons_of_mem _ hseen)

theorem Resource.decode_eq_ok {resources : Option (List Resource)}
    {entries : Option (List Bytes)} (h : decode resources = .ok entries) :
    ((resources.getD []).map Resource.id).Nodup ∧
      ((resources.getD []).map Resource.id).length ≤ maxResources ∧
      Option.Rel (List.Forall₂ fun resource entry => resource.bytes = .ok entry) resources
        entries := by
  cases resources with
  | none =>
    obtain rfl := Except.ok.inj h
    exact ⟨.nil, Nat.zero_le _, .none⟩
  | some resources =>
    unfold decode at h
    dsimp only at h
    split at h
    · obtain ⟨_, h, -⟩ := bind_eq_ok_iff.1 h
      exact nomatch h
    · next hcount =>
      obtain ⟨decoded, hdecoded, h⟩ := bind_eq_ok_iff.1 h
      obtain rfl := Except.ok.inj h
      obtain ⟨hnodup, -, hentries⟩ := decodeAll_eq_ok hdecoded
      refine ⟨hnodup, ?_, .some hentries⟩
      rw [Option.getD_some, List.length_map]
      exact Nat.not_lt.1 hcount

/-! ### Documents -/

namespace Document

/-- What is fixed while a document is compiled. -/
def surroundings (catalog : Option (List String)) (document : Document) : Surroundings :=
  ⟨document.screens.map Screen.id, (document.resources.getD []).map Resource.id, catalog⟩

/-- The references of a document, screen by screen. -/
def references (document : Document) : List Reference := document.screens.flatMap Screen.references

/-- The document compiles to the bundle, if the program gets the number. -/
def Compiles (catalog : Option (List String)) (id : UInt32) (document : Document)
    (bundle : Bundle) : Prop :=
  ∃ assembly, document.resolve catalog = .ok assembly ∧ assembly.bundle id = .ok bundle

end Document

/-- The tables of a bundle. -/
def Bundle.tables (bundle : Bundle) : Tables := ⟨bundle.properties, bundle.functions⟩

/-! ### Assemblies -/

namespace Assembly

theorem checkLength_eq_ok_iff {what : Measured} {bytes : Bytes} {u : Unit} :
    checkLength what bytes = .ok u ↔ bytes.length ≤ maxLength := by
  unfold checkLength
  split
  · next h => exact iff_of_true rfl h
  · next h => exact iff_of_false (fun heq => nomatch heq) h

/-- Sections are let pass if they fit. -/
theorem checkSections_eq_ok_iff {program : Program} :
    checkSections program = .ok () ↔ program.SectionsFit := by
  rw [Program.sectionsFit_iff]
  unfold checkSections
  cases program.resources with
  | none => simp [bind_eq_ok_iff, checkLength_eq_ok_iff, pure, Except.pure]
  | some resources => simp [bind_eq_ok_iff, checkLength_eq_ok_iff]

/-- A program is written if its sections fit. -/
theorem bundle_eq_ok_iff {assembly : Assembly} {id : UInt32} {bundle : Bundle} :
    assembly.bundle id = .ok bundle ↔ (assembly.program id).SectionsFit ∧
      bundle = ⟨id, assembly.name, (assembly.program id).bytes, assembly.properties,
        assembly.functions⟩ := by
  unfold Assembly.bundle
  rw [bind_eq_ok_iff]
  constructor
  · rintro ⟨_, hsections, hbundle⟩
    exact ⟨checkSections_eq_ok_iff.1 hsections, (Except.ok.inj hbundle).symm⟩
  · rintro ⟨hsections, rfl⟩
    exact ⟨(), checkSections_eq_ok_iff.2 hsections, rfl⟩

end Assembly

/-- What is known of a document whose names are resolved. -/
structure Document.Resolved (catalog : Option (List String)) (document : Document)
    (assembly : Assembly) : Prop where
  screenNames : (document.surroundings catalog).screens.Nodup
  screenCount : (document.surroundings catalog).screens.length ≤ maxScreens
  resourceNames : (document.surroundings catalog).resources.Nodup
  resourceCount : (document.surroundings catalog).resources.length ≤ maxResources
  yields : ∃ ledger, Yields (Screen.resolveAll (document.surroundings catalog) document.screens)
    ⟨[], [], .empty⟩ assembly.screens ledger ∧
      ledger.properties = assembly.properties ∧ ledger.functions = assembly.functions
  resources : Option.Rel (List.Forall₂ fun resource entry => resource.bytes = .ok entry)
    document.resources assembly.resources

theorem Document.resolved_of_resolve {catalog : Option (List String)} {document : Document}
    {assembly : Assembly} (h : document.resolve catalog = .ok assembly) :
    document.Resolved catalog assembly := by
  unfold resolve at h
  obtain ⟨_, -, h⟩ := bind_eq_ok_iff.1 h
  obtain ⟨resources, hresources, h⟩ := bind_eq_ok_iff.1 h
  obtain ⟨hnodup, hcount, hentries⟩ := Resource.decode_eq_ok hresources
  dsimp only at h
  split at h
  · obtain ⟨_, h, -⟩ := bind_eq_ok_iff.1 h
    exact nomatch h
  · next hscreens =>
    obtain ⟨_, hnames, h⟩ := bind_eq_ok_iff.1 h
    obtain ⟨⟨screens, ledger⟩, hyields, h⟩ := bind_eq_ok_iff.1 h
    obtain ⟨_, -, h⟩ := bind_eq_ok_iff.1 h
    -- resources may be missing, but then there is nothing to count
    have hassembly : assembly =
        ⟨document.name, screens, ledger.properties, ledger.functions, resources⟩ := by
      cases resources with
      | none => exact (Except.ok.inj h).symm
      | some entries =>
        obtain ⟨_, -, h⟩ := bind_eq_ok_iff.1 h
        exact (Except.ok.inj h).symm
    subst hassembly
    refine ⟨(checkScreenNames_eq_ok hnames).1, ?_, hnodup, hcount, ⟨ledger, hyields, rfl, rfl⟩,
      hentries⟩
    show (document.screens.map Screen.id).length ≤ maxScreens
    rw [List.length_map]
    exact Nat.not_lt.1 hscreens

/-- Resources are listed if the document has a list of them. -/
theorem Document.Resolved.isSome_resources {catalog : Option (List String)} {document : Document}
    {assembly : Assembly} (h : document.Resolved catalog assembly) :
    document.resources.isSome = assembly.resources.isSome :=
  match document.resources, assembly.resources, h.resources with
  | _, _, .some _ => rfl
  | _, _, .none => rfl

/-! ### Bundles -/

/-- What is known of a document that compiles to a bundle, and of the program whose
bytes the bundle holds. -/
structure Document.Compiled (catalog : Option (List String)) (document : Document)
    (bundle : Bundle) (program : Program) : Prop where
  screenNames : (document.surroundings catalog).screens.Nodup
  screenCount : (document.surroundings catalog).screens.length ≤ maxScreens
  resourceNames : (document.surroundings catalog).resources.Nodup
  resourceCount : (document.surroundings catalog).resources.length ≤ maxResources
  yields : ∃ ledger, Yields (Screen.resolveAll (document.surroundings catalog) document.screens)
    ⟨[], [], .empty⟩ program.screens ledger ∧ ledger.tables = bundle.tables
  resources : Option.Rel (List.Forall₂ fun resource entry => resource.bytes = .ok entry)
    document.resources program.resources
  id : program.id = bundle.id
  properties : program.properties = bundle.properties.map Assembly.entry
  binary : bundle.binary = program.bytes

theorem Document.Compiles.compiled {catalog : Option (List String)} {id : UInt32}
    {document : Document} {bundle : Bundle} (h : document.Compiles catalog id bundle) :
    ∃ program : Program, program.id = id ∧ document.Compiled catalog bundle program := by
  obtain ⟨assembly, hresolve, hbundle⟩ := h
  have hresolved := resolved_of_resolve hresolve
  obtain ⟨ledger, hyields, hproperties, hfunctions⟩ := hresolved.yields
  obtain ⟨-, rfl⟩ := Assembly.bundle_eq_ok_iff.1 hbundle
  -- the number of the program is the only thing that the document does not say
  exact ⟨assembly.program id, rfl, hresolved.screenNames, hresolved.screenCount,
    hresolved.resourceNames, hresolved.resourceCount,
    ⟨ledger, hyields, by rw [Ledger.tables, hproperties, hfunctions, Bundle.tables]⟩,
    hresolved.resources, rfl, rfl, rfl⟩

namespace Document.Compiled

variable {catalog : Option (List String)} {document : Document} {bundle : Bundle}
  {program : Program}

theorem countable (h : document.Compiled catalog bundle program) :
    (document.surroundings catalog).Countable :=
  ⟨h.screenCount.trans (by decide), h.resourceCount.trans (by decide)⟩

/-- Compiling takes in the references of the document, and nothing else. -/
theorem enters (h : document.Compiled catalog bundle program) :
    Tables.empty.Enters (document.surroundings catalog) document.references bundle.tables := by
  obtain ⟨ledger, hyields, htables⟩ := h.yields
  rw [← htables]
  exact Screen.enters_of_resolveAll hyields

theorem sound (h : document.Compiled catalog bundle program) : bundle.tables.Sound :=
  h.enters.sound Tables.sound_empty

/-- The screens of the program stand for those of the document. -/
theorem stand (h : document.Compiled catalog bundle program) :
    List.Forall₂ (Screen.Stands (document.surroundings catalog) bundle.tables) document.screens
      program.screens := by
  obtain ⟨ledger, hyields, htables⟩ := h.yields
  have hlast : ledger.tables.Grows bundle.tables := htables ▸ .refl _
  -- from the last screen back: a screen is compiled with tables that only grow later
  exact ((Screen.yields_resolveAll_iff.1 hyields).forall₂
    (P := fun l => l.tables.Grows bundle.tables) hlast
    (fun _ _ _ _ _ h hlater => (Screen.enters_of_resolve h).grows.trans hlater)
    fun _ _ _ _ _ hscreen => Screen.stands_of_resolve h.countable hscreen).2

/-- The screens of the program fit. -/
theorem fit (h : document.Compiled catalog bundle program) :
    ∀ screen ∈ program.screens, screen.Fits := by
  obtain ⟨ledger, hyields, -⟩ := h.yields
  intro screen hmem
  obtain ⟨_, -, _, _, hscreen⟩ := (Screen.yields_resolveAll_iff.1 hyields).exists_of_mem hmem
  exact Screen.fits_of_resolve h.countable hscreen

end Document.Compiled

/-! ### A document that compiles -/

namespace Document

/-- One screen with a field, a number of an extension that the field picks, a choice,
and a button. -/
def sample : Document where
  kind := "watchset"
  version := 1
  name := "sample"
  resources := some [⟨"digits", "AQID"⟩]
  screens :=
    [{ id := "main"
       model := some [("page", .integer (some (.constant 1)) none none true)]
       controls :=
         [.number ⟨"0-99", ⟨some 4, none⟩, .numbersFont (some 2) true "digits",
            .indexed (.extension "weather" "temperature") (.plain (.model "page") none) none⟩,
          .choose (.plain (.model "page") none)
            [("1", [.text ⟨⟨none, none⟩, ⟨some 60, some 20⟩, "smallBold", ⟨.left, .top, false⟩,
              none, .plain (.fixed (.text "min")) none⟩])]]
       actions := some ⟨none, [("button_up_short",
         [.call (.model "page" .increment), .call (.showScreen "main"),
          .call (.extensionFunction "music" "play" "")])]⟩
       defaultActions := some "watchface"
       settings := some [("invertible", true)] }]

theorem exists_compiles_sample : ∃ bundle, sample.Compiles none 7 bundle := by
  have hok : (sample.resolve none >>= fun assembly => assembly.bundle 7).isOk = true := by
    decide +kernel
  cases hbundle : sample.resolve none >>= fun assembly => assembly.bundle 7 with
  | error refusal =>
    rw [hbundle] at hok
    exact nomatch hok
  | ok bundle => exact ⟨bundle, bind_eq_ok_iff.1 hbundle⟩

end Document

/-! ### Texts -/

/-- **Compiling a text is reading a document and compiling it.** -/
theorem Compiler.compile_eq_ok_iff {compiler : Compiler} {source : String} {id : Option UInt32}
    {bundle : Bundle} :
    (compiler.compile source id).1 = .ok bundle ↔
      ∃ document, Document.ofText source = .ok document ∧
        document.Compiles compiler.catalog (compiler.takeId id).1 bundle := by
  unfold compile assemble Document.Compiles
  cases Document.ofText source with
  | error fault => simp
  | ok document =>
    cases hresolve : document.resolve compiler.catalog with
    | error refusal => simp [hresolve]
    | ok assembly => simp [hresolve]

end Timepiece
