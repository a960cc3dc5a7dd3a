import Mathlib
import Timepiece.Proofs.Resolution.Coverage
import Timepiece.Proofs.Resolution.Places

/-!
# No dangling reference

A program refers by numbers: to screens and resources of the document, to the fields of
a screen, and to the properties and functions in the tables of the bundle.  Every such
number leads to what the document names at that place, and every entry of the tables is
led to from somewhere.

## Main definitions

* `Document.Linked` — the numbers in a program lead where the names of the document do.

## Main results

* `Document.Compiles.linked` — **a document that compiles is linked**.
-/

namespace Timepiece

/-- The numbers in a program lead where the names of the document do. -/
structure Document.Linked (catalog : Option (List String)) (document : Document)
    (bundle : Bundle) (program : Program) : Prop where
  /-- The program is what the bundle holds. -/
  binary : bundle.binary = program.bytes
  /-- Every construct stands for the one at its place in the document, and so every number
  for the name that is written there. -/
  stand : List.Forall₂ (Screen.Stands (document.surroundings catalog) bundle.tables)
    document.screens program.screens
  /-- No number leads out of its table, at any place and any depth. -/
  closed : List.Forall₂ (fun screen out =>
    out.Closed (document.surroundings catalog) bundle.tables (screen.declared))
    document.screens program.screens
  /-- A name has one position among the screens. -/
  screenNames : (document.screens.map Screen.id).Nodup
  /-- A name has one position among the resources. -/
  resourceNames : ((document.resources.getD []).map Resource.id).Nodup
  /-- Every property is led to from some source. -/
  properties : ∀ place, place < bundle.properties.length →
    ∃ screen ∈ program.screens, ∃ source, screen.HasSource source ∧
      ∃ index, source.origin = .property index ∧ index.toNat = place
  /-- Every function is led to from some instruction. -/
  functions : ∀ place, place < bundle.functions.length →
    ∃ screen ∈ program.screens, ∃ body, screen.HasInstructions body ∧
      ∃ index, .callFunction index ∈ body ∧ index.toNat = place
  /-- No property is listed twice. -/
  identities : (bundle.properties.map Property.identity).Nodup
  /-- No function is listed twice. -/
  distinct : bundle.functions.Nodup

/-- **A document that compiles is linked.**  Names have become numbers that lead to what
they name, and nothing is listed that the program does not refer to. -/
theorem Document.Compiles.linked {catalog : Option (List String)} {id : UInt32}
    {document : Document} {bundle : Bundle} (h : document.Compiles catalog id bundle) :
    ∃ program, document.Linked catalog bundle program := by
  obtain ⟨program, -, hcompiled⟩ := h.compiled
  refine ⟨program, ?_⟩
  exact {
    binary := hcompiled.binary
    stand := hcompiled.stand
    closed := hcompiled.stand.imp fun _ _ hstands => hstands.closed
    screenNames := hcompiled.screenNames
    resourceNames := hcompiled.resourceNames
    properties := fun _ hplace => hcompiled.property_used hplace
    functions := fun _ hplace => hcompiled.function_used hplace
    identities := hcompiled.sound.identities
    distinct := hcompiled.sound.functions }

theorem Document.linked_sample : ∃ bundle, sample.Compiles none 7 bundle ∧
    ∃ program, sample.Linked none bundle program := by
  obtain ⟨bundle, hcompiles⟩ := exists_compiles_sample
  exact ⟨bundle, hcompiles, hcompiles.linked⟩

end Timepiece
