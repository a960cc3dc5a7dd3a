import Mathlib
import Timepiece.Proofs.Program.Decoding
import Timepiece.Proofs.Resolution.Documents

/-!
# Compiling loses nothing

Compiling a document yields a program that stands for it, and the bytes of that program
can be read back.  Every screen, and in it the model and every list of controls, list of
instructions and source at any depth, is told by its own bytes, whatever follows them.

## Main definitions

* `Program.Screen.Readable` — all of a screen can be read back.

## Main results

* `Program.Screen.Fits.readable` — screens that fit can be read back.
* `Document.Compiles.lossless` — **what a document has become can be told from its
  bytes**.
-/

namespace Timepiece

open Reader

namespace Program

/-- Each part of the screen, and the screen itself, is taken from its bytes by the
reader of its kind, whatever follows. -/
structure Screen.Readable (screen : Screen) : Prop where
  whole : Takes Screen.read screen.bytes screen
  model : ∀ fields, screen.model = some fields → Takes readModel (modelBytes fields) fields
  controls : ∀ body, screen.HasControls body → Takes readControls (controlsBytes body) body
  instructions : ∀ body, screen.HasInstructions body →
    Takes readInstructions (instructionsBytes body) body
  source : ∀ source, screen.HasSource source → Takes Source.read source.bytes source

theorem Screen.Fits.readable {screen : Screen} (h : screen.Fits) : screen.Readable where
  whole := Screen.takes_read h
  model := fun fields hmodel => takes_readModel (h.model fields hmodel)
  controls := fun _ hbody => takes_readControls (h.controlList hbody)
  instructions := fun _ hbody => takes_readInstructions (h.instructions hbody)
  source := fun _ hsource => Source.takes_read (h.source hsource)

end Program

/-- **Compiling is lossless.**  A document that compiles has become a program whose
screens stand for its own, in their order; the bundle holds the bytes of that program,
and from them everything in it can be read back. -/
theorem Document.Compiles.lossless {catalog : Option (List String)} {id : UInt32}
    {document : Document} {bundle : Bundle} (h : document.Compiles catalog id bundle) :
    ∃ program : Program, program.id = id ∧ bundle.binary = program.bytes ∧
      List.Forall₂ (Screen.Stands (document.surroundings catalog) bundle.tables)
        document.screens program.screens ∧
      ∀ screen ∈ program.screens, screen.Readable := by
  obtain ⟨program, hid, hcompiled⟩ := h.compiled
  exact ⟨program, hid, hcompiled.binary, hcompiled.stand,
    fun screen hscreen => (hcompiled.fit screen hscreen).readable⟩

theorem Document.lossless_sample : ∃ bundle, sample.Compiles none 7 bundle ∧
    ∃ program : Program, program.id = 7 ∧ bundle.binary = program.bytes ∧
      List.Forall₂ (Screen.Stands (sample.surroundings none) bundle.tables)
        sample.screens program.screens ∧
      ∀ screen ∈ program.screens, screen.Readable := by
  obtain ⟨bundle, hcompiles⟩ := exists_compiles_sample
  exact ⟨bundle, hcompiles, hcompiles.lossless⟩

end Timepiece
