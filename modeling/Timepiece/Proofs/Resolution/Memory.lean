import Mathlib
import Timepiece.Proofs.Resolution.Documents
import Timepiece.Proofs.Resolution.Places

/-!
# Scratch memory

Controls whose value changes have their pieces of the screen's scratch memory, which are
handed out one after the other while the controls are compiled.  So the pieces of a screen,
also of the controls in the options of choices, do not overlap, and together they are all the
memory that the screen asks for.

## Main definitions

* `Control.rooms`, `Screen.rooms` — how many bytes the pieces take, as the document says.
* `Program.Control.pointers`, `Program.Screen.pointers` — where the pieces start, as the
  program says.
* `Lined` — pieces that lie one after the other.
* `Screen.Partitioned` — the pieces of a screen make up its memory.

## Main results

* `Control.lined_of_stands` — the pieces of a control and of those in it lie one after the
  other.
* `Lined.disjoint`, `Lined.mem_iff` — pieces in a row do not overlap and leave no gap.
* `Document.partitioned` — **the memory of every screen is made up of the pieces of its
  controls**, and a document that needs more than there can be does not compile.
-/

namespace Timepiece

open Compiling

/-! ### What the document asks for -/

/-- The range that a source leaves of that of a text of some length.  A written text takes
its own length. -/
def Source.textRange (source : Source) (length : Nat) : Range :=
  match source.origin with
  | .fixed literal => ⟨UInt8.ofNat literal.symbol.toUTF8.toList.length⟩
  | _ => ⟨UInt8.ofNat length⟩

/-- The range of a text control, once its source is compiled. -/
def TextControl.range (control : TextControl) : Range :=
  control.source.textRange (control.length.getD defaultTextLength).toNat

namespace Control

mutual

/-- How many bytes of scratch memory a control takes, and then those in its options. -/
def rooms : Control → List Nat
  | .number _ => [4]
  | .text control => [control.range.raw.toNat + 1]
  | .progress _ => [4]
  | .image _ => []
  | .imageSet _ => [4]
  | .choose _ options => 1 :: optionRooms options

/-- How many bytes of scratch memory the controls of a list take. -/
def listRooms : List Control → List Nat
  | [] => []
  | control :: rest => rooms control ++ listRooms rest

/-- How many bytes of scratch memory the controls in the options of a choice take. -/
def optionRooms : List (String × List Control) → List Nat
  | [] => []
  | (_, controls) :: rest => listRooms controls ++ optionRooms rest

end

theorem listRooms_eq (controls : List Control) : listRooms controls = controls.flatMap rooms := by
  induction controls with
  | nil => rfl
  | cons first others ih => rw [listRooms, ih, List.flatMap_cons]

theorem optionRooms_eq (options : List (String × List Control)) :
    optionRooms options = options.flatMap fun option => option.2.flatMap rooms := by
  induction options with
  | nil => rfl
  | cons first others ih =>
    obtain ⟨option, controls⟩ := first
    rw [optionRooms, ih, List.flatMap_cons, listRooms_eq]

end Control

/-- How many bytes of scratch memory the controls of a screen take, at any depth. -/
def Screen.rooms (screen : Screen) : List Nat := screen.controls.flatMap Control.rooms

/-! ### What the program says -/

namespace Program

namespace Control

mutual

/-- The pointers to scratch memory in the record of a control, and then in those in its
options. -/
def pointers : Control → List UInt16
  | .number _ _ _ scratch _ => [scratch]
  | .text _ _ _ _ scratch _ => [scratch]
  | .progress _ _ _ _ _ scratch _ => [scratch]
  | .image _ _ _ => []
  | .imageSet _ _ _ scratch _ => [scratch]
  | .choose _ scratch options => scratch :: optionPointers options

/-- The pointers in the records of a list of controls. -/
def listPointers : List Control → List UInt16
  | [] => []
  | control :: rest => pointers control ++ listPointers rest

/-- The pointers in the records in the options of a choice. -/
def optionPointers : List (UInt8 × List Control) → List UInt16
  | [] => []
  | (_, controls) :: rest => listPointers controls ++ optionPointers rest

end

theorem listPointers_eq (controls : List Control) :
    listPointers controls = controls.flatMap pointers := by
  induction controls with
  | nil => rfl
  | cons first others ih => rw [listPointers, ih, List.flatMap_cons]

theorem optionPointers_eq (options : List (UInt8 × List Control)) :
    optionPointers options = options.flatMap fun option => option.2.flatMap pointers := by
  induction options with
  | nil => rfl
  | cons first others ih =>
    obtain ⟨ordinal, controls⟩ := first
    rw [optionPointers, ih, List.flatMap_cons, listPointers_eq]

end Control

/-- The pointers to scratch memory in the records of a screen, at any depth. -/
def Screen.pointers (screen : Screen) : List UInt16 := screen.controls.flatMap Control.pointers

end Program

/-! ### Pieces in a row -/

/-- The bytes of the pieces that start at some pointers and take some rooms. -/
def regions (pointers : List UInt16) (rooms : List Nat) : List (Finset Nat) :=
  List.zipWith (fun pointer room => Finset.Ico pointer.toNat (pointer.toNat + room)) pointers rooms

/-- The pieces that start at some pointers and take some rooms lie one after the other between
two places. -/
inductive Lined : Nat → List UInt16 → List Nat → Nat → Prop
  | nil {start : Nat} : Lined start [] [] start
  | cons {pointer : UInt16} {room : Nat} {pointers : List UInt16} {rooms : List Nat}
    {stop : Nat} : Lined (pointer.toNat + room) pointers rooms stop →
    Lined pointer.toNat (pointer :: pointers) (room :: rooms) stop

namespace Lined

variable {start middle stop : Nat} {pointers pointers' : List UInt16} {rooms rooms' : List Nat}

theorem single (pointer : UInt16) (room : Nat) :
    Lined pointer.toNat [pointer] [room] (pointer.toNat + room) := .cons .nil

theorem append (h : Lined start pointers rooms middle) (h' : Lined middle pointers' rooms' stop) :
    Lined start (pointers ++ pointers') (rooms ++ rooms') stop := by
  induction h with
  | nil => exact h'
  | cons _ ih => exact .cons (ih h')

theorem length_eq (h : Lined start pointers rooms stop) : pointers.length = rooms.length := by
  induction h with
  | nil => rfl
  | cons _ ih => rw [List.length_cons, List.length_cons, ih]

/-- Pieces in a row take together what lies between their ends. -/
theorem sum_eq (h : Lined start pointers rooms stop) : start + rooms.sum = stop := by
  induction h with
  | nil => rfl
  | cons _ ih => rw [List.sum_cons, ← Nat.add_assoc, ih]

/-- A piece starts behind all those before it. -/
theorem offset (h : Lined start pointers rooms stop) {place : Nat} {pointer : UInt16}
    (hpointer : pointers[place]? = some pointer) :
    pointer.toNat = start + (rooms.take place).sum := by
  induction h generalizing place with
  | nil => exact nomatch hpointer
  | cons _ ih =>
    cases place with
    | zero =>
      obtain rfl := Option.some.inj hpointer
      rfl
    | succ place => rw [ih hpointer, List.take_succ_cons, List.sum_cons, Nat.add_assoc]

/-- **Pieces in a row leave no gap.** -/
theorem mem_iff (h : Lined start pointers rooms stop) (place : Nat) :
    (∃ region ∈ regions pointers rooms, place ∈ region) ↔ start ≤ place ∧ place < stop := by
  induction h with
  | nil => simp [regions]
  | @cons pointer room pointers rooms stop hrest ih =>
    have hsum := hrest.sum_eq
    rw [regions, List.zipWith_cons_cons, List.exists_mem_cons_iff, ← regions, ih, Finset.mem_Ico]
    omega

/-- **Pieces in a row do not overlap.** -/
theorem disjoint (h : Lined start pointers rooms stop) :
    (regions pointers rooms).Pairwise Disjoint := by
  induction h with
  | nil => exact .nil
  | cons hrest ih =>
    refine .cons (fun region hregion => ?_) ih
    rw [Finset.disjoint_left]
    intro place hfirst hplace
    -- the later pieces lie behind the first one
    have hbehind := ((hrest.mem_iff place).1 ⟨region, hregion, hplace⟩).1
    exact Nat.not_lt.2 hbehind (Finset.mem_Ico.1 hfirst).2

end Lined

/-- Items whose pieces lie in a row, each where the one before has ended. -/
theorem Threaded.lined {α β : Type} {step : α → Nat → β → Nat → Prop} {items : List α}
    {results : List β} {before after : Nat} {rooms : α → List Nat} {pointers : β → List UInt16}
    (h : Threaded step items before results after)
    (hstep : ∀ a ∈ items, ∀ {s b s'}, step a s b s' → Lined s (pointers b) (rooms a) s') :
    Lined before (results.flatMap pointers) (items.flatMap rooms) after := by
  induction h with
  | nil => exact .nil
  | cons hfirst _ ih =>
    obtain ⟨hstep, hsteps⟩ := List.forall_mem_cons.1 hstep
    rw [List.flatMap_cons, List.flatMap_cons]
    exact (hstep hfirst).append (ih hsteps)

/-! ### Controls -/

variable {around : Surroundings} {tables : Tables} {fields : Members ModelField}

theorem Source.Stands.textRange {source : Source} {length : Nat} {out : Program.Source}
    {need : Need} (h : source.Stands tables fields (.text length) out need) :
    need.range = source.textRange length := by
  have horigin : ∃ o, source.origin.Stands tables fields (.text length) o need := by
    cases h with
    | plain horigin _ | indexed horigin _ _ => exact ⟨_, horigin⟩
  obtain ⟨o, horigin⟩ := horigin
  unfold Source.textRange
  generalize source.origin = origin at horigin
  cases horigin with
  | text _ hbytes _ => rw [hbytes]
  | number hkind _ _ => exact nomatch hkind
  | internal hkind _ => exact nomatch hkind
  | sensor hkind _ => exact nomatch hkind
  | extension _ _ => rfl
  | model _ => rfl

/-- `Source.textRange` is the range that compiling a source leaves. -/
theorem Source.textRange_of_resolve {model : Model} {l l' : Ledger} {source : Source}
    {length : Nat} {out : Program.Source} {need : Need}
    (h : Yields (source.resolve around model (.text length)) l (out, need) l') :
    need.range = source.textRange length := by
  have horigin : ∃ o l₁, Yields (resolveOrigin around model (.text length) source.origin) l
      (o, need) l₁ := by
    cases source with
    | plain origin converters =>
      obtain ⟨o, l₁, -, horigin, -⟩ := yields_resolve_plain_iff.1 h
      exact ⟨o, l₁, horigin⟩
    | indexed origin index converters =>
      obtain ⟨o, l₁, -, -, -, -, horigin, -⟩ := yields_resolve_indexed_iff.1 h
      exact ⟨o, l₁, horigin⟩
  obtain ⟨o, l₁, horigin⟩ := horigin
  unfold textRange
  generalize source.origin = origin at horigin
  cases origin with
  | fixed literal =>
    obtain ⟨bytes, -, ⟨-, hbytes, rfl⟩ | ⟨hkind, -⟩⟩ :=
      resolveFixed_eq_ok_iff.1 (yields_resolveOrigin_fixed_iff.1 horigin).1
    · rw [(textBytes_eq_ok_iff.1 hbytes).1]
    · exact nomatch hkind
  | internal name =>
    obtain ⟨-, hkind, -⟩ := yields_resolveOrigin_internal_iff.1 horigin
    exact nomatch hkind
  | sensor name =>
    obtain ⟨-, hkind, -⟩ := yields_resolveOrigin_sensor_iff.1 horigin
    exact nomatch hkind
  | extension extension name =>
    obtain ⟨-, -, -, rfl⟩ := yields_resolveOrigin_extension_iff.1 horigin
    rfl
  | model name =>
    obtain ⟨-, -, -, rfl, -⟩ := yields_resolveOrigin_model_iff.1 horigin
    rfl

/-- The pieces of a control and of those in it lie one after the other. -/
theorem Control.lined_of_stands {control : Control} :
    ∀ {before out after}, control.Stands around tables fields before out after →
      Lined before out.pointers control.rooms after := by
  induction control using Control.induction with
  | hnumber c =>
    intro before out after h
    cases h with
    | number _ _ _ _ => exact .single _ _
  | htext c =>
    intro before out after h
    cases h with
    | text _ _ _ hsource =>
      rw [hsource.textRange]
      exact .single _ _
  | hprogress c =>
    intro before out after h
    cases h with
    | progress _ _ _ _ _ => exact .single _ _
  | himage c =>
    intro before out after h
    cases h with
    | image _ _ _ => exact .nil
  | himageSet c =>
    intro before out after h
    cases h with
    | imageSet _ _ _ _ => exact .single _ _
  | hchoose on options ih =>
    intro before out after h
    cases h with
    | choose _ _ hoptions =>
      rw [Program.Control.pointers, rooms, Program.Control.optionPointers_eq, optionRooms_eq]
      refine .cons (hoptions.lined fun option ho _ _ _ hbody => ?_)
      exact hbody.lined fun control hc _ _ _ hcontrol => ih option ho control hc hcontrol

/-! ### Screens -/

/-- The pieces of a screen's controls make up its scratch memory. -/
structure Screen.Partitioned (screen : Screen) (out : Program.Screen) : Prop where
  /-- Every piece that the document asks for has its pointer. -/
  count : out.pointers.length = screen.rooms.length
  /-- A piece starts behind all those before it; no pointer was cut to fit its bytes. -/
  offset : ∀ place pointer, out.pointers[place]? = some pointer →
    pointer.toNat = (screen.rooms.take place).sum
  /-- No two pieces overlap. -/
  disjoint : (regions out.pointers screen.rooms).Pairwise Disjoint
  /-- The pieces are all of the memory. -/
  union : ∀ place, (∃ region ∈ regions out.pointers screen.rooms, place ∈ region) ↔
    place < out.scratch.toNat
  /-- The size of the memory is what the pieces take; it was not cut to fit its bytes. -/
  size : out.scratch.toNat = screen.rooms.sum

theorem Screen.partitioned_of_stands {screen : Screen} {out : Program.Screen}
    (h : screen.Stands around tables out) : screen.Partitioned out := by
  have hlined : Lined 0 out.pointers screen.rooms out.scratch.toNat :=
    h.controls.lined fun _ _ _ _ _ hcontrol => Control.lined_of_stands hcontrol
  refine ⟨hlined.length_eq, fun place pointer hpointer => ?_, hlined.disjoint, fun place => ?_, ?_⟩
  · rw [hlined.offset hpointer, Nat.zero_add]
  · rw [hlined.mem_iff]
    exact and_iff_right (Nat.zero_le place)
  · rw [← hlined.sum_eq, Nat.zero_add]

/-- **The memory of every screen of a document is made up of the pieces of its controls.**  A
document that needs more than the memory can have does not compile.  The room of a text is one
byte more than the range that compiling its source leaves. -/
theorem Document.partitioned (document : Document) :
    (∀ catalog id bundle, document.Compiles catalog id bundle →
      ∃ program : Program, program.id = id ∧ bundle.binary = program.bytes ∧
        List.Forall₂ Screen.Partitioned document.screens program.screens) ∧
    (∀ screen ∈ document.screens, 65535 < screen.rooms.sum →
      ∀ catalog id bundle, ¬ document.Compiles catalog id bundle) ∧
    ∀ (source : Source) around model length l out need l',
      Yields (source.resolve around model (.text length)) l (out, need) l' →
        need.range = source.textRange length := by
  have hpartitioned : ∀ catalog id bundle, document.Compiles catalog id bundle →
      ∃ program : Program, program.id = id ∧ bundle.binary = program.bytes ∧
        List.Forall₂ Screen.Partitioned document.screens program.screens := by
    intro catalog id bundle h
    obtain ⟨program, hid, hcompiled⟩ := h.compiled
    exact ⟨program, hid, hcompiled.binary,
      hcompiled.stand.imp fun _ _ hscreen => Screen.partitioned_of_stands hscreen⟩
  refine ⟨hpartitioned, fun screen hscreen hsum catalog id bundle h => ?_,
    fun source around model length l out need l' h => source.textRange_of_resolve h⟩
  obtain ⟨program, -, -, hscreens⟩ := hpartitioned catalog id bundle h
  obtain ⟨out, -, hout⟩ := exists_right_of_forall₂ hscreens hscreen
  have hlt := out.scratch.toNat_lt
  have hsize := hout.size
  omega

/-- A screen that has a text of 64 bytes 253 times in each of four options. -/
def Screen.crowded : Screen :=
  let text : Control := .text ⟨⟨none, none⟩, ⟨some 60, some 20⟩, "smallBold",
    ⟨.left, .top, false⟩, some 64, .plain (.extension "music" "title") none⟩
  { id := "main"
    model := none
    controls :=
      [.choose (.plain (.extension "music" "state") none)
        (["0", "1", "2", "3"].map fun option => (option, List.replicate 253 text))]
    actions := none
    defaultActions := none
    settings := none }

theorem Screen.sum_rooms_crowded : crowded.rooms.sum = 65781 := by
  simp [crowded, rooms, Control.rooms, Control.optionRooms_eq, TextControl.range,
    Source.textRange, Source.origin, List.flatMap_replicate, -List.reduceReplicate]

theorem Document.partitioned_crowded :
    (∃ (bundle : Bundle) (program : Program), sample.Compiles none 7 bundle ∧ program.id = 7 ∧
      bundle.binary = program.bytes ∧
      List.Forall₂ Screen.Partitioned sample.screens program.screens) ∧
    ∀ catalog id bundle,
      ¬ Document.Compiles catalog id ⟨"watchset", 1, "crowded", none, [.crowded]⟩ bundle := by
  constructor
  · obtain ⟨bundle, hcompiles⟩ := exists_compiles_sample
    obtain ⟨program, hid, hbinary, hscreens⟩ := (partitioned sample).1 none 7 bundle hcompiles
    exact ⟨bundle, program, hcompiles, hid, hbinary, hscreens⟩
  · refine (partitioned _).2.1 Screen.crowded List.mem_cons_self ?_
    rw [Screen.sum_rooms_crowded]
    decide

end Timepiece
