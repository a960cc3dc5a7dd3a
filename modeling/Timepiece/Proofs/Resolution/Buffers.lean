import Mathlib
import Timepiece.Proofs.Numbers.Carrying
import Timepiece.Proofs.Resolution.Memory
import Timepiece.Proofs.Resolution.Tabulation

/-!
# Buffers of texts

A text control takes as much scratch memory as the longest text that its own reference asks for,
and a byte for the mark behind it.  The host cuts a text to the length of the entry, which is the
greatest one that any reference of the document asks for.  So a text of an extension has the room
if no reference to its property asks for a longer one, and otherwise a long text is written over
the next piece of the memory.

## Main definitions

* `Control.texts`, `Screen.texts` — the texts that the pieces of the scratch memory are for.
* `Property.written` — the bytes that a value takes in a buffer.
* `Screen.Buffers` — how the buffer of a text goes with the entry of its property.
* `Document.twice` — a document that shows one text twice.

## Main results

* `Value.exists_encode_length` — the length of an entry is reached by some text.
* `Document.Compiles.buffered` — **a buffer holds all that its property may be sent if and only if
  no other reference asks for more**.
* `Document.overruns_twice` — a text that is written over the next piece.
-/

namespace Timepiece

/-! ### Pieces for texts -/

namespace Control

mutual

/-- The texts that the pieces of a control are for, one by one; none where a piece is for something
else. -/
def texts : Control → List (Option TextControl)
  | .number _ => [none]
  | .text control => [some control]
  | .progress _ => [none]
  | .image _ => []
  | .imageSet _ => [none]
  | .choose _ options => none :: optionTexts options

/-- The texts that the pieces of the controls of a list are for. -/
def listTexts : List Control → List (Option TextControl)
  | [] => []
  | control :: rest => texts control ++ listTexts rest

/-- The texts that the pieces in the options of a choice are for. -/
def optionTexts : List (String × List Control) → List (Option TextControl)
  | [] => []
  | (_, controls) :: rest => listTexts controls ++ optionTexts rest

end

theorem listTexts_eq (controls : List Control) : listTexts controls = controls.flatMap texts := by
  induction controls with
  | nil => rfl
  | cons first others ih => rw [listTexts, ih, List.flatMap_cons]

theorem optionTexts_eq (options : List (String × List Control)) :
    optionTexts options = options.flatMap fun option => option.2.flatMap texts := by
  induction options with
  | nil => rfl
  | cons first others ih =>
    obtain ⟨option, controls⟩ := first
    rw [optionTexts, ih, List.flatMap_cons, listTexts_eq]

end Control

/-- The texts that the pieces of a screen's scratch memory are for, at any depth. -/
def Screen.texts (screen : Screen) : List (Option TextControl) :=
  screen.controls.flatMap Control.texts

/-- Lists that go together item by item go together as a whole. -/
theorem forall₂_flatMap {α β γ : Type} {R : β → γ → Prop} {f : α → List β} {g : α → List γ}
    {items : List α} (h : ∀ a ∈ items, List.Forall₂ R (f a) (g a)) :
    List.Forall₂ R (items.flatMap f) (items.flatMap g) := by
  induction items with
  | nil => exact .nil
  | cons first others ih =>
    obtain ⟨hfirst, hothers⟩ := List.forall_mem_cons.1 h
    rw [List.flatMap_cons, List.flatMap_cons]
    exact List.rel_append hfirst (ih hothers)

/-- A piece for a text has its length, and a byte for the mark behind it. -/
def TextControl.Rooms (text : Option TextControl) (room : Nat) : Prop :=
  ∀ control ∈ text, room = control.range.length + 1

theorem Control.rooms_texts (control : Control) :
    List.Forall₂ TextControl.Rooms control.texts control.rooms := by
  have hother (room : Nat) : TextControl.Rooms none room := by
    intro control hmem
    cases hmem
  induction control using Control.induction with
  | hnumber c | hprogress c | himageSet c => exact .cons (hother 4) .nil
  | himage c => exact .nil
  | htext c =>
    refine .cons ?_ .nil
    intro control hmem
    obtain rfl := Option.some.inj hmem
    rfl
  | hchoose on options ih =>
    rw [texts, rooms, optionTexts_eq, optionRooms_eq]
    refine .cons (hother 1) (forall₂_flatMap fun option ho => ?_)
    exact forall₂_flatMap fun control hc => ih option ho control hc

/-- The piece of a text on a screen has the room that the text asks for. -/
theorem Screen.room_of_text {screen : Screen} {place : Nat} {control : TextControl}
    (h : screen.texts[place]? = some (some control)) :
    screen.rooms[place]? = some (control.range.length + 1) := by
  have hrooms : List.Forall₂ TextControl.Rooms screen.texts screen.rooms :=
    forall₂_flatMap fun control _ => control.rooms_texts
  obtain ⟨hlength, hget⟩ := List.forall₂_iff_get.1 hrooms
  obtain ⟨hlt, htext⟩ := List.getElem?_eq_some_iff.1 h
  have hroom := hget place hlt (hlength ▸ hlt) control htext
  rw [← hroom]
  exact List.getElem?_eq_getElem _

/-! ### Their entries -/

/-- The entry of a text's property, if its source is one of an extension. -/
def TextControl.Served (tables : Tables) (control : TextControl) : Prop :=
  ∀ owner name, control.source.origin = .extension owner name →
    ∃ entry ∈ tables.properties, entry.Serves ⟨owner, name, .text, control.range⟩

section Served

variable {around : Surroundings} {tables : Tables} {fields : Members ModelField}

/-- The texts of a control that stands for something are served. -/
theorem Control.texts_served_of_stands {control : Control} :
    ∀ {before out after}, control.Stands around tables fields before out after →
      ∀ text, some text ∈ control.texts → text.Served tables := by
  induction control using Control.induction with
  | htext c =>
    intro before out after h text htext
    obtain rfl := Option.some.inj (List.mem_singleton.1 htext)
    intro owner name horigin
    cases h with
    | text _ _ _ hsource =>
      have hrange : text.range = ⟨UInt8.ofNat (text.length.getD defaultTextLength).toNat⟩ := by
        rw [TextControl.range, Source.textRange, horigin]
      rw [hrange]
      exact Source.StandsFor.serves ⟨_, hsource⟩ horigin
  | hnumber c | hprogress c | himageSet c =>
    intro before out after _ text htext
    exact absurd (List.mem_singleton.1 htext) (by simp)
  | himage c =>
    intro before out after _ text htext
    exact absurd htext List.not_mem_nil
  | hchoose on options ih =>
    intro before out after h text htext
    rw [texts, optionTexts_eq] at htext
    have htext := (List.mem_cons.1 htext).resolve_left (by simp)
    obtain ⟨option, ho, htext⟩ := List.mem_flatMap.1 htext
    obtain ⟨control, hc, htext⟩ := List.mem_flatMap.1 htext
    cases h with
    | choose _ _ hoptions =>
      obtain ⟨_, _, _, hbody⟩ := hoptions.exists_step ho
      obtain ⟨_, _, _, hcontrol⟩ := hbody.exists_step hc
      exact ih option ho control hc hcontrol text htext

theorem Screen.Stands.text_served {screen : Screen} {out : Program.Screen}
    (h : screen.Stands around tables out) {text : TextControl} (htext : some text ∈ screen.texts) :
    text.Served tables := by
  obtain ⟨control, hc, htext⟩ := List.mem_flatMap.1 htext
  obtain ⟨_, _, _, hcontrol⟩ := h.controls.exists_step hc
  exact Control.texts_served_of_stands hcontrol text htext

end Served

/-! ### What is written -/

/-- The bytes that a value of a property takes in a buffer, with the mark behind them. -/
def Property.written (entry : Property) (pointer : UInt16) (value : Option Value) : Finset Nat :=
  Finset.Ico pointer.toNat (pointer.toNat + ((Value.encode entry value).length + 1))

/-- A text of an entry has at most its length. -/
theorem Value.encode_length_le {entry : Property} (hkind : entry.kind = .text)
    (value : Option Value) : (encode entry value).length ≤ entry.range.length := by
  rw [encode, hkind]
  exact encodeText_length_le entry.range value

/-- The length of an entry is reached by some text. -/
theorem Value.exists_encode_length {entry : Property} (hkind : entry.kind = .text) :
    ∃ value, (encode entry value).length = entry.range.length := by
  refine ⟨some (.text (String.ofList (List.replicate entry.range.length 'x'))), ?_⟩
  have hfold : Text.foldAscii (List.replicate entry.range.length 'x') =
      List.replicate entry.range.length 'x' := by
    rw [Text.foldAscii, List.flatMap_replicate, show Text.foldChar 'x' = ['x'] by decide]
    simp
  rw [encode, hkind]
  simp only [encodeText, folded, display, String.toList_ofList, hfold, Text.asciiBytes,
    List.length_take, List.length_map, List.length_replicate]
  exact Nat.min_self _

/-- How the buffer at a place among the pieces of a screen, for a text of a length, goes with the
entry of the property that is shown there. -/
structure Screen.Buffers (references : List Property) (screen : Screen) (out : Program.Screen)
    (place length : Nat) (entry : Property) (pointer : UInt16) : Prop where
  kind : entry.kind = .text
  /-- The entry has the greatest length that is asked for. -/
  greatest : IsGreatest (Property.parts references entry.identity Range.length) entry.range.length
  /-- The piece starts at the pointer, and has a byte more than the length. -/
  starts : out.pointers[place]? = some pointer
  room : screen.rooms[place]? = some (length + 1)
  /-- Whatever is reported has the room if and only if nowhere a longer text is asked for. -/
  holds_iff : (∀ value, (Value.encode entry value).length + 1 ≤ length + 1) ↔
    ∀ reference ∈ references, reference.identity = entry.identity →
      reference.range.length ≤ length
  /-- What has the room stays within the piece. -/
  within : ∀ value, (Value.encode entry value).length + 1 ≤ length + 1 →
    entry.written pointer value ⊆ Finset.Ico pointer.toNat (pointer.toNat + (length + 1))
  /-- So it leaves all other pieces alone. -/
  apart : ∀ value, (Value.encode entry value).length + 1 ≤ length + 1 →
    ∀ (other : Nat) (region : Finset Nat), other ≠ place →
      (regions out.pointers screen.rooms)[other]? = some region →
      Disjoint (entry.written pointer value) region
  /-- What does not have the room is written over the next piece. -/
  overruns : ∀ value, length + 1 < (Value.encode entry value).length + 1 →
    ∀ next : UInt16, out.pointers[place + 1]? = some next →
      next.toNat ∈ entry.written pointer value

/-- Pieces at different places do not overlap. -/
theorem Screen.Partitioned.disjoint_of_ne {screen : Screen} {out : Program.Screen}
    (h : screen.Partitioned out) {a b : Nat} (hne : a ≠ b) {first second : Finset Nat}
    (ha : (regions out.pointers screen.rooms)[a]? = some first)
    (hb : (regions out.pointers screen.rooms)[b]? = some second) : Disjoint first second := by
  obtain ⟨hlta, rfl⟩ := List.getElem?_eq_some_iff.1 ha
  obtain ⟨hltb, rfl⟩ := List.getElem?_eq_some_iff.1 hb
  have hpairs := List.pairwise_iff_getElem.1 h.disjoint
  rcases Nat.lt_or_gt_of_ne hne with hlt | hgt
  · exact hpairs a b hlta hltb hlt
  · exact (hpairs b a hltb hlta hgt).symm

/-- A piece ends where the next one starts. -/
theorem Screen.Partitioned.next {screen : Screen} {out : Program.Screen}
    (h : screen.Partitioned out) {place room : Nat} {pointer next : UInt16}
    (hpointer : out.pointers[place]? = some pointer) (hroom : screen.rooms[place]? = some room)
    (hnext : out.pointers[place + 1]? = some next) : next.toNat = pointer.toNat + room := by
  rw [h.offset _ _ hnext, h.offset _ _ hpointer, List.take_add_one, hroom]
  simp

/-- **A buffer goes with the entry of its property.** -/
theorem Screen.Partitioned.buffers {references : List Property} {screen : Screen}
    {out : Program.Screen} {entry : Property} (h : screen.Partitioned out) (place length : Nat)
    (hroom : screen.rooms[place]? = some (length + 1))
    (hkind : entry.kind = .text)
    (hgreatest : IsGreatest (Property.parts references entry.identity Range.length)
      entry.range.length) :
    ∃ pointer, screen.Buffers references out place length entry pointer := by
  obtain ⟨hlt, -⟩ := List.getElem?_eq_some_iff.1 hroom
  obtain ⟨pointer, hpointer⟩ : ∃ pointer, out.pointers[place]? = some pointer :=
    ⟨_, List.getElem?_eq_getElem (h.count.symm ▸ hlt)⟩
  have hregion : (regions out.pointers screen.rooms)[place]? =
      some (Finset.Ico pointer.toNat (pointer.toNat + (length + 1))) := by
    rw [regions, List.getElem?_zipWith, hpointer, hroom]
  have hwithin : ∀ value, (Value.encode entry value).length + 1 ≤ length + 1 →
      entry.written pointer value ⊆ Finset.Ico pointer.toNat (pointer.toNat + (length + 1)) :=
    fun value hfits => Finset.Ico_subset_Ico_right (Nat.add_le_add_left hfits _)
  refine ⟨pointer, hkind, hgreatest, hpointer, hroom, ⟨?_, ?_⟩, hwithin, ?_, ?_⟩
  · intro hall reference hr hidentity
    obtain ⟨value, hvalue⟩ := Value.exists_encode_length hkind
    have hle := hall value
    have hbound := hgreatest.2 ⟨reference, hr, hidentity, rfl⟩
    omega
  · intro hall value
    -- the length of the entry is that of some reference
    obtain ⟨reference, hr, hidentity, hlength⟩ := hgreatest.1
    have hbound := hall reference hr hidentity
    have hle := Value.encode_length_le hkind value
    omega
  · intro value hfits other region hother hget
    exact (h.disjoint_of_ne hother.symm hregion hget).mono_left (hwithin value hfits)
  · intro value hlong next hnext
    have hstart := h.next hpointer hroom hnext
    rw [Property.written, Finset.mem_Ico]
    omega

/-! ### Documents -/

/-- **The buffer of a text holds all that its property may be sent if and only if no other
reference of the document asks for a longer text.**  Then nothing is written over other pieces;
otherwise a text that is too long is written over the next one. -/
theorem Document.Compiles.buffered {catalog : Option (List String)} {id : UInt32}
    {document : Document} {bundle : Bundle} (h : document.Compiles catalog id bundle) :
    ∃ program : Program, program.id = id ∧ bundle.binary = program.bytes ∧
      List.Forall₂ (fun screen out => ∀ place control owner name,
        screen.texts[place]? = some (some control) →
        control.source.origin = .extension owner name →
        ∃ entry ∈ bundle.properties, entry.identity = (owner, name) ∧
          (∀ other ∈ bundle.properties, other.identity = (owner, name) → other = entry) ∧
          ∃ pointer, screen.Buffers document.propertyReferences out place control.range.length
            entry pointer) document.screens program.screens := by
  obtain ⟨program, hid, hcompiled⟩ := h.compiled
  refine ⟨program, hid, hcompiled.binary, hcompiled.stand.imp fun screen out hstands => ?_⟩
  intro place control owner name htext horigin
  obtain ⟨entry, hentry, hserves⟩ :=
    hstands.text_served (List.mem_of_getElem? htext) owner name horigin
  have hidentity : entry.identity = (owner, name) := hserves.identity
  have hkind : entry.kind = .text := hserves.kind
  refine ⟨entry, hentry, hidentity, fun other hother hsame => ?_, ?_⟩
  · exact hcompiled.sound.eq_of_identity hother hentry (hsame.trans hidentity.symm)
  · have hgreatest := h.tabulates.length entry hentry (by rw [hkind]; decide)
    exact (Screen.partitioned_of_stands hstands).buffers place control.range.length
      (Screen.room_of_text htext) hkind hgreatest

/-! ### A text that is shown twice -/

namespace Document

/-- The title of the music in two lengths. -/
def twice (first second : Int) : Document where
  kind := "watchset"
  version := 1
  name := "twice"
  resources := none
  screens :=
    [{ id := "main"
       model := none
       controls := [first, second].map fun length =>
         .text ⟨⟨none, none⟩, ⟨some 60, some 20⟩, "smallBold", ⟨.left, .top, false⟩, some length,
           .plain (.extension "music" "title") none⟩
       actions := none
       defaultActions := none
       settings := none }]

/-- Where both are of the same length, each has the room. -/
theorem buffered_twice : ∃ bundle, (twice 20 20).Compiles none 7 bundle ∧
    ∃ program : Program, program.id = 7 ∧ bundle.binary = program.bytes ∧
      List.Forall₂ (fun screen out => ∀ place control owner name,
        screen.texts[place]? = some (some control) →
        control.source.origin = .extension owner name →
        ∃ entry ∈ bundle.properties, entry.identity = (owner, name) ∧
          (∀ other ∈ bundle.properties, other.identity = (owner, name) → other = entry) ∧
          ∃ pointer, screen.Buffers (twice 20 20).propertyReferences out place
            control.range.length entry pointer) (twice 20 20).screens program.screens := by
  have hok : ((twice 20 20).resolve none >>= fun assembly => assembly.bundle 7).map
      Bundle.properties = .ok [⟨"music", "title", .text, ⟨20⟩⟩] := by
    decide +kernel
  obtain ⟨bundle, hbundle, -⟩ := map_eq_ok_iff.1 hok
  have hcompiles : (twice 20 20).Compiles none 7 bundle := bind_eq_ok_iff.1 hbundle
  exact ⟨bundle, hcompiles, hcompiles.buffered⟩

/-- Where the first is shorter, it has six bytes, and a title of twenty letters is written over the
second one. -/
theorem overruns_twice : ∃ bundle, (twice 5 20).Compiles none 7 bundle ∧
    ∃ program : Program, bundle.binary = program.bytes ∧
      ∃ screen ∈ (twice 5 20).screens, ∃ out ∈ program.screens, ∃ control,
        screen.texts[0]? = some (some control) ∧
        control.source.origin = .extension "music" "title" ∧ screen.rooms[0]? = some 6 ∧
        ∃ entry ∈ bundle.properties, entry.identity = ("music", "title") ∧
          ∃ value, (Value.encode entry value).length + 1 = 21 ∧
            ∃ pointer next, out.pointers[0]? = some pointer ∧ out.pointers[1]? = some next ∧
              next.toNat ∈ entry.written pointer value := by
  have hok : ((twice 5 20).resolve none >>= fun assembly => assembly.bundle 7).map
      Bundle.properties = .ok [⟨"music", "title", .text, ⟨20⟩⟩] := by
    decide +kernel
  obtain ⟨bundle, hbundle, hproperties⟩ := map_eq_ok_iff.1 hok
  have hcompiles : (twice 5 20).Compiles none 7 bundle := bind_eq_ok_iff.1 hbundle
  obtain ⟨program, -, hcompiled⟩ := hcompiles.compiled
  obtain ⟨out, hout, hstands⟩ := exists_right_of_forall₂ hcompiled.stand List.mem_cons_self
  have hpartitioned := Screen.partitioned_of_stands hstands
  have hentry : ⟨"music", "title", .text, ⟨20⟩⟩ ∈ bundle.properties :=
    hproperties ▸ List.mem_singleton_self _
  have hgreatest := hcompiles.tabulates.length _ hentry (by decide)
  obtain ⟨pointer, hbuffer⟩ := hpartitioned.buffers 0 5 rfl rfl hgreatest
  have hcount : 1 < out.pointers.length := by
    rw [hpartitioned.count]
    decide
  have hnext := List.getElem?_eq_getElem hcount
  have hencode : (Value.encode ⟨"music", "title", .text, ⟨20⟩⟩
      (some (.text "Eine kleine Nachtmusik"))).length + 1 = 21 := by
    decide +kernel
  exact ⟨bundle, hcompiles, program, hcompiled.binary, _, List.mem_cons_self, out, hout, _, rfl,
    rfl, rfl, _, hentry, rfl, _, hencode, pointer, _, hbuffer.starts, hnext,
    hbuffer.overruns _ (by rw [hencode]; decide) _ hnext⟩

end Document

end Timepiece
