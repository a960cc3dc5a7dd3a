import Mathlib
import Timepiece.Proofs.Numbers.Widths
import Timepiece.Proofs.Resolution.Merging
import Timepiece.Proofs.Resolution.Places

/-!
# Numbers on their way to the watch

A number control shows the numbers of its range.  Those of a property of an extension
are sent by the entry that the property has in the bundle: scaled by the precision of
the entry, in as many bytes as its size class says.  Both parts of the entry are at
least those of the control, but a greater precision needs more bytes, and the size class
does not grow with it.

## Main definitions

* `Document.numbers` — the number controls of a document.
* `Property.Carries` — how an entry sends the numbers of a range.
* `Document.crowded` — a document that shows one property with and without a decimal.

## Main results

* `Value.ofBigEndian_encodeNumber` — the bytes of a natural number are its scaled value,
  up to the room that there is.
* `Document.Compiles.carries` — **the numbers that a control can show arrive scaled, up
  to the room of the merged entry**, and whole if no other reference asks for more
  decimals.
* `Document.truncates_crowded` — a number that another reference asks to scale further
  can lose its first byte.
-/

namespace Timepiece

/-! ### Scaled numbers -/

namespace Value

/-- A natural number is scaled, and cut to the room that there is. -/
theorem ofBigEndian_encodeNumber {range : Range} {v : Nat} (hv : v < 100000)
    (hprecision : range.precision ≤ NumberRange.maxDecimals) :
    ofBigEndian (encodeNumber range (some (.integer v))) =
      v * Nat.pow 10 range.precision % Nat.pow 256 range.sizeClass := by
  have hpow : Nat.pow 10 range.precision ≤ Nat.pow 10 NumberRange.maxDecimals :=
    Nat.pow_le_pow_right (by decide) hprecision
  have hlt : v * Nat.pow 10 range.precision < 10000000 :=
    (Nat.mul_le_mul_left v hpow).trans_lt (Nat.mul_lt_mul_of_pos_right hv (by decide))
  have hfits : Text.inSigned64 (v * 10 ^ range.precision) = true := by
    have hcast : (v : Int) * 10 ^ range.precision = (v * Nat.pow 10 range.precision : Nat) := rfl
    simp only [Text.inSigned64, hcast, Bool.and_eq_true, decide_eq_true_eq]
    omega
  have hread := ofBigEndian_encodeNumber_eq_emod range (some (.integer v))
  rw [scaled_integer hfits] at hread
  exact Int.natCast_inj.1 hread

end Value

/-! ### Ranges and entries -/

/-- How an entry sends the numbers of a range: scaled, and cut to the room that there
is. -/
structure Property.Carries (entry : Property) (range : NumberRange) : Prop where
  kind : entry.kind = .number
  sizeClass : range.sizeClass ≤ entry.range.sizeClass
  precision : range.decimals ≤ entry.range.precision
  decimals : entry.range.precision ≤ NumberRange.maxDecimals
  bytes : ∀ v : Nat, v * Nat.pow 10 range.decimals ≤ range.bound →
    (Value.encode entry (some (.integer v))).length = entry.range.sizeClass ∧
      ofBigEndian (Value.encode entry (some (.integer v))) =
        v * Nat.pow 10 entry.range.precision % Nat.pow 256 entry.range.sizeClass
  /-- Nothing is cut exactly where the scaled number has the room. -/
  whole_iff : ∀ v : Nat, v * Nat.pow 10 range.decimals ≤ range.bound →
    (ofBigEndian (Value.encode entry (some (.integer v))) =
        v * Nat.pow 10 entry.range.precision ↔
      v * Nat.pow 10 entry.range.precision < Nat.pow 256 entry.range.sizeClass)
  /-- There is always the room if the range has all the decimals of the entry. -/
  whole : entry.range.precision = range.decimals → ∀ v : Nat,
    v * Nat.pow 10 range.decimals ≤ range.bound →
      ofBigEndian (Value.encode entry (some (.integer v))) =
        v * Nat.pow 10 entry.range.precision

/-- An entry that serves a number control sends its numbers. -/
theorem Property.carries_of_serves {entry : Property} {owner name : String} {range : NumberRange}
    (hserves : entry.Serves ⟨owner, name, .number, range.dataRange⟩) (hdrawable : range.Drawable)
    (hdecimals : entry.range.precision ≤ NumberRange.maxDecimals) : entry.Carries range := by
  obtain ⟨hsize, hprecision⟩ := hserves.range
  rw [hdrawable.dataRange_sizeClass] at hsize
  rw [hdrawable.dataRange_precision] at hprecision
  have hencode : ∀ value, Value.encode entry value = Value.encodeNumber entry.range value := by
    intro value
    rw [Value.encode, hserves.kind]
  have hvalue : ∀ v : Nat, v * Nat.pow 10 range.decimals ≤ range.bound →
      ofBigEndian (Value.encode entry (some (.integer v))) =
        v * Nat.pow 10 entry.range.precision % Nat.pow 256 entry.range.sizeClass := by
    intro v hv
    rw [hencode]
    exact Value.ofBigEndian_encodeNumber (hdrawable.lt_of_le_bound hv) hdecimals
  have hiff : ∀ v : Nat, v * Nat.pow 10 range.decimals ≤ range.bound →
      (ofBigEndian (Value.encode entry (some (.integer v))) =
          v * Nat.pow 10 entry.range.precision ↔
        v * Nat.pow 10 entry.range.precision < Nat.pow 256 entry.range.sizeClass) := by
    intro v hv
    rw [hvalue v hv]
    exact Nat.mod_eq_iff_lt (Nat.pow_pos (by decide)).ne'
  refine ⟨hserves.kind, hsize, hprecision, hdecimals, fun v hv => ⟨?_, hvalue v hv⟩, hiff, ?_⟩
  · rw [hencode, Value.length_encodeNumber]
  · intro hsame v hv
    -- the number is at most the bound, for which the control has the room
    refine (hiff v hv).2 ?_
    have hbound : range.bound < Nat.pow 256 range.sizeClass := lt_pow_byteCount range.bound
    have hroom : Nat.pow 256 range.sizeClass ≤ Nat.pow 256 entry.range.sizeClass :=
      Nat.pow_le_pow_right (by decide) hsize
    rw [hsame]
    exact (hv.trans_lt hbound).trans_le hroom

/-! ### The number controls of a document -/

namespace Control

mutual

/-- The number controls of a control: itself, or those in its options. -/
def numbers : Control → List NumberControl
  | .number control => [control]
  | .choose _ options => optionNumbers options
  | _ => []

/-- The number controls of a list of controls. -/
def listNumbers : List Control → List NumberControl
  | [] => []
  | control :: rest => numbers control ++ listNumbers rest

/-- The number controls of the options of a choice. -/
def optionNumbers : List (String × List Control) → List NumberControl
  | [] => []
  | (_, controls) :: rest => listNumbers controls ++ optionNumbers rest

end

theorem listNumbers_eq (controls : List Control) :
    listNumbers controls = controls.flatMap numbers := by
  induction controls with
  | nil => rfl
  | cons first others ih => rw [listNumbers, ih, List.flatMap_cons]

theorem optionNumbers_eq (options : List (String × List Control)) :
    optionNumbers options = options.flatMap fun option => option.2.flatMap numbers := by
  induction options with
  | nil => rfl
  | cons first others ih =>
    obtain ⟨option, controls⟩ := first
    rw [optionNumbers, ih, List.flatMap_cons, listNumbers_eq]

end Control

/-- The number controls of a document, at any depth. -/
def Document.numbers (document : Document) : List NumberControl :=
  document.screens.flatMap fun screen => screen.controls.flatMap Control.numbers

/-! ### Their entries -/

theorem Origin.Stands.serves {tables : Tables} {fields : Members ModelField} {need need' : Need}
    {owner name : String} {out : Program.Origin}
    (h : Origin.Stands tables fields need (.extension owner name) out need') :
    ∃ entry ∈ tables.properties, entry.Serves ⟨owner, name, need.kind, need.range⟩ := by
  cases h with
  | extension hentry hserves => exact ⟨_, List.mem_of_getElem? hentry, hserves⟩

/-- A source of an extension has an entry that serves it. -/
theorem Source.StandsFor.serves {tables : Tables} {fields : Members ModelField} {need : Need}
    {source : Source} {out : Program.Source} (h : source.StandsFor tables fields need out)
    {owner name : String} (horigin : source.origin = .extension owner name) :
    ∃ entry ∈ tables.properties, entry.Serves ⟨owner, name, need.kind, need.range⟩ := by
  obtain ⟨need', hstands⟩ := h
  cases hstands with
  | plain hstands _ | indexed hstands _ _ =>
    obtain rfl := horigin
    exact hstands.serves

/-- What a number control can show, and where its numbers come from, if that is an
extension. -/
def NumberControl.Served (tables : Tables) (control : NumberControl) : Prop :=
  ∃ range, NumberRange.ofText? control.numberRange = some range ∧
    ∀ owner name, control.source.origin = .extension owner name →
      ∃ entry ∈ tables.properties, entry.Serves ⟨owner, name, .number, range.dataRange⟩

variable {around : Surroundings} {tables : Tables} {fields : Members ModelField}

/-- The number controls of a control that stands for something are served. -/
theorem Control.served_of_stands {control : Control} :
    ∀ {before out after}, control.Stands around tables fields before out after →
      ∀ number ∈ control.numbers, number.Served tables := by
  induction control using Control.induction with
  | hnumber c =>
    intro before out after h number hnumber
    obtain rfl := List.mem_singleton.1 hnumber
    cases h with
    | number hrange _ _ hsource => exact ⟨_, hrange, fun _ _ horigin => hsource.serves horigin⟩
  | htext c | hprogress c | himage c | himageSet c =>
    exact fun _ _ hnumber => absurd hnumber List.not_mem_nil
  | hchoose on options ih =>
    intro before out after h number hnumber
    rw [numbers, optionNumbers_eq] at hnumber
    obtain ⟨option, ho, hnumber⟩ := List.mem_flatMap.1 hnumber
    obtain ⟨control, hc, hnumber⟩ := List.mem_flatMap.1 hnumber
    cases h with
    | choose _ _ hoptions =>
      obtain ⟨_, _, _, hbody⟩ := hoptions.exists_step ho
      obtain ⟨_, _, _, hcontrol⟩ := hbody.exists_step hc
      exact ih option ho control hc hcontrol number hnumber

theorem Document.Compiled.served {catalog : Option (List String)} {document : Document}
    {bundle : Bundle} {program : Program} (h : document.Compiled catalog bundle program)
    {control : NumberControl} (hcontrol : control ∈ document.numbers) :
    control.Served bundle.tables := by
  obtain ⟨screen, hscreen, hcontrol⟩ := List.mem_flatMap.1 hcontrol
  obtain ⟨top, htop, hcontrol⟩ := List.mem_flatMap.1 hcontrol
  obtain ⟨out, -, hstands⟩ := exists_right_of_forall₂ h.stand hscreen
  obtain ⟨_, _, _, hcontrols⟩ := hstands.controls.exists_step htop
  exact Control.served_of_stands hcontrols control hcontrol

/-- **The numbers that a control can show arrive scaled, up to the room of the merged
entry.** -/
theorem Document.Compiles.carries {catalog : Option (List String)} {id : UInt32}
    {document : Document} {bundle : Bundle} (h : document.Compiles catalog id bundle)
    {control : NumberControl} (hcontrol : control ∈ document.numbers) {owner name : String}
    (horigin : control.source.origin = .extension owner name) :
    ∃ range, NumberRange.ofText? control.numberRange = some range ∧
      ∃ entry ∈ bundle.properties, entry.identity = (owner, name) ∧
        (∀ other ∈ bundle.properties, other.identity = (owner, name) → other = entry) ∧
        entry.Merges document.references ∧ entry.Carries range := by
  obtain ⟨program, -, hcompiled⟩ := h.compiled
  obtain ⟨range, hrange, hentry⟩ := hcompiled.served hcontrol
  obtain ⟨entry, hmem, hserves⟩ := hentry owner name horigin
  have hidentity : entry.identity = (owner, name) := hserves.identity
  have hmerges := hcompiled.merges hmem
  obtain ⟨-, hdrawable⟩ := NumberRange.ofText?_eq_some hrange
  -- some reference of the document asks for the decimals of the entry
  have hdecimals : entry.range.precision ≤ NumberRange.maxDecimals := by
    obtain ⟨reference, hr, hsame, hprecision⟩ := hmerges.precision hserves.kind
    have hkind : reference.kind = .number :=
      (hmerges.serves hr hsame).kind.symm.trans hserves.kind
    rw [← hprecision]
    exact document.modest_of_mem_references _ hr hkind
  refine ⟨range, hrange, entry, hmem, hidentity, fun other hother hsame => ?_, hmerges,
    Property.carries_of_serves hserves hdrawable hdecimals⟩
  exact hcompiled.sound.eq_of_identity hother hmem (hsame.trans hidentity.symm)

theorem Document.carries_sample : ∃ bundle, sample.Compiles none 7 bundle ∧
    ∃ control ∈ sample.numbers, control.source.origin = .extension "weather" "temperature" ∧
      ∃ range, NumberRange.ofText? control.numberRange = some range ∧
        ∃ entry ∈ bundle.properties, entry.identity = ("weather", "temperature") ∧
          (∀ other ∈ bundle.properties, other.identity = ("weather", "temperature") →
            other = entry) ∧
          entry.Merges sample.references ∧ entry.Carries range := by
  obtain ⟨bundle, hcompiles⟩ := exists_compiles_sample
  have hmem : ⟨"0-99", ⟨some 4, none⟩, .numbersFont (some 2) true "digits",
      .indexed (.extension "weather" "temperature") (.plain (.model "page") none) none⟩ ∈
        sample.numbers := by decide
  exact ⟨bundle, hcompiles, _, hmem, rfl, hcompiles.carries hmem rfl⟩

/-! ### A number that loses its first byte -/

/-- One property is shown up to 99, which takes a byte, and up to 9.9, which takes a byte
too.  Its entry has a decimal, but only that one byte. -/
def Document.crowded : Document where
  kind := "watchset"
  version := 1
  name := "crowded"
  resources := none
  screens :=
    [{ id := "main"
       model := none
       controls := ["0-99", "0-9.9"].map fun range =>
         .number ⟨range, ⟨none, none⟩, .generated none false none (some 8) (some 12),
           .plain (.extension "weather" "temperature") none⟩
       actions := none
       defaultActions := none
       settings := none }]

/-- The entry of the property sends 99 as 222, which is 990 without its first byte. -/
theorem Document.truncates_crowded : ∃ bundle, crowded.Compiles none 7 bundle ∧
    ∃ control ∈ crowded.numbers, control.source.origin = .extension "weather" "temperature" ∧
      ∃ range, NumberRange.ofText? control.numberRange = some range ∧
        99 * Nat.pow 10 range.decimals ≤ range.bound ∧
        ∃ entry ∈ bundle.properties, entry.identity = ("weather", "temperature") ∧
          ofBigEndian (Value.encode entry (some (.integer (99 : Nat)))) = 222 ∧
          222 ≠ 99 * Nat.pow 10 entry.range.precision := by
  have hok : (crowded.resolve none >>= fun assembly => assembly.bundle 7).map Bundle.properties =
      .ok [⟨"weather", "temperature", .number, Range.number 1 1⟩] := by
    decide +kernel
  obtain ⟨bundle, hbundle, hproperties⟩ := map_eq_ok_iff.1 hok
  have hmem : ⟨"0-99", ⟨none, none⟩, .generated none false none (some 8) (some 12),
      .plain (.extension "weather" "temperature") none⟩ ∈ crowded.numbers := by decide
  have hentry : ⟨"weather", "temperature", .number, Range.number 1 1⟩ ∈ bundle.properties :=
    hproperties ▸ List.mem_singleton_self _
  refine ⟨bundle, bind_eq_ok_iff.1 hbundle, _, hmem, rfl, ⟨2, false, 0⟩, by decide, by decide, _,
    hentry, rfl, ?_, ?_⟩
  · decide +kernel
  · decide

end Timepiece
