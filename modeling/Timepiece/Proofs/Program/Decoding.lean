import Mathlib
import Timepiece.Proofs.Program.Parts
import Timepiece.Proofs.Reader

/-!
# Reading programs back

For every construct of a program there is a reader that takes it off the front of a
string of bytes.  Constructs that nest are read to a given depth; the number of
bytes at hand is always enough, since every nesting takes at least one.

## Main definitions

* `Source.read`, `readInstructions`, `readControls`, `readModel`, `readHandlers`,
  `Screen.read` — the readers.

## Main results

* `Source.takes_read`, `takes_readInstructions`, `takes_readControls`,
  `takes_readModel`, `takes_readHandlers`, `Screen.takes_read` — **each reader takes
  every construct that fits from its bytes**.
-/

namespace Timepiece

namespace Reader

variable {α : Type}

/-- Something that is there or not. -/
def optional (present : Bool) (r : Reader α) : Reader (Option α) :=
  if present then do
    let value ← r
    pure (some value)
  else pure none

theorem takes_optional_none {r : Reader α} : Takes (optional false r) [] none := takes_pure none

theorem takes_optional_some {r : Reader α} {bytes : Bytes} {value : α} (h : Takes r bytes value) :
    Takes (optional true r) bytes (some value) :=
  h.bind_pure (f := some)

/-- A byte that must be the given one. -/
def expect (value : UInt8) : Reader Unit := do
  let found ← byte
  if found = value then pure () else failure

/-- What is led by a fixed byte is read after that byte. -/
theorem takes_expect_bind {value : UInt8} {r : Reader α} {bytes : Bytes} {a : α}
    (h : Takes r bytes a) : Takes (expect value >>= fun _ => r) (value :: bytes) a := by
  have hbyte : Takes (expect value) [value] () := by
    apply takes_byte_bind
    rw [if_pos rfl]
    exact takes_pure ()
  exact hbyte.bind h

/-- Two fixed bytes that are there or not. -/
def mark (first second : UInt8) : Reader Bool := fun bytes =>
  match bytes with
  | a :: b :: rest => if a = first ∧ b = second then some (true, rest) else some (false, bytes)
  | _ => some (false, bytes)

/-- A mark that may be missing is told from anything that is led by another
byte. -/
theorem takes_mark_bind {first second next : UInt8} {present : Bool} {f : Bool → Reader α}
    {bytes : Bytes} {a : α} (hnext : next ≠ first) (h : Takes (f present) (next :: bytes) a) :
    Takes (mark first second >>= f)
      ((if present then [first, second] else []) ++ next :: bytes) a := by
  intro rest
  have hread : mark first second
      ((if present then [first, second] else []) ++ (next :: bytes ++ rest)) =
        some (present, next :: bytes ++ rest) := by
    -- a mark is two bytes, and what follows a missing one may be a single byte
    cases present with
    | true => simp [mark]
    | false =>
      cases hrest : bytes ++ rest with
      | nil => simp [mark, hrest]
      | cons b others => simp [mark, hrest, hnext]
  show (mark first second _).bind _ = _
  rw [List.append_assoc, hread]
  exact h rest

/-- What takes at least one byte is never read to depth zero. -/
theorem takes_of_depth {r : Nat → Reader α} {bytes : Bytes} {a : α} (hpos : 0 < bytes.length)
    (h : ∀ depth, bytes.length ≤ depth + 1 → Takes (r (depth + 1)) bytes a) :
    ∀ {depth : Nat}, bytes.length ≤ depth → Takes (r depth) bytes a := by
  intro depth hdepth
  cases depth with
  | zero => exact absurd hdepth (Nat.not_le.2 hpos)
  | succ depth => exact h depth hdepth

end Reader

namespace Program

open Reader

/-! ### Sources -/

/-- The kind of an origin, in the byte that leads a source. -/
def kindOf (head : UInt8) : UInt8 := head % indexFlag

/-- Whether a source has an index, in the byte that leads it. -/
def hasIndex (head : UInt8) : Bool := head / indexFlag % 2 == 1

/-- Whether a source has converters, in the byte that leads it. -/
def hasConverters (head : UInt8) : Bool := converterFlag ≤ head

/-- The byte that leads a source. -/
def headOf (origin : Origin) (index converters : Bool) : UInt8 :=
  origin.kind + (if index then indexFlag else 0) + (if converters then converterFlag else 0)

theorem kindOf_headOf (origin : Origin) (index converters : Bool) :
    kindOf (headOf origin index converters) = origin.kind := by
  cases origin <;> cases index <;> cases converters <;>
    simp [kindOf, headOf, Origin.kind, indexFlag, converterFlag]

theorem hasIndex_headOf (origin : Origin) (index converters : Bool) :
    hasIndex (headOf origin index converters) = index := by
  cases origin <;> cases index <;> cases converters <;>
    simp [hasIndex, headOf, Origin.kind, indexFlag, converterFlag]

theorem hasConverters_headOf (origin : Origin) (index converters : Bool) :
    hasConverters (headOf origin index converters) = converters := by
  cases origin <;> cases index <;> cases converters <;>
    simp [hasConverters, headOf, Origin.kind, indexFlag, converterFlag]

/-- The origin of a given kind. -/
def Origin.read (kind : UInt8) : Reader Origin :=
  match kind with
  | 0x00 => do
    let bytes ← countedBytes
    pure (.fixed bytes)
  | 0x01 => do
    let key ← byte
    pure (.internal key)
  | 0x02 => do
    let key ← byte
    pure (.sensor key)
  | 0x03 => do
    let index ← byte
    pure (.property index)
  | 0x04 => do
    let id ← byte
    pure (.field id)
  | _ => failure

theorem Origin.takes_read {origin : Origin} (h : origin.Fits) :
    Takes (Origin.read origin.kind) origin.payload origin := by
  cases origin with
  | fixed bytes => exact (takes_countedBytes h).bind_pure (f := Origin.fixed)
  | internal key => exact (takes_byte key).bind_pure (f := Origin.internal)
  | sensor key => exact (takes_byte key).bind_pure (f := Origin.sensor)
  | property index => exact (takes_byte index).bind_pure (f := Origin.property)
  | field id => exact (takes_byte id).bind_pure (f := Origin.field)

theorem takes_converters {converters : Option (List UInt8)} (h : ConvertersFit converters) :
    Takes (optional converters.isSome countedBytes) (convertersBytes converters) converters := by
  cases converters with
  | none => exact takes_optional_none
  | some keys => exact takes_optional_some (takes_countedBytes (h keys rfl))

/-- A source whose indices are nested at most to the given depth. -/
def Source.readAt : (depth : Nat) → Reader Source
  | 0 => failure
  | depth + 1 => do
    let head ← byte
    let origin ← Origin.read (kindOf head)
    let index ← optional (hasIndex head) (readAt depth)
    let converters ← optional (hasConverters head) countedBytes
    pure (ofParts origin index converters)

/-- A source. -/
def Source.read : Reader Source := fun bytes => readAt bytes.length bytes

theorem Source.bytes_plain (origin : Origin) (converters : Option (List UInt8)) :
    (plain origin converters).bytes =
      headOf origin false converters.isSome ::
        (origin.payload ++ convertersBytes converters) := by
  rw [bytes, headOf, flagOf, if_neg Bool.false_ne_true, UInt8.add_zero]
  rfl

theorem Source.bytes_indexed (origin : Origin) (index : Source)
    (converters : Option (List UInt8)) :
    (indexed origin index converters).bytes =
      headOf origin true converters.isSome ::
        (origin.payload ++ (index.bytes ++ convertersBytes converters)) := by
  rw [bytes, headOf, flagOf, if_pos rfl, List.append_assoc]
  rfl

theorem Source.takes_readAt {source : Source} (h : source.Fits) :
    ∀ {depth : Nat}, source.bytes.length ≤ depth → Takes (readAt depth) source.bytes source := by
  induction source with
  | plain origin converters =>
    rw [bytes_plain]
    refine takes_of_depth (r := readAt) (by simp) fun depth hdepth => takes_byte_bind ?_
    rw [kindOf_headOf, hasIndex_headOf, hasConverters_headOf]
    exact (Origin.takes_read h.1).bind (takes_optional_none.bind (takes_converters h.2).bind_pure)
  | indexed origin index converters ih =>
    rw [bytes_indexed]
    refine takes_of_depth (r := readAt) (by simp) fun depth hdepth => takes_byte_bind ?_
    -- the byte that leads the source pays for the nesting of its index
    have hindex : Takes (readAt depth) index.bytes index := by
      apply ih h.2.1
      simp only [List.length_cons, List.length_append] at hdepth
      omega
    rw [kindOf_headOf, hasIndex_headOf, hasConverters_headOf]
    exact (Origin.takes_read h.1).bind
      ((takes_optional_some hindex).bind (takes_converters h.2.2).bind_pure)

theorem Source.takes_read {source : Source} (h : source.Fits) :
    Takes Source.read source.bytes source := by
  intro rest
  apply takes_readAt h
  rw [List.length_append]
  omega

/-! ### Instructions -/

/-- An instruction whose choices are nested at most to the given depth. -/
def Instruction.readAt : (depth : Nat) → Reader Instruction
  | 0 => failure
  | depth + 1 => do
    let opcode ← byte
    match opcode with
    | 0x01 => pure .toggleBacklight
    | 0x02 => pure .toggleColors
    | 0x10 => do
      let number ← word
      pure (.showScreen number)
    | 0x11 => pure .settings
    | 0x12 => pure .close
    | 0x20 => do
      let index ← word
      pure (.callFunction index)
    | 0x30 => pure (.stopwatch .start)
    | 0x31 => pure (.stopwatch .stop)
    | 0x32 => pure (.stopwatch .reset)
    | 0x33 => pure (.stopwatch .startStop)
    | 0x34 => pure (.stopwatch .nextLap)
    | 0x40 => do
      let field ← byte
      let value ← Source.read
      pure (.setField field value)
    | 0x41 => do
      let field ← byte
      let value ← Source.read
      pure (.addToField field value)
    | 0x42 => do
      let field ← byte
      let value ← Source.read
      pure (.subtractFromField field value)
    | 0x43 => do
      let field ← byte
      pure (.incrementField field)
    | 0x44 => do
      let field ← byte
      pure (.decrementField field)
    | 0x50 => do
      let on ← Source.read
      let options ← counted do
        let ordinal ← byte
        let body ← measured (counted (readAt depth))
        pure (ordinal, body)
      pure (.choose on options)
    | _ => failure

/-- A list of instructions. -/
def readInstructions : Reader (List Instruction) := fun bytes =>
  counted (Instruction.readAt bytes.length) bytes

/-- The bytes of an option of a choice between instructions. -/
def instructionOptionBytes (option : UInt8 × List Instruction) : Bytes :=
  option.1 :: block (instructionsBytes option.2)

theorem instructionBodies_eq (body : List Instruction) :
    instructionBodies body = body.flatMap Instruction.bytes := by
  induction body with
  | nil => rfl
  | cons first rest ih => rw [instructionBodies, ih, List.flatMap_cons]

theorem instructionOptionsBytes_eq (options : List (UInt8 × List Instruction)) :
    instructionOptionsBytes options = options.flatMap instructionOptionBytes := by
  induction options with
  | nil => rfl
  | cons first rest ih =>
    obtain ⟨ordinal, body⟩ := first
    rw [instructionOptionsBytes, ih, List.flatMap_cons]
    rfl

theorem Instruction.bytes_choose (on : Source) (options : List (UInt8 × List Instruction)) :
    (choose on options).bytes =
      0x50 :: (on.bytes ++
        (countByte options.length :: options.flatMap instructionOptionBytes)) := by
  rw [bytes, instructionOptionsBytes_eq]
  rfl

theorem instructionsBytes_eq (body : List Instruction) :
    instructionsBytes body = countByte body.length :: body.flatMap Instruction.bytes := by
  rw [instructionsBytes, instructionBodies_eq]

/-- The bytes of a member of a list are among those of the list. -/
theorem length_le_of_mem_flatMap {α : Type} (write : α → Bytes) {items : List α} {item : α}
    (h : item ∈ items) : (write item).length ≤ (items.flatMap write).length := by
  rw [List.flatMap_def]
  exact (List.sublist_flatten_of_mem (List.mem_map_of_mem h)).length_le

theorem Instruction.length_bytes_lt (on : Source) {options : List (UInt8 × List Instruction)}
    {option : UInt8 × List Instruction} {instruction : Instruction} (ho : option ∈ options)
    (hi : instruction ∈ option.2) :
    instruction.bytes.length < (choose on options).bytes.length := by
  have hoption := length_le_of_mem_flatMap instructionOptionBytes ho
  have hbody := length_le_of_mem_flatMap Instruction.bytes hi
  rw [instructionOptionBytes, block, instructionsBytes_eq] at hoption
  rw [bytes_choose]
  simp only [List.length_cons, List.length_append] at hoption ⊢
  omega

theorem Instruction.takes_readAt {instruction : Instruction} (h : instruction.Fits) :
    ∀ {depth : Nat}, instruction.bytes.length ≤ depth →
      Takes (readAt depth) instruction.bytes instruction := by
  have hpos : 0 < instruction.bytes.length := by
    cases instruction <;> simp [bytes]
  induction h with
  | @plain instruction hplain hsources =>
    refine @takes_of_depth _ readAt _ _ hpos fun depth hdepth => ?_
    cases instruction with
    | toggleBacklight => exact takes_byte_bind (takes_pure _)
    | toggleColors => exact takes_byte_bind (takes_pure _)
    | close => exact takes_byte_bind (takes_pure _)
    | settings => exact takes_byte_bind (takes_pure _)
    | stopwatch call => cases call <;> exact takes_byte_bind (takes_pure _)
    | showScreen number => exact takes_byte_bind ((takes_word number).bind_pure)
    | callFunction index => exact takes_byte_bind ((takes_word index).bind_pure)
    | setField field value =>
      exact takes_byte_bind (takes_byte_bind
        (Source.takes_read (hsources value (List.mem_singleton_self value))).bind_pure)
    | addToField field value =>
      exact takes_byte_bind (takes_byte_bind
        (Source.takes_read (hsources value (List.mem_singleton_self value))).bind_pure)
    | subtractFromField field value =>
      exact takes_byte_bind (takes_byte_bind
        (Source.takes_read (hsources value (List.mem_singleton_self value))).bind_pure)
    | incrementField field => exact takes_byte_bind ((takes_byte field).bind_pure)
    | decrementField field => exact takes_byte_bind ((takes_byte field).bind_pure)
    | choose on options => exact absurd rfl (hplain on options)
  | @choose on options hon hcount hlists _ ih =>
    refine @takes_of_depth _ readAt _ _ hpos fun depth hdepth => ?_
    -- the instructions of an option are nested one level less deep
    have hbody : ∀ option ∈ options,
        Takes (counted (readAt depth)) (instructionsBytes option.2) option.2 := by
      intro option ho
      rw [instructionsBytes_eq]
      refine takes_counted (hlists option ho).1 fun instruction hi => ?_
      have hlt := length_bytes_lt on ho hi
      refine ih option ho instruction hi ?_ (by omega)
      cases instruction <;> simp [bytes]
    rw [bytes_choose]
    refine takes_byte_bind ((Source.takes_read hon).bind ?_)
    refine (takes_counted hcount fun option ho => ?_).bind_pure
    exact takes_byte_bind (takes_measured (hlists option ho).2 (hbody option ho)).bind_pure

theorem takes_readInstructions {body : List Instruction} (h : InstructionsFit body) :
    Takes readInstructions (instructionsBytes body) body := by
  intro rest
  have hbody : Takes (counted (Instruction.readAt (instructionsBytes body ++ rest).length))
      (instructionsBytes body) body := by
    rw [instructionsBytes_eq]
    refine takes_counted h.count fun instruction hi => ?_
    apply Instruction.takes_readAt (h.fits instruction hi)
    have := length_le_of_mem_flatMap Instruction.bytes hi
    simp only [List.length_cons, List.length_append]
    omega
  exact hbody rest

/-! ### Controls -/

/-- A place. -/
def Position.read : Reader Position := do
  let x ← byte
  let y ← byte
  pure ⟨x, y⟩

theorem Position.takes_read (position : Position) : Takes read position.bytes position :=
  takes_byte_bind (takes_byte_bind (takes_pure _))

/-- A size. -/
def Size.read : Reader Size := do
  let width ← byte
  let height ← byte
  pure ⟨width, height⟩

theorem Size.takes_read (size : Size) : Takes read size.bytes size :=
  takes_byte_bind (takes_byte_bind (takes_pure _))

/-- A reference to a resource. -/
def readResource : Reader UInt8 := do
  expect 0x01
  byte

theorem takes_readResource (resource : UInt8) :
    Takes readResource (resourceBytes resource) resource :=
  takes_expect_bind (takes_byte resource)

/-- The style of a number: in its first byte the spacing, whether the number is
filled up, and whether its digits come from a resource. -/
def NumberStyle.read : Reader NumberStyle := do
  let head ← byte
  let space := head % 0x20
  let padded : Bool := head / 0x20 % 2 == 1
  if 0x40 ≤ head then do
    expect 0
    let resource ← readResource
    pure (.font space padded resource)
  else do
    let thickness ← byte
    let width ← byte
    let height ← byte
    pure (.generated space padded thickness width height)

/-- The byte that leads the style of a number. -/
def styleHead (font padded : Bool) (space : UInt8) : UInt8 :=
  (if font then 0x40 else 0) + paddedBit padded + space

theorem toNat_styleHead {font padded : Bool} {space : UInt8} (h : space.toNat < 32) :
    (styleHead font padded space).toNat =
      (if font then 64 else 0) + (if padded then 32 else 0) + space.toNat := by
  cases font <;> cases padded <;>
    simp [styleHead, paddedBit, UInt8.toNat_add] <;> omega

theorem styleHead_mod {font padded : Bool} {space : UInt8} (h : space.toNat < 32) :
    styleHead font padded space % 0x20 = space := by
  apply UInt8.toNat.inj
  rw [UInt8.toNat_mod, toNat_styleHead h]
  cases font <;> cases padded <;> simp <;> omega

theorem styleHead_padded {font padded : Bool} {space : UInt8} (h : space.toNat < 32) :
    (styleHead font padded space / 0x20 % 2 == 1) = padded := by
  have hvalue : (styleHead font padded space / 0x20 % 2).toNat = if padded then 1 else 0 := by
    rw [UInt8.toNat_mod, UInt8.toNat_div, toNat_styleHead h]
    cases font <;> cases padded <;> simp <;> omega
  cases padded with
  | false =>
    rw [beq_eq_false_iff_ne]
    intro h1
    rw [h1] at hvalue
    exact absurd hvalue (by decide)
  | true =>
    rw [beq_iff_eq]
    exact UInt8.toNat.inj hvalue

theorem styleHead_font {font padded : Bool} {space : UInt8} (h : space.toNat < 32) :
    0x40 ≤ styleHead font padded space ↔ font = true := by
  rw [UInt8.le_iff_toNat_le, toNat_styleHead h]
  cases font <;> cases padded <;> simp <;> omega

theorem NumberStyle.takes_read {style : NumberStyle} (h : style.Fits) :
    Takes read style.bytes style := by
  cases style with
  | generated space padded thickness width height =>
    have hbytes : (generated space padded thickness width height).bytes =
        styleHead false padded space :: [thickness, width, height] := by
      rw [bytes, styleHead, if_neg Bool.false_ne_true, UInt8.zero_add]
    rw [hbytes]
    apply takes_byte_bind
    rw [if_neg (by rw [styleHead_font h]; exact Bool.false_ne_true), styleHead_mod h,
      styleHead_padded h]
    exact takes_byte_bind (takes_byte_bind (takes_byte_bind (takes_pure _)))
  | font space padded resource =>
    have hbytes : (font space padded resource).bytes =
        styleHead true padded space :: 0 :: resourceBytes resource := rfl
    rw [hbytes]
    apply takes_byte_bind
    rw [if_pos ((styleHead_font h).2 rfl), styleHead_mod h, styleHead_padded h]
    exact takes_expect_bind (takes_readResource resource).bind_pure

/-- The layout of a text that a byte stands for. -/
def textStyleOf (head : UInt8) : TextStyle where
  horizontal := if head % 4 = 0 then .left else if head % 4 = 1 then .center else .right
  vertical := if head / 4 % 4 = 0 then .top else if head / 4 % 4 = 1 then .center else .bottom
  multiline := 0x10 ≤ head

theorem textStyleOf_textStyleByte (style : TextStyle) :
    textStyleOf (textStyleByte style) = style := by
  obtain ⟨horizontal, vertical, multiline⟩ := style
  cases horizontal <;> cases vertical <;> cases multiline <;> rfl

/-- The orientation that a byte stands for. -/
def orientationOf (head : UInt8) : Orientation := if head = 0 then .horizontal else .vertical

theorem orientationOf_orientationByte (orientation : Orientation) :
    orientationOf (orientationByte orientation) = orientation := by
  cases orientation <;> rfl

/-- A control whose choices are nested at most to the given depth. -/
def Control.readAt : (depth : Nat) → Reader Control
  | 0 => failure
  | depth + 1 => do
    let kind ← byte
    match kind with
    | 0x01 => do
      let range ← byte
      let position ← Position.read
      let style ← NumberStyle.read
      let scratch ← word
      let source ← Source.read
      pure (.number range position style scratch source)
    | 0x02 => do
      let maxValue ← signed
      let position ← Position.read
      let size ← Size.read
      let orientation ← byte
      let border ← byte
      expect 0
      expect 0
      let scratch ← word
      let source ← Source.read
      pure (.progress maxValue position size (orientationOf orientation) border scratch source)
    | 0x04 => do
      let position ← Position.read
      let size ← Size.read
      let font ← byte
      let style ← byte
      expect 0
      expect 0
      let scratch ← word
      let source ← Source.read
      pure (.text position size font (textStyleOf style) scratch source)
    | 0x05 => do
      let position ← Position.read
      let size ← Size.read
      let resource ← readResource
      pure (.image position size resource)
    | 0x06 => do
      let position ← Position.read
      let size ← Size.read
      let resource ← readResource
      let scratch ← word
      let source ← Source.read
      pure (.imageSet position size resource scratch source)
    | 0x07 => do
      let on ← Source.read
      let scratch ← word
      let options ← counted do
        let ordinal ← byte
        let body ← measured (counted (readAt depth))
        pure (ordinal, body)
      pure (.choose on scratch options)
    | _ => failure

/-- A list of controls. -/
def readControls : Reader (List Control) := fun bytes =>
  counted (Control.readAt bytes.length) bytes

/-- The bytes of an option of a choice between controls. -/
def controlOptionBytes (option : UInt8 × List Control) : Bytes :=
  option.1 :: block (controlsBytes option.2)

theorem controlBodies_eq (body : List Control) :
    controlBodies body = body.flatMap Control.bytes := by
  induction body with
  | nil => rfl
  | cons first rest ih => rw [controlBodies, ih, List.flatMap_cons]

theorem controlOptionsBytes_eq (options : List (UInt8 × List Control)) :
    controlOptionsBytes options = options.flatMap controlOptionBytes := by
  induction options with
  | nil => rfl
  | cons first rest ih =>
    obtain ⟨ordinal, body⟩ := first
    rw [controlOptionsBytes, ih, List.flatMap_cons]
    rfl

theorem Control.bytes_choose (on : Source) (scratch : UInt16)
    (options : List (UInt8 × List Control)) :
    (choose on scratch options).bytes =
      0x07 :: (on.bytes ++ (wordBytes scratch ++
        (countByte options.length :: options.flatMap controlOptionBytes))) := by
  rw [bytes, controlOptionsBytes_eq, List.append_assoc]
  rfl

theorem controlsBytes_eq (body : List Control) :
    controlsBytes body = countByte body.length :: body.flatMap Control.bytes := by
  rw [controlsBytes, controlBodies_eq]

theorem Control.length_bytes_lt (on : Source) (scratch : UInt16)
    {options : List (UInt8 × List Control)} {option : UInt8 × List Control} {control : Control}
    (ho : option ∈ options) (hc : control ∈ option.2) :
    control.bytes.length < (choose on scratch options).bytes.length := by
  have hoption := length_le_of_mem_flatMap controlOptionBytes ho
  have hbody := length_le_of_mem_flatMap Control.bytes hc
  rw [controlOptionBytes, block, controlsBytes_eq] at hoption
  rw [bytes_choose]
  simp only [List.length_cons, List.length_append] at hoption ⊢
  omega

theorem Control.takes_readAt {control : Control} (h : control.Fits) :
    ∀ {depth : Nat}, control.bytes.length ≤ depth →
      Takes (readAt depth) control.bytes control := by
  have hpos : 0 < control.bytes.length := by
    cases control <;> simp [bytes]
  induction h with
  | @number range position style scratch source hstyle hsource =>
    refine @takes_of_depth _ readAt _ _ hpos fun depth hdepth => ?_
    simp only [bytes, List.cons_append, List.append_assoc]
    exact takes_byte_bind (takes_byte_bind (position.takes_read.bind
      ((NumberStyle.takes_read hstyle).bind ((takes_word scratch).bind
        (Source.takes_read hsource).bind_pure))))
  | @text position size font style scratch source hsource =>
    refine @takes_of_depth _ readAt _ _ hpos fun depth hdepth => ?_
    simp only [bytes, List.cons_append, List.append_assoc, List.nil_append]
    refine takes_byte_bind (position.takes_read.bind (size.takes_read.bind
      (takes_byte_bind (takes_byte_bind ?_))))
    rw [textStyleOf_textStyleByte]
    exact takes_expect_bind (takes_expect_bind ((takes_word scratch).bind
      (Source.takes_read hsource).bind_pure))
  | @progress maxValue position size orientation border scratch source hsource =>
    refine @takes_of_depth _ readAt _ _ hpos fun depth hdepth => ?_
    simp only [bytes, List.cons_append, List.append_assoc, List.nil_append]
    refine takes_byte_bind ((takes_signed maxValue).bind (position.takes_read.bind
      (size.takes_read.bind (takes_byte_bind (takes_byte_bind ?_)))))
    rw [orientationOf_orientationByte]
    exact takes_expect_bind (takes_expect_bind ((takes_word scratch).bind
      (Source.takes_read hsource).bind_pure))
  | @image position size resource =>
    refine @takes_of_depth _ readAt _ _ hpos fun depth hdepth => ?_
    simp only [bytes, List.cons_append, List.append_assoc]
    exact takes_byte_bind (position.takes_read.bind (size.takes_read.bind
      (takes_readResource resource).bind_pure))
  | @imageSet position size resource scratch source hsource =>
    refine @takes_of_depth _ readAt _ _ hpos fun depth hdepth => ?_
    simp only [bytes, List.cons_append, List.append_assoc]
    exact takes_byte_bind (position.takes_read.bind (size.takes_read.bind
      ((takes_readResource resource).bind ((takes_word scratch).bind
        (Source.takes_read hsource).bind_pure))))
  | @choose on scratch options hon hcount hlists _ ih =>
    refine @takes_of_depth _ readAt _ _ hpos fun depth hdepth => ?_
    -- the controls of an option are nested one level less deep
    have hbody : ∀ option ∈ options,
        Takes (counted (readAt depth)) (controlsBytes option.2) option.2 := by
      intro option ho
      rw [controlsBytes_eq]
      refine takes_counted (hlists option ho).1 fun control hc => ?_
      have hlt := length_bytes_lt on scratch ho hc
      refine ih option ho control hc ?_ (by omega)
      cases control <;> simp [bytes]
    rw [bytes_choose]
    refine takes_byte_bind ((Source.takes_read hon).bind ((takes_word scratch).bind ?_))
    refine (takes_counted hcount fun option ho => ?_).bind_pure
    exact takes_byte_bind (takes_measured (hlists option ho).2 (hbody option ho)).bind_pure

theorem takes_readControls {body : List Control} (h : ControlsFit body) :
    Takes readControls (controlsBytes body) body := by
  intro rest
  have hbody : Takes (counted (Control.readAt (controlsBytes body ++ rest).length))
      (controlsBytes body) body := by
    rw [controlsBytes_eq]
    refine takes_counted h.count fun control hc => ?_
    apply Control.takes_readAt (h.fits control hc)
    have := length_le_of_mem_flatMap Control.bytes hc
    simp only [List.length_cons, List.length_append]
    omega
  exact hbody rest

/-! ### Models -/

/-- Whether a field has an initial value, in its flags. -/
def flagsInitial (flags : UInt8) : Bool := flags / 0x80 % 2 == 1

/-- Whether a field wraps around, in its flags. -/
def flagsOverflow (flags : UInt8) : Bool := flags / 0x40 % 2 == 1

/-- Whether a field has an upper bound, in its flags. -/
def flagsMax (flags : UInt8) : Bool := flags / 0x20 % 2 == 1

/-- Whether a field has a lower bound, in its flags. -/
def flagsMin (flags : UInt8) : Bool := flags / 0x10 % 2 == 1

/-- Every flag of a field is found again. -/
theorem Field.flags_bits (field : Field) :
    flagsInitial field.flags = field.initial.isSome ∧ flagsOverflow field.flags = field.overflow ∧
      flagsMax field.flags = field.max.isSome ∧ flagsMin field.flags = field.min.isSome := by
  obtain ⟨initial, max, min, overflow⟩ := field
  cases initial <;> cases max <;> cases min <;> cases overflow <;>
    simp [flags, flagsInitial, flagsOverflow, flagsMax, flagsMin]

/-- A field. -/
def Field.read : Reader Field := do
  expect 0x01
  let flags ← byte
  let initial ← optional (flagsInitial flags) Source.read
  let max ← optional (flagsMax flags) Source.read
  let min ← optional (flagsMin flags) Source.read
  pure ⟨initial, max, min, flagsOverflow flags⟩

theorem takes_optionalSource {source : Option Source} (h : ∀ s ∈ source, s.Fits) :
    Takes (optional source.isSome Source.read) (optionalSourceBytes source) source := by
  cases source with
  | none => exact takes_optional_none
  | some source => exact takes_optional_some (Source.takes_read (h source rfl))

theorem Field.takes_read {field : Field} (h : ∀ source ∈ field.sources, source.Fits) :
    Takes read field.bytes field := by
  obtain ⟨hinitial, hoverflow, hmax, hmin⟩ := field.flags_bits
  rw [bytes, List.cons_append, List.cons_append, List.append_assoc]
  apply takes_expect_bind
  apply takes_byte_bind
  rw [hinitial, hoverflow, hmax, hmin]
  refine (takes_optionalSource fun s hs => h s ?_).bind
    ((takes_optionalSource fun s hs => h s ?_).bind
      (takes_optionalSource fun s hs => h s ?_).bind_pure) <;>
    simp [sources, Option.mem_def.1 hs]

/-- A model. -/
def readModel : Reader (List Field) := counted Field.read

theorem takes_readModel {fields : List Field} (h : ModelFits fields) :
    Takes readModel (modelBytes fields) fields :=
  takes_counted h.count fun field hf => Field.takes_read (h.fits field hf)

/-! ### Handlers -/

/-- An entry of the index of a table of handlers.  The lists of instructions
follow in the same order, so their places need not be looked at. -/
def readIndexEntry : Reader UInt8 := do
  let event ← byte
  let _ ← number 2
  pure event

/-- A table of handlers. -/
def readHandlers : Reader (List Handler) := do
  let count ← byte
  let events ← times readIndexEntry count.toNat
  let bodies ← times readInstructions count.toNat
  pure (List.zipWith Handler.mk events bodies)

theorem takes_handlerIndex (handlers : List Handler) (offset : Nat) :
    Takes (times readIndexEntry handlers.length) (handlerIndex offset handlers)
      (handlers.map Handler.event) := by
  induction handlers generalizing offset with
  | nil => exact takes_pure []
  | cons first others ih =>
    have hentry : Takes readIndexEntry (first.event :: bigEndian 2 offset) first.event := by
      have hplace : Takes (number 2) (bigEndian 2 offset) (ofBigEndian (bigEndian 2 offset)) := by
        have h := (takes_many (bigEndian 2 offset)).bind_pure (f := ofBigEndian)
        rwa [length_bigEndian] at h
      exact takes_byte_bind (hplace.bind_pure (f := fun _ => first.event))
    rw [handlerIndex, List.map_cons]
    exact hentry.bind ((ih _).bind_pure (f := fun others => first.event :: others))

theorem takes_handlerBodies {handlers : List Handler}
    (h : ∀ handler ∈ handlers, InstructionsFit handler.body) :
    Takes (times readInstructions handlers.length) (handlers.flatMap Handler.bytes)
      (handlers.map Handler.body) := by
  induction handlers with
  | nil => exact takes_pure []
  | cons first others ih =>
    obtain ⟨hfirst, hothers⟩ := List.forall_mem_cons.1 h
    rw [List.flatMap_cons, List.map_cons]
    exact (takes_readInstructions hfirst).bind
      ((ih hothers).bind_pure (f := fun others => first.body :: others))

/-- Events and bodies make up the handlers they come from. -/
theorem zipWith_handlers (handlers : List Handler) :
    List.zipWith Handler.mk (handlers.map Handler.event) (handlers.map Handler.body) =
      handlers := by
  induction handlers with
  | nil => rfl
  | cons first others ih => rw [List.map_cons, List.map_cons, List.zipWith_cons_cons, ih]

theorem takes_readHandlers {handlers : List Handler} (h : HandlersFit handlers) :
    Takes readHandlers (handlersBytes handlers) handlers := by
  apply takes_byte_bind
  rw [toNat_countByte h.count]
  -- events and lists are read one after the other and put together at the end
  have hbodies := (takes_handlerBodies h.fits).bind_pure
    (f := List.zipWith Handler.mk (handlers.map Handler.event))
  rw [zipWith_handlers] at hbodies
  exact (takes_handlerIndex handlers 0).bind hbodies

/-! ### Screens -/

/-- A setting. -/
def readSetting : Reader Bool := do
  expect 0x01
  let value ← byte
  pure (value == 1)

theorem takes_readSetting (value : Bool) : Takes readSetting (settingBytes value) value := by
  apply takes_expect_bind
  cases value <;> exact takes_byte_bind (takes_pure _)

/-- Settings. -/
def readSettings : Reader (List Bool) := counted readSetting

theorem takes_readSettings {settings : List Bool} (h : SettingsFit settings) :
    Takes readSettings (settingsBytes settings) settings :=
  takes_counted h.count fun value _ => takes_readSetting value

/-- What follows the handlers of a screen, up to its end. -/
def Screen.readEnd (model : Option (List Field)) (controls : List Control)
    (handlers : Option (List Handler)) : Reader Screen := do
  let watchface ← mark 0x04 0x01
  expect 0x03
  let scratch ← word
  let settings ← sectionOf 0x06 readSettings
  expect endMark
  pure ⟨model, controls, handlers, watchface, scratch, settings⟩

/-- A screen. -/
def Screen.read : Reader Screen := do
  let model ← sectionOf 0x05 readModel
  expect 0x01
  let controls ← measured readControls
  let handlers ← sectionOf 0x02 readHandlers
  readEnd model controls handlers

/-- The bytes that follow the handlers of a screen. -/
def Screen.endBytes (screen : Screen) : Bytes :=
  (if screen.watchface then [0x04, 0x01] else []) ++
    0x03 :: (wordBytes screen.scratch ++
      (optionalSection 0x06 settingsBytes screen.settings ++ [endMark]))

/-- The bytes of a screen, grouped from the right. -/
theorem Screen.bytes_eq (screen : Screen) :
    screen.bytes = optionalSection 0x05 modelBytes screen.model ++
      0x01 :: (block (controlsBytes screen.controls) ++
        (optionalSection 0x02 handlersBytes screen.handlers ++ screen.endBytes)) := by
  simp only [bytes, endBytes, sectionBytes, List.append_assoc, List.cons_append]

/-- What follows the handlers is not led like a section of handlers. -/
theorem Screen.endBytes_eq_cons (screen : Screen) :
    ∃ first others, screen.endBytes = first :: others ∧ first ≠ 0x02 := by
  rw [endBytes]
  cases screen.watchface with
  | true => exact ⟨0x04, _, rfl, by decide⟩
  | false => exact ⟨0x03, _, rfl, by decide⟩

theorem Screen.takes_readEnd {screen : Screen} (h : screen.Fits) :
    Takes (readEnd screen.model screen.controls screen.handlers) screen.endBytes screen := by
  refine takes_mark_bind (by decide) (takes_expect_bind ((takes_word screen.scratch).bind ?_))
  exact takes_sectionOf_bind
    (fun settings hs =>
      ⟨(h.settings settings hs).length, takes_readSettings (h.settings settings hs)⟩)
    (by decide) (takes_expect_bind (takes_pure screen))

theorem Screen.takes_read {screen : Screen} (h : screen.Fits) :
    Takes read screen.bytes screen := by
  rw [bytes_eq]
  -- each optional section is told from the byte that leads the next part
  refine takes_sectionOf_bind
    (fun fields hm => ⟨(h.model fields hm).length, takes_readModel (h.model fields hm)⟩)
    (by decide) (takes_expect_bind ?_)
  refine (takes_measured h.controlsLength (takes_readControls h.controls)).bind ?_
  have hend := takes_readEnd h
  obtain ⟨first, others, heq, hne⟩ := screen.endBytes_eq_cons
  rw [heq] at hend ⊢
  exact takes_sectionOf_bind
    (fun handlers hh =>
      ⟨(h.handlers handlers hh).length, takes_readHandlers (h.handlers handlers hh)⟩)
    hne hend

end Program

end Timepiece
