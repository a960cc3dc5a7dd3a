import Mathlib
import Timepiece.Proofs.Json.Outlines
import Timepiece.Proofs.Numbers.Widths
import Timepiece.Proofs.Resolution.Documents
import Timepiece.Proofs.Resolution.Ordinals
import Timepiece.Proofs.Resolution.Places

/-!
# What a document writes out

Numbers and the options of choices are written out in a document, and compared with a field or with
none: the initial value of a field, and what a field is set to or changed by, are compared with that
field, the options of a choice with the field that it is made by, and everything else with none.
All of this can be listed, in the order in which the program holds it; and the program holds of
every item the number for which it stands, compared with the same field.

A choice around the handlers of several events is listed once for every event, with the options that
say something of the event.  So nothing is looked up for an option that says nothing of any event.

## Main definitions

* `Written`, `Emitted` — numbers and options in a document, and in a program.
* `Screen.written` — all that a screen writes out.
* `Written.Becomes` — a number or an option stands in the program.
* `Screen.Exact` — all that a screen writes out stands in the program.
* `Document.quiet`, `Document.loud` — documents with an option that is no symbol, of which one
  says nothing of any event in that case.

## Main results

* `Action.Stands.becomes`, `Control.Stands.becomes`, `ModelField.Stands.becomes` — actions,
  controls and fields.
* `Document.literals_exact` — **numbers and options stand in the program as what they stand for**,
  and a document is refused if one of them stands for nothing that has room.
* `Document.unread_quiet` — an option that says nothing may stand for nothing.
-/

namespace Timepiece

/-! ### Documents -/

/-- What a document writes out, with the name of the field with which it is compared. -/
inductive Written where
  /-- A number. -/
  | number (field : Option String) (literal : Literal)
  /-- An option of a choice. -/
  | option (field : Option String) (symbol : String)

/-- What is written out in an origin that is needed for something. -/
def Origin.written (kind : ValueKind) (field : Option String) : Origin → List Written
  | .fixed literal => if kind = .number then [.number field literal] else []
  | _ => []

/-- What is written out in a source.  An index is always some number. -/
def Source.written (kind : ValueKind) (field : Option String) : Source → List Written
  | plain origin _ => origin.written kind field
  | indexed origin index _ => origin.written kind field ++ index.written .number none

/-- The field of the model that a source shows. -/
def Source.field? (source : Source) : Option String :=
  match source.origin with
  | .model name => some name
  | _ => none

/-- What is written out in a change of a field. -/
def ModelChange.written (field : String) : ModelChange → List Written
  | set value => value.written .number (some field)
  | add value => value.written .number (some field)
  | subtract value => value.written .number (some field)
  | increment => []
  | decrement => []

/-- What is written out in a call. -/
def Call.written : Call → List Written
  | .model field change => change.written field
  | _ => []

namespace Action

mutual

/-- What is written out in an action. -/
def written : Action → List Written
  | .call c => c.written
  | .choose on options => on.written .number none ++ optionsWritten on.field? options

/-- What is written out in the actions of a list. -/
def listWritten : List Action → List Written
  | [] => []
  | action :: rest => written action ++ listWritten rest

/-- What is written out in the options of a choice. -/
def optionsWritten (field : Option String) : List (String × List Action) → List Written
  | [] => []
  | (option, actions) :: rest =>
    .option field option :: listWritten actions ++ optionsWritten field rest

end

end Action

namespace Control

mutual

/-- What is written out in a control.  A text is no number. -/
def written : Control → List Written
  | .number control => control.source.written .number none
  | .text control => control.source.written .text none
  | .progress control => control.source.written .number none
  | .image _ => []
  | .imageSet control => control.source.written .number none
  | .choose on options => on.written .number none ++ optionsWritten on.field? options

/-- What is written out in the controls of a list. -/
def listWritten : List Control → List Written
  | [] => []
  | control :: rest => written control ++ listWritten rest

/-- What is written out in the options of a choice. -/
def optionsWritten (field : Option String) : List (String × List Control) → List Written
  | [] => []
  | (option, controls) :: rest =>
    .option field option :: listWritten controls ++ optionsWritten field rest

end

end Control

/-- What is written out in a source that may be missing. -/
def Source.optionalWritten (field : Option String) : Option Source → List Written
  | none => []
  | some source => source.written .number field

/-- What is written out in a field of a model.  An enumeration goes from zero to its last place. -/
def ModelField.written (name : String) : ModelField → List Written
  | integer value max min _ =>
    Source.optionalWritten (some name) value ++
      (Source.optionalWritten none max ++ Source.optionalWritten none min)
  | enumeration symbols value _ =>
    Source.optionalWritten (some name) value ++
      ([.number none (.integer (symbols.length - 1))] ++ [.number none (.integer 0)])

/-- What is written out in a model. -/
def modelWritten (fields : Members ModelField) : List Written :=
  fields.flatMap fun field => field.2.written field.1

/-- What is written out in handlers, event by event. -/
def Handlers.written (handlers : Handlers) : List Written :=
  handlers.byEvent.flatMap fun event => Action.listWritten event.2

/-- All that a screen writes out. -/
def Screen.written (screen : Screen) : List Written :=
  modelWritten screen.declared ++ Control.listWritten screen.controls ++
    (screen.actions.map Handlers.written).getD []

/-! ### Programs -/

/-- What a program holds of the numbers and options of a document, with the place of the field with
which it is compared. -/
inductive Emitted where
  /-- The bytes of a number. -/
  | number (field : Option Nat) (bytes : Bytes)
  /-- The ordinal of an option. -/
  | option (field : Option Nat) (ordinal : UInt8)

namespace Program

/-- What an origin holds that is needed for something. -/
def Origin.emitted (kind : ValueKind) (field : Option Nat) : Origin → List Emitted
  | .fixed bytes => if kind = .number then [.number field bytes] else []
  | _ => []

/-- What a source holds. -/
def Source.emitted (kind : ValueKind) (field : Option Nat) : Source → List Emitted
  | plain origin _ => origin.emitted kind field
  | indexed origin index _ => origin.emitted kind field ++ index.emitted .number none

/-- The place of the field that a source shows. -/
def Source.field? (source : Source) : Option Nat :=
  match source.origin with
  | .field id => some id.toNat
  | _ => none

namespace Instruction

mutual

/-- What an instruction holds. -/
def emitted : Instruction → List Emitted
  | .setField field value => value.emitted .number (some field.toNat)
  | .addToField field value => value.emitted .number (some field.toNat)
  | .subtractFromField field value => value.emitted .number (some field.toNat)
  | .choose on options => on.emitted .number none ++ optionsEmitted on.field? options
  | _ => []

/-- What the instructions of a list hold. -/
def listEmitted : List Instruction → List Emitted
  | [] => []
  | instruction :: rest => emitted instruction ++ listEmitted rest

/-- What the options of a choice hold. -/
def optionsEmitted (field : Option Nat) : List (UInt8 × List Instruction) → List Emitted
  | [] => []
  | (ordinal, body) :: rest =>
    .option field ordinal :: listEmitted body ++ optionsEmitted field rest

end

end Instruction

namespace Control

mutual

/-- What a control holds.  A text is no number. -/
def emitted : Control → List Emitted
  | .number _ _ _ _ source => source.emitted .number none
  | .text _ _ _ _ _ source => source.emitted .text none
  | .progress _ _ _ _ _ _ source => source.emitted .number none
  | .image _ _ _ => []
  | .imageSet _ _ _ _ source => source.emitted .number none
  | .choose on _ options => on.emitted .number none ++ optionsEmitted on.field? options

/-- What the controls of a list hold. -/
def listEmitted : List Control → List Emitted
  | [] => []
  | control :: rest => emitted control ++ listEmitted rest

/-- What the options of a choice hold. -/
def optionsEmitted (field : Option Nat) : List (UInt8 × List Control) → List Emitted
  | [] => []
  | (ordinal, body) :: rest =>
    .option field ordinal :: listEmitted body ++ optionsEmitted field rest

end

end Control

/-- What a source holds that may be missing. -/
def Source.optionalEmitted (field : Option Nat) : Option Source → List Emitted
  | none => []
  | some source => source.emitted .number field

/-- What a field of a model holds. -/
def Field.emitted (place : Nat) (field : Field) : List Emitted :=
  Source.optionalEmitted (some place) field.initial ++
    (Source.optionalEmitted none field.max ++ Source.optionalEmitted none field.min)

/-- What the fields of a model hold, from a place on. -/
def modelEmitted (place : Nat) : List Field → List Emitted
  | [] => []
  | field :: rest => field.emitted place ++ modelEmitted (place + 1) rest

/-- The number that a source is, if it is a number that is written out. -/
def Source.number? : Source → Option Int
  | plain (.fixed bytes) none => some (ofSignedBigEndian bytes)
  | _ => none

end Program

/-! ### What becomes of it -/

/-- A name and a place are those of the same field, or of none. -/
inductive Refers (fields : Members ModelField) :
    Option String → Option Nat → Option ModelField → Prop
  | none : Refers fields none none none
  | some {name : String} {place : Nat} {field : ModelField} :
    fields[place]? = some (name, field) → Refers fields (some name) (some place) (some field)

/-- A number or an option stands in the program as what it stands for, compared with the same
field. -/
inductive Written.Becomes (fields : Members ModelField) : Written → Emitted → Prop
  | number {name : Option String} {place : Option Nat} {field : Option ModelField}
    {literal : Literal} {bytes : Bytes} : Refers fields name place field → bytes.length = 4 →
    literal.Denotes field (ofSignedBigEndian bytes) →
    Becomes fields (.number name literal) (.number place bytes)
  | option {name : String} {place : Nat} {field : ModelField} {symbol : String} {ordinal : UInt8} :
    fields[place]? = some (name, field) → field.Denotes symbol ordinal.toNat →
    Becomes fields (.option (some name) symbol) (.option (some place) ordinal)

/-- The bounds of a field are two numbers, between which all symbols of an enumeration are. -/
structure Program.Field.Bounds (field : Program.Field) (symbols : List String) : Prop where
  max : field.max.bind Program.Source.number? = some ((symbols.length : Int) - 1)
  min : field.min.bind Program.Source.number? = some 0

/-- The handler of an event holds what is written out in the actions of the event. -/
structure HandlerExact (fields : Members ModelField) (event : String × List Action)
    (out : Program.Handler) : Prop where
  key : Symbols.key? Symbols.event event.1 = some out.event
  body : List.Forall₂ (Written.Becomes fields) (Action.listWritten event.2)
    (Program.Instruction.listEmitted out.body)

/-- All that a screen writes out stands in the program, in the same order. -/
structure Screen.Exact (screen : Screen) (out : Program.Screen) : Prop where
  model : List.Forall₂ (Written.Becomes screen.declared) (modelWritten screen.declared)
    (Program.modelEmitted 0 (out.model.getD []))
  /-- Enumerations go from zero to their last places, and no symbol stands for anything else. -/
  bounds : ∀ (place : Nat) (name : String) (symbols : List String) (value : Option Source)
    (overflow : Bool), screen.declared[place]? = some (name, .enumeration symbols value overflow) →
    (∃ field, (out.model.getD [])[place]? = some field ∧ field.Bounds symbols) ∧
      ∀ (symbol : String) (n : Int),
        (ModelField.enumeration symbols value overflow).Denotes symbol n →
          0 ≤ n ∧ n ≤ (symbols.length : Int) - 1
  controls : List.Forall₂ (Written.Becomes screen.declared) (Control.listWritten screen.controls)
    (Program.Control.listEmitted out.controls)
  handlers : Option.Rel (fun (handlers : Handlers) out => ∃ listed,
      List.Forall₂ (HandlerExact screen.declared) handlers.byEvent listed ∧ out.Perm listed)
    screen.actions out.handlers

/-! ### Bytes of numbers -/

/-- A number of 32 bits is read back from its bytes. -/
theorem ofSignedBigEndian_signedBytes {n : Int} (h : Text.inSigned32 n = true) :
    ofSignedBigEndian (signedBytes (Int32.ofInt n)) = n := by
  have hlength : (signedBytes (Int32.ofInt n)).length = 4 := length_bigEndian 4 _
  simp only [Text.inSigned32, Bool.and_eq_true, decide_eq_true_eq] at h
  refine ofSignedBigEndian_eq ?_ ?_ ?_
  · have hword : ((Int32.ofInt n).toUInt32.toNat : Int) = n % 0x100000000 := by
      show ((BitVec.ofInt 32 n).toNat : Int) = n % 0x100000000
      rw [BitVec.toNat_ofInt, Int.toNat_of_nonneg (Int.emod_nonneg _ (by decide))]
      rfl
    have hroom : Nat.pow 256 4 = 0x100000000 := rfl
    rw [hlength, signedBytes, longBytes, ofBigEndian_bigEndian, hroom]
    omega
  · rw [hlength]
    omega
  · rw [hlength]
    omega

variable {around : Surroundings} {tables : Tables} {fields : Members ModelField}

/-! ### Sources -/

section Sources

variable {need need' : Need} {name : Option String} {place : Option Nat} {field : Option ModelField}

/-- Literals become the numbers for which they stand when they are compared with a field. -/
def Need.Reads (need : Need) (field : Option ModelField) : Prop :=
  ∀ literal n, Source.literalNumber need.meaning literal = .ok n → Text.inSigned32 n = true →
    literal.Denotes field n

theorem reads_of_meaning (h : need.meaning = field.map ModelField.meaning) : need.Reads field := by
  intro literal n hnumber hin
  rw [h] at hnumber
  exact (Source.literalNumber_iff (inSigned64_of_inSigned32 hin)).1 hnumber

/-- Without a field literals are read as with an integer. -/
theorem reads_integer (h : need.meaning = none) (value max min : Option Source)
    (overflow : Bool) : need.Reads (some (.integer value max min overflow)) := by
  have hnone : need.meaning = Option.map ModelField.meaning none := h
  have hreads : need.Reads none := reads_of_meaning hnone
  exact hreads

theorem Origin.Stands.becomes {origin : Origin} {out : Program.Origin}
    (h : origin.Stands tables fields need out need') (hreads : need.Reads field)
    (hrefers : Refers fields name place field) :
    List.Forall₂ (Written.Becomes fields) (origin.written need.kind name)
      (out.emitted need.kind place) := by
  cases h with
  | text hkind =>
    rw [Origin.written, Program.Origin.emitted, if_neg (by simp [hkind]), if_neg (by simp [hkind])]
    exact .nil
  | number hkind hnumber hin =>
    rw [Origin.written, Program.Origin.emitted, if_pos hkind, if_pos hkind]
    refine .cons (.number hrefers (length_bigEndian 4 _) ?_) .nil
    rw [ofSignedBigEndian_signedBytes hin]
    exact hreads _ _ hnumber hin
  | internal | sensor | extension | model => exact .nil

/-- What is written out in a source stands in the program. -/
theorem Source.Stands.becomes {source : Source} {out : Program.Source}
    (h : source.Stands tables fields need out need') (hreads : need.Reads field)
    (hrefers : Refers fields name place field) :
    List.Forall₂ (Written.Becomes fields) (source.written need.kind name)
      (out.emitted need.kind place) := by
  induction h generalizing name place field with
  | plain horigin _ => exact horigin.becomes hreads hrefers
  | indexed horigin _ _ ih =>
    exact List.rel_append (horigin.becomes hreads hrefers) (ih (reads_of_meaning rfl) .none)

/-- A source that is compared with nothing. -/
theorem Source.Stands.becomes_alone {source : Source} {out : Program.Source}
    (h : source.Stands tables fields need out need') (hmeaning : need.meaning = none) :
    List.Forall₂ (Written.Becomes fields) (source.written need.kind none)
      (out.emitted need.kind none) := by
  have hnone : need.meaning = Option.map ModelField.meaning none := hmeaning
  exact h.becomes (reads_of_meaning hnone) .none

/-- What a choice is made by is a field, or says nothing of options. -/
theorem Source.Stands.chosen {source : Source} {out : Program.Source} {need : Need}
    (h : source.Stands tables fields .anyNumber out need) :
    need.meaning = none ∨ ∃ name place field, source.field? = some name ∧
      out.field? = some place ∧ fields[place]? = some (name, field) ∧
      need.meaning = some field.meaning := by
  cases h with
  | plain horigin | indexed horigin =>
    cases horigin with
    | model hfield => exact .inr ⟨_, _, _, rfl, rfl, hfield, rfl⟩
    | text hkind => exact absurd hkind (by simp [Need.anyNumber, Need.number])
    | number | internal | sensor | extension => exact .inl rfl

end Sources

/-! ### Options -/

/-- The options of a choice stand in the program, if what is written out behind them does. -/
theorem becomes_options {α β : Type} {written : α → List Written} {emitted : β → List Emitted}
    {source : Source} {out : Program.Source} {need : Need}
    (hon : source.Stands tables fields .anyNumber out need) {options : List (String × α)}
    {resolved : List (UInt8 × β)}
    (hordinals : List.Forall₂ (fun option out => optionOrdinal need.meaning option.1 = .ok out.1)
      options resolved)
    (hbodies : List.Forall₂ (fun option out =>
      List.Forall₂ (Written.Becomes fields) (written option.2) (emitted out.2)) options resolved) :
    List.Forall₂ (Written.Becomes fields)
      (options.flatMap fun option => .option source.field? option.1 :: written option.2)
      (resolved.flatMap fun option => .option out.field? option.1 :: emitted option.2) := by
  induction hordinals with
  | nil => exact .nil
  | cons hordinal _ ih =>
    cases hbodies with
    | cons hbody hbodies =>
      refine List.rel_append (.cons ?_ hbody) (ih hbodies)
      obtain hnone | ⟨name, place, field, hname, hplace, hfield, hmeaning⟩ := hon.chosen
      · rw [hnone] at hordinal
        exact absurd hordinal (by simp [optionOrdinal])
      · rw [hmeaning] at hordinal
        rw [hname, hplace]
        exact .option hfield (optionOrdinal_eq_ok_iff.1 hordinal)

/-- What is written out in a list, item by item. -/
theorem eq_flatMap {α β : Type} {f : List α → List β} {g : α → List β} (hnil : f [] = [])
    (hcons : ∀ item rest, f (item :: rest) = g item ++ f rest) (items : List α) :
    f items = items.flatMap g := by
  induction items with
  | nil => exact hnil
  | cons item rest ih => rw [hcons, ih, List.flatMap_cons]

/-! ### Actions -/

namespace Action

theorem listWritten_eq (actions : List Action) : listWritten actions = actions.flatMap written :=
  eq_flatMap rfl (fun _ _ => rfl) actions

theorem optionsWritten_eq (field : Option String) (options : List (String × List Action)) :
    optionsWritten field options =
      options.flatMap fun option => .option field option.1 :: listWritten option.2 :=
  eq_flatMap rfl (fun _ _ => rfl) options

end Action

namespace Program.Instruction

theorem listEmitted_eq (body : List Instruction) : listEmitted body = body.flatMap emitted :=
  eq_flatMap rfl (fun _ _ => rfl) body

theorem optionsEmitted_eq (field : Option Nat) (options : List (UInt8 × List Instruction)) :
    optionsEmitted field options =
      options.flatMap fun option => .option field option.1 :: listEmitted option.2 :=
  eq_flatMap rfl (fun _ _ => rfl) options

end Program.Instruction

theorem ModelChange.Stands.becomes {id : UInt8} {name : String} {field : ModelField}
    (hfield : fields[id.toNat]? = some (name, field)) {change : ModelChange}
    {out : Program.Instruction} (h : change.Stands tables fields id field out) :
    List.Forall₂ (Written.Becomes fields) (change.written name) out.emitted := by
  cases h with
  | set hvalue | add hvalue | subtract hvalue =>
    obtain ⟨need', hvalue⟩ := hvalue
    have hmeaning : some field.meaning = Option.map ModelField.meaning (some field) := rfl
    exact hvalue.becomes (reads_of_meaning hmeaning) (.some hfield)
  | increment | decrement => exact .nil

theorem Call.Stands.becomes {call : Call} {out : Program.Instruction}
    (h : call.Stands around tables fields out) :
    List.Forall₂ (Written.Becomes fields) call.written out.emitted := by
  cases h with
  | model hfield hchange => exact hchange.becomes hfield
  | _ => exact .nil

/-- What follows for every item follows for the list. -/
theorem forall₂_of_mem {α β : Type} {R Q : α → β → Prop} {items : List α} {results : List β}
    (h : List.Forall₂ R items results) (hitem : ∀ a ∈ items, ∀ b, R a b → Q a b) :
    List.Forall₂ Q items results := by
  induction h with
  | nil => exact .nil
  | cons hfirst _ ih =>
    obtain ⟨ha, hitems⟩ := List.forall_mem_cons.1 hitem
    exact .cons (ha _ hfirst) (ih hitems)

/-- Items and results correspond, each by some step. -/
theorem Threaded.exists_steps {σ α β : Type} {step : α → σ → β → σ → Prop} {items : List α}
    {results : List β} {s s' : σ} (h : Threaded step items s results s') :
    List.Forall₂ (fun item result => ∃ s s', step item s result s') items results :=
  (h.forall₂ (P := fun _ => True) trivial (fun _ _ _ _ _ _ _ => trivial)
    fun _ _ s _ s' hstep _ => ⟨s, s', hstep⟩).2

/-- **What is written out in an action stands in the program.** -/
theorem Action.Stands.becomes {action : Action} : ∀ {out : Program.Instruction},
    action.Stands around tables fields out →
      List.Forall₂ (Written.Becomes fields) action.written out.emitted := by
  induction action using Action.induction with
  | hcall c =>
    intro out h
    cases h with
    | call hcall => exact hcall.becomes
  | hchoose on options ih =>
    intro out h
    cases h with
    | @choose _ need source _ resolved hon hordinals hbodies =>
      rw [written, Program.Instruction.emitted, optionsWritten_eq,
        Program.Instruction.optionsEmitted_eq]
      refine List.rel_append (hon.becomes_alone rfl) (becomes_options hon hordinals ?_)
      refine forall₂_of_mem hbodies fun option ho out hbody => ?_
      rw [listWritten_eq, Program.Instruction.listEmitted_eq]
      exact List.rel_flatMap (forall₂_of_mem hbody fun action ha _ => ih option ho action ha)
        fun _ _ h => h

theorem Action.becomes_list {actions : List Action} {body : List Program.Instruction}
    (h : List.Forall₂ (Action.Stands around tables fields) actions body) :
    List.Forall₂ (Written.Becomes fields) (listWritten actions)
      (Program.Instruction.listEmitted body) := by
  rw [listWritten_eq, Program.Instruction.listEmitted_eq]
  exact List.rel_flatMap h fun _ _ haction => haction.becomes

/-! ### Controls -/

namespace Control

theorem listWritten_eq (controls : List Control) :
    listWritten controls = controls.flatMap written :=
  eq_flatMap rfl (fun _ _ => rfl) controls

theorem optionsWritten_eq (field : Option String) (options : List (String × List Control)) :
    optionsWritten field options =
      options.flatMap fun option => .option field option.1 :: listWritten option.2 :=
  eq_flatMap rfl (fun _ _ => rfl) options

end Control

namespace Program.Control

theorem listEmitted_eq (body : List Control) : listEmitted body = body.flatMap emitted :=
  eq_flatMap rfl (fun _ _ => rfl) body

theorem optionsEmitted_eq (field : Option Nat) (options : List (UInt8 × List Control)) :
    optionsEmitted field options =
      options.flatMap fun option => .option field option.1 :: listEmitted option.2 :=
  eq_flatMap rfl (fun _ _ => rfl) options

end Program.Control

/-- **What is written out in a control stands in the program.** -/
theorem Control.Stands.becomes {control : Control} : ∀ {before after : Nat} {out : Program.Control},
    control.Stands around tables fields before out after →
      List.Forall₂ (Written.Becomes fields) control.written out.emitted := by
  induction control using Control.induction with
  | hnumber c =>
    intro before after out h
    cases h with
    | number _ _ _ hsource =>
      obtain ⟨need', hsource⟩ := hsource
      exact hsource.becomes_alone rfl
  | htext c =>
    intro before after out h
    cases h with
    | text _ _ _ hsource => exact hsource.becomes_alone rfl
  | hprogress c =>
    intro before after out h
    cases h with
    | progress _ _ _ _ hsource =>
      obtain ⟨need', hsource⟩ := hsource
      exact hsource.becomes_alone rfl
  | himage c =>
    intro before after out h
    cases h with
    | image => exact .nil
  | himageSet c =>
    intro before after out h
    cases h with
    | imageSet _ _ _ hsource =>
      obtain ⟨need', hsource⟩ := hsource
      exact hsource.becomes_alone rfl
  | hchoose on options ih =>
    intro before after out h
    cases h with
    | @choose _ need source scratch _ resolved _ hon hordinals hbodies =>
      rw [written, Program.Control.emitted, optionsWritten_eq, Program.Control.optionsEmitted_eq]
      refine List.rel_append (hon.becomes_alone rfl) (becomes_options hon hordinals ?_)
      -- the scratch memory does not matter here
      refine forall₂_of_mem hbodies.exists_steps fun option ho out hbody => ?_
      obtain ⟨_, _, hbody⟩ := hbody
      rw [listWritten_eq, Program.Control.listEmitted_eq]
      refine List.rel_flatMap (forall₂_of_mem hbody.exists_steps fun control hc out hcontrol => ?_)
        fun _ _ h => h
      obtain ⟨_, _, hcontrol⟩ := hcontrol
      exact ih option ho control hc hcontrol

theorem Control.becomes_list {controls : List Control} {before after : Nat}
    {body : List Program.Control}
    (h : Threaded (Control.Stands around tables fields) controls before body after) :
    List.Forall₂ (Written.Becomes fields) (listWritten controls)
      (Program.Control.listEmitted body) := by
  rw [listWritten_eq, Program.Control.listEmitted_eq]
  refine List.rel_flatMap (h.exists_steps.imp fun control out hcontrol => ?_) fun _ _ h => h
  obtain ⟨_, _, hcontrol⟩ := hcontrol
  exact hcontrol.becomes

/-! ### Models -/

theorem Source.becomes_optional {need : Need} {name : Option String} {place : Option Nat}
    {field : Option ModelField} (hkind : need.kind = .number) (hreads : need.Reads field)
    (hrefers : Refers fields name place field) {source : Option Source}
    {out : Option Program.Source}
    (h : Option.Rel (Source.StandsFor tables fields need) source out) :
    List.Forall₂ (Written.Becomes fields) (Source.optionalWritten name source)
      (Program.Source.optionalEmitted place out) := by
  cases h with
  | none => exact .nil
  | some hsource =>
    obtain ⟨need', hsource⟩ := hsource
    have hbecomes := hsource.becomes hreads hrefers
    rw [hkind] at hbecomes
    exact hbecomes

/-- **What is written out in a field of the model stands in the program.** -/
theorem ModelField.Stands.becomes {place : Nat} {name : String} {field : ModelField}
    (hfield : fields[place]? = some (name, field)) {out : Program.Field}
    (h : field.Stands tables fields out) :
    List.Forall₂ (Written.Becomes fields) (field.written name) (out.emitted place) := by
  have hself : Refers fields (some name) (some place) (some field) := .some hfield
  have halone : Need.anyNumber.Reads none := reads_of_meaning rfl
  cases h with
  | integer hvalue hmax hmin =>
    exact List.rel_append (Source.becomes_optional rfl (reads_integer rfl _ _ _ _) hself hvalue)
      (List.rel_append (Source.becomes_optional rfl halone .none hmax)
        (Source.becomes_optional rfl halone .none hmin))
  | @enumeration symbols value _ _ _ overflow _ hvalue hmax hmin =>
    obtain ⟨_, hmax⟩ := hmax
    obtain ⟨_, hmin⟩ := hmin
    have hsymbols : Need.Reads { Need.anyNumber with meaning := some (.ofSymbols symbols) }
        (some (.enumeration symbols value overflow)) := reads_of_meaning rfl
    refine List.rel_append (Source.becomes_optional rfl hsymbols hself hvalue)
      (List.rel_append ?_ ?_)
    · exact hmax.becomes_alone rfl
    · exact hmin.becomes_alone rfl

/-- The bounds of an enumeration are written out as numbers. -/
theorem number?_of_constant {n : Int} {out : Program.Source}
    (h : (Source.constant n).StandsFor tables fields .anyNumber out) : out.number? = some n := by
  obtain ⟨need', h⟩ := h
  cases h with
  | plain horigin hconverters =>
    cases hconverters
    cases horigin with
    | text hkind => exact absurd hkind (by simp [Need.anyNumber, Need.number])
    | number _ hnumber hin =>
      obtain rfl := Except.ok.inj hnumber
      exact congrArg some (ofSignedBigEndian_signedBytes hin)

theorem ModelField.Stands.bounds {symbols : List String} {value : Option Source} {overflow : Bool}
    {out : Program.Field}
    (h : (ModelField.enumeration symbols value overflow).Stands tables fields out) :
    out.Bounds symbols := by
  cases h with
  | enumeration _ _ hmax hmin => exact ⟨number?_of_constant hmax, number?_of_constant hmin⟩

/-- A symbol of an enumeration stands for a number between its bounds. -/
theorem ModelField.Denotes.between {symbols : List String} {value : Option Source} {overflow : Bool}
    {symbol : String} {n : Int} (h : (enumeration symbols value overflow).Denotes symbol n) :
    0 ≤ n ∧ n ≤ (symbols.length : Int) - 1 := by
  obtain ⟨place, rfl, hplace⟩ := h
  have hlt := hplace.lt
  omega

/-- What is written out in the fields from a place on stands in the program. -/
theorem becomes_model {declared : Members ModelField} {out : List Program.Field}
    (h : List.Forall₂ (fun field out => field.2.Stands tables fields out) declared out)
    (before : Members ModelField) (hfields : fields = before ++ declared) :
    List.Forall₂ (Written.Becomes fields) (modelWritten declared)
      (Program.modelEmitted before.length out) := by
  induction h generalizing before with
  | nil => exact .nil
  | @cons field out declared outs hfield _ ih =>
    have hplace : fields[before.length]? = some field := by simp [hfields]
    have hothers := ih (before ++ [field]) (by simp [hfields])
    rw [List.length_append, List.length_singleton] at hothers
    exact List.rel_append (hfield.becomes hplace) hothers

/-! ### Screens -/

/-- The fields of a screen that has become another one, place by place. -/
theorem Screen.Stands.declared_stand {screen : Screen} {out : Program.Screen}
    (h : screen.Stands around tables out) :
    List.Forall₂ (fun field out => field.2.Stands tables screen.declared out) screen.declared
      (out.model.getD []) := by
  have hmodel := h.model
  unfold declared at hmodel ⊢
  generalize screen.model = model at hmodel ⊢
  generalize out.model = outs at hmodel ⊢
  cases hmodel with
  | none => exact .nil
  | some hfields => exact hfields

/-- **All that a screen writes out stands in the program.** -/
theorem Screen.Stands.exact {screen : Screen} {out : Program.Screen}
    (h : screen.Stands around tables out) : screen.Exact out := by
  refine ⟨becomes_model h.declared_stand [] rfl, ?_, Control.becomes_list h.controls, ?_⟩
  · intro place name symbols value overflow hfield
    refine ⟨?_, fun symbol n hdenotes => hdenotes.between⟩
    obtain ⟨hlength, hget⟩ := List.forall₂_iff_get.1 h.declared_stand
    obtain ⟨hlt, hdeclared⟩ := List.getElem?_eq_some_iff.1 hfield
    have hstands := hget place hlt (hlength ▸ hlt)
    refine ⟨_, List.getElem?_eq_getElem (hlength ▸ hlt), ?_⟩
    rw [List.get_eq_getElem, List.get_eq_getElem, hdeclared] at hstands
    exact hstands.bounds
  · have hhandlers := h.handlers
    generalize screen.actions = handlers at hhandlers
    generalize out.handlers = outs at hhandlers
    cases hhandlers with
    | none => exact .none
    | some hstand =>
      obtain ⟨listed, hlisted, hperm, -⟩ := hstand
      exact .some ⟨listed, hlisted.imp fun event handler hevent =>
        ⟨hevent.key, Action.becomes_list hevent.body⟩, hperm⟩

/-- Nothing that a screen writes out stands for nothing. -/
theorem Screen.Exact.exists_becomes {screen : Screen} {out : Program.Screen} (h : screen.Exact out)
    {written : Written} (hmem : written ∈ screen.written) :
    ∃ emitted, written.Becomes screen.declared emitted := by
  unfold Screen.written at hmem
  rcases List.mem_append.1 hmem with hmem | hmem
  · rcases List.mem_append.1 hmem with hmem | hmem
    · obtain ⟨emitted, -, hbecomes⟩ := exists_right_of_forall₂ h.model hmem
      exact ⟨emitted, hbecomes⟩
    · obtain ⟨emitted, -, hbecomes⟩ := exists_right_of_forall₂ h.controls hmem
      exact ⟨emitted, hbecomes⟩
  · have hhandlers := h.handlers
    generalize screen.actions = handlers at hhandlers hmem
    generalize out.handlers = outs at hhandlers
    cases hhandlers with
    | none => exact absurd hmem List.not_mem_nil
    | some hstand =>
      obtain ⟨listed, hlisted, -⟩ := hstand
      obtain ⟨event, hevent, hmem⟩ := List.mem_flatMap.1 hmem
      obtain ⟨handler, -, hexact⟩ := exists_right_of_forall₂ hlisted hevent
      obtain ⟨emitted, -, hbecomes⟩ := exists_right_of_forall₂ hexact.body hmem
      exact ⟨emitted, hbecomes⟩

/-! ### Documents -/

namespace Document

/-- **Numbers and options stand in the program as what they stand for.**  A document is refused if
one of them stands for nothing that has room. -/
theorem literals_exact (document : Document) :
    (∀ catalog id bundle, document.Compiles catalog id bundle →
      ∃ program : Program, program.id = id ∧ bundle.binary = program.bytes ∧
        List.Forall₂ Screen.Exact document.screens program.screens) ∧
      ∀ screen ∈ document.screens, ∀ written ∈ screen.written,
        (∀ emitted, ¬ written.Becomes screen.declared emitted) →
          ∀ (compiler : Compiler) (source : String) (id : Option UInt32),
            ofText source = .ok document →
              ∃ failure, (compiler.compile source id).1 = .error failure := by
  have hexact : ∀ catalog id bundle, document.Compiles catalog id bundle →
      ∃ program : Program, program.id = id ∧ bundle.binary = program.bytes ∧
        List.Forall₂ Screen.Exact document.screens program.screens := by
    intro catalog id bundle h
    obtain ⟨program, hid, hcompiled⟩ := h.compiled
    exact ⟨program, hid, hcompiled.binary, hcompiled.stand.imp fun _ _ hscreen => hscreen.exact⟩
  refine ⟨hexact, fun screen hscreen written hmem hnothing compiler source id hread => ?_⟩
  cases hcompile : (compiler.compile source id).1 with
  | error failure => exact ⟨failure, rfl⟩
  | ok bundle =>
    obtain ⟨document', hread', hcompiles⟩ := Compiler.compile_eq_ok_iff.1 hcompile
    obtain rfl := Except.ok.inj (hread.symm.trans hread')
    obtain ⟨program, -, -, hscreens⟩ := hexact _ _ _ hcompiles
    obtain ⟨out, -, hout⟩ := exists_right_of_forall₂ hscreens hscreen
    obtain ⟨emitted, hbecomes⟩ := hout.exists_becomes hmem
    exact absurd hbecomes (hnothing emitted)

/-- A choice around handlers of a document in which there is no mode `off`, and what the choice
says of the events in that mode. -/
def moded (events : List (String × List Action)) : Document where
  kind := "watchset"
  version := 1
  name := "moded"
  resources := none
  screens :=
    [{ id := "main"
       model := some [("mode", .enumeration ["on"] none false)]
       controls := []
       actions := some ⟨some ⟨.plain (.model "mode") none,
         [("on", [("button_up_short", [.call .close])]), ("off", events)]⟩, []⟩
       defaultActions := none
       settings := none }]

/-- The document that says nothing of the mode that there is not. -/
def quiet : Document := moded []

/-- The document that says something of it. -/
def loud : Document := moded [("button_up_short", [.call .close])]

/-- No symbol of the field is `off`. -/
theorem off_becomes_nothing (events : List (String × List Action)) (emitted : Emitted) :
    ∀ screen ∈ (moded events).screens,
      ¬ (Written.option (some "mode") "off").Becomes screen.declared emitted := by
  intro screen hscreen hbecomes
  obtain rfl := List.mem_singleton.1 hscreen
  cases hbecomes with
  | @option _ place field _ _ hfield hdenotes =>
    cases place with
    | zero =>
      obtain rfl : ModelField.enumeration ["on"] none false = field :=
        congrArg Prod.snd (Option.some.inj hfield)
      obtain ⟨place, -, hplace, -⟩ := hdenotes
      cases place with
      | zero => exact absurd hplace (by decide)
      | succ place => exact absurd hplace (by simp)
    | succ place => exact absurd hfield (by simp [Screen.declared])

/-- The text of the document that says something. -/
def loudText : Json :=
  .object [("type", .text "watchset"), ("apiVersion", .number (.integer 1)),
    ("name", .text "moded"), ("data", .object [("screens", .array [.object [("id", .text "main"),
      ("model", .object [("mode", .object [("type", .text "enum"),
        ("values", .array [.text "on"])])]),
      ("controls", .array []),
      ("actions", .object [
        ("choose", .object [("type", .text "model"), ("property", .text "mode")]),
        ("when", .object [
          ("on", .object [("button_up_short", .object [("action", .text "close")])]),
          ("off", .object [("button_up_short", .object [("action", .text "close")])])])])]])])]

theorem ofText_loudText : ofText loudText.render = .ok loud := by
  have hintegral : loudText.Integral := by
    simp [loudText, Json.Integral, Json.ItemsIntegral, Json.MembersIntegral,
      Token.maxUnsigned]
  unfold ofText
  rw [Json.readText_render _ hintegral (by decide)]
  rfl

theorem exists_compiles {document : Document} {catalog : Option (List String)} {id : UInt32}
    (h : (document.resolve catalog >>= fun assembly => assembly.bundle id).isOk = true) :
    ∃ bundle, document.Compiles catalog id bundle := by
  cases hbundle : document.resolve catalog >>= fun assembly => assembly.bundle id with
  | error refusal =>
    rw [hbundle] at h
    exact absurd h (by simp [Except.isOk, Except.toBool])
  | ok bundle => exact ⟨bundle, bind_eq_ok_iff.1 hbundle⟩

theorem exists_compiles_quiet : ∃ bundle, quiet.Compiles none 7 bundle := by
  have hok : (quiet.resolve none >>= fun assembly => assembly.bundle 7).isOk = true := by
    decide +kernel
  exact exists_compiles hok

/-- A document that compiles, and one that is refused for what it writes out. -/
theorem literals_exact_moded :
    (∃ program : Program, program.id = 7 ∧
      List.Forall₂ Screen.Exact quiet.screens program.screens) ∧
      ∀ compiler : Compiler,
        ∃ failure, (compiler.compile loudText.render (some 7)).1 = .error failure := by
  obtain ⟨bundle, hcompiles⟩ := exists_compiles_quiet
  obtain ⟨program, hid, -, hexact⟩ := (literals_exact quiet).1 none 7 bundle hcompiles
  refine ⟨⟨program, hid, hexact⟩, fun compiler => ?_⟩
  have hscreen : loud.screens.head (by decide) ∈ loud.screens := List.head_mem _
  have hwritten : (loud.screens.head (by decide)).written =
      [.number none (.integer 0), .number none (.integer 0), .option (some "mode") "on",
        .option (some "mode") "off"] := rfl
  exact (literals_exact loud).2 _ hscreen (.option (some "mode") "off") (by simp [hwritten])
    (fun emitted => off_becomes_nothing _ emitted _ hscreen) compiler loudText.render (some 7)
    ofText_loudText

/-- **An option that says nothing of any event may stand for nothing.** -/
theorem unread_quiet : ¬ ∀ (document : Document) (catalog : Option (List String)) (id : UInt32)
    (bundle : Bundle), document.Compiles catalog id bundle → ∀ screen ∈ document.screens,
      ∀ handlers, screen.actions = some handlers → ∀ choice, handlers.choose = some choice →
        ∀ option ∈ choice.options, ∃ emitted,
          (Written.option choice.on.field? option.1).Becomes screen.declared emitted := by
  intro h
  obtain ⟨bundle, hcompiles⟩ := exists_compiles_quiet
  have hscreen : quiet.screens.head (by decide) ∈ quiet.screens := List.head_mem _
  obtain ⟨emitted, hbecomes⟩ := h quiet none 7 bundle hcompiles _ hscreen _ rfl _ rfl ("off", [])
    (by simp)
  exact off_becomes_nothing [] emitted _ hscreen hbecomes

end Document

end Timepiece
