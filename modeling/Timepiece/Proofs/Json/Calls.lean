import Mathlib
import Timepiece.Proofs.Json.Records
import Timepiece.Proofs.Resolution.Yields

/-!
# The names of calls

An object with the name of a call is read if and only if the name is one that there is and the
arguments that go with it are there.  Nine names need no arguments, two name what is to be shown or
called, and the others are made of a field of the model and what is to be done with it.  What is
read has the name and the arguments that are written, and nothing of the arguments that do not go
with the name.

## Main definitions

* `RawCall.Written` — the name and the arguments that the members of an object hold.
* `RawCall.Grammatical` — a name that there is, with the arguments that it needs.
* `RawCall.Asks` — the call that a name with its arguments asks for.
* `RawCall.Same` — one name with the same arguments, as far as they go with it.
* `Call.spelling` — a call as it is written.

## Main results

* `RawCall.call_eq_ok_iff` — **what is read of a name and its arguments is what they ask for.**
* `RawCall.ofJson_eq_ok_iff` — **the name and the arguments are those of the object.**
* `Call.named_exactly` — **the names of calls.**
-/

namespace Timepiece

/-! ### What a name asks for -/

namespace ModelChange

/-- The name of a change of a model field. -/
def name : ModelChange → String
  | set _ => "set"
  | add _ => "add"
  | subtract _ => "subtract"
  | increment => "increment"
  | decrement => "decrement"

/-- The value that goes with a change, if there is one. -/
def operand : ModelChange → Option Source
  | set value => some value
  | add value => some value
  | subtract value => some value
  | increment => none
  | decrement => none

end ModelChange

namespace RawCall

/-- The call that a name asks for, with the arguments that go with it. -/
inductive Asks (raw : RawCall) : Call → Prop
  | plain {call : Call} : (raw.action, call) ∈ plainCalls → Asks raw call
  | showScreen {screen : String} : raw.action = "showScreen" → raw.screenId = some screen →
    Asks raw (.showScreen screen)
  | extensionFunction {extension function : String} : raw.action = "extensionFunction" →
    raw.extensionId = some extension → raw.function = some function →
    Asks raw (.extensionFunction extension function (raw.parameter.getD ""))
  | model {field : String} {change : ModelChange} :
    raw.action = "model." ++ field ++ "." ++ change.name → field ≠ "" → '.' ∉ field.toList →
    (∀ value ∈ change.operand, raw.value = some value) → Asks raw (.model field change)

variable {raw raw' : RawCall} {call : Call} {path field name text word : List Char}

/-! ### The parts of a name -/

/-- A path is cut at its first dot. -/
theorem splitDot_eq_some_iff :
    splitDot path = some (field, name) ↔ path = field ++ '.' :: name ∧ '.' ∉ field := by
  constructor
  · intro h
    unfold splitDot at h
    split at h
    · next dot change hdrop =>
      obtain ⟨rfl, rfl⟩ := Prod.mk.inj (Option.some.inj h)
      have hdot : dot = '.' := by
        have hhead := List.head?_dropWhile_not (· != '.') path
        simpa [hdrop] using hhead
      refine ⟨?_, fun hmem => ?_⟩
      · rw [hdot] at hdrop
        rw [← hdrop, List.takeWhile_append_dropWhile]
      · simpa using List.mem_takeWhile_imp hmem
    · cases h
  · rintro ⟨rfl, hfield⟩
    have hne : ∀ c ∈ field, (c != '.') = true := fun c hc =>
      bne_iff_ne.2 fun heq => hfield (heq ▸ hc)
    unfold splitDot
    rw [List.dropWhile_append_of_pos hne, List.takeWhile_append_of_pos hne]
    simp

theorem afterWord?_eq_some_iff : afterWord? word text = some path ↔ text = word ++ path := by
  unfold afterWord?
  split
  · next h =>
    obtain ⟨rest, rfl⟩ := List.isPrefixOf_iff_prefix.1 h
    simp
  · next h =>
    refine iff_of_false (by simp) ?_
    rintro rfl
    exact h (List.isPrefixOf_iff_prefix.2 (List.prefix_append _ _))

theorem needed_eq_ok_iff {α : Type} {argument : String} {given : Option α} {value : α} :
    raw.needed argument given = .ok value ↔ given = some value := by
  cases given with
  | none => simp [needed]
  | some v => simp [needed]

/-! ### Changes of the model -/

theorem change_eq_ok_iff {change : ModelChange} :
    raw.change name = .ok change ↔
      name = change.name.toList ∧ ∀ value ∈ change.operand, raw.value = some value := by
  have hneeded : ∀ make : Source → ModelChange,
      (raw.needed "value" raw.value).map make = .ok change ↔
        ∃ value, raw.value = some value ∧ make value = change := by
    intro make
    simp only [map_eq_ok_iff, needed_eq_ok_iff]
  unfold RawCall.change
  split_ifs with hset hadd hsubtract hincrement hdecrement
  · cases change <;> simp [hset, hneeded, ModelChange.name, ModelChange.operand]
  · cases change <;> simp [hadd, hneeded, ModelChange.name, ModelChange.operand]
  · cases change <;> simp [hsubtract, hneeded, ModelChange.name, ModelChange.operand]
  · cases change <;> simp [hincrement, ModelChange.name, ModelChange.operand]
  · cases change <;> simp [hdecrement, ModelChange.name, ModelChange.operand]
  · cases change <;> simp_all [ModelChange.name, ModelChange.operand]

theorem dot_not_mem_name (change : ModelChange) : '.' ∉ change.name.toList := by
  cases change <;> simp [ModelChange.name]

theorem modelCall_eq_ok_iff :
    raw.modelCall path = .ok call ↔ ∃ (field : String) (change : ModelChange),
      call = .model field change ∧ path = field.toList ++ '.' :: change.name.toList ∧
        field ≠ "" ∧ '.' ∉ field.toList ∧ ∀ value ∈ change.operand, raw.value = some value := by
  constructor
  · intro h
    unfold modelCall at h
    split at h
    · cases h
    · next field name hsplit =>
      obtain ⟨rfl, hfield⟩ := splitDot_eq_some_iff.1 hsplit
      split_ifs at h with hwrong
      obtain ⟨change, hchange, rfl⟩ := map_eq_ok_iff.1 h
      obtain ⟨rfl, hvalue⟩ := change_eq_ok_iff.1 hchange
      have hne : field ≠ [] := by
        rintro rfl
        exact hwrong rfl
      refine ⟨String.ofList field, change, rfl, by simp, ?_, by simpa using hfield, hvalue⟩
      simpa using hne
  · rintro ⟨field, change, rfl, rfl, hne, hfield, hvalue⟩
    have hsplit : splitDot (field.toList ++ '.' :: change.name.toList) =
        some (field.toList, change.name.toList) := splitDot_eq_some_iff.2 ⟨rfl, hfield⟩
    have hname : '.' ∉ change.name.toList := dot_not_mem_name change
    have hchange : raw.change change.name.toList = .ok change := change_eq_ok_iff.2 ⟨rfl, hvalue⟩
    simp [modelCall, hsplit, hne, hname, hchange, Except.map]

/-! ### Names without arguments -/

theorem lookup_plainCalls_eq_some_iff {action : String} :
    plainCalls.lookup action = some call ↔ (action, call) ∈ plainCalls := by
  have hfound : ∀ plain ∈ plainCalls, plainCalls.lookup plain.1 = some plain.2 := by decide
  exact ⟨Members.mem_of_find?, hfound (action, call)⟩

theorem model_append_ne {field name other : String} (h : ¬ "model.".toList <+: other.toList) :
    "model." ++ field ++ "." ++ name ≠ other := by
  rintro rfl
  exact h ⟨field.toList ++ '.' :: name.toList, by simp [String.toList_append]⟩

/-- A name that needs no arguments is none of the others. -/
theorem others_of_mem_plainCalls {action : String} (h : (action, call) ∈ plainCalls) :
    action ≠ "showScreen" ∧ action ≠ "extensionFunction" ∧
      ∀ field name, action ≠ "model." ++ field ++ "." ++ name := by
  have hothers : ∀ plain ∈ plainCalls, plain.1 ≠ "showScreen" ∧
      plain.1 ≠ "extensionFunction" ∧ ¬ "model.".toList <+: plain.1.toList := by decide
  obtain ⟨hshow, hextension, hmodel⟩ := hothers _ h
  exact ⟨hshow, hextension, fun _ _ => (model_append_ne hmodel).symm⟩

theorem lookup_plainCalls_eq_none {action : String}
    (h : action = "showScreen" ∨ action = "extensionFunction" ∨
      ∃ field name, action = "model." ++ field ++ "." ++ name) :
    plainCalls.lookup action = none := by
  rw [← Option.not_isSome_iff_eq_none, Option.isSome_iff_exists]
  rintro ⟨call, hcall⟩
  obtain ⟨hshow, hextension, hmodel⟩ :=
    others_of_mem_plainCalls (lookup_plainCalls_eq_some_iff.1 hcall)
  rcases h with h | h | ⟨field, name, h⟩
  · exact hshow h
  · exact hextension h
  · exact hmodel field name h

/-! ### What is asked for -/

/-- **What is read of a name and its arguments is what they ask for.** -/
theorem call_eq_ok_iff : raw.call = .ok call ↔ raw.Asks call := by
  constructor
  · intro h
    unfold RawCall.call at h
    split at h
    · next plain hplain =>
      obtain rfl := Except.ok.inj h
      exact .plain (lookup_plainCalls_eq_some_iff.1 hplain)
    · split_ifs at h with hshow hextension
      · obtain ⟨screen, hscreen, rfl⟩ := map_eq_ok_iff.1 h
        exact .showScreen hshow (needed_eq_ok_iff.1 hscreen)
      · obtain ⟨extension, hid, h⟩ := bind_eq_ok_iff.1 h
        obtain ⟨function, hfunction, h⟩ := bind_eq_ok_iff.1 h
        obtain rfl := Except.ok.inj h
        exact .extensionFunction hextension (needed_eq_ok_iff.1 hid)
          (needed_eq_ok_iff.1 hfunction)
      · split at h
        · next path hpath =>
          obtain ⟨field, change, rfl, rfl, hne, hfield, hvalue⟩ := modelCall_eq_ok_iff.1 h
          have haction := afterWord?_eq_some_iff.1 hpath
          refine .model (String.toList_inj.1 ?_) hne hfield hvalue
          simpa [String.toList_append] using haction
        · cases h
  · intro h
    cases h with
    | plain hplain => simp [RawCall.call, lookup_plainCalls_eq_some_iff.2 hplain]
    | showScreen hname hscreen =>
      have hplain := lookup_plainCalls_eq_none (.inl hname)
      rw [hname] at hplain
      simp [RawCall.call, hplain, hname, hscreen, needed, Except.map]
    | extensionFunction hname hid hfunction =>
      have hplain := lookup_plainCalls_eq_none (.inr (.inl hname))
      rw [hname] at hplain
      simp [RawCall.call, hplain, hname, hid, hfunction, needed, bind, Except.bind]
    | @model field change hname hne hfield hvalue =>
      -- none of the names before is of this form
      have hplain := lookup_plainCalls_eq_none (.inr (.inr ⟨field, change.name, hname⟩))
      have hshow : raw.action ≠ "showScreen" := hname ▸ model_append_ne (by decide)
      have hextension : raw.action ≠ "extensionFunction" := hname ▸ model_append_ne (by decide)
      have hafter : afterWord? "model.".toList raw.action.toList =
          some (field.toList ++ '.' :: change.name.toList) :=
        afterWord?_eq_some_iff.2 (by simp [hname, String.toList_append])
      have hmodel : raw.modelCall (field.toList ++ '.' :: change.name.toList) =
          .ok (.model field change) :=
        modelCall_eq_ok_iff.2 ⟨field, change, rfl, rfl, hne, hfield, hvalue⟩
      simp only [RawCall.call, hplain, hshow, hextension, hafter, hmodel, if_false]

/-! ### The names that there are -/

/-- A name that there is, with the arguments that it needs. -/
def Grammatical (raw : RawCall) : Prop :=
  raw.action ∈ ["toggleBacklight", "toggleColors", "stopwatch.start", "stopwatch.stop",
    "stopwatch.reset", "stopwatch.startStop", "stopwatch.nextLap", "close", "settings"] ∨
  raw.action = "showScreen" ∧ raw.screenId.isSome ∨
  raw.action = "extensionFunction" ∧ raw.extensionId.isSome ∧ raw.function.isSome ∨
  ∃ field name, raw.action = "model." ++ field ++ "." ++ name ∧ field ≠ "" ∧
    '.' ∉ field.toList ∧
      (name ∈ ["set", "add", "subtract"] ∧ raw.value.isSome ∨ name ∈ ["increment", "decrement"])

/-- The changes that need a value, and those that need none. -/
theorem exists_change_iff {name : String} {given : Option Source} :
    (∃ change : ModelChange, change.name = name ∧ ∀ value ∈ change.operand, given = some value) ↔
      (name ∈ ["set", "add", "subtract"] ∧ given.isSome ∨ name ∈ ["increment", "decrement"]) := by
  constructor
  · rintro ⟨change, rfl, hvalue⟩
    cases change with
    | set value | add value | subtract value =>
      have hgiven : given = some value := hvalue value rfl
      exact .inl ⟨by simp [ModelChange.name], by simp [hgiven]⟩
    | increment | decrement => exact .inr (by simp [ModelChange.name])
  · rintro (⟨hname, hgiven⟩ | hname)
    · obtain ⟨value, rfl⟩ := Option.isSome_iff_exists.1 hgiven
      simp only [List.mem_cons, List.not_mem_nil, or_false] at hname
      rcases hname with rfl | rfl | rfl
      · exact ⟨.set value, rfl, fun _ => id⟩
      · exact ⟨.add value, rfl, fun _ => id⟩
      · exact ⟨.subtract value, rfl, fun _ => id⟩
    · simp only [List.mem_cons, List.not_mem_nil, or_false] at hname
      rcases hname with rfl | rfl
      · exact ⟨.increment, rfl, by simp [ModelChange.operand]⟩
      · exact ⟨.decrement, rfl, by simp [ModelChange.operand]⟩

/-- Something is asked for if and only if the name is one that there is. -/
theorem exists_asks_iff : (∃ call, raw.Asks call) ↔ raw.Grammatical := by
  have hplain : (∃ call, (raw.action, call) ∈ plainCalls) ↔
      raw.action ∈ plainCalls.map Prod.fst := by simp
  constructor
  · rintro ⟨call, h⟩
    cases h with
    | plain h => exact .inl (hplain.1 ⟨_, h⟩)
    | showScreen hname hscreen => exact .inr (.inl ⟨hname, by simp [hscreen]⟩)
    | extensionFunction hname hid hfunction =>
      exact .inr (.inr (.inl ⟨hname, by simp [hid], by simp [hfunction]⟩))
    | @model field change hname hne hfield hvalue =>
      exact .inr (.inr (.inr ⟨field, change.name, hname, hne, hfield,
        exists_change_iff.1 ⟨change, rfl, hvalue⟩⟩))
  · rintro (h | ⟨hname, hscreen⟩ | ⟨hname, hid, hfunction⟩ | ⟨field, name, hname, hne, hfield, h⟩)
    · obtain ⟨call, h⟩ := hplain.2 h
      exact ⟨call, .plain h⟩
    · obtain ⟨screen, hscreen⟩ := Option.isSome_iff_exists.1 hscreen
      exact ⟨_, .showScreen hname hscreen⟩
    · obtain ⟨extension, hid⟩ := Option.isSome_iff_exists.1 hid
      obtain ⟨function, hfunction⟩ := Option.isSome_iff_exists.1 hfunction
      exact ⟨_, .extensionFunction hname hid hfunction⟩
    · obtain ⟨change, rfl, hvalue⟩ := exists_change_iff.2 h
      exact ⟨_, .model hname hne hfield hvalue⟩

/-! ### One name with the same arguments -/

/-- One name with the same arguments, as far as they go with it.  A parameter that is missing is
the empty text. -/
structure Same (raw raw' : RawCall) : Prop where
  action : raw.action = raw'.action
  showScreen : raw.action = "showScreen" → raw.screenId = raw'.screenId
  extensionFunction : raw.action = "extensionFunction" →
    raw.extensionId = raw'.extensionId ∧ raw.function = raw'.function ∧
      raw.parameter.getD "" = raw'.parameter.getD ""
  change : ∀ field, '.' ∉ field.toList → ∀ name ∈ ["set", "add", "subtract"],
    raw.action = "model." ++ field ++ "." ++ name → raw.value = raw'.value

namespace Same

theorem symm (h : raw.Same raw') : raw'.Same raw where
  action := h.action.symm
  showScreen hname := (h.showScreen (h.action.trans hname)).symm
  extensionFunction hname := by
    obtain ⟨hid, hfunction, hparameter⟩ := h.extensionFunction (h.action.trans hname)
    exact ⟨hid.symm, hfunction.symm, hparameter.symm⟩
  change field hfield name hmem hname :=
    (h.change field hfield name hmem (h.action.trans hname)).symm

theorem trans {raw'' : RawCall} (h : raw.Same raw') (h' : raw'.Same raw'') : raw.Same raw'' where
  action := h.action.trans h'.action
  showScreen hname := (h.showScreen hname).trans (h'.showScreen (h.action ▸ hname))
  extensionFunction hname := by
    obtain ⟨hid, hfunction, hparameter⟩ := h.extensionFunction hname
    obtain ⟨hid', hfunction', hparameter'⟩ := h'.extensionFunction (h.action ▸ hname)
    exact ⟨hid.trans hid', hfunction.trans hfunction', hparameter.trans hparameter'⟩
  change field hfield name hmem hname := (h.change field hfield name hmem hname).trans
    (h'.change field hfield name hmem (h.action ▸ hname))

/-- The same is asked for. -/
theorem asks (h : raw.Same raw') (hasks : raw.Asks call) : raw'.Asks call := by
  cases hasks with
  | plain hplain => exact .plain (h.action ▸ hplain)
  | showScreen hname hscreen =>
    exact .showScreen (h.action ▸ hname) (h.showScreen hname ▸ hscreen)
  | extensionFunction hname hid hfunction =>
    obtain ⟨hid', hfunction', hparameter⟩ := h.extensionFunction hname
    rw [hparameter]
    exact .extensionFunction (h.action ▸ hname) (hid' ▸ hid) (hfunction' ▸ hfunction)
  | @model field change hname hne hfield hvalue =>
    refine .model (h.action ▸ hname) hne hfield fun value hmem => ?_
    -- a change with a value is one of those for which the values agree
    have hneeds : change.name ∈ ["set", "add", "subtract"] := by
      cases change <;> simp [ModelChange.name, ModelChange.operand] at hmem ⊢
    exact h.change field hfield change.name hneeds hname ▸ hvalue value hmem

end Same

end RawCall

/-! ### Calls as they are written -/

/-- A name without arguments. -/
def RawCall.named (action : String) : RawCall := ⟨action, none, none, none, none, none⟩

namespace Call

/-- A call as it is written, with the arguments that go with its name and no others. -/
def spelling : Call → RawCall
  | toggleBacklight => .named "toggleBacklight"
  | toggleColors => .named "toggleColors"
  | stopwatch .start => .named "stopwatch.start"
  | stopwatch .stop => .named "stopwatch.stop"
  | stopwatch .reset => .named "stopwatch.reset"
  | stopwatch .startStop => .named "stopwatch.startStop"
  | stopwatch .nextLap => .named "stopwatch.nextLap"
  | close => .named "close"
  | settings => .named "settings"
  | showScreen screen => { RawCall.named "showScreen" with screenId := some screen }
  | extensionFunction extension function parameter =>
    { RawCall.named "extensionFunction" with
      extensionId := some extension
      function := some function
      parameter := some parameter }
  | model field change =>
    { RawCall.named ("model." ++ field ++ "." ++ change.name) with value := change.operand }

end Call

namespace RawCall

variable {raw raw' : RawCall} {call : Call}

/-- What is to be done stands after the first dot behind `model.`. -/
theorem name_eq_of_model_append {field field' name name' : String} (hfield : '.' ∉ field.toList)
    (hfield' : '.' ∉ field'.toList)
    (h : "model." ++ field ++ "." ++ name = "model." ++ field' ++ "." ++ name') : name = name' := by
  have hpath : field.toList ++ '.' :: name.toList = field'.toList ++ '.' :: name'.toList := by
    simpa [String.toList_append] using congrArg String.toList h
  have hsplit := (splitDot_eq_some_iff.2 ⟨rfl, hfield⟩).symm.trans
    (splitDot_eq_some_iff.2 ⟨hpath, hfield'⟩)
  exact String.toList_inj.1 (Prod.mk.inj (Option.some.inj hsplit)).2

/-- What is asked for has the name and the arguments that it is asked for with. -/
theorem Asks.same_spelling (h : raw.Asks call) : raw.Same call.spelling := by
  cases h with
  | plain hplain =>
    have hwritten : ∀ plain ∈ plainCalls, plain.2.spelling.action = plain.1 := by decide
    obtain ⟨hshow, hextension, hmodel⟩ := others_of_mem_plainCalls hplain
    refine ⟨(hwritten _ hplain).symm, fun h => absurd h hshow, fun h => absurd h hextension, ?_⟩
    exact fun field _ name _ h => absurd h (hmodel field name)
  | showScreen hname hscreen =>
    refine ⟨hname, fun _ => hscreen, fun h => absurd (hname.symm.trans h) (by decide), ?_⟩
    exact fun field _ name _ h => absurd (h.symm.trans hname) (model_append_ne (by decide))
  | extensionFunction hname hid hfunction =>
    refine ⟨hname, fun h => absurd (hname.symm.trans h) (by decide),
      fun _ => ⟨hid, hfunction, rfl⟩, ?_⟩
    exact fun field _ name _ h => absurd (h.symm.trans hname) (model_append_ne (by decide))
  | @model field change hname hne hfield hvalue =>
    refine ⟨hname, fun h => absurd (hname.symm.trans h) (model_append_ne (by decide)),
      fun h => absurd (hname.symm.trans h) (model_append_ne (by decide)), ?_⟩
    intro field' hfield' name hmem h
    -- both fields end at the first dot, so that what is to be done is the same
    obtain rfl := name_eq_of_model_append hfield hfield' (hname.symm.trans h)
    cases change with
    | set value | add value | subtract value => exact hvalue value rfl
    | increment | decrement => simp [ModelChange.name] at hmem

/-- Two names with their arguments ask for the same if and only if they are the same. -/
theorem Asks.eq_iff (h : raw.Asks call) {call' : Call} (h' : raw'.Asks call') :
    call = call' ↔ raw.Same raw' := by
  constructor
  · rintro rfl
    exact h.same_spelling.trans h'.same_spelling.symm
  · intro hsame
    have hcall := call_eq_ok_iff.2 (hsame.asks h)
    exact Except.ok.inj (hcall.symm.trans (call_eq_ok_iff.2 h'))

/-! ### The members of an object -/

/-- An argument that may be missing, be it that there is no member or that it is `null`. -/
def Argument {α : Type} (read : Json → Reading α) (found : Option Json) : Option α → Prop
  | none => found = none ∨ found = some .null
  | some value => ∃ json, found = some json ∧ read json = .ok value

/-- The name and the arguments that the members of an object hold.  Members with other names may
stand among them, but no name stands twice once the object is merged. -/
structure Written (members : Members Json) (raw : RawCall) : Prop where
  distinct : members.names.Nodup
  action : members.find? "action" = some (.text raw.action)
  screenId : Argument Json.asText (members.find? "screenId") raw.screenId
  extensionId : Argument Json.asText (members.find? "extensionId") raw.extensionId
  function : Argument Json.asText (members.find? "function") raw.function
  parameter : Argument Json.asText (members.find? "parameter") raw.parameter
  value : Argument Source.ofJson (members.find? "value") raw.value

theorem argument_iff {α : Type} {read : Json → Reading α} (hnull : ∀ v, read .null ≠ .ok v)
    {name : String} {members : Members Json} {given : Option α} :
    Field.Holds ⟨name, Json.asOption read, some none, none⟩ none members given ↔
      Argument read (members.find? name) given := by
  unfold Field.Holds Members.find?
  cases members.lookup name with
  | none => cases given <;> simp [Argument]
  | some json =>
    cases given with
    | none => simp [Argument, Json.asOption_eq_ok_none_iff]
    | some value => simp [Argument, Json.asOption_eq_ok_some_iff hnull]

theorem name_iff {name text : String} {members : Members Json} :
    Field.Holds ⟨name, Json.asText, none, none⟩ none members text ↔
      members.find? name = some (.text text) := by
  unfold Field.Holds Members.find?
  cases members.lookup name with
  | none => simp
  | some json => cases json <;> simp [Json.asText]

/-- **The name and the arguments that are read are those of the object.** -/
theorem ofJson_eq_ok_iff {members : Members Json} (hnames : members.names.Nodup) :
    ofJson (.object members) = .ok raw ↔ Written members raw := by
  have htext : ∀ v, Json.asText .null ≠ .ok v := by simp [Json.asText]
  have hsource : ∀ v, Source.ofJson .null ≠ .ok v := by
    simp [Source.ofJson, Source.readAt]
  unfold ofJson
  dsimp only [Fields.fromJson]
  rw [Fields.fromMembers_eq_ok_iff (by decide) hnames]
  simp only [Fields.required, Fields.optional, Fields.Holds, argument_iff htext,
    argument_iff hsource, name_iff]
  constructor
  · rintro ⟨_, value, h, hvalue, rfl⟩
    obtain ⟨_, parameter, h, hparameter, rfl⟩ := h
    obtain ⟨_, function, h, hfunction, rfl⟩ := h
    obtain ⟨_, extension, h, hextension, rfl⟩ := h
    obtain ⟨_, screen, h, hscreen, rfl⟩ := h
    obtain ⟨_, action, rfl, haction, rfl⟩ := h
    exact ⟨hnames, haction, hscreen, hextension, hfunction, hparameter, hvalue⟩
  · intro h
    refine ⟨mk raw.action raw.screenId raw.extensionId raw.function raw.parameter, _, ?_,
      h.value, rfl⟩
    refine ⟨mk raw.action raw.screenId raw.extensionId raw.function, _, ?_, h.parameter, rfl⟩
    refine ⟨mk raw.action raw.screenId raw.extensionId, _, ?_, h.function, rfl⟩
    refine ⟨mk raw.action raw.screenId, _, ?_, h.extensionId, rfl⟩
    refine ⟨mk raw.action, _, ?_, h.screenId, rfl⟩
    exact ⟨mk, _, rfl, h.action, rfl⟩

end RawCall

namespace Call

variable {members : Members Json} {raw : RawCall} {call : Call}

theorem ofJson_eq_ok_iff (hwritten : RawCall.Written members raw) :
    ofJson (.object members) = .ok call ↔ raw.Asks call := by
  have hraw := (RawCall.ofJson_eq_ok_iff hwritten.distinct).2 hwritten
  unfold ofJson
  rw [hraw]
  exact Reading.handOn_eq_ok_iff.trans RawCall.call_eq_ok_iff

/-- **The names of calls.**  An object with the name of a call and any of the arguments is read if
and only if the name is one that there is and the arguments that it needs are there.  What is read
has the name and the arguments that go with it, so that two objects are read as the same if and
only if they have the same name with the same arguments. -/
theorem named_exactly (hwritten : RawCall.Written members raw) :
    ((∃ call, ofJson (.object members) = .ok call) ↔ raw.Grammatical) ∧
      ∀ call, ofJson (.object members) = .ok call →
        raw.Same call.spelling ∧
          ∀ members' raw' call', RawCall.Written members' raw' →
            ofJson (.object members') = .ok call' → (call = call' ↔ raw.Same raw') := by
  simp only [ofJson_eq_ok_iff hwritten]
  refine ⟨RawCall.exists_asks_iff, fun call hcall => ⟨hcall.same_spelling, ?_⟩⟩
  intro members' raw' call' hwritten' hcall'
  exact hcall.eq_iff ((ofJson_eq_ok_iff hwritten').1 hcall')

/-- An object that turns the page, with other members beside those that go with the name. -/
def turningPage (others : Members Json) : Members Json :=
  ("action", .text "model.page.add") ::
    ("value", .object [("type", .text "static"), ("value", .number (.integer 1))]) :: others

/-- The name and the value that turn the page. -/
def turnPage : RawCall :=
  { RawCall.named "model.page.add" with value := some (.plain (.fixed (.integer 1)) none) }

theorem named_exactly_turningPage :
    RawCall.Written (turningPage [("screenId", .null)]) turnPage ∧
      ofJson (.object (turningPage [("screenId", .null)])) =
        .ok (.model "page" (.add (.plain (.fixed (.integer 1)) none))) ∧
      turnPage.Grammatical ∧ turnPage.Same { turnPage with parameter := some "1" } := by
  have hwritten : RawCall.Written (turningPage [("screenId", .null)]) turnPage :=
    ⟨by decide, rfl, .inr rfl, .inl rfl, .inl rfl, .inl rfl, _, rfl, rfl⟩
  have hwritten' : RawCall.Written (turningPage [("parameter", .text "1")])
      { turnPage with parameter := some "1" } :=
    ⟨by decide, rfl, .inl rfl, .inl rfl, .inl rfl, ⟨_, rfl, rfl⟩, _, rfl, rfl⟩
  have hread : ofJson (.object (turningPage [("screenId", .null)])) =
      .ok (.model "page" (.add (.plain (.fixed (.integer 1)) none))) := rfl
  obtain ⟨hexists, hcall⟩ := named_exactly hwritten
  exact ⟨hwritten, hread, hexists.1 ⟨_, hread⟩,
    ((hcall _ hread).2 _ _ _ hwritten' rfl).1 rfl⟩

end Call

end Timepiece
