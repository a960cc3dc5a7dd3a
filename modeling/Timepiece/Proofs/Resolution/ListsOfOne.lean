import Mathlib
import Timepiece.Proofs.Json.Respelling
import Timepiece.Proofs.Resolution.Literals

/-!
# One thing means a list of one

Where a document may have one thing or a list of things, one thing means the same as a list of one.
So whoever writes single things as lists, at any places and as many as there are, gets the same
watch set, or is refused for the same reason.

## Main definitions

* `Form.Agrees` — two readers agree on values that are respelled.
* `Form.RelatesOutline` — the same for what the values show in a text.
* `Json.Shown` — a text shows a value.
* `Document.terse` — a document with single things at all places where there may be lists.

## Main results

* `Source.agrees_readAt`, `Action.agrees_readAt`, `Control.agrees_readAt` — **sources, actions and
  controls**, however deep the single things are.
* `Fields.Agree.fromOutline` — **records agree if their fields do**, straight from a text.
* `Document.agrees_ofOutline` — **documents** are read as the same.
* `Compiler.compile_respelled` — **one thing means a list of one.**
-/

namespace Timepiece

variable {α : Type} {d d' : Nat}

/-! ### Readers that agree -/

/-- Two readers agree on values of a form that are respelled, up to some depths. -/
def Form.Agrees (form : Form) (d d' : Nat) (read read' : Json → Reading α) : Prop :=
  ∀ value value', form.Relates d d' value value' → read value = read' value'

namespace Form

variable {form each : Form} {read read' : Json → Reading α}

theorem agrees_plain (read : Json → Reading α) : plain.Agrees d d' read read := by
  rintro value value' ⟨h, -, -⟩
  rw [h.eq_of_plain]

theorem Agrees.option (h : form.Agrees d d' read read') :
    form.Agrees d d' (Json.asOption read) (Json.asOption read') :=
  fun value value' hrelates =>
    Json.asOption_agree hrelates.1.null_iff (h value value' hrelates)

/-- The same depths bound what an array or an object holds. -/
theorem Agrees.list (h : each.Agrees d d' read read') :
    (list each).Agrees d d' (Json.asList read) (Json.asList read') := by
  rintro value value' ⟨hrespelled, hdepth, hdepth'⟩
  cases hrespelled.alike (by simp) (by simp) with
  | leaf hleaf => cases hleaf <;> rfl
  | object _ => rfl
  | array hitems =>
    have hplaced : Placed (fun _ => each.Relates d d') 0 _ _ :=
      hitems.relates (Nat.le_of_succ_le hdepth) (Nat.le_of_succ_le hdepth')
    exact Json.readItems_agree (hplaced.forall₂.imp h) []

theorem Agrees.map (h : each.Agrees d d' read read') :
    (map each).Agrees d d' (Json.asMap read) (Json.asMap read') := by
  rintro value value' ⟨hrespelled, hdepth, hdepth'⟩
  cases hrespelled.alike (by simp) (by simp) with
  | leaf hleaf => cases hleaf <;> rfl
  | array _ => rfl
  | object hmembers =>
    have hrelates := hmembers.relates (Nat.le_of_succ_le hdepth) (Nat.le_of_succ_le hdepth')
    exact Json.readMembers_agree (hrelates.imp fun m m' hm => ⟨hm.1, h _ _ hm.2⟩) []

/-- **One thing is read as a list of one.** -/
theorem Agrees.oneOrMany (h : each.Agrees d d' read read') :
    (oneOrMany each).Agrees d d' (Timepiece.oneOrMany read) (Timepiece.oneOrMany read') := by
  rintro value value' ⟨hrespelled, hdepth, hdepth'⟩
  -- a list is still one, and an object is still one or a list of one
  have hmany : ∀ {items items'}, ItemsRespelled (.oneOrMany each) 0 items items' →
      (Json.array items).depth ≤ d → (Json.array items').depth ≤ d' →
        Timepiece.oneOrMany read (.array items) = Timepiece.oneOrMany read' (.array items') := by
    intro items items' hitems hdepth hdepth'
    have hplaced : Placed (fun _ => each.Relates d d') 0 items items' :=
      hitems.relates (Nat.le_of_succ_le hdepth) (Nat.le_of_succ_le hdepth')
    exact congrArg Reading.handOn (Json.readItems_agree (hplaced.forall₂.imp h) [])
  have hone : ∀ {members members'}, MembersRespelled each members members' →
      (Json.object members).depth ≤ d → (Json.object members').depth ≤ d' →
        read (.object members) = read' (.object members') :=
    fun hmembers hdepth hdepth' => h _ _ ⟨.object hmembers, hdepth, hdepth'⟩
  cases hrespelled with
  | same =>
    cases value with
    | array items => exact hmany (.same 0 items) hdepth hdepth'
    | object members =>
      unfold Timepiece.oneOrMany
      dsimp only
      rw [hone (.same members) hdepth hdepth']
    | null | bool | number | text => rfl
  | array hitems => exact hmany hitems hdepth hdepth'
  | object hmembers =>
    unfold Timepiece.oneOrMany
    dsimp only
    rw [hone hmembers.of_oneOrMany hdepth hdepth']
  | @single _ members members' hmembers =>
    have hinner : (Json.object members').depth ≤ d' :=
      (Nat.le_max_left _ 0).trans (Nat.le_of_succ_le hdepth')
    unfold Timepiece.oneOrMany
    dsimp only
    rw [hone hmembers hdepth hinner, Json.readItems]
    cases read' (.object members') <;> rfl

end Form

/-! ### Records -/

/-- Members of records that are read by fields which agree. -/
theorem Fields.Agree.members {form : Form} {fields fields' : Fields Json α}
    (h : Fields.Agree (fun _ name => (form.member name).Relates d d') fields fields')
    {members members' : List (String × Json)}
    (hmembers : List.Forall₂ (form.RelatesMember d d') members members') :
    fields.fromMembers members = fields'.fromMembers members' :=
  h.fromMembers (hmembers.imp fun _ _ hm => ⟨hm.1, fun _ => hm.2⟩)

/-- A member is there on both sides or on none. -/
theorem Form.isSome_member {form : Form} {members members' : List (String × Json)}
    (h : List.Forall₂ (form.RelatesMember d d') members members') (name : String) :
    ((Json.object members).member? name).isSome = ((Json.object members').member? name).isSome := by
  show (List.lookup name members).isSome = (List.lookup name members').isSome
  induction h with
  | nil => rfl
  | @cons first first' _ _ hfirst _ ih =>
    obtain ⟨key, value⟩ := first
    obtain ⟨key', value'⟩ := first'
    obtain ⟨hkey, -⟩ := hfirst
    obtain rfl : key = key' := hkey
    rw [List.lookup_cons, List.lookup_cons]
    split
    · rfl
    · exact ih

/-- Readers that go into objects only, each time with one depth less, agree if they do so for the
members of objects when they agree for what is less deep. -/
theorem Form.agrees_of_objects (other : Reading α) {form : Form}
    (hform : ∀ each, form ≠ .oneOrMany each) (hchain : form ≠ .converters)
    {readAt : Nat → Json → Reading α}
    (hother : ∀ depth value, (∀ members, value ≠ .object members) → readAt depth value = other)
    (hobject : ∀ d d', form.Agrees d d' (readAt d) (readAt d') → ∀ members members',
      List.Forall₂ (form.RelatesMember d d') members members' →
        readAt (d + 1) (.object members) = readAt (d' + 1) (.object members')) :
    ∀ d d', form.Agrees d d' (readAt d) (readAt d') := by
  intro d
  induction d with
  | zero =>
    rintro d' value value' ⟨h, hdepth, -⟩
    have hleaf : ∀ members, value ≠ .object members := by
      rintro members rfl
      exact absurd hdepth (by simp [Json.depth])
    have hleaf' : ∀ members, value' ≠ .object members := by
      rintro members rfl
      cases h.alike hform hchain with
      | leaf _ | object _ => exact hleaf _ rfl
    rw [hother _ _ hleaf, hother _ _ hleaf']
  | succ d ih =>
    rintro d' value value' ⟨h, hdepth, hdepth'⟩
    cases h.alike hform hchain with
    | leaf hleaf =>
      have hnone : ∀ members, value ≠ .object members := by
        rintro members rfl
        cases hleaf
      rw [hother _ _ hnone, hother _ _ hnone]
    | array _ => rw [hother _ _ (by simp), hother _ _ (by simp)]
    | object hmembers =>
      cases d' with
      | zero => exact absurd hdepth' (by simp [Json.depth])
      | succ d' =>
        exact hobject d d' (ih d') _ _
          (hmembers.relates (Nat.le_of_succ_le_succ hdepth) (Nat.le_of_succ_le_succ hdepth'))

/-! ### Sources -/

namespace Source

/-- A single name is read as a chain of one. -/
theorem agrees_convertersOfJson :
    Form.converters.Agrees d d' convertersOfJson convertersOfJson := by
  rintro value value' ⟨h, -, -⟩
  cases h with
  | same => rfl
  | array hitems => rw [hitems.eq_of_item fun _ => rfl]
  | object _ => rfl
  | converter => rfl

theorem Draft.takeAll_agree {read read' : Json → Reading Source}
    (h : Form.source.Agrees d d' read read') {members members' : List (String × Json)}
    (hmembers : List.Forall₂ (Form.source.RelatesMember d d') members members') (draft : Draft) :
    draft.takeAll read members = draft.takeAll read' members' := by
  induction hmembers generalizing draft with
  | nil => rfl
  | @cons first first' _ _ hfirst _ ih =>
    obtain ⟨key, value⟩ := first
    obtain ⟨key', value'⟩ := first'
    obtain ⟨hkey, hvalue⟩ := hfirst
    obtain rfl : key = key' := hkey
    have htake : draft.take read key value = draft.take read' key value' := by
      unfold Draft.take
      dsimp only [Form.member] at hvalue
      split
      · next hindex =>
        rw [if_pos hindex] at hvalue
        rw [h.option value value' hvalue]
      · next hindex =>
        rw [if_neg hindex] at hvalue
        split
        · next hconverter =>
          rw [if_pos hconverter] at hvalue
          rw [agrees_convertersOfJson.option value value' hvalue]
        · next hconverter =>
          rw [if_neg hconverter] at hvalue
          rw [hvalue.1.eq_of_plain]
    unfold Draft.takeAll
    rw [htake]
    cases draft.take read' key value' with
    | error fault => rfl
    | ok next => exact ih next

/-- **Sources** are read as the same, however deep the names of converters are. -/
theorem agrees_readAt : ∀ d d', Form.source.Agrees d d' (readAt d) (readAt d') := by
  refine Form.agrees_of_objects (.error .mismatch) (by simp) (by simp)
    (fun depth value hother => ?_)
    fun d d' ih members members' hmembers => Draft.takeAll_agree ih hmembers _
  cases value <;> cases depth <;> first | rfl | exact absurd rfl (hother _)

theorem agrees_ofJson : Form.source.Agrees d d' ofJson ofJson :=
  fun value value' h => agrees_readAt _ _ value value' ⟨h.1, le_rfl, le_rfl⟩

end Source

/-! ### Records named by a tag -/

namespace Choice

variable {form : Form}

/-- The tag is the same, and the other members are still respelled. -/
theorem splitMembers_agree {β : Type 1} (readTag : Json → Except Fault β)
    (htag : form.member tag = .plain) {members members' : List (String × Json)}
    (hmembers : List.Forall₂ (form.RelatesMember d d') members members')
    {others others' : List (String × Json)}
    (hothers : List.Forall₂ (form.RelatesMember d d') others others') (found : Option β) :
    Reading.Both (fun split split' => split.1 = split'.1 ∧
        List.Forall₂ (form.RelatesMember d d') split.2 split'.2)
      (splitMembers readTag found others members)
      (splitMembers readTag found others' members') := by
  induction hmembers generalizing others others' found with
  | nil =>
    cases found with
    | none => exact .error _
    | some found => exact .ok ⟨rfl, List.forall₂_reverse_iff.2 hothers⟩
  | @cons first first' _ _ hfirst _ ih =>
    obtain ⟨key, value⟩ := first
    obtain ⟨key', value'⟩ := first'
    have hkey : key = key' := hfirst.1
    subst hkey
    unfold splitMembers
    split
    · next heq =>
      have hvalue := hfirst.2
      dsimp only at hvalue
      rw [heq, htag] at hvalue
      rw [hvalue.1.eq_of_plain]
      cases found with
      | some found => exact .error _
      | none =>
        dsimp only
        cases readTag value' with
        | error fault => exact .error fault
        | ok found => exact ih hothers (some found)
    · exact ih (.cons hfirst hothers) found

section Forms

variable {tagForm : TagForm} {forms : List (String × Fields Json α)}

theorem taggedMembers_agree (htag : form.member tag = .plain)
    (hforms : ∀ one ∈ forms, Fields.Agree (fun place name value value' =>
      (form.member name).Relates d d' value value' ∨
        (form.item (place + 1)).Relates d d' value value') one.2 one.2)
    {members members' : List (String × Json)}
    (hmembers : List.Forall₂ (form.RelatesMember d d') members members') :
    taggedMembers tagForm forms members = taggedMembers tagForm forms members' := by
  unfold taggedMembers
  obtain ⟨⟨fields, others⟩, ⟨fields', others'⟩, hsplit, hsplit', hfields, hothers⟩ |
    ⟨fault, hsplit, hsplit'⟩ :=
    (splitMembers_agree (readTag tagForm forms) htag hmembers .nil none).exists
  · rw [hsplit, hsplit']
    obtain rfl : fields = fields' := hfields
    obtain ⟨one, hone, rfl⟩ := mem_of_splitMembers (by simp) hsplit
    exact (hforms one hone).fromMembers (hothers.imp fun m m' hm => ⟨hm.1, fun _ => .inl hm.2⟩)
  · rw [hsplit, hsplit']

/-- **Records named by a tag agree** if the fields of every form do. -/
theorem tagged_agree (hform : ∀ each, form ≠ .oneOrMany each) (hchain : form ≠ .converters)
    (htag : form.member tag = .plain) (hfirst : form.item 0 = .plain)
    (hforms : ∀ one ∈ forms, Fields.Agree (fun place name value value' =>
      (form.member name).Relates d d' value value' ∨
        (form.item (place + 1)).Relates d d' value value') one.2 one.2) :
    form.Agrees d d' (tagged tagForm forms) (tagged tagForm forms) := by
  rintro value value' ⟨h, hdepth, hdepth'⟩
  cases h.alike hform hchain with
  | leaf hleaf => rfl
  | object hmembers =>
    exact taggedMembers_agree htag hforms
      (hmembers.relates (Nat.le_of_succ_le hdepth) (Nat.le_of_succ_le hdepth'))
  | array hitems =>
    have hplaced := hitems.relates (Nat.le_of_succ_le hdepth) (Nat.le_of_succ_le hdepth')
    cases hplaced with
    | nil => rfl
    | @cons _ first first' rest rest' hitem hrest =>
      dsimp only [tagged, taggedItems]
      rw [hfirst] at hitem
      rw [hitem.1.eq_of_plain]
      cases hread : readTag tagForm forms first' with
      | error fault => rfl
      | ok fields =>
        obtain ⟨one, hone, rfl⟩ := mem_of_readTag hread
        exact (hforms one hone).fromItems (fun _ _ _ _ h => .inr h) none .mismatch
          (Placed.shift (R := fun place => (form.item place).Relates d d') hrest)

end Forms

end Choice

/-! ### Actions -/

/-- What a call is given is read as the same. -/
theorem Call.ofJson_agree {members members' : List (String × Json)}
    (hmembers : List.Forall₂ (Form.action.RelatesMember d d') members members') :
    ofJson (.object members) = ofJson (.object members') := by
  have hraw : RawCall.ofJson (.object members) = RawCall.ofJson (.object members') := by
    refine Fields.Agree.members ?_ hmembers
    have hvalue : Form.source.Agrees d d' (Json.asOption Source.ofJson)
        (Json.asOption Source.ofJson) := Source.agrees_ofJson.option
    exact .optional (.optional (.optional (.optional (.optional (.required (.done _)
      (Form.agrees_plain _)) (Form.agrees_plain _)) (Form.agrees_plain _)) (Form.agrees_plain _))
      (Form.agrees_plain _)) hvalue
  unfold ofJson
  rw [hraw]

/-- **Actions** are read as the same, however deep the single actions are. -/
theorem Action.agrees_readAt : ∀ d d', Form.action.Agrees d d' (readAt d) (readAt d') := by
  refine Form.agrees_of_objects (.error (.refused "Invalid action")) (by simp) (by simp)
    (fun depth value hother => ?_) fun d d' ih members members' hmembers => ?_
  · cases value <;> cases depth <;> first | rfl | exact absurd rfl (hother _)
  · unfold readAt
    rw [Form.isSome_member hmembers "action", Form.isSome_member hmembers "choose",
      Call.ofJson_agree hmembers]
    split
    · rfl
    · split
      · refine congrArg Reading.handOn (Fields.Agree.members ?_ hmembers)
        exact .required (.required (.done _) Source.agrees_ofJson) ih.oneOrMany.map
      · rfl

theorem Action.agrees_ofJson : Form.action.Agrees d d' ofJson ofJson :=
  fun value value' h => agrees_readAt _ _ value value' ⟨h.1, le_rfl, le_rfl⟩

/-! ### Controls -/

/-- The fields of every form of a control agree. -/
theorem Control.agree_forms : ∀ form ∈ forms,
    Fields.Agree (fun place name value value' =>
      (Form.control.member name).Relates d d' value value' ∨
        (Form.control.item (place + 1)).Relates d d' value value') form.2 form.2 := by
  have hplain : ∀ {β : Type} (read : Json → Reading β) (value value' : Json),
      Form.plain.Relates d d' value value' ∨ Form.plain.Relates d d' value value' →
        read value = read value' :=
    fun read value value' h => Form.agrees_plain read value value' (or_self_iff.1 h)
  have hsource : ∀ value value' : Json,
      Form.source.Relates d d' value value' ∨ Form.plain.Relates d d' value value' →
        Source.ofJson value = Source.ofJson value' := by
    rintro value value' (h | h)
    · exact Source.agrees_ofJson value value' h
    · exact Form.agrees_plain _ value value' h
  simp only [forms, List.forall_mem_cons]
  refine ⟨?_, ?_, ?_, ?_, ?_, fun _ h => absurd h List.not_mem_nil⟩
  · exact .required (.required (.required (.required (.done _) (hplain _)) (hplain _))
      (hplain _)) hsource
  · exact .required (.optional (.default (.required (.required (.required (.done _) (hplain _))
      (hplain _)) (hplain _)) (hplain _)) (hplain _)) hsource
  · exact .required (.default (.required (.required (.required (.done _) (hplain _)) (hplain _))
      (hplain _)) (hplain _)) hsource
  · exact .required (.default (.required (.done _) (hplain _)) (hplain _)) (hplain _)
  · exact .required (.required (.required (.required (.done _) (hplain _)) (hplain _))
      (hplain _)) hsource

/-- **Controls** are read as the same, however deep the single controls are. -/
theorem Control.agrees_readAt : ∀ d d', Form.control.Agrees d d' (readAt d) (readAt d') := by
  refine Form.agrees_of_objects (.error (.refused "Invalid screen control")) (by simp) (by simp)
    (fun depth value hother => ?_) fun d d' ih members members' hmembers => ?_
  · cases value <;> cases depth <;> first | rfl | exact absurd rfl (hother _)
  · have htagged : Choice.tagged .name forms (.object members) =
        Choice.tagged .name forms (.object members') :=
      Choice.taggedMembers_agree rfl agree_forms hmembers
    unfold readAt
    rw [Form.isSome_member hmembers Choice.tag, Form.isSome_member hmembers "choose", htagged]
    split
    · rfl
    · split
      · refine Fields.Agree.members ?_ hmembers
        exact .required (.required (.done _) Source.agrees_ofJson) ih.oneOrMany.map
      · rfl

theorem Control.agrees_ofJson : Form.control.Agrees d d' ofJson ofJson :=
  fun value value' h => agrees_readAt _ _ value value' ⟨h.1, le_rfl, le_rfl⟩

/-! ### Handlers -/

theorem Handlers.Draft.takeAll_agree {members members' : List (String × Json)}
    (hmembers : List.Forall₂ (Form.handlers.RelatesMember d d') members members')
    (draft : Draft) : draft.takeAll members = draft.takeAll members' := by
  have hactions : Form.Agrees (.oneOrMany .action) d d' (oneOrMany Action.ofJson)
      (oneOrMany Action.ofJson) := Action.agrees_ofJson.oneOrMany
  induction hmembers generalizing draft with
  | nil => rfl
  | @cons first first' _ _ hfirst _ ih =>
    obtain ⟨key, value⟩ := first
    obtain ⟨key', value'⟩ := first'
    obtain ⟨hkey, hvalue⟩ := hfirst
    obtain rfl : key = key' := hkey
    have htake : draft.take key value = draft.take key value' := by
      unfold Draft.take
      dsimp only [Form.member] at hvalue
      split
      · next hchoose =>
        rw [if_pos hchoose] at hvalue
        rw [Source.agrees_ofJson value value' hvalue]
      · next hchoose =>
        rw [if_neg hchoose] at hvalue
        split
        · next hwhen =>
          rw [if_pos hwhen] at hvalue
          rw [hactions.map.map value value' hvalue]
        · next hwhen =>
          rw [if_neg hwhen] at hvalue
          rw [hactions value value' hvalue]
    unfold Draft.takeAll
    rw [htake]
    cases draft.take key value' with
    | error fault => rfl
    | ok next => exact ih next

/-! ### Values as they stand in a text -/

namespace Outline

theorem asOption_outline_eq (read : Outline → Reading α) (value : Json) :
    asOption read value.outline = Json.asOption (fun value => read value.outline) value := by
  cases value <;> rfl

theorem readItems_outline_eq (read : Outline → Reading α) (items : List Json) (done : List α) :
    readItems read none done (Json.itemOutlines items) =
      Json.readItems (fun value => read value.outline) done items := by
  induction items generalizing done with
  | nil => rfl
  | cons item rest ih =>
    rw [Json.itemOutlines, readItems, Json.readItems]
    cases read item.outline with
    | error fault => rfl
    | ok v => exact ih (v :: done)

theorem asList_outline_eq (read : Outline → Reading α) (value : Json) :
    asList read value.outline = Json.asList (fun value => read value.outline) value := by
  cases value with
  | array items => exact readItems_outline_eq read items []
  | null | bool | number | text | object => rfl

theorem readMembers_outline_eq (read : Outline → Reading α) (members : List (String × Json))
    (done : Members α) :
    readMembers read none done (Json.memberOutlines members) =
      Json.readMembers (fun value => read value.outline) done members := by
  induction members generalizing done with
  | nil => rfl
  | cons member rest ih =>
    obtain ⟨key, value⟩ := member
    rw [Json.memberOutlines, readMembers, Json.readMembers]
    cases read value.outline with
    | error fault => rfl
    | ok v => exact ih (done.put key v)

theorem asMap_outline_eq (read : Outline → Reading α) (value : Json) :
    asMap read value.outline = Json.asMap (fun value => read value.outline) value := by
  cases value with
  | object members => exact readMembers_outline_eq read members []
  | null | bool | number | text | array => rfl

end Outline

namespace Choice

variable {forms : List (String × Fields Json α)}

theorem splitKeys_outlines {found : Option (Fields Json α)}
    (members others : List (String × Json)) :
    splitKeys (readTag .name forms) none found others (Json.memberOutlines members) =
      splitMembers (readTag .name forms) found others members := by
  induction members generalizing found others with
  | nil => cases found <;> rfl
  | cons member rest ih =>
    obtain ⟨key, value⟩ := member
    rw [Json.memberOutlines]
    by_cases hkey : key = tag
    · simp only [splitKeys, splitMembers, if_pos hkey]
      cases found with
      | some found => rfl
      | none =>
        -- arrays and objects are refused before they are looked at, and are no tags either
        cases value with
        | array | object => rfl
        | null | bool | number | text =>
          dsimp only [Json.outline, Outline.value]
          generalize readTag .name forms _ = fields
          cases fields with
          | error fault => rfl
          | ok form => exact ih others
    · simp only [splitKeys, splitMembers, if_neg hkey, Json.value_outline]
      exact ih _

/-- A record named by a tag is read from a text like the value that the text shows. -/
theorem taggedOutline_outline (value : Json) :
    taggedOutline forms value.outline = tagged .name forms value := by
  cases value with
  | object members =>
    dsimp only [Json.outline, taggedOutline, tagged, taggedMembers]
    rw [splitKeys_outlines]
  | array items =>
    cases items with
    | nil => rfl
    | cons first rest =>
      have hrest : Outline.itemValues none [] (Json.itemOutlines rest) = .ok rest :=
        Json.itemValues_outlines rest []
      cases first with
      | array | object => rfl
      | null | bool | number | text =>
        dsimp only [Json.outline, Json.itemOutlines, taggedOutline, tagged, taggedItems,
          Outline.value]
        rw [hrest]
        generalize readTag .name forms _ = fields
        cases fields <;> rfl
  | null | bool | number | text => rfl

end Choice

/-- What two values of a record show, which are related by their place or by their name. -/
def Form.RelatesOutline (form : Form) (d d' : Nat) (place : Nat) (name : String)
    (first second : Outline) : Prop :=
  ∃ value value' : Json, first = value.outline ∧ second = value'.outline ∧
    ((form.member name).Relates d d' value value' ∨ (form.item place).Relates d d' value value')

/-- Readers of a field agree if they agree on what it has. -/
theorem Form.agree_outline {form each : Form} {place : Nat} {name : String}
    {read : Outline → Reading α} (hmember : form.member name = each)
    (hitem : form.item place = each)
    (h : each.Agrees d d' (fun value => read value.outline) fun value => read value.outline)
    (first second : Outline) (hrelates : form.RelatesOutline d d' place name first second) :
    read first = read second := by
  obtain ⟨value, value', rfl, rfl, hrelates⟩ := hrelates
  rw [hmember, hitem, or_self_iff] at hrelates
  exact h value value' hrelates

namespace Fields

theorem fromKeys_outlines {fields : Fields Outline α} (members : List (String × Json)) :
    fields.fromKeys none (Json.memberOutlines members) =
      fields.fromMembers (members.map fun member => (member.1, member.2.outline)) := by
  induction members generalizing fields with
  | nil => rfl
  | cons member rest ih =>
    obtain ⟨key, value⟩ := member
    rw [Json.memberOutlines, fromKeys, List.map_cons, fromMembers]
    cases fields.take key value.outline with
    | error fault => rfl
    | ok next => exact ih

theorem placed_outlines {form : Form} {place : Nat} {items items' : List Json}
    (h : Placed (fun place => (form.item place).Relates d d') place items items') :
    Placed (fun place first second => ∀ name, form.RelatesOutline d d' place name first second)
      place (Json.itemOutlines items) (Json.itemOutlines items') := by
  induction h with
  | nil => exact .nil
  | cons hitem _ ih => exact .cons (fun _ => ⟨_, _, rfl, rfl, .inr hitem⟩) ih

/-- **Records agree if their fields do**, straight from a text. -/
theorem Agree.fromOutline {form : Form} (hform : ∀ each, form ≠ .oneOrMany each)
    (hchain : form ≠ .converters) {fields : Fields Outline α}
    (h : Agree (form.RelatesOutline d d') fields fields) :
    form.Agrees d d' (fun value => fields.fromOutline value.outline)
      fun value => fields.fromOutline value.outline := by
  rintro value value' ⟨hrespelled, hdepth, hdepth'⟩
  cases hrespelled.alike hform hchain with
  | leaf _ => rfl
  | array hitems =>
    have hplaced := hitems.relates (Nat.le_of_succ_le hdepth) (Nat.le_of_succ_le hdepth')
    exact h.fromItems (fun _ name _ _ hrelates => hrelates name) none (.breach .malformed)
      (placed_outlines hplaced)
  | @object members members' hmembers =>
    have hrelates := hmembers.relates (Nat.le_of_succ_le hdepth) (Nat.le_of_succ_le hdepth')
    show fields.fromKeys none (Json.memberOutlines members) =
      fields.fromKeys none (Json.memberOutlines members')
    rw [fromKeys_outlines, fromKeys_outlines]
    refine h.fromMembers (List.forall₂_map_left_iff.2 (List.forall₂_map_right_iff.2 ?_))
    exact hrelates.imp fun m m' hm => ⟨hm.1, fun _ => ⟨_, _, rfl, rfl, .inl hm.2⟩⟩

end Fields

/-! ### Screens and documents -/

namespace Form

variable {form each : Form} {read : Outline → Reading α}

theorem agrees_asOption
    (h : form.Agrees d d' (fun value => read value.outline) fun value => read value.outline) :
    form.Agrees d d' (fun value => Outline.asOption read value.outline)
      fun value => Outline.asOption read value.outline := by
  simp only [Outline.asOption_outline_eq]
  exact h.option

theorem agrees_asList
    (h : each.Agrees d d' (fun value => read value.outline) fun value => read value.outline) :
    (list each).Agrees d d' (fun value => Outline.asList read value.outline)
      fun value => Outline.asList read value.outline := by
  simp only [Outline.asList_outline_eq]
  exact h.list

theorem agrees_asMap
    (h : each.Agrees d d' (fun value => read value.outline) fun value => read value.outline) :
    (map each).Agrees d d' (fun value => Outline.asMap read value.outline)
      fun value => Outline.asMap read value.outline := by
  simp only [Outline.asMap_outline_eq]
  exact h.map

end Form

/-- Readers that refuse objects do so where a source might be. -/
theorem Form.agrees_source {read : Json → Reading α} {refused : Reading α}
    (hobject : ∀ members, read (.object members) = refused) :
    source.Agrees d d' read read := by
  rintro value value' ⟨h, -, -⟩
  cases h.alike (by simp) (by simp) with
  | leaf _ => rfl
  | array hitems => rw [hitems.eq_of_item fun _ => rfl]
  | object _ => rw [hobject, hobject]

/-- **Fields of a model** are read as the same. -/
theorem ModelField.agrees_ofOutline :
    Form.field.Agrees d d' (fun value => ofOutline value.outline)
      fun value => ofOutline value.outline := by
  simp only [ofOutline, Choice.taggedOutline_outline]
  refine Choice.tagged_agree (by simp) (by simp) rfl rfl ?_
  have hsource : ∀ value value' : Json,
      Form.source.Relates d d' value value' ∨ Form.source.Relates d d' value value' →
        optionalSource value = optionalSource value' :=
    fun value value' h => Source.agrees_ofJson.option value value' (or_self_iff.1 h)
  -- in an array the symbols of an enumeration stand where an integer has a source
  have hother : ∀ {β : Type} {read : Json → Reading β},
      (∀ members, read (.object members) = .error .mismatch) → ∀ value value' : Json,
        Form.plain.Relates d d' value value' ∨ Form.source.Relates d d' value value' →
          read value = read value' := by
    rintro β read hobject value value' (h | h)
    · exact Form.agrees_plain read value value' h
    · exact Form.agrees_source hobject value value' h
  simp only [List.forall_mem_cons]
  refine ⟨?_, ?_, fun _ h => absurd h List.not_mem_nil⟩
  · refine .default (.default (.default (.default (.done _) hsource) hsource) hsource) ?_
    exact fun value value' h => Form.agrees_plain _ value value' (or_self_iff.1 h)
  · exact .default (.default (.required (.done _) (hother fun _ => rfl)) hsource)
      (hother fun _ => rfl)

/-- **Lists of controls** are read as the same. -/
theorem Control.agrees_listOfOutline :
    Form.Agrees (.oneOrMany .control) d d' (fun value => listOfOutline value.outline)
      fun value => listOfOutline value.outline := by
  rintro value value' ⟨h, -, -⟩
  show (Outline.merged value.outline >>= oneOrMany ofJson) =
    (Outline.merged value'.outline >>= oneOrMany ofJson)
  rw [Outline.merged, Outline.merged, Json.value_outline, Json.value_outline]
  exact agrees_ofJson.oneOrMany _ _ ⟨h.merged, le_rfl, le_rfl⟩

/-- **Handlers** are read as the same. -/
theorem Handlers.agrees_ofOutline :
    Form.handlers.Agrees d d' (fun value => ofOutline value.outline)
      fun value => ofOutline value.outline := by
  rintro value value' ⟨h, -, -⟩
  cases h.alike (by simp) (by simp) with
  | leaf hleaf => cases hleaf <;> rfl
  | array _ => rfl
  | @object members members' hmembers =>
    show (Outline.mergedMembers (.object (Json.memberOutlines members) none) >>= ofMembers) =
      (Outline.mergedMembers (.object (Json.memberOutlines members') none) >>= ofMembers)
    rw [Outline.mergedMembers, Outline.mergedMembers, Json.memberValues_outlines,
      Json.memberValues_outlines]
    have hmerged := MembersRespelled.foldl_put .nil hmembers.merged
    exact Draft.takeAll_agree (hmerged.relates le_rfl le_rfl) _

/-- **Screens** are read as the same. -/
theorem Screen.agrees_ofOutline :
    Form.screen.Agrees d d' (fun value => ofOutline value.outline)
      fun value => ofOutline value.outline := by
  refine Fields.Agree.fromOutline (by simp) (by simp) ?_
  have hplain : ∀ {β : Type} (read : Outline → Reading β), Form.plain.Agrees d d'
      (fun value => read value.outline) fun value => read value.outline :=
    fun read => Form.agrees_plain fun value => read value.outline
  refine .default (.default (.default (.required (.default (.required (.done _)
    (Form.agree_outline rfl rfl (hplain _))) ?_) ?_) ?_) (Form.agree_outline rfl rfl (hplain _)))
    (Form.agree_outline rfl rfl (hplain _))
  · exact Form.agree_outline rfl rfl
      (Form.agrees_asOption (Form.agrees_asMap ModelField.agrees_ofOutline))
  · exact Form.agree_outline rfl rfl Control.agrees_listOfOutline
  · exact Form.agree_outline rfl rfl (Form.agrees_asOption Handlers.agrees_ofOutline)

namespace Document

theorem agrees_dataOfOutline :
    Form.data.Agrees d d' (fun value => dataOfOutline value.outline)
      fun value => dataOfOutline value.outline := by
  refine Fields.Agree.fromOutline (by simp) (by simp) ?_
  refine .required (.default (.done _) ?_) ?_
  · exact Form.agree_outline rfl rfl
      (Form.agrees_plain fun value => Outline.asOption _ value.outline)
  · exact Form.agree_outline rfl rfl (Form.agrees_asList Screen.agrees_ofOutline)

/-- **Documents** are read as the same. -/
theorem agrees_ofOutline :
    Form.document.Agrees d d' (fun value => ofOutline value.outline)
      fun value => ofOutline value.outline := by
  refine Fields.Agree.fromOutline (by simp) (by simp) ?_
  refine .required (.required (.required (.required (.done _) ?_) ?_) ?_)
    (Form.agree_outline rfl rfl agrees_dataOfOutline)
  · exact Form.agree_outline rfl rfl (Form.agrees_plain fun value => Outline.asText value.outline)
  · exact Form.agree_outline rfl rfl
      (Form.agrees_plain fun value => Outline.asSigned64 value.outline)
  · exact Form.agree_outline rfl rfl (Form.agrees_plain fun value => Outline.asText value.outline)

end Document

/-! ### Texts -/

/-- A text shows a value, and nothing else. -/
def Json.Shown (value : Json) (text : String) : Prop :=
  Outline.ofText text.toList = (value.outline, true)

theorem Json.shown_render {value : Json} (hintegral : value.Integral)
    (hdepth : value.depth ≤ Outline.depthLimit) : value.Shown value.render := by
  rw [Shown, render, String.toList_ofList, ofText_renderChars hintegral hdepth]

/-- **One thing means a list of one.**  Whatever single things of a document are written as lists,
the outcome is the same. -/
theorem Compiler.compile_respelled (compiler : Compiler) {value value' : Json} {text text' : String}
    (h : Respelled .document value value') (htext : value.Shown text) (htext' : value'.Shown text')
    (id : Option UInt32) : compiler.compile text id = compiler.compile text' id := by
  have hread : Document.ofOutline value.outline = Document.ofOutline value'.outline :=
    Document.agrees_ofOutline value value' ⟨h, le_rfl, le_rfl⟩
  have hsame : Document.ofText text = Document.ofText text' := by
    unfold Document.ofText readText
    rw [htext, htext']
    dsimp only
    rw [hread]
  unfold compile assemble
  rw [hsame]

namespace Document

/-- A choice by the page of a screen. -/
def byPage (options : List (String × Json)) : List (String × Json) :=
  [("choose", .object [("type", .text "model"), ("property", .text "page")]),
    ("when", .object options)]

/-- A button closes the screen. -/
def closing : Json := .object [("action", .text "close")]

/-- The text of a document with single things at all places where there may be lists. -/
def terse : Json :=
  .object [("type", .text "watchset"), ("apiVersion", .number (.integer 1)),
    ("name", .text "terse"), ("data", .object [("screens", .array [.object [("id", .text "main"),
      ("model", .object [("page", .object [("type", .text "integer")])]),
      ("controls", .object (byPage [("1", .object [("type", .text "number"),
        ("numberRange", .text "0-99"), ("position", .object []),
        ("style", .object [("type", .text "generated"), ("width", .number (.integer 8)),
          ("height", .number (.integer 12))]),
        ("source", .object [("type", .text "static"), ("value", .number (.integer 5)),
          ("converter", .text "msToHours")])])])),
      ("actions", .object (byPage [("1", .object [("button_up_short", closing)])] ++
        [("button_down_short", .object (byPage [("1", closing)]))]))]])])]

theorem exists_compile_terse (hintegral : terse.Integral) : ∃ bundle,
    (Compiler.initial.compile terse.render (some 7)).1 = .ok bundle := by
  have hread : ofText terse.render = ofOutline terse.outline :=
    Json.readText_render _ hintegral (by decide)
  have hok : ((ofOutline terse.outline).toOption.any fun document =>
      (document.resolve none >>= fun assembly => assembly.bundle 7).isOk) = true := by
    decide +kernel
  cases hdocument : ofOutline terse.outline with
  | error fault =>
    rw [hdocument] at hok
    exact absurd hok (by simp [Except.toOption])
  | ok document =>
    rw [hdocument] at hok
    obtain ⟨bundle, hcompiles⟩ := exists_compiles hok
    exact ⟨bundle, Compiler.compile_eq_ok_iff.2 ⟨document, hread.trans hdocument, hcompiles⟩⟩

/-- The document compiles to the same watch set when everything is spelled out. -/
theorem compile_respelled_terse : terse.depth < (terse.spelledOut .document).depth ∧ ∃ bundle,
    (Compiler.initial.compile terse.render (some 7)).1 = .ok bundle ∧
      (Compiler.initial.compile (terse.spelledOut .document).render (some 7)).1 = .ok bundle := by
  have hintegral : terse.Integral := by
    simp [terse, byPage, closing, Json.Integral, Json.ItemsIntegral, Json.MembersIntegral,
      Token.maxUnsigned]
  have hintegral' : (terse.spelledOut .document).Integral := by
    simp [terse, byPage, closing, Json.spelledOut, Json.itemsSpelledOut, Json.membersSpelledOut,
      Form.wrap, Form.member, Form.item, Json.Integral, Json.ItemsIntegral, Json.MembersIntegral,
      Token.maxUnsigned]
  obtain ⟨bundle, hcompile⟩ := exists_compile_terse hintegral
  refine ⟨by decide, bundle, hcompile, ?_⟩
  rw [← Compiler.compile_respelled Compiler.initial (.spelledOut .document terse)
    (Json.shown_render hintegral (by decide)) (Json.shown_render hintegral' (by decide)) (some 7)]
  exact hcompile

end Document

end Timepiece
