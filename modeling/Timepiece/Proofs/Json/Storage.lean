import Timepiece.Proofs.Json.Outlines
import Timepiece.WatchSet.Bundle

/-!
# A stored watch set is restored

A compiled watch set is stored as JSON text.  What the text shows of each entry is read back as
the entry, and so the whole text as the whole watch set.  A function without a parameter may be
stored without the member for it.

## Main definitions

* `Json.without` — an object without one of its members.
* `Function.Stored` — the forms in which a function may be stored.
* `Bundle.storedWith` — a bundle as JSON, with its functions in given forms.

## Main results

* `Outline.asList_outline` — an array whose items are read back is read back.
* `Property.ofOutline_toJson`, `Function.ofOutline_stored` — an entry is read back.
* `Bundle.ofOutline_storedWith` — so is the bundle.
* `Bundle.restored` — **a stored bundle is restored**, whichever of its functions without a
  parameter are stored in the short form, and no two bundles have the same text.
-/

namespace Timepiece

/-! ### Values and arrays -/

namespace Json

/-- An object without the members of one name. -/
def without (name : String) : Json → Json
  | .object members => .object (members.filter fun member => member.1 ≠ name)
  | value => value

theorem outline_array (items : List Json) :
    (array items).outline = .array (itemOutlines items) none := by
  rw [outline]

@[simp] theorem outline_object (members : List (String × Json)) :
    (object members).outline = .object (memberOutlines members) none := by
  rw [outline]

theorem itemsIntegral_of_forall {items : List Json} (h : ∀ item ∈ items, item.Integral) :
    ItemsIntegral items := by
  induction items with
  | nil => trivial
  | cons item rest ih =>
    have hrest : ItemsIntegral rest := ih fun other hother => h other (.tail _ hother)
    exact ⟨h item List.mem_cons_self, hrest⟩

theorem depthOfItems_le {items : List Json} {bound : Nat}
    (h : ∀ item ∈ items, item.depth ≤ bound) : depthOfItems items ≤ bound := by
  induction items with
  | nil => exact Nat.zero_le bound
  | cons item rest ih =>
    have hfirst : item.depth ≤ bound := h item List.mem_cons_self
    have hrest : depthOfItems rest ≤ bound := ih fun other hother => h other (.tail _ hother)
    rw [depthOfItems]
    omega

/-- A number of 32 bits is whole and fits 64 bits. -/
theorem integral_ofNat {n : Nat} (h : n < UInt32.size) : (ofNat n).Integral := by
  have hsize : UInt32.size = 4294967296 := rfl
  have hlimit : (Token.maxUnsigned : Int) = 18446744073709551615 := rfl
  simp only [ofNat, Integral]
  omega

end Json

namespace Outline

variable {α : Type} {read : Outline → Reading α}

@[simp] theorem asText_outline (s : String) : asText (Json.text s).outline = .ok s := rfl

/-- A number below the bound is read back. -/
theorem asBelow_outline {bound n : Nat} (h : n < bound) :
    asBelow bound (Json.ofNat n).outline = .ok n := by
  have hfits : (0 ≤ (n : Int) && (n : Int) < bound) = true := by
    simp only [Bool.and_eq_true, decide_eq_true_eq]
    omega
  show (Json.asInteger _ (.number (.integer n))).map Int.toNat = .ok n
  rw [Json.asInteger, if_pos hfits]
  rfl

/-- Items that are each read back are read back one after the other. -/
theorem readItems_outlines {values : List α} {items : List Json} (done : List α)
    (h : List.Forall₂ (fun value item => read item.outline = .ok value) values items) :
    readItems read none done (Json.itemOutlines items) = .ok (done.reverse ++ values) := by
  induction h generalizing done with
  | nil => simp [Json.itemOutlines, readItems, stopped]
  | @cons value item values items hitem _ ih =>
    rw [Json.itemOutlines, readItems, hitem]
    simp only [ih, List.reverse_cons, List.append_assoc, List.singleton_append]

/-- **An array whose items are each read back is read back.** -/
theorem asList_outline {values : List α} {items : List Json}
    (h : List.Forall₂ (fun value item => read item.outline = .ok value) values items) :
    asList read (Json.array items).outline = .ok values := by
  rw [Json.outline_array, asList, readItems_outlines [] h, List.reverse_nil, List.nil_append]

/-- The items are those that the values are written as. -/
theorem asList_outline_map {write : α → Json} (h : ∀ value, read (write value).outline = .ok value)
    (values : List α) :
    asList read (Json.array (values.map write)).outline = .ok values := by
  apply asList_outline
  rw [List.forall₂_map_right_iff, List.forall₂_same]
  exact fun value _ => h value

/-- A list of bytes is read back as their numbers. -/
theorem asList_bytes (bytes : Bytes) :
    asList (asBelow 256) (Json.array (bytes.map fun byte => .ofNat byte.toNat)).outline =
      .ok (bytes.map UInt8.toNat) := by
  apply asList_outline
  rw [List.forall₂_map_right_iff, List.forall₂_map_left_iff, List.forall₂_same]
  exact fun byte _ => asBelow_outline byte.toNat_lt

end Outline

/-! ### Properties -/

theorem ValueKind.ofOutline_name (kind : ValueKind) :
    ValueKind.ofOutline (Json.text kind.name).outline = .ok kind := by
  cases kind <;> rfl

namespace Property

/-- A property is read back. -/
theorem ofOutline_toJson (p : Property) : ofOutline p.toJson.outline = .ok p := by
  have hrange := Outline.asBelow_outline p.range.raw.toNat_lt
  have hkind := p.kind.ofOutline_name
  simp [ofOutline, toJson, Json.memberOutlines, Fields.fromOutline, Fields.required,
    Fields.fromKeys, Fields.take, Fields.finish, hrange, hkind]

theorem integral_toJson (p : Property) : p.toJson.Integral := by
  have hraw := p.range.raw.toNat_lt
  have hrange : (Json.ofNat p.range.raw.toNat).Integral :=
    Json.integral_ofNat (by simp only [UInt32.size]; omega)
  simp [toJson, Json.Integral, Json.MembersIntegral, hrange]

theorem depth_toJson (p : Property) : p.toJson.depth = 1 := rfl

end Property

/-! ### Functions -/

namespace Function

/-- The forms in which a function may be stored: whole, or without its parameter if that is
empty. -/
inductive Stored (f : Function) : Json → Prop where
  | whole : Stored f f.toJson
  | short (h : f.parameter = "") : Stored f (f.toJson.without "parameter")

/-- A function is read back from each of its forms. -/
theorem ofOutline_stored {f : Function} {json : Json} (h : f.Stored json) :
    ofOutline json.outline = .ok f := by
  cases h with
  | whole =>
    simp [ofOutline, toJson, Json.memberOutlines, Fields.fromOutline, Fields.required,
      Fields.default, Fields.fromKeys, Fields.take, Fields.finish]
  | short hparameter =>
    obtain ⟨extension, function, parameter⟩ := f
    simp only at hparameter
    simp [ofOutline, toJson, Json.without, Json.memberOutlines, Fields.fromOutline,
      Fields.required, Fields.default, Fields.fromKeys, Fields.take, Fields.finish, hparameter]

theorem Stored.integral {f : Function} {json : Json} (h : f.Stored json) : json.Integral := by
  cases h with
  | whole => simp [toJson, Json.Integral, Json.MembersIntegral]
  | short _ => simp [toJson, Json.without, Json.Integral, Json.MembersIntegral]

theorem Stored.depth {f : Function} {json : Json} (h : f.Stored json) : json.depth = 1 := by
  cases h with
  | whole => rfl
  | short _ => rfl

end Function

/-! ### Bundles -/

namespace Bundle

/-- A bundle as JSON, with its functions as they are given. -/
def storedWith (bundle : Bundle) (functions : List Json) : Json :=
  .object [("id", .ofNat bundle.id.toNat), ("name", .text bundle.name),
    ("binary", .array (bundle.binary.map fun byte => .ofNat byte.toNat)),
    ("external_properties", .array (bundle.properties.map Property.toJson)),
    ("external_functions", .array functions)]

/-- All functions may be stored whole. -/
theorem toJson_eq (bundle : Bundle) :
    bundle.toJson = bundle.storedWith (bundle.functions.map Function.toJson) := rfl

theorem forall₂_whole (functions : List Function) :
    List.Forall₂ Function.Stored functions (functions.map Function.toJson) := by
  rw [List.forall₂_map_right_iff, List.forall₂_same]
  exact fun f _ => .whole

/-- The forms of a list of functions are all of their forms. -/
theorem stored_of_mem {functions : List Function} {stored : List Json}
    (h : List.Forall₂ Function.Stored functions stored) {json : Json} (hmem : json ∈ stored) :
    ∃ f : Function, f.Stored json := by
  induction h with
  | nil => cases hmem
  | cons hfirst _ ih =>
    cases hmem with
    | head => exact ⟨_, hfirst⟩
    | tail _ hrest => exact ih hrest

/-- A bundle is read from its five members, each of which is read by itself. -/
theorem ofOutline_members (bundle : Bundle) {id name binary properties functions : Outline}
    (hid : Outline.asBelow UInt32.size id = .ok bundle.id.toNat)
    (hname : Outline.asText name = .ok bundle.name)
    (hbinary : Outline.asList (Outline.asBelow 256) binary =
      .ok (bundle.binary.map UInt8.toNat))
    (hproperties : Outline.asList Property.ofOutline properties = .ok bundle.properties)
    (hfunctions : Outline.asList Function.ofOutline functions = .ok bundle.functions) :
    ofOutline (.object [(.name "id", id), (.name "name", name), (.name "binary", binary),
      (.name "external_properties", properties), (.name "external_functions", functions)] none) =
        .ok bundle := by
  have hbytes : (bundle.binary.map UInt8.toNat).map UInt8.ofNat = bundle.binary := by
    simp [Function.comp_def]
  simp [ofOutline, Fields.fromOutline, Fields.required, Fields.fromKeys, Fields.take,
    Fields.finish, hid, hname, hbinary, hproperties, hfunctions, hbytes, -List.map_map]

/-- **A bundle is read back**, in whichever forms its functions are stored. -/
theorem ofOutline_storedWith (bundle : Bundle) {functions : List Json}
    (h : List.Forall₂ Function.Stored bundle.functions functions) :
    ofOutline (bundle.storedWith functions).outline = .ok bundle := by
  have hid : Outline.asBelow UInt32.size (Json.ofNat bundle.id.toNat).outline =
      .ok bundle.id.toNat := Outline.asBelow_outline bundle.id.toNat_lt_size
  have hname : Outline.asText (Json.text bundle.name).outline = .ok bundle.name :=
    Outline.asText_outline bundle.name
  have hbinary := Outline.asList_bytes bundle.binary
  have hproperties := Outline.asList_outline_map Property.ofOutline_toJson bundle.properties
  have hfunctions := Outline.asList_outline (h.imp fun _ _ => Function.ofOutline_stored)
  rw [storedWith, Json.outline_object]
  exact bundle.ofOutline_members hid hname hbinary hproperties hfunctions

/-- All numbers of a stored bundle are whole and fit 64 bits. -/
theorem integral_storedWith (bundle : Bundle) {functions : List Json}
    (h : List.Forall₂ Function.Stored bundle.functions functions) :
    (bundle.storedWith functions).Integral := by
  have hid := Json.integral_ofNat bundle.id.toNat_lt_size
  have hbinary : Json.ItemsIntegral (bundle.binary.map fun byte => .ofNat byte.toNat) := by
    apply Json.itemsIntegral_of_forall
    intro item hitem
    obtain ⟨byte, _, rfl⟩ := List.mem_map.mp hitem
    have hbyte := byte.toNat_lt
    exact Json.integral_ofNat (by simp only [UInt32.size]; omega)
  have hproperties : Json.ItemsIntegral (bundle.properties.map Property.toJson) := by
    apply Json.itemsIntegral_of_forall
    intro item hitem
    obtain ⟨p, _, rfl⟩ := List.mem_map.mp hitem
    exact p.integral_toJson
  have hfunctions : Json.ItemsIntegral functions := by
    apply Json.itemsIntegral_of_forall
    intro item hitem
    obtain ⟨f, hf⟩ := stored_of_mem h hitem
    exact hf.integral
  simp [storedWith, Json.Integral, Json.MembersIntegral, hid, hbinary, hproperties, hfunctions]

/-- A stored bundle is not deep. -/
theorem depth_storedWith (bundle : Bundle) {functions : List Json}
    (h : List.Forall₂ Function.Stored bundle.functions functions) :
    (bundle.storedWith functions).depth ≤ 3 := by
  have hbinary : Json.depthOfItems (bundle.binary.map fun byte => .ofNat byte.toNat) ≤ 1 := by
    apply Json.depthOfItems_le
    intro item hitem
    obtain ⟨byte, _, rfl⟩ := List.mem_map.mp hitem
    exact Nat.zero_le 1
  have hproperties : Json.depthOfItems (bundle.properties.map Property.toJson) ≤ 1 := by
    apply Json.depthOfItems_le
    intro item hitem
    obtain ⟨p, _, rfl⟩ := List.mem_map.mp hitem
    exact p.depth_toJson.le
  have hfunctions : Json.depthOfItems functions ≤ 1 := by
    apply Json.depthOfItems_le
    intro item hitem
    obtain ⟨f, hf⟩ := stored_of_mem h hitem
    exact hf.depth.le
  have hid : (Json.ofNat bundle.id.toNat).depth = 0 := rfl
  simp only [storedWith, Json.depth, Json.depthOfMembers, hid]
  omega

/-- The text of a bundle is read back, in whichever forms its functions are stored. -/
theorem ofText_storedWith (bundle : Bundle) {functions : List Json}
    (h : List.Forall₂ Function.Stored bundle.functions functions) :
    ofText (bundle.storedWith functions).render = .ok bundle := by
  have hdepth := bundle.depth_storedWith h
  have hlimit : Outline.depthLimit = 127 := rfl
  rw [ofText, Json.readText_render _ (bundle.integral_storedWith h) (by omega)]
  exact bundle.ofOutline_storedWith h

/-- **A stored bundle is restored.**  Its text gives the bundle back, so no other bundle has the
same text; and the text in which any of the functions without a parameter lack the member for it
gives the same bundle back. -/
theorem restored (bundle : Bundle) :
    ofText bundle.toText = .ok bundle ∧
      (∀ other : Bundle, other.toText = bundle.toText → other = bundle) ∧
        ∀ functions : List Json, List.Forall₂ Function.Stored bundle.functions functions →
          ofText (bundle.storedWith functions).render = ofText bundle.toText := by
  have htext : ∀ any : Bundle, ofText any.toText = .ok any := by
    intro any
    rw [toText, toJson_eq]
    exact any.ofText_storedWith (forall₂_whole any.functions)
  refine ⟨htext bundle, ?_, ?_⟩
  · intro other h
    have hother := htext other
    rw [h, htext bundle] at hother
    injection hother with heq
    exact heq.symm
  · intro functions h
    rw [htext bundle]
    exact bundle.ofText_storedWith h

/-- A function without a parameter. -/
def volumeUp : Function := ⟨"music", "volume_up", ""⟩

/-- A function whose parameter needs escapes. -/
def announce : Function := ⟨"speech", "say", "\"12\t\\\x01 😀\""⟩

/-- A bundle with the greatest number there is, and with a function of each sort. -/
def announcing : Bundle :=
  ⟨0xffffffff, "Ansage\r\n\"é𝄞\"", [0, 127, 255], [⟨"clock", "alarm\x00", .ordinal, ⟨255⟩⟩],
    [volumeUp, announce]⟩

/-- It is restored from its text, also from the one that does not name the missing parameter. -/
theorem restored_announcing : ofText announcing.toText = .ok announcing ∧
    ofText (announcing.storedWith [volumeUp.toJson.without "parameter", announce.toJson]).render =
      ofText announcing.toText := by
  have hrestored := restored announcing
  refine ⟨hrestored.1, hrestored.2.2 _ ?_⟩
  exact .cons (.short rfl) (.cons .whole .nil)

/-- The short form of a function lacks a member. -/
example : (volumeUp.toJson.without "parameter").render =
    "\x7b\"extension_id\":\"music\",\"function_id\":\"volume_up\"\x7d" := by
  decide +kernel

end Bundle

end Timepiece
