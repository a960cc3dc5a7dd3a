import Mathlib
import Timepiece.Json.Reader
import Timepiece.Proofs.Json.Words

/-!
# Rendered texts show their values

The outline of a rendered value is the tree of the value itself: nothing breaks off, no key is
lost, and the text ends where the value does.  Values nested deeper than a reader goes are
left out.

## Main definitions

* `Json.outline` — the tree of a value.
* `Outline.goOn` — building an outline after the effect of one word.

## Main results

* `Json.build_words` — the words of a value put its tree into the place where a value is
  expected.
* `Json.ofText_renderChars` — **the rendered text of a value shows the value.**
-/

namespace Timepiece

namespace Json

mutual

/-- The tree of a value. -/
def outline : Json → Outline
  | .null => .null
  | .bool b => .bool b
  | .number n => .number n
  | .text s => .text s
  | .array items => .array (itemOutlines items) none
  | .object members => .object (memberOutlines members) none

/-- The trees of the items of an array. -/
def itemOutlines : List Json → List Outline
  | [] => []
  | item :: rest => item.outline :: itemOutlines rest

/-- The trees of the members of an object. -/
def memberOutlines : List (String × Json) → List (Key × Outline)
  | [] => []
  | (key, value) :: rest => (.name key, value.outline) :: memberOutlines rest

end

end Json

namespace Outline

/-- How an outline is built after the effect of one word. -/
def goOn : Progress → List Token → Outline × Bool
  | .more stack expected, rest => build stack expected rest
  | .whole value, rest => (value, rest.isEmpty)
  | .brokenOff value, _ => (value, true)

theorem build_cons (stack : Stack) (expected : Expected) (token : Token) (rest : List Token) :
    build stack expected (token :: rest) = goOn (advance stack expected token) rest := by
  rw [build]
  cases advance stack expected token <;> rfl

end Outline

namespace Json

open Outline

variable {frames : List Frame} {depth : Nat} {rest : List Token}

/-- A container that is not too deep is put into its place when it is closed. -/
theorem shut_succ (container : Outline) (frames : List Frame) (depth : Nat)
    (h : depth + 1 ≤ depthLimit) :
    shut container frames (depth + 1) = place container frames depth := by
  rw [shut, sealAt, if_pos h, Nat.add_sub_cancel]

/-- Where the first item of an array may stand, no value is taken for its end. -/
theorem build_firstItem (value : Json) (stack : Stack) (rest : List Token) :
    build stack .firstItem (value.words ++ rest) = build stack .value (value.words ++ rest) := by
  cases value with
  | array items => cases items <;> rfl
  | object members => rcases members with _ | ⟨⟨key, first⟩, others⟩ <;> rfl
  | _ => rfl

/-- An item of an array and those behind it. -/
theorem build_items {item : Json} {others : List Json} {done : List Outline}
    (hitem : ∀ rest, build ⟨.array done :: frames, depth⟩ .value (item.words ++ rest) =
      goOn (place item.outline (.array done :: frames) depth) rest)
    (hothers : build ⟨.array (item.outline :: done) :: frames, depth⟩ .separator
        (itemWords others ++ rest) =
      goOn (shut (.array ((item.outline :: done).reverse ++ itemOutlines others) none) frames depth)
        rest) :
    build ⟨.array done :: frames, depth⟩ .value (item.words ++ itemWords others ++ rest) =
      goOn (shut (.array (done.reverse ++ itemOutlines (item :: others)) none) frames depth) rest := by
  rw [List.append_assoc, hitem]
  show build ⟨.array (item.outline :: done) :: frames, depth⟩ .separator _ = _
  rw [hothers, List.reverse_cons, List.append_assoc]
  rfl

/-- A member of an object and those behind it, from the key on. -/
theorem build_members {key : String} {value : Json} {others : List (String × Json)}
    {done : List (Key × Outline)} {expected : Expected}
    (hkey : expected = .key ∨ expected = .firstKey)
    (hvalue : ∀ rest, build ⟨.member done (.name key) :: frames, depth⟩ .value
        (value.words ++ rest) =
      goOn (place value.outline (.member done (.name key) :: frames) depth) rest)
    (hothers : build ⟨.object ((.name key, value.outline) :: done) :: frames, depth⟩ .separator
        (memberWords others ++ rest) =
      goOn (shut (.object (((.name key, value.outline) :: done).reverse ++ memberOutlines others)
        none) frames depth) rest) :
    build ⟨.object done :: frames, depth⟩ expected
        (.text (some key) :: .colon :: value.words ++ memberWords others ++ rest) =
      goOn (shut (.object (done.reverse ++ memberOutlines ((key, value) :: others)) none) frames
        depth) rest := by
  have hcolon : build ⟨.object done :: frames, depth⟩ expected
      (.text (some key) :: .colon :: value.words ++ memberWords others ++ rest) =
        build ⟨.member done (.name key) :: frames, depth⟩ .value
          (value.words ++ (memberWords others ++ rest)) := by
    rw [← List.append_assoc]
    rcases hkey with rfl | rfl <;> rfl
  rw [hcolon, hvalue]
  show build ⟨.object ((.name key, value.outline) :: done) :: frames, depth⟩ .separator _ = _
  rw [hothers, List.reverse_cons, List.append_assoc]
  rfl

mutual

/-- **The words of a value put its tree into the place where a value is expected.** -/
theorem build_words : ∀ (value : Json) (frames : List Frame) (depth : Nat) (rest : List Token),
    depth + value.depth ≤ depthLimit →
      build ⟨frames, depth⟩ .value (value.words ++ rest) =
        goOn (place value.outline frames depth) rest
  | .null, frames, depth, rest, _ => build_cons ..
  | .bool b, frames, depth, rest, _ => build_cons ..
  | .number n, frames, depth, rest, _ => build_cons ..
  | .text s, frames, depth, rest, _ => build_cons ..
  | .array [], frames, depth, rest, h => by
    have hshut := shut_succ (.array [] none) frames depth h
    rw [outline, itemOutlines, ← hshut]
    exact build_cons ⟨.array [] :: frames, depth + 1⟩ .firstItem .closeArray rest
  | .array (first :: others), frames, depth, rest, h => by
    rw [Json.depth, depthOfItems] at h
    have hitems := build_items (fun rest => build_words first (.array [] :: frames) (depth + 1) rest
      (by omega)) (build_itemWords others [first.outline] frames (depth + 1) rest (by omega))
    rw [shut_succ _ _ _ (by omega)] at hitems
    rw [List.append_assoc, ← build_firstItem, ← List.append_assoc] at hitems
    exact hitems
  | .object [], frames, depth, rest, h => by
    have hshut := shut_succ (.object [] none) frames depth h
    rw [outline, memberOutlines, ← hshut]
    exact build_cons ⟨.object [] :: frames, depth + 1⟩ .firstKey .closeObject rest
  | .object ((key, first) :: others), frames, depth, rest, h => by
    rw [Json.depth, depthOfMembers] at h
    have hmembers := build_members (.inr rfl) (fun rest => build_words first
      (.member [] (.name key) :: frames) (depth + 1) rest (by omega))
      (build_memberWords others [(.name key, first.outline)] frames (depth + 1) rest (by omega))
    rw [shut_succ _ _ _ (by omega)] at hmembers
    exact hmembers

/-- The items behind those that an open array already holds. -/
theorem build_itemWords : ∀ (items : List Json) (done : List Outline) (frames : List Frame)
    (depth : Nat) (rest : List Token), depth + depthOfItems items ≤ depthLimit →
      build ⟨.array done :: frames, depth⟩ .separator (itemWords items ++ rest) =
        goOn (shut (.array (done.reverse ++ itemOutlines items) none) frames depth) rest
  | [], done, frames, depth, rest, _ => by
    rw [itemWords, List.singleton_append, build_cons, itemOutlines, List.append_nil]
    rfl
  | item :: others, done, frames, depth, rest, h => by
    rw [depthOfItems] at h
    exact build_items
      (fun rest => build_words item (.array done :: frames) depth rest (by omega))
      (build_itemWords others (item.outline :: done) frames depth rest (by omega))

/-- The members behind those that an open object already holds. -/
theorem build_memberWords : ∀ (members : List (String × Json)) (done : List (Key × Outline))
    (frames : List Frame) (depth : Nat) (rest : List Token),
    depth + depthOfMembers members ≤ depthLimit →
      build ⟨.object done :: frames, depth⟩ .separator (memberWords members ++ rest) =
        goOn (shut (.object (done.reverse ++ memberOutlines members) none) frames depth) rest
  | [], done, frames, depth, rest, _ => by
    rw [memberWords, List.singleton_append, build_cons, memberOutlines, List.append_nil]
    rfl
  | (key, value) :: others, done, frames, depth, rest, h => by
    rw [depthOfMembers] at h
    exact build_members (.inl rfl)
      (fun rest => build_words value (.member done (.name key) :: frames) depth rest (by omega))
      (build_memberWords others ((.name key, value.outline) :: done) frames depth rest (by omega))

end

/-- **The rendered text of a value shows the value**, and ends with it. -/
theorem ofText_renderChars {value : Json} (hintegral : value.Integral)
    (hdepth : value.depth ≤ depthLimit) :
    Outline.ofText value.renderChars = (value.outline, true) := by
  have hbuild := build_words value [] 0 [] (by rwa [Nat.zero_add])
  rw [List.append_nil] at hbuild
  rw [Outline.ofText, ofTokens, tokens_renderChars hintegral, hbuild]
  rfl

/-- A reader of a rendered value is a reader of the value. -/
theorem readText_render {α : Type} (read : Outline → Reading α) {value : Json}
    (hintegral : value.Integral) (hdepth : value.depth ≤ depthLimit) :
    readText read value.render = read value.outline := by
  rw [readText, render, String.toList_ofList, ofText_renderChars hintegral hdepth]
  dsimp only
  cases read value.outline <;> rfl

end Json

end Timepiece
