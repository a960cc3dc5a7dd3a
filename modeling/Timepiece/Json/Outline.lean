import Timepiece.Json.Token

/-!
# What a JSON text shows

A reader refuses a text for the first fault it meets on its way through, be it
that the text is broken or that a value has the wrong shape.  An `Outline` is the
tree of a text as far as the text goes: where the text breaks off, so does the
tree, and the place and the manner of the break stay visible.  A reader that
walks the outline in the order of the text therefore meets every fault in its
place.

Arrays and objects may be open at most 127 deep.  One that lies deeper can still
be skipped but not read.

## Main definitions

* `Outline` — the tree of a text, as far as it goes.
* `Outline.ofText` — the outline of a text, and whether the text ends with it.
* `Outline.value` — the value of an outline that can be read as a whole.
-/

namespace Timepiece

/-- What stands in the place of a key. -/
inductive Key where
  /-- A readable name. -/
  | name (s : String)
  /-- A word that is no readable key. -/
  | broken (b : Breach)

/-- The tree of a text, as far as the text goes.  An array or object that is not
closed has the breach at which it breaks off. -/
inductive Outline where
  | null
  | bool (b : Bool)
  | number (n : Number)
  | text (s : String)
  | array (items : List Outline) (stop : Option Breach)
  | object (members : List (Key × Outline)) (stop : Option Breach)
  /-- A value that cannot be read, for the given reason. -/
  | unreadable (b : Breach)

namespace Outline

/-- How many arrays and objects may be open at once. -/
def depthLimit : Nat := 127

/-- An array or object that is open, with what it holds so far, the last first. -/
inductive Frame where
  | array (items : List Outline)
  | object (members : List (Key × Outline))
  /-- An object after a key. -/
  | member (members : List (Key × Outline)) (key : Key)

/-- The containers that are open, the innermost first, and how many they are. -/
structure Stack where
  frames : List Frame
  depth : Nat

/-- What may come next. -/
inductive Expected where
  /-- A value. -/
  | value
  /-- The first item of an array, or its end. -/
  | firstItem
  /-- The first key of an object, or its end. -/
  | firstKey
  /-- A key. -/
  | key
  /-- The colon after a key. -/
  | colon
  /-- A comma, or the end of the container. -/
  | separator

/-- A container at the given depth, counted from one.  Too deep, it cannot be
read. -/
def sealAt (depth : Nat) (container : Outline) : Outline :=
  if depth ≤ depthLimit then container else .unreadable .malformed

/-- What a frame holds, closed or broken off. -/
def Frame.close (stop : Option Breach) : Frame → Outline
  | .array items => .array items.reverse stop
  | .object members => .object members.reverse stop
  | .member members key => .object ((key, .unreadable .malformed) :: members).reverse stop

/-- Puts a value into a frame. -/
def Frame.add (value : Outline) : Frame → Frame
  | .array items => .array (value :: items)
  | .object members => .object members
  | .member members key => .object ((key, value) :: members)

/-- The tree that the text shows when it breaks off after a value or at the end
of what the innermost container holds. -/
def breakOff (b : Breach) (value : Outline) : (frames : List Frame) → (depth : Nat) → Outline
  | [], _ => value
  | frame :: frames, depth =>
    breakOff b (sealAt depth ((frame.add value).close (some b))) frames (depth - 1)

/-- The tree that the text shows when it breaks off between values. -/
def breakBetween (b : Breach) (stack : Stack) : Outline :=
  match stack.frames with
  | [] => .unreadable b
  | frame :: frames =>
    breakOff b (sealAt stack.depth (frame.close (some b))) frames (stack.depth - 1)

/-- A word in the place of a key that is no key. -/
def wrongKey (token : Token) (members : List (Key × Outline)) (stack : Stack) : Outline :=
  let b := match token with
    | .broken true _ skipped => skipped
    | _ => .malformed
  let key := match token with
    | .broken true read _ => Key.broken read
    | _ => Key.broken .malformed
  breakBetween b { stack with frames := .member members key :: stack.frames.tail }

/-! ### Building -/

/-- How far the words so far have come. -/
inductive Progress where
  /-- More words are needed. -/
  | more (stack : Stack) (expected : Expected)
  /-- The outermost value is complete. -/
  | whole (value : Outline)
  /-- The text is broken. -/
  | brokenOff (value : Outline)

/-- Puts a complete value into the innermost frame. -/
def place (value : Outline) (frames : List Frame) (depth : Nat) : Progress :=
  match frames with
  | [] => .whole value
  | frame :: frames => .more ⟨frame.add value :: frames, depth⟩ .separator

/-- Closes the innermost container. -/
def shut (container : Outline) (frames : List Frame) (depth : Nat) : Progress :=
  place (sealAt depth container) frames (depth - 1)

/-- A word where a value is needed. -/
def takeValue (stack : Stack) : Token → Progress
  | .openArray => .more ⟨.array [] :: stack.frames, stack.depth + 1⟩ .firstItem
  | .openObject => .more ⟨.object [] :: stack.frames, stack.depth + 1⟩ .firstKey
  | .null => place .null stack.frames stack.depth
  | .bool b => place (.bool b) stack.frames stack.depth
  | .number (some n) => place (.number n) stack.frames stack.depth
  | .number none => place (.unreadable .malformed) stack.frames stack.depth
  | .text (some s) => place (.text s) stack.frames stack.depth
  | .text none => place (.unreadable .malformed) stack.frames stack.depth
  | .broken _ read skipped =>
    .brokenOff (breakOff skipped (.unreadable read) stack.frames stack.depth)
  | .closeArray | .closeObject | .comma | .colon =>
    .brokenOff (breakOff .malformed (.unreadable .malformed) stack.frames stack.depth)

/-- A word where a key is needed. -/
def takeKey (stack : Stack) (token : Token) : Progress :=
  match token, stack.frames with
  | .text (some s), .object members :: frames =>
    .more { stack with frames := .member members (.name s) :: frames } .colon
  | .text none, .object members :: frames =>
    .more { stack with frames := .member members (.broken .malformed) :: frames } .colon
  | token, .object members :: _ => .brokenOff (wrongKey token members stack)
  | _, _ => .brokenOff (breakBetween .malformed stack)

/-- A word after a value. -/
def takeSeparator (stack : Stack) (token : Token) : Progress :=
  match token, stack.frames with
  | .comma, .array _ :: _ => .more stack .value
  | .comma, .object _ :: _ => .more stack .key
  | .closeArray, .array items :: frames => shut (.array items.reverse none) frames stack.depth
  | .closeObject, .object members :: frames =>
    shut (.object members.reverse none) frames stack.depth
  | _, _ => .brokenOff (breakBetween .malformed stack)

/-- The effect of one word. -/
def advance (stack : Stack) (expected : Expected) (token : Token) : Progress :=
  match expected with
  | .value => takeValue stack token
  | .separator => takeSeparator stack token
  | .key => takeKey stack token
  | .firstItem =>
    match token, stack.frames with
    | .closeArray, .array _ :: frames => shut (.array [] none) frames stack.depth
    | token, _ => takeValue stack token
  | .firstKey =>
    match token, stack.frames with
    | .closeObject, .object _ :: frames => shut (.object [] none) frames stack.depth
    | token, _ => takeKey stack token
  | .colon =>
    match token with
    | .colon => .more stack .value
    | _ => .brokenOff (breakOff .malformed (.unreadable .malformed) stack.frames stack.depth)

/-- What the text shows if it ends here. -/
def ending (stack : Stack) (expected : Expected) : Outline :=
  match expected, stack.frames with
  | .value, frames => breakOff .ended (.unreadable .ended) frames stack.depth
  | .colon, frames => breakOff .ended (.unreadable .ended) frames stack.depth
  | .key, .object members :: frames =>
    breakBetween .ended { stack with frames := .member members (.broken .ended) :: frames }
  | _, _ => breakBetween .ended stack

/-- The outline that the words show from here on, and whether they end with it.
The containers that are open wait on the stack. -/
def build (stack : Stack) (expected : Expected) : List Token → Outline × Bool
  | [] => (ending stack expected, true)
  | token :: rest =>
    match advance stack expected token with
    | .more stack expected => build stack expected rest
    | .whole value => (value, rest.isEmpty)
    | .brokenOff value => (value, true)

/-- The outline of the words of a text, and whether they end with it. -/
def ofTokens (words : List Token) : Outline × Bool := build ⟨[], 0⟩ .value words

/-- The outline of a text, and whether the text ends with it. -/
def ofText (text : List Char) : Outline × Bool := ofTokens (tokens text)

/-! ### Reading as a whole -/

mutual

/-- The value of an outline, read in the order of the text.  Repeated keys are
kept. -/
def value : Outline → Reading Json
  | .null => .ok .null
  | .bool b => .ok (.bool b)
  | .number n => .ok (.number n)
  | .text s => .ok (.text s)
  | .array items stop => (itemValues stop [] items).map .array
  | .object members stop => (memberValues stop [] members).map .object
  | .unreadable b => .error (.breach b)

/-- The values of the items of an array after those already read, which are kept
in reverse. -/
def itemValues (stop : Option Breach) (done : List Json) : List Outline → Reading (List Json)
  | [] =>
    match stop with
    | none => .ok done.reverse
    | some b => .error (.breach b)
  | item :: rest =>
    match item.value with
    | .ok v => itemValues stop (v :: done) rest
    | .error fault => .error fault

/-- The members of an object after those already read, which are kept in
reverse. -/
def memberValues (stop : Option Breach) (done : List (String × Json)) :
    List (Key × Outline) → Reading (List (String × Json))
  | [] =>
    match stop with
    | none => .ok done.reverse
    | some b => .error (.breach b)
  | (.broken b, _) :: _ => .error (.breach b)
  | (.name key, member) :: rest =>
    match member.value with
    | .ok v => memberValues stop ((key, v) :: done) rest
    | .error fault => .error fault

end

end Outline

end Timepiece
