/-!
# Paths

A path is a text of names with slashes between them.  Empty names and the name
`.` lead nowhere; the name `..` leads one folder up.

## Main definitions

* `Path.names` — a path cut at its slashes.
* `Path.steps` — the names that lead somewhere.
* `Path.beside` — the path of a file in the folder of another one.
* `Path.isSpeakable`, `Path.isName` — the limits of paths and of their names.

## Main results

* `Path.beside_of_noSlash` — beside a file of the present folder is the present
  folder.
-/

namespace Timepiece.Path

/-- A text cut at its slashes; the pieces in between may be empty. -/
def cut : List Char → List (List Char)
  | [] => [[]]
  | c :: rest =>
    if c = '/' then [] :: cut rest
    else match cut rest with
      | [] => [[c]]
      | piece :: pieces => (c :: piece) :: pieces

/-- The names of a path, empty ones included. -/
def names (path : String) : List String := (cut path.toList).map String.ofList

/-- Whether a name leads nowhere. -/
def isIdle (name : String) : Bool := name == "" || name == "."

/-- The names that lead somewhere. -/
def steps (path : String) : List String := (names path).filter fun name => !isIdle name

/-- Whether a path starts at the root of all folders. -/
def isAbsolute (path : String) : Bool := path.toList.head? == some '/'

/-- Whether a path ends like that of a folder. -/
def endsAsFolder (path : String) : Bool :=
  match (names path).getLast? with
  | some name => isIdle name
  | none => true

/-- The greatest length of a path, in bytes. -/
def maxLength : Nat := 4095

/-- The greatest length of a name, in bytes. -/
def maxNameLength : Nat := 255

/-- Whether a path can be asked for at all: it may not be too long, and the
character zero may not stand in it. -/
def isSpeakable (path : String) : Bool :=
  path.utf8ByteSize ≤ maxLength && !path.toList.contains '\x00'

/-- Whether a name is short enough for a file or folder. -/
def isName (name : String) : Bool := name.utf8ByteSize ≤ maxNameLength

/-- Names in reverse order without idle ones in front.  The first name of the
path stays, whatever it is. -/
def dropIdle : List String → List String
  | [] => []
  | [first] => [first]
  | name :: rest => if isIdle name then dropIdle rest else name :: rest

/-- The path of a file in the folder that another path lies in.  The text of that
folder is kept as it is written. -/
def beside (path file : String) : String :=
  match dropIdle (names path).reverse with
  | _ :: rest =>
    match dropIdle rest with
    | [] => file
    | [""] => "/" ++ file
    | folder => "/".intercalate folder.reverse ++ "/" ++ file
  | [] => file

/-- A text without slashes is one piece. -/
theorem cut_of_noSlash {text : List Char} (h : '/' ∉ text) : cut text = [text] := by
  induction text with
  | nil => rfl
  | cons c rest ih =>
    have hc : c ≠ '/' := fun e => h (e ▸ List.mem_cons_self ..)
    have hr : '/' ∉ rest := fun m => h (List.mem_cons_of_mem _ m)
    simp [cut, hc, ih hr]

/-- Beside a file of the present folder is the present folder. -/
theorem beside_of_noSlash {path : String} (h : '/' ∉ path.toList) (file : String) :
    beside path file = file := by
  simp [beside, names, cut_of_noSlash h, dropIdle]

end Timepiece.Path
