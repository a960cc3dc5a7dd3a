/-!
# Texts in columns

A text that is shorter than its column is filled up with spaces; a longer one is
left as it is.

## Main definitions

* `padLeft`, `padRight` — spaces before and behind a text.

## Main results

* `length_padLeft`, `length_padRight` — the width of the column.
-/

namespace Timepiece.Text

/-- The spaces that a text lacks in a column. -/
def fill (width : Nat) (text : String) : String :=
  String.ofList (List.replicate (width - text.length) ' ')

/-- A text at the right end of a column. -/
def padLeft (width : Nat) (text : String) : String := fill width text ++ text

/-- A text at the left end of a column. -/
def padRight (width : Nat) (text : String) : String := text ++ fill width text

/-- A text is as wide as its column, or wider. -/
theorem length_padLeft (width : Nat) (text : String) :
    (padLeft width text).length = max width text.length := by
  simp only [padLeft, fill, String.length_append, String.length_ofList, List.length_replicate]
  omega

/-- A text is as wide as its column, or wider. -/
theorem length_padRight (width : Nat) (text : String) :
    (padRight width text).length = max width text.length := by
  simp only [padRight, fill, String.length_append, String.length_ofList, List.length_replicate]
  omega

end Timepiece.Text
