import Timepiece.Bytes

/-!
# Folding text to ASCII

The watch draws ASCII letters only.  Accented Latin letters are replaced by
their base letters, the no-break space by a space, and every other character
outside ASCII by a question mark.

## Main definitions

* `foldings` — the letters that have a replacement, grouped by it.
* `foldChar` — the replacement of one character.
* `foldAscii` — the folding of a text, character by character.

## Main results

* `foldAscii_append` — folding goes piece by piece.
-/

namespace Timepiece.Text

/-- Groups of characters with the ASCII text that stands for each of them. -/
def foldings : List (List Char × List Char) :=
  [("ÀÁÂÃÄÅĀĂĄ".toList, ['A']), ("àáâãäåāăą".toList, ['a']),
   ("Æ".toList, ['A', 'E']), ("æ".toList, ['a', 'e']),
   ("ÇĆĈĊČ".toList, ['C']), ("çćĉċč".toList, ['c']),
   ("ĎĐÐ".toList, ['D']), ("ďđð".toList, ['d']),
   ("ÈÉÊËĒĔĖĘĚ".toList, ['E']), ("èéêëēĕėęě".toList, ['e']),
   ("ĜĞĠĢ".toList, ['G']), ("ĝğġģ".toList, ['g']),
   ("ĤĦ".toList, ['H']), ("ĥħ".toList, ['h']),
   ("ÌÍÎÏĨĪĬĮİ".toList, ['I']), ("ìíîïĩīĭįı".toList, ['i']),
   ("Ĵ".toList, ['J']), ("ĵ".toList, ['j']),
   ("Ķ".toList, ['K']), ("ķ".toList, ['k']),
   ("ĹĻĽĿŁ".toList, ['L']), ("ĺļľŀł".toList, ['l']),
   ("ÑŃŅŇ".toList, ['N']), ("ñńņň".toList, ['n']),
   ("ÒÓÔÕÖØŌŎŐ".toList, ['O']), ("òóôõöøōŏő".toList, ['o']),
   ("Œ".toList, ['O', 'E']), ("œ".toList, ['o', 'e']),
   ("ŔŖŘ".toList, ['R']), ("ŕŗř".toList, ['r']),
   ("ŚŜŞŠ".toList, ['S']), ("śŝşš".toList, ['s']),
   ("ß".toList, ['s', 's']),
   ("ŢŤŦ".toList, ['T']), ("ţťŧ".toList, ['t']),
   ("ÙÚÛÜŨŪŬŮŰŲ".toList, ['U']), ("ùúûüũūŭůűų".toList, ['u']),
   ("Ŵ".toList, ['W']), ("ŵ".toList, ['w']),
   ("ÝŸŶ".toList, ['Y']), ("ýÿŷ".toList, ['y']),
   ("ŹŻŽ".toList, ['Z']), ("źżž".toList, ['z']),
   ("Þ".toList, ['T', 'h']), ("þ".toList, ['t', 'h']),
   (['\u00A0'], [' '])]

/-- Whether a character is one of the 128 of ASCII. -/
def isAscii (c : Char) : Bool := c.toNat < 128

/-- What stands for a character in folded text. -/
def foldChar (c : Char) : List Char :=
  if isAscii c then [c]
  else match foldings.find? fun group => group.1.contains c with
    | some group => group.2
    | none => ['?']

/-- The folding of a text, character by character. -/
def foldAscii (text : List Char) : List Char := text.flatMap foldChar

/-- Folding goes piece by piece. -/
theorem foldAscii_append (a b : List Char) :
    foldAscii (a ++ b) = foldAscii a ++ foldAscii b := by
  simp [foldAscii]

/-- The bytes of a text, one for each character of an ASCII text. -/
def asciiBytes (text : List Char) : Bytes := text.map fun c => UInt8.ofNat c.toNat

end Timepiece.Text
