import WideRow.Bytes
import WideRow.Text.Character
import WideRow.Text.Utf8

/-!
# Text of custom values

An element of a custom type has no codec and is shown as text. Controls, blanks and bytes without a
meaning separate words; the words are kept as they are, with one space between them.
-/

namespace WideRow.CustomText

/-- A character that only separates words. -/
def isSeparator (c : Char) : Bool :=
  Text.isControl c || Text.isBlank c || c == Text.Utf8.replacement

/-- The words of the characters with one space between them. `started` tells whether a word came
before, and `pending` whether a separator did since. -/
def join (started pending : Bool) : List Char → List Char
  | [] => []
  | c :: cs =>
    if isSeparator c then join started started cs
    else if pending then ' ' :: c :: join true false cs
    else c :: join true false cs

/-- The text of the bytes, with one space between words. -/
def clean (b : Bytes) : String :=
  String.ofList (join false false (Text.Utf8.decodeLenient b))

end WideRow.CustomText
