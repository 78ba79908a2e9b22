import WideRow.Text.Unseen

/-!
# Quoted text

Diagnostic output writes a text between double quotes. Inside, a backslash stands before a quote or
a backslash, the common controls have a letter each, and a character without a glyph of its own is
written by its number in hexadecimal.
-/

namespace WideRow.Text

/-- The form of one character inside a quoted text. -/
def quotedChar (c : Char) : List Char :=
  if c == '\x00' then ['\\', '0']
  else if c == '\t' then ['\\', 't']
  else if c == '\r' then ['\\', 'r']
  else if c == '\n' then ['\\', 'n']
  else if c == '\\' then ['\\', '\\']
  else if c == '"' then ['\\', '"']
  else if isUnseen c then ['\\', 'u', '\x7b'] ++ Nat.toDigits 16 c.toNat ++ ['\x7d']
  else [c]

/-- A text between double quotes, in the form that diagnostics show. -/
def quoted (s : String) : String :=
  String.ofList ('"' :: s.toList.flatMap quotedChar ++ ['"'])

end WideRow.Text
