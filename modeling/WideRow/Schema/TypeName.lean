import WideRow.Error.Basic
import WideRow.Schema.ColumnType

/-!
# Reading type names

A type name such as `map<text, frozen<list<int>>>` is read in two steps. The text is cut into
tokens: class names in single quotes, words, and the three marks `<`, `>` and `,`, with blanks
anywhere before a token. The tokens are then read as a type: a class name, the word of a scalar
kind, or one of the words `list`, `set`, `map`, `tuple` and `frozen` with arguments. `frozen<T>` is
`T`. The case of words does not matter.
-/

namespace WideRow

/-! ## Tokens -/

inductive TypeToken where
  /-- Any characters but a single quote, between single quotes. -/
  | className (name : String)
  /-- A run of ASCII letters, digits and underscores, in lower case. -/
  | word (word : String)
  | opening
  | closing
  | comma
  /-- A single quote without a second one after it. -/
  | unclosed
  /-- A character that starts no token. -/
  | stray
  deriving DecidableEq, Repr

namespace TypeToken

theorem length_dropWhile_le {α : Type} (p : α → Bool) (l : List α) :
    (l.dropWhile p).length ≤ l.length :=
  (List.dropWhile_suffix p).length_le

def mark? (c : Char) : Option TypeToken :=
  if c == '<' then some opening
  else if c == '>' then some closing
  else if c == ',' then some comma
  else none

/-- Cuts a text into tokens. Nothing is cut after a character that starts none. -/
def scan : List Char → List TypeToken
  | [] => []
  | c :: cs =>
    if Text.isBlank c then scan cs
    else if c == '\'' then
      if (cs.dropWhile (· != '\'')).isEmpty then [unclosed]
      else
        className (String.ofList (cs.takeWhile (· != '\'')))
          :: scan (cs.dropWhile (· != '\'')).tail
    else if Text.isWordChar c then
      word (Text.foldCase (String.ofList (c :: cs.takeWhile Text.isWordChar)))
        :: scan (cs.dropWhile Text.isWordChar)
    else
      match mark? c with
      | some token => token :: scan cs
      | none => [stray]
termination_by cs => cs.length
decreasing_by
  · simp
  · have := length_dropWhile_le (· != '\'') cs
    simp
    omega
  · have := length_dropWhile_le Text.isWordChar cs
    simp
    omega
  · simp

end TypeToken

/-! ## Types -/

/-- Why tokens are no type name. -/
inductive TypeNameFault where
  /-- A word stands where a type should, and no type has that name. -/
  | unknownWord (word : String)
  /-- The tokens do not follow the grammar. -/
  | malformed
  deriving DecidableEq, Repr

namespace TypeNameFault

/-- The error that names the word, or the whole text. -/
def toError (text : String) : TypeNameFault → ClientError
  | unknownWord word => .unknownType word
  | malformed => .unknownType text

end TypeNameFault

namespace ColumnType

/-- The rest after a token that has to stand next. -/
def expect (token : TypeToken) : List TypeToken → Except TypeNameFault (List TypeToken)
  | [] => .error .malformed
  | next :: rest => if next = token then .ok rest else .error .malformed

/-- The type of a scalar kind's name. -/
def ofWord (word : String) : Except TypeNameFault ColumnType :=
  match ScalarKind.all.find? (·.name == word) with
  | some kind => .ok (.scalar kind)
  | none => .error (.unknownWord word)

mutual

/-- Reads one type off the front. The fuel bounds the nesting, which tokens bound in turn. -/
def readType : Nat → List TypeToken → Except TypeNameFault (ColumnType × List TypeToken)
  | 0, _ => .error .malformed
  | fuel + 1, tokens =>
    match tokens with
    | .className name :: rest => .ok (.custom name, rest)
    | .unclosed :: _ => .error .malformed
    | .word word :: rest =>
      if word = "frozen" then do
        let (inner, rest) ← readType fuel (← expect .opening rest)
        return (inner, ← expect .closing rest)
      else if word = "list" then do
        let (element, rest) ← readType fuel (← expect .opening rest)
        return (.list element, ← expect .closing rest)
      else if word = "set" then do
        let (element, rest) ← readType fuel (← expect .opening rest)
        return (.set element, ← expect .closing rest)
      else if word = "map" then do
        let (key, rest) ← readType fuel (← expect .opening rest)
        let (value, rest) ← readType fuel (← expect .comma rest)
        return (.map key value, ← expect .closing rest)
      else if word = "tuple" then do
        let (first, rest) ← readType fuel (← expect .opening rest)
        let (more, rest) ← readMore fuel rest
        return (.tuple (first :: more), ← expect .closing rest)
      else do
        return (← ofWord word, rest)
    | _ => .error (.unknownWord "")

/-- Reads types with a comma before each, as many as there are. -/
def readMore : Nat → List TypeToken → Except TypeNameFault (List ColumnType × List TypeToken)
  | 0, _ => .error .malformed
  | fuel + 1, tokens =>
    match tokens with
    | .comma :: rest => do
      let (next, rest) ← readType fuel rest
      let (more, rest) ← readMore fuel rest
      return (next :: more, rest)
    | _ => .ok ([], tokens)

end

/-- The type that all the tokens together name. -/
def ofTokens (tokens : List TypeToken) : Except TypeNameFault ColumnType := do
  let (type, rest) ← readType (tokens.length + 1) tokens
  if rest.isEmpty then return type else throw .malformed

def parse (text : String) : Result ColumnType :=
  (ofTokens (TypeToken.scan text.toList)).mapError (·.toError text)

end ColumnType

end WideRow
