import WideRow.Number.Shortest
import WideRow.Value.Structure

/-!
# Values as text

A collection is shown with its items between brackets, a structure with its components. Within a
structure text stands in single quotes, where a single quote is written twice, so that components
can be told apart; elsewhere text stands as it is. A component that cannot be decoded shows as a
question mark.
-/

namespace WideRow

/-! ## Depth -/

mutual

/-- How many structures stand inside each other in a type. -/
def ColumnType.structureDepth : ColumnType → Nat
  | .scalar _ | .custom _ => 0
  | .list element | .set element => element.structureDepth
  | .map key value => max key.structureDepth value.structureDepth
  | .udt definition => definition.structureDepth
  | .tuple types => ColumnType.depthEach types + 1
termination_by structural t => t

def UdtType.structureDepth : UdtType → Nat
  | ⟨_, _, fields⟩ => ColumnType.depthFields fields + 1
termination_by structural t => t

def ColumnType.depthFields : List (String × ColumnType) → Nat
  | [] => 0
  | (_, t) :: rest => max t.structureDepth (ColumnType.depthFields rest)
termination_by structural t => t

def ColumnType.depthEach : List ColumnType → Nat
  | [] => 0
  | t :: rest => max t.structureDepth (ColumnType.depthEach rest)
termination_by structural t => t

end

namespace Value

mutual

/-- How many structures stand inside each other in a value, by their declared types. -/
def structureDepth : Value → Nat
  | list items | set items => depthItems items
  | map entries => depthEntries entries
  | udt definition _ => definition.structureDepth
  | tuple types _ => (ColumnType.tuple types).structureDepth
  | _ => 0
termination_by structural v => v

def depthItems : List Value → Nat
  | [] => 0
  | x :: xs => max x.structureDepth (depthItems xs)
termination_by structural v => v

def depthEntries : List (Value × Value) → Nat
  | [] => 0
  | (k, v) :: xs => max (max k.structureDepth v.structureDepth) (depthEntries xs)
termination_by structural v => v

end

/-! ## Rendering -/

/-- Parts with a comma between them. -/
def commaSeparated (parts : List (List Char)) : List Char :=
  [','].intercalate parts

mutual

/-- The text of a value, given how to show a component of a structure. -/
def render (component : ColumnType → Option Bytes → List Char) : Value → List Char
  | null => "null".toList
  | boolean v => (if v then "true" else "false").toList
  | tinyint v => (toString v.toInt).toList
  | smallint v => (toString v.toInt).toList
  | int v => (toString v.toInt).toList
  | bigint v => (toString v.toInt).toList
  | float v => v.text.toList
  | double v => v.text.toList
  | decimal v => v.text.toList
  | varint v => v.numeral
  | text v => v.toList
  | blob v => '0' :: 'x' :: v.flatMap Bytes.hexByte
  | uuid v => v.numeral
  | inet v => v.numeral
  | date v => v.day.numeral
  | time v => Calendar.clockNumeral v.millis
  | timestamp v => v.text.toList
  | duration v => v.numeral
  | list items | set items => '[' :: renderItems component items ++ [']']
  | map entries => '\x7b' :: renderEntries component entries ++ ['\x7d']
  | udt definition components =>
    let parts := (declaredComponents definition.fields components).map fun (field, raw) =>
      field.1.toList ++ ':' :: component field.2 raw
    '\x7b' :: commaSeparated parts ++ ['\x7d']
  | tuple types components =>
    let parts := (declaredComponents types components).map fun (type, raw) => component type raw
    '(' :: commaSeparated parts ++ [')']
termination_by structural v => v

/-- The texts of items with a comma and a space between them. -/
def renderItems (component : ColumnType → Option Bytes → List Char) : List Value → List Char
  | [] => []
  | [x] => render component x
  | x :: y :: rest => render component x ++ ',' :: ' ' :: renderItems component (y :: rest)
termination_by structural v => v

/-- The texts of entries, each a key, an equals sign and a value. -/
def renderEntries (component : ColumnType → Option Bytes → List Char) :
    List (Value × Value) → List Char
  | [] => []
  | [(k, v)] => render component k ++ '=' :: render component v
  | (k, v) :: next :: rest =>
    render component k ++ '=' :: render component v ++
      ',' :: ' ' :: renderEntries component (next :: rest)
termination_by structural v => v

end

/-- Text in single quotes. A single quote inside is written twice. -/
def quote (cs : List Char) : List Char :=
  '\'' :: cs.flatMap (fun c => if c == '\'' then ['\'', '\''] else [c]) ++ ['\'']

/-- The text of a value inside a structure. -/
def renderLiteral (component : ColumnType → Option Bytes → List Char) : Value → List Char
  | text v => quote v.toList
  | v => render component v

/-- The text of a component whose type has fewer than `depth` structures inside each other. -/
def renderComponent : Nat → ColumnType → Option Bytes → List Char
  | 0, _, _ => ['?']
  | depth + 1, type, raw =>
    match decodeElement type raw with
    | .ok v => renderLiteral (renderComponent depth) v
    | .error _ => ['?']

def displayChars (v : Value) : List Char :=
  render (renderComponent v.structureDepth) v

def display (v : Value) : String :=
  String.ofList v.displayChars

end Value

end WideRow
