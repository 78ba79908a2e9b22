import WideRow.Wire.Framing
import WideRow.Wire.Scalar

/-!
# Encoding values

A value is written for a column type; null has no bytes. Raw bytes are written as they are whatever
the type. Any other value has to be of a kind that the type holds.
-/

namespace WideRow

/-- The error that the type cannot hold the value. -/
def cannotEncode (t : ColumnType) (v : Value) : ClientError :=
  .encode t.name v.kindName

/-- Writes items in order, each with its length. -/
def encodeItems (encodeItem : Value → Result (Option Bytes)) : List Value → Result Bytes
  | [] => .ok []
  | v :: vs => do
    let first ← Framing.putItem (← encodeItem v)
    let rest ← encodeItems encodeItem vs
    return first ++ rest

/-- Writes keys and values by turns, each with its length. -/
def encodeEntries (encodeKey encodeValue : Value → Result (Option Bytes)) :
    List (Value × Value) → Result Bytes
  | [] => .ok []
  | (k, v) :: entries => do
    let key ← Framing.putItem (← encodeKey k)
    let value ← Framing.putItem (← encodeValue v)
    let rest ← encodeEntries encodeKey encodeValue entries
    return key ++ value ++ rest

/-- The bytes of a value for a column type. -/
def encodeValue : ColumnType → Value → Result (Option Bytes)
  | _, .null => .ok none
  | _, .blob b => .ok (some b)
  | .custom _, .text s => .ok (some (Text.Utf8.encode s))
  | .scalar kind, v =>
    match Scalar.encode? kind v with
    | some b => .ok (some b)
    | none => .error (cannotEncode (.scalar kind) v)
  | .list element, .list items => do
    let count ← Framing.putCount items.length
    let body ← encodeItems (encodeValue element) items
    return some (count ++ body)
  | .set element, .set items => do
    let count ← Framing.putCount items.length
    let body ← encodeItems (encodeValue element) items
    return some (count ++ body)
  | .map key value, .map entries => do
    let count ← Framing.putCount entries.length
    let body ← encodeEntries (encodeValue key) (encodeValue value) entries
    return some (count ++ body)
  | .udt _, .udt _ components => some <$> Framing.putItems components
  | .tuple _, .tuple _ components => some <$> Framing.putItems components
  | t, v => .error (cannotEncode t v)

end WideRow
