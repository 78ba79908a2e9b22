import WideRow.Value.Collection
import WideRow.Wire.CustomText
import WideRow.Wire.Framing
import WideRow.Wire.Scalar

/-!
# Decoding values

The declared type decides how bytes are read; absent bytes are null. All items of a collection are
framed before the first is decoded, and one malformed item fails the collection. The components of
structures stay encoded. A custom value reads as null as a column and as cleaned text as an element.
-/

namespace WideRow

/-- Decodes items in order. The error of the item at position `i` says that element `i` of the named
type is malformed. -/
def decodeItems (typeName : Unit → String) (decodeItem : Option Bytes → Result Value) (i : Nat) :
    List (Option Bytes) → Result (List Value)
  | [] => .ok []
  | item :: items =>
    match decodeItem item with
    | .error cause => .error (.element (typeName ()) i cause)
    | .ok v => do
      let vs ← decodeItems typeName decodeItem (i + 1) items
      return v :: vs

/-- Decodes items as keys and values by turns. The elements are counted by items. -/
def decodeEntries (typeName : Unit → String) (decodeKey decodeValue : Option Bytes → Result Value)
    (i : Nat) : List (Option Bytes) → Result (List (Value × Value))
  | key :: value :: items =>
    match decodeKey key with
    | .error cause => .error (.element (typeName ()) i cause)
    | .ok k =>
      match decodeValue value with
      | .error cause => .error (.element (typeName ()) (i + 1) cause)
      | .ok v => do
        let entries ← decodeEntries typeName decodeKey decodeValue (i + 2) items
        return (k, v) :: entries
  | _ => .ok []

/-- The value of a framing, or the error that the type's bytes are malformed. -/
def framed {α : Type} (t : ColumnType) : Except Malformation α → Result α
  | .ok a => .ok a
  | .error malformation => .error (.decode t.name malformation)

/-- Decodes an element of a collection, or a component of a structure. -/
def decodeElement : ColumnType → Option Bytes → Result Value
  | _, none => .ok .null
  | .custom _, some b => .ok (.text (CustomText.clean b))
  | .scalar kind, some b => Scalar.decode kind b
  | .list element, some b => do
    let items ← framed (.list element) (Framing.readCollection 1 b)
    let vs ← decodeItems (fun _ => (ColumnType.list element).name) (decodeElement element) 0 items
    return .list vs
  | .set element, some b => do
    let items ← framed (.set element) (Framing.readCollection 1 b)
    let vs ← decodeItems (fun _ => (ColumnType.set element).name) (decodeElement element) 0 items
    return .setOf vs
  | .map key value, some b => do
    let items ← framed (.map key value) (Framing.readCollection 2 b)
    let entries ← decodeEntries (fun _ => (ColumnType.map key value).name) (decodeElement key)
      (decodeElement value) 0 items
    return .mapOf entries
  | .udt definition, some b => do
    let components ← framed (.udt definition) (Framing.readStructure b)
    if definition.fields.length < components.length then
      throw (.decode (ColumnType.udt definition).name
        (.excessFields components.length definition.fields.length))
    return .udt definition components
  | .tuple types, some b => do
    let components ← framed (.tuple types) (Framing.readStructure b)
    if types.length < components.length then
      throw (.decode (ColumnType.tuple types).name
        (.excessElements components.length types.length))
    return .tuple types components

/-- Decodes a column value. A custom value has no codec and is null. -/
def decodeValue : ColumnType → Option Bytes → Result Value
  | .custom _, _ => .ok .null
  | t, raw => decodeElement t raw

end WideRow
