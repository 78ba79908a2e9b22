import WideRow.Wire.Decode

/-!
# Components of structures

A user-defined type value and a tuple value keep their components encoded. A component is decoded
when it is read, by its declared type and without regard to the others, so a malformed one makes
only its own reading fail. Components that the value lacks at its end are null.
-/

namespace WideRow

/-- The bytes at a position; nothing past the end. -/
def componentAt (components : List (Option Bytes)) (i : Nat) : Option Bytes :=
  components[i]?.join

/-- The declared parts, each with the bytes at its position. -/
def declaredComponents {α : Type} : List α → List (Option Bytes) → List (α × Option Bytes)
  | [], _ => []
  | part :: parts, [] => (part, none) :: declaredComponents parts []
  | part :: parts, raw :: components => (part, raw) :: declaredComponents parts components

/-- Decodes the component at a position of declared types. -/
def readComponent (types : List ColumnType) (components : List (Option Bytes)) (i : Nat) :
    Result Value :=
  match types[i]? with
  | some type => decodeElement type (componentAt components i)
  | none => .error (.outOfRange (i + 1) types.length)

namespace UdtType

def fieldTypes (d : UdtType) : List ColumnType :=
  d.fields.map (·.2)

/-- Decodes the first field with the name, in any case. -/
def readField (d : UdtType) (components : List (Option Bytes)) (name : String) : Result Value :=
  match d.position? name with
  | some i => readComponent d.fieldTypes components i
  | none => .error (.noSuchColumn name)

end UdtType

end WideRow
