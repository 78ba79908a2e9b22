import WideRow.Schema.Kind
import WideRow.Text.Character

/-!
# Column types

A column type is a scalar kind, a custom class, a collection of types, a user-defined type or a
tuple, nested to any depth. Equality is decidable. The name of a type is its canonical text; a
user-defined type is named by its keyspace and its own name, and its fields do not show.
-/

namespace WideRow

mutual

inductive ColumnType where
  | scalar (kind : ScalarKind)
  /-- A type that only the server knows, by the name of its class. -/
  | custom (className : String)
  | list (element : ColumnType)
  | set (element : ColumnType)
  | map (key value : ColumnType)
  | udt (definition : UdtType)
  | tuple (elements : List ColumnType)

/-- A user-defined type: where it is defined, its name and its fields in order. -/
structure UdtType where
  keyspace : String
  name : String
  fields : List (String × ColumnType)

end

instance : Inhabited ColumnType :=
  ⟨.scalar .int⟩

/-! ## Equality -/

mutual

def ColumnType.same : ColumnType → ColumnType → Bool
  | .scalar a, .scalar b => a == b
  | .custom a, .custom b => a == b
  | .list a, .list b => a.same b
  | .set a, .set b => a.same b
  | .map k v, .map l w => k.same l && v.same w
  | .udt a, .udt b => a.same b
  | .tuple a, .tuple b => ColumnType.sameEach a b
  | _, _ => false
termination_by structural t => t

def UdtType.same : UdtType → UdtType → Bool
  | ⟨keyspace, name, fields⟩, other =>
    keyspace == other.keyspace && name == other.name && ColumnType.sameFields fields other.fields
termination_by structural t => t

def ColumnType.sameFields : List (String × ColumnType) → List (String × ColumnType) → Bool
  | [], [] => true
  | (f, t) :: r, (g, u) :: s => f == g && t.same u && ColumnType.sameFields r s
  | _, _ => false
termination_by structural t => t

def ColumnType.sameEach : List ColumnType → List ColumnType → Bool
  | [], [] => true
  | t :: r, u :: s => t.same u && ColumnType.sameEach r s
  | _, _ => false
termination_by structural t => t

end

mutual

theorem ColumnType.eq_of_same : ∀ {a b : ColumnType}, a.same b = true → a = b
  | .scalar _, b, h => by cases b <;> simp_all [ColumnType.same]
  | .custom _, b, h => by cases b <;> simp_all [ColumnType.same]
  | .list a, b, h => by
    cases b with
    | list b => rw [ColumnType.eq_of_same (a := a) (b := b) (by simpa [ColumnType.same] using h)]
    | _ => simp [ColumnType.same] at h
  | .set a, b, h => by
    cases b with
    | set b => rw [ColumnType.eq_of_same (a := a) (b := b) (by simpa [ColumnType.same] using h)]
    | _ => simp [ColumnType.same] at h
  | .map k v, b, h => by
    cases b with
    | map l w =>
      simp only [ColumnType.same, Bool.and_eq_true] at h
      rw [ColumnType.eq_of_same h.1, ColumnType.eq_of_same h.2]
    | _ => simp [ColumnType.same] at h
  | .udt d, b, h => by
    cases b with
    | udt e => rw [UdtType.eq_of_same (a := d) (b := e) (by simpa [ColumnType.same] using h)]
    | _ => simp [ColumnType.same] at h
  | .tuple es, b, h => by
    cases b with
    | tuple fs =>
      rw [ColumnType.eq_of_sameEach (a := es) (b := fs) (by simpa [ColumnType.same] using h)]
    | _ => simp [ColumnType.same] at h

theorem UdtType.eq_of_same : ∀ {a b : UdtType}, a.same b = true → a = b
  | ⟨_, _, _⟩, ⟨_, _, _⟩, h => by
    simp only [UdtType.same, Bool.and_eq_true, beq_iff_eq] at h
    rw [h.1.1, h.1.2, ColumnType.eq_of_sameFields h.2]

theorem ColumnType.eq_of_sameFields :
    ∀ {a b : List (String × ColumnType)}, ColumnType.sameFields a b = true → a = b
  | [], [], _ => rfl
  | (_, _) :: _, (_, _) :: _, h => by
    simp only [ColumnType.sameFields, Bool.and_eq_true, beq_iff_eq] at h
    rw [h.1.1, ColumnType.eq_of_same h.1.2, ColumnType.eq_of_sameFields h.2]
  | [], _ :: _, h | _ :: _, [], h => by simp [ColumnType.sameFields] at h

theorem ColumnType.eq_of_sameEach :
    ∀ {a b : List ColumnType}, ColumnType.sameEach a b = true → a = b
  | [], [], _ => rfl
  | _ :: _, _ :: _, h => by
    simp only [ColumnType.sameEach, Bool.and_eq_true] at h
    rw [ColumnType.eq_of_same h.1, ColumnType.eq_of_sameEach h.2]
  | [], _ :: _, h | _ :: _, [], h => by simp [ColumnType.sameEach] at h

end

mutual

theorem ColumnType.same_self : ∀ a : ColumnType, a.same a = true
  | .scalar _ | .custom _ => by simp [ColumnType.same]
  | .list a | .set a => by simp [ColumnType.same, a.same_self]
  | .map k v => by simp [ColumnType.same, k.same_self, v.same_self]
  | .udt d => by simp [ColumnType.same, d.same_self]
  | .tuple es => by simp [ColumnType.same, ColumnType.sameEach_self es]

theorem UdtType.same_self : ∀ a : UdtType, a.same a = true
  | ⟨_, _, fields⟩ => by simp [UdtType.same, ColumnType.sameFields_self fields]

theorem ColumnType.sameFields_self :
    ∀ a : List (String × ColumnType), ColumnType.sameFields a a = true
  | [] => by simp [ColumnType.sameFields]
  | (_, t) :: r => by simp [ColumnType.sameFields, t.same_self, ColumnType.sameFields_self r]

theorem ColumnType.sameEach_self : ∀ a : List ColumnType, ColumnType.sameEach a a = true
  | [] => by simp [ColumnType.sameEach]
  | t :: r => by simp [ColumnType.sameEach, t.same_self, ColumnType.sameEach_self r]

end

instance : DecidableEq ColumnType := fun a b =>
  if h : a.same b = true then .isTrue (ColumnType.eq_of_same h)
  else .isFalse fun e => h (e ▸ a.same_self)

instance : DecidableEq UdtType := fun a b =>
  if h : a.same b = true then .isTrue (UdtType.eq_of_same h)
  else .isFalse fun e => h (e ▸ a.same_self)

/-! ## Parts -/

namespace UdtType

/-- The position of the first field with the name, in any case. -/
def position? (d : UdtType) (name : String) : Option Nat :=
  d.fields.findIdx? fun field => Text.sameIgnoringCase field.1 name

/-- The type of the first field with the name, in any case. -/
def field? (d : UdtType) (name : String) : Option ColumnType :=
  (d.fields.find? fun field => Text.sameIgnoringCase field.1 name).map (·.2)

end UdtType

namespace ColumnType

def kind : ColumnType → TypeKind
  | scalar kind => .scalar kind
  | custom _ => .custom
  | list _ => .list
  | set _ => .set
  | map _ _ => .map
  | udt _ => .udt
  | tuple _ => .tuple

/-- The type of a kind that needs no parameters. -/
def ofKind? : TypeKind → Option ColumnType
  | .scalar kind => some (scalar kind)
  | _ => none

/-- The types that a collection or a tuple is made of. The fields of a user-defined type are no
arguments. -/
def arguments : ColumnType → List ColumnType
  | list element | set element => [element]
  | map key value => [key, value]
  | tuple elements => elements
  | _ => []

def isCollection (t : ColumnType) : Bool :=
  t.kind.isCollection

def isStructure (t : ColumnType) : Bool :=
  t.kind.isStructure

/-! ## Names -/

mutual

def nameChars : ColumnType → List Char
  | scalar kind => kind.name.toList
  | custom className => '\'' :: className.toList ++ ['\'']
  | list element => "list<".toList ++ element.nameChars ++ ['>']
  | set element => "set<".toList ++ element.nameChars ++ ['>']
  | map key value => "map<".toList ++ key.nameChars ++ ',' :: ' ' :: value.nameChars ++ ['>']
  | udt definition => definition.keyspace.toList ++ '.' :: definition.name.toList
  | tuple elements => "tuple<".toList ++ nameCharsEach elements ++ ['>']
termination_by structural t => t

def nameCharsEach : List ColumnType → List Char
  | [] => []
  | [t] => t.nameChars
  | t :: u :: rest => t.nameChars ++ ',' :: ' ' :: nameCharsEach (u :: rest)
termination_by structural t => t

end

/-- The canonical text of a type. -/
def name (t : ColumnType) : String :=
  String.ofList t.nameChars

end ColumnType

end WideRow
