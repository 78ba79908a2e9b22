import WideRow.Proofs.Collection
import WideRow.Proofs.Items
import WideRow.Proofs.Scalar

/-! # Which values fit a column type -/

namespace WideRow

/-! ## Types of elements -/

/-- Induction over a type and the types of its elements. The fields of structures stay encoded, so
nothing is assumed of their types. -/
@[elab_as_elim]
theorem ColumnType.element_induction {motive : ColumnType → Prop}
    (scalar : ∀ kind, motive (.scalar kind)) (custom : ∀ className, motive (.custom className))
    (list : ∀ element, motive element → motive (.list element))
    (set : ∀ element, motive element → motive (.set element))
    (map : ∀ key value, motive key → motive value → motive (.map key value))
    (udt : ∀ definition, motive (.udt definition)) (tuple : ∀ types, motive (.tuple types))
    (t : ColumnType) : motive t := by
  cases t with
  | scalar kind => exact scalar kind
  | custom className => exact custom className
  | list element => exact list element (element_induction scalar custom list set map udt tuple element)
  | set element => exact set element (element_induction scalar custom list set map udt tuple element)
  | map key value =>
    exact map key value (element_induction scalar custom list set map udt tuple key)
      (element_induction scalar custom list set map udt tuple value)
  | udt definition => exact udt definition
  | tuple types => exact tuple types

/-! ## Fitting -/

/-- Whether a value fits a type as an element. The text of a custom value is one that cleaning
leaves as it is, and a structure was built for the very definition and has no more components. -/
inductive FitsElement : ColumnType → Value → Prop
  | null {t : ColumnType} : FitsElement t .null
  | scalar {kind : ScalarKind} {v : Value} (held : kind.Holds v) : FitsElement (.scalar kind) v
  | custom {className s : String} (cleaned : CustomText.clean (Text.Utf8.encode s) = s) :
      FitsElement (.custom className) (.text s)
  | list {element : ColumnType} {items : List Value} (each : ∀ v ∈ items, FitsElement element v) :
      FitsElement (.list element) (.list items)
  | set {element : ColumnType} {items : List Value} (each : ∀ v ∈ items, FitsElement element v) :
      FitsElement (.set element) (.set items)
  | map {key value : ColumnType} {entries : List (Value × Value)}
      (keys : ∀ entry ∈ entries, FitsElement key entry.1)
      (values : ∀ entry ∈ entries, FitsElement value entry.2) :
      FitsElement (.map key value) (.map entries)
  | udt {definition : UdtType} {components : List (Option Bytes)}
      (declared : components.length ≤ definition.fields.length) :
      FitsElement (.udt definition) (.udt definition components)
  | tuple {types : List ColumnType} {components : List (Option Bytes)}
      (declared : components.length ≤ types.length) :
      FitsElement (.tuple types) (.tuple types components)

/-- Whether a value fits a type as a column. A custom column holds null only. -/
def Fits : ColumnType → Value → Prop
  | .custom _, v => v = .null
  | t, v => FitsElement t v

/-! ## Building -/

namespace Value

def isCollection : Value → Bool
  | list _ | set _ | map _ => true
  | _ => false

/-- The values that can be built: a set or a map is what inserting into an empty one leaves, at
every depth. -/
inductive Built : Value → Prop
  | plain {v : Value} (h : v.isCollection = false) : Built v
  | list {items : List Value} (each : ∀ v ∈ items, Built v) : Built (.list items)
  | set {items : List Value} (each : ∀ v ∈ items, Built v) : Built (.setOf items)
  | map {entries : List (Value × Value)} (keys : ∀ entry ∈ entries, Built entry.1)
      (values : ∀ entry ∈ entries, Built entry.2) : Built (.mapOf entries)

theorem Built.of_list {items : List Value} (h : Built (.list items)) : ∀ v ∈ items, Built v := by
  cases h with
  | plain h => cases h
  | list each => exact each

theorem Built.of_set {items : List Value} (h : Built (.set items)) :
    setOf items = .set items ∧ ∀ v ∈ items, Built v := by
  generalize hs : Value.set items = s at h
  cases h with
  | plain h =>
    subst hs
    cases h
  | list each => cases hs
  | set each =>
    cases hs
    refine ⟨?_, ?_⟩
    · rw [setOf, ValueSet.ofList_toList]
      rfl
    · intro v hv
      exact each v (ValueSet.mem_of_mem_ofList hv)
  | map keys values => cases hs

theorem Built.of_map {entries : List (Value × Value)} (h : Built (.map entries)) :
    mapOf entries = .map entries ∧ ∀ entry ∈ entries, Built entry.1 ∧ Built entry.2 := by
  generalize hm : Value.map entries = m at h
  cases h with
  | plain h =>
    subst hm
    cases h
  | list each => cases hm
  | set each => cases hm
  | map keys values =>
    cases hm
    refine ⟨?_, ?_⟩
    · rw [mapOf, ValueMap.ofList_toList]
      rfl
    · exact ValueMap.forall_ofList fun entry hmem => ⟨keys entry hmem, values entry hmem⟩

end Value

theorem fitsElement_setOf {element : ColumnType} {items : List Value}
    (h : ∀ v ∈ items, FitsElement element v) : FitsElement (.set element) (.setOf items) :=
  .set fun v hv => h v (ValueSet.mem_of_mem_ofList hv)

theorem fitsElement_mapOf {key value : ColumnType} {entries : List (Value × Value)}
    (h : ∀ e ∈ entries, FitsElement key e.1 ∧ FitsElement value e.2) :
    FitsElement (.map key value) (.mapOf entries) := by
  have hkept : ∀ e ∈ (ValueMap.ofList mixDigest entries).toList,
      FitsElement key e.1 ∧ FitsElement value e.2 := ValueMap.forall_ofList h
  exact .map (fun e he => (hkept e he).1) fun e he => (hkept e he).2

end WideRow
