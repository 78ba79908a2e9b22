import WideRow.Proofs.Rewrite
import WideRow.Value.Text

/-!
# Text of values, part by part

The text of a value is put together from the texts of its parts. A component of a structure shows the
text of the value that it is decoded to, and the depth to which types are nested, which bounds the
rendering, is never seen in it.
-/

namespace WideRow

open Framing

/-! ## Declared components -/

theorem getElem?_declaredComponents {α : Type} (parts : List α) (components : List (Option Bytes))
    (i : Nat) :
    (declaredComponents parts components)[i]? =
      parts[i]?.map fun part => (part, componentAt components i) := by
  induction parts generalizing components i with
  | nil => rfl
  | cons part parts ih =>
    cases components with
    | nil =>
      cases i with
      | zero => rfl
      | succ i =>
        rw [declaredComponents, List.getElem?_cons_succ, ih, List.getElem?_cons_succ]
        rfl
    | cons raw components =>
      cases i with
      | zero => rfl
      | succ i =>
        rw [declaredComponents, List.getElem?_cons_succ, ih, List.getElem?_cons_succ]
        rfl

theorem declaredComponents_eq {α : Type} (parts : List α) (components : List (Option Bytes)) :
    declaredComponents parts components =
      parts.zipIdx.map fun (part, i) => (part, componentAt components i) := by
  refine List.ext_getElem? fun i => ?_
  rw [getElem?_declaredComponents, List.getElem?_map, List.getElem?_zipIdx, Option.map_map,
    Nat.zero_add]
  rfl

/-! ## Depths -/

namespace ColumnType

theorem structureDepth_le_depthEach {t : ColumnType} {types : List ColumnType} (h : t ∈ types) :
    t.structureDepth ≤ depthEach types := by
  induction types with
  | nil => cases h
  | cons u types ih =>
    rw [depthEach]
    rcases List.mem_cons.mp h with rfl | h
    · exact Nat.le_max_left _ _
    · exact Nat.le_trans (ih h) (Nat.le_max_right _ _)

theorem structureDepth_le_depthFields {field : String × ColumnType}
    {fields : List (String × ColumnType)} (h : field ∈ fields) :
    field.2.structureDepth ≤ depthFields fields := by
  induction fields with
  | nil => cases h
  | cons other fields ih =>
    obtain ⟨name, t⟩ := other
    rw [depthFields]
    rcases List.mem_cons.mp h with rfl | h
    · exact Nat.le_max_left _ _
    · exact Nat.le_trans (ih h) (Nat.le_max_right _ _)

end ColumnType

namespace Value

theorem depthItems_le_iff {items : List Value} {n : Nat} :
    depthItems items ≤ n ↔ ∀ v ∈ items, v.structureDepth ≤ n := by
  induction items with
  | nil => simp [depthItems]
  | cons v items ih => rw [depthItems, Nat.max_le, ih, List.forall_mem_cons]

theorem depthEntries_le_iff {entries : List (Value × Value)} {n : Nat} :
    depthEntries entries ≤ n ↔
      ∀ e ∈ entries, e.1.structureDepth ≤ n ∧ e.2.structureDepth ≤ n := by
  induction entries with
  | nil => simp [depthEntries]
  | cons e entries ih =>
    obtain ⟨k, v⟩ := e
    rw [depthEntries, Nat.max_le, Nat.max_le, ih, List.forall_mem_cons]

theorem structureDepth_of_holds {kind : ScalarKind} {v : Value} (h : kind.Holds v) :
    v.structureDepth = 0 := by
  unfold ScalarKind.Holds at h
  split at h
  case h_22 => exact h.elim
  all_goals rfl

theorem structureDepth_le {t : ColumnType} {raw : Option Bytes} {v : Value}
    (h : decodeElement t raw = .ok v) : v.structureDepth ≤ t.structureDepth := by
  refine decodeElement_induction (motive := fun t _ v => v.structureDepth ≤ t.structureDepth) ?null
    ?scalar ?custom ?list ?set ?map ?udt ?tuple h
  case null =>
    intro t
    exact Nat.zero_le _
  case scalar =>
    intro kind b v hv
    rw [structureDepth_of_holds (Scalar.rewrites_of_decode hv).1]
    exact Nat.zero_le _
  case custom =>
    intro className b
    exact Nat.zero_le _
  case list =>
    intro element b raws items _ hitems
    refine depthItems_le_iff.mpr fun x hx => ?_
    obtain ⟨raw, -, hx⟩ := exists_right hitems hx
    exact hx
  case set =>
    intro element b raws items _ hitems
    refine depthItems_le_iff.mpr fun x hx => ?_
    obtain ⟨raw, -, hx⟩ := exists_right hitems (ValueSet.mem_of_mem_ofList hx)
    exact hx
  case map =>
    intro key value b pairs entries _ hentries
    let within (v : Value) : Prop := v.structureDepth ≤ (ColumnType.map key value).structureDepth
    refine depthEntries_le_iff.mpr (ValueMap.forall_ofList (P := within) (Q := within) ?_)
    intro e he
    obtain ⟨p, -, hk, hv⟩ := exists_right hentries he
    exact ⟨Nat.le_trans hk (Nat.le_max_left _ _), Nat.le_trans hv (Nat.le_max_right _ _)⟩
  case udt =>
    intro definition b components _ _
    exact Nat.le_refl _
  case tuple =>
    intro types b components _ _
    exact Nat.le_refl _

/-! ## Rendering -/

theorem map_declaredComponents {α : Type} {parts : List α} {f : α × Option Bytes → List Char}
    {g : α → Option Bytes → List Char} (h : ∀ part ∈ parts, ∀ raw, f (part, raw) = g part raw)
    (components : List (Option Bytes)) :
    (declaredComponents parts components).map f =
      parts.zipIdx.map fun (part, i) => g part (componentAt components i) := by
  rw [declaredComponents_eq, List.map_map]
  exact List.map_congr_left fun p hp => h p.1 (List.fst_mem_of_mem_zipIdx hp) _

mutual

theorem render_congr {f g : ColumnType → Option Bytes → List Char} :
    ∀ v : Value, (∀ t raw, t.structureDepth < v.structureDepth → f t raw = g t raw) →
      render f v = render g v
  | list items, h | set items, h => by
    rw [render, render, renderItems_congr items h]
  | map entries, h => by
    rw [render, render, renderEntries_congr entries h]
  | udt ⟨keyspace, name, fields⟩ components, h => by
    have hfield (field : String × ColumnType) (hmem : field ∈ fields) (raw : Option Bytes) :
        field.1.toList ++ ':' :: f field.2 raw = field.1.toList ++ ':' :: g field.2 raw := by
      rw [h field.2 raw (Nat.lt_succ_of_le (ColumnType.structureDepth_le_depthFields hmem))]
    rw [render, render]
    dsimp only
    rw [map_declaredComponents (g := fun field raw => field.1.toList ++ ':' :: g field.2 raw) hfield,
      map_declaredComponents fun _ _ _ => rfl]
  | tuple types components, h => by
    have htype (type : ColumnType) (hmem : type ∈ types) (raw : Option Bytes) :
        f type raw = g type raw :=
      h type raw (Nat.lt_succ_of_le (ColumnType.structureDepth_le_depthEach hmem))
    rw [render, render]
    dsimp only
    rw [map_declaredComponents (g := g) htype, map_declaredComponents fun _ _ _ => rfl]
  | null, _ | boolean _, _ | tinyint _, _ | smallint _, _ | int _, _ | bigint _, _ | float _, _
  | double _, _ | decimal _, _ | varint _, _ | text _, _ | blob _, _ | uuid _, _ | inet _, _
  | date _, _ | time _, _ | timestamp _, _ | duration _, _ => rfl

theorem renderItems_congr {f g : ColumnType → Option Bytes → List Char} :
    ∀ items : List Value, (∀ t raw, t.structureDepth < depthItems items → f t raw = g t raw) →
      renderItems f items = renderItems g items
  | [], _ => rfl
  | [v], h => by
    rw [renderItems, renderItems, render_congr v fun t raw ht => h t raw (lt_max_of_lt_left ht)]
  | v :: w :: rest, h => by
    rw [renderItems, renderItems, render_congr v fun t raw ht => h t raw (lt_max_of_lt_left ht),
      renderItems_congr (w :: rest) fun t raw ht => h t raw (lt_max_of_lt_right ht)]

theorem renderEntries_congr {f g : ColumnType → Option Bytes → List Char} :
    ∀ entries : List (Value × Value),
      (∀ t raw, t.structureDepth < depthEntries entries → f t raw = g t raw) →
        renderEntries f entries = renderEntries g entries
  | [], _ => rfl
  | [(k, v)], h => by
    rw [renderEntries, renderEntries,
      render_congr k fun t raw ht => h t raw (lt_max_of_lt_left (lt_max_of_lt_left ht)),
      render_congr v fun t raw ht => h t raw (lt_max_of_lt_left (lt_max_of_lt_right ht))]
  | (k, v) :: next :: rest, h => by
    rw [renderEntries, renderEntries,
      render_congr k fun t raw ht => h t raw (lt_max_of_lt_left (lt_max_of_lt_left ht)),
      render_congr v fun t raw ht => h t raw (lt_max_of_lt_left (lt_max_of_lt_right ht)),
      renderEntries_congr (next :: rest) fun t raw ht => h t raw (lt_max_of_lt_right ht)]

end

theorem renderComponent_depth {m n : Nat} {t : ColumnType} (hm : t.structureDepth < m)
    (hn : t.structureDepth < n) (raw : Option Bytes) :
    renderComponent m t raw = renderComponent n t raw := by
  induction m generalizing n t raw with
  | zero => omega
  | succ m ih =>
    cases n with
    | zero => omega
    | succ n =>
      rw [renderComponent, renderComponent]
      cases hv : decodeElement t raw with
      | error e => rfl
      | ok v =>
        have hdepth := structureDepth_le hv
        have hrender : render (renderComponent m) v = render (renderComponent n) v :=
          render_congr v fun u raw hu => ih (by omega) (by omega) raw
        cases v <;> first | exact hrender | rfl

theorem render_renderComponent {n : Nat} {v : Value} (h : v.structureDepth ≤ n) :
    render (renderComponent n) v = v.displayChars :=
  render_congr v fun _ raw ht => renderComponent_depth (by omega) ht raw

/-! ## The text of each kind of value -/

/-- The text of a value inside a structure: text in quotes, any other value as it is shown. -/
def literal : Value → List Char
  | text s => quote s.toList
  | v => v.displayChars

/-- The text of a component inside a structure, by what it is read as. -/
def shown : Result Value → List Char
  | .ok v => v.literal
  | .error _ => ['?']

theorem renderComponent_eq {n : Nat} {t : ColumnType} (h : t.structureDepth < n)
    (raw : Option Bytes) : renderComponent n t raw = shown (decodeElement t raw) := by
  cases n with
  | zero => omega
  | succ n =>
    rw [renderComponent]
    cases hv : decodeElement t raw with
    | error e => rfl
    | ok v =>
      have hdepth := structureDepth_le hv
      have hrender : render (renderComponent n) v = v.displayChars :=
        render_renderComponent (by omega)
      cases v <;> first | exact hrender | rfl

theorem display_text (s : String) : (text s).display = s := String.ofList_toList

theorem displayChars_udt (definition : UdtType) (components : List (Option Bytes)) :
    (udt definition components).displayChars =
      '\x7b' :: commaSeparated (definition.fields.zipIdx.map fun (field, i) =>
        field.1.toList ++ ':' :: shown (decodeElement field.2 (componentAt components i))) ++
        ['\x7d'] := by
  obtain ⟨keyspace, name, fields⟩ := definition
  let text (field : String × ColumnType) (raw : Option Bytes) : List Char :=
    field.1.toList ++ ':' :: shown (decodeElement field.2 raw)
  have hfield (field : String × ColumnType) (hmem : field ∈ fields) (raw : Option Bytes) :
      field.1.toList ++ ':' :: renderComponent (ColumnType.depthFields fields + 1) field.2 raw =
        text field raw := by
    rw [renderComponent_eq (Nat.lt_succ_of_le (ColumnType.structureDepth_le_depthFields hmem))]
  rw [displayChars, render]
  exact congrArg (fun parts => '\x7b' :: commaSeparated parts ++ ['\x7d'])
    (map_declaredComponents (g := text) hfield components)

theorem displayChars_tuple (types : List ColumnType) (components : List (Option Bytes)) :
    (tuple types components).displayChars =
      '(' :: commaSeparated (types.zipIdx.map fun (type, i) =>
        shown (decodeElement type (componentAt components i))) ++ [')'] := by
  have htype (type : ColumnType) (hmem : type ∈ types) (raw : Option Bytes) :
      renderComponent (ColumnType.depthEach types + 1) type raw = shown (decodeElement type raw) :=
    renderComponent_eq (Nat.lt_succ_of_le (ColumnType.structureDepth_le_depthEach hmem)) raw
  rw [displayChars, render]
  exact congrArg (fun parts => '(' :: commaSeparated parts ++ [')'])
    (map_declaredComponents (g := fun type raw => shown (decodeElement type raw)) htype components)

end Value

end WideRow
