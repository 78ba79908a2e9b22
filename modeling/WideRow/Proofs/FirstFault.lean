import WideRow.Proofs.CollectionGrammar
import WideRow.Proofs.OwnFault

/-!
# The first malformed item

A collection fails with the error of its first malformed item, which is looked for only when the
whole body is framed. Inside nested collections the errors lead from one to the next.
-/

namespace WideRow

open Framing Result

/-! ## The first of several items -/

/-- The first malformed item and its error, when the item at each position `i` is decoded by
`read i`. -/
structure FirstFault (read : Nat → Option Bytes → Result Value) (items : List (Option Bytes))
    (i : Nat) (cause : ClientError) : Prop where
  fails : ∃ raw, items[i]? = some raw ∧ read i raw = .error cause
  earlier : ∀ j < i, ∀ raw, items[j]? = some raw → ∃ v, read j raw = .ok v

namespace FirstFault

variable {read : Nat → Option Bytes → Result Value} {raw : Option Bytes}
  {items : List (Option Bytes)} {i : Nat} {cause : ClientError}

theorem head (h : FirstFault read (raw :: items) 0 cause) : read 0 raw = .error cause := by
  obtain ⟨raw', hraw, hread⟩ := h.fails
  cases hraw
  exact hread

theorem head_ok (h : FirstFault read (raw :: items) (i + 1) cause) : ∃ v, read 0 raw = .ok v :=
  h.earlier 0 (Nat.zero_lt_succ i) raw rfl

theorem tail (h : FirstFault read (raw :: items) (i + 1) cause) :
    FirstFault (fun j => read (j + 1)) items i cause := by
  refine ⟨h.fails, ?_⟩
  intro j hj raw' hraw
  exact h.earlier (j + 1) (Nat.succ_lt_succ hj) raw' hraw

theorem exists_of_fails (h : ∃ j raw e, items[j]? = some raw ∧ read j raw = .error e) :
    ∃ i cause, FirstFault read items i cause := by
  classical
  obtain ⟨raw, e, hraw, hread⟩ := Nat.find_spec h
  refine ⟨Nat.find h, e, ⟨raw, hraw, hread⟩, ?_⟩
  intro j hj raw' hraw'
  cases hv : read j raw' with
  | ok v => exact ⟨v, rfl⟩
  | error e' => exact absurd ⟨raw', e', hraw', hv⟩ (Nat.find_min h hj)

end FirstFault

/-! ## Reading stops at it -/

section

variable {typeName : Unit → String} {g gk gv : Option Bytes → Result Value}
  {cause : ClientError}

theorem decodeItems_firstFault {items : List (Option Bytes)} {k : Nat}
    (h : FirstFault (fun _ => g) items k cause) (i : Nat) :
    decodeItems typeName g i items = .error (.element (typeName ()) (i + k) cause) := by
  induction items generalizing i k with
  | nil =>
    obtain ⟨raw, hraw, -⟩ := h.fails
    cases hraw
  | cons raw items ih =>
    rw [decodeItems]
    cases k with
    | zero => simp only [h.head, Nat.add_zero]
    | succ k =>
      obtain ⟨v, hv⟩ := h.head_ok
      simp only [hv, ih h.tail (i + 1), error_bind, Nat.add_right_comm i 1 k, Nat.add_assoc]

theorem decodeEntries_firstFault {pairs : List (Option Bytes × Option Bytes)} {k : Nat}
    (h : FirstFault (byParity gk gv) (byTurns pairs) k cause) (i : Nat) :
    decodeEntries typeName gk gv i (byTurns pairs) =
      .error (.element (typeName ()) (i + k) cause) := by
  induction pairs generalizing i k with
  | nil =>
    obtain ⟨raw, hraw, -⟩ := h.fails
    cases hraw
  | cons pair pairs ih =>
    obtain ⟨key, value⟩ := pair
    rw [byTurns_cons] at h ⊢
    rw [decodeEntries]
    cases k with
    | zero =>
      have hk : gk key = .error cause := h.head
      simp only [hk, Nat.add_zero]
    | succ k =>
      obtain ⟨v, hk⟩ := h.head_ok
      change gk key = .ok v at hk
      -- The fault is that of the value beside the key, or of a later entry.
      cases k with
      | zero =>
        have hv : gv value = .error cause := h.tail.head
        simp only [hk, hv]
      | succ k =>
        obtain ⟨w, hv⟩ := h.tail.head_ok
        change gv value = .ok w at hv
        have hlater := h.tail.tail
        simp only [byParity_add_two] at hlater
        simp only [hk, hv, ih hlater (i + 2), error_bind, Nat.add_right_comm i 2 k, Nat.add_assoc]

theorem fails_of_decodeItems {items : List (Option Bytes)} {i : Nat} {e : ClientError}
    (h : decodeItems typeName g i items = .error e) :
    ∃ (j : Nat) (raw : Option Bytes) (e' : ClientError),
      items[j]? = some raw ∧ g raw = .error e' := by
  induction items generalizing i e with
  | nil => cases h
  | cons raw items ih =>
    cases hraw : g raw with
    | error e' => exact ⟨0, raw, e', rfl, hraw⟩
    | ok v =>
      simp only [decodeItems, hraw] at h
      rcases bind_eq_error.mp h with h | ⟨vs, -, h⟩
      · obtain ⟨j, hj⟩ := ih h
        exact ⟨j + 1, hj⟩
      · cases h

theorem fails_of_decodeEntries {pairs : List (Option Bytes × Option Bytes)} {i : Nat}
    {e : ClientError} (h : decodeEntries typeName gk gv i (byTurns pairs) = .error e) :
    ∃ j raw e', (byTurns pairs)[j]? = some raw ∧ byParity gk gv j raw = .error e' := by
  induction pairs generalizing i e with
  | nil => cases h
  | cons pair pairs ih =>
    obtain ⟨key, value⟩ := pair
    rw [byTurns_cons] at h ⊢
    cases hk : gk key with
    | error e' => exact ⟨0, key, e', rfl, hk⟩
    | ok k =>
      cases hv : gv value with
      | error e' => exact ⟨1, value, e', rfl, hv⟩
      | ok v =>
        simp only [decodeEntries, hk, hv] at h
        rcases bind_eq_error.mp h with h | ⟨entries, -, h⟩
        · obtain ⟨j, raw, e', hraw, hread⟩ := ih h
          exact ⟨j + 1 + 1, raw, e', hraw, by rw [byParity_add_two, hread]⟩
        · cases h

end

/-! ## Each collection -/

/-- The types whose values are collections: how many items an entry has, and the type of the item
at each position. -/
inductive ColumnType.Collects : ColumnType → Nat → (Nat → ColumnType) → Prop
  | list {element : ColumnType} : Collects (.list element) 1 fun _ => element
  | set {element : ColumnType} : Collects (.set element) 1 fun _ => element
  | map {key value : ColumnType} : Collects (.map key value) 2 (byParity key value)

/-- How the item at a position is decoded. -/
def readItem (itemType : Nat → ColumnType) (i : Nat) (raw : Option Bytes) : Result Value :=
  decodeElement (itemType i) raw

theorem readItem_byParity (key value : ColumnType) :
    readItem (byParity key value) = byParity (decodeElement key) (decodeElement value) := by
  funext i
  unfold readItem byParity
  split <;> rfl

section

variable {t : ColumnType} {perEntry : Nat} {itemType : Nat → ColumnType} {b : Bytes}
  {items : List (Option Bytes)}

theorem decodeElement_firstFault (ht : t.Collects perEntry itemType)
    (hbody : WireBody perEntry items b) {i : Nat} {cause : ClientError}
    (h : FirstFault (readItem itemType) items i cause) :
    decodeElement t (some b) = .error (.element t.name i cause) := by
  have hread := readCollection_eq_ok_iff.mpr hbody
  cases ht with
  | list | set =>
    rw [decodeElement, hread]
    simp only [framed, ok_bind, decodeItems_firstFault h, error_bind, Nat.zero_add]
  | map =>
    obtain ⟨⟨count, hcount⟩, -⟩ := of_readCollection hread
    obtain ⟨pairs, rfl⟩ := exists_byTurns hcount
    rw [readItem_byParity] at h
    rw [decodeElement, hread]
    simp only [framed, ok_bind, decodeEntries_firstFault h, error_bind, Nat.zero_add]

theorem decodeElement_unframed (ht : t.Collects perEntry itemType)
    (h : ¬ ∃ items, WireBody perEntry items b) :
    ∃ malformation, decodeElement t (some b) = .error (.decode t.name malformation) := by
  cases hread : readCollection perEntry b with
  | ok items => exact absurd ⟨items, readCollection_eq_ok_iff.mp hread⟩ h
  | error malformation =>
    refine ⟨malformation, ?_⟩
    cases ht with
    | list | set | map =>
      rw [decodeElement, hread]
      rfl

theorem fails_of_decodeElement (ht : t.Collects perEntry itemType)
    (hbody : WireBody perEntry items b) {e : ClientError}
    (h : decodeElement t (some b) = .error e) :
    ∃ j raw e', items[j]? = some raw ∧ readItem itemType j raw = .error e' := by
  have hread := readCollection_eq_ok_iff.mpr hbody
  cases ht with
  | list | set =>
    rw [decodeElement, hread] at h
    simp only [framed, ok_bind] at h
    rcases bind_eq_error.mp h with h | ⟨vs, -, h⟩
    · exact fails_of_decodeItems h
    · cases h
  | map =>
    obtain ⟨⟨count, hcount⟩, -⟩ := of_readCollection hread
    obtain ⟨pairs, rfl⟩ := exists_byTurns hcount
    rw [decodeElement, hread] at h
    simp only [framed, ok_bind] at h
    rw [readItem_byParity]
    rcases bind_eq_error.mp h with h | ⟨entries, -, h⟩
    · exact fails_of_decodeEntries h
    · cases h

theorem decodeElement_collection_iff (ht : t.Collects perEntry itemType)
    (hbody : WireBody perEntry items b) :
    (∃ v, decodeElement t (some b) = .ok v) ↔
      ∀ (i : Nat) raw, items[i]? = some raw → ∃ x, readItem itemType i raw = .ok x := by
  constructor
  · rintro ⟨v, hv⟩ i raw hraw
    cases hread : readItem itemType i raw with
    | ok x => exact ⟨x, rfl⟩
    | error e =>
      obtain ⟨j, cause, hfirst⟩ := FirstFault.exists_of_fails ⟨i, raw, e, hraw, hread⟩
      rw [decodeElement_firstFault ht hbody hfirst] at hv
      cases hv
  · intro hitems
    cases hv : decodeElement t (some b) with
    | ok v => exact ⟨v, rfl⟩
    | error e =>
      obtain ⟨j, raw, e', hraw, hread⟩ := fails_of_decodeElement ht hbody hv
      obtain ⟨x, hx⟩ := hitems j raw hraw
      rw [hread] at hx
      cases hx

theorem decodeElement_collection_error (ht : t.Collects perEntry itemType) {e : ClientError}
    (h : decodeElement t (some b) = .error e) :
    (∃ malformation, e = .decode t.name malformation) ∨
      ∃ items i cause, WireBody perEntry items b ∧ FirstFault (readItem itemType) items i cause ∧
        e = .element t.name i cause := by
  by_cases hframed : ∃ items, WireBody perEntry items b
  · obtain ⟨items, hbody⟩ := hframed
    obtain ⟨i, cause, hfirst⟩ := FirstFault.exists_of_fails (fails_of_decodeElement ht hbody h)
    rw [decodeElement_firstFault ht hbody hfirst] at h
    cases h
    exact .inr ⟨items, i, cause, hbody, hfirst, rfl⟩
  · obtain ⟨malformation, herror⟩ := decodeElement_unframed ht hframed
    rw [herror] at h
    cases h
    exact .inl ⟨malformation, rfl⟩

end

/-! ## Through nested collections -/

/-- The error of a value follows its first malformed item, and that one's, down to a value that is
malformed itself. -/
inductive Traces : ColumnType → Option Bytes → ClientError → Prop
  | itself {t : ColumnType} {raw : Option Bytes} {typeName : String} {malformation : Malformation}
      (h : decodeElement t raw = .error (.decode typeName malformation)) :
      Traces t raw (.decode typeName malformation)
  | item {t : ColumnType} {perEntry i : Nat} {itemType : Nat → ColumnType} {b : Bytes}
      {items : List (Option Bytes)} {raw : Option Bytes} {cause : ClientError}
      (ht : t.Collects perEntry itemType) (hbody : WireBody perEntry items b)
      (first : FirstFault (readItem itemType) items i cause) (hraw : items[i]? = some raw)
      (inner : Traces (itemType i) raw cause) : Traces t (some b) (.element t.name i cause)

theorem error_of_traces {t : ColumnType} {raw : Option Bytes} {e : ClientError}
    (h : Traces t raw e) : decodeElement t raw = .error e := by
  cases h with
  | itself h => exact h
  | item ht hbody first hraw inner => exact decodeElement_firstFault ht hbody first

theorem traces_collection {t : ColumnType} {perEntry : Nat} {itemType : Nat → ColumnType}
    (ht : t.Collects perEntry itemType)
    (ih : ∀ i raw e, decodeElement (itemType i) raw = .error e → Traces (itemType i) raw e)
    {b : Bytes} {e : ClientError} (h : decodeElement t (some b) = .error e) :
    Traces t (some b) e := by
  rcases decodeElement_collection_error ht h with
    ⟨malformation, rfl⟩ | ⟨items, i, cause, hbody, hfirst, rfl⟩
  · exact .itself h
  · obtain ⟨raw, hraw, hread⟩ := hfirst.fails
    exact .item ht hbody hfirst hraw (ih i raw cause hread)

theorem FailsItself.traces {t : ColumnType} {raw : Option Bytes} {e : ClientError}
    (ht : FailsItself (decodeElement t raw)) (h : decodeElement t raw = .error e) :
    Traces t raw e := by
  obtain ⟨typeName, malformation, rfl⟩ := ht e h
  exact .itself h

theorem traces_of_error {t : ColumnType} {raw : Option Bytes} {e : ClientError}
    (h : decodeElement t raw = .error e) : Traces t raw e := by
  induction t using ColumnType.element_induction generalizing raw e <;> cases raw
  case scalar.none | custom.none | list.none | set.none | map.none | udt.none | tuple.none =>
    rw [decodeElement_none] at h
    cases h
  case scalar.some kind b => exact FailsItself.traces (Scalar.decode_failsItself kind b) h
  case custom.some className b => cases h
  case list.some element ih b => exact traces_collection .list (fun _ _ _ => ih) h
  case set.some element ih b => exact traces_collection .set (fun _ _ _ => ih) h
  case map.some key value ihk ihv b =>
    refine traces_collection .map (fun i raw e hitem => ?_) h
    unfold byParity at hitem ⊢
    by_cases hi : i % 2 = 0
    · rw [if_pos hi] at hitem ⊢
      exact ihk hitem
    · rw [if_neg hi] at hitem ⊢
      exact ihv hitem
  case udt.some definition b => exact FailsItself.traces (decodeElement_udt_failsItself _ b) h
  case tuple.some types b => exact FailsItself.traces (decodeElement_tuple_failsItself _ b) h

/-! ## Columns -/

theorem ColumnType.Collects.decodeValue_eq {t : ColumnType} {perEntry : Nat}
    {itemType : Nat → ColumnType} (ht : t.Collects perEntry itemType) (raw : Option Bytes) :
    decodeValue t raw = decodeElement t raw := by
  cases ht <;> rfl

/-- A well-framed collection with a malformed item fails at the first one in the order of the wire,
with the error that decoding this item alone gives, and one that is not well framed fails itself
whatever its items are. Nothing is returned unless every item is decoded, and any error follows the
first malformed items down to a value that is malformed itself. -/
theorem decodeValue_first_fault {t : ColumnType} {perEntry : Nat} {itemType : Nat → ColumnType}
    (ht : t.Collects perEntry itemType) (b : Bytes) :
    (∀ items, WireBody perEntry items b →
      (∃ (i : Nat) (raw : Option Bytes) (e : ClientError),
        items[i]? = some raw ∧ decodeElement (itemType i) raw = .error e) →
      ∃ i cause, FirstFault (readItem itemType) items i cause ∧
        decodeValue t (some b) = .error (.element t.name i cause)) ∧
    ((¬ ∃ items, WireBody perEntry items b) →
      ∃ malformation, decodeValue t (some b) = .error (.decode t.name malformation)) ∧
    (∀ v, decodeValue t (some b) = .ok v → ∃ items, WireBody perEntry items b ∧
      ∀ (i : Nat) raw, items[i]? = some raw → ∃ x, decodeElement (itemType i) raw = .ok x) ∧
    (∀ e, decodeValue t (some b) = .error e ↔ Traces t (some b) e) := by
  rw [ht.decodeValue_eq]
  refine ⟨?first, ?unframed, ?whole, ?traced⟩
  case first =>
    intro items hbody hfails
    have hreads : ∃ i cause, FirstFault (readItem itemType) items i cause :=
      FirstFault.exists_of_fails hfails
    obtain ⟨i, cause, hfirst⟩ := hreads
    exact ⟨i, cause, hfirst, decodeElement_firstFault ht hbody hfirst⟩
  case unframed => exact decodeElement_unframed ht
  case whole =>
    intro v hv
    by_cases hframed : ∃ items, WireBody perEntry items b
    · obtain ⟨items, hbody⟩ := hframed
      exact ⟨items, hbody, (decodeElement_collection_iff ht hbody).mp ⟨v, hv⟩⟩
    · obtain ⟨malformation, herror⟩ := decodeElement_unframed ht hframed
      rw [hv] at herror
      cases herror
  case traced =>
    intro e
    exact ⟨traces_of_error, error_of_traces⟩

/-- The second list has its second item malformed, and the third key is malformed too. -/
theorem decodeValue_first_fault_nested :
    let t := ColumnType.map (.scalar .boolean) (.list (.scalar .int))
    let itemType := byParity (.scalar .boolean) (.list (.scalar .int))
    let items : List (Option Bytes) := [some [1], none, some [0],
      some [0, 0, 0, 2, 0, 0, 0, 4, 0, 0, 0, 9, 0, 0, 0, 3, 0, 0, 9], some [], none]
    let b : Bytes := [0, 0, 0, 3, 0, 0, 0, 1, 1, 0xFF, 0xFF, 0xFF, 0xFF, 0, 0, 0, 1, 0,
      0, 0, 0, 19, 0, 0, 0, 2, 0, 0, 0, 4, 0, 0, 0, 9, 0, 0, 0, 3, 0, 0, 9,
      0, 0, 0, 0, 0xFF, 0xFF, 0xFF, 0xFF]
    (t.Collects 2 itemType ∧ WireBody 2 items b ∧
      decodeElement (itemType 4) (some []) = .error (.decode "boolean" (.width 1 0))) ∧
    (∃ i cause, FirstFault (readItem itemType) items i cause ∧
      decodeValue t (some b) = .error (.element t.name i cause)) ∧
    Traces t (some b) (.element "map<boolean, list<int>>" 3
      (.element "list<int>" 1 (.decode "int" (.width 4 3)))) := by
  intro t itemType items b
  have ht : t.Collects 2 itemType := .map
  have hbody : WireBody 2 items b := readCollection_eq_ok_iff.mp rfl
  have hkey : decodeElement (itemType 4) (some []) = .error (.decode "boolean" (.width 1 0)) := rfl
  obtain ⟨hfirst, -, -, htraced⟩ := decodeValue_first_fault ht b
  exact ⟨⟨ht, hbody, hkey⟩, hfirst items hbody ⟨4, some [], _, rfl, hkey⟩, (htraced _).mp rfl⟩

end WideRow
