import WideRow.Proofs.Components
import WideRow.Proofs.Display

/-!
# Quoted text in structures

The components of a structure stand beside each other with commas between them, and text may hold
commas, closing brackets and quotes of its own. A scan from the opening quote still finds where a
text ends: an even run of quotes inside is text, and what follows the closing one never begins with
a quote.
-/

namespace WideRow

open Result

namespace Value

/-! ## One literal -/

/-- That the characters may stand behind a closing quote, which is told by no other following it. -/
def AfterQuote (rest : List Char) : Prop :=
  rest.head? ≠ some '\''

theorem afterQuote_nil : AfterQuote [] := by simp [AfterQuote]

theorem afterQuote_comma (rest : List Char) : AfterQuote (',' :: rest) := by simp [AfterQuote]

/-- How a character of a text stands in quotes. -/
def doubled (c : Char) : List Char :=
  if c == '\'' then ['\'', '\''] else [c]

theorem quote_eq (s : List Char) : quote s = '\'' :: s.flatMap doubled ++ ['\''] := rfl

theorem doubled_append_inj {c d : Char} {r r' : List Char} (h : doubled c ++ r = doubled d ++ r') :
    c = d ∧ r = r' := by
  unfold doubled at h
  by_cases hc : c = '\'' <;> by_cases hd : d = '\''
  · subst hc hd
    exact ⟨rfl, by simpa using h⟩
  · simp [hc, hd, Ne.symm hd] at h
  · simp [hc, hd] at h
  · simpa [hc, hd] using h

theorem closing_ne_doubled {r r' : List Char} (hr : AfterQuote r) (c : Char) :
    '\'' :: r ≠ doubled c ++ r' := by
  intro h
  unfold doubled at h
  by_cases hc : c = '\''
  · subst hc
    obtain rfl : r = '\'' :: r' := by simpa using h
    exact hr rfl
  · simp [hc, Ne.symm hc] at h

theorem closed_append_inj {s t r r' : List Char} (hr : AfterQuote r) (hr' : AfterQuote r')
    (h : s.flatMap doubled ++ '\'' :: r = t.flatMap doubled ++ '\'' :: r') : s = t ∧ r = r' := by
  -- A text ends at its own closing quote, whatever is in it.
  induction s generalizing t with
  | nil =>
    cases t with
    | nil => exact ⟨rfl, (List.cons.inj h).2⟩
    | cons d t =>
      rw [List.flatMap_cons, List.append_assoc] at h
      exact absurd h (closing_ne_doubled hr d)
  | cons c s ih =>
    cases t with
    | nil =>
      rw [List.flatMap_cons, List.append_assoc] at h
      exact absurd h.symm (closing_ne_doubled hr' c)
    | cons d t =>
      rw [List.flatMap_cons, List.flatMap_cons, List.append_assoc, List.append_assoc] at h
      obtain ⟨rfl, hinside⟩ := doubled_append_inj h
      obtain ⟨rfl, hrest⟩ := ih hinside
      exact ⟨rfl, hrest⟩

theorem quote_append_inj {s t r r' : List Char} (hr : AfterQuote r) (hr' : AfterQuote r')
    (h : quote s ++ r = quote t ++ r') : s = t ∧ r = r' := by
  refine closed_append_inj hr hr' ?_
  simpa [quote_eq] using h

/-! ## Literals side by side -/

/-- The readings of a component of a text type, except for its failure. -/
inductive Textual : Result Value → Prop
  | null : Textual (.ok .null)
  | text (s : String) : Textual (.ok (.text s))

theorem Textual.null_or_text {x : Result Value} (hx : Textual x) :
    x = .ok .null ∨ ∃ s, x = .ok (.text s) := by
  cases hx with
  | null => exact .inl rfl
  | text s => exact .inr ⟨s, rfl⟩

theorem Textual.append_inj {x y : Result Value} (hx : Textual x) (hy : Textual y)
    {r r' : List Char} (hr : AfterQuote r) (hr' : AfterQuote r')
    (h : shown x ++ r = shown y ++ r') : x = y ∧ r = r' := by
  -- The word `null` is not in quotes, so no text is taken for it.
  cases hx with
  | null =>
    cases hy with
    | null => exact ⟨rfl, List.append_cancel_left h⟩
    | text t => cases h
  | text s =>
    cases hy with
    | null => cases h
    | text t =>
      obtain ⟨hst, hrest⟩ := quote_append_inj hr hr' h
      exact ⟨by rw [String.toList_inj.mp hst], hrest⟩

theorem commaSeparated_inj {label : Nat → List Char} {x y : Nat → Result Value} {l : List Nat}
    (hx : ∀ i ∈ l, Textual (x i)) (hy : ∀ i ∈ l, Textual (y i))
    (h : commaSeparated (l.map fun i => label i ++ shown (x i)) =
      commaSeparated (l.map fun i => label i ++ shown (y i))) : ∀ i ∈ l, x i = y i := by
  -- Readings with commas between them are told apart from the first to the last, since a comma is
  -- no quote.
  unfold commaSeparated at h
  induction l with
  | nil => exact fun i hi => nomatch hi
  | cons i l ih =>
    have hxi := hx i List.mem_cons_self
    have hyi := hy i List.mem_cons_self
    -- The last reading has nothing behind it, any other one a comma.
    cases l with
    | nil =>
      simp only [List.map_cons, List.map_nil, List.intercalate_singleton] at h
      have hshown : shown (x i) ++ [] = shown (y i) ++ [] := by
        rw [List.append_nil, List.append_nil, List.append_cancel_left h]
      obtain ⟨heq, -⟩ := hxi.append_inj hyi afterQuote_nil afterQuote_nil hshown
      simpa using heq
    | cons j l =>
      simp only [List.map_cons, List.intercalate_cons_cons, List.append_assoc,
        List.singleton_append] at h
      obtain ⟨heq, hrest⟩ := hxi.append_inj hyi (afterQuote_comma _) (afterQuote_comma _)
        (List.append_cancel_left h)
      refine List.forall_mem_cons.mpr ⟨heq, ?_⟩
      exact ih (fun k hk => hx k (List.mem_cons_of_mem _ hk))
        (fun k hk => hy k (List.mem_cons_of_mem _ hk)) (List.cons.inj hrest).2

end Value

/-! ## Structures of texts -/

section

open Value

theorem map_zipIdx_eq_map_range {α β : Type} {l : List α} {f : α × Nat → β} {g : Nat → β}
    (h : ∀ i a, l[i]? = some a → f (a, i) = g i) :
    l.zipIdx.map f = (List.range l.length).map g := by
  refine List.ext_getElem (by simp) fun i hi _ => ?_
  simp only [List.length_map, List.length_zipIdx] at hi
  rw [List.getElem_map, List.getElem_zipIdx, Nat.zero_add, List.getElem_map, List.getElem_range]
  exact h i _ (List.getElem?_eq_getElem hi)

variable {t : ColumnType} {types : List ColumnType} {value : List (Option Bytes) → Value}

theorem ColumnType.Composes.displayChars_eq (ht : t.Composes types value) :
    ∃ (opening closing : List Char) (label : Nat → List Char), ∀ components,
      (value components).displayChars =
        opening ++ commaSeparated ((List.range types.length).map fun i =>
          label i ++ shown (readComponent types components i)) ++ closing := by
  -- Between its brackets a structure shows what its components are read as, each behind a label
  -- that does not depend on them: the name of the field, or nothing in a tuple.
  cases ht with
  | @udt definition =>
    let label (i : Nat) : List Char :=
      (definition.fields[i]?.map fun field => field.1.toList ++ [':']).getD []
    refine ⟨['\x7b'], ['\x7d'], label, fun components => ?_⟩
    rw [displayChars_udt, map_zipIdx_eq_map_range (g := fun i =>
      label i ++ shown (readComponent definition.fieldTypes components i)),
      UdtType.fieldTypes, List.length_map]
    · rfl
    · intro i field hfield
      have htype : definition.fieldTypes[i]? = some field.2 := by
        rw [UdtType.fieldTypes, List.getElem?_map, hfield]
        rfl
      simp [label, hfield, readComponent_eq htype]
  | tuple =>
    refine ⟨['('], [')'], fun _ => [], fun components => ?_⟩
    rw [displayChars_tuple, map_zipIdx_eq_map_range (g := fun i =>
      [] ++ shown (readComponent types components i))]
    · rfl
    · intro i type htype
      rw [readComponent_eq htype, List.nil_append]

theorem textual_of_decode {t : ColumnType} (ht : t.kind.isText = true) {raw : Option Bytes}
    {v : Value} (h : decodeElement t raw = .ok v) : Textual (.ok v) := by
  cases raw with
  | none =>
    obtain rfl : Value.null = v := by rw [decodeElement_none] at h; exact Except.ok.inj h
    exact .null
  | some b =>
    cases t with
    | scalar kind =>
      rw [decodeElement, Scalar.decode_of_isText ht] at h
      obtain ⟨s, -, rfl⟩ := map_eq_ok.mp h
      exact .text s
    | _ => cases ht

/-- The text of a structure of texts tells what its components are read as. Two values whose
components are all readable and whose texts are equal have the same text or null in every place,
whatever the texts hold and whatever the fields are called. -/
theorem text_components_told_apart (ht : t.Composes types value)
    (htext : ∀ u ∈ types, u.kind.isText = true) {a b : List (Option Bytes)}
    (ha : ∀ i < types.length, ∃ v, readComponent types a i = .ok v)
    (hb : ∀ i < types.length, ∃ v, readComponent types b i = .ok v)
    (h : (value a).display = (value b).display) :
    ∀ i < types.length,
      (readComponent types a i = .ok .null ∧ readComponent types b i = .ok .null) ∨
        ∃ s, readComponent types a i = .ok (.text s) ∧ readComponent types b i = .ok (.text s) := by
  have htextual {components : List (Option Bytes)}
      (hok : ∀ i < types.length, ∃ v, readComponent types components i = .ok v) :
      ∀ i ∈ List.range types.length, Textual (readComponent types components i) := by
    intro i hi
    have hlt := List.mem_range.mp hi
    obtain ⟨v, hv⟩ := hok i hlt
    have hread := readComponent_eq (List.getElem?_eq_getElem hlt) components
    rw [hv]
    exact textual_of_decode (htext _ (List.getElem_mem hlt)) (hread.symm.trans hv)
  obtain ⟨opening, closing, label, hdisplay⟩ := ht.displayChars_eq
  have hchars : (value a).displayChars = (value b).displayChars := String.ofList_inj.mp h
  rw [hdisplay, hdisplay] at hchars
  have hparts := List.append_cancel_left (List.append_cancel_right hchars)
  intro i hi
  have hmem := List.mem_range.mpr hi
  rw [← commaSeparated_inj (htextual ha) (htextual hb) hparts i hmem]
  rcases (htextual ha i hmem).null_or_text with hnull | ⟨s, hs⟩
  · exact .inl ⟨hnull, hnull⟩
  · exact .inr ⟨s, hs, hs⟩

/-- A text that looks like the end of its structure, under a field with a quote in its name. The
second component is null in one value and missing in the other. -/
theorem text_components_told_apart_quotes :
    let d : UdtType := ⟨"shop", "note", [("it's", .scalar .text), ("b", .scalar .ascii)]⟩
    let raw : Bytes := Text.Utf8.encode "',b:null\x7d"
    (Value.udt d [some raw, none]).display = "\x7bit's:''',b:null\x7d',b:null\x7d" ∧
      (Value.udt d [some raw, none]).display = (Value.udt d [some raw]).display ∧
      ∀ i < 2, (readComponent d.fieldTypes [some raw, none] i = .ok .null ∧
          readComponent d.fieldTypes [some raw] i = .ok .null) ∨
        ∃ s, readComponent d.fieldTypes [some raw, none] i = .ok (.text s) ∧
          readComponent d.fieldTypes [some raw] i = .ok (.text s) := by
  intro d raw
  have hdisplay : (Value.udt d [some raw, none]).display = (Value.udt d [some raw]).display := by
    decide +kernel
  have hread {components : List (Option Bytes)} (htext : components[0]? = some (some raw))
      (hnull : ∀ b, components[1]? ≠ some (some b)) :
      ∀ i < d.fieldTypes.length, ∃ v, readComponent d.fieldTypes components i = .ok v := by
    have hfirst : d.fieldTypes[0]? = some (.scalar .text) := rfl
    have hsecond : d.fieldTypes[1]? = some (.scalar .ascii) := rfl
    intro i hi
    match i, hi with
    | 0, _ =>
      refine ⟨.text "',b:null\x7d", ?_⟩
      have hdecode : Scalar.decodeText .text raw = .ok "',b:null\x7d" :=
        Scalar.decodeText_encode (by simp)
      rw [readComponent_present hfirst htext, decodeElement, Scalar.decode, hdecode, map_ok]
    | 1, _ => exact ⟨.null, readComponent_absent hsecond hnull⟩
  refine ⟨by decide +kernel, hdisplay, ?_⟩
  exact text_components_told_apart .udt (by decide) (hread rfl (by simp)) (hread rfl (by simp))
    hdisplay

end

end WideRow
