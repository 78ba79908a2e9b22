import WideRow.Proofs.Span
import WideRow.Schema.TypeName

/-! # Tokens of type names -/

namespace WideRow.TypeToken

/-! ## Tokens of a text -/

/-- The tokens that a text is written in. Blanks stand before tokens and at the end, and a word
goes on for as long as its characters do. -/
inductive Spells : List TypeToken → List Char → Prop
  | done : Spells [] []
  | blank {c : Char} {ts : List TypeToken} {cs : List Char} (hc : Text.isBlank c = true)
      (rest : Spells ts cs) : Spells ts (c :: cs)
  | className {name : List Char} {ts : List TypeToken} {cs : List Char} (hname : '\'' ∉ name)
      (rest : Spells ts cs) :
      Spells (.className (String.ofList name) :: ts) ('\'' :: (name ++ '\'' :: cs))
  | word {c : Char} {run : List Char} {ts : List TypeToken} {cs : List Char}
      (hrun : ∀ x ∈ c :: run, Text.isWordChar x = true)
      (hend : ∀ x ∈ cs.head?, Text.isWordChar x = false) (rest : Spells ts cs) :
      Spells (.word (Text.foldCase (String.ofList (c :: run))) :: ts) (c :: (run ++ cs))
  | opening {ts : List TypeToken} {cs : List Char} (rest : Spells ts cs) :
      Spells (.opening :: ts) ('<' :: cs)
  | closing {ts : List TypeToken} {cs : List Char} (rest : Spells ts cs) :
      Spells (.closing :: ts) ('>' :: cs)
  | comma {ts : List TypeToken} {cs : List Char} (rest : Spells ts cs) :
      Spells (.comma :: ts) (',' :: cs)

/-- No text is written in these: they say where cutting a text into tokens failed. -/
def isFault : TypeToken → Bool
  | unclosed | stray => true
  | _ => false

/-! ## Characters of words -/

theorem range_of_isWordChar {c : Char} (h : Text.isWordChar c = true) :
    48 ≤ c.toNat ∧ c.toNat ≤ 57 ∨ 65 ≤ c.toNat ∧ c.toNat ≤ 90 ∨ c.toNat = 95 ∨
      97 ≤ c.toNat ∧ c.toNat ≤ 122 := by
  have hranges : ((decide (65 ≤ c.val ∧ c.val ≤ 90) || (97 ≤ c.val && c.val ≤ 122)) ||
      (48 ≤ c.val && c.val ≤ 57) || c == '_') = true := h
  simp only [Bool.or_eq_true, Bool.and_eq_true, decide_eq_true_eq, beq_iff_eq,
    UInt32.le_iff_toNat_le] at hranges
  change ((65 ≤ c.toNat ∧ c.toNat ≤ 90 ∨ 97 ≤ c.toNat ∧ c.toNat ≤ 122) ∨
    48 ≤ c.toNat ∧ c.toNat ≤ 57) ∨ c = '_' at hranges
  rcases hranges with hranges | rfl
  · omega
  · decide

theorem isBlank_of_isWordChar {c : Char} (h : Text.isWordChar c = true) : Text.isBlank c = false := by
  have := range_of_isWordChar h
  simp only [Text.isBlank, Bool.or_eq_false_iff, Bool.and_eq_false_iff, beq_eq_false_iff_ne,
    decide_eq_false_iff_not]
  omega

theorem ne_quote_of_isWordChar {c : Char} (h : Text.isWordChar c = true) : (c == '\'') = false := by
  rw [beq_eq_false_iff_ne]
  rintro rfl
  exact absurd h (by decide)

/-! ## Cutting -/

theorem scan_word {c : Char} {run cs : List Char} (hrun : ∀ x ∈ c :: run, Text.isWordChar x = true)
    (hend : ∀ x ∈ cs.head?, Text.isWordChar x = false) :
    scan (c :: (run ++ cs)) = word (Text.foldCase (String.ofList (c :: run))) :: scan cs := by
  have hc : Text.isWordChar c = true := hrun c List.mem_cons_self
  have hrest : ∀ x ∈ run, Text.isWordChar x = true := fun x hx => hrun x (List.mem_cons_of_mem c hx)
  rw [scan, if_neg (by simp [isBlank_of_isWordChar hc]), if_neg (by simp [ne_quote_of_isWordChar hc]),
    if_pos hc, takeWhile_run hrest hend, dropWhile_run hrest hend]

theorem scan_className {name : List Char} (hname : '\'' ∉ name) (cs : List Char) :
    scan ('\'' :: (name ++ '\'' :: cs)) = className (String.ofList name) :: scan cs := by
  have hall : ∀ x ∈ name, (x != '\'') = true := by
    intro x hx
    rw [bne_iff_ne]
    rintro rfl
    exact hname hx
  have hend : ∀ x ∈ ('\'' :: cs).head?, (x != '\'') = false := by simp
  rw [scan, if_neg (by decide), if_pos (by decide), takeWhile_run hall hend, dropWhile_run hall hend,
    if_neg (by simp), List.tail_cons]

theorem scan_of_spells {ts : List TypeToken} {cs : List Char} (h : Spells ts cs) : scan cs = ts := by
  induction h with
  | done => rw [scan]
  | blank hc rest ih => rw [scan, if_pos hc, ih]
  | className hname rest ih => rw [scan_className hname, ih]
  | word hrun hend rest ih => rw [scan_word hrun hend, ih]
  | opening rest ih | closing rest ih | comma rest ih =>
    rw [scan, if_neg (by decide), if_neg (by decide), if_neg (by decide)]
    simp [mark?, ih]

theorem spells_mark {c : Char} {t : TypeToken} (h : mark? c = some t) {ts : List TypeToken}
    {cs : List Char} (rest : Spells ts cs) : Spells (t :: ts) (c :: cs) := by
  simp only [mark?, beq_iff_eq] at h
  split at h
  · rename_i hc
    cases h
    exact hc ▸ rest.opening
  split at h
  · rename_i hc
    cases h
    exact hc ▸ rest.closing
  split at h
  · rename_i hc
    cases h
    exact hc ▸ rest.comma
  · cases h

theorem spells_scan {cs : List Char} (h : (scan cs).any isFault = false) : Spells (scan cs) cs := by
  induction cs using scan.induct with
  | case1 =>
    rw [scan]
    exact .done
  | case2 c cs hblank ih =>
    rw [scan, if_pos hblank] at h ⊢
    exact .blank hblank (ih h)
  | case3 c cs hblank hquote hopen =>
    rw [scan, if_neg hblank, if_pos hquote, if_pos hopen] at h
    cases h
  | case4 c cs hblank hquote hopen ih =>
    rw [scan, if_neg hblank, if_pos hquote, if_neg hopen] at h
    rw [scan, if_neg hblank, if_pos hquote, if_neg hopen]
    cases hrest : cs.dropWhile (· != '\'') with
    | nil => exact absurd (by rw [hrest]; rfl) hopen
    | cons x rest =>
      obtain rfl : x = '\'' := by
        simpa using head_dropWhile (p := (· != '\'')) cs x (by rw [hrest]; rfl)
      have hname : '\'' ∉ cs.takeWhile (· != '\'') := by
        intro hmem
        simpa using List.all_eq_true.mp List.all_takeWhile _ hmem
      rw [hrest, List.tail_cons] at h ih
      have hspelled := Spells.className hname (ih h)
      rw [← hrest, List.takeWhile_append_dropWhile] at hspelled
      rwa [List.tail_cons, eq_of_beq hquote]
  | case5 c cs hblank hquote hword ih =>
    rw [scan, if_neg hblank, if_neg hquote, if_pos hword] at h
    rw [scan, if_neg hblank, if_neg hquote, if_pos hword]
    have hrun : ∀ x ∈ c :: cs.takeWhile Text.isWordChar, Text.isWordChar x = true :=
      List.forall_mem_cons.mpr ⟨hword, List.all_eq_true.mp List.all_takeWhile⟩
    have hspelled := Spells.word hrun (head_dropWhile cs) (ih h)
    rwa [List.takeWhile_append_dropWhile] at hspelled
  | case6 c cs hblank hquote hword token htoken ih =>
    rw [scan, if_neg hblank, if_neg hquote, if_neg hword] at h ⊢
    simp only [htoken, List.any_cons, Bool.or_eq_false_iff] at h ⊢
    exact spells_mark htoken (ih h.2)
  | case7 c cs hblank hquote hword hnone =>
    rw [scan, if_neg hblank, if_neg hquote, if_neg hword] at h
    simp only [hnone] at h
    cases h

end WideRow.TypeToken
