import Mathlib.Data.List.Infix
import WideRow.Config.Session
import WideRow.Proofs.Trimming

/-!
# Contact points

A host parameter is cut at the first two hyphens, and what follows them is cut in the same way, so
no piece has two hyphens left. Names are told apart again once they are joined, unless a name before
the last ends with a hyphen, which the separator would then begin with.
-/

namespace WideRow.SessionConfig

open Text

/-- Two hyphens next to each other. -/
def HasSeparator (cs : List Char) : Prop :=
  ['-', '-'] <:+: cs

instance : DecidablePred HasSeparator :=
  fun cs => inferInstanceAs (Decidable (['-', '-'] <:+: cs))

/-- The pieces of a text between separators, each ending at the first that there is. -/
inductive Cuts : List Char → List (List Char) → Prop where
  | last {piece : List Char} (h : ¬ HasSeparator piece) : Cuts piece [piece]
  | cut {piece rest : List Char} {pieces : List (List Char)} (h : ¬ HasSeparator (piece ++ ['-']))
      (hrest : Cuts rest pieces) : Cuts (piece ++ '-' :: '-' :: rest) (piece :: pieces)

/-- A piece that has something besides blanks. -/
def isNamed (piece : List Char) : Bool :=
  piece.any fun c => !isBlank c

/-- The names in pieces, without the blanks around them. -/
def namesOf (pieces : List (List Char)) : List String :=
  (pieces.filter isNamed).map fun piece => String.ofList (trimChars piece)

/-! ## Hyphens -/

theorem hasSeparator_cons {c : Char} {cs : List Char} :
    HasSeparator (c :: cs) ↔ (c = '-' ∧ cs.head? = some '-') ∨ HasSeparator cs := by
  unfold HasSeparator
  rw [List.infix_cons_iff, List.cons_prefix_cons]
  cases cs with
  | nil => simp
  | cons d cs => simp [List.cons_prefix_cons, eq_comm]

theorem not_hasSeparator_nil : ¬ HasSeparator [] := by
  simp [HasSeparator]

theorem HasSeparator.mono {cs ds : List Char} (h : HasSeparator cs) (hwithin : cs <:+: ds) :
    HasSeparator ds :=
  h.trans hwithin

theorem hasSeparator_append_hyphen {cs : List Char} :
    HasSeparator (cs ++ ['-']) ↔ HasSeparator cs ∨ cs.getLast? = some '-' := by
  induction cs with
  | nil => simp [hasSeparator_cons, not_hasSeparator_nil]
  | cons c cs ih =>
    rw [List.cons_append, hasSeparator_cons, ih, hasSeparator_cons]
    cases cs with
    | nil => simp [not_hasSeparator_nil]
    | cons d cs =>
      rw [List.getLast?_cons_cons]
      simp [or_assoc]

/-! ## Cutting -/

theorem splitHosts_cons {c : Char} {cs : List Char} (h : ¬ (c = '-' ∧ cs.head? = some '-'))
    {piece : List Char} {pieces : List (List Char)} (hsplit : splitHosts cs = piece :: pieces) :
    splitHosts (c :: cs) = (c :: piece) :: pieces := by
  rw [splitHosts]
  · rw [hsplit]
  · rintro rest rfl rfl
    simp at h

theorem splitHosts_of_not_hasSeparator {piece : List Char} (h : ¬ HasSeparator piece) :
    splitHosts piece = [piece] := by
  induction piece with
  | nil => rfl
  | cons c piece ih =>
    rw [hasSeparator_cons, not_or] at h
    exact splitHosts_cons h.1 (ih h.2)

theorem splitHosts_append {piece : List Char} (h : ¬ HasSeparator (piece ++ ['-']))
    (rest : List Char) :
    splitHosts (piece ++ '-' :: '-' :: rest) = piece :: splitHosts rest := by
  induction piece with
  | nil => rfl
  | cons c piece ih =>
    rw [List.cons_append, hasSeparator_cons, not_or] at h
    refine splitHosts_cons ?_ (ih h.2)
    cases piece <;> simpa using h.1

theorem cuts_splitHosts (cs : List Char) : Cuts cs (splitHosts cs) := by
  fun_induction splitHosts cs with
  | case1 => exact .last not_hasSeparator_nil
  | case2 rest ih => exact @Cuts.cut [] _ _ (by simp [hasSeparator_cons, not_hasSeparator_nil]) ih
  | case3 c rest hnot piece pieces hsplit ih =>
    have hfirst : ¬ (c = '-' ∧ rest.head? = some '-') := by
      rintro ⟨rfl, hhead⟩
      obtain ⟨later, rfl⟩ := List.head?_eq_some_iff.mp hhead
      exact hnot later rfl rfl
    rw [hsplit] at ih
    cases ih with
    | last h => exact .last (by simp [hasSeparator_cons, hfirst, h])
    | cut h hrest =>
      refine @Cuts.cut (c :: piece) _ _ ?_ hrest
      rw [List.cons_append, hasSeparator_cons, not_or]
      refine ⟨?_, h⟩
      cases piece <;> simpa using hfirst
  | case4 c rest hnot hsplit ih =>
    rw [hsplit] at ih
    cases ih

theorem cuts_iff {cs : List Char} {pieces : List (List Char)} :
    Cuts cs pieces ↔ splitHosts cs = pieces := by
  constructor
  · intro h
    induction h with
    | last h => exact splitHosts_of_not_hasSeparator h
    | cut h _ ih => rw [splitHosts_append h, ih]
  · rintro rfl
    exact cuts_splitHosts cs

theorem Cuts.not_hasSeparator {cs : List Char} {pieces : List (List Char)} (h : Cuts cs pieces) :
    ∀ piece ∈ pieces, ¬ HasSeparator piece := by
  induction h with
  | last h => simpa using h
  | @cut piece rest pieces h _ ih =>
    rw [List.forall_mem_cons]
    exact ⟨fun hpiece => h (hpiece.mono (List.prefix_append piece ['-']).isInfix), ih⟩

theorem Cuts.getLast?_ne_hyphen {cs : List Char} {pieces : List (List Char)} (h : Cuts cs pieces) :
    ∀ piece ∈ pieces.dropLast, piece.getLast? ≠ some '-' := by
  induction h with
  | last => simp
  | @cut piece rest pieces h hrest ih =>
    rw [hasSeparator_append_hyphen, not_or] at h
    cases hrest with
    | last => simpa using h.2
    | cut => simpa [h.2] using ih

/-! ## Joining -/

theorem Cuts.ne_nil {cs : List Char} {pieces : List (List Char)} (h : Cuts cs pieces) :
    pieces ≠ [] := by
  cases h <;> simp

theorem Cuts.intercalate_eq {cs : List Char} {pieces : List (List Char)} (h : Cuts cs pieces) :
    ['-', '-'].intercalate pieces = cs := by
  induction h with
  | last => exact List.intercalate_singleton
  | @cut piece rest pieces _ hrest ih =>
    obtain ⟨next, later, rfl⟩ := List.exists_cons_of_ne_nil hrest.ne_nil
    rw [List.intercalate_cons_cons, ih, List.append_assoc]
    rfl

theorem cuts_intercalate {pieces : List (List Char)} (hne : pieces ≠ [])
    (hpieces : ∀ piece ∈ pieces, ¬ HasSeparator piece)
    (hends : ∀ piece ∈ pieces.dropLast, piece.getLast? ≠ some '-') :
    Cuts (['-', '-'].intercalate pieces) pieces := by
  induction pieces with
  | nil => exact absurd rfl hne
  | cons piece pieces ih =>
    rw [List.forall_mem_cons] at hpieces
    cases pieces with
    | nil =>
      rw [List.intercalate_singleton]
      exact .last hpieces.1
    | cons next later =>
      rw [List.dropLast_cons_cons, List.forall_mem_cons] at hends
      rw [List.intercalate_cons_cons, List.append_assoc]
      refine .cut ?_ (ih (List.cons_ne_nil next later) hpieces.2 hends.2)
      rw [hasSeparator_append_hyphen, not_or]
      exact ⟨hpieces.1, hends.1⟩

/-- How long pieces are with a separator after each. -/
def laidLength : List (List Char) → Nat
  | [] => 0
  | piece :: pieces => piece.length + 2 + laidLength pieces

theorem length_intercalate {pieces : List (List Char)} (hne : pieces ≠ []) :
    (['-', '-'].intercalate pieces).length + 2 = laidLength pieces := by
  induction pieces with
  | nil => exact absurd rfl hne
  | cons piece pieces ih =>
    cases pieces with
    | nil => simp [laidLength]
    | cons next later =>
      have := ih (List.cons_ne_nil next later)
      simp only [List.intercalate_cons_cons, List.length_append, List.length_cons, List.length_nil,
        laidLength] at this ⊢
      omega

/-! ## Names -/

theorem trimChars_within (cs : List Char) : trimChars cs <:+: cs :=
  (List.rdropWhile_prefix isBlank _).isInfix.trans (List.dropWhile_suffix isBlank).isInfix

theorem trimChars_eq_nil_iff {cs : List Char} : trimChars cs = [] ↔ isNamed cs = false := by
  rw [trimChars_eq, List.rdropWhile_eq_nil_iff, isNamed, List.any_eq_false]
  simp only [Bool.not_eq_true', Bool.not_eq_false]
  constructor
  · intro h c hc
    rw [← List.takeWhile_append_dropWhile (p := isBlank) (l := cs), List.mem_append] at hc
    exact hc.elim List.mem_takeWhile_imp (h c)
  · intro h c hc
    exact h c ((List.dropWhile_suffix isBlank).mem hc)

theorem readHosts_eq {host : String} {pieces : List (List Char)} (h : Cuts host.toList pieces) :
    readHosts host = namesOf pieces := by
  have hkept : ((· != "") ∘ fun piece => String.ofList (trimChars piece)) = isNamed := by
    funext piece
    have hiff := @trimChars_eq_nil_iff piece
    cases hnamed : isNamed piece <;> simp_all
  rw [readHosts, cuts_iff.mp h, List.filter_map, hkept, namesOf]

theorem not_hasSeparator_of_mem {pieces : List (List Char)}
    (h : ∀ piece ∈ pieces, ¬ HasSeparator piece) :
    ∀ name ∈ namesOf pieces, ¬ HasSeparator name.toList := by
  intro name hname
  obtain ⟨piece, hpiece, rfl⟩ := List.mem_map.mp hname
  rw [String.toList_ofList]
  intro hseparator
  exact h piece (List.mem_of_mem_filter hpiece) (hseparator.mono (trimChars_within piece))

theorem namesOf_eq_nil_iff {pieces : List (List Char)} :
    namesOf pieces = [] ↔ ∀ piece ∈ pieces, isNamed piece = false := by
  simp [namesOf]

theorem namesOf_map_toList {names : List String}
    (h : ∀ name ∈ names, trim name = name ∧ name ≠ "") : namesOf (names.map String.toList) = names := by
  induction names with
  | nil => rfl
  | cons name names ih =>
    rw [List.forall_mem_cons] at h
    have htrim : trimChars name.toList = name.toList := by
      rw [← String.toList_ofList (l := trimChars name.toList)]
      exact congrArg String.toList h.1.1
    have hnamed : isNamed name.toList = true := by
      rw [← Bool.not_eq_false, ← trimChars_eq_nil_iff, htrim]
      simpa using h.1.2
    have hrest := ih h.2
    unfold namesOf at hrest ⊢
    rw [List.map_cons, List.filter_cons_of_pos hnamed, List.map_cons, htrim, String.ofList_toList,
      hrest]

theorem laidLength_namesOf (pieces : List (List Char)) :
    laidLength ((namesOf pieces).map String.toList) ≤ laidLength pieces ∧
      (laidLength ((namesOf pieces).map String.toList) = laidLength pieces →
        (namesOf pieces).map String.toList = pieces) := by
  induction pieces with
  | nil => exact ⟨Nat.le_refl _, fun _ => rfl⟩
  | cons piece pieces ih =>
    obtain ⟨hle, heq⟩ := ih
    unfold namesOf at *
    cases hnamed : isNamed piece with
    | false =>
      rw [List.filter_cons_of_neg (by simp [hnamed]), laidLength]
      exact ⟨by omega, by omega⟩
    | true =>
      have hshort := (trimChars_within piece).sublist
      have := hshort.length_le
      rw [List.filter_cons_of_pos hnamed]
      simp only [List.map_cons, laidLength, String.toList_ofList]
      refine ⟨by omega, fun hlength => ?_⟩
      rw [heq (by omega), hshort.eq_of_length (by omega)]

theorem readHosts_intercalate_iff {names : List String} (hne : names ≠ [])
    (hnames : ∀ name ∈ names, trim name = name ∧ name ≠ "" ∧ ¬ HasSeparator name.toList) :
    readHosts (hostSeparator.intercalate names) = names ↔
      ∀ name ∈ names.dropLast, name.toList.getLast? ≠ some '-' := by
  -- Joined names are read back exactly if none but the last ends with a hyphen.
  have hjoined : (hostSeparator.intercalate names).toList =
      ['-', '-'].intercalate (names.map String.toList) := String.toList_intercalate
  have hne' : names.map String.toList ≠ [] := by simpa using hne
  have hends : (∀ name ∈ names.dropLast, name.toList.getLast? ≠ some '-') ↔
      ∀ piece ∈ (names.map String.toList).dropLast, piece.getLast? ≠ some '-' := by
    rw [← List.map_dropLast, List.forall_mem_map]
  rw [hends]
  constructor
  · intro hread
    have hcuts := cuts_splitHosts (hostSeparator.intercalate names).toList
    have hpieces := hcuts.intercalate_eq
    rw [readHosts_eq hcuts] at hread
    -- Nothing was lost on the way, so the pieces are the names themselves.
    have hlength : laidLength (names.map String.toList) =
        laidLength (splitHosts (hostSeparator.intercalate names).toList) := by
      rw [← length_intercalate hcuts.ne_nil, ← length_intercalate hne', hpieces, hjoined]
    have hsame := (laidLength_namesOf (splitHosts (hostSeparator.intercalate names).toList)).2
    rw [hread] at hsame
    rw [hsame hlength]
    exact hcuts.getLast?_ne_hyphen
  · intro hlast
    have hcuts := cuts_intercalate hne' (by simpa using fun name hname => (hnames name hname).2.2) hlast
    rw [← hjoined] at hcuts
    rw [readHosts_eq hcuts]
    exact namesOf_map_toList fun name hname => ⟨(hnames name hname).1, (hnames name hname).2.1⟩

end WideRow.SessionConfig
