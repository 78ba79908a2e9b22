import Mathlib.Data.List.Basic
import WideRow.Proofs.CustomText

/-!
# Words and the spaces between them

What is left of a custom value are its words, in order and each once. Two of their characters are
next to each other exactly if they were before, and have one space between them otherwise. Nothing
else is left, so these rules leave one text only.
-/

namespace WideRow.CustomText

open Text

/-- A character of a word. -/
def isKept (c : Char) : Bool :=
  !isSeparator c

/-- The characters of the words, without what separates them. -/
def wordChars (cs : List Char) : List Char :=
  cs.filter isKept

/-- What stands between two characters once the characters between them are cleaned. -/
def spaceFor (gap : List Char) : List Char :=
  if gap = [] then [] else [' ']

/-- What cleaning makes of characters. -/
structure Cleaned (source cleaned : List Char) : Prop where
  /-- No control, no replacement and no blank but the space is left. -/
  visible : ∀ c ∈ cleaned, isControl c = false ∧ c ≠ Utf8.replacement ∧ (isBlank c = true → c = ' ')
  /-- A space stands between two characters of words. -/
  single : ∀ l r, cleaned = l ++ ' ' :: r → ∃ l' x y r', l = l' ++ [x] ∧ r = y :: r' ∧
    isSeparator x = false ∧ isSeparator y = false
  /-- The characters of the words are left, each once and in order. -/
  wordChars_eq : wordChars cleaned = wordChars source
  /-- Two neighbours among them have a space between them exactly if something separated them. -/
  parted : ∀ before x gap y after, source = before ++ x :: (gap ++ y :: after) →
    isSeparator x = false → (∀ c ∈ gap, isSeparator c = true) → isSeparator y = false →
    ∃ l r, cleaned = l ++ x :: (spaceFor gap ++ y :: r) ∧
      wordChars l = wordChars before ∧ wordChars r = wordChars after

/-! ## Characters -/

theorem isSeparator_eq_false_iff {c : Char} :
    isSeparator c = false ↔ isControl c = false ∧ isBlank c = false ∧ c ≠ Utf8.replacement := by
  simp [isSeparator, and_assoc]

theorem wordChars_append (cs ds : List Char) : wordChars (cs ++ ds) = wordChars cs ++ wordChars ds :=
  List.filter_append cs ds

theorem wordChars_cons_kept {c : Char} (h : isSeparator c = false) (cs : List Char) :
    wordChars (c :: cs) = c :: wordChars cs :=
  List.filter_cons_of_pos (by simp [isKept, h])

theorem wordChars_cons_separator {c : Char} (h : isSeparator c = true) (cs : List Char) :
    wordChars (c :: cs) = wordChars cs :=
  List.filter_cons_of_neg (by simp [isKept, h])

theorem wordChars_eq_nil_iff {cs : List Char} :
    wordChars cs = [] ↔ ∀ c ∈ cs, isSeparator c = true := by
  simp [wordChars, isKept]

/-! ## One step -/

theorem join_separator {c : Char} (h : isSeparator c = true) (started pending : Bool) (cs : List Char) :
    join started pending (c :: cs) = join started started cs := by
  rw [join, if_pos h]

theorem join_kept {c : Char} (h : isSeparator c = false) (started pending : Bool) (cs : List Char) :
    join started pending (c :: cs) = (if pending then [' '] else []) ++ c :: join true false cs := by
  rw [join, if_neg (by simp [h])]
  cases pending <;> rfl

theorem join_gap {gap : List Char} (h : ∀ c ∈ gap, isSeparator c = true) (started pending : Bool)
    (cs : List Char) :
    join started pending (gap ++ cs) = join started (if gap = [] then pending else started) cs := by
  induction gap generalizing pending with
  | nil => rfl
  | cons c gap ih =>
    rw [List.cons_append, join_separator (h c List.mem_cons_self),
      ih (fun d hd => h d (List.mem_cons_of_mem c hd)), ite_self, if_neg (List.cons_ne_nil c gap)]

theorem join_next {gap : List Char} (hgap : ∀ c ∈ gap, isSeparator c = true) {y : Char}
    (hy : isSeparator y = false) (cs : List Char) :
    join true false (gap ++ y :: cs) = spaceFor gap ++ y :: join true false cs := by
  rw [join_gap hgap, join_kept hy, spaceFor]
  by_cases hnil : gap = [] <;> simp [hnil]

theorem join_append {x : Char} (h : isSeparator x = false) (started pending : Bool)
    (before after : List Char) :
    ∃ l, join started pending (before ++ x :: after) = l ++ x :: join true false after ∧
      wordChars l = wordChars before := by
  -- Whatever came before a character of a word, it is followed by the same text.
  induction before generalizing started pending with
  | nil =>
    refine ⟨if pending then [' '] else [], join_kept h started pending after, ?_⟩
    cases pending <;> decide
  | cons c before ih =>
    rw [List.cons_append]
    cases hc : isSeparator c with
    | true =>
      rw [join_separator hc, wordChars_cons_separator hc]
      exact ih started started
    | false =>
      obtain ⟨l, hl, hchars⟩ := ih true false
      refine ⟨(if pending then [' '] else []) ++ c :: l, ?_, ?_⟩
      · rw [join_kept hc, hl, List.append_assoc, List.cons_append]
      · rw [wordChars_append, wordChars_cons_kept hc, wordChars_cons_kept hc, hchars]
        cases pending <;> simp [wordChars, isKept, isSeparator_space]

/-! ## The joined text -/

theorem visible_join (started pending : Bool) (cs : List Char) :
    ∀ c ∈ join started pending cs, c = ' ' ∨ isSeparator c = false := by
  induction cs generalizing started pending with
  | nil => simp [join]
  | cons d cs ih =>
    intro c hc
    cases hd : isSeparator d with
    | true =>
      rw [join_separator hd] at hc
      exact ih started started c hc
    | false =>
      rw [join_kept hd, List.mem_append, List.mem_cons] at hc
      rcases hc with hspace | rfl | hlater
      · cases pending <;> simp_all
      · exact .inr hd
      · exact ih true false c hlater

theorem single_join {started pending : Bool} (hpending : pending = true → started = true)
    {cs l r : List Char} (h : join started pending cs = l ++ ' ' :: r) :
    (∃ y r', r = y :: r' ∧ isSeparator y = false) ∧
      (l = [] ∧ started = true ∨ ∃ l' x, l = l' ++ [x] ∧ isSeparator x = false) := by
  induction cs generalizing started pending l with
  | nil => simp [join] at h
  | cons c cs ih =>
    cases hc : isSeparator c with
    | true =>
      rw [join_separator hc] at h
      exact ih id h
    | false =>
      have hspace : c ≠ ' ' := by
        rintro rfl
        simp [isSeparator_space] at hc
      -- What follows `c` holds the space, unless it is the one put before `c`.
      have later : ∀ l₂, join true false cs = l₂ ++ ' ' :: r →
          (∃ y r', r = y :: r' ∧ isSeparator y = false) ∧
            ∃ l' x, c :: l₂ = l' ++ [x] ∧ isSeparator x = false := by
        intro l₂ h₂
        obtain ⟨hnext, ⟨rfl, -⟩ | ⟨l', x, rfl, hx⟩⟩ := ih (by simp) h₂
        · exact ⟨hnext, [], c, rfl, hc⟩
        · exact ⟨hnext, c :: l', x, rfl, hx⟩
      rw [join_kept hc] at h
      cases pending with
      | false =>
        rcases List.cons_eq_append_iff.mp h with ⟨rfl, hhead⟩ | ⟨l₂, rfl, h₂⟩
        · simp [hspace.symm] at hhead
        · exact ⟨(later l₂ h₂).1, .inr (later l₂ h₂).2⟩
      | true =>
        rcases List.cons_eq_append_iff.mp h with ⟨rfl, hhead⟩ | ⟨l₁, rfl, h₁⟩
        · exact ⟨⟨c, _, (List.cons.inj hhead).2, hc⟩, .inl ⟨rfl, hpending rfl⟩⟩
        · rcases List.cons_eq_append_iff.mp h₁ with ⟨rfl, hhead⟩ | ⟨l₂, rfl, h₂⟩
          · simp [hspace.symm] at hhead
          · obtain ⟨hnext, l', x, hlast, hx⟩ := later l₂ h₂
            exact ⟨hnext, .inr ⟨' ' :: l', x, by rw [hlast]; rfl, hx⟩⟩

theorem wordChars_join (started pending : Bool) (cs : List Char) :
    wordChars (join started pending cs) = wordChars cs := by
  induction cs generalizing started pending with
  | nil => rfl
  | cons c cs ih =>
    cases hc : isSeparator c with
    | true => rw [join_separator hc, ih, wordChars_cons_separator hc]
    | false =>
      rw [join_kept hc, wordChars_append, wordChars_cons_kept hc, wordChars_cons_kept hc, ih]
      cases pending <;> simp [wordChars, isKept, isSeparator_space]

theorem cleaned_join (cs : List Char) : Cleaned cs (join false false cs) where
  visible c hc := by
    rcases visible_join false false cs c hc with rfl | hkept
    · decide
    · obtain ⟨hcontrol, hblank, hreplacement⟩ := isSeparator_eq_false_iff.mp hkept
      exact ⟨hcontrol, hreplacement, by simp [hblank]⟩
  single l r h := by
    obtain ⟨⟨y, r', hr, hy⟩, ⟨-, hstarted⟩ | ⟨l', x, hl, hx⟩⟩ := single_join (by simp) h
    · simp at hstarted
    · exact ⟨l', x, y, r', hl, hr, hx, hy⟩
  wordChars_eq := wordChars_join false false cs
  parted := by
    rintro before x gap y after rfl hx hgap hy
    obtain ⟨l, hl, hchars⟩ := join_append hx false false before (gap ++ y :: after)
    refine ⟨l, join true false after, ?_, hchars, wordChars_join true false after⟩
    rw [hl, join_next hgap hy]

/-! ## No other text -/

theorem append_kept_inj {x : Char} (hx : isSeparator x = false) {l₁ l₂ r₁ r₂ : List Char}
    (h : l₁ ++ x :: r₁ = l₂ ++ x :: r₂) (hchars : wordChars l₁ = wordChars l₂) :
    l₁ = l₂ ∧ r₁ = r₂ := by
  rcases List.append_eq_append_iff.mp h with ⟨m, rfl, hm⟩ | ⟨m, rfl, hm⟩
  all_goals
    cases m with
    | nil => simp_all
    | cons c m =>
      obtain ⟨rfl, -⟩ := List.cons.inj hm
      simp [wordChars_append, wordChars_cons_kept hx] at hchars

theorem exists_first_kept (cs : List Char) :
    (∀ c ∈ cs, isSeparator c = true) ∨
      ∃ gap y rest, cs = gap ++ y :: rest ∧ (∀ c ∈ gap, isSeparator c = true) ∧
        isSeparator y = false := by
  induction cs with
  | nil => exact .inl (by simp)
  | cons c cs ih =>
    cases hc : isSeparator c with
    | false => exact .inr ⟨[], c, cs, rfl, by simp, hc⟩
    | true =>
      rcases ih with hall | ⟨gap, y, rest, rfl, hgap, hy⟩
      · exact .inl (by simpa [hc] using hall)
      · exact .inr ⟨c :: gap, y, rest, rfl, by simpa [hc] using hgap, hy⟩

namespace Cleaned

variable {source cleaned : List Char} (h : Cleaned source cleaned)
include h

theorem eq_space {c : Char} (hc : c ∈ cleaned) (hseparator : isSeparator c = true) : c = ' ' := by
  obtain ⟨hcontrol, hreplacement, hblank⟩ := h.visible c hc
  apply hblank
  simpa [isSeparator, hcontrol, hreplacement] using hseparator

theorem eq_nil_of_separators {l m r : List Char} (hsplit : cleaned = l ++ (m ++ r))
    (hm : wordChars m = []) (hend : l = [] ∨ r = []) : m = [] := by
  cases m with
  | nil => rfl
  | cons c m =>
    have hm := wordChars_eq_nil_iff.mp hm
    have hspace : c = ' ' :=
      h.eq_space (by simp [hsplit]) (hm c List.mem_cons_self)
    rw [hspace, List.cons_append] at hsplit
    obtain ⟨l', x, y, r', hl, hr, -, hy⟩ := h.single l (m ++ r) hsplit
    rcases hend with rfl | rfl
    · simp at hl
    · rw [List.append_nil] at hr
      simp [hm y (by simp [hr])] at hy

theorem tail_eq_join {before after l r : List Char} {x : Char} (hx : isSeparator x = false)
    (hsource : source = before ++ x :: after) (hcleaned : cleaned = l ++ x :: r)
    (hbefore : wordChars l = wordChars before) (hafter : wordChars r = wordChars after) :
    r = join true false after := by
  rcases exists_first_kept after with hall | ⟨gap, y, rest, rfl, hgap, hy⟩
  · have hnone : join true false after = [] := by
      have := join_gap hall true false []
      simpa [join] using this
    rw [hnone]
    refine h.eq_nil_of_separators (l := l ++ [x]) (r := []) (by simp [hcleaned]) ?_ (.inr rfl)
    rw [hafter, wordChars_eq_nil_iff.mpr hall]
  · obtain ⟨l₂, r₂, hparted, hl₂, hr₂⟩ := h.parted before x gap y rest hsource hx hgap hy
    obtain ⟨rfl, rfl⟩ := append_kept_inj hx (hcleaned.symm.trans hparted) (hbefore.trans hl₂.symm)
    have hchars : wordChars (l ++ x :: spaceFor gap) = wordChars (before ++ x :: gap) := by
      have hspace : wordChars (spaceFor gap) = [] := by
        unfold spaceFor
        split <;> decide
      simp only [wordChars_append, wordChars_cons_kept hx, hbefore, hspace,
        wordChars_eq_nil_iff.mpr hgap]
    have hsource' : source = (before ++ x :: gap) ++ y :: rest := by simp [hsource]
    have hcleaned' : cleaned = (l ++ x :: spaceFor gap) ++ y :: r₂ := by simp [hcleaned]
    rw [join_next hgap hy, tail_eq_join hy hsource' hcleaned' hchars hr₂]
termination_by after.length

theorem eq_join : cleaned = join false false source := by
  have hchars := h.wordChars_eq
  rcases exists_first_kept source with hall | ⟨gap, x, rest, hsource, hgap, hx⟩
  · have hnone : join false false source = [] := by
      have := join_gap hall false false []
      simpa [join] using this
    rw [hnone]
    refine h.eq_nil_of_separators (l := []) (r := []) (by simp) ?_ (.inl rfl)
    rw [hchars, wordChars_eq_nil_iff.mpr hall]
  · have hfirst : wordChars source = x :: wordChars rest := by
      rw [hsource, wordChars_append, wordChars_cons_kept hx, wordChars_eq_nil_iff.mpr hgap,
        List.nil_append]
    rw [hfirst] at hchars
    obtain ⟨l, r, hcleaned, hl, -, hr⟩ := List.filter_eq_cons_iff.mp hchars
    have hfront : l = [] := by
      refine h.eq_nil_of_separators (l := []) (r := x :: r) (by simp [hcleaned]) ?_ (.inl rfl)
      exact List.filter_eq_nil_iff.mpr hl
    subst hfront
    rw [hcleaned, List.nil_append,
      h.tail_eq_join hx hsource hcleaned (wordChars_eq_nil_iff.mpr hgap).symm hr, hsource,
      join_gap hgap, ite_self, join_kept hx]
    rfl

end Cleaned

/-- The text of the bytes is the one that keeps the characters of the words, each once and in order,
with a space where something separated them and nothing else. Cleaning it again changes nothing. -/
theorem clean_keeps_words (b : Bytes) :
    (∀ t : String, t = clean b ↔ Cleaned (Utf8.decodeLenient b) t.toList) ∧
      clean (Utf8.encode (clean b)) = clean b := by
  refine ⟨fun t => ⟨?_, ?_⟩, clean_encode_clean b⟩
  · rintro rfl
    rw [clean, String.toList_ofList]
    exact cleaned_join (Utf8.decodeLenient b)
  · intro ht
    rw [clean, ← ht.eq_join, String.ofList_toList]

example : clean [0x01, 0x61, 0xFF, 0x03, 0x62, 0x63, 0x0A] = "a bc" := by decide

end WideRow.CustomText
