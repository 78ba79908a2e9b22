import Mathlib.Data.List.DropRight
import WideRow.Text.Character

/-!
# Trimming and folding

Texts are normalized by taking the blanks off both ends and the capitals out. Neither undoes the
other and neither finds anything left to do, so a text that was normalized is its own normal form.
-/

namespace WideRow.Text

/-! ## Blanks -/

theorem trimChars_eq (cs : List Char) :
    trimChars cs = (cs.dropWhile isBlank).rdropWhile isBlank := rfl

theorem dropWhile_trimChars (cs : List Char) :
    (trimChars cs).dropWhile isBlank = trimChars cs := by
  have hkept : (trimChars cs) <+: cs.dropWhile isBlank := List.rdropWhile_prefix isBlank _
  rw [List.dropWhile_eq_self_iff]
  intro hpos
  -- What is left begins where the blanks in front ended.
  have hdropped := List.dropWhile_eq_self_iff.mp (List.dropWhile_idempotent isBlank cs)
  rw [hkept.getElem hpos]
  exact hdropped (Nat.lt_of_lt_of_le hpos hkept.length_le)

theorem trimChars_trimChars (cs : List Char) : trimChars (trimChars cs) = trimChars cs := by
  rw [trimChars_eq (trimChars cs), dropWhile_trimChars, trimChars_eq cs, List.rdropWhile_idempotent]

theorem trimChars_map {f : Char → Char} (hf : ∀ c, isBlank (f c) = isBlank c) (cs : List Char) :
    trimChars (cs.map f) = (trimChars cs).map f := by
  have hcomp : isBlank ∘ f = isBlank := funext hf
  unfold trimChars
  rw [List.dropWhile_map, hcomp, ← List.map_reverse, List.dropWhile_map, hcomp, List.map_reverse]

/-! ## Capitals -/

theorem toNat_toLower (c : Char) :
    c.toLower.toNat = if 65 ≤ c.toNat ∧ c.toNat ≤ 90 then c.toNat + 32 else c.toNat := by
  unfold Char.toLower
  have hcapital : (c.val ≥ 'A'.val ∧ c.val ≤ 'Z'.val) ↔ 65 ≤ c.toNat ∧ c.toNat ≤ 90 := by
    rw [ge_iff_le, UInt32.le_iff_toNat_le, UInt32.le_iff_toNat_le]
    exact Iff.rfl
  split
  · rename_i h
    have hrange := hcapital.mp h
    have hsum : (c.val + ('a'.val - 'A'.val)).toNat = c.toNat + 32 := by
      rw [UInt32.toNat_add]
      exact Nat.mod_eq_of_lt (by change c.toNat + 32 < _; omega)
    rw [if_pos hrange]
    exact hsum
  · rename_i h
    rw [if_neg (fun hrange => h (hcapital.mpr hrange))]

theorem toLower_toLower (c : Char) : c.toLower.toLower = c.toLower := by
  apply Char.toNat_inj.mp
  rw [toNat_toLower c.toLower, if_neg]
  rw [toNat_toLower c]
  split <;> omega

theorem isBlank_of_range {c : Char} (h : 65 ≤ c.toNat ∧ c.toNat ≤ 122) : isBlank c = false := by
  simp only [isBlank, Bool.or_eq_false_iff, Bool.and_eq_false_iff, beq_eq_false_iff_ne,
    decide_eq_false_iff_not]
  omega

theorem isBlank_toLower (c : Char) : isBlank c.toLower = isBlank c := by
  have hlower := toNat_toLower c
  split at hlower
  · rename_i hcapital
    rw [isBlank_of_range (c := c.toLower) (by omega), isBlank_of_range (c := c) (by omega)]
  · rw [Char.toNat_inj.mp hlower]

theorem foldCase_trim_twice (s : String) :
    foldCase (trim (foldCase (trim s))) = foldCase (trim s) := by
  simp only [foldCase, trim, String.toList_ofList, trimChars_map isBlank_toLower,
    trimChars_trimChars, List.map_map]
  congr 2
  exact funext toLower_toLower

end WideRow.Text
