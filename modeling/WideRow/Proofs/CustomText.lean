import WideRow.Proofs.Utf8
import WideRow.Wire.CustomText

/-!
# Text of custom values

Cleaning settles at once: a clean text is left as it is. It also never lengthens, since every space
that it puts in stands for at least one byte that it took out.
-/

namespace WideRow.CustomText

open Text

theorem isSeparator_space : isSeparator ' ' = true := by decide

theorem isSeparator_replacement : isSeparator Utf8.replacement = true := by decide

/-! ## Cleaning twice -/

theorem join_join_started (pending : Bool) (cs : List Char) :
    join true false (join true pending cs) = join true pending cs := by
  induction cs generalizing pending with
  | nil => rfl
  | cons c cs ih =>
    rw [join]
    split
    · exact ih true
    · rename_i hc
      split
      · -- The space that was put in is a separator again, and is put in again.
        rw [join, if_pos isSeparator_space, join, if_neg hc, if_pos rfl, ih]
      · rw [join, if_neg hc, if_neg (by simp), ih]

theorem join_join (cs : List Char) : join false false (join false false cs) = join false false cs := by
  induction cs with
  | nil => rfl
  | cons c cs ih =>
    rw [join]
    split
    · exact ih
    · rename_i hc
      rw [if_neg (by simp), join, if_neg hc, if_neg (by simp), join_join_started]

theorem clean_encode_clean (b : Bytes) : clean (Utf8.encode (clean b)) = clean b := by
  simp only [clean, Utf8.decodeLenient_encode, String.toList_ofList, join_join]

/-! ## The length of a clean text -/

theorem length_join_le {b : Bytes} {ss : List Utf8.Segment} (hp : Utf8.Pieces b ss)
    (started pending : Bool) :
    ((join started pending (ss.map Utf8.Segment.shown)).flatMap String.utf8EncodeChar).length ≤
      b.length + pending.toNat := by
  induction hp generalizing started pending with
  | nil => simp [join]
  | @character c rest ss hp ih =>
    have hc := c.utf8Size_pos
    have hspace : (' ' : Char).utf8Size = 1 := by decide
    rw [List.map_cons, Utf8.Segment.shown, join, List.length_append, String.length_utf8EncodeChar]
    split
    · have := ih started started
      have := Bool.toNat_le started
      omega
    · have := ih true false
      simp only [Bool.toNat_false] at this
      split
      · simp_all
        omega
      · simp_all
  | @malformed piece rest ss hne hp ih =>
    have := List.length_pos_iff.mpr hne
    have := ih started started
    have := Bool.toNat_le started
    rw [List.map_cons, Utf8.Segment.shown, join, if_pos isSeparator_replacement, List.length_append]
    · omega
    · simp
  | cutShort hne =>
    rw [List.map_cons, Utf8.Segment.shown, join, if_pos isSeparator_replacement]
    · simp [join]
    · simp

theorem length_clean_le (b : Bytes) : (Utf8.encode (clean b)).length ≤ b.length := by
  have := length_join_le (Utf8.pieces_segments b) false false
  rw [Utf8.encode, clean, String.toList_ofList]
  exact this

end WideRow.CustomText
