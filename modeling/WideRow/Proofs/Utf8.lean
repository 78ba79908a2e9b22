import Mathlib.Tactic.SplitIfs
import WideRow.Text.Utf8

/-!
# UTF-8

Cutting is the inverse of writing: a written character is cut off as that character, and a byte
string is made up of the pieces that it is cut into. So a text has one byte string.
-/

namespace WideRow.Text.Utf8

open String (utf8EncodeChar)

/-! ## Bytes of one character -/

theorem toNat_char_range (c : Char) : c.toNat < 0xD800 ∨ 0xDFFF < c.toNat ∧ c.toNat < 0x110000 := c.valid

theorem toNat_ofNat_char {n : Nat} (h : n < 0xD800 ∨ 0xDFFF < n ∧ n < 0x110000) :
    (Char.ofNat n).toNat = n := by
  rw [Char.ofNat, dif_pos h]
  rfl

theorem toNat_ofNat_byte {n : Nat} (h : n < 256) : (UInt8.ofNat n).toNat = n := by
  rw [UInt8.toNat_ofNat', Nat.mod_eq_of_lt h]

theorem ofNat_byte {x : UInt8} {n : Nat} (h : x.toNat = n) : UInt8.ofNat n = x := by
  rw [← h, UInt8.ofNat_toNat]

theorem isTail_iff (b : UInt8) : isTail b = true ↔ 0x80 ≤ b.toNat ∧ b.toNat ≤ 0xBF := by
  simp [isTail, UInt8.le_iff_toNat_le]

theorem isSecond_iff (a b : UInt8) :
    isSecond a b = true ↔ (0x80 ≤ b.toNat ∧ b.toNat ≤ 0xBF) ∧ (a.toNat = 0xE0 → 0xA0 ≤ b.toNat) ∧
      (a.toNat = 0xED → b.toNat ≤ 0x9F) ∧ (a.toNat = 0xF0 → 0x90 ≤ b.toNat) ∧
      (a.toNat = 0xF4 → b.toNat ≤ 0x8F) := by
  unfold isSecond
  simp only [beq_iff_eq, ← UInt8.toNat_inj]
  split_ifs with h1 h2 h3 h4 <;>
    simp_all [UInt8.le_iff_toNat_le, isTail_iff] <;> omega

/-! ## What the cuts are -/

theorem segments_nil : segments [] = [] := rfl

theorem segments_one {a : UInt8} {rest : Bytes} (h : a < 0x80) :
    segments (a :: rest) = .character (Char.ofNat a.toNat) :: segments rest := by
  rw [segments.eq_def]
  simp only [h, if_true]

theorem segments_two {a b : UInt8} {rest : Bytes} (ha : 0xC2 ≤ a.toNat) (ha' : a.toNat < 0xE0)
    (hb : isSecond a b = true) :
    segments (a :: b :: rest) =
      .character (Char.ofNat (a.toNat % 32 * 64 + tailBits b)) :: segments rest := by
  have h1 : ¬ a < 0x80 := by simp [UInt8.lt_iff_toNat_lt]; omega
  have h2 : ¬ a < 0xC2 := by simp [UInt8.lt_iff_toNat_lt]; omega
  have h3 : ¬ 0xF4 < a := by simp [UInt8.lt_iff_toNat_lt]; omega
  have h4 : a < 0xE0 := by simp [UInt8.lt_iff_toNat_lt]; omega
  rw [segments.eq_def]
  simp [h1, h2, h3, h4, hb]

theorem segments_three {a b c : UInt8} {rest : Bytes} (ha : 0xE0 ≤ a.toNat) (ha' : a.toNat < 0xF0)
    (hb : isSecond a b = true) (hc : isTail c = true) :
    segments (a :: b :: c :: rest) =
      .character (Char.ofNat ((a.toNat % 16 * 64 + tailBits b) * 64 + tailBits c)) :: segments rest := by
  have h1 : ¬ a < 0x80 := by simp [UInt8.lt_iff_toNat_lt]; omega
  have h2 : ¬ a < 0xC2 := by simp [UInt8.lt_iff_toNat_lt]; omega
  have h3 : ¬ 0xF4 < a := by simp [UInt8.lt_iff_toNat_lt]; omega
  have h4 : ¬ a < 0xE0 := by simp [UInt8.lt_iff_toNat_lt]; omega
  have h5 : a < 0xF0 := by simp [UInt8.lt_iff_toNat_lt]; omega
  rw [segments.eq_def]
  simp [h1, h2, h3, h4, h5, hb, hc]

theorem segments_four {a b c d : UInt8} {rest : Bytes} (ha : 0xF0 ≤ a.toNat) (ha' : a.toNat ≤ 0xF4)
    (hb : isSecond a b = true) (hc : isTail c = true) (hd : isTail d = true) :
    segments (a :: b :: c :: d :: rest) =
      .character (Char.ofNat (((a.toNat % 8 * 64 + tailBits b) * 64 + tailBits c) * 64 + tailBits d)) ::
        segments rest := by
  have h1 : ¬ a < 0x80 := by simp [UInt8.lt_iff_toNat_lt]; omega
  have h2 : ¬ a < 0xC2 := by simp [UInt8.lt_iff_toNat_lt]; omega
  have h3 : ¬ 0xF4 < a := by simp [UInt8.lt_iff_toNat_lt]; omega
  have h4 : ¬ a < 0xE0 := by simp [UInt8.lt_iff_toNat_lt]; omega
  have h5 : ¬ a < 0xF0 := by simp [UInt8.lt_iff_toNat_lt]; omega
  rw [segments.eq_def]
  simp [h1, h2, h3, h4, h5, hb, hc, hd]

theorem segments_encodeChar (c : Char) (rest : Bytes) :
    segments (utf8EncodeChar c ++ rest) = .character c :: segments rest := by
  have hc := toNat_char_range c
  have hof := Char.ofNat_toNat c
  unfold utf8EncodeChar
  simp only [show c.val.toNat = c.toNat from rfl]
  generalize c.toNat = n at *
  split
  · have ha := toNat_ofNat_byte (n := n) (by omega)
    rw [List.singleton_append, segments_one (by simp [UInt8.lt_iff_toNat_lt]; omega), ha, hof]
  split
  · have ha := toNat_ofNat_byte (n := n / 64 % 0x20 + 0xc0) (by omega)
    have hb := toNat_ofNat_byte (n := n % 0x40 + 0x80) (by omega)
    rw [List.cons_append, List.singleton_append, segments_two (by omega) (by omega), tailBits, ha, hb,
      show (n / 64 % 0x20 + 0xc0) % 32 * 64 + (n % 0x40 + 0x80) % 64 = n by omega, hof]
    rw [isSecond_iff, ha, hb]
    omega
  split
  · have ha := toNat_ofNat_byte (n := n / 4096 % 0x10 + 0xe0) (by omega)
    have hb := toNat_ofNat_byte (n := n / 64 % 0x40 + 0x80) (by omega)
    have hc := toNat_ofNat_byte (n := n % 0x40 + 0x80) (by omega)
    rw [List.cons_append, List.cons_append, List.singleton_append,
      segments_three (by omega) (by omega), tailBits, tailBits, ha, hb, hc,
      show ((n / 4096 % 0x10 + 0xe0) % 16 * 64 + (n / 64 % 0x40 + 0x80) % 64) * 64 +
        (n % 0x40 + 0x80) % 64 = n by omega, hof]
    · rw [isSecond_iff, ha, hb]
      omega
    · rw [isTail_iff, hc]
      omega
  · have ha := toNat_ofNat_byte (n := n / 262144 % 0x08 + 0xf0) (by omega)
    have hb := toNat_ofNat_byte (n := n / 4096 % 0x40 + 0x80) (by omega)
    have hc := toNat_ofNat_byte (n := n / 64 % 0x40 + 0x80) (by omega)
    have hd := toNat_ofNat_byte (n := n % 0x40 + 0x80) (by omega)
    rw [List.cons_append, List.cons_append, List.cons_append, List.singleton_append,
      segments_four (by omega) (by omega), tailBits, tailBits, tailBits, ha, hb, hc, hd,
      show (((n / 262144 % 0x08 + 0xf0) % 8 * 64 + (n / 4096 % 0x40 + 0x80) % 64) * 64 +
        (n / 64 % 0x40 + 0x80) % 64) * 64 + (n % 0x40 + 0x80) % 64 = n by omega, hof]
    · rw [isSecond_iff, ha, hb]
      omega
    · rw [isTail_iff, hc]
      omega
    · rw [isTail_iff, hd]
      omega

/-! ## Cut characters -/

theorem encodeChar_one {a : UInt8} (h : a < 0x80) : utf8EncodeChar (Char.ofNat a.toNat) = [a] := by
  have ha : a.toNat < 128 := by simpa [UInt8.lt_iff_toNat_lt] using h
  have hn := toNat_ofNat_char (n := a.toNat) (by omega)
  unfold utf8EncodeChar
  simp only [show ∀ c : Char, c.val.toNat = c.toNat from fun _ => rfl, hn]
  rw [if_pos (by omega), UInt8.ofNat_toNat]

theorem encodeChar_two {a b : UInt8} (ha : 0xC2 ≤ a.toNat) (ha' : a.toNat < 0xE0)
    (hb : isSecond a b = true) :
    utf8EncodeChar (Char.ofNat (a.toNat % 32 * 64 + tailBits b)) = [a, b] := by
  rw [isSecond_iff] at hb
  unfold utf8EncodeChar tailBits
  have hn := toNat_ofNat_char (n := a.toNat % 32 * 64 + b.toNat % 64) (by omega)
  simp only [show ∀ c : Char, c.val.toNat = c.toNat from fun _ => rfl, hn]
  rw [if_neg (by omega), if_pos (by omega), ofNat_byte (x := a) (by omega), ofNat_byte (x := b) (by omega)]

theorem encodeChar_three {a b c : UInt8} (ha : 0xE0 ≤ a.toNat) (ha' : a.toNat < 0xF0)
    (hb : isSecond a b = true) (hc : isTail c = true) :
    utf8EncodeChar (Char.ofNat ((a.toNat % 16 * 64 + tailBits b) * 64 + tailBits c)) = [a, b, c] := by
  rw [isSecond_iff] at hb
  rw [isTail_iff] at hc
  unfold utf8EncodeChar tailBits
  have hn := toNat_ofNat_char (n := (a.toNat % 16 * 64 + b.toNat % 64) * 64 + c.toNat % 64) (by omega)
  simp only [show ∀ c : Char, c.val.toNat = c.toNat from fun _ => rfl, hn]
  rw [if_neg (by omega), if_neg (by omega), if_pos (by omega), ofNat_byte (x := a) (by omega),
    ofNat_byte (x := b) (by omega), ofNat_byte (x := c) (by omega)]

theorem encodeChar_four {a b c d : UInt8} (ha : 0xF0 ≤ a.toNat) (ha' : a.toNat ≤ 0xF4)
    (hb : isSecond a b = true) (hc : isTail c = true) (hd : isTail d = true) :
    utf8EncodeChar
        (Char.ofNat (((a.toNat % 8 * 64 + tailBits b) * 64 + tailBits c) * 64 + tailBits d)) =
      [a, b, c, d] := by
  rw [isSecond_iff] at hb
  rw [isTail_iff] at hc hd
  unfold utf8EncodeChar tailBits
  have hn := toNat_ofNat_char
    (n := ((a.toNat % 8 * 64 + b.toNat % 64) * 64 + c.toNat % 64) * 64 + d.toNat % 64) (by omega)
  simp only [show ∀ c : Char, c.val.toNat = c.toNat from fun _ => rfl, hn]
  rw [if_neg (by omega), if_neg (by omega), if_neg (by omega), ofNat_byte (x := a) (by omega),
    ofNat_byte (x := b) (by omega), ofNat_byte (x := c) (by omega), ofNat_byte (x := d) (by omega)]

/-! ## The pieces of a byte string -/

/-- The byte string is made up of the pieces that the segments stand for. -/
inductive Pieces : Bytes → List Segment → Prop
  | nil : Pieces [] []
  | character (c : Char) {rest : Bytes} {ss : List Segment} (h : Pieces rest ss) :
    Pieces (utf8EncodeChar c ++ rest) (.character c :: ss)
  | malformed {piece rest : Bytes} {ss : List Segment} (hne : piece ≠ []) (h : Pieces rest ss) :
    Pieces (piece ++ rest) (.malformed piece.length :: ss)
  | cutShort {piece : Bytes} (hne : piece ≠ []) : Pieces piece [.cutShort]

theorem first_range {a : UInt8} (h : ¬ (decide (a < 194) || decide (244 < a)) = true) :
    0xC2 ≤ a.toNat ∧ a.toNat ≤ 0xF4 := by
  simp only [UInt8.lt_iff_toNat_lt, Bool.or_eq_true, decide_eq_true_eq, not_or, Nat.not_lt] at h
  exact h

theorem pieces_segments (b : Bytes) : Pieces b (segments b) := by
  induction b using segments.induct with
  | case1 => exact .nil
  | case2 a rest h ih =>
    rw [segments_one h]
    have := Pieces.character (Char.ofNat a.toNat) ih
    rwa [encodeChar_one h] at this
  | case3 a rest h h' ih =>
    rw [segments.eq_def]
    simp only [h, h', if_false, if_true]
    exact Pieces.malformed (List.cons_ne_nil _ _ : [a] ≠ []) ih
  | case4 a h h' =>
    rw [segments.eq_def]
    simp only [h, h', if_false]
    exact .cutShort (by simp)
  | case5 a h h' b rest hb ih =>
    rw [segments.eq_def]
    simp only [h, h', hb, if_false, if_true]
    exact Pieces.malformed (List.cons_ne_nil _ _ : [a] ≠ []) ih
  | case6 a h h' b rest hb ha ih =>
    obtain ⟨hlow, -⟩ := first_range h'
    have hb' : isSecond a b = true := by simpa using hb
    rw [segments_two hlow (by simpa [UInt8.lt_iff_toNat_lt] using ha) hb']
    have := Pieces.character (Char.ofNat (a.toNat % 32 * 64 + tailBits b)) ih
    rwa [encodeChar_two hlow (by simpa [UInt8.lt_iff_toNat_lt] using ha) hb'] at this
  | case7 a h h' b hb ha =>
    rw [segments.eq_def]
    simp only [h, h', hb, ha, if_false]
    exact .cutShort (by simp)
  | case8 a h h' b hb ha c rest hc ih =>
    rw [segments.eq_def]
    simp only [h, h', hb, ha, hc, if_false, if_true]
    exact Pieces.malformed (List.cons_ne_nil _ _ : [a, b] ≠ []) ih
  | case9 a h h' b hb ha c rest hc ha' ih =>
    have hb' : isSecond a b = true := by simpa using hb
    have hc' : isTail c = true := by simpa using hc
    have hlow : 0xE0 ≤ a.toNat := by simpa [UInt8.lt_iff_toNat_lt] using ha
    have hhigh : a.toNat < 0xF0 := by simpa [UInt8.lt_iff_toNat_lt] using ha'
    rw [segments_three hlow hhigh hb' hc']
    have := Pieces.character (Char.ofNat ((a.toNat % 16 * 64 + tailBits b) * 64 + tailBits c)) ih
    rwa [encodeChar_three hlow hhigh hb' hc'] at this
  | case10 a h h' b hb ha c hc ha' =>
    rw [segments.eq_def]
    simp only [h, h', hb, ha, hc, ha', if_false]
    exact .cutShort (by simp)
  | case11 a h h' b hb ha c hc ha' d rest hd ih =>
    rw [segments.eq_def]
    simp only [h, h', hb, ha, hc, ha', hd, if_false, if_true]
    exact Pieces.malformed (List.cons_ne_nil _ _ : [a, b, c] ≠ []) ih
  | case12 a h h' b hb ha c hc ha' d rest hd ih =>
    obtain ⟨-, hhigh⟩ := first_range h'
    have hb' : isSecond a b = true := by simpa using hb
    have hc' : isTail c = true := by simpa using hc
    have hd' : isTail d = true := by simpa using hd
    have hlow : 0xF0 ≤ a.toNat := by simpa [UInt8.lt_iff_toNat_lt] using ha'
    rw [segments_four hlow hhigh hb' hc' hd']
    have := Pieces.character
      (Char.ofNat (((a.toNat % 8 * 64 + tailBits b) * 64 + tailBits c) * 64 + tailBits d)) ih
    rwa [encodeChar_four hlow hhigh hb' hc' hd'] at this

/-! ## Texts -/

theorem segments_encode (cs : List Char) (rest : Bytes) :
    segments (cs.flatMap utf8EncodeChar ++ rest) = cs.map .character ++ segments rest := by
  induction cs with
  | nil => rfl
  | cons c cs ih =>
    rw [List.flatMap_cons, List.append_assoc, segments_encodeChar, ih]
    rfl

theorem segments_encode_text (s : String) : segments (encode s) = s.toList.map .character := by
  have := segments_encode s.toList []
  rwa [List.append_nil, segments_nil, List.append_nil] at this

theorem charactersFrom_map (index : Nat) (cs : List Char) :
    charactersFrom index (cs.map .character) = .ok cs := by
  induction cs generalizing index with
  | nil => rfl
  | cons c cs ih =>
    rw [List.map_cons, charactersFrom, ih]
    rfl

/-- A written text is read as that text. -/
theorem decode_encode (s : String) : decode (encode s) = .ok s := by
  rw [decode, segments_encode_text, charactersFrom_map]
  simp [Except.map]

theorem flatMap_of_charactersFrom {index : Nat} {b : Bytes} {ss : List Segment} {cs : List Char}
    (hp : Pieces b ss) (h : charactersFrom index ss = .ok cs) : cs.flatMap utf8EncodeChar = b := by
  induction hp generalizing index cs with
  | nil =>
    cases h
    rfl
  | @character c rest ss hp ih =>
    rw [charactersFrom] at h
    cases hrest : charactersFrom (index + c.utf8Size) ss with
    | error fault =>
      rw [hrest] at h
      cases h
    | ok ds =>
      rw [hrest] at h
      cases h
      rw [List.flatMap_cons, ih hrest]
  | malformed hne hp ih => cases h
  | cutShort hne => cases h

/-- The bytes that are read as a text are the bytes that the text is written as. -/
theorem encode_of_decode {b : Bytes} {s : String} (h : decode b = .ok s) : encode s = b := by
  rw [decode] at h
  cases hcs : charactersFrom 0 (segments b) with
  | error fault =>
    rw [hcs] at h
    cases h
  | ok cs =>
    rw [hcs] at h
    cases h
    rw [encode, String.toList_ofList]
    exact flatMap_of_charactersFrom (pieces_segments b) hcs

/-! ## Lenient reading -/

/-- The character that lenient reading gives for a segment. -/
def Segment.shown : Segment → Char
  | .character c => c
  | _ => replacement

theorem decodeLenient_eq (b : Bytes) : decodeLenient b = (segments b).map Segment.shown := rfl

theorem decodeLenient_encode (s : String) : decodeLenient (encode s) = s.toList := by
  rw [decodeLenient_eq, segments_encode_text, List.map_map]
  exact List.map_id _

end WideRow.Text.Utf8
