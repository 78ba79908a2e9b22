import WideRow.Proofs.Result
import WideRow.Proofs.Utf8
import WideRow.Proofs.Varint
import WideRow.Proofs.Vint
import WideRow.Wire.Encode

/-! # Scalar values through the wire -/

namespace WideRow

open Result

/-! ## Fixed widths -/

namespace Bytes

theorem toInt_ofInt_one (v : Int8) : Int8.ofInt (toInt (ofInt 1 v.toInt)) = v := by
  have := v.le_toInt
  have := v.toInt_lt
  rw [toInt_ofInt (by omega), Int8.ofInt_toInt]

theorem toInt_ofInt_two (v : Int16) : Int16.ofInt (toInt (ofInt 2 v.toInt)) = v := by
  have := v.le_toInt
  have := v.toInt_lt
  rw [toInt_ofInt (by omega), Int16.ofInt_toInt]

theorem toInt_ofInt_four (v : Int32) : Int32.ofInt (toInt (ofInt 4 v.toInt)) = v := by
  have := v.le_toInt
  have := v.toInt_lt
  rw [toInt_ofInt (by omega), Int32.ofInt_toInt]

theorem toInt_ofInt_eight (v : Int64) : Int64.ofInt (toInt (ofInt 8 v.toInt)) = v := by
  have := v.le_toInt
  have := v.toInt_lt
  rw [toInt_ofInt (by omega), Int64.ofInt_toInt]

theorem ofNat_bits {w width : Nat} (v : BitVec w) (h : 2 ^ w = 256 ^ width) :
    BitVec.ofNat w (toNat (ofNat width v.toNat)) = v := by
  rw [toNat_ofNat_of_lt (h ▸ v.isLt), BitVec.ofNat_toNat, BitVec.setWidth_eq]

end Bytes

/-! ## Dates and times -/

theorem Date.ofWire_toWire (d : Date) : Date.ofWire d.toWire = .ok d := by
  obtain ⟨days, hfirst, hlast⟩ := d
  have hraw : ((UInt32.ofNat (days + wireOffset).toNat).toNat : Int) = days + wireOffset := by
    unfold Calendar.firstDay at hfirst
    unfold Calendar.lastDay at hlast
    unfold wireOffset
    rw [UInt32.toNat_ofNat_of_lt' (by simp only [UInt32.size]; omega)]
    omega
  simp only [ofWire, toWire, hraw, Int.add_sub_cancel, ofEpochDays]
  rw [dif_pos ⟨hfirst, hlast⟩]

theorem TimeOfDay.toInt_nanos (t : TimeOfDay) : t.nanos.toInt = t.millis * 1000000 := by
  have := t.lt_day
  unfold nanos nanosPerMilli
  rw [Int64.toInt_ofInt_of_le] <;> omega

theorem TimeOfDay.ofNanos_nanos (t : TimeOfDay) : ofNanos t.nanos = .ok t := by
  have := t.lt_day
  have hn := t.toInt_nanos
  unfold ofNanos
  rw [dif_pos (by unfold nanosPerDay; omega)]
  congr 2
  omega

/-! ## Decimals -/

theorem Decimal.length_toBytes (d : Decimal) :
    d.toBytes.length = 4 + d.unscaled.toSignedBytes.length := by
  rw [toBytes, List.length_append, Bytes.length_ofInt]

theorem Decimal.ofBytes_toBytes (d : Decimal) : ofBytes d.toBytes = .ok d := by
  have hpos := List.length_pos_iff.mpr d.unscaled.toSignedBytes_ne_nil
  have hscale : (Bytes.ofInt 4 d.scale.toInt).length = 4 := Bytes.length_ofInt 4 _
  have hl := d.length_toBytes
  rw [ofBytes, if_neg (by omega), toBytes, List.drop_left' hscale, List.take_left' hscale,
    Bytes.toInt_ofInt_four, Varint.ofSignedBytes_toSignedBytes]

theorem Decimal.length_toBytes_le {b : Bytes} {d : Decimal} (h : ofBytes b = .ok d) :
    d.toBytes.length ≤ b.length := by
  unfold ofBytes at h
  split at h
  · cases h
  · cases h
    have hne : b.drop 4 ≠ [] := by
      intro hnil
      have := congrArg List.length hnil
      simp at this
      omega
    have := Varint.length_rewrite_le hne
    rw [length_toBytes]
    simp only [List.length_drop] at this ⊢
    omega

/-! ## Holding -/

/-- Whether a scalar kind holds a value. Of the texts the kind `ascii` holds those of ASCII characters
only, and raw bytes belong to the kind `blob` alone. -/
def ScalarKind.Holds : ScalarKind → Value → Prop
  | .ascii, .text s => ∀ c ∈ s.toList, c.toNat < 128
  | .text, .text _ | .varchar, .text _ => True
  | .bigint, .bigint _ | .counter, .bigint _ => True
  | .blob, .blob _ => True
  | .boolean, .boolean _ => True
  | .decimal, .decimal _ => True
  | .double, .double _ => True
  | .float, .float _ => True
  | .int, .int _ => True
  | .timestamp, .timestamp _ => True
  | .uuid, .uuid _ | .timeuuid, .uuid _ => True
  | .varint, .varint _ => True
  | .inet, .inet _ => True
  | .date, .date _ => True
  | .time, .time _ => True
  | .smallint, .smallint _ => True
  | .tinyint, .tinyint _ => True
  | .duration, .duration _ => True
  | _, _ => False

namespace Scalar

theorem fixed_of_length {width : Nat} {typeName : String} {b : Bytes} (h : b.length = width) :
    fixed width typeName b = .ok b := if_pos h

theorem of_fixed {width : Nat} {typeName : String} {b c : Bytes}
    (h : fixed width typeName b = .ok c) : c = b ∧ b.length = width := by
  unfold fixed at h
  split at h
  · cases h
    exact ⟨rfl, by assumption⟩
  · cases h

/-! ## Text -/

theorem all_ascii_encode {s : String} (h : ∀ c ∈ s.toList, c.toNat < 128) :
    (Text.Utf8.encode s).all (· < 0x80) = true := by
  rw [List.all_eq_true]
  intro x hx
  unfold Text.Utf8.encode at hx
  obtain ⟨c, hc, hxc⟩ := List.mem_flatMap.mp hx
  have hlt := h c hc
  have hbyte : (UInt8.ofNat c.toNat).toNat = c.toNat := Text.Utf8.toNat_ofNat_byte (by omega)
  have hsmall : UInt8.ofNat c.toNat < 0x80 := by
    rw [UInt8.lt_iff_toNat_lt, hbyte]
    exact hlt
  have hone := Text.Utf8.encodeChar_one hsmall
  rw [hbyte, Char.ofNat_toNat] at hone
  rw [hone, List.mem_singleton] at hxc
  rw [hxc]
  exact decide_eq_true hsmall

theorem segments_ascii {b : Bytes} (h : b.all (· < 0x80) = true) :
    Text.Utf8.segments b = (b.map fun x => Char.ofNat x.toNat).map .character := by
  induction b with
  | nil => rfl
  | cons x b ih =>
    rw [List.all_cons, Bool.and_eq_true] at h
    rw [Text.Utf8.segments_one (of_decide_eq_true h.1), ih h.2, List.map_cons, List.map_cons]

theorem ascii_of_decode {b : Bytes} {s : String} (h : b.all (· < 0x80) = true)
    (hs : Text.Utf8.decode b = .ok s) : ∀ c ∈ s.toList, c.toNat < 128 := by
  unfold Text.Utf8.decode at hs
  rw [segments_ascii h, Text.Utf8.charactersFrom_map] at hs
  cases hs
  intro c hc
  rw [String.toList_ofList] at hc
  obtain ⟨x, hx, rfl⟩ := List.mem_map.mp hc
  have hlt : x.toNat < 128 := UInt8.lt_iff_toNat_lt.mp (of_decide_eq_true (List.all_eq_true.mp h x hx))
  rw [Text.Utf8.toNat_ofNat_char (by omega)]
  exact hlt

theorem decode_of_isText {kind : ScalarKind} (h : kind.isText = true) (b : Bytes) :
    decode kind b = .text <$> decodeText kind b := by
  cases kind <;> first | rfl | cases h

theorem decodeText_encode {kind : ScalarKind} {s : String}
    (h : kind = .ascii → ∀ c ∈ s.toList, c.toNat < 128) :
    decodeText kind (Text.Utf8.encode s) = .ok s := by
  unfold decodeText
  rw [if_neg, Text.Utf8.decode_encode]
  intro hbad
  rw [Bool.and_eq_true, decide_eq_true_eq] at hbad
  rw [all_ascii_encode (h hbad.1)] at hbad
  exact absurd hbad.2 (by decide)

theorem of_decodeText {kind : ScalarKind} {b : Bytes} {s : String} (h : decodeText kind b = .ok s) :
    Text.Utf8.encode s = b ∧ (kind = .ascii → ∀ c ∈ s.toList, c.toNat < 128) := by
  unfold decodeText at h
  split at h
  · cases h
  rename_i hascii
  split at h
  · rename_i hs
    cases h
    refine ⟨Text.Utf8.encode_of_decode hs, ?_⟩
    rintro rfl
    exact ascii_of_decode (by simpa using hascii) hs
  · cases h

/-! ## Each kind -/

theorem decodeInt64_ofInt (typeName : String) (v : Int64) :
    decodeInt64 typeName (Bytes.ofInt 8 v.toInt) = .ok v := by
  rw [decodeInt64, fixed_of_length (Bytes.length_ofInt 8 _), ok_bind, Bytes.toInt_ofInt_eight, pure_eq]

theorem decodeDouble_ofNat (typeName : String) (v : Binary64) :
    decodeDouble typeName (Bytes.ofNat 8 v.bits.toNat) = .ok v := by
  have := v.bits.toNat_lt
  rw [decodeDouble, fixed_of_length (Bytes.length_ofNat 8 _), ok_bind,
    Bytes.toNat_ofNat_of_lt (by omega), UInt64.ofNat_toNat, pure_eq]

theorem decodeFloat_ofNat (v : Binary32) : decodeFloat (Bytes.ofNat 4 v.bits.toNat) = .ok v := by
  have := v.bits.toNat_lt
  rw [decodeFloat, fixed_of_length (Bytes.length_ofNat 4 _), ok_bind,
    Bytes.toNat_ofNat_of_lt (by omega), UInt32.ofNat_toNat, pure_eq]

theorem decodeUuid_toBytes (typeName : String) (v : Uuid) : decodeUuid typeName v.toBytes = .ok v := by
  rw [decodeUuid, Uuid.toBytes, fixed_of_length (Bytes.length_ofNat 16 _), ok_bind,
    Bytes.ofNat_bits v.bits (by decide), pure_eq]

theorem decodeInet_toBytes (v : Address) : decodeInet v.toBytes = .ok v := by
  cases v with
  | v4 bits =>
    rw [decodeInet, Address.toBytes, if_pos (Bytes.length_ofNat 4 _), Bytes.ofNat_bits bits (by decide)]
  | v6 bits =>
    have hl := Bytes.length_ofNat 16 bits.toNat
    rw [decodeInet, Address.toBytes, if_neg (by omega), if_pos hl, Bytes.ofNat_bits bits (by decide)]

theorem decodeDate_toWire (v : Date) : decodeDate (Bytes.ofNat 4 v.toWire.toNat) = .ok v := by
  have := v.toWire.toNat_lt
  rw [decodeDate, fixed_of_length (Bytes.length_ofNat 4 _), ok_bind,
    Bytes.toNat_ofNat_of_lt (by omega), UInt32.ofNat_toNat, Date.ofWire_toWire]

theorem decodeTime_nanos (v : TimeOfDay) : decodeTime (Bytes.ofInt 8 v.nanos.toInt) = .ok v := by
  rw [decodeTime, decodeInt64_ofInt, ok_bind, TimeOfDay.ofNanos_nanos]

theorem decodeVarint_toSignedBytes (v : Varint) : decodeVarint v.toSignedBytes = .ok v := by
  rw [decodeVarint, if_neg (by simp [v.toSignedBytes_ne_nil]), Varint.ofSignedBytes_toSignedBytes]

theorem decode_of_encode? {kind : ScalarKind} {v : Value} {b : Bytes} (hv : kind.Holds v)
    (hb : encode? kind v = some b) : decode kind b = .ok v := by
  unfold encode? at hb
  split at hb <;> simp only [Option.some.injEq, reduceCtorEq] at hb <;> subst hb <;> simp only [decode]
  · rw [decodeText_encode fun _ => hv, map_ok]
  · rw [decodeText_encode (by simp), map_ok]
  · rw [decodeText_encode (by simp), map_ok]
  · rw [decodeInt64_ofInt, map_ok]
  · rw [decodeInt64_ofInt, map_ok]
  · rename_i v
    cases v <;> rfl
  · rw [Decimal.ofBytes_toBytes, map_ok]
  · rw [decodeDouble_ofNat, map_ok]
  · rw [decodeFloat_ofNat, map_ok]
  · rw [decodeInt, fixed_of_length (Bytes.length_ofInt 4 _), ok_bind, Bytes.toInt_ofInt_four,
      pure_eq, map_ok]
  · rw [decodeTimestamp, decodeInt64_ofInt, ok_bind, pure_eq, map_ok]
  · rw [decodeUuid_toBytes, map_ok]
  · rw [decodeUuid_toBytes, map_ok]
  · rw [decodeVarint_toSignedBytes, map_ok]
  · rw [decodeInet_toBytes, map_ok]
  · rw [decodeDate_toWire, map_ok]
  · rw [decodeTime_nanos, map_ok]
  · rw [decodeSmallint, fixed_of_length (Bytes.length_ofInt 2 _), ok_bind, Bytes.toInt_ofInt_two,
      pure_eq, map_ok]
  · rw [decodeTinyint, fixed_of_length (Bytes.length_ofInt 1 _), ok_bind, Bytes.toInt_ofInt_one,
      pure_eq, map_ok]
  · rw [Duration.ofBytes_toBytes, map_ok]

theorem encodeValue_of_encode? {kind : ScalarKind} {v : Value} {b : Bytes}
    (hb : encode? kind v = some b) : encodeValue (.scalar kind) v = .ok (some b) := by
  unfold encode? at hb
  split at hb <;> simp only [Option.some.injEq, reduceCtorEq] at hb <;> subst hb <;> rfl

theorem encode?_of_holds {kind : ScalarKind} {v : Value} (hv : kind.Holds v) :
    (∃ b, v = .blob b ∧ kind = .blob) ∨ ∃ b, encode? kind v = some b := by
  unfold ScalarKind.Holds at hv
  split at hv
  case h_6 => exact .inl ⟨_, rfl, rfl⟩
  case h_22 => exact hv.elim
  all_goals exact .inr ⟨_, rfl⟩

/-- A value that its kind holds is written, and its bytes are decoded to the value. -/
theorem encode_of_holds {kind : ScalarKind} {v : Value} (hv : kind.Holds v) :
    ∃ b, encodeValue (.scalar kind) v = .ok (some b) ∧ decode kind b = .ok v := by
  rcases encode?_of_holds hv with ⟨b, rfl, rfl⟩ | ⟨b, hb⟩
  · exact ⟨b, rfl, rfl⟩
  · exact ⟨b, encodeValue_of_encode? hb, decode_of_encode? hv hb⟩

/-! ## Writing what was read -/

/-- The kind holds the value, and it is written in no more than `n` bytes. -/
def Rewrites (kind : ScalarKind) (v : Value) (n : Nat) : Prop :=
  kind.Holds v ∧ ∃ out, encodeValue (.scalar kind) v = .ok (some out) ∧ out.length ≤ n

theorem rewrites_of_encode? {kind : ScalarKind} {v : Value} {n : Nat} {out : Bytes}
    (hv : kind.Holds v) (hout : encode? kind v = some out) (hl : out.length ≤ n) :
    Rewrites kind v n :=
  ⟨hv, out, encodeValue_of_encode? hout, hl⟩

theorem length_of_fixed_bind {α : Type} {width : Nat} {typeName : String} {b : Bytes}
    {f : Bytes → Result α} {a : α} (h : (fixed width typeName b >>= f) = .ok a) : b.length = width := by
  obtain ⟨c, hc, -⟩ := bind_eq_ok.mp h
  exact (of_fixed hc).2

theorem length_of_decodeInt64 {typeName : String} {b : Bytes} {v : Int64}
    (h : decodeInt64 typeName b = .ok v) : b.length = 8 := length_of_fixed_bind h

theorem rewrites_of_decode {kind : ScalarKind} {v : Value} {b : Bytes} (h : decode kind b = .ok v) :
    Rewrites kind v b.length := by
  have text {s : String} (hs : decodeText kind b = .ok s) (hv : kind.Holds (.text s))
      (hout : encode? kind (.text s) = some (Text.Utf8.encode s)) : Rewrites kind (.text s) b.length :=
    rewrites_of_encode? hv hout (by rw [(of_decodeText hs).1])
  cases kind <;> simp only [decode] at h
  case blob => cases h; exact ⟨trivial, b, rfl, Nat.le_refl _⟩
  all_goals obtain ⟨x, hx, rfl⟩ := map_eq_ok.mp h
  case ascii => exact text hx ((of_decodeText hx).2 rfl) rfl
  case text => exact text hx trivial rfl
  case varchar => exact text hx trivial rfl
  case decimal => exact rewrites_of_encode? trivial rfl (Decimal.length_toBytes_le hx)
  case duration => exact rewrites_of_encode? trivial rfl (Duration.length_toBytes_le hx)
  case varint =>
    unfold decodeVarint at hx
    split at hx
    · cases hx
    · rename_i hne
      cases hx
      exact rewrites_of_encode? trivial rfl (Varint.length_rewrite_le (by simpa using hne))
  case inet =>
    unfold decodeInet at hx
    split at hx
    · rename_i hl
      cases hx
      exact rewrites_of_encode? trivial rfl (by simp [Address.toBytes, hl])
    split at hx
    · rename_i hl
      cases hx
      exact rewrites_of_encode? trivial rfl (by simp [Address.toBytes, hl])
    · cases hx
  case time =>
    obtain ⟨nanos, hn, -⟩ := bind_eq_ok.mp hx
    exact rewrites_of_encode? trivial rfl (by simp [length_of_decodeInt64 hn])
  case timestamp =>
    obtain ⟨millis, hn, -⟩ := bind_eq_ok.mp hx
    exact rewrites_of_encode? trivial rfl (by simp [length_of_decodeInt64 hn])
  all_goals exact rewrites_of_encode? trivial rfl (by simp [length_of_fixed_bind hx, Uuid.toBytes])

end Scalar

end WideRow
