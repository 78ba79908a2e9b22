import WideRow.Proofs.WireGrammar

/-!
# Reading in place

Bytes are read where they stand, at a position in an input that is not cut. Each step says what it
needs: a place inside the input, a number in the range of its type, a turn left in its loop. What is
missing is an outcome of its own, apart from the malformed input that a reader reports. No reading
has such an outcome: each finds what the readers of byte strings find.
-/

namespace WideRow.InPlace

open Framing Result

/-! ## Steps that may halt -/

/-- What a reading halts with: an error that it reports, a place outside the input or a number out
of its range, or a loop that has had its turns. -/
inductive Halt (ε : Type) where
  | error (e : ε)
  | fault
  | unfinished

abbrev Checked (ε α : Type) := Except (Halt ε) α

section

variable {ε ε' α β : Type}

def fail (e : ε) : Checked ε α :=
  .error (.error e)

/-- The outcome of steps that need nothing. -/
def lift : Except ε α → Checked ε α
  | .ok a => .ok a
  | .error e => fail e

def Halt.map (f : ε → ε') : Halt ε → Halt ε'
  | .error e => .error (f e)
  | .fault => .fault
  | .unfinished => .unfinished

def mapError (f : ε → ε') : Checked ε α → Checked ε' α
  | .ok a => .ok a
  | .error halt => .error (halt.map f)

theorem lift_ok (a : α) : lift (.ok a : Except ε α) = .ok a := rfl

theorem lift_error (e : ε) : lift (.error e : Except ε α) = fail e := rfl

theorem fail_bind (e : ε) (f : α → Checked ε β) : (fail e >>= f) = fail e := rfl

theorem lift_bind (x : Except ε α) (f : α → Except ε β) :
    lift (x >>= f) = lift x >>= fun a => lift (f a) := by
  cases x <;> rfl

theorem lift_map (f : α → β) (x : Except ε α) : lift (f <$> x) = f <$> lift x := by
  cases x <;> rfl

/-- No step is out of range and every loop ends: what there is to halt with is a reported error. -/
def Completes (x : Checked ε α) : Prop :=
  ∀ halt, x = .error halt → ∃ e, halt = .error e

theorem completes_lift (x : Except ε α) : Completes (lift x) := by
  intro halt h
  cases x with
  | ok a => cases h
  | error e =>
    cases h
    exact ⟨e, rfl⟩

/-! ## What a step needs -/

/-- A difference that may not be negative. -/
def sub (m n : Nat) : Checked ε Nat :=
  if n ≤ m then .ok (m - n) else .error .fault

/-- A number that may not exceed the greatest one of its type. -/
def upTo (limit n : Nat) : Checked ε Nat :=
  if n ≤ limit then .ok n else .error .fault

/-- An integer that has to have 64 bits. -/
def wide (i : Int) : Checked ε Int :=
  if -9223372036854775808 ≤ i ∧ i ≤ 9223372036854775807 then .ok i else .error .fault

/-- An amount to shift 64 bits by. -/
def shiftAmount (n : Nat) : Checked ε UInt64 :=
  if n < 64 then .ok (UInt64.ofNat n) else .error .fault

/-- The byte at an index. -/
def byte (b : Bytes) (i : Nat) : Checked ε UInt8 :=
  match b[i]? with
  | some x => .ok x
  | none => .error .fault

/-- The bytes from one position up to another. -/
def slice (b : Bytes) (start stop : Nat) : Checked ε Bytes :=
  if start ≤ stop ∧ stop ≤ b.length then .ok ((b.take stop).drop start) else .error .fault

/-- The integer of the first four bytes. -/
def headInt (b : Bytes) : Checked ε Int := do
  return Bytes.toInt [← byte b 0, ← byte b 1, ← byte b 2, ← byte b 3]

theorem sub_ok {m n : Nat} (h : n ≤ m) : sub m n = (.ok (m - n) : Checked ε Nat) := if_pos h

theorem upTo_ok {limit n : Nat} (h : n ≤ limit) : upTo limit n = (.ok n : Checked ε Nat) := if_pos h

theorem wide_ok {i : Int} (hlow : -9223372036854775808 ≤ i) (hhigh : i ≤ 9223372036854775807) :
    wide i = (.ok i : Checked ε Int) := if_pos ⟨hlow, hhigh⟩

theorem shiftAmount_ok {n : Nat} (h : n < 64) :
    shiftAmount n = (.ok (UInt64.ofNat n) : Checked ε UInt64) := if_pos h

theorem slice_append (front body rest : Bytes) :
    slice (front ++ (body ++ rest)) front.length (front.length + body.length) =
      (.ok body : Checked ε Bytes) := by
  unfold slice
  simp [List.take_append]

theorem headInt_append {head : Bytes} (hhead : head.length = 4) (tail : Bytes) :
    headInt (head ++ tail) = (.ok (Bytes.toInt head) : Checked ε Int) := by
  obtain ⟨x, y, z, w, rfl⟩ := four_bytes hhead
  rfl

end

/-! ## The reader -/

/-- An input and how far it has been read. -/
structure Reader where
  bytes : Bytes
  position : Nat

namespace Reader

def remaining (r : Reader) : Checked Malformation Nat :=
  sub r.bytes.length r.position

/-- The next bytes, if there are as many. -/
def take (limit : Nat) (r : Reader) (count : Nat) : Checked Malformation (Bytes × Reader) := do
  let remaining ← r.remaining
  if remaining < count then
    fail (.truncated r.position r.bytes.length)
  else
    let stop ← upTo limit (r.position + count)
    let taken ← slice r.bytes r.position stop
    return (taken, { r with position := stop })

def takeInt (limit : Nat) (r : Reader) : Checked Malformation (Int × Reader) := do
  let (taken, r) ← r.take limit 4
  return (← headInt taken, r)

/-- A length and as many bytes, or a negative length. -/
def takeItem (limit : Nat) (r : Reader) : Checked Malformation (Option Bytes × Reader) := do
  let (length, r) ← r.takeInt limit
  if length < 0 then
    return (none, r)
  else
    let (body, r) ← r.take limit length.toNat
    return (some body, r)

def takeItems (limit : Nat) : Nat → Reader → Checked Malformation (List (Option Bytes) × Reader)
  | 0, r => .ok ([], r)
  | count + 1, r => do
    let (item, r) ← r.takeItem limit
    let (items, r) ← r.takeItems limit count
    return (item :: items, r)

/-- Items as long as anything remains, for that many turns. -/
def takeAll (limit : Nat) : Nat → Reader → Checked Malformation (List (Option Bytes))
  | turns, r => do
    let remaining ← r.remaining
    if remaining = 0 then
      return []
    else
      match turns with
      | 0 => .error .unfinished
      | turns + 1 =>
        let (item, r) ← r.takeItem limit
        return item :: (← r.takeAll limit turns)

def finish (r : Reader) : Checked Malformation Unit := do
  let remaining ← r.remaining
  if remaining = 0 then return () else fail (.trailing remaining)

end Reader

/-- A count, and as many entries of `perEntry` items each. -/
def readCollection (limit perEntry : Nat) (b : Bytes) :
    Checked Malformation (List (Option Bytes)) :=
  if b.isEmpty then
    .ok []
  else do
    let (count, r) ← Reader.takeInt limit ⟨b, 0⟩
    if count < 0 then
      fail (.negativeSize count)
    else
      let room ← upTo limit (count.toNat * perEntry)
      let remaining ← r.remaining
      if remaining / 4 < room then
        fail (.oversize count.toNat b.length)
      else
        let (items, r) ← r.takeItems limit room
        r.finish
        return items

/-- Items up to the end. Each of them takes four bytes, so there are no more turns than that. -/
def readStructure (limit : Nat) (b : Bytes) : Checked Malformation (List (Option Bytes)) :=
  Reader.takeAll limit (b.length / 4 + 1) ⟨b, 0⟩

/-! ## Positions -/

section

variable {limit : Nat} {b : Bytes}

/-- The readers of an input: the one at its start, and those that taking bytes leads to. -/
inductive Reached (limit : Nat) (b : Bytes) : Reader → Prop where
  | start : Reached limit b ⟨b, 0⟩
  | take {r r' : Reader} {count : Nat} {taken : Bytes} (before : Reached limit b r)
      (htake : r.take limit count = .ok (taken, r')) : Reached limit b r'

theorem of_take {r r' : Reader} {count : Nat} {taken : Bytes}
    (h : r.take limit count = .ok (taken, r')) :
    r'.bytes = r.bytes ∧ r'.position = r.position + count ∧ r'.position ≤ r.bytes.length := by
  unfold Reader.take at h
  obtain ⟨remaining, -, h⟩ := bind_eq_ok.mp h
  split at h
  · cases h
  obtain ⟨stop, hstop, h⟩ := bind_eq_ok.mp h
  obtain ⟨taken, htaken, h⟩ := bind_eq_ok.mp h
  cases h
  unfold upTo at hstop
  split at hstop <;> cases hstop
  unfold slice at htaken
  split at htaken
  · rename_i hplace
    exact ⟨rfl, rfl, hplace.2⟩
  · cases htaken

theorem Reached.position_le {r : Reader} (h : Reached limit b r) :
    r.bytes = b ∧ r.position ≤ b.length := by
  induction h with
  | start => exact ⟨rfl, Nat.zero_le _⟩
  | take _ htake ih =>
    obtain ⟨hbytes, -, hposition⟩ := of_take htake
    rw [ih.1] at hbytes hposition
    exact ⟨hbytes, hposition⟩

end

/-! ## What the reader finds -/

section

variable {limit : Nat} {b rest : Bytes}

/-- The reader of an input that has the given rest before it. -/
def before (b rest : Bytes) : Reader :=
  ⟨b, b.length - rest.length⟩

/-- The outcome on an input whose rest had the given one. -/
def onRest {α : Type} (b : Bytes) : Except Nat (α × Bytes) → Checked Malformation (α × Reader)
  | .ok (a, rest) => .ok (a, before b rest)
  | .error left => fail (truncated b left)

theorem before_self (b : Bytes) : before b b = ⟨b, 0⟩ := by
  simp [before]

theorem left_before {ε : Type} (h : rest <:+ b) :
    sub b.length (before b rest).position = (.ok rest.length : Checked ε Nat) := by
  unfold before
  rw [sub_ok (Nat.sub_le _ _), Nat.sub_sub_self h.length_le]

theorem remaining_before (h : rest <:+ b) : (before b rest).remaining = .ok rest.length :=
  left_before h

theorem take_before (hb : b.length ≤ limit) {body tail : Bytes} (h : body ++ tail <:+ b) :
    (before b (body ++ tail)).take limit body.length = .ok (body, before b tail) := by
  have hle := h.length_le
  obtain ⟨front, rfl⟩ := h
  have hstart : (front ++ (body ++ tail)).length - (body ++ tail).length = front.length := by simp
  have hstop : (front ++ (body ++ tail)).length - tail.length = front.length + body.length := by
    simp
    omega
  unfold Reader.take
  rw [remaining_before ⟨front, rfl⟩, ok_bind, if_neg (by simp)]
  unfold before
  simp only [hstart, hstop]
  rw [upTo_ok (by simp at hb; omega), ok_bind, slice_append]
  rfl

theorem take_short {count : Nat} (h : rest <:+ b) (hshort : rest.length < count) :
    (before b rest).take limit count = fail (truncated b rest.length) := by
  unfold Reader.take
  rw [remaining_before h, ok_bind, if_pos hshort]
  rfl

theorem takeInt_before (hb : b.length ≤ limit) {head tail : Bytes} (hhead : head.length = 4)
    (h : head ++ tail <:+ b) :
    (before b (head ++ tail)).takeInt limit = .ok (Bytes.toInt head, before b tail) := by
  have htake := take_before hb h
  have hint : headInt head = (.ok (Bytes.toInt head) : Checked Malformation Int) := by
    have happend := headInt_append (ε := Malformation) hhead []
    rwa [List.append_nil] at happend
  rw [hhead] at htake
  unfold Reader.takeInt
  rw [htake, ok_bind]
  simp only [hint, ok_bind, pure_eq]

theorem takeInt_short (h : rest <:+ b) (hshort : rest.length < 4) :
    (before b rest).takeInt limit = fail (truncated b rest.length) := by
  unfold Reader.takeInt
  rw [take_short h hshort, fail_bind]

theorem head_or_short (b : Bytes) :
    (∃ head tail, head.length = 4 ∧ b = head ++ tail) ∨ b.length < 4 := by
  obtain h | h := Nat.lt_or_ge b.length 4
  · exact .inr h
  · exact .inl ⟨b.take 4, b.drop 4, by simp [h], (List.take_append_drop 4 b).symm⟩

theorem takeItem_head {head tail : Bytes} (hhead : head.length = 4) :
    Framing.takeItem (head ++ tail) =
      if Bytes.toInt head < 0 then .ok (none, tail)
      else if tail.length < (Bytes.toInt head).toNat then .error tail.length
      else .ok (some (tail.take (Bytes.toInt head).toNat), tail.drop (Bytes.toInt head).toNat) := by
  obtain ⟨x, y, z, w, rfl⟩ := four_bytes hhead
  simp [Framing.takeItem]

theorem takeItem_of_short (hshort : b.length < 4) : Framing.takeItem b = .error b.length := by
  unfold Framing.takeItem
  split
  · simp at hshort
    omega
  · rfl

theorem takeItem_before (hb : b.length ≤ limit) (h : rest <:+ b) :
    (before b rest).takeItem limit = onRest b (Framing.takeItem rest) := by
  unfold Reader.takeItem
  rcases head_or_short rest with ⟨head, tail, hhead, rfl⟩ | hshort
  · have htail : tail <:+ b := (List.suffix_append head tail).trans h
    rw [takeInt_before hb hhead h, ok_bind, takeItem_head hhead]
    dsimp only
    split
    · rfl
    split
    · rename_i hlength
      rw [take_short htail hlength, fail_bind]
      rfl
    · rename_i hlength
      have hbody : (tail.take (Bytes.toInt head).toNat).length = (Bytes.toInt head).toNat := by
        simp
        omega
      have hjoined :
          tail.take (Bytes.toInt head).toNat ++ tail.drop (Bytes.toInt head).toNat <:+ b := by
        rwa [List.take_append_drop]
      have htake := take_before hb hjoined
      rw [List.take_append_drop, hbody] at htake
      rw [htake]
      rfl
  · rw [takeInt_short h hshort, fail_bind, takeItem_of_short hshort]
    rfl

theorem suffix_of_takeItem {item : Option Bytes} {tail : Bytes}
    (h : Framing.takeItem rest = .ok (item, tail)) : tail <:+ rest := by
  obtain ⟨front, -, rfl⟩ := wire_of_takeItem h
  exact List.suffix_append front tail

theorem takeItems_before (hb : b.length ≤ limit) (count : Nat) (h : rest <:+ b) :
    (before b rest).takeItems limit count = onRest b (Framing.takeItems count rest) := by
  induction count generalizing rest with
  | zero => rfl
  | succ count ih =>
    rw [Reader.takeItems, Framing.takeItems, takeItem_before hb h]
    cases hitem : Framing.takeItem rest with
    | error left => rfl
    | ok taken =>
      obtain ⟨item, tail⟩ := taken
      simp only [onRest, ok_bind, ih ((suffix_of_takeItem hitem).trans h)]
      cases Framing.takeItems count tail <;> rfl

theorem finish_before (h : rest <:+ b) :
    (before b rest).finish = if rest = [] then .ok () else fail (.trailing rest.length) := by
  unfold Reader.finish
  rw [remaining_before h, ok_bind]
  simp only [List.length_eq_zero_iff]
  rfl

theorem takeAll_before (hb : b.length ≤ limit) {turns : Nat} (hturns : rest.length < 4 * turns)
    (h : rest <:+ b) :
    (before b rest).takeAll limit turns =
      match Framing.takeAll rest with
      | .ok items => .ok items
      | .error left => fail (truncated b left) := by
  -- The loop ends before its turns do, since each item takes four bytes.
  induction turns generalizing rest with
  | zero => omega
  | succ turns ih =>
    unfold Reader.takeAll
    rw [remaining_before h, ok_bind]
    cases rest with
    | nil =>
      rw [Framing.takeAll]
      rfl
    | cons x xs =>
      rw [if_neg (by simp), takeItem_before hb h]
      cases hitem : Framing.takeItem (x :: xs) with
      | error left =>
        rw [takeAll_of_short hitem]
        rfl
      | ok taken =>
        obtain ⟨item, tail⟩ := taken
        obtain ⟨front, hfront, hsplit⟩ := wire_of_takeItem hitem
        have hfour := hfront.length_ge
        have hlength := congrArg List.length hsplit
        rw [List.length_append] at hlength
        rw [takeAll_of_takeItem hitem]
        simp only [onRest, ok_bind, ih (by omega) ((suffix_of_takeItem hitem).trans h)]
        cases Framing.takeAll tail <;> rfl

/-! ## Whole bodies -/

theorem announce_head {perEntry : Nat} {head tail : Bytes} (hhead : head.length = 4)
    (hsplit : b = head ++ tail) :
    announce perEntry b =
      if Bytes.toInt head < 0 then .error (.negativeSize (Bytes.toInt head))
      else if tail.length / 4 < (Bytes.toInt head).toNat * perEntry then
        .error (.oversize (Bytes.toInt head).toNat b.length)
      else .ok ((Bytes.toInt head).toNat * perEntry, tail) := by
  obtain ⟨x, y, z, w, rfl⟩ := four_bytes hhead
  subst hsplit
  simp [announce]

theorem room_le_limit {perEntry : Nat} (hper : perEntry ≤ 2) (hlimit : 2 ^ 32 - 1 ≤ limit)
    {head : Bytes} (hhead : head.length = 4) : (Bytes.toInt head).toNat * perEntry ≤ limit := by
  have hcount := (Bytes.toInt_bounds head).2
  rw [hhead] at hcount
  have hle : (Bytes.toInt head).toNat * perEntry ≤ (Bytes.toInt head).toNat * 2 :=
    Nat.mul_le_mul_left _ hper
  omega

theorem readCollection_eq_lift {perEntry : Nat} (hper : perEntry ≤ 2) (hlimit : 2 ^ 32 - 1 ≤ limit)
    (hb : b.length ≤ limit) :
    readCollection limit perEntry b = lift (Framing.readCollection perEntry b) := by
  by_cases hne : b = []
  · rw [hne]
    rfl
  have hempty : b.isEmpty = false := by simpa using hne
  rw [Framing.readCollection_eq hne]
  unfold readCollection
  simp only [hempty, Bool.false_eq_true, if_false, ← before_self b]
  rcases head_or_short b with ⟨head, tail, hhead, hsplit⟩ | hshort
  · have htail : tail <:+ b := ⟨head, hsplit.symm⟩
    have hint : (before b b).takeInt limit = .ok (Bytes.toInt head, before b tail) := by
      have hjoined : head ++ tail <:+ b := by rw [← hsplit]
      have h := takeInt_before hb hhead hjoined
      rwa [← hsplit] at h
    rw [hint, announce_head hhead hsplit, ok_bind]
    dsimp only
    split
    · rfl
    rw [upTo_ok (room_le_limit hper hlimit hhead), ok_bind, remaining_before htail, ok_bind]
    split
    · rfl
    rw [takeItems_before hb _ htail, ok_bind]
    dsimp only
    cases hitems : Framing.takeItems ((Bytes.toInt head).toNat * perEntry) tail with
    | error left => rfl
    | ok taken =>
      obtain ⟨items, more⟩ := taken
      obtain ⟨-, front, -, hfront⟩ := wire_of_takeItems hitems
      have hmore : more <:+ b := List.IsSuffix.trans ⟨front, hfront.symm⟩ htail
      simp only [onRest, ok_bind, finish_before hmore]
      cases more <;> rfl
  · have hannounce : announce perEntry b = .error (truncated b b.length) := by
      unfold announce
      split
      · simp at hshort
        omega
      · rfl
    rw [takeInt_short (List.suffix_refl b) hshort, hannounce, fail_bind]
    rfl

theorem readStructure_eq_lift (hb : b.length ≤ limit) :
    readStructure limit b = lift (Framing.readStructure b) := by
  unfold readStructure Framing.readStructure
  rw [← before_self, takeAll_before hb (by omega) (List.suffix_refl b)]
  cases Framing.takeAll b <;> rfl

end

end WideRow.InPlace
