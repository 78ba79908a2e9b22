import WideRow.Bytes

/-!
# UTF-8

Bytes are cut into segments: a character, or a stretch that starts no character. A stretch is the
longest run that could still have become a character, so it is one to three bytes long, and the end
of the input may cut a character short. The strict reading refuses the first such stretch and says
where it stands; the lenient reading puts a replacement character in place of each.
-/

namespace WideRow.Text.Utf8

def encode (s : String) : Bytes :=
  s.toList.flatMap String.utf8EncodeChar

/-- One piece of a byte string read as UTF-8. -/
inductive Segment where
  | character (c : Char)
  /-- That many bytes that no character starts with. -/
  | malformed (length : Nat)
  /-- The input ends inside a character. -/
  | cutShort
  deriving DecidableEq, Repr

/-- Why bytes are no UTF-8 text, with the index of the first byte at fault. -/
inductive Fault where
  | malformed (length index : Nat)
  | cutShort (index : Nat)
  deriving DecidableEq, Repr

def Fault.message : Fault → String
  | .malformed length index => s!"invalid utf-8 sequence of {length} bytes from index {index}"
  | .cutShort index => s!"incomplete utf-8 byte sequence from index {index}"

/-- A byte that may follow the second byte of a character. -/
def isTail (b : UInt8) : Bool :=
  0x80 ≤ b && b ≤ 0xBF

/-- The second bytes that may follow a first one. They leave out overlong forms, surrogates and
numbers above the last character. -/
def isSecond (first second : UInt8) : Bool :=
  if first == 0xE0 then 0xA0 ≤ second && second ≤ 0xBF
  else if first == 0xED then 0x80 ≤ second && second ≤ 0x9F
  else if first == 0xF0 then 0x90 ≤ second && second ≤ 0xBF
  else if first == 0xF4 then 0x80 ≤ second && second ≤ 0x8F
  else isTail second

/-- The payload of a byte that is not the first of its character. -/
def tailBits (b : UInt8) : Nat :=
  b.toNat % 64

/-- Cuts a byte string into characters and stretches that start none. -/
def segments : Bytes → List Segment
  | [] => []
  | a :: rest =>
    if a < 0x80 then
      .character (Char.ofNat a.toNat) :: segments rest
    else if a < 0xC2 || 0xF4 < a then
      .malformed 1 :: segments rest
    else
      match rest with
      | [] => [.cutShort]
      | b :: rest₂ =>
        if !isSecond a b then
          .malformed 1 :: segments (b :: rest₂)
        else if a < 0xE0 then
          .character (Char.ofNat (a.toNat % 32 * 64 + tailBits b)) :: segments rest₂
        else
          match rest₂ with
          | [] => [.cutShort]
          | c :: rest₃ =>
            if !isTail c then
              .malformed 2 :: segments (c :: rest₃)
            else if a < 0xF0 then
              .character (Char.ofNat ((a.toNat % 16 * 64 + tailBits b) * 64 + tailBits c))
                :: segments rest₃
            else
              match rest₃ with
              | [] => [.cutShort]
              | d :: rest₄ =>
                if !isTail d then
                  .malformed 3 :: segments (d :: rest₄)
                else
                  .character
                    (Char.ofNat
                      (((a.toNat % 8 * 64 + tailBits b) * 64 + tailBits c) * 64 + tailBits d))
                    :: segments rest₄
  termination_by structural b => b

/-- The characters of a segment sequence that starts at byte `index`, if it has nothing else. -/
def charactersFrom (index : Nat) : List Segment → Except Fault (List Char)
  | [] => .ok []
  | .character c :: rest => (charactersFrom (index + c.utf8Size) rest).map (c :: ·)
  | .malformed length :: _ => .error (.malformed length index)
  | .cutShort :: _ => .error (.cutShort index)

/-- The text that the bytes encode, or what is wrong with them. -/
def decode (b : Bytes) : Except Fault String :=
  (charactersFrom 0 (segments b)).map String.ofList

/-- The character that stands for bytes without a meaning. -/
def replacement : Char := '\uFFFD'

/-- The characters of the bytes, with one replacement for each stretch that is none. -/
def decodeLenient (b : Bytes) : List Char :=
  (segments b).map fun
    | .character c => c
    | _ => replacement

end WideRow.Text.Utf8
