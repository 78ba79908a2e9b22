import WideRow.Proofs.Result
import WideRow.Proofs.TypeToken

/-!
# The grammar of type names

A text is written in tokens, and tokens name a type. The reader accepts exactly the texts whose
tokens name a type, and its fuel never runs out.
-/

namespace WideRow

/-! ## Tokens of a type -/

namespace ColumnType

open TypeToken

mutual

/-- The tokens that name a type. -/
inductive Derives : List TypeToken → ColumnType → Prop
  | className (name : String) : Derives [.className name] (.custom name)
  | scalar (kind : ScalarKind) : Derives [.word kind.name] (.scalar kind)
  | frozen {ts : List TypeToken} {t : ColumnType} (inner : Derives ts t) :
      Derives (.word "frozen" :: .opening :: (ts ++ [.closing])) t
  | list {ts : List TypeToken} {t : ColumnType} (element : Derives ts t) :
      Derives (.word "list" :: .opening :: (ts ++ [.closing])) (.list t)
  | set {ts : List TypeToken} {t : ColumnType} (element : Derives ts t) :
      Derives (.word "set" :: .opening :: (ts ++ [.closing])) (.set t)
  | map {ks vs : List TypeToken} {k v : ColumnType} (key : Derives ks k) (value : Derives vs v) :
      Derives (.word "map" :: .opening :: (ks ++ .comma :: (vs ++ [.closing]))) (.map k v)
  | tuple {ts us : List TypeToken} {t : ColumnType} {types : List ColumnType}
      (first : Derives ts t) (more : DerivesMore us types) :
      Derives (.word "tuple" :: .opening :: (ts ++ (us ++ [.closing]))) (.tuple (t :: types))

/-- The tokens that name further types, with a comma before each. -/
inductive DerivesMore : List TypeToken → List ColumnType → Prop
  | none : DerivesMore [] []
  | more {ts us : List TypeToken} {t : ColumnType} {types : List ColumnType}
      (next : Derives ts t) (more : DerivesMore us types) :
      DerivesMore (.comma :: (ts ++ us)) (t :: types)

end

/-- A text that is written in the tokens of a type. -/
def IsNamed (text : String) (t : ColumnType) : Prop :=
  ∃ ts, Spells ts text.toList ∧ Derives ts t

/-! ## One step of the reader -/

def keywords : List String :=
  ["frozen", "list", "set", "map", "tuple"]

/-- Reads a type between angle brackets. -/
def enclosed (body : List TypeToken → Except TypeNameFault (ColumnType × List TypeToken))
    (tokens : List TypeToken) : Except TypeNameFault (ColumnType × List TypeToken) := do
  let (type, rest) ← body (← expect .opening tokens)
  return (type, ← expect .closing rest)

/-- What is read between the angle brackets after a keyword. -/
def readBody (fuel : Nat) (word : String) (tokens : List TypeToken) :
    Except TypeNameFault (ColumnType × List TypeToken) :=
  if word = "frozen" then readType fuel tokens
  else if word = "list" then do
    let (element, rest) ← readType fuel tokens
    return (.list element, rest)
  else if word = "set" then do
    let (element, rest) ← readType fuel tokens
    return (.set element, rest)
  else if word = "map" then do
    let (key, rest) ← readType fuel tokens
    let (value, rest) ← readType fuel (← expect .comma rest)
    return (.map key value, rest)
  else do
    let (first, rest) ← readType fuel tokens
    let (more, rest) ← readMore fuel rest
    return (.tuple (first :: more), rest)

theorem readType_keyword {word : String} (h : word ∈ keywords) (fuel : Nat) (rest : List TypeToken) :
    readType (fuel + 1) (.word word :: rest) = enclosed (readBody fuel word) rest := by
  simp only [keywords, List.mem_cons, List.not_mem_nil, or_false] at h
  rcases h with rfl | rfl | rfl | rfl | rfl <;> simp [readType, enclosed, readBody]

theorem readType_word {word : String} (h : word ∉ keywords) (fuel : Nat) (rest : List TypeToken) :
    readType (fuel + 1) (.word word :: rest) = (ofWord word).map fun t => (t, rest) := by
  simp only [keywords, List.mem_cons, List.not_mem_nil, or_false, not_or] at h
  obtain ⟨hfrozen, hlist, hset, hmap, htuple⟩ := h
  simp only [readType, hfrozen, hlist, hset, hmap, htuple, if_false]
  rfl

theorem expect_eq_ok {token : TypeToken} {tokens rest : List TypeToken} :
    expect token tokens = .ok rest ↔ tokens = token :: rest := by
  cases tokens with
  | nil => simp [expect]
  | cons next tokens =>
    by_cases h : next = token
    · simp [expect, h]
    · simp [expect, h]

theorem enclosed_eq_ok {body : List TypeToken → Except TypeNameFault (ColumnType × List TypeToken)}
    {tokens rest : List TypeToken} {t : ColumnType} :
    enclosed body tokens = .ok (t, rest) ↔
      ∃ inside, tokens = .opening :: inside ∧ body inside = .ok (t, .closing :: rest) := by
  unfold enclosed
  simp only [Result.bind_eq_ok, expect_eq_ok, Result.pure_eq, Except.ok.injEq, Prod.mk.injEq]
  constructor
  · rintro ⟨inside, rfl, ⟨u, mid⟩, hbody, after, hmid, rfl, rfl⟩
    exact ⟨inside, rfl, hmid ▸ hbody⟩
  · rintro ⟨inside, rfl, hbody⟩
    exact ⟨inside, rfl, (t, .closing :: rest), hbody, rest, rfl, rfl, rfl⟩

theorem readType_enclosed {word : String} (hword : word ∈ keywords) {fuel : Nat}
    {inside rest : List TypeToken} {t : ColumnType}
    (h : readBody fuel word inside = .ok (t, .closing :: rest)) :
    readType (fuel + 1) (.word word :: .opening :: inside) = .ok (t, rest) := by
  rw [readType_keyword hword, enclosed_eq_ok]
  exact ⟨inside, rfl, h⟩

section

variable {fuel : Nat} {tokens rest : List TypeToken} {t : ColumnType}

theorem readBody_list :
    readBody fuel "list" tokens = .ok (t, rest) ↔
      ∃ element, readType fuel tokens = .ok (element, rest) ∧ .list element = t := by
  simp [readBody, Result.bind_eq_ok, Result.pure_eq]

theorem readBody_set :
    readBody fuel "set" tokens = .ok (t, rest) ↔
      ∃ element, readType fuel tokens = .ok (element, rest) ∧ .set element = t := by
  simp [readBody, Result.bind_eq_ok, Result.pure_eq]

theorem readBody_map :
    readBody fuel "map" tokens = .ok (t, rest) ↔
      ∃ key mid, readType fuel tokens = .ok (key, .comma :: mid) ∧
        ∃ value, readType fuel mid = .ok (value, rest) ∧ .map key value = t := by
  have hsteps : readBody fuel "map" tokens = .ok (t, rest) ↔
      ∃ key next, readType fuel tokens = .ok (key, next) ∧
        ∃ mid, expect .comma next = .ok mid ∧
          ∃ value, readType fuel mid = .ok (value, rest) ∧ .map key value = t := by
    simp [readBody, Result.bind_eq_ok, Result.pure_eq]
  rw [hsteps]
  constructor
  · rintro ⟨key, next, hkey, mid, hcomma, hvalue⟩
    rw [expect_eq_ok] at hcomma
    subst hcomma
    exact ⟨key, mid, hkey, hvalue⟩
  · rintro ⟨key, mid, hkey, hvalue⟩
    exact ⟨key, _, hkey, mid, expect_eq_ok.mpr rfl, hvalue⟩

theorem readBody_tuple :
    readBody fuel "tuple" tokens = .ok (t, rest) ↔
      ∃ first mid, readType fuel tokens = .ok (first, mid) ∧
        ∃ more, readMore fuel mid = .ok (more, rest) ∧ .tuple (first :: more) = t := by
  simp [readBody, Result.bind_eq_ok, Result.pure_eq]

theorem readMore_comma {types : List ColumnType} :
    readMore (fuel + 1) (.comma :: tokens) = .ok (types, rest) ↔
      ∃ next mid, readType fuel tokens = .ok (next, mid) ∧
        ∃ more, readMore fuel mid = .ok (more, rest) ∧ next :: more = types := by
  simp [readMore, Result.bind_eq_ok, Result.pure_eq]

theorem readMore_other (h : tokens.head? ≠ some .comma) :
    readMore (fuel + 1) tokens = .ok ([], tokens) := by
  cases tokens with
  | nil => rfl
  | cons token tokens =>
    cases token with
    | comma => exact absurd rfl h
    | _ => rfl

end

theorem ofWord_name (kind : ScalarKind) : ofWord kind.name = .ok (.scalar kind) := by
  cases kind <;> rfl

theorem ofWord_eq_ok {word : String} {t : ColumnType} :
    ofWord word = .ok t ↔ ∃ kind : ScalarKind, kind.name = word ∧ t = .scalar kind := by
  constructor
  · intro h
    unfold ofWord at h
    split at h
    · rename_i kind hfind
      cases h
      exact ⟨kind, by simpa using List.find?_some hfind, rfl⟩
    · cases h
  · rintro ⟨kind, rfl, rfl⟩
    exact ofWord_name kind

theorem name_not_keyword (kind : ScalarKind) : kind.name ∉ keywords := by
  cases kind <;> decide

/-! ## Everything that is read is derived -/

/-- A reader of types takes tokens of a type off the front. -/
def Sound (fuel : Nat) : Prop :=
  (∀ tokens t rest, readType fuel tokens = .ok (t, rest) →
      ∃ front, tokens = front ++ rest ∧ Derives front t) ∧
    ∀ tokens types rest, readMore fuel tokens = .ok (types, rest) →
      ∃ front, tokens = front ++ rest ∧ DerivesMore front types

theorem Sound.readBody {fuel : Nat} (ih : Sound fuel) {word : String} (hword : word ∈ keywords)
    {tokens rest : List TypeToken} {t : ColumnType}
    (h : readBody fuel word tokens = .ok (t, rest)) :
    ∃ front, tokens = front ++ rest ∧
      Derives (.word word :: .opening :: (front ++ [.closing])) t := by
  obtain ⟨ihType, ihMore⟩ := ih
  simp only [keywords, List.mem_cons, List.not_mem_nil, or_false] at hword
  rcases hword with rfl | rfl | rfl | rfl | rfl
  · obtain ⟨front, rfl, inner⟩ := ihType _ _ _ h
    exact ⟨front, rfl, .frozen inner⟩
  · obtain ⟨_, helement, rfl⟩ := readBody_list.mp h
    obtain ⟨front, rfl, element⟩ := ihType _ _ _ helement
    exact ⟨front, rfl, .list element⟩
  · obtain ⟨_, helement, rfl⟩ := readBody_set.mp h
    obtain ⟨front, rfl, element⟩ := ihType _ _ _ helement
    exact ⟨front, rfl, .set element⟩
  · obtain ⟨_, _, hkey, _, hvalue, rfl⟩ := readBody_map.mp h
    obtain ⟨ks, rfl, key⟩ := ihType _ _ _ hkey
    obtain ⟨vs, rfl, value⟩ := ihType _ _ _ hvalue
    exact ⟨ks ++ .comma :: vs, by simp, by simpa using key.map value⟩
  · obtain ⟨_, _, hfirst, _, hmore, rfl⟩ := readBody_tuple.mp h
    obtain ⟨ts, rfl, first⟩ := ihType _ _ _ hfirst
    obtain ⟨us, rfl, more⟩ := ihMore _ _ _ hmore
    exact ⟨ts ++ us, by simp, by simpa using first.tuple more⟩

theorem sound (fuel : Nat) : Sound fuel := by
  induction fuel with
  | zero => exact ⟨nofun, nofun⟩
  | succ fuel ih =>
    constructor
    · intro tokens t rest h
      match tokens with
      | .className name :: _ =>
        cases h
        exact ⟨[.className name], rfl, .className name⟩
      | .word w :: after =>
        by_cases hword : w ∈ keywords
        · rw [readType_keyword hword, enclosed_eq_ok] at h
          obtain ⟨inside, rfl, hbody⟩ := h
          obtain ⟨front, rfl, derived⟩ := ih.readBody hword hbody
          exact ⟨_, by simp, derived⟩
        · rw [readType_word hword] at h
          obtain ⟨_, hkind, heq⟩ := Result.map_eq_ok.mp h
          obtain ⟨kind, rfl, rfl⟩ := ofWord_eq_ok.mp hkind
          cases heq
          exact ⟨[.word kind.name], rfl, .scalar kind⟩
      | [] | .unclosed :: _ | .opening :: _ | .closing :: _ | .comma :: _ | .stray :: _ => cases h
    · intro tokens types rest h
      by_cases hcomma : tokens.head? = some .comma
      · obtain ⟨after, rfl⟩ := List.head?_eq_some_iff.mp hcomma
        obtain ⟨_, _, hnext, _, hmore, rfl⟩ := readMore_comma.mp h
        obtain ⟨ts, rfl, next⟩ := ih.1 _ _ _ hnext
        obtain ⟨us, rfl, more⟩ := ih.2 _ _ _ hmore
        exact ⟨.comma :: (ts ++ us), by simp, DerivesMore.more next more⟩
      · rw [readMore_other hcomma] at h
        cases h
        exact ⟨[], rfl, .none⟩

/-! ## Everything that is derived is read -/

mutual

theorem Derives.read {ts : List TypeToken} {t : ColumnType} (h : Derives ts t) {fuel : Nat}
    (hfuel : ts.length < fuel) (rest : List TypeToken) :
    readType fuel (ts ++ rest) = .ok (t, rest) := by
  obtain ⟨fuel, rfl⟩ := Nat.exists_eq_add_one_of_ne_zero (Nat.ne_zero_of_lt hfuel)
  cases h with
  | className name => rfl
  | scalar kind =>
    rw [List.singleton_append, readType_word (name_not_keyword kind), ofWord_name]
    rfl
  | frozen inner =>
    simp only [List.length_cons, List.length_append] at hfuel
    rw [List.cons_append, List.cons_append, List.append_assoc]
    exact readType_enclosed (by decide) (inner.read (by omega) _)
  | list element =>
    simp only [List.length_cons, List.length_append] at hfuel
    rw [List.cons_append, List.cons_append, List.append_assoc]
    exact readType_enclosed (by decide) (readBody_list.mpr ⟨_, element.read (by omega) _, rfl⟩)
  | set element =>
    simp only [List.length_cons, List.length_append] at hfuel
    rw [List.cons_append, List.cons_append, List.append_assoc]
    exact readType_enclosed (by decide) (readBody_set.mpr ⟨_, element.read (by omega) _, rfl⟩)
  | map key value =>
    simp only [List.length_cons, List.length_append] at hfuel
    simp only [List.cons_append, List.append_assoc]
    refine readType_enclosed (by decide) (readBody_map.mpr ⟨_, _, key.read (by omega) _, ?_⟩)
    exact ⟨_, value.read (by omega) _, rfl⟩
  | tuple first more =>
    simp only [List.length_cons, List.length_append] at hfuel
    simp only [List.cons_append, List.append_assoc]
    refine readType_enclosed (by decide) (readBody_tuple.mpr ⟨_, _, first.read (by omega) _, ?_⟩)
    exact ⟨_, more.read (by omega) (by simp), rfl⟩

theorem DerivesMore.read {ts : List TypeToken} {types : List ColumnType} (h : DerivesMore ts types)
    {fuel : Nat} (hfuel : ts.length < fuel) {rest : List TypeToken}
    (hrest : rest.head? ≠ some .comma) : readMore fuel (ts ++ rest) = .ok (types, rest) := by
  obtain ⟨fuel, rfl⟩ := Nat.exists_eq_add_one_of_ne_zero (Nat.ne_zero_of_lt hfuel)
  cases h with
  | none => exact readMore_other hrest
  | more next more =>
    simp only [List.length_cons, List.length_append] at hfuel
    rw [List.cons_append, List.append_assoc]
    refine readMore_comma.mpr ⟨_, _, next.read (by omega) _, ?_⟩
    exact ⟨_, more.read (by omega) hrest, rfl⟩

end

/-! ## The fuel never runs out -/

theorem Derives.length_pos {ts : List TypeToken} {t : ColumnType} (h : Derives ts t) :
    0 < ts.length := by
  cases h <;> simp

theorem length_of_readType {fuel : Nat} {tokens rest : List TypeToken} {t : ColumnType}
    (h : readType fuel tokens = .ok (t, rest)) : rest.length < tokens.length := by
  obtain ⟨front, rfl, derived⟩ := (sound fuel).1 _ _ _ h
  have := derived.length_pos
  rw [List.length_append]
  omega

/-- More fuel than the tokens need changes nothing, errors included. -/
def Settled (fuel : Nat) : Prop :=
  (∀ tokens, tokens.length < fuel → readType (fuel + 1) tokens = readType fuel tokens) ∧
    ∀ tokens, tokens.length < fuel → readMore (fuel + 1) tokens = readMore fuel tokens

theorem enclosed_congr
    {body body' : List TypeToken → Except TypeNameFault (ColumnType × List TypeToken)}
    {tokens : List TypeToken} (h : ∀ inside, tokens = .opening :: inside → body inside = body' inside) :
    enclosed body tokens = enclosed body' tokens := by
  unfold enclosed
  apply Result.bind_congr_ok
  intro inside hinside
  rw [h inside (expect_eq_ok.mp hinside)]

theorem Settled.readBody {fuel : Nat} (ih : Settled fuel) (word : String) {tokens : List TypeToken}
    (h : tokens.length < fuel) : readBody (fuel + 1) word tokens = readBody fuel word tokens := by
  unfold ColumnType.readBody
  rw [ih.1 tokens h]
  split
  · rfl
  split
  · rfl
  split
  · rfl
  split
  · apply Result.bind_congr_ok
    rintro ⟨key, mid⟩ hkey
    apply Result.bind_congr_ok
    intro after hafter
    have := length_of_readType hkey
    rw [expect_eq_ok.mp hafter, List.length_cons] at this
    rw [ih.1 after (by omega)]
  · apply Result.bind_congr_ok
    rintro ⟨first, mid⟩ hfirst
    have := length_of_readType hfirst
    simp only [ih.2 mid (by omega)]

theorem settled (fuel : Nat) : Settled fuel := by
  induction fuel with
  | zero => exact ⟨nofun, nofun⟩
  | succ fuel ih =>
    constructor
    · intro tokens h
      match tokens with
      | .word w :: after =>
        by_cases hword : w ∈ keywords
        · rw [readType_keyword hword, readType_keyword hword]
          apply enclosed_congr
          rintro inside rfl
          simp only [List.length_cons] at h
          exact ih.readBody w (by omega)
        · rw [readType_word hword, readType_word hword]
      | [] | .className _ :: _ | .unclosed :: _ | .opening :: _ | .closing :: _ | .comma :: _
      | .stray :: _ => rfl
    · intro tokens h
      by_cases hcomma : tokens.head? = some .comma
      · obtain ⟨after, rfl⟩ := List.head?_eq_some_iff.mp hcomma
        simp only [List.length_cons] at h
        rw [readMore, readMore, ih.1 after (by omega)]
        apply Result.bind_congr_ok
        rintro ⟨next, mid⟩ hnext
        have := length_of_readType hnext
        simp only [ih.2 mid (by omega)]
      · rw [readMore_other hcomma, readMore_other hcomma]

theorem readType_add {fuel : Nat} {tokens : List TypeToken} (h : tokens.length < fuel) (extra : Nat) :
    readType (fuel + extra) tokens = readType fuel tokens := by
  induction extra with
  | zero => rfl
  | succ extra ih => rw [← Nat.add_assoc, (settled (fuel + extra)).1 tokens (by omega), ih]

/-! ## Parsing -/

theorem ofTokens_eq_ok {ts : List TypeToken} {t : ColumnType} :
    ofTokens ts = .ok t ↔ Derives ts t := by
  unfold ofTokens
  rw [Result.bind_eq_ok]
  constructor
  · rintro ⟨⟨u, rest⟩, hread, h⟩
    obtain ⟨front, rfl, derived⟩ := (sound _).1 _ _ _ hread
    cases rest with
    | nil =>
      cases h
      rwa [List.append_nil]
    | cons token rest => cases h
  · intro derived
    refine ⟨(t, []), ?_, rfl⟩
    simpa using derived.read (Nat.lt_succ_self _) []

mutual

theorem Derives.not_fault : ∀ {ts : List TypeToken} {t : ColumnType}, Derives ts t →
    ts.any isFault = false
  | _, _, .className _ | _, _, .scalar _ => rfl
  | _, _, .frozen inner | _, _, .list inner | _, _, .set inner => by
    simp [isFault, inner.not_fault]
  | _, _, .map key value => by simp [isFault, key.not_fault, value.not_fault]
  | _, _, .tuple first more => by simp [isFault, first.not_fault, more.not_fault]

theorem DerivesMore.not_fault : ∀ {ts : List TypeToken} {types : List ColumnType},
    DerivesMore ts types → ts.any isFault = false
  | _, _, .none => rfl
  | _, _, .more next more => by simp [isFault, next.not_fault, more.not_fault]

end

theorem parse_eq_ok {text : String} {t : ColumnType} : parse text = .ok t ↔ IsNamed text t := by
  have hparse : parse text = .ok t ↔ ofTokens (scan text.toList) = .ok t := by
    unfold parse
    cases ofTokens (scan text.toList) with
    | error fault => exact ⟨nofun, nofun⟩
    | ok u =>
      constructor
      · intro h
        cases h
        rfl
      · intro h
        cases h
        rfl
  rw [hparse, ofTokens_eq_ok]
  constructor
  · intro derived
    exact ⟨_, spells_scan derived.not_fault, derived⟩
  · rintro ⟨ts, spelled, derived⟩
    rwa [scan_of_spells spelled]

theorem unknownType_of_parse {text : String} {e : ClientError} (h : parse text = .error e) :
    ∃ word, e = .unknownType word := by
  unfold parse at h
  cases hread : ofTokens (scan text.toList) with
  | ok t =>
    rw [hread] at h
    cases h
  | error fault =>
    rw [hread] at h
    cases h
    cases fault with
    | unknownWord word => exact ⟨word, rfl⟩
    | malformed => exact ⟨text, rfl⟩

/-- The reader accepts exactly the texts that are written in the tokens of a type. Any other text
is an unknown type, and no text needs more fuel than it is read with. -/
theorem parse_accepts_grammar (text : String) :
    (∀ t, parse text = .ok t ↔ IsNamed text t) ∧
      ((∃ t, IsNamed text t) ∨ ∃ word, parse text = .error (.unknownType word)) ∧
      ∀ extra, readType ((scan text.toList).length + 1 + extra) (scan text.toList) =
        readType ((scan text.toList).length + 1) (scan text.toList) := by
  refine ⟨fun t => parse_eq_ok, ?_, readType_add (Nat.lt_succ_self _)⟩
  cases h : parse text with
  | ok t => exact .inl ⟨t, parse_eq_ok.mp h⟩
  | error e =>
    obtain ⟨word, rfl⟩ := unknownType_of_parse h
    exact .inr ⟨word, rfl⟩

example : parse " Map< TEXT,frozen<list<'x <y'>> > " =
    .ok (.map (.scalar .text) (.list (.custom "x <y"))) := by cbv

/-- A keyword without arguments names no type. -/
example : parse "tuple<int, list>" = .error (.unknownType "tuple<int, list>") := by cbv

end ColumnType

end WideRow
