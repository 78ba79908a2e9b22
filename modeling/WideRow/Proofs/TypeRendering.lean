import Mathlib
import WideRow.Proofs.TypeGrammar

/-!
# Names of types, read back

A type is read back from its own name exactly when nothing in it is out of the grammar's reach: a
user-defined type, a tuple of nothing, or a class with a single quote in its name.
-/

namespace WideRow

namespace TypeToken

/-! ## Writing tokens -/

/-- What stands here does not go on with a word. -/
def EndsWord (cs : List Char) : Prop :=
  ∀ x ∈ cs.head?, Text.isWordChar x = false

/-- A text is written in tokens, whatever comes after it, unless that goes on with its last word. -/
def Writes (ts : List TypeToken) (cs : List Char) : Prop :=
  ∀ us ds, EndsWord ds → Spells us ds → Spells (ts ++ us) (cs ++ ds)

theorem endsWord_cons {c : Char} (h : Text.isWordChar c = false) (cs : List Char) :
    EndsWord (c :: cs) := by
  intro x hx
  cases hx
  exact h

theorem writes_word {w : String} (hne : w.toList ≠ []) (hrun : w.toList.all Text.isWordChar = true)
    (hfold : Text.foldCase w = w) : Writes [.word w] w.toList := by
  intro us ds hend rest
  obtain ⟨c, run, hw⟩ := List.exists_cons_of_ne_nil hne
  rw [hw] at hrun ⊢
  have hspelled := Spells.word (List.all_eq_true.mp hrun) hend rest
  rwa [← hw, String.ofList_toList, hfold] at hspelled

theorem writes_className {name : String} (hname : '\'' ∉ name.toList) :
    Writes [.className name] ('\'' :: name.toList ++ ['\'']) := by
  intro us ds _ rest
  have hspelled := Spells.className hname rest
  rw [String.ofList_toList] at hspelled
  simpa using hspelled

theorem Writes.enclosed {w : String} (hword : Writes [.word w] w.toList) {ts : List TypeToken}
    {cs : List Char} (h : Writes ts cs) :
    Writes (.word w :: .opening :: (ts ++ [.closing])) (w.toList ++ '<' :: (cs ++ ['>'])) := by
  intro us ds _ rest
  have hinside : Spells (ts ++ .closing :: us) (cs ++ '>' :: ds) :=
    h _ _ (endsWord_cons rfl _) rest.closing
  simpa using hword _ _ (endsWord_cons rfl _) hinside.opening

theorem Writes.separated {ts us : List TypeToken} {cs ds : List Char} (h : Writes ts cs)
    (more : Writes us ds) : Writes (ts ++ .comma :: us) (cs ++ ',' :: ' ' :: ds) := by
  intro vs es hend rest
  have hmore : Spells (us ++ vs) (' ' :: (ds ++ es)) := .blank rfl (more _ _ hend rest)
  simpa using h _ _ (endsWord_cons rfl _) hmore.comma

theorem quote_not_mem_of_spells {ts : List TypeToken} {cs : List Char} (h : Spells ts cs)
    {name : String} (hname : .className name ∈ ts) : '\'' ∉ name.toList := by
  induction h with
  | done => cases hname
  | blank _ _ ih => exact ih hname
  | className hquote rest ih =>
    rcases List.mem_cons.mp hname with heq | hmem
    · cases heq
      rwa [String.toList_ofList]
    · exact ih hmem
  | word _ _ _ ih | opening _ ih | closing _ ih | comma _ ih =>
    rcases List.mem_cons.mp hname with heq | hmem
    · cases heq
    · exact ih hmem

end TypeToken

namespace ColumnType

open TypeToken

/-! ## What can be read back -/

/-- A type contains itself and whatever its arguments contain. -/
inductive Contains : ColumnType → ColumnType → Prop
  | self (t : ColumnType) : Contains t t
  | argument {t u v : ColumnType} (hu : u ∈ t.arguments) (h : Contains u v) : Contains t v

/-- Whether the grammar has a name for a type with such arguments. -/
def IsReadable : ColumnType → Prop
  | .custom name => '\'' ∉ name.toList
  | .udt _ => False
  | .tuple types => types ≠ []
  | _ => True

theorem readable_iff {t : ColumnType} :
    (∀ u, t.Contains u → u.IsReadable) ↔
      t.IsReadable ∧ ∀ a ∈ t.arguments, ∀ u, a.Contains u → u.IsReadable := by
  constructor
  · intro h
    exact ⟨h t (.self t), fun a ha u hu => h u (.argument ha hu)⟩
  · rintro ⟨hself, harguments⟩ u hu
    cases hu with
    | self => exact hself
    | argument ha h => exact harguments _ ha u h

/-! ## A name is written in the tokens of its type -/

theorem writes_kind (kind : ScalarKind) : Writes [.word kind.name] kind.name.toList := by
  apply writes_word
  · cases kind <;> decide
  · cases kind <;> decide
  · cases kind <;> decide

theorem writes_keyword {w : String} (h : w ∈ keywords) : Writes [.word w] w.toList := by
  simp only [keywords, List.mem_cons, List.not_mem_nil, or_false] at h
  rcases h with rfl | rfl | rfl | rfl | rfl <;> exact writes_word (by decide) (by decide) (by decide)

def Names (t : ColumnType) : Prop :=
  ∃ ts, Derives ts t ∧ Writes ts t.nameChars

/-- The types of a tuple. The first one is derived apart from the others, each of which has a comma
before it. -/
def NamesEach (t : ColumnType) (types : List ColumnType) : Prop :=
  ∃ ts us, Derives ts t ∧ DerivesMore us types ∧ Writes (ts ++ us) (nameCharsEach (t :: types))

theorem Names.enclosed {t : ColumnType} (h : t.Names) {word : String} (hword : word ∈ keywords)
    {u : ColumnType}
    (hderives : ∀ ts, Derives ts t → Derives (.word word :: .opening :: (ts ++ [.closing])) u)
    (hname : u.nameChars = word.toList ++ '<' :: (t.nameChars ++ ['>'])) : u.Names := by
  obtain ⟨ts, derived, written⟩ := h
  refine ⟨_, hderives ts derived, ?_⟩
  rw [hname]
  exact (writes_keyword hword).enclosed written

theorem Names.map {key value : ColumnType} (hkey : key.Names) (hvalue : value.Names) :
    (map key value).Names := by
  obtain ⟨ks, derivedKey, writtenKey⟩ := hkey
  obtain ⟨vs, derivedValue, writtenValue⟩ := hvalue
  refine ⟨_, derivedKey.map derivedValue, ?_⟩
  have hname : (ColumnType.map key value).nameChars =
      "map".toList ++ '<' :: (key.nameChars ++ ',' :: ' ' :: value.nameChars ++ ['>']) := rfl
  have hwritten := (writes_keyword (w := "map") (by decide)).enclosed
    (writtenKey.separated writtenValue)
  rw [hname]
  simpa using hwritten

theorem NamesEach.tuple {t : ColumnType} {types : List ColumnType} (h : t.NamesEach types) :
    (tuple (t :: types)).Names := by
  obtain ⟨ts, us, first, more, written⟩ := h
  refine ⟨_, first.tuple more, ?_⟩
  have hname : (ColumnType.tuple (t :: types)).nameChars =
      "tuple".toList ++ '<' :: (nameCharsEach (t :: types) ++ ['>']) := rfl
  have hwritten := (writes_keyword (w := "tuple") (by decide)).enclosed written
  rw [hname]
  simpa using hwritten

mutual

theorem names_of_readable : ∀ t : ColumnType, (∀ u, t.Contains u → u.IsReadable) → t.Names
  | .scalar kind, _ => ⟨_, .scalar kind, writes_kind kind⟩
  | .custom name, h => ⟨_, .className name, writes_className (readable_iff.mp h).1⟩
  | .list element, h => by
    have helement := names_of_readable element ((readable_iff.mp h).2 element (by simp [arguments]))
    exact helement.enclosed (show "list" ∈ keywords by decide) (fun _ => .list) rfl
  | .set element, h => by
    have helement := names_of_readable element ((readable_iff.mp h).2 element (by simp [arguments]))
    exact helement.enclosed (show "set" ∈ keywords by decide) (fun _ => .set) rfl
  | .map key value, h => by
    have hkey := names_of_readable key ((readable_iff.mp h).2 key (by simp [arguments]))
    have hvalue := names_of_readable value ((readable_iff.mp h).2 value (by simp [arguments]))
    exact hkey.map hvalue
  | .udt _, h => (readable_iff.mp h).1.elim
  | .tuple [], h => absurd rfl (readable_iff.mp h).1
  | .tuple (first :: more), h => by
    have hfirst := names_of_readable first ((readable_iff.mp h).2 first List.mem_cons_self)
    apply NamesEach.tuple
    apply namesEach_of_readable hfirst more
    intro t ht
    exact (readable_iff.mp h).2 t (List.mem_cons_of_mem first ht)

theorem namesEach_of_readable {t : ColumnType} (ht : t.Names) : ∀ types : List ColumnType,
    (∀ u ∈ types, ∀ v, u.Contains v → v.IsReadable) → t.NamesEach types
  | [], _ => by
    obtain ⟨ts, derived, written⟩ := ht
    refine ⟨ts, [], derived, .none, ?_⟩
    rwa [List.append_nil]
  | u :: types, h => by
    obtain ⟨ts, derived, written⟩ := ht
    have hu := names_of_readable u (h u List.mem_cons_self)
    obtain ⟨us, vs, next, more, writtenMore⟩ :=
      namesEach_of_readable hu types fun v hv => h v (List.mem_cons_of_mem u hv)
    exact ⟨ts, _, derived, .more next more, written.separated writtenMore⟩

end

/-! ## Whatever is read can be read back -/

mutual

theorem Derives.readable : ∀ {ts : List TypeToken} {t : ColumnType}, Derives ts t →
    (∀ name, TypeToken.className name ∈ ts → '\'' ∉ name.toList) → ∀ u, t.Contains u → u.IsReadable
  | _, _, .className name, h => readable_iff.mpr ⟨h name List.mem_cons_self, by simp [arguments]⟩
  | _, _, .scalar kind, _ => readable_iff.mpr ⟨trivial, by simp [arguments]⟩
  | _, _, .frozen inner, h => inner.readable fun name hname => h name (by simp [hname])
  | _, _, .list element, h => by
    have helement := element.readable fun name hname => h name (by simp [hname])
    exact readable_iff.mpr ⟨trivial, by simpa [arguments] using helement⟩
  | _, _, .set element, h => by
    have helement := element.readable fun name hname => h name (by simp [hname])
    exact readable_iff.mpr ⟨trivial, by simpa [arguments] using helement⟩
  | _, _, .map key value, h => by
    have hkey := key.readable fun name hname => h name (by simp [hname])
    have hvalue := value.readable fun name hname => h name (by simp [hname])
    exact readable_iff.mpr ⟨trivial, by simpa [arguments] using ⟨hkey, hvalue⟩⟩
  | _, _, .tuple first more, h => by
    have hfirst := first.readable fun name hname => h name (by simp [hname])
    have hmore := more.readable fun name hname => h name (by simp [hname])
    exact readable_iff.mpr ⟨List.cons_ne_nil _ _, List.forall_mem_cons.mpr ⟨hfirst, hmore⟩⟩

theorem DerivesMore.readable : ∀ {ts : List TypeToken} {types : List ColumnType},
    DerivesMore ts types → (∀ name, TypeToken.className name ∈ ts → '\'' ∉ name.toList) →
      ∀ t ∈ types, ∀ u, t.Contains u → u.IsReadable
  | _, _, .none, _ => by simp
  | _, _, .more next more, h => by
    have hnext := next.readable fun name hname => h name (by simp [hname])
    have hmore := more.readable fun name hname => h name (by simp [hname])
    exact List.forall_mem_cons.mpr ⟨hnext, hmore⟩

end

theorem readable_of_parse {text : String} {t : ColumnType} (h : parse text = .ok t) :
    ∀ u, t.Contains u → u.IsReadable := by
  obtain ⟨ts, spelled, derived⟩ := parse_eq_ok.mp h
  exact derived.readable fun name hname => quote_not_mem_of_spells spelled hname

theorem parse_of_readable {t : ColumnType} (h : ∀ u, t.Contains u → u.IsReadable) :
    parse t.name = .ok t := by
  obtain ⟨ts, derived, written⟩ := names_of_readable t h
  refine parse_eq_ok.mpr ⟨ts, ?_, derived⟩
  rw [name, String.toList_ofList]
  simpa using written [] [] (by simp [EndsWord]) .done

/-- A type is read back from its name exactly when neither it nor an argument in it is a
user-defined type, a tuple of nothing or a class with a single quote in its name. So the name of a
type that was read from some text is read as that type again. -/
theorem parse_name (t : ColumnType) :
    (parse t.name = .ok t ↔ ∀ u, t.Contains u → u.IsReadable) ∧
      ∀ text, parse text = .ok t → parse t.name = .ok t := by
  refine ⟨⟨readable_of_parse, parse_of_readable⟩, ?_⟩
  intro text h
  exact parse_of_readable (readable_of_parse h)

theorem parse_name_frozen :
    parse " Map< TEXT,frozen<tuple<'x <y', List<int>>> >" =
        .ok (.map (.scalar .text) (.tuple [.custom "x <y", .list (.scalar .int)])) ∧
      parse (map (.scalar .text) (.tuple [.custom "x <y", .list (.scalar .int)])).name =
        .ok (.map (.scalar .text) (.tuple [.custom "x <y", .list (.scalar .int)])) := by
  have hread : parse " Map< TEXT,frozen<tuple<'x <y', List<int>>> >" =
      .ok (.map (.scalar .text) (.tuple [.custom "x <y", .list (.scalar .int)])) := by cbv
  exact ⟨hread, (parse_name _).2 _ hread⟩

/-- A quote in the name of a class ends it early. -/
example : (tuple [.custom "a', 'b"]).name = "tuple<'a', 'b'>" ∧
    parse "tuple<'a', 'b'>" = .ok (.tuple [.custom "a", .custom "b"]) := ⟨rfl, by cbv⟩

end ColumnType

end WideRow
