import WideRow.Proofs.Rewrite
import WideRow.Row.Cell

/-!
# Typed reads

A cell has one general read, `object`, and a read for each client type. On present bytes of a type
that it serves, a typed read has the value or the error of the general one, never a reading of its
own. Elsewhere all of them do the same, but for the order of two checks: collections and structures
look at the type before they look for bytes.
-/

namespace WideRow.Cell

open Result

/-! ## One read following another -/

section Follows

variable {α β : Type}

/-- The typed answer shows the value of the general answer, or has its error. -/
structure Follows (shows : Value → α → Prop) (general : Result Value) (typed : Result α) : Prop where
  ok_iff (a : α) : typed = .ok a ↔ ∃ v, general = .ok v ∧ shows v a
  error_iff (e : ClientError) : typed = .error e ↔ general = .error e

theorem follows_map {shows : Value → β → Prop} (hunique : Relator.RightUnique shows)
    {wrap : α → Value} {narrow : α → β} (h : ∀ x, shows (wrap x) (narrow x)) (r : Result α) :
    Follows shows (wrap <$> r) (narrow <$> r) := by
  constructor
  · intro b
    rw [map_eq_ok]
    constructor
    · rintro ⟨x, rfl, rfl⟩
      exact ⟨wrap x, rfl, h x⟩
    · rintro ⟨v, hv, hb⟩
      obtain ⟨x, hx, rfl⟩ := map_eq_ok.mp hv
      exact ⟨x, hx, hunique (h x) hb⟩
  · intro e
    rw [map_eq_error, map_eq_error]

theorem follows_self {shows : Value → α → Prop} (hunique : Relator.RightUnique shows)
    {wrap : α → Value} (h : ∀ x, shows (wrap x) x) (r : Result α) :
    Follows shows (wrap <$> r) r := by
  have hmap : Follows shows (wrap <$> r) (id <$> r) := follows_map hunique h r
  rwa [id_map] at hmap

theorem follows_part {shows : Value → β → Prop} (hunique : Relator.RightUnique shows)
    {part : Value → β} {general : Result Value}
    (h : ∀ v, general = .ok v → shows v (part v)) : Follows shows general (part <$> general) := by
  constructor
  · intro b
    rw [map_eq_ok]
    constructor
    · rintro ⟨v, rfl, rfl⟩
      exact ⟨v, rfl, h v rfl⟩
    · rintro ⟨v, rfl, hb⟩
      exact ⟨v, rfl, hunique (h v rfl) hb⟩
  · intro e
    rw [map_eq_error]

end Follows

/-! ## What typed reads show -/

/-- The content itself. -/
def Shows {α : Type} (wrap : α → Value) (v : Value) (a : α) : Prop :=
  v = wrap a

/-- The content itself, of a read that has nothing to show of a null cell. -/
def ShowsSome {α : Type} (wrap : α → Value) (v : Value) (o : Option α) : Prop :=
  ∃ a, v = wrap a ∧ o = some a

inductive ShowsShort : Value → Int16 → Prop
  | smallint (i : Int16) : ShowsShort (.smallint i) i
  | tinyint (i : Int8) : ShowsShort (.tinyint i) i.toInt16

/-- A varint is a decimal without fraction digits. -/
inductive ShowsDecimal : Value → Option Decimal → Prop
  | decimal (d : Decimal) : ShowsDecimal (.decimal d) (some d)
  | varint (i : Varint) : ShowsDecimal (.varint i) (some ⟨i, 0⟩)

inductive ShowsWideInteger : Value → Int64 → Prop
  | int (i : Int32) : ShowsWideInteger (.int i) i.toInt64
  | bigint (i : Int64) : ShowsWideInteger (.bigint i) i
  | timestamp (t : Timestamp) : ShowsWideInteger (.timestamp t) t.millis

inductive ShowsWideFloat : Value → Binary64 → Prop
  | float (x : Binary32) : ShowsWideFloat (.float x) (Binary64.ofBinary32 x)
  | double (x : Binary64) : ShowsWideFloat (.double x) x

theorem shows_unique {α : Type} {wrap : α → Value} (hwrap : Function.Injective wrap) :
    Relator.RightUnique (Shows wrap) := by
  rintro _ a b rfl hb
  exact hwrap hb

theorem showsSome_unique {α : Type} {wrap : α → Value} (hwrap : Function.Injective wrap) :
    Relator.RightUnique (ShowsSome wrap) := by
  rintro _ _ _ ⟨a, rfl, rfl⟩ ⟨b, hb, rfl⟩
  rw [hwrap hb]

theorem showsShort_unique : Relator.RightUnique ShowsShort := by
  rintro _ _ _ ⟨⟩ ⟨⟩ <;> rfl

theorem showsDecimal_unique : Relator.RightUnique ShowsDecimal := by
  rintro _ _ _ ⟨⟩ ⟨⟩ <;> rfl

theorem showsWideInteger_unique : Relator.RightUnique ShowsWideInteger := by
  rintro _ _ _ ⟨⟩ ⟨⟩ <;> rfl

theorem showsWideFloat_unique : Relator.RightUnique ShowsWideFloat := by
  rintro _ _ _ ⟨⟩ ⟨⟩ <;> rfl

theorem follows_content {α : Type} {wrap : α → Value} (hwrap : Function.Injective wrap)
    (r : Result α) : Follows (Shows wrap) (wrap <$> r) r :=
  follows_self (shows_unique hwrap) (fun _ => rfl) r

theorem follows_some {α : Type} {wrap : α → Value} (hwrap : Function.Injective wrap)
    (r : Result α) : Follows (ShowsSome wrap) (wrap <$> r) (some <$> r) :=
  follows_map (showsSome_unique hwrap) (fun a => ⟨a, rfl, rfl⟩) r

/-! ## Reads by kind -/

section Agrees

variable {α : Type}

/-- A read of the named client type follows the general read on the kinds it serves, refuses bytes
of any other kind, and reads a null cell as `absent` whatever its type is. -/
structure Agrees (c : Cell) (requested : String) (kinds : List ScalarKind)
    (shows : Value → α → Prop) (absent : α) (typed : Result α) : Prop where
  served (hnull : c.isNull = false) {kind : ScalarKind} (hkind : kind ∈ kinds)
    (htype : c.type.kind = .scalar kind) : Follows shows c.object typed
  refused (hnull : c.isNull = false) (htype : ∀ kind ∈ kinds, c.type.kind ≠ .scalar kind) :
    typed = .error (c.mismatch requested)
  null (hnull : c.isNull = true) : typed = .ok absent

/-- A read of one kind of collection or structure follows the general read on it and refuses any
other kind, null or not. -/
structure AgreesOnKind (c : Cell) (requested : String) (kind : TypeKind)
    (shows : Value → Option α → Prop) (typed : Result (Option α)) : Prop where
  served (hnull : c.isNull = false) (htype : c.type.kind = kind) : Follows shows c.object typed
  refused (htype : c.type.kind ≠ kind) : typed = .error (c.mismatch requested)
  null (hnull : c.isNull = true) (htype : c.type.kind = kind) : typed = .ok none

variable {c : Cell} {b : Bytes}

theorem exists_raw (hnull : c.isNull = false) : ∃ b, c.raw = some b := by
  cases h : c.raw with
  | none => simp [isNull, h] at hnull
  | some b => exact ⟨b, rfl⟩

theorem raw_of_isNull (hnull : c.isNull = true) : c.raw = none := by
  simpa [isNull] using hnull

theorem object_scalar {kind : ScalarKind} (htype : c.type.kind = .scalar kind)
    (hraw : c.raw = some b) : c.object = Scalar.decode kind b := by
  obtain ⟨name, type, raw⟩ := c
  cases type <;> cases htype
  cases hraw
  rfl

variable {requested : String} {absent : α} {shows : Value → α → Prop}
  {reader : TypeKind → Option (Bytes → Result α)}

/-- The read of a kind follows the general read: its reader follows the decoder of the kind. -/
def Serves (shows : Value → α → Prop) (reader : TypeKind → Option (Bytes → Result α))
    (kind : ScalarKind) : Prop :=
  ∃ decode, reader (.scalar kind) = some decode ∧ ∀ b, Follows shows (Scalar.decode kind b) (decode b)

theorem follows_of_serves {kind : ScalarKind} (hreader : Serves shows reader kind)
    (hnull : c.isNull = false) (htype : c.type.kind = .scalar kind) :
    Follows shows c.object (c.read requested absent reader) := by
  obtain ⟨b, hraw⟩ := exists_raw hnull
  obtain ⟨decode, hdecode, hfollows⟩ := hreader
  have hread : c.read requested absent reader = decode b := by
    simp [read, hraw, htype, hdecode]
  rw [object_scalar htype hraw, hread]
  exact hfollows b

theorem agrees_read {kinds : List ScalarKind} (hserved : ∀ kind ∈ kinds, Serves shows reader kind)
    (hrefused : ∀ kind, (∀ k ∈ kinds, kind ≠ .scalar k) → reader kind = none) :
    Agrees c requested kinds shows absent (c.read requested absent reader) where
  served hnull _ hkind htype := follows_of_serves (hserved _ hkind) hnull htype
  refused hnull htype := by
    obtain ⟨b, hraw⟩ := exists_raw hnull
    simp [read, hraw, hrefused _ htype]
  null hnull := by
    rw [read, raw_of_isNull hnull]

theorem agrees_kind {kind : ScalarKind} {decode : Bytes → Result α}
    (hreader : reader (.scalar kind) = some decode)
    (hfollows : ∀ b, Follows shows (Scalar.decode kind b) (decode b))
    (hrefused : ∀ k, k ≠ .scalar kind → reader k = none) :
    Agrees c requested [kind] shows absent (c.read requested absent reader) := by
  refine agrees_read ?_ fun k h => hrefused k (h kind (List.mem_singleton_self kind))
  rw [List.forall_mem_singleton]
  exact ⟨decode, hreader, hfollows⟩

theorem agrees_ofKind {kind : TypeKind} {shows : Value → Option α → Prop}
    (hunique : Relator.RightUnique shows) {part : Value → Option α}
    (hpart : ∀ t b v, t.kind = kind → decodeValue t (some b) = .ok v → shows v (part v)) :
    AgreesOnKind c requested kind shows (c.ofKind requested kind part) where
  served hnull htype := by
    obtain ⟨b, hraw⟩ := exists_raw hnull
    have heq : c.ofKind requested kind part = part <$> c.object := by
      simp [ofKind, htype, hnull]
    rw [heq]
    refine follows_part hunique fun v hv => hpart c.type b v htype ?_
    rwa [object, hraw] at hv
  refused htype := by
    simp [ofKind, htype]
  null hnull htype := by
    simp [ofKind, htype, hnull]

end Agrees

/-! ## All typed reads -/

/-- What the typed reads of a cell have to do with the general one. -/
structure Agreement (c : Cell) : Prop where
  boolean : Agrees c "bool" [.boolean] (Shows .boolean) false c.boolean
  byte : Agrees c "i8" [.tinyint] (Shows .tinyint) 0 c.byte
  short : Agrees c "i16" [.smallint, .tinyint] ShowsShort 0 c.short
  float : Agrees c "f32" [.float] (Shows .float) ⟨0⟩ c.float
  decimal : Agrees c "Decimal" [.decimal, .varint] ShowsDecimal none (c.decimal none)
  varint : Agrees c "Varint" [.varint] (ShowsSome .varint) none c.varint
  uuid : Agrees c "Uuid" [.uuid, .timeuuid] (ShowsSome .uuid) none c.uuid
  inet : Agrees c "IpAddr" [.inet] (ShowsSome .inet) none c.inet
  date : Agrees c "SqlDate" [.date] (ShowsSome .date) none c.date
  time : Agrees c "SqlTime" [.time] (ShowsSome .time) none c.time
  timestamp : Agrees c "SqlTimestamp" [.timestamp] (ShowsSome .timestamp) none c.timestamp
  duration : Agrees c "CqlDuration" [.duration] (ShowsSome .duration) none c.duration
  list : AgreesOnKind c "Vec<Value>" .list (ShowsSome .list) c.list
  set : AgreesOnKind c "ValueSet" .set (ShowsSome .set) c.set
  map : AgreesOnKind c "ValueMap" .map (ShowsSome .map) c.map
  udt : AgreesOnKind c "UdtValue" .udt (ShowsSome fun p => .udt p.1 p.2) c.udt
  tuple : AgreesOnKind c "TupleValue" .tuple (ShowsSome fun p => .tuple p.1 p.2) c.tuple
  wideInteger {kind : ScalarKind} (hkind : kind ∈ [.int, .bigint, .counter, .timestamp])
    (htype : c.type.kind = .scalar kind) (hnull : c.isNull = false) :
    Follows ShowsWideInteger c.object c.wideInteger
  wideFloat {kind : ScalarKind} (hkind : kind ∈ [.float, .double])
    (htype : c.type.kind = .scalar kind) (hnull : c.isNull = false) :
    Follows ShowsWideFloat c.object c.wideFloat

section

variable (c : Cell)

theorem agrees_short : Agrees c "i16" [.smallint, .tinyint] ShowsShort 0 c.short := by
  refine agrees_read ?_ fun kind h => by split <;> simp_all
  simp only [List.forall_mem_cons]
  exact ⟨⟨_, rfl, fun _ => follows_self showsShort_unique .smallint _⟩,
    ⟨_, rfl, fun _ => follows_map showsShort_unique .tinyint _⟩, by simp⟩

theorem agrees_decimal :
    Agrees c "Decimal" [.decimal, .varint] ShowsDecimal none (c.decimal none) := by
  unfold decimal
  refine agrees_read ?_ fun kind h => by split <;> simp_all
  simp only [List.forall_mem_cons]
  exact ⟨⟨_, rfl, fun _ => follows_map showsDecimal_unique .decimal _⟩,
    ⟨_, rfl, fun _ => follows_map showsDecimal_unique .varint _⟩, by simp⟩

theorem agrees_uuid : Agrees c "Uuid" [.uuid, .timeuuid] (ShowsSome .uuid) none c.uuid := by
  refine agrees_read ?_ fun kind h => by split <;> simp_all
  simp only [List.forall_mem_cons]
  have hfollows (r : Result Uuid) : Follows (ShowsSome .uuid) (.uuid <$> r) (some <$> r) :=
    follows_some (fun _ _ => Value.uuid.inj) r
  exact ⟨⟨_, rfl, fun _ => hfollows _⟩, ⟨_, rfl, fun _ => hfollows _⟩, by simp⟩

theorem agrees_list : AgreesOnKind c "Vec<Value>" .list (ShowsSome .list) c.list := by
  refine agrees_ofKind (showsSome_unique fun _ _ => Value.list.inj) fun t b v ht hv => ?_
  cases t <;> cases ht
  obtain ⟨_, items, -, -, rfl⟩ := of_decode_list hv
  exact ⟨items, rfl, rfl⟩

theorem agrees_set : AgreesOnKind c "ValueSet" .set (ShowsSome .set) c.set := by
  refine agrees_ofKind (showsSome_unique fun _ _ => Value.set.inj) fun t b v ht hv => ?_
  cases t <;> cases ht
  obtain ⟨_, items, -, -, rfl⟩ := of_decode_set hv
  exact ⟨_, rfl, rfl⟩

theorem agrees_map : AgreesOnKind c "ValueMap" .map (ShowsSome .map) c.map := by
  refine agrees_ofKind (showsSome_unique fun _ _ => Value.map.inj) fun t b v ht hv => ?_
  cases t <;> cases ht
  obtain ⟨_, entries, -, -, rfl⟩ := of_decode_map hv
  exact ⟨_, rfl, rfl⟩

theorem agrees_udt : AgreesOnKind c "UdtValue" .udt (ShowsSome fun p => .udt p.1 p.2) c.udt := by
  refine agrees_ofKind (showsSome_unique ?_) fun t b v ht hv => ?_
  · rintro ⟨d, a⟩ ⟨_, _⟩ ⟨⟩
    rfl
  · cases t <;> cases ht
    obtain ⟨components, -, -, rfl⟩ := of_decode_udt hv
    exact ⟨(_, components), rfl, rfl⟩

theorem agrees_tuple :
    AgreesOnKind c "TupleValue" .tuple (ShowsSome fun p => .tuple p.1 p.2) c.tuple := by
  refine agrees_ofKind (showsSome_unique ?_) fun t b v ht hv => ?_
  · rintro ⟨types, a⟩ ⟨_, _⟩ ⟨⟩
    rfl
  · cases t <;> cases ht
    obtain ⟨components, -, -, rfl⟩ := of_decode_tuple hv
    exact ⟨(_, components), rfl, rfl⟩

theorem follows_wideInteger {kind : ScalarKind}
    (hkind : kind ∈ [.int, .bigint, .counter, .timestamp]) (htype : c.type.kind = .scalar kind)
    (hnull : c.isNull = false) : Follows ShowsWideInteger c.object c.wideInteger := by
  refine follows_of_serves ?_ hnull htype
  have hunique := showsWideInteger_unique
  simp only [List.mem_cons, List.not_mem_nil, or_false] at hkind
  rcases hkind with rfl | rfl | rfl | rfl
  · exact ⟨_, rfl, fun _ => follows_map hunique .int _⟩
  · exact ⟨_, rfl, fun _ => follows_self hunique .bigint _⟩
  · exact ⟨_, rfl, fun _ => follows_self hunique .bigint _⟩
  · -- The general read wraps the milliseconds twice.
    refine ⟨_, rfl, fun b => ?_⟩
    have h : Scalar.decode .timestamp b =
        (fun millis => Value.timestamp ⟨millis⟩) <$> Scalar.decodeInt64 "timestamp" b := by
      rw [Scalar.decode, Scalar.decodeTimestamp]
      cases Scalar.decodeInt64 "timestamp" b <;> rfl
    rw [h]
    exact follows_self hunique (fun millis => .timestamp ⟨millis⟩) _

theorem follows_wideFloat {kind : ScalarKind} (hkind : kind ∈ [.float, .double])
    (htype : c.type.kind = .scalar kind) (hnull : c.isNull = false) :
    Follows ShowsWideFloat c.object c.wideFloat := by
  refine follows_of_serves ?_ hnull htype
  simp only [List.mem_cons, List.not_mem_nil, or_false] at hkind
  rcases hkind with rfl | rfl
  · exact ⟨_, rfl, fun _ => follows_map showsWideFloat_unique .float _⟩
  · exact ⟨_, rfl, fun _ => follows_self showsWideFloat_unique .double _⟩

/-- Every typed read has the value or the error of the general read on present bytes of the types
it serves, and refuses bytes of any other type; a null cell reads as `false`, zero or nothing, and
is refused only by the reads of collections and structures, where its type is another one. -/
theorem typed_reads_follow_object : Agreement c where
  boolean := agrees_kind rfl (fun _ => follows_content (fun _ _ => Value.boolean.inj) _)
    fun kind h => by split <;> simp_all
  byte := agrees_kind rfl (fun _ => follows_content (fun _ _ => Value.tinyint.inj) _)
    fun kind h => by split <;> simp_all
  short := agrees_short c
  float := agrees_kind rfl (fun _ => follows_content (fun _ _ => Value.float.inj) _)
    fun kind h => by split <;> simp_all
  decimal := agrees_decimal c
  varint := agrees_kind rfl (fun _ => follows_some (fun _ _ => Value.varint.inj) _)
    fun kind h => by split <;> simp_all
  uuid := agrees_uuid c
  inet := agrees_kind rfl (fun _ => follows_some (fun _ _ => Value.inet.inj) _)
    fun kind h => by split <;> simp_all
  date := agrees_kind rfl (fun _ => follows_some (fun _ _ => Value.date.inj) _)
    fun kind h => by split <;> simp_all
  time := agrees_kind rfl (fun _ => follows_some (fun _ _ => Value.time.inj) _)
    fun kind h => by split <;> simp_all
  timestamp := agrees_kind rfl (fun _ => follows_some (fun _ _ => Value.timestamp.inj) _)
    fun kind h => by split <;> simp_all
  duration := agrees_kind rfl (fun _ => follows_some (fun _ _ => Value.duration.inj) _)
    fun kind h => by split <;> simp_all
  list := agrees_list c
  set := agrees_set c
  map := agrees_map c
  udt := agrees_udt c
  tuple := agrees_tuple c
  wideInteger := follows_wideInteger c
  wideFloat := follows_wideFloat c

end

end WideRow.Cell
