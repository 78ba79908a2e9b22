import WideRow.Config.Setting
import WideRow.Text.Character
import WideRow.Text.Quoted

/-!
# Connection parameters

Parameters are a map from keys to values. A key counts without the blanks around it and in lower
case, so two sets that differ only in the spelling of keys or in the order of insertion are equal.
The entries stand in the order of the keys. A key of blanks alone is no key.
-/

namespace WideRow

/-- Parameters by normalized key. -/
structure Params where
  entries : List (String × String)
  sorted : entries.Pairwise fun a b => a.1 < b.1
  deriving DecidableEq

namespace Params

/-! ## Keys -/

/-- The spelling of a key that counts. -/
def normalizeKey (key : String) : String :=
  Text.foldCase (Text.trim key)

def urlKey : String := "url"
def hostKey : String := "host"
def portKey : String := "port"
def keyspaceKey : String := "keyspace"
def userKey : String := "user"
def passwordKey : String := "password"
def debugKey : String := "debug"
def sslEnabledKey : String := "enablessl"
def verifyServerCertificateKey : String := "verifyservercertificate"
def loadBalancingPolicyKey : String := "loadbalancing"
def retryPolicyKey : String := "retry"
def reconnectPolicyKey : String := "reconnection"

/-- Every key that means something to a configuration. -/
def knownKeys : List String :=
  [urlKey, hostKey, portKey, keyspaceKey, userKey, passwordKey, debugKey, sslEnabledKey,
    verifyServerCertificateKey, loadBalancingPolicyKey, retryPolicyKey, reconnectPolicyKey]

/-! ## Entries -/

/-- Puts a value under a key, in place of the value that is there. -/
def putEntry (key value : String) : List (String × String) → List (String × String)
  | [] => [(key, value)]
  | entry :: rest =>
    if key < entry.1 then (key, value) :: entry :: rest
    else if key = entry.1 then (key, value) :: rest
    else entry :: putEntry key value rest

theorem mem_putEntry {key value : String} {entries : List (String × String)}
    {entry : String × String} (h : entry ∈ putEntry key value entries) :
    entry = (key, value) ∨ entry ∈ entries := by
  induction entries with
  | nil => simpa [putEntry] using h
  | cons first rest ih =>
    simp only [putEntry] at h
    split at h
    · simpa using h
    · split at h
      · rcases List.mem_cons.1 h with h | h
        · exact .inl h
        · exact .inr (List.mem_cons_of_mem _ h)
      · rcases List.mem_cons.1 h with h | h
        · exact .inr (h ▸ List.mem_cons_self)
        · exact (ih h).imp id (List.mem_cons_of_mem _)

theorem sorted_putEntry {key value : String} {entries : List (String × String)}
    (h : entries.Pairwise fun a b => a.1 < b.1) :
    (putEntry key value entries).Pairwise fun a b => a.1 < b.1 := by
  induction entries with
  | nil => simp [putEntry]
  | cons first rest ih =>
    obtain ⟨hfirst, hrest⟩ := List.pairwise_cons.1 h
    simp only [putEntry]
    split
    · next hlt =>
      refine List.pairwise_cons.2 ⟨fun entry hentry => ?_, h⟩
      rcases List.mem_cons.1 hentry with rfl | hentry
      · exact hlt
      · exact String.lt_trans hlt (hfirst entry hentry)
    · split
      · next heq =>
        exact List.pairwise_cons.2 ⟨fun entry hentry => heq ▸ hfirst entry hentry, hrest⟩
      · next hnlt hne =>
        refine List.pairwise_cons.2 ⟨fun entry hentry => ?_, ih hrest⟩
        rcases mem_putEntry hentry with rfl | hentry
        · have : first.1 < key ∨ first.1 = key ∨ key < first.1 := by grind
          rcases this with h | h | h
          · exact h
          · exact absurd h.symm hne
          · exact absurd h hnlt
        · exact hfirst entry hentry

def empty : Params :=
  ⟨[], .nil⟩

/-- Sets a parameter; the last value of a key counts. -/
def insert (p : Params) (key value : String) : Params :=
  if normalizeKey key = "" then p
  else ⟨putEntry (normalizeKey key) value p.entries, sorted_putEntry p.sorted⟩

def ofList (entries : List (String × String)) : Params :=
  entries.foldl (fun p entry => p.insert entry.1 entry.2) empty

/-- Puts an entry whose key is normalized. -/
def put (p : Params) (entry : String × String) : Params :=
  ⟨putEntry entry.1 entry.2 p.entries, sorted_putEntry p.sorted⟩

/-- Both sets together; where both have a key, the value of the overrides counts. -/
def merged (p overrides : Params) : Params :=
  overrides.entries.foldl put p

/-- The value of a key in any spelling. -/
def get? (p : Params) (key : String) : Option String :=
  (p.entries.find? (·.1 == normalizeKey key)).map (·.2)

def size (p : Params) : Nat :=
  p.entries.length

/-- Compares entry by entry, the key before the value; of two sets of which one begins the other,
the shorter is the smaller. -/
def orderEntries : List (String × String) → List (String × String) → Ordering
  | [], [] => .eq
  | [], _ :: _ => .lt
  | _ :: _, [] => .gt
  | (k, v) :: p, (l, w) :: q => ((compare k l).then (compare v w)).then (orderEntries p q)

def order (p q : Params) : Ordering :=
  orderEntries p.entries q.entries

/-! ## Texts -/

/-- A short name: the address if one is set, else host, port and keyspace. -/
def label (p : Params) : String :=
  match p.get? urlKey with
  | some url => url
  | none =>
    (p.get? hostKey).getD "?" ++ ":" ++ (p.get? portKey).getD "-" ++ "/" ++
      (p.get? keyspaceKey).getD ""

/-- An entry as diagnostics show it. The password is not shown. -/
def describeEntry (entry : String × String) : String :=
  Text.quoted entry.1 ++ ": " ++ Text.quoted (if entry.1 = passwordKey then "***" else entry.2)

/-- The parameters as diagnostics show them. -/
def describe (p : Params) : String :=
  "\x7b" ++ ", ".intercalate (p.entries.map describeEntry) ++ "\x7d"

def settings (p : Params) : Settings :=
  [("entries", .entries p.entries)]

end Params

end WideRow
