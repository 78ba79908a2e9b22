import WideRow.Config.Session
import WideRow.Proofs.Assembly
import WideRow.Proofs.Result

/-!
# The password is not shown

Parameters that differ in the password alone look the same in diagnostics, and they are read as the
same configuration but for the password or refused for the same reason.
-/

namespace WideRow

namespace Params

/-- Nothing but the password is different. Both have one. -/
structure AlikeButPassword (p q : Params) : Prop where
  others (key : String) (h : normalizeKey key ≠ passwordKey) : p.get? key = q.get? key
  left : (p.get? passwordKey).isSome = true
  right : (q.get? passwordKey).isSome = true

theorem alikeButPassword_insert (p : Params) {spelling spelling' : String}
    (h : normalizeKey spelling = passwordKey) (h' : normalizeKey spelling' = passwordKey)
    (password password' : String) :
    (p.insert spelling password).AlikeButPassword (p.insert spelling' password') := by
  have hkey : normalizeKey passwordKey = passwordKey := by decide +kernel
  refine ⟨fun key hother => ?others, ?left, ?right⟩
  case others =>
    rw [get?_eq, get?_eq, lookup_insert, lookup_insert, setting_one, setting_one, h, h',
      if_neg (fun hself => hother hself.2.symm), if_neg (fun hself => hother hself.2.symm)]
  case left =>
    rw [get?_eq, lookup_insert, setting_one, h, hkey, if_pos ⟨by decide, rfl⟩]
    rfl
  case right =>
    rw [get?_eq, lookup_insert, setting_one, h', hkey, if_pos ⟨by decide, rfl⟩]
    rfl

/-! ## Diagnostics -/

/-- What is shown of an entry. -/
def shownEntry (entry : String × String) : String × String :=
  (entry.1, if entry.1 = passwordKey then "***" else entry.2)

theorem describe_congr {p q : Params}
    (h : p.entries.map shownEntry = q.entries.map shownEntry) : p.describe = q.describe := by
  have hdescribe : describeEntry =
      (fun shown => Text.quoted shown.1 ++ ": " ++ Text.quoted shown.2) ∘ shownEntry := rfl
  rw [describe, describe, hdescribe, ← List.map_map, ← List.map_map, h]

theorem sorted_shown (p : Params) :
    (p.entries.map shownEntry).Pairwise fun e f => e.1 < f.1 :=
  List.pairwise_map.mpr p.sorted

theorem lookup_shown (p : Params) (key : String) :
    (p.entries.map shownEntry).lookup key =
      (p.entries.lookup key).map fun value => if key = passwordKey then "***" else value :=
  lookup_map_value fun key value => if key = passwordKey then "***" else value

theorem lookup_eq_get? (a : Assembly) (key : String) :
    a.params.entries.lookup key = if normalizeKey key = key then a.params.get? key else none := by
  -- Entries stand under normalized keys, so a look at the spellings finds them all.
  split
  · rename_i hkey
    rw [get?_eq, hkey]
  · rename_i hkey
    rw [a.lookup_params]
    cases hset : setting a.written key with
    | none => rfl
    | some value => exact absurd (normalized_of_setting hset).2 hkey

section

variable {a b : Assembly} (h : a.params.AlikeButPassword b.params)
include h

theorem shown_of_alike :
    a.params.entries.map shownEntry = b.params.entries.map shownEntry := by
  refine eq_of_lookup (sorted_shown _) (sorted_shown _) fun key => ?_
  rw [lookup_shown, lookup_shown, lookup_eq_get?, lookup_eq_get?]
  by_cases hkey : normalizeKey key = key
  · rw [if_pos hkey, if_pos hkey]
    by_cases hpassword : key = passwordKey
    · obtain ⟨password, hp⟩ := Option.isSome_iff_exists.mp h.left
      obtain ⟨password', hq⟩ := Option.isSome_iff_exists.mp h.right
      rw [hpassword, hp, hq]
      simp only [if_true, Option.map_some]
    · rw [h.others key (fun hself => hpassword (hkey.symm.trans hself))]
  · rw [if_neg hkey, if_neg hkey]

end

section

variable {p q : Params} (h : ∀ key, normalizeKey key ≠ passwordKey → p.get? key = q.get? key)
include h

theorem get?_known {key : String} (hknown : key ∈ knownKeys) (hother : key ≠ passwordKey) :
    p.get? key = q.get? key := by
  have hspelled : ∀ key ∈ knownKeys, key ≠ passwordKey → normalizeKey key ≠ passwordKey := by
    decide +kernel
  exact h key (hspelled key hknown hother)

theorem label_congr : p.label = q.label := by
  unfold label
  simp (disch := decide) only [get?_known h]

end

end Params

namespace SessionConfig

/-! ## Configurations -/

/-- What parameters make of a host and a port that were read, valid or not. -/
def draft (p : Params) (host : String) (port : UInt16) : SessionConfig where
  hosts := readHosts host
  port := port
  keyspace := nonEmpty (p.get? Params.keyspaceKey)
  username := nonEmpty (p.get? Params.userKey)
  password := p.get? Params.passwordKey
  debug := (p.get? Params.debugKey).any isTruthy
  sslEnabled := (p.get? Params.sslEnabledKey).any isTruthy
  verifyServerCertificate := (p.get? Params.verifyServerCertificateKey).any isTruthy
  loadBalancingPolicy := nonEmpty (p.get? Params.loadBalancingPolicyKey)
  retryPolicy := nonEmpty (p.get? Params.retryPolicyKey)
  reconnectPolicy := nonEmpty (p.get? Params.reconnectPolicyKey)

theorem ofParams_eq (p : Params) :
    ofParams p =
      match p.get? Params.hostKey with
      | none => .error (.missing Params.hostKey)
      | some host => do
        let port ← readPort (p.get? Params.portKey)
        (draft p host port).validate
        return draft p host port := by
  unfold ofParams
  cases p.get? Params.hostKey <;> rfl

/-- The configuration with another password, or with none. -/
def replacePassword (password : Option String) (c : SessionConfig) : SessionConfig :=
  { c with password := password }

/-- Two configurations that differ in the password alone, and show nothing of it. -/
structure ShowAlike (c d : SessionConfig) : Prop where
  fields : d = { c with password := d.password }
  settings : c.settings = d.settings
  contactPoints : c.contactPoints = d.contactPoints
  hasCredentials : c.hasCredentials = d.hasCredentials
  validate : c.validate = d.validate

theorem showAlike_replacePassword (password : Option String) (c : SessionConfig) :
    c.ShowAlike (c.replacePassword password) :=
  ⟨rfl, rfl, rfl, rfl, rfl⟩

theorem ofParams_congr {p q : Params}
    (h : ∀ key, Params.normalizeKey key ≠ Params.passwordKey → p.get? key = q.get? key) :
    ofParams q = replacePassword (q.get? Params.passwordKey) <$> ofParams p := by
  have hdraft : ∀ host port,
      draft q host port = (draft p host port).replacePassword (q.get? Params.passwordKey) := by
    intro host port
    unfold draft
    simp (disch := decide) only [Params.get?_known h]
    rfl
  have hhost : p.get? Params.hostKey = q.get? Params.hostKey :=
    Params.get?_known h (by decide) (by decide)
  have hport : p.get? Params.portKey = q.get? Params.portKey :=
    Params.get?_known h (by decide) (by decide)
  rw [ofParams_eq, ofParams_eq, hhost, hport]
  cases q.get? Params.hostKey with
  | none => rfl
  | some host =>
    cases readPort (q.get? Params.portKey) with
    | error e => rfl
    | ok port =>
      have hvalidate :=
        (showAlike_replacePassword (q.get? Params.passwordKey) (draft p host port)).validate
      simp only [Result.ok_bind, hdraft, ← hvalidate]
      cases (draft p host port).validate <;> rfl

/-- What may come of reading two sets of parameters that differ in the password alone. -/
inductive ReadAlike : Except ConfigError SessionConfig → Except ConfigError SessionConfig → Prop
  | refused {e f : ConfigError} (same : e = f) (message : e.message = f.message) :
      ReadAlike (.error e) (.error f)
  | read {c d : SessionConfig} (h : c.ShowAlike d) : ReadAlike (.ok c) (.ok d)

theorem readAlike_map (password : Option String) (outcome : Except ConfigError SessionConfig) :
    ReadAlike outcome (replacePassword password <$> outcome) := by
  cases outcome with
  | error e => exact .refused rfl rfl
  | ok c => exact .read (showAlike_replacePassword password c)

end SessionConfig

/-- The password does not show, however its key is spelled and whatever it is: not in diagnostics,
not in the label, not in an error, and of a configuration only in its own field. -/
theorem Params.password_not_shown {a b : Assembly} (h : a.params.AlikeButPassword b.params) :
    a.params.describe = b.params.describe ∧ a.params.label = b.params.label ∧
      SessionConfig.ReadAlike (SessionConfig.ofParams a.params) (SessionConfig.ofParams b.params) := by
  refine ⟨describe_congr (shown_of_alike h), label_congr h.others, ?_⟩
  rw [SessionConfig.ofParams_congr h.others]
  exact SessionConfig.readAlike_map _ _

/-- Two passwords, one of them an override under another spelling of the key. -/
theorem Params.password_not_shown_spelled_twice :
    let base : Assembly := .insert (.insert .empty "Host" "a--b") "user" "u"
    let a : Assembly := .insert base "password" "one"
    let b : Assembly := .merged base (.insert .empty " PassWord " "two")
    a.params.AlikeButPassword b.params ∧ a.params ≠ b.params ∧ a.params.describe = b.params.describe ∧
      b.params.describe = "\x7b\"host\": \"a--b\", \"password\": \"***\", \"user\": \"u\"\x7d" ∧
      a.params.label = b.params.label ∧
      SessionConfig.ReadAlike (SessionConfig.ofParams a.params) (SessionConfig.ofParams b.params) := by
  intro base a b
  have hoverride : b.params = base.params.insert " PassWord " "two" := by decide +kernel
  have halike : a.params.AlikeButPassword b.params := by
    rw [hoverride]
    exact alikeButPassword_insert base.params (by decide +kernel) (by decide +kernel) "one" "two"
  obtain ⟨hdescribe, hlabel, hread⟩ := password_not_shown halike
  exact ⟨halike, by decide +kernel, hdescribe, by decide +kernel, hlabel, hread⟩

end WideRow
