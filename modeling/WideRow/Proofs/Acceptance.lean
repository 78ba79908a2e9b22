import WideRow.Proofs.BoundedNumeral
import WideRow.Proofs.ContactPoints
import WideRow.Proofs.Password

/-!
# Which parameters make a configuration

A configuration needs a contact point and a port other than zero. What is wrong is reported in a
fixed order: no host parameter, a port that is no number of 16 bits, no name among the hosts, port
zero.
-/

namespace WideRow.SessionConfig

open Params Text

/-! ## Ports -/

/-- What a port parameter stands for: the port in use everywhere if it is absent, else the number
that it spells. -/
inductive MeansPort : Option String → Nat → Prop where
  | absent : MeansPort none 9042
  | spelled {raw : String} {n : Nat} (h : UnsignedNumeral (trimChars raw.toList) n)
      (hle : n ≤ 65535) : MeansPort (some raw) n

theorem readPort_some (raw : String) :
    readPort (some raw) =
      match readNatural 65535 (trimChars raw.toList) with
      | .ok n => .ok (UInt16.ofNat n)
      | .error fault => .error (.invalid portKey raw fault.message) := rfl

theorem MeansPort.read {setting : Option String} {n : Nat} (h : MeansPort setting n) :
    ∃ port, readPort setting = .ok port ∧ port.toNat = n := by
  cases h with
  | absent => exact ⟨defaultPort, rfl, rfl⟩
  | spelled hnumeral hle =>
    refine ⟨UInt16.ofNat n, ?_, UInt16.toNat_ofNat_of_lt (Nat.lt_succ_of_le hle)⟩
    rw [readPort_some, readNatural_eq_ok_iff.mpr ⟨hnumeral, hle⟩]

theorem meansPort_of_read {setting : Option String} {port : UInt16} (h : readPort setting = .ok port) :
    MeansPort setting port.toNat := by
  cases setting with
  | none =>
    cases h
    exact .absent
  | some raw =>
    rw [readPort_some] at h
    split at h
    · rename_i n hn
      obtain ⟨hnumeral, hle⟩ := readNatural_eq_ok_iff.mp hn
      have hport : port.toNat = n := by
        rw [← Except.ok.inj h]
        exact UInt16.toNat_ofNat_of_lt (Nat.lt_succ_of_le hle)
      rw [hport]
      exact .spelled hnumeral hle
    · cases h

theorem readPort_eq_error_iff {setting : Option String} {e : ConfigError} :
    readPort setting = .error e ↔ ∃ raw fault, setting = some raw ∧ (∀ n, ¬ MeansPort setting n) ∧
      readNatural 65535 (trimChars raw.toList) = .error fault ∧
      e = .invalid portKey raw fault.message := by
  constructor
  · intro h
    have hnone : ∀ n, ¬ MeansPort setting n := by
      intro n hn
      obtain ⟨port, hread, -⟩ := hn.read
      rw [h] at hread
      cases hread
    cases setting with
    | none => cases h
    | some raw =>
      rw [readPort_some] at h
      split at h
      · cases h
      · rename_i fault hfault
        exact ⟨raw, fault, rfl, hnone, hfault, (Except.error.inj h).symm⟩
  · rintro ⟨raw, fault, rfl, -, hfault, rfl⟩
    rw [readPort_some, hfault]

/-! ## The order of the checks -/

/-- What is wrong with parameters, though everything that is looked at before is right. -/
inductive Reports (p : Params) : ConfigError → Prop where
  | noHost (hhost : p.get? hostKey = none) : Reports p (.missing hostKey)
  | malformedPort {host raw : String} {fault : NumeralFault} (hhost : p.get? hostKey = some host)
      (hport : p.get? portKey = some raw) (hmalformed : ∀ n, ¬ MeansPort (some raw) n)
      (hfault : readNatural 65535 (trimChars raw.toList) = .error fault) :
      Reports p (.invalid portKey raw fault.message)
  | noName {host : String} {n : Nat} {pieces : List (List Char)} (hhost : p.get? hostKey = some host)
      (hport : MeansPort (p.get? portKey) n) (hcuts : Cuts host.toList pieces)
      (hblank : ∀ piece ∈ pieces, isNamed piece = false) :
      Reports p (.invalid hostKey "" "at least one contact point is required")
  | portZero {host : String} {pieces : List (List Char)} (hhost : p.get? hostKey = some host)
      (hport : MeansPort (p.get? portKey) 0) (hcuts : Cuts host.toList pieces)
      (hnamed : ∃ piece ∈ pieces, isNamed piece = true) :
      Reports p (.invalid portKey "0" "port must be non-zero")

theorem readHosts_eq_nil_iff {host : String} {pieces : List (List Char)}
    (h : Cuts host.toList pieces) : readHosts host = [] ↔ ∀ piece ∈ pieces, isNamed piece = false := by
  rw [readHosts_eq h, namesOf_eq_nil_iff]

section

variable {p : Params} {host : String}

theorem validate_draft (port : UInt16) :
    (draft p host port).validate =
      if readHosts host = [] then
        .error (.invalid hostKey "" "at least one contact point is required")
      else if port = 0 then .error (.invalid portKey "0" "port must be non-zero")
      else .ok () := by
  have hpoints : (draft p host port).hosts.isEmpty = true ↔ readHosts host = [] := List.isEmpty_iff
  unfold validate
  by_cases hnone : readHosts host = []
  · rw [if_pos (hpoints.mpr hnone), if_pos hnone]
  · rw [if_neg (mt hpoints.mp hnone), if_neg hnone]
    rfl

theorem ofParams_of_no_host (hhost : p.get? hostKey = none) :
    ofParams p = .error (.missing hostKey) := by
  rw [ofParams_eq, hhost]

variable (hhost : p.get? hostKey = some host)
include hhost

theorem ofParams_of_malformed {e : ConfigError} (hport : readPort (p.get? portKey) = .error e) :
    ofParams p = .error e := by
  simp only [ofParams_eq, hhost, hport]
  rfl

theorem ofParams_of_read {port : UInt16} (hport : readPort (p.get? portKey) = .ok port) :
    ofParams p =
      if readHosts host = [] then
        .error (.invalid hostKey "" "at least one contact point is required")
      else if port = 0 then .error (.invalid portKey "0" "port must be non-zero")
      else .ok (draft p host port) := by
  simp only [ofParams_eq, hhost, hport, Result.ok_bind, validate_draft]
  split
  · rfl
  · split <;> rfl

end

theorem ofParams_eq_error_iff {p : Params} {e : ConfigError} :
    ofParams p = .error e ↔ Reports p e := by
  constructor
  · intro h
    cases hhost : p.get? hostKey with
    | none =>
      rw [ofParams_of_no_host hhost] at h
      cases h
      exact .noHost hhost
    | some host =>
      cases hport : readPort (p.get? portKey) with
      | error fault =>
        rw [ofParams_of_malformed hhost hport] at h
        cases h
        obtain ⟨raw, fault, hraw, hmalformed, hfault, rfl⟩ := readPort_eq_error_iff.mp hport
        exact .malformedPort hhost hraw (hraw ▸ hmalformed) hfault
      | ok port =>
        have hcuts := cuts_splitHosts host.toList
        have hmeans := meansPort_of_read hport
        rw [ofParams_of_read hhost hport] at h
        split at h
        · rename_i hnone
          cases h
          exact .noName hhost hmeans hcuts ((readHosts_eq_nil_iff hcuts).mp hnone)
        · rename_i hsome
          rw [readHosts_eq_nil_iff hcuts] at hsome
          split at h
          · rename_i hzero
            cases h
            rw [hzero] at hmeans
            exact .portZero hhost hmeans hcuts (by simpa using hsome)
          · cases h
  · intro h
    cases h with
    | noHost hhost => exact ofParams_of_no_host hhost
    | malformedPort hhost hport hmalformed hfault =>
      exact ofParams_of_malformed hhost
        (readPort_eq_error_iff.mpr ⟨_, _, hport, hport ▸ hmalformed, hfault, rfl⟩)
    | noName hhost hport hcuts hblank =>
      obtain ⟨port, hread, -⟩ := hport.read
      rw [ofParams_of_read hhost hread, if_pos ((readHosts_eq_nil_iff hcuts).mpr hblank)]
    | @portZero host pieces hhost hport hcuts hnamed =>
      obtain ⟨port, hread, hzero⟩ := hport.read
      have hsome : readHosts host ≠ [] := by
        rw [Ne, readHosts_eq_nil_iff hcuts]
        simpa using hnamed
      rw [ofParams_of_read hhost hread, if_neg hsome, if_pos (UInt16.toNat_inj.mp hzero)]

theorem ofParams_eq_ok_iff {p : Params} {c : SessionConfig} :
    ofParams p = .ok c ↔ ∃ host port, p.get? hostKey = some host ∧
      readPort (p.get? portKey) = .ok port ∧ readHosts host ≠ [] ∧ port ≠ 0 ∧ c = draft p host port := by
  constructor
  · intro h
    cases hhost : p.get? hostKey with
    | none =>
      rw [ofParams_of_no_host hhost] at h
      cases h
    | some host =>
      cases hport : readPort (p.get? portKey) with
      | error fault =>
        rw [ofParams_of_malformed hhost hport] at h
        cases h
      | ok port =>
        rw [ofParams_of_read hhost hport] at h
        split at h
        · cases h
        · rename_i hsome
          split at h
          · cases h
          · rename_i hnonzero
            cases h
            exact ⟨host, port, rfl, rfl, hsome, hnonzero, rfl⟩
  · rintro ⟨host, port, hhost, hport, hsome, hnonzero, rfl⟩
    rw [ofParams_of_read hhost hport, if_neg hsome, if_neg hnonzero]

/-! ## Acceptance -/

/-- The port is absent, or a numeral between 1 and the greatest number of 16 bits. -/
def HasPort (p : Params) : Prop :=
  ∀ raw, p.get? portKey = some raw →
    ∃ n, UnsignedNumeral (trimChars raw.toList) n ∧ 1 ≤ n ∧ n ≤ 65535

theorem hasPort_iff {p : Params} :
    HasPort p ↔ ∃ port, readPort (p.get? portKey) = .ok port ∧ port ≠ 0 := by
  unfold HasPort
  constructor
  · intro h
    cases hsetting : p.get? portKey with
    | none => exact ⟨defaultPort, rfl, by decide⟩
    | some raw =>
      obtain ⟨n, hnumeral, hpos, hle⟩ := h raw hsetting
      obtain ⟨port, hread, hport⟩ := (MeansPort.spelled hnumeral hle).read
      refine ⟨port, hread, ?_⟩
      rintro rfl
      simp at hport
      omega
  · rintro ⟨port, hread, hnonzero⟩ raw hsetting
    have hmeans := meansPort_of_read hread
    rw [hsetting] at hmeans
    have hpos : port.toNat ≠ 0 := fun hzero => hnonzero (UInt16.toNat_inj.mp hzero)
    generalize port.toNat = n at hmeans hpos
    cases hmeans with
    | spelled hnumeral hle => exact ⟨n, hnumeral, by omega, hle⟩

theorem accepts_iff {p : Params} :
    (∃ c, ofParams p = .ok c) ↔
      (∃ host pieces, p.get? hostKey = some host ∧ Cuts host.toList pieces ∧
        ∃ piece ∈ pieces, isNamed piece = true) ∧ HasPort p := by
  rw [hasPort_iff]
  constructor
  · rintro ⟨c, hc⟩
    obtain ⟨host, port, hhost, hport, hsome, hnonzero, -⟩ := ofParams_eq_ok_iff.mp hc
    have hcuts := cuts_splitHosts host.toList
    rw [Ne, readHosts_eq_nil_iff hcuts] at hsome
    exact ⟨⟨host, _, hhost, hcuts, by simpa using hsome⟩, port, hport, hnonzero⟩
  · rintro ⟨⟨host, pieces, hhost, hcuts, hnamed⟩, port, hport, hnonzero⟩
    refine ⟨_, ofParams_eq_ok_iff.mpr ⟨host, port, hhost, hport, ?_, hnonzero, rfl⟩⟩
    rw [Ne, readHosts_eq_nil_iff hcuts]
    simpa using hnamed

theorem of_accepted {p : Params} {c : SessionConfig} (h : ofParams p = .ok c) :
    (∃ host pieces, p.get? hostKey = some host ∧ Cuts host.toList pieces ∧
      c.hosts = namesOf pieces) ∧
      (∀ name ∈ c.hosts, ¬ HasSeparator name.toList) ∧
      MeansPort (p.get? portKey) c.port.toNat ∧ c.validate = .ok () := by
  obtain ⟨host, port, hhost, hport, hsome, hnonzero, rfl⟩ := ofParams_eq_ok_iff.mp h
  have hcuts := cuts_splitHosts host.toList
  have hhosts : (draft p host port).hosts = namesOf (splitHosts host.toList) := readHosts_eq hcuts
  refine ⟨⟨host, _, hhost, hcuts, hhosts⟩, ?_, meansPort_of_read hport, ?_⟩
  · rw [hhosts]
    exact not_hasSeparator_of_mem hcuts.not_hasSeparator
  · rw [validate_draft, if_neg hsome, if_neg hnonzero]

theorem accepts_joined_iff {p : Params} {names : List String} (hne : names ≠ [])
    (hnames : ∀ name ∈ names, trim name = name ∧ name ≠ "" ∧ ¬ HasSeparator name.toList)
    (hhost : p.get? hostKey = some (hostSeparator.intercalate names)) (hport : HasPort p) :
    (∃ c, ofParams p = .ok c ∧ c.hosts = names) ↔
      ∀ name ∈ names.dropLast, name.toList.getLast? ≠ some '-' := by
  rw [← readHosts_intercalate_iff hne hnames]
  constructor
  · rintro ⟨c, hc, hhosts⟩
    obtain ⟨host, port, hhost', -, -, -, rfl⟩ := ofParams_eq_ok_iff.mp hc
    rw [hhost, Option.some.injEq] at hhost'
    rw [hhost']
    exact hhosts
  · intro hread
    obtain ⟨port, hport, hnonzero⟩ := hasPort_iff.mp hport
    exact ⟨_, ofParams_eq_ok_iff.mpr ⟨_, port, hhost, hport, hread.symm ▸ hne, hnonzero, rfl⟩, hread⟩

/-- Parameters make a configuration exactly if they have a host with a name in it and a port that is
absent or a number from 1 to 65535. Its contact points are the names, and it is valid. Otherwise the
first thing wrong is reported. Joined names are read back exactly if none but the last ends with a
hyphen. -/
theorem acceptance_by_grammar (p : Params) :
    ((∃ c, ofParams p = .ok c) ↔
      (∃ host pieces, p.get? hostKey = some host ∧ Cuts host.toList pieces ∧
        ∃ piece ∈ pieces, isNamed piece = true) ∧ HasPort p) ∧
      (∀ c, ofParams p = .ok c →
        (∃ host pieces, p.get? hostKey = some host ∧ Cuts host.toList pieces ∧
          c.hosts = namesOf pieces) ∧
        (∀ name ∈ c.hosts, ¬ HasSeparator name.toList) ∧
        MeansPort (p.get? portKey) c.port.toNat ∧ c.validate = .ok ()) ∧
      (∀ e, ofParams p = .error e ↔ Reports p e) ∧
      ∀ names, names ≠ [] →
        (∀ name ∈ names, trim name = name ∧ name ≠ "" ∧ ¬ HasSeparator name.toList) →
        p.get? hostKey = some (hostSeparator.intercalate names) → HasPort p →
        ((∃ c, ofParams p = .ok c ∧ c.hosts = names) ↔
          ∀ name ∈ names.dropLast, name.toList.getLast? ≠ some '-') :=
  ⟨accepts_iff, fun _ => of_accepted, fun _ => ofParams_eq_error_iff,
    fun _ => accepts_joined_iff⟩

/-- Three names of which the second begins with a hyphen, at a port with a sign and a zero, are read
back; a name that ends with one before another is not. -/
theorem acceptance_by_grammar_hyphens :
    let p := Params.ofList [(" HOST", "a---b--c-"), ("Port", " +09142 ")]
    let q := Params.ofList [("host", "a---b")]
    let names := ["a", "-b", "c-"]
    ((∀ name ∈ names, trim name = name ∧ name ≠ "" ∧ ¬ HasSeparator name.toList) ∧
      p.get? hostKey = some (hostSeparator.intercalate names) ∧ HasPort p ∧
      ∃ c, ofParams p = .ok c ∧ c.hosts = names) ∧
      q.get? hostKey = some (hostSeparator.intercalate ["a-", "b"]) ∧ HasPort q ∧
        ¬ ∃ c, ofParams q = .ok c ∧ c.hosts = ["a-", "b"] := by
  intro p q names
  have hnames : ∀ name ∈ names, trim name = name ∧ name ≠ "" ∧ ¬ HasSeparator name.toList := by
    decide +kernel
  have hjoined : p.get? hostKey = some (hostSeparator.intercalate names) := by decide +kernel
  have hport : HasPort p := by
    intro raw hraw
    have hspelled : p.get? portKey = some " +09142 " := by decide +kernel
    have htrim : trimChars " +09142 ".toList = '+' :: "09142".toList := by decide
    rw [hspelled, Option.some.injEq] at hraw
    rw [← hraw, htrim]
    exact ⟨_, .plus (by decide) (List.all_eq_true.mp (by decide)), by decide, by decide⟩
  have hjoined' : q.get? hostKey = some (hostSeparator.intercalate ["a-", "b"]) := by decide +kernel
  have hport' : HasPort q := by
    intro raw hraw
    have habsent : q.get? portKey = none := by decide +kernel
    rw [habsent] at hraw
    cases hraw
  obtain ⟨-, -, -, hread⟩ := acceptance_by_grammar p
  obtain ⟨-, -, -, hread'⟩ := acceptance_by_grammar q
  refine ⟨⟨hnames, hjoined, hport, ?_⟩, hjoined', hport', ?_⟩
  · exact (hread names (by decide) hnames hjoined hport).mpr (by decide)
  · rw [hread' ["a-", "b"] (by decide) (by decide +kernel) hjoined' hport']
    decide

end WideRow.SessionConfig
