import Mathlib.Data.Prod.Lex
import ClusterConfig.Proofs.Text.Parts
import ClusterConfig.Version.Contract

/-!
# Contracts of versions

A version is read number by number, a contract by taking the text apart at its dots. No dot is part
of a number and one stands behind each of the first two, so both readers find the same two numbers,
whatever follows. Contracts are ordered by these numbers, and a later one has all features of an
earlier one.
-/

set_option autoImplicit false

namespace ClusterConfig

open Text (Spells splitAll wordLimit)

variable {s rest major minor : List Char} {text : String} {m n : ℕ}

namespace Version

theorem readNumber_eq_some (h : readNumber s = some (n, rest)) :
    ∃ digits, s = digits ++ rest ∧ Spells digits n ∧ n ≤ wordLimit := by
  rw [readNumber] at h
  split at h
  · cases h
  · obtain ⟨value, hvalue, hsame⟩ := Option.bind_eq_some_iff.mp h
    obtain ⟨rfl, rfl⟩ := Prod.mk.inj (Option.some.inj hsame)
    obtain ⟨hspells, hlimit⟩ := Text.decimal?_eq_some_iff.mp hvalue
    exact ⟨_, List.takeWhile_append_dropWhile.symm, hspells, hlimit⟩

theorem dot?_eq_some (h : dot? s = some rest) : s = '.' :: rest := by
  rw [dot?.eq_def] at h
  split at h
  · rw [Option.some.inj h]
  · cases h

/-- A version starts with its first two numbers and a dot behind each. -/
theorem parse?_numbers {v : Version} (h : parse? s = some v) :
    ∃ major minor rest, s = major ++ '.' :: (minor ++ '.' :: rest) ∧
      (Spells major v.major ∧ v.major ≤ wordLimit) ∧
      (Spells minor v.minor ∧ v.minor ≤ wordLimit) := by
  simp only [parse?, Option.bind_eq_bind, Option.bind_eq_some_iff] at h
  obtain ⟨⟨first, afterMajor⟩, hmajor, beforeMinor, hdot, ⟨second, afterMinor⟩, hminor, beforePatch,
    hdot', ⟨patch, beforePre⟩, -, ⟨pre, beforeBuild⟩, -, ⟨build, last⟩, -, h⟩ := h
  split at h
  · obtain rfl := Option.some.inj h
    obtain ⟨major, rfl, hfirst⟩ := readNumber_eq_some hmajor
    obtain ⟨minor, rfl, hsecond⟩ := readNumber_eq_some hminor
    have hbetween : afterMajor = '.' :: (minor ++ afterMinor) := dot?_eq_some hdot
    have hbehind : afterMinor = '.' :: beforePatch := dot?_eq_some hdot'
    exact ⟨major, minor, beforePatch, by rw [hbetween, hbehind], hfirst, hsecond⟩
  · cases h

end Version

namespace VersionContract

/-- Both numbers are words of 64 bits. -/
structure Fits (c : VersionContract) : Prop where
  major : c.major ≤ wordLimit
  minor : c.minor ≤ wordLimit

/-! ## Texts -/

theorem ofText?_of_parts {parts : List (List Char)}
    (hparts : splitAll '.' (Version.bare text) = major :: minor :: parts)
    (hmajor : Spells major m) (hminor : Spells minor n) (hm : m ≤ wordLimit) (hn : n ≤ wordLimit) :
    ofText? text = some ⟨m, n⟩ := by
  simp only [ofText?, hparts, Text.unsigned?_of_spells hmajor hm,
    Text.unsigned?_of_spells hminor hn]
  rfl

theorem fits_of_ofText? {c : VersionContract} (h : ofText? text = some c) : c.Fits := by
  rw [ofText?] at h
  split at h
  · simp only [Option.bind_eq_bind, Option.bind_eq_some_iff] at h
    obtain ⟨m, hm, n, hn, hsame⟩ := h
    obtain rfl := Option.some.inj hsame
    exact ⟨(Text.unsigned?_eq_some_iff.mp hm).2, (Text.unsigned?_eq_some_iff.mp hn).2⟩
  · cases h

theorem ofText?_of_version {v : Version} (h : Version.ofText? text = some v) :
    ofText? text = some ⟨v.major, v.minor⟩ := by
  obtain ⟨major, minor, rest, hbare, ⟨hmajor, hm⟩, hminor, hn⟩ := Version.parse?_numbers h
  have hparts : splitAll '.' (Version.bare text) = major :: minor :: splitAll '.' rest := by
    rw [hbare, Text.splitAll_append, Text.splitAll_append,
      Text.splitAll_of_not_mem (hmajor.no_mark (by decide)),
      Text.splitAll_of_not_mem (hminor.no_mark (by decide))]
    rfl
  exact ofText?_of_parts hparts hmajor hminor hm hn

theorem bare_text (c : VersionContract) :
    Version.bare c.text = Nat.toDigits 10 c.major ++ '.' :: Nat.toDigits 10 c.minor := by
  have hlist : c.text.toList = 'v' :: (Nat.toDigits 10 c.major ++ '.' :: Nat.toDigits 10 c.minor) := by
    simp [text, Nat.toString_eq_repr]
  have hblank : ∀ x ∈ c.text.toList, Text.isBlank x = false := by
    have hdigit (k : ℕ) : ∀ x ∈ Nat.toDigits 10 k, Text.isBlank x = false := fun x hx =>
      Text.isBlank_of_isAlphanum (by simp [Char.isAlphanum, (Text.spells_toDigits k).digits x hx])
    rw [hlist, List.forall_mem_cons, List.forall_mem_append, List.forall_mem_cons]
    exact ⟨by decide, hdigit _, by decide, hdigit _⟩
  rw [Version.bare, Text.trimChars_of_not_blank hblank, hlist]
  rfl

theorem ofText?_text {c : VersionContract} (h : c.Fits) : ofText? c.text = some c := by
  have hmajor := Text.spells_toDigits c.major
  have hminor := Text.spells_toDigits c.minor
  have hparts : splitAll '.' (Version.bare c.text) =
      [Nat.toDigits 10 c.major, Nat.toDigits 10 c.minor] := by
    rw [bare_text, Text.splitAll_append, Text.splitAll_of_not_mem (hmajor.no_mark (by decide)),
      Text.splitAll_of_not_mem (hminor.no_mark (by decide))]
    rfl
  exact ofText?_of_parts hparts hmajor hminor h.major h.minor

/-! ## Order -/

/-- The numbers of a contract, the major one counting first. -/
def numbers (c : VersionContract) : ℕ ×ₗ ℕ := toLex (c.major, c.minor)

theorem compare_eq (c d : VersionContract) : c.compare d = Ord.compare c.numbers d.numbers := by
  rw [Prod.Lex.compare_def]
  rfl

theorem isLE_compare (c d : VersionContract) : (c.compare d).isLE = true ↔ c.numbers ≤ d.numbers := by
  rw [compare_eq, Ordering.isLE_iff_ne_gt]
  exact compare_le_iff_le

theorem atLeast_iff (c : VersionContract) (major minor : ℕ) :
    c.atLeast major minor = true ↔ numbers ⟨major, minor⟩ ≤ c.numbers := by
  rw [atLeast, compare_eq, Ordering.isGE_iff_ne_lt]
  exact compare_ge_iff_ge

/-- A feature that comes with some version stays in all later ones. -/
theorem atLeast_mono {c d : VersionContract} (h : (c.compare d).isLE = true) {major minor : ℕ}
    (hc : c.atLeast major minor = true) : d.atLeast major minor = true :=
  (atLeast_iff d major minor).mpr
    (((atLeast_iff c major minor).mp hc).trans ((isLE_compare c d).mp h))

/-- The text of a version is the text of a contract with the same numbers, and every contract of
64-bit numbers is read back from its own text; no other contract is read. Contracts are ordered by
their numbers, and none has a feature that a later one lacks. -/
theorem contracts_follow_versions :
    (∀ (text : String) (v : Version), Version.ofText? text = some v →
      ofText? text = some ⟨v.major, v.minor⟩) ∧
    (∀ c : VersionContract, c.Fits ↔ ∃ text, ofText? text = some c) ∧
    (∀ c : VersionContract, c.Fits → ofText? c.text = some c) ∧
    (∀ c d : VersionContract, c.compare d =
      Ord.compare (toLex (c.major, c.minor) : ℕ ×ₗ ℕ) (toLex (d.major, d.minor))) ∧
    ∀ c d : VersionContract, (c.compare d).isLE = true →
      (c.kubePrism = true → d.kubePrism = true) ∧ (c.hostDns = true → d.hostDns = true) ∧
      (c.userVolumes = true → d.userVolumes = true) :=
  ⟨fun _ _ h => ofText?_of_version h,
    fun c => ⟨fun h => ⟨c.text, ofText?_text h⟩, fun ⟨_, h⟩ => fits_of_ofText? h⟩,
    fun _ h => ofText?_text h, compare_eq,
    fun _ _ h => ⟨atLeast_mono h, atLeast_mono h, atLeast_mono h⟩⟩

/-- A version with a letter, blanks, a pre-release and a build part, and the largest word as its
minor version. -/
theorem decorated_version_contract :
    let text := " v1.18446744073709551615.0-rc.1+2.03\n"
    let version : Version := ⟨1, 18446744073709551615, 0, "rc.1", "2.03"⟩
    let contract : VersionContract := ⟨1, 18446744073709551615⟩
    Version.ofText? text = some version ∧ ofText? text = some contract ∧
    contract.Fits ∧ ofText? contract.text = some contract ∧
    (VersionContract.compare ⟨1, 9⟩ contract).isLE = true ∧
    (VersionContract.hostDns ⟨1, 9⟩ = true → contract.hostDns = true) := by
  intro text version contract
  obtain ⟨hversions, -, htexts, -, hfeatures⟩ := contracts_follow_versions
  have hversion : Version.ofText? text = some version := by decide +kernel
  have hfits : contract.Fits := ⟨by decide, by decide⟩
  have hle : (VersionContract.compare ⟨1, 9⟩ contract).isLE = true := by decide
  exact ⟨hversion, hversions text version hversion, hfits, htexts contract hfits, hle,
    (hfeatures _ _ hle).2.1⟩

end VersionContract

end ClusterConfig
