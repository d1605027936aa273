import Mathlib
import ClusterConfig.Proofs.Network.Hosts
import ClusterConfig.Validation.Cluster

/-!
# Endpoints with a port

A location keeps no port that is the usual one of its scheme. So the port 443 is missed where it is
given, whatever the host, and every other one is found.
-/

set_option autoImplicit false

namespace ClusterConfig

namespace Url

open IpAddress (isAddressChar)
open Network (isNameChar)
open Text (Spells)

variable {s digits rest : List Char} {host : Host} {port : ℕ} {kind : SchemeKind} {bracketed : Bool}

/-! ## Characters -/

/-- A character of an address or a name. -/
def isBareChar (c : Char) : Bool := isAddressChar c || isNameChar c

theorem code_of_isBareChar {c : Char} (h : isBareChar c = true) :
    (45 ≤ c.toNat ∧ c.toNat ≤ 46) ∨ (48 ≤ c.toNat ∧ c.toNat ≤ 58) ∨
      (65 ≤ c.toNat ∧ c.toNat ≤ 70) ∨ (97 ≤ c.toNat ∧ c.toNat ≤ 122) := by
  rw [isBareChar, Bool.or_eq_true] at h
  obtain h | h := h
  · have := IpAddress.code_of_isAddressChar h
    omega
  · have := Network.code_of_isNameChar h
    omega

theorem not_endsAuthority {c : Char} (h : isBareChar c = true) : endsAuthority kind c = false := by
  have hcode := code_of_isBareChar h
  simp [endsAuthority, ← Char.toNat_inj]
  omega

theorem isBareChar_of_parse? {address : IpAddress}
    (h : IpAddress.parse? (String.ofList s) = some address) : ∀ c ∈ s, isBareChar c = true := by
  intro c hc
  simp [isBareChar, IpAddress.chars_of_parse? h c (by simpa using hc)]

theorem isBareChar_of_isNameChar (h : ∀ c ∈ s, isNameChar c = true) :
    ∀ c ∈ s, isBareChar c = true := fun c hc => by
  simp [isBareChar, h c hc]

theorem IsHost.chars (h : IsHost s host) :
    ∀ c ∈ s, isBareChar c = true ∨ c = '[' ∨ c = ']' := by
  cases h with
  | octets h => exact fun c hc => .inl (isBareChar_of_parse? h c hc)
  | groups h =>
    refine List.forall_mem_cons.mpr ⟨by simp, List.forall_mem_append.mpr ⟨fun c hc => ?_, by simp⟩⟩
    exact .inl (isBareChar_of_parse? h c hc)
  | name h => exact fun c hc => .inl (isBareChar_of_isNameChar h.chars c hc)

theorem IsHost.ne_nil (h : IsHost s host) : s ≠ [] := by
  rintro rfl
  cases h with
  | octets h => cases h
  | name h => exact absurd h.name.not_empty (by decide)

/-! ## Parts of a location -/

theorem cleaned_eq (h : ∀ c ∈ s, 0x20 < c.toNat) : cleaned s = s := by
  have hcontrol : ∀ c ∈ s, isControlOrSpace c = false := fun c hc => by
    simp [isControlOrSpace, h c hc]
  have hstart {t : List Char} (ht : ∀ c ∈ t, isControlOrSpace c = false) :
      t.dropWhile isControlOrSpace = t := by
    cases t with
    | nil => rfl
    | cons c t => rw [List.dropWhile_cons, ht c List.mem_cons_self, if_neg Bool.false_ne_true]
  rw [cleaned, hstart hcontrol, hstart fun c hc => hcontrol c (List.mem_reverse.mp hc),
    List.reverse_reverse, List.filter_eq_self]
  intro c hc
  have hcode := h c hc
  simp [← Char.toNat_inj]
  omega

/-- Without an `@` the text has no user. -/
theorem afterUser_eq (h : '@' ∉ s) : afterUser kind s = .ok (false, s) := by
  have hnone : afterLastAt? (s.takeWhile fun c => !endsAuthority kind c) = none := by
    have hall : ∀ c ∈ (s.takeWhile fun c => !endsAuthority kind c).reverse, decide (c ≠ '@') = true := by
      intro c hc
      refine decide_eq_true fun hat => h ?_
      exact hat ▸ (List.takeWhile_prefix _).subset (List.mem_reverse.mp hc)
    rw [afterLastAt?, List.takeWhile_eq_self_iff.mpr hall, List.reverse_reverse, if_pos rfl]
  simp only [afterUser, hnone]

/-- An address or a name belongs to the host, and so do colons in it between brackets. -/
theorem splitHost_append (h : ∀ c ∈ s, isBareChar c = true) (hcolon : ':' ∈ s → bracketed = true) :
    splitHost kind bracketed (s ++ rest) =
      (s ++ (splitHost kind bracketed rest).1, (splitHost kind bracketed rest).2) := by
  induction s with
  | nil => rfl
  | cons c s ih =>
    obtain ⟨hc, hs⟩ := List.forall_mem_cons.mp h
    have hcode := code_of_isBareChar hc
    have hbracket : c ≠ '[' ∧ c ≠ ']' := by
      constructor <;> (rintro rfl; revert hcode; decide)
    have hgoes : ((c = ':' && !bracketed) || endsAuthority kind c) = false := by
      rw [not_endsAuthority hc, Bool.or_false, Bool.and_eq_false_iff]
      by_cases hc : c = ':'
      · exact .inr (by rw [hcolon (hc ▸ List.mem_cons_self), Bool.not_true])
      · exact .inl (decide_eq_false hc)
    rw [List.cons_append, splitHost, hgoes]
    simp only [hbracket, if_false, Bool.false_eq_true,
      ih hs fun hm => hcolon (List.mem_cons_of_mem c hm), List.cons_append]

theorem splitHost_colon (rest : List Char) :
    splitHost kind false (':' :: rest) = ([], ':' :: rest) := by
  rw [splitHost, if_pos]
  simp

theorem splitHost_name (h : ∀ c ∈ s, isNameChar c = true) (rest : List Char) :
    splitHost kind false (s ++ ':' :: rest) = (s, ':' :: rest) := by
  have hcolon : ':' ∉ s := fun hm => absurd (h ':' hm) (by decide)
  rw [splitHost_append (isBareChar_of_isNameChar h) fun hm => absurd hm hcolon, splitHost_colon,
    List.append_nil]

theorem splitHost_bracketed (h : ∀ c ∈ s, isBareChar c = true) (rest : List Char) :
    splitHost .web false ('[' :: (s ++ [']']) ++ ':' :: rest) =
      ('[' :: (s ++ [']']), ':' :: rest) := by
  have hinside : splitHost .web true (s ++ ']' :: ':' :: rest) = (s ++ [']'], ':' :: rest) := by
    rw [splitHost_append h fun _ => rfl, splitHost, if_neg (by decide)]
    simp [splitHost_colon]
  rw [List.cons_append, List.append_assoc, List.singleton_append, splitHost, if_neg (by decide)]
  simp [hinside]

/-- The host ends where the port starts. -/
theorem IsHost.split (h : IsHost s host) (rest : List Char) :
    splitHost .web false (s ++ ':' :: rest) = (s, ':' :: rest) := by
  cases h with
  | octets h =>
    obtain ⟨-, -, htext⟩ := IpAddress.parse?_eq_v4_iff.mp h
    rw [← String.toList_ofList (l := s), htext]
    exact splitHost_name (isNameChar_dotted _) rest
  | groups h => exact splitHost_bracketed (isBareChar_of_parse? h) rest
  | name h => exact splitHost_name h.chars rest

/-- The port of a web location, unless it is the usual one. -/
theorem readPort_eq (h : Spells digits port) (hmost : port ≤ 65535) :
    readPort "https" (':' :: digits) = .ok (if port = 443 then none else some port) := by
  have htake : digits.takeWhile Char.isDigit = digits := List.takeWhile_eq_self_iff.mpr h.digits
  have hvalue : digits.foldl (fun n c => n * 10 + (c.toNat - 48)) 0 = port := by
    rw [← h.value, ← Text.decimalValue_eq]
    rfl
  have husual : usualPorts.lookup "https" = some 443 := by decide
  have hempty : digits.isEmpty = false := List.isEmpty_eq_false_iff.mpr h.not_empty
  simp only [readPort, htake, hvalue, husual, hempty, List.drop_length, List.head?_nil]
  rw [if_neg (by simpa using hmost)]
  by_cases hport : port = 443
  · simp [hport]
  · simp [hport, Ne.symm hport]

/-! ## Locations -/

/-- The location of a host on the web and the digits of its port. -/
def location (s digits : List Char) : String :=
  "https://" ++ String.ofList s ++ ":" ++ String.ofList digits

theorem toList_location (s digits : List Char) :
    (location s digits).toList =
      ['h', 't', 't', 'p', 's'] ++ ':' :: '/' :: '/' :: (s ++ ':' :: digits) := by
  simp [location]

/-- The scheme ends at the first colon. -/
theorem readScheme?_https (rest : List Char) :
    readScheme? (['h', 't', 't', 'p', 's'] ++ ':' :: rest) = some ("https", rest) := by
  have hchars : ∀ c ∈ ['h', 't', 't', 'p', 's'], isSchemeChar c = true :=
    List.all_eq_true.mp (by decide)
  have hscheme : String.ofList (['h', 't', 't', 'p', 's'].map Char.toLower) = "https" := by decide
  have hcolon : isSchemeChar ':' = false := by decide
  rw [readScheme?, List.takeWhile_append_of_pos hchars, List.dropWhile_append_of_pos hchars,
    List.takeWhile_cons_of_neg (by simp [hcolon]), List.dropWhile_cons_of_neg (by simp [hcolon])]
  rw [List.append_nil]
  simp only [hscheme]
  rfl

/-- No slash and no `@` stands in a host, its colon and the digits of a port. -/
theorem code_of_authority (hhost : IsHost s host) (hport : Spells digits port) :
    ∀ c ∈ s ++ ':' :: digits, 45 ≤ c.toNat ∧ c.toNat ≠ 47 ∧ c.toNat ≠ 64 ∧ c.toNat ≠ 92 := by
  rw [List.forall_mem_append, List.forall_mem_cons]
  refine ⟨fun c hc => ?_, by decide, fun c hc => ?_⟩
  · obtain hbare | rfl | rfl := hhost.chars c hc
    · have := code_of_isBareChar hbare
      omega
    all_goals decide
  · have : 48 ≤ c.toNat ∧ c.toNat ≤ 57 := Char.isDigit_iff_toNat.mp (hport.digits c hc)
    omega

theorem cleaned_location (h : ∀ c ∈ s ++ ':' :: digits, 0x20 < c.toNat) :
    cleaned (location s digits).toList = (location s digits).toList := by
  refine cleaned_eq ?_
  rw [toList_location, List.forall_mem_append]
  simp only [List.forall_mem_cons]
  exact ⟨by simp, by decide, by decide, by decide, h⟩

/-- The location is read as a host and a port, but no port is left of the usual one. -/
theorem parse_location (hhost : IsHost s host) (hport : Spells digits port) (hmost : port ≤ 65535) :
    parse (location s digits) = .ok ⟨"https", some host, if port = 443 then none else some port⟩ := by
  have hcode := code_of_authority hhost hport
  have hcleaned := cleaned_location fun c hc => (by decide : 0x20 < 45).trans_le (hcode c hc).1
  have hslashes : ('/' :: '/' :: (s ++ ':' :: digits)).dropWhile isSlash = s ++ ':' :: digits := by
    obtain ⟨c, t, rfl⟩ := List.exists_cons_of_ne_nil hhost.ne_nil
    have hc := hcode c (by simp)
    have hslash : isSlash c = false := by
      simp [isSlash, ← Char.toNat_inj]
      omega
    rw [List.dropWhile_cons_of_pos (by decide), List.dropWhile_cons_of_pos (by decide),
      List.cons_append, List.dropWhile_cons_of_neg (by simp [hslash])]
  have huser : afterUser .web (s ++ ':' :: digits) = .ok (false, s ++ ':' :: digits) :=
    afterUser_eq fun hat => (hcode '@' hat).2.2.1 (by decide)
  have hweb : SchemeKind.of "https" = .web := by decide
  have hempty : s.isEmpty = false := List.isEmpty_eq_false_iff.mpr hhost.ne_nil
  rw [parse, hcleaned, toList_location, readScheme?_https]
  simp only [hweb, hslashes]
  simp [readAuthority, huser, hhost.split, hhost.read, readPort_eq hport hmost, hempty, Except.map,
    bind, Except.bind, pure, Except.pure]

end Url

namespace Validation

open Url (IsHost location)
open Text (Spells)

variable {place : Place} {s digits : List Char} {host : Host} {port : ℕ}

theorem endpointProblem?_location (hhost : IsHost s host) (hport : Spells digits port)
    (hmost : port ≤ 65535) :
    endpointProblem? (location s digits) = if port = 443 then some .noPort else none := by
  rw [endpointProblem?, Url.parse_location hhost hport hmost]
  by_cases hport : port = 443 <;> simp [hport]

theorem endpointIssues_location (hhost : IsHost s host) (hport : Spells digits port)
    (hmost : port ≤ 65535) : endpointIssues place (location s digits) =
      if port = 443 then [⟨.invalidEndpoint, place, "endpoint " ++
        Text.quoted (location s digits) ++ " " ++ EndpointProblem.noPort.message⟩] else [] := by
  have htrim : (Text.trim (location s digits)).isEmpty = false := by
    have hfirst : Text.isBlank 'h' = false := by decide
    rw [Text.trim, Text.trimChars, Url.toList_location, List.cons_append,
      Text.trimStartChars_cons hfirst, Text.trimEndChars_cons hfirst]
    simp
  rw [endpointIssues, htrim, endpointProblem?_location hhost hport hmost]
  by_cases hport : port = 443 <;> simp [hport]

/-- An endpoint with the scheme, a host and a port is accepted exactly if the port is not 443. If it
is, the port that is given is reported as missing, as none is left in the location that is read. -/
theorem explicit_endpoint_accepted_iff (place : Place) (s digits : List Char) (host : Host) (port : ℕ)
    (hhost : IsHost s host) (hport : Spells digits port) (hmost : port ≤ 65535) :
    (endpointIssues place (location s digits) = [] ↔ port ≠ 443) ∧
    (port = 443 → endpointIssues place (location s digits) = [⟨.invalidEndpoint, place, "endpoint " ++
      Text.quoted (location s digits) ++ " " ++ EndpointProblem.noPort.message⟩]) ∧
    Url.parse (location s digits) =
      .ok ⟨"https", some host, if port = 443 then none else some port⟩ := by
  rw [endpointIssues_location hhost hport hmost]
  refine ⟨?_, fun h => if_pos h, Url.parse_location hhost hport hmost⟩
  by_cases h : port = 443 <;> simp [h]

/-- Groups keep their brackets, and a zero in front of a port changes nothing. -/
theorem bracketed_endpoint_accepted :
    location ['[', ':', ':', '1', ']'] ['0', '6', '4', '4', '3'] = "https://[::1]:06443" ∧
      endpointIssues (Place.root.field "endpoint") "https://[::1]:06443" = [] := by
  have htext : location ['[', ':', ':', '1', ']'] ['0', '6', '4', '4', '3'] =
      "https://[::1]:06443" := by decide
  have hhost : IsHost ['[', ':', ':', '1', ']'] (.address (.v6 [0, 0, 0, 0, 0, 0, 0, 1])) :=
    .groups (s := [':', ':', '1']) (by decide +kernel)
  have hport : Spells ['0', '6', '4', '4', '3'] 6443 :=
    ⟨by decide, List.all_eq_true.mp (by decide), by decide⟩
  refine ⟨htext, htext ▸ ?_⟩
  exact (explicit_endpoint_accepted_iff _ _ _ _ _ hhost hport (by decide)).1.mpr (by decide)

/-- The usual port of the scheme is given, and reported as missing. -/
theorem usual_port_missed :
    IsHost "10.0.0.10".toList (.address (.v4 [10, 0, 0, 10])) ∧ Spells ['4', '4', '3'] 443 ∧
      location "10.0.0.10".toList ['4', '4', '3'] = "https://10.0.0.10:443" ∧
      endpointIssues (Place.root.field "endpoint") "https://10.0.0.10:443" =
        [⟨.invalidEndpoint, Place.root.field "endpoint", "endpoint " ++
          Text.quoted "https://10.0.0.10:443" ++ " " ++
          "has no explicit port, e.g. https://10.0.0.10:6443"⟩] := by
  have hhost : IsHost "10.0.0.10".toList (.address (.v4 [10, 0, 0, 10])) :=
    .octets (by decide +kernel)
  have hport : Spells ['4', '4', '3'] 443 := ⟨by decide, List.all_eq_true.mp (by decide), by decide⟩
  have htext : location "10.0.0.10".toList ['4', '4', '3'] = "https://10.0.0.10:443" := by decide
  refine ⟨hhost, hport, htext, ?_⟩
  rw [← htext, endpointIssues_location hhost hport (by decide), if_pos rfl, htext]
  rfl

end Validation

end ClusterConfig
