import WakeRouter.Proofs.Proxy.HostSpelling
import WakeRouter.Proofs.Text.Number

/-!
# The key of a domain

A request is known by the host that it names, less blanks and the port.  A domain that has
neither a colon nor blanks around it is the key of each request that names it, whatever the port.
-/

namespace WakeRouter

/-- Whether a line of a request can hold the character as text. -/
def isVisible (c : Char) : Bool :=
  c = '\t' || 0x20 ≤ c.toNat && c.toNat < 0x7f

/-- A domain without a port. -/
structure IsDomain (domain : List Char) : Prop where
  visible : ∀ c ∈ domain, isVisible c
  ne_nil : domain ≠ []
  colon : ':' ∉ domain
  first : ∀ c, domain.head? = some c → Text.isBlank c = false
  last : ∀ c, domain.getLast? = some c → Text.isBlank c = false

/-- The domain by itself, or with a port behind it. -/
inductive IsHostOf (domain : List Char) : List Char → Prop
  | bare : IsHostOf domain domain
  | port {digits : List Char} (hdigits : ∀ c ∈ digits, c.isDigit) :
      IsHostOf domain (domain ++ ':' :: digits)

/-- The request names the host: in its first `Host` line, or in its target when it has none. -/
inductive NamesHost (headers : Http.Headers) (uri : Http.Uri) (host : List Char) : Prop
  | line {line : Http.Header} (hline : headers.find? "host" = some line)
      (hvalue : line.value = Text.toUtf8 host) : NamesHost headers uri host
  | target (hline : headers.find? "host" = none)
      (hauthority : uri.authority? = some (String.ofList host)) : NamesHost headers uri host

variable {domain host : List Char}

theorem isVisible_iff {c : Char} :
    isVisible c ↔ c.toNat = 9 ∨ 0x20 ≤ c.toNat ∧ c.toNat < 0x7f := by
  have htab : c = '\t' ↔ c.toNat = 9 := Char.toNat_inj.symm
  simp [isVisible, htab]

theorem isVisible_of_isDigit {c : Char} (hdigit : c.isDigit) : isVisible c := by
  simp only [Char.isDigit, Bool.and_eq_true, decide_eq_true_eq, ge_iff_le,
    UInt32.le_iff_toNat_le] at hdigit
  have hlow : 48 ≤ c.toNat := hdigit.1
  have hhigh : c.toNat ≤ 57 := hdigit.2
  rw [isVisible_iff]
  omega

/-! ## The host that a request names -/

theorem asText?_toUtf8 (hvisible : ∀ c ∈ host, isVisible c) :
    Http.Header.asText? (Text.toUtf8 host) = some host := by
  have hrange : ∀ c ∈ host, c.toNat = 9 ∨ 0x20 ≤ c.toNat ∧ c.toNat < 0x7f :=
    fun c hc => isVisible_iff.mp (hvisible c hc)
  have hbyte : ∀ c ∈ host, (UInt8.ofNat c.toNat).toNat = c.toNat := by
    intro c hc
    have := hrange c hc
    rw [UInt8.toNat_ofNat', Nat.mod_eq_of_lt (by omega)]
  have hbytes : Text.toUtf8 host = host.map fun c => UInt8.ofNat c.toNat := by
    apply Text.toUtf8_of_ascii
    intro c hc
    have := hrange c hc
    omega
  have htext : (host.map fun c => UInt8.ofNat c.toNat).all Http.Header.isTextByte := by
    rw [List.all_map, List.all_eq_true]
    intro c hc
    have := hrange c hc
    have hsame := hbyte c hc
    simp only [Function.comp_apply, Http.Header.isTextByte, Bool.or_eq_true, Bool.and_eq_true,
      beq_iff_eq, decide_eq_true_eq, ← UInt8.toNat_inj, UInt8.le_iff_toNat_le,
      UInt8.lt_iff_toNat_lt, hsame]
    exact this
  have hback : ∀ c ∈ host, Char.ofNat (UInt8.ofNat c.toNat).toNat = c := by
    intro c hc
    rw [hbyte c hc, Char.ofNat_toNat]
  rw [hbytes, Http.Header.asText?, if_pos htext, List.map_map]
  exact congrArg some ((List.map_congr_left hback).trans (List.map_id host))

theorem requestHost?_of_names {headers : Http.Headers} {uri : Http.Uri}
    (hnames : NamesHost headers uri host) (hvisible : ∀ c ∈ host, isVisible c) :
    requestHost? headers uri = some host := by
  cases hnames with
  | line hline hvalue =>
      simp [requestHost?, hline, Http.Header.text?, hvalue, asText?_toUtf8 hvisible]
  | target hline hauthority => simp [requestHost?, hline, hauthority]

/-! ## The key of a host -/

theorem IsDomain.visible_host (hdomain : IsDomain domain) (hhost : IsHostOf domain host) :
    ∀ c ∈ host, isVisible c := by
  cases hhost with
  | bare => exact hdomain.visible
  | port hdigits =>
      intro c hc
      rcases List.mem_append.mp hc with hc | hc
      · exact hdomain.visible c hc
      rcases List.mem_cons.mp hc with rfl | hc
      · decide
      · exact isVisible_of_isDigit (hdigits c hc)

theorem IsDomain.isBareHost (hdomain : IsDomain domain) : IsBareHost domain :=
  .name hdomain.ne_nil hdomain.colon (Text.trim_eq_self hdomain.first hdomain.last)

theorem IsHostOf.isSpelling (hhost : IsHostOf domain host) : IsSpelling domain host := by
  cases hhost with
  | bare =>
      have hbare : IsSpelling domain ([] ++ domain ++ []) := .bare (by simp)
      simpa using hbare
  | @port digits hdigits =>
      have hport : IsSpelling domain ([] ++ (domain ++ ':' :: digits) ++ []) :=
        .port (by simp) (Text.not_mem_of_digits hdigits rfl) (Text.not_mem_of_digits hdigits rfl)
      simpa using hport

/-- The port in a `Host` line does not count. -/
theorem requestKey?_of_names {domain : String} (hdomain : IsDomain domain.toList)
    (hhost : IsHostOf domain.toList host) {headers : Http.Headers} {uri : Http.Uri}
    (hnames : NamesHost headers uri host) : requestKey? headers uri = some domain := by
  rw [requestKey?, requestHost?_of_names hnames (hdomain.visible_host hhost), Option.bind_some,
    hostKey?_of_spelling hdomain.isBareHost hhost.isSpelling, Option.map_some, String.ofList_toList]

end WakeRouter
