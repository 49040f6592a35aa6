import WakeRouter.Proofs.Http.Authorities
import WakeRouter.Proofs.Proxy.HostSpelling
import WakeRouter.Proxy.Forward

/-!
# The authority of a machine

A machine is reached at the authority that its address and the port of all machines make up.  The
address can be read back from it by whoever cuts the port off, but for brackets that a literal
address had or had not; so no two machines have one authority, unless they have one address.
-/

namespace WakeRouter

open Http (Uri)

variable {address other host : List Char} {p q : UInt16}

/-- A literal address without its brackets: it has a colon, and no bracket in front. -/
def IsBareLiteral (address : List Char) : Prop :=
  ':' ∈ address ∧ address.head? ≠ some '['

/-- How an address is written in front of a port. -/
inductive StandsAs (address : List Char) : List Char → Prop
  | itself (hplain : ¬IsBareLiteral address) : StandsAs address address
  | bracketed (hbare : IsBareLiteral address) : StandsAs address ('[' :: (address ++ [']']))

/-- The addresses are the same, but for brackets around a literal. -/
inductive SameButBrackets : List Char → List Char → Prop
  | same (address : List Char) : SameButBrackets address address
  | added {address : List Char} (hbare : IsBareLiteral address) :
      SameButBrackets address ('[' :: (address ++ [']']))
  | removed {address : List Char} (hbare : IsBareLiteral address) :
      SameButBrackets ('[' :: (address ++ [']'])) address

theorem not_isBareLiteral_bracketed (address : List Char) :
    ¬IsBareLiteral ('[' :: (address ++ [']'])) :=
  fun hbare => hbare.2 rfl

theorem exists_standsAs (address : List Char) : ∃ host, StandsAs address host := by
  by_cases hbare : IsBareLiteral address
  · exact ⟨_, .bracketed hbare⟩
  · exact ⟨_, .itself hbare⟩

theorem StandsAs.unique {host' : List Char} (hhost : StandsAs address host)
    (hhost' : StandsAs address host') : host = host' := by
  cases hhost with
  | itself hplain =>
      cases hhost' with
      | itself => rfl
      | bracketed hbare => exact absurd hbare hplain
  | bracketed hbare =>
      cases hhost' with
      | itself hplain => exact absurd hbare hplain
      | bracketed => rfl

theorem sameButBrackets_iff :
    SameButBrackets address other ↔ ∃ host, StandsAs address host ∧ StandsAs other host := by
  constructor
  · rintro (_ | hbare | hbare)
    · obtain ⟨host, hhost⟩ := exists_standsAs address
      exact ⟨host, hhost, hhost⟩
    · exact ⟨_, .bracketed hbare, .itself (not_isBareLiteral_bracketed address)⟩
    · exact ⟨_, .itself (not_isBareLiteral_bracketed other), .bracketed hbare⟩
  · rintro ⟨host, hhost, hother⟩
    cases hhost with
    | itself =>
        cases hother with
        | itself => exact .same address
        | bracketed hbare => exact .removed hbare
    | bracketed hbare =>
        generalize hwritten : '[' :: (address ++ [']']) = host at hother
        cases hother with
        | itself => exact hwritten ▸ .added hbare
        | bracketed =>
            obtain rfl : address = other := by simpa using hwritten
            exact .same address

/-! ## Text and parts -/

theorem StandsAs.machineAuthority_eq (hhost : StandsAs address host) (p : UInt16) :
    machineAuthority address p = host ++ ':' :: Text.writeNumber p.toNat := by
  have hbare : (address.contains ':' && address.head? != some '[') = true ↔
      IsBareLiteral address := by
    simp [IsBareLiteral]
  unfold machineAuthority
  cases hhost with
  | itself hplain => simp only [if_neg (hbare.not.mpr hplain)]
  | bracketed hliteral => simp only [if_pos (hbare.mpr hliteral), List.cons_append]

theorem machineAuthority_eq_iff :
    machineAuthority address p = machineAuthority other q ↔
      p = q ∧ SameButBrackets address other := by
  obtain ⟨host, hhost⟩ := exists_standsAs address
  obtain ⟨host', hhost'⟩ := exists_standsAs other
  rw [hhost.machineAuthority_eq, hhost'.machineAuthority_eq, sameButBrackets_iff]
  constructor
  · intro hsame
    obtain ⟨rfl, hport⟩ :=
      eq_of_append_colon hsame (Text.not_mem_writeNumber rfl _) (Text.not_mem_writeNumber rfl _)
    have hnumber := congrArg (Text.digitsValue 0) hport
    rw [Text.digitsValue_writeNumber, Text.digitsValue_writeNumber] at hnumber
    exact ⟨UInt16.toNat_inj.mp hnumber, host, hhost, hhost'⟩
  · rintro ⟨rfl, common, hcommon, hcommon'⟩
    rw [hhost.unique hcommon, hhost'.unique hcommon']

theorem machineAuthority_bracketed (hbare : IsBareLiteral address) (p : UInt16) :
    machineAuthority ('[' :: (address ++ [']'])) p = machineAuthority address p :=
  machineAuthority_eq_iff.mpr ⟨rfl, .removed hbare⟩

/-! ## What is read back -/

theorem StandsAs.hostKey?_eq (hhost : StandsAs address host) (hne : address ≠ [])
    (htrim : Text.trim address = address) (p : UInt16) :
    hostKey? (machineAuthority address p) = some host := by
  have hdigit : ∀ c ∈ Text.writeNumber p.toNat, Text.isBlank c = false := fun c hc =>
    Text.isBlank_of_isDigit (Text.isDigit_of_mem_writeNumber hc)
  have hport : Text.trimEnd (Text.writeNumber p.toNat) = Text.writeNumber p.toNat :=
    Text.trimEnd_eq_self fun c hc => hdigit c (List.mem_of_getLast? hc)
  have hkept : host ≠ [] ∧ Text.trimStart host = host := by
    cases hhost with
    | itself => exact ⟨hne, trimStart_of_trim htrim⟩
    | bracketed => exact ⟨by simp, rfl⟩
  rw [hostKey?_eq_some_iff, hhost.machineAuthority_eq, trim_append_colon, hport, hkept.2]
  exact ⟨hkept.1, .port (Text.not_mem_writeNumber rfl _) (Text.not_mem_writeNumber rfl _)⟩

/-- The authority is that of the address and of no other.  The key read off it is the address, and
a client that takes it apart comes to the host in the address, and to the port. -/
structure Designates (authority address host : List Char) (port : UInt16) : Prop where
  stands : StandsAs address host
  key : address ≠ [] → hostKey? authority = some host
  clientHost : Uri.hostOf authority = Uri.hostOf host
  clientPort : Uri.portOf? authority = some port.toNat
  ownHost : ∀ other, StandsAs other host → SameButBrackets other address
  only : ∀ other p, machineAuthority other p = authority →
    p = port ∧ SameButBrackets other address

theorem designates_of_isAuthority (hauthority : Uri.isAuthority (machineAuthority address p)) :
    ∃ host, Designates (machineAuthority address p) address host p := by
  obtain ⟨host, hhost⟩ := exists_standsAs address
  have htext := hhost.machineAuthority_eq p
  have hblank : ∀ c ∈ address, Text.isBlank c = false := by
    intro c hc
    apply Uri.isBlank_of_mem_authority hauthority
    rw [htext]
    cases hhost <;> simp [hc]
  have htrim : Text.trim address = address :=
    Text.trim_eq_self (fun c hc => hblank c (List.mem_of_mem_head? hc))
      fun c hc => hblank c (List.mem_of_getLast? hc)
  refine ⟨host, ?_⟩
  constructor
  case stands => exact hhost
  case key => exact fun hne => hhost.hostKey?_eq hne htrim p
  case clientHost =>
    rw [htext] at hauthority ⊢
    exact Uri.hostOf_port hauthority (Text.not_mem_writeNumber rfl _)
      (Text.not_mem_writeNumber rfl _)
  case clientPort =>
    rw [htext]
    exact Uri.portOf?_writeNumber host p
  case ownHost => exact fun other hother => sameButBrackets_iff.mpr ⟨host, hother, hhost⟩
  case only => exact fun other q => machineAuthority_eq_iff.mp

end WakeRouter
