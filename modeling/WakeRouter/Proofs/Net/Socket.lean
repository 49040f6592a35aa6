import WakeRouter.Net.Socket
import WakeRouter.Proofs.Net.Ip

/-!
# Addresses to listen on read back

A written address ends in its port, and what stands before the port keeps apart from it:
a colon behind four octets, a bracket behind an IPv6 address and its scope.
-/

namespace WakeRouter.Net.SocketAddress

open Text (Stops stops_nil stops_cons)

variable {rest : List Char}

theorem scanBounded_writeNumber {n bound : Nat} (hn : n < bound)
    (hrest : Stops Char.isDigit rest) :
    scanBounded bound (Text.writeNumber n ++ rest) = some (n, rest) := by
  simp [scanBounded, scanDecimal_writeNumber n hrest, hn]

theorem scanPort_writeNumber (port : UInt16) :
    scanPort (':' :: Text.writeNumber port.toNat) = some (port, []) := by
  have hscan := scanBounded_writeNumber port.toNat_lt stops_nil
  rw [List.append_nil] at hscan
  simp [scanPort, after?, hscan]

theorem scanScope_zero {s : List Char} (hs : after? '%' s = none) : scanScope s = (0, s) := by
  simp [scanScope, hs]

theorem scanScope_writeNumber (scope : UInt32) (hrest : Stops Char.isDigit rest) :
    scanScope ('%' :: Text.writeNumber scope.toNat ++ rest) = (scope, rest) := by
  have hscan := scanBounded_writeNumber scope.toNat_lt hrest
  simp [scanScope, after?, hscan]

theorem read?_v4 (ip : Ipv4) (port : UInt16) :
    read? (text (.v4 ip port)) = some (.v4 ip port) := by
  let behind := ':' :: Text.writeNumber port.toNat
  have hip : Ipv4.scan (ip.text ++ behind) = some (ip, behind) :=
    Ipv4.scan_text ip (stops_cons (by decide))
  simp [read?, text, scanV4, hip, behind, scanPort_writeNumber]

/-- Between an IPv6 address and its closing bracket stands the scope, unless it is zero. -/
def scopeText (scope : UInt32) : List Char :=
  if scope = 0 then [] else '%' :: Text.writeNumber scope.toNat

theorem text_v6 (ip : Ipv6) (scope : UInt32) (port : UInt16) :
    text (.v6 ip scope port) =
      '[' :: (ip.text ++ (scopeText scope ++ ']' :: ':' :: Text.writeNumber port.toNat)) := by
  simp [text, scopeText]

theorem scanScope_scopeText (scope : UInt32) :
    scanScope (scopeText scope ++ ']' :: rest) = (scope, ']' :: rest) := by
  by_cases hscope : scope = 0
  · subst hscope
    exact scanScope_zero (by simp [scopeText, after?])
  · rw [scopeText, if_neg hscope]
    exact scanScope_writeNumber scope (stops_cons (by decide))

theorem stops_scopeText (scope : UInt32) :
    Stops Ipv6.isAddressChar (scopeText scope ++ ']' :: rest) := by
  by_cases hscope : scope = 0
  · rw [scopeText, if_pos hscope]
    exact stops_cons (by decide)
  · rw [scopeText, if_neg hscope]
    exact stops_cons (by decide)

theorem read?_v6 (ip : Ipv6) (scope : UInt32) (port : UInt16) :
    read? (text (.v6 ip scope port)) = some (.v6 ip scope port) := by
  let behind := scopeText scope ++ ']' :: ':' :: Text.writeNumber port.toNat
  have hv4 : scanV4 ('[' :: (ip.text ++ behind)) = none := by
    have hscan : Ipv4.scan ('[' :: (ip.text ++ behind)) = none :=
      Ipv4.scan_eq_none_of_stops (stops_cons (by decide))
    simp [scanV4, hscan]
  have hip : Ipv6.scan (ip.text ++ behind) = some (ip, behind) :=
    Ipv6.scan_text ip (stops_scopeText scope)
  have hscope : scanScope behind = (scope, ']' :: ':' :: Text.writeNumber port.toNat) :=
    scanScope_scopeText scope
  have hv6 : scanV6 ('[' :: (ip.text ++ behind)) = some (.v6 ip scope port, []) := by
    simp [scanV6, after?, hip, hscope, scanPort_writeNumber]
  rw [text_v6, read?, hv4, hv6]
  rfl

theorem read?_text (address : SocketAddress) : read? address.text = some address := by
  cases address with
  | v4 ip port => exact read?_v4 ip port
  | v6 ip scope port => exact read?_v6 ip scope port

/-- The longest run of zeros is left out, the scope is kept. -/
example : (read? "[fe80:0:0:1:0:0:0:7%0012]:0443".toList).map text =
    some "[fe80:0:0:1::7%12]:443".toList := by decide +kernel

end WakeRouter.Net.SocketAddress
