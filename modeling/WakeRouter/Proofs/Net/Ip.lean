import WakeRouter.Net.Ip
import WakeRouter.Proofs.Text.Number

/-!
# Network addresses read back

A scan that meets a written address takes exactly that address and leaves the text
behind it, as long as that text does not go on as an address would.  For IPv6 the one
thing to know about the shortest form is that the run it leaves out is a run of zeros.
-/

namespace WakeRouter.Net

open Text (Stops stops_cons takeWhile_of_stops dropWhile_of_stops takeWhile_append_of_stops
  dropWhile_append_of_stops)

variable {digits rest s : List Char}

/-! ## IPv4 -/

theorem after?_append (c : Char) (s : List Char) : after? c (c :: s) = some s := by
  simp [after?]

theorem after?_eq_some_iff {c : Char} {body : List Char} :
    after? c s = some body ↔ s = c :: body := by
  cases s with
  | nil => simp [after?]
  | cons x s => simp [after?]

theorem scanDecimal_writeNumber (n : Nat) (hrest : Stops Char.isDigit rest) :
    scanDecimal (Text.writeNumber n ++ rest) = some (Text.writeNumber n, n, rest) := by
  have hall : ∀ c ∈ Text.writeNumber n, c.isDigit := fun c hc => Text.isDigit_of_mem_writeNumber hc
  simp [scanDecimal, takeWhile_append_of_stops hall hrest, dropWhile_append_of_stops hall hrest,
    Text.writeNumber_ne_nil, Text.digitsValue_writeNumber]

theorem scanDecimal_eq_none (hs : Stops Char.isDigit s) : scanDecimal s = none := by
  simp [scanDecimal, takeWhile_of_stops hs]

namespace Ipv4

theorem scanOctet_writeNumber (b : UInt8) (hrest : Stops Char.isDigit rest) :
    scanOctet (Text.writeNumber b.toNat ++ rest) = some (b, rest) := by
  have hbyte : b.toNat < 256 := b.toNat_lt
  have hlength : (Text.writeNumber b.toNat).length ≤ 3 :=
    Text.length_writeNumber_le (by decide) (by omega)
  have hzero : (Text.writeNumber b.toNat).head? = some '0' →
      (Text.writeNumber b.toNat).length = 1 := by
    intro hhead
    rw [Text.eq_zero_of_head?_writeNumber hhead]
    rfl
  simp only [scanOctet, scanDecimal_writeNumber b.toNat hrest, hlength, hbyte, true_and]
  rw [if_pos hzero, UInt8.ofNat_toNat]

theorem scan_text (ip : Ipv4) (hrest : Stops Char.isDigit rest) :
    scan (ip.text ++ rest) = some (ip, rest) := by
  have hdot : ∀ s, Stops Char.isDigit ('.' :: s) := fun s => stops_cons (by decide)
  simp [scan, text, scanOctet_writeNumber, after?_append, hdot, hrest]

theorem scan_eq_none_of_stops (hs : Stops Char.isDigit s) : scan s = none := by
  simp [scan, scanOctet, scanDecimal_eq_none hs]

/-- An address needs a dot after its first digits. -/
theorem scan_eq_none (hs : (s.dropWhile Char.isDigit).head? ≠ some '.') : scan s = none := by
  cases hoctet : scanOctet s with
  | none => simp [scan, hoctet]
  | some octet =>
    obtain ⟨a, after⟩ := octet
    have hafter : after = s.dropWhile Char.isDigit := by
      simp only [scanOctet, scanDecimal] at hoctet
      grind
    have hdot : after? '.' after = none := by
      cases hbody : after? '.' after with
      | none => rfl
      | some body =>
        have hhead := after?_eq_some_iff.mp hbody
        rw [← hafter, hhead] at hs
        exact absurd rfl hs
    simp [scan, hoctet, hdot]

theorem toGroups_ofGroups (high low : UInt16) : (ofGroups high low).toGroups = [high, low] := by
  have hword : ∀ w : UInt16, (w / 256).toUInt8.toUInt16 * 256 + w.toUInt8.toUInt16 = w := by
    intro w
    apply UInt16.toNat_inj.mp
    have hw := w.toNat_lt
    simp
    omega
  simp only [ofGroups, toGroups, hword]

end Ipv4

/-! ## IPv6 -/

namespace Ipv6

/-- A text behind which no group of an address can follow. -/
structure Ends (rest : List Char) : Prop where
  stops : Stops isHexDigit rest
  noDot : rest.head? ≠ some '.'
  noGroup : ∀ body, rest = ':' :: body → Stops isHexDigit body

theorem isHexDigit_of_isDigit {c : Char} (hc : c.isDigit) : isHexDigit c := by
  simp only [Char.isDigit, Bool.and_eq_true, decide_eq_true_eq, ge_iff_le,
    UInt32.le_iff_toNat_le] at hc
  have hlow : '0'.toNat ≤ c.toNat := hc.1
  have hhigh : c.toNat ≤ '9'.toNat := hc.2
  rw [isHexDigit, Text.hexValue?, if_pos ⟨hlow, hhigh⟩]
  rfl

theorem stops_isDigit (hs : Stops isHexDigit s) : Stops Char.isDigit s := by
  intro c hc
  cases hdigit : c.isDigit with
  | false => rfl
  | true =>
    have := hs c hc
    rw [isHexDigit_of_isDigit hdigit] at this
    cases this

theorem isHexDigit_of_mem_writeHex {n : Nat} {c : Char} (hc : c ∈ Text.writeHex n) :
    isHexDigit c :=
  Text.hexValue?_of_mem_writeHex hc

theorem scanGroup_writeHex (g : UInt16) (hrest : Stops isHexDigit rest) :
    scanGroup (Text.writeHex g.toNat ++ rest) = some (g, rest) := by
  have hall : ∀ c ∈ Text.writeHex g.toNat, isHexDigit c := fun c hc => isHexDigit_of_mem_writeHex hc
  have hlength : (Text.writeHex g.toNat).length ≤ 4 :=
    Text.length_writeHex_le (by decide) g.toNat_lt
  simp [scanGroup, takeWhile_append_of_stops hall hrest, dropWhile_append_of_stops hall hrest,
    Text.writeHex_ne_nil, Nat.not_lt.mpr hlength, Text.foldl_hexValue?_writeHex]

theorem scanGroup_eq_none (hs : Stops isHexDigit s) : scanGroup s = none := by
  simp [scanGroup, takeWhile_of_stops hs]

/-- Behind the digits of a group there is no dot, so the group does not begin an IPv4
address. -/
theorem scan_group_eq_none (hdigits : ∀ c ∈ digits, isHexDigit c)
    (hrest : Stops isHexDigit rest) (hdot : rest.head? ≠ some '.') :
    Ipv4.scan (digits ++ rest) = none := by
  apply Ipv4.scan_eq_none
  induction digits with
  | nil =>
    rw [List.nil_append, dropWhile_of_stops (stops_isDigit hrest)]
    exact hdot
  | cons c digits ih =>
    cases hdigit : c.isDigit with
    | true =>
      rw [List.cons_append, List.dropWhile_cons_of_pos hdigit]
      exact ih fun d hd => hdigits d (List.mem_cons_of_mem c hd)
    | false =>
      rw [List.cons_append, List.dropWhile_cons_of_neg (by simp [hdigit])]
      intro hhead
      have hc : isHexDigit '.' := by
        rw [← Option.some.inj hhead]
        exact hdigits c List.mem_cons_self
      revert hc
      decide

/-- Groups with a colon before each of them. -/
def colonGroups (groups : List UInt16) : List Char :=
  groups.flatMap fun g => ':' :: Text.writeHex g.toNat

theorem groupsText_cons (g : UInt16) (groups : List UInt16) :
    groupsText (g :: groups) = Text.writeHex g.toNat ++ colonGroups groups := by
  induction groups generalizing g with
  | nil => simp [groupsText, colonGroups, List.intercalate]
  | cons h groups ih =>
    have := ih h
    simp only [groupsText, colonGroups, List.intercalate, List.map_cons, List.intersperse_cons_cons,
      List.flatten_cons, List.flatMap_cons] at this ⊢
    simp [this]

theorem stops_colonGroups (groups : List UInt16) (hrest : Ends rest) :
    Stops isHexDigit (colonGroups groups ++ rest) := by
  cases groups with
  | nil => exact hrest.stops
  | cons g groups => exact stops_cons (by decide)

theorem noDot_colonGroups (groups : List UInt16) (hrest : Ends rest) :
    (colonGroups groups ++ rest).head? ≠ some '.' := by
  cases groups with
  | nil => exact hrest.noDot
  | cons g groups => simp [colonGroups]

/-- A scan that may still take a group, and stands at none, takes nothing. -/
theorem scanGroups_eq_nil {first : Bool} {room : Nat}
    (hbody : ∀ body, (if first then some s else after? ':' s) = some body → Stops isHexDigit body) :
    scanGroups room first s = ([], false, s) := by
  cases room with
  | zero => rfl
  | succ room =>
    cases hfront : if first then some s else after? ':' s with
    | none => simp [scanGroups, hfront]
    | some body =>
      have hstop := hbody body hfront
      have hdotted : Ipv4.scan body = none := Ipv4.scan_eq_none_of_stops (stops_isDigit hstop)
      simp [scanGroups, hfront, hdotted, scanGroup_eq_none hstop]

theorem scanGroups_group {first : Bool} {room : Nat} {g : UInt16}
    (hfront : (if first then some s else after? ':' s) = some (Text.writeHex g.toNat ++ rest))
    (hstop : Stops isHexDigit rest) (hdot : rest.head? ≠ some '.') :
    scanGroups (room + 1) first s =
      (g :: (scanGroups room false rest).1, (scanGroups room false rest).2) := by
  have hall : ∀ c ∈ Text.writeHex g.toNat, isHexDigit c := fun c hc => isHexDigit_of_mem_writeHex hc
  have hdotted : Ipv4.scan (Text.writeHex g.toNat ++ rest) = none :=
    scan_group_eq_none hall hstop hdot
  simp [scanGroups, hfront, hdotted, scanGroup_writeHex g hstop]

theorem scanGroups_colonGroups {groups : List UInt16} {room : Nat} (hroom : groups.length ≤ room)
    (hrest : Ends rest) :
    scanGroups room false (colonGroups groups ++ rest) = (groups, false, rest) := by
  induction groups generalizing room with
  | nil =>
    apply scanGroups_eq_nil
    intro body hbody
    exact hrest.noGroup body (after?_eq_some_iff.mp hbody)
  | cons g groups ih =>
    obtain ⟨room, rfl⟩ : ∃ more, room = more + 1 := ⟨room - 1, by simp at hroom; omega⟩
    have hfront : (if false then some (colonGroups (g :: groups) ++ rest)
        else after? ':' (colonGroups (g :: groups) ++ rest)) =
        some (Text.writeHex g.toNat ++ (colonGroups groups ++ rest)) := by
      simp [colonGroups, after?]
    rw [scanGroups_group hfront (stops_colonGroups groups hrest) (noDot_colonGroups groups hrest),
      ih (by simpa using hroom)]

theorem scanGroups_groupsText {groups : List UInt16} {room : Nat} (hroom : groups.length ≤ room)
    (hrest : Ends rest) :
    scanGroups room true (groupsText groups ++ rest) = (groups, false, rest) := by
  cases groups with
  | nil =>
    apply scanGroups_eq_nil
    intro body hbody
    cases hbody
    exact hrest.stops
  | cons g groups =>
    obtain ⟨room, rfl⟩ : ∃ more, room = more + 1 := ⟨room - 1, by simp at hroom; omega⟩
    have hfront : (if true then some (groupsText (g :: groups) ++ rest)
        else after? ':' (groupsText (g :: groups) ++ rest)) =
        some (Text.writeHex g.toNat ++ (colonGroups groups ++ rest)) := by
      simp [groupsText_cons]
    rw [scanGroups_group hfront (stops_colonGroups groups hrest) (noDot_colonGroups groups hrest),
      scanGroups_colonGroups (by simpa using hroom) hrest]

/-! ### The run of zeros -/

/-- From `start` on, `length` of the groups are zero. -/
structure ZeroRun (groups : List UInt16) (start length : Nat) : Prop where
  bounds : start + length ≤ groups.length
  zero : ∀ i, start ≤ i → i < start + length → groups[i]? = some 0

theorem ZeroRun.append {groups : List UInt16} {start length : Nat}
    (hrun : ZeroRun groups start length) (more : List UInt16) :
    ZeroRun (groups ++ more) start length := by
  constructor
  · have := hrun.bounds
    simp
    omega
  · intro i hlow hhigh
    have hbound : i < groups.length := Nat.lt_of_lt_of_le hhigh hrun.bounds
    rw [List.getElem?_append_left hbound]
    exact hrun.zero i hlow hhigh

/-- A zero behind the groups makes a run at their end longer. -/
theorem ZeroRun.longer {groups : List UInt16} {start length : Nat}
    (hrun : ZeroRun groups start length) (hend : start + length = groups.length) :
    ZeroRun (groups ++ [0]) start (length + 1) := by
  constructor
  · simp
    omega
  · intro i hlow hhigh
    by_cases hlast : i = groups.length
    · simp [hlast]
    · exact (hrun.append [0]).zero i hlow (by omega)

/-- Where a run of zeros is cut out, zeros put it back. -/
theorem ZeroRun.split {groups : List UInt16} {start length : Nat}
    (hrun : ZeroRun groups start length) :
    groups.take start ++ List.replicate length 0 ++ groups.drop (start + length) = groups := by
  have hmiddle : (groups.drop start).take length = List.replicate length 0 := by
    apply List.ext_getElem?
    intro i
    by_cases hi : i < length
    · rw [List.getElem?_take_of_lt hi, List.getElem?_drop, List.getElem?_replicate_of_lt hi]
      exact hrun.zero (start + i) (by omega) (by omega)
    · rw [List.getElem?_eq_none (by simp; omega), List.getElem?_eq_none (by simp; omega)]
  rw [← hmiddle, ← List.drop_drop, List.append_assoc, List.take_append_drop,
    List.take_append_drop]

/-- What is true at each place of a list that a fold goes through is true at its end. -/
theorem foldl_of_step {β : Type} {f : β → UInt16 → β} {P : List UInt16 → β → Prop}
    (hstep : ∀ before b g, P before b → P (before ++ [g]) (f b g)) (groups : List UInt16)
    {before : List UInt16} {b : β} (hb : P before b) : P (before ++ groups) (groups.foldl f b) := by
  induction groups generalizing before b with
  | nil => simpa using hb
  | cons g groups ih => simpa using ih (hstep before b g hb)

/-- What the search for the longest run knows behind the groups it has seen: its place,
the run that ends there, and the best run so far. -/
structure Searching (before : List UInt16) (found : Nat × Nat × Nat × (Nat × Nat)) : Prop where
  index : found.1 = before.length
  current : ZeroRun before found.2.1 found.2.2.1
  atEnd : found.2.2.1 ≠ 0 → found.2.1 + found.2.2.1 = before.length
  best : ZeroRun before found.2.2.2.1 found.2.2.2.2

theorem zeroRun_empty (groups : List UInt16) : ZeroRun groups groups.length 0 :=
  ⟨by simp, fun i hlow hhigh => absurd hhigh (by omega)⟩

theorem zeroRun_nil (groups : List UInt16) : ZeroRun groups 0 0 :=
  ⟨by simp, fun i _ hi => absurd hi (by omega)⟩

theorem zeroRun_longestZeros (groups : List UInt16) :
    ZeroRun groups (longestZeros groups).1 (longestZeros groups).2 := by
  have hstart : Searching [] (0, 0, 0, (0, 0)) :=
    ⟨rfl, zeroRun_nil [], fun h => absurd rfl h, zeroRun_nil []⟩
  -- The step of the search is local to it, so the invariant is carried by the fold itself.
  unfold longestZeros
  refine Searching.best (foldl_of_step ?_ groups hstart)
  rintro before ⟨index, start, length, best⟩ g ⟨hindex, hcurrent, hatEnd, hbest⟩
  dsimp only at hindex hcurrent hatEnd hbest ⊢
  by_cases hg : g = 0
  · subst hg
    have hrun : ZeroRun (before ++ [0]) (if length = 0 then index else start) (length + 1) := by
      by_cases hlength : length = 0
      · rw [if_pos hlength, hlength, hindex]
        exact (zeroRun_empty before).longer rfl
      · rw [if_neg hlength]
        exact hcurrent.longer (hatEnd hlength)
    have hlast : (if length = 0 then index else start) + (length + 1) = (before ++ [0]).length := by
      by_cases hlength : length = 0
      · rw [if_pos hlength]
        simp [hlength, hindex]
      · have := hatEnd hlength
        rw [if_neg hlength]
        simp
        omega
    rw [if_pos rfl]
    refine ⟨by simp [hindex], hrun, fun _ => hlast, ?_⟩
    dsimp only
    split
    · exact hrun
    · exact hbest.append [0]
  · rw [if_neg hg]
    exact ⟨by simp [hindex], zeroRun_nil _, fun h => absurd rfl h, hbest.append [g]⟩

/-! ### The shortest form -/

/-- What may not follow an address. -/
def isAddressChar (c : Char) : Bool :=
  isHexDigit c || c == '.' || c == ':'

theorem ends_of_stops (hrest : Stops isAddressChar rest) : Ends rest := by
  have hall : ∀ c, rest.head? = some c → isHexDigit c = false ∧ c ≠ '.' ∧ c ≠ ':' := by
    intro c hc
    simpa [isAddressChar, and_assoc] using hrest c hc
  refine ⟨fun c hc => (hall c hc).1, fun hc => (hall '.' hc).2.1 rfl, ?_⟩
  rintro body rfl
  exact absurd rfl (hall ':' rfl).2.2

theorem ends_gap (back : List Char) : Ends (':' :: ':' :: back) := by
  refine ⟨stops_cons (by decide), by simp, ?_⟩
  rintro body hbody
  cases hbody
  exact stops_cons (by decide)

theorem ofList?_groups (ip : Ipv6) : ofList? ip.groups = some ip := by
  simp [ofList?, ip.length_groups]

theorem scan_full (ip : Ipv6) (hrest : Ends rest) :
    scan (groupsText ip.groups ++ rest) = some (ip, rest) := by
  have hfront : scanGroups 8 true (groupsText ip.groups ++ rest) = (ip.groups, false, rest) :=
    scanGroups_groupsText (by simp [ip.length_groups]) hrest
  simp [scan, hfront, ip.length_groups, ofList?_groups]

/-- Around `::` stand the groups before and behind at least one zero. -/
theorem scan_gap (ip : Ipv6) {front back : List UInt16} {length : Nat} (hlength : 0 < length)
    (hgroups : front ++ List.replicate length 0 ++ back = ip.groups) (hrest : Ends rest) :
    scan (groupsText front ++ ':' :: ':' :: groupsText back ++ rest) = some (ip, rest) := by
  have htotal : front.length + length + back.length = 8 := by
    rw [← ip.length_groups, ← hgroups]
    simp
    omega
  have hfront : scanGroups 8 true (groupsText front ++ (':' :: ':' :: (groupsText back ++ rest))) =
      (front, false, ':' :: ':' :: (groupsText back ++ rest)) :=
    scanGroups_groupsText (by omega) (ends_gap _)
  have hback : scanGroups (7 - front.length) true (groupsText back ++ rest) =
      (back, false, rest) := scanGroups_groupsText (by omega) hrest
  have hgap : 8 - front.length - back.length = length := by omega
  have hshort : front.length ≠ 8 := by omega
  have hread : ofList? (front ++ List.replicate length 0 ++ back) = some ip := by
    rw [hgroups, ofList?_groups]
  rw [List.append_assoc] at hread
  simp [scan, hfront, hback, hshort, hgap, hread, Text.dropPrefix?]

/-- An address may leave its first groups out. -/
theorem scan_frontGap {tail : List Char} {back : List UInt16} {dotted : Bool}
    (hback : scanGroups 7 true tail = (back, dotted, rest)) :
    scan (':' :: ':' :: tail) =
      (ofList? (List.replicate (8 - back.length) 0 ++ back)).map (·, rest) := by
  have hfront : scanGroups 8 true (':' :: ':' :: tail) = ([], false, ':' :: ':' :: tail) := by
    apply scanGroups_eq_nil
    rintro body hbody
    cases hbody
    exact stops_cons (by decide)
  simp [scan, hfront, hback, Text.dropPrefix?]

theorem scan_mapped (ip : Ipv6) {high low : UInt16}
    (hgroups : ip.groups = [0, 0, 0, 0, 0, 0xffff, high, low]) (hrest : Stops Char.isDigit rest) :
    scan ("::ffff:".toList ++ (Ipv4.ofGroups high low).text ++ rest) = some (ip, rest) := by
  let behind := ':' :: (Ipv4.ofGroups high low).text ++ rest
  have hbehind : scanGroups 6 false behind = ([high, low], true, rest) := by
    simp [scanGroups, after?, behind, Ipv4.scan_text _ hrest, Ipv4.toGroups_ofGroups]
  have hgroup : Text.writeHex (0xffff : UInt16).toNat = "ffff".toList := by decide +kernel
  have hback : scanGroups 7 true ("ffff".toList ++ behind) = ([0xffff, high, low], true, rest) := by
    have hbody : (if true then some ("ffff".toList ++ behind)
        else after? ':' ("ffff".toList ++ behind)) =
        some (Text.writeHex (0xffff : UInt16).toNat ++ behind) := by rw [hgroup, if_pos rfl]
    rw [scanGroups_group hbody (stops_cons (by decide)) (by simp [behind]), hbehind]
  have hread : ofList? (List.replicate (8 - 3) 0 ++ [0xffff, high, low]) = some ip := by
    rw [show List.replicate (8 - 3) 0 ++ [0xffff, high, low] = ip.groups from hgroups.symm,
      ofList?_groups]
  have htext : "::ffff:".toList ++ (Ipv4.ofGroups high low).text ++ rest =
      ':' :: ':' :: ("ffff".toList ++ behind) := by simp [behind]
  rw [htext, scan_frontGap hback]
  exact congrArg (Option.map (·, rest)) hread

theorem scan_text (ip : Ipv6) (hrest : Stops isAddressChar rest) :
    scan (ip.text ++ rest) = some (ip, rest) := by
  have hends := ends_of_stops hrest
  unfold text
  split
  · rename_i high low hgroups
    exact scan_mapped ip hgroups (stops_isDigit hends.stops)
  · by_cases hgap : (longestZeros ip.groups).2 > 1
    · have hsplit := (zeroRun_longestZeros ip.groups).split
      simpa [hgap] using scan_gap ip (by omega) hsplit hends
    · simpa [hgap] using scan_full ip hends

end Ipv6

/-! ## The characters of an address -/

theorem Ipv6.bounds_of_isAddressChar {c : Char} (hc : Ipv6.isAddressChar c) :
    46 ≤ c.toNat ∧ c.toNat ≤ 102 := by
  simp only [isAddressChar, Bool.or_eq_true, beq_iff_eq] at hc
  rcases hc with (hhex | rfl) | rfl
  · simp only [isHexDigit, Text.hexValue?, Char.reduceToNat] at hhex
    split at hhex
    next => omega
    next =>
      split at hhex
      next => omega
      next =>
        split at hhex
        next => omega
        next => cases hhex
  · decide
  · decide

theorem Ipv4.isAddressChar_of_mem_text {ip : Ipv4} {c : Char} (hc : c ∈ ip.text) :
    Ipv6.isAddressChar c := by
  have hdigit : ∀ {n : Nat}, c ∈ Text.writeNumber n → Ipv6.isAddressChar c := by
    intro n hn
    simp [Ipv6.isAddressChar, Ipv6.isHexDigit_of_isDigit (Text.isDigit_of_mem_writeNumber hn)]
  simp only [text, List.mem_append, List.mem_cons] at hc
  rcases hc with ((ha | rfl | hb) | rfl | hrest) | rfl | hd
  all_goals first | exact hdigit ‹_› | decide

theorem Ipv6.isAddressChar_of_mem_groupsText {groups : List UInt16} {c : Char}
    (hc : c ∈ groupsText groups) : isAddressChar c := by
  have hgroup : ∀ {n : Nat}, c ∈ Text.writeHex n → isAddressChar c := by
    intro n hn
    simp [isAddressChar, isHexDigit_of_mem_writeHex hn]
  cases groups with
  | nil => cases hc
  | cons g groups =>
    rw [groupsText_cons, List.mem_append] at hc
    rcases hc with hfirst | hmore
    · exact hgroup hfirst
    · obtain ⟨h, -, hh⟩ := List.mem_flatMap.mp hmore
      rcases List.mem_cons.mp hh with rfl | hh
      · decide
      · exact hgroup hh

theorem Ipv6.isAddressChar_of_mem_text {ip : Ipv6} {c : Char} (hc : c ∈ ip.text) :
    isAddressChar c := by
  have hcolons : ∀ c ∈ [':', ':'], isAddressChar c := List.all_eq_true.mp (by decide)
  have hmapped : ∀ c ∈ "::ffff:".toList, isAddressChar c := List.all_eq_true.mp (by decide)
  unfold text at hc
  split at hc
  · rcases List.mem_append.mp hc with hfront | hdotted
    · exact hmapped c hfront
    · exact Ipv4.isAddressChar_of_mem_text hdotted
  · dsimp only at hc
    split at hc
    · rcases List.mem_append.mp hc with hfront | hback
      · rcases List.mem_append.mp hfront with hfront | hgap
        · exact isAddressChar_of_mem_groupsText hfront
        · exact hcolons c hgap
      · exact isAddressChar_of_mem_groupsText hback
    · exact isAddressChar_of_mem_groupsText hc

namespace Ip

theorem isAddressChar_of_mem_text {ip : Ip} {c : Char} (hc : c ∈ ip.text) :
    Ipv6.isAddressChar c := by
  cases ip with
  | v4 ip => exact Ipv4.isAddressChar_of_mem_text hc
  | v6 ip => exact Ipv6.isAddressChar_of_mem_text hc

theorem text_ne_nil (ip : Ip) : ip.text ≠ [] := by
  intro hnil
  cases ip with
  | v4 ip =>
    have hscan := Ipv4.scan_text ip Text.stops_nil
    rw [show ip.text = [] from hnil] at hscan
    cases hscan
  | v6 ip =>
    have hscan := Ipv6.scan_text ip Text.stops_nil
    rw [show ip.text = [] from hnil] at hscan
    cases hscan

end Ip

end WakeRouter.Net
