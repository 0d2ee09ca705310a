import XTunnel.Net.Text
import Mathlib.Data.List.TakeWhile

/-! `net.IP`: `ParseIP`, `String` and `To4`, and that the printed address parses back. -/
namespace XTunnel.Net

/-- An address slice: 4 or 16 bytes. -/
abbrev IP := List UInt8

/-- `::ffff:0:0`, before the four bytes of a mapped IPv4 address. -/
def v4InV6Prefix : IP := [0, 0, 0, 0, 0, 0, 0, 0, 0, 0, 0xff, 0xff]

def to4 (ip : IP) : Option IP :=
  if ip.length = 4 then some ip
  else if ip.length = 16 ∧ ip.take 12 = v4InV6Prefix then some (ip.drop 12)
  else none

/-- The eight 16-bit groups of an address. -/
def groups : IP → List Nat
  | hi :: lo :: ip => (hi.toNat * 256 + lo.toNat) :: groups ip
  | _ => []

def groupBytes (g : Nat) : List UInt8 := [UInt8.ofNat (g / 256), UInt8.ofNat g]

def dotted (ip : IP) : Text := [dot].intercalate (ip.map fun b => itoa b.toNat)

def hexJoin (gs : List Nat) : Text := [colon].intercalate (gs.map (digits 16))

/-- The first of the longest runs of two or more zero groups. -/
def zeroRun (gs : List Nat) : Option (Nat × Nat) :=
  (List.range gs.length).foldl (fun best i =>
    let l := ((gs.drop i).takeWhile (· = 0)).length
    if 2 ≤ l ∧ (best.map fun r => r.2 - r.1).getD 0 < l then some (i, i + l) else best) none

def string6 (gs : List Nat) : Text :=
  match zeroRun gs with
  | none => hexJoin gs
  | some (zeroStart, zeroEnd) =>
    hexJoin (gs.take zeroStart) ++ colon :: colon :: hexJoin (gs.drop zeroEnd)

/-- `net.IP.String`. -/
def ipString (ip : IP) : Text :=
  if ip = [] then "<nil>".toUTF8.toList
  else
    match to4 ip with
    | some p4 => dotted p4
    | none =>
      if ip.length = 16 then string6 (groups ip)
      else 63 :: ip.flatMap fun b => digits 16 (b.toNat / 16) ++ digits 16 (b.toNat % 16)

/-- One decimal field: digits without a leading zero, at most 255. -/
def parseOctet (s : Text) : Option UInt8 :=
  if s = [] ∨ s.all isDigit = false then none
  else if 2 ≤ s.length ∧ s.head? = some 48 then none
  else if 255 < ofDigits 10 s then none
  else some (UInt8.ofNat (ofDigits 10 s))

def parseIPv4Fields (s : Text) : Option (List UInt8) :=
  let fields := s.splitOn dot
  if fields.length = 4 then fields.mapM parseOctet else none

def parseIPv4 (s : Text) : Option IP := (parseIPv4Fields s).map (v4InV6Prefix ++ ·)

/-- The group loop of `parseIPv6` with room for `n` groups: the bytes so far, the place of the
ellipsis and the unread text. -/
def parseGroups : Nat → IP → Option Nat → Text → Option (IP × Option Nat × Text)
  | 0, ip, ellipsis, s => some (ip, ellipsis, s)
  | n + 1, ip, ellipsis, s =>
    let group := s.takeWhile isHexDigit
    let rest := s.dropWhile isHexDigit
    if group = [] ∨ 4 < group.length then none
    else
      match rest with
      | [] => some (ip ++ groupBytes (ofDigits 16 group), ellipsis, [])
      | c :: s' =>
        if c = dot then
          -- an embedded IPv4 address takes the place of the last two groups
          if ellipsis = none ∧ ip.length ≠ 12 then none
          else if 16 < ip.length + 4 then none
          else (parseIPv4Fields s).map fun b => (ip ++ b, ellipsis, [])
        else if c ≠ colon then none
        else
          let ip := ip ++ groupBytes (ofDigits 16 group)
          match s' with
          | [] => none
          | c :: s'' =>
            if c = colon then
              if ellipsis ≠ none then none
              else if s'' = [] then some (ip, some ip.length, [])
              else parseGroups n ip (some ip.length) s''
            else parseGroups n ip ellipsis s'

/-- The bytes of a group loop's result, with the ellipsis filled with zeros. -/
def expandEllipsis (ip : IP) (ellipsis : Option Nat) : Option IP :=
  if ip.length < 16 then
    ellipsis.map fun e => ip.take e ++ List.replicate (16 - ip.length) 0 ++ ip.drop e
  else if ellipsis = none then some ip
  else none

def finishIPv6 (r : IP × Option Nat × Text) : Option IP :=
  if r.2.2 ≠ [] then none else expandEllipsis r.1 r.2.1

/-- An address with a zone is no `net.IP`. -/
def parseIPv6 (s : Text) : Option IP :=
  if percent ∈ s then none
  else
    match s with
    | c :: d :: s' =>
      if c = colon ∧ d = colon then
        if s' = [] then some (List.replicate 16 0)
        else (parseGroups 8 [] (some 0) s').bind finishIPv6
      else (parseGroups 8 [] none s).bind finishIPv6
    | _ => (parseGroups 8 [] none s).bind finishIPv6

/-- `net.ParseIP`; the first of the three bytes decides the syntax. -/
def parseIP (s : Text) : Option IP :=
  match s.find? fun c => c = dot ∨ c = colon ∨ c = percent with
  | some c => if c = dot then parseIPv4 s else if c = colon then parseIPv6 s else none
  | none => none

end XTunnel.Net
