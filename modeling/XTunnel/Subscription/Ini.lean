import XTunnel.LinkedMap
import XTunnel.Profiles.Sync

/-! `SubscriptionManager.parseIniNodes`. -/
namespace XTunnel.Subscription

open Profiles (SubNode)

/-- The characters of a Java string. -/
abbrev Chars := List Char

/-- ASCII letters in lower case; Turkish and Azeri keep the capital I apart from the dotted one. -/
def lowerAscii (turkic : Bool) (c : Char) : Char := if turkic && c == 'I' then 'ı' else c.toLower

/-- The default locale of the process: `String.toLowerCase` depends on it. -/
structure Locale where
  turkic : Bool
  toLowerCase : Chars → Chars
  ascii : ∀ s, (∀ c ∈ s, c.toNat < 128) → toLowerCase s = s.map (lowerAscii turkic)

/-- `String.trim` cuts characters up to the space at both ends. -/
def isSpace (c : Char) : Bool := c.toNat ≤ 32

def trim (s : Chars) : Chars := ((s.dropWhile isSpace).reverse.dropWhile isSpace).reverse

/-- `BufferedReader.readLine` until the end: a line ends at a line feed, a carriage return or both. -/
def readLines : Chars → List Chars
  | [] => []
  | '\r' :: '\n' :: cs => [] :: readLines cs
  | c :: cs =>
    if c = '\n' ∨ c = '\r' then [] :: readLines cs
    else
      match readLines cs with
      | [] => [[c]]
      | l :: ls => (c :: l) :: ls

/-- The case folding of `equalsIgnoreCase`, as far as it reaches ASCII letters. -/
def foldCase (c : Char) : Char :=
  if c = 'ſ' then 's' else if c = 'ı' ∨ c = 'İ' then 'i' else if c = 'K' then 'k' else c.toLower

/-- `equalsIgnoreCase` with an ASCII text. -/
def equalsIgnoreCase (s : Chars) (ascii : String) : Bool :=
  s.map foldCase == ascii.toList.map foldCase

/-- The zero of each row of ten decimal digits that a single UTF-16 unit can encode. -/
def zeros : List Nat :=
  [0x30, 0x660, 0x6F0, 0x7C0, 0x966, 0x9E6, 0xA66, 0xAE6, 0xB66, 0xBE6, 0xC66, 0xCE6, 0xD66, 0xDE6,
    0xE50, 0xED0, 0xF20, 0x1040, 0x1090, 0x17E0, 0x1810, 0x1946, 0x19D0, 0x1A80, 0x1A90, 0x1B50,
    0x1BB0, 0x1C40, 0x1C50, 0xA620, 0xA8D0, 0xA900, 0xA9D0, 0xA9F0, 0xAA50, 0xABF0, 0xFF10]

/-- `Character.digit` in base ten. -/
def digit (c : Char) : Option Nat :=
  (zeros.find? fun z => z ≤ c.toNat && c.toNat < z + 10).map (c.toNat - ·)

/-- `Integer.parseInt`. -/
def parseInt (s : Chars) : Option Int :=
  let (negative, digits) : Bool × Chars :=
    match s with
    | '-' :: ds => (true, ds)
    | '+' :: ds => (false, ds)
    | ds => (false, ds)
  if digits.isEmpty then none
  else do
    let ds ← digits.mapM digit
    let n : Int := ds.foldl (fun n d => 10 * n + d) 0
    let n := if negative then -n else n
    if -2147483648 ≤ n ∧ n ≤ 2147483647 then some n else none

abbrev Section := LinkedMap Chars Chars

structure Reader where
  currentSection : Option Chars
  sections : LinkedMap Chars Section

def initial : Reader := ⟨none, .empty⟩

/-- A trimmed line in brackets, which opens a section. -/
def isHeader (line : Chars) : Bool := line.head? == some '[' && line.getLast? == some ']'

/-- One turn of the loop over the lines. -/
def readLine (locale : Locale) (r : Reader) (line : Chars) : Reader :=
  let line := trim line
  if line.isEmpty || line.head? == some '#' || line.head? == some ';' then r
  else if isHeader line then
    let name := trim line.tail.dropLast
    { currentSection := some name
      sections := if r.sections.containsKey name then r.sections else r.sections.put name .empty }
  else
    match r.currentSection with
    | none => r
    | some sec =>
      let left := line.takeWhile (· ≠ '=')
      if '=' ∈ line ∧ left ≠ [] then
        let key := locale.toLowerCase (trim left)
        let val := trim (line.dropWhile (· ≠ '=')).tail
        { r with
          sections := r.sections.put sec
            (((r.sections.get sec).getD .empty).put key val) }
      else r

def numbered (index : Nat) : String := "节点 " ++ toString index

def isTrue (s : Chars) : Bool := trim s == "1".toList || equalsIgnoreCase (trim s) "true"

def readNode (kv : Section) (index : Nat) (server : Chars) : SubNode where
  name :=
    match kv.get "name".toList with
    | none => numbered index
    | some name => if name.isEmpty then numbered index else String.ofList name
  server := String.ofList server
  token := String.ofList ((kv.get "token".toList).getD [])
  ip := String.ofList ((kv.get "ip".toList).getD [])
  fallback :=
    match kv.get "fallback".toList with
    | none => true
    | some s => isTrue s
  insecure :=
    match kv.get "insecure".toList with
    | none => false
    | some s => isTrue s
  connections :=
    match kv.get "connections".toList with
    | none => 3
    | some s => (parseInt (trim s)).getD 3
  block :=
    match kv.get "block".toList with
    | none => "443"
    | some s => if (trim s).isEmpty then "443" else String.ofList (trim s)

/-- One turn of the loop over the sections; `index` is one more than the nodes in the list. -/
def addNode (list : List SubNode) (entry : Chars × Section) : List SubNode :=
  if equalsIgnoreCase entry.1 "Settings" then list
  else
    match entry.2.get "server".toList with
    | none => list
    | some server =>
      if server.isEmpty then list else list ++ [readNode entry.2 (list.length + 1) server]

def parseIniNodes (locale : Locale) (content : String) : List SubNode :=
  let r := (readLines content.toList).foldl (readLine locale) initial
  r.sections.entries.foldl addNode []

end XTunnel.Subscription
