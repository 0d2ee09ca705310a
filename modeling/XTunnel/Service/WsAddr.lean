import XTunnel.Service.NodeAgreement

/-! The server address of a start and of a hot switch, and what becomes of its components. -/
namespace XTunnel.Service

open Profiles Net

/-- The address of `startService`, with the copy of `normalizeWsAddr` that stands there. -/
def startWsAddr (wssAddr : String) : String :=
  let wsAddr := trim wssAddr
  let wsAddrLower := wsAddr.toLower.toList
  let wsAddr :=
    if !"wss://".toList.isPrefixOf wsAddrLower && !"ws://".toList.isPrefixOf wsAddrLower then
      "wss://" ++ wsAddr
    else wsAddr
  match afterScheme wsAddr.toList with
  | some rest => if !rest.contains '/' then wsAddr ++ "/" else wsAddr
  | none => wsAddr

theorem startWsAddr_eq (wssAddr : String) :
    startWsAddr wssAddr = normalizeWsAddr (some wssAddr) := by
  have hnot : ∀ (wss ws : Bool) (plain secure : String),
      (if !wss && !ws then plain else secure) = if wss || ws then secure else plain := by
    intro wss ws plain secure
    cases wss <;> cases ws <;> rfl
  have hslash : ∀ (slash : Bool) (open' closed : String),
      (if !slash then open' else closed) = if slash then closed else open' := by
    intro slash open' closed
    cases slash <;> rfl
  rw [startWsAddr, hnot]
  simp only [hslash]
  rfl

theorem schemeText_letter {kind : Scheme} {S : List Char} {c : Char}
    (hS : S.map Char.toLower = (schemeText kind).toList) (hc : c ∈ S) :
    c = 'w' ∨ c = 'W' ∨ c = 's' ∨ c = 'S' := by
  have hm : c.toLower ∈ (schemeText kind).toList := hS ▸ List.mem_map_of_mem hc
  have hlower : c.toLower = 'w' ∨ c.toLower = 's' := by
    cases kind <;> simpa [schemeText] using hm
  obtain h | h := hlower
  · exact (toLower_eq_w h).elim .inl fun h => .inr (.inl h)
  · exact (toLower_eq_s h).elim (fun h => .inr (.inr (.inl h))) fun h => .inr (.inr (.inr h))

/-- An address with its scheme is left as it is. -/
theorem withScheme_of_spelled {kind : Scheme} {S r : List Char} {wssAddr : String}
    (hS : S.map Char.toLower = (schemeText kind).toList)
    (h : (trim wssAddr).toList = S ++ ':' :: '/' :: '/' :: r) : withScheme wssAddr = trim wssAddr := by
  have hpre : ((schemeText kind).toList ++ "://".toList).isPrefixOf
      ((trim wssAddr).toList.map Char.toLower) = true := by
    rw [h, List.isPrefixOf_iff_prefix, ← hS]
    exact ⟨r.map Char.toLower, by simp⟩
  rw [withScheme, if_pos]
  cases kind with
  | wss => exact Bool.or_eq_true_iff.mpr (.inl hpre)
  | ws => exact Bool.or_eq_true_iff.mpr (.inr hpre)

/-- The characters that end an authority. -/
def endsAuthority (c : Char) : Bool := c = '/' || c = '?' || c = '#'

/-- `[scheme://]host[:port][/path][?query][#fragment]`. Only a literal in brackets has a colon in
its host. -/
structure WsAddr where
  scheme : Option (List Char)
  host : List Char
  port : Option (List Char)
  path : List Char
  query : Option (List Char)
  fragment : Option (List Char)
  scheme_lower : ∀ S ∈ scheme, ∃ kind, S.map Char.toLower = (schemeText kind).toList
  host_ne : host ≠ []
  host_all : ∀ c ∈ host, endsAuthority c = false
  host_literal : ':' ∈ host → ∃ s, host = '[' :: s ++ [']'] ∧ ']' ∉ s
  port_ne : ∀ p ∈ port, p ≠ []
  port_all : ∀ p ∈ port, ∀ c ∈ p, c.isDigit = true
  path_head : path = [] ∨ ∃ s, path = '/' :: s
  path_all : '?' ∉ path ∧ '#' ∉ path
  query_all : ∀ q ∈ query, '#' ∉ q

namespace WsAddr

/-- An absent component leaves no trace. -/
def portText (a : WsAddr) : List Char := (a.port.map fun p => ':' :: p).getD []

def queryText (a : WsAddr) : List Char := (a.query.map fun q => '?' :: q).getD []

def fragmentText (a : WsAddr) : List Char := (a.fragment.map fun f => '#' :: f).getD []

/-- What stands after the scheme. -/
def rest (a : WsAddr) : List Char :=
  a.host ++ (a.portText ++ (a.path ++ (a.queryText ++ a.fragmentText)))

def text (a : WsAddr) : List Char :=
  (a.scheme.map fun S => S ++ "://".toList).getD [] ++ a.rest

theorem portText_head (a : WsAddr) {c : Char} {s : List Char} (h : a.portText = ':' :: c :: s) :
    c.isDigit = true := by
  unfold portText at h
  cases hp : a.port with
  | none => rw [hp] at h; cases h
  | some p =>
    rw [hp] at h
    obtain rfl : p = c :: s := List.cons.inj h |>.2
    exact a.port_all _ hp c List.mem_cons_self

/-- What follows a host goes on with a colon and a digit, or it ends the authority. -/
theorem afterHost (a : WsAddr) {c : Char} {s : List Char}
    (h : a.portText ++ (a.path ++ (a.queryText ++ a.fragmentText)) = c :: s) :
    (c = ':' ∧ ∃ d t, s = d :: t ∧ d.isDigit = true) ∨ endsAuthority c = true := by
  cases hp : a.port with
  | some p =>
    obtain ⟨d, t, rfl⟩ := List.exists_cons_of_ne_nil (a.port_ne p hp)
    have hport : a.portText = ':' :: d :: t := by simp [portText, hp]
    rw [hport] at h
    obtain ⟨rfl, rfl⟩ := List.cons.inj h
    exact Or.inl ⟨rfl, d, _, rfl, a.portText_head hport⟩
  | none =>
    right
    have hport : a.portText = [] := by simp [portText, hp]
    rw [hport, List.nil_append] at h
    obtain hpath | ⟨q, hpath⟩ := a.path_head
    · rw [hpath, List.nil_append] at h
      cases hq : a.query with
      | some q =>
        simp only [queryText, hq, Option.map_some, Option.getD_some, List.cons_append,
          List.cons.injEq] at h
        rw [← h.1]
        decide
      | none =>
        cases hf : a.fragment with
        | some f =>
          simp only [queryText, fragmentText, hq, hf, Option.map_some, Option.map_none,
            Option.getD_some, Option.getD_none, List.nil_append, List.cons.injEq] at h
          rw [← h.1]
          decide
        | none => simp [queryText, fragmentText, hq, hf] at h
    · rw [hpath, List.cons_append, List.cons.injEq] at h
      rw [← h.1]
      decide

/-- An address without a scheme does not read as one with a scheme: its host has no colon, and a
port has digits. -/
theorem rest_ne_spelled (a : WsAddr) {kind : Scheme} {S r : List Char}
    (hS : S.map Char.toLower = (schemeText kind).toList) :
    a.rest ≠ S ++ ':' :: '/' :: '/' :: r := by
  intro h
  obtain ⟨c, S', rfl⟩ : ∃ c S', S = c :: S' := by
    cases S with
    | nil => cases kind <;> cases hS
    | cons c S' => exact ⟨c, S', rfl⟩
  obtain ⟨m, hhost, hm⟩ | ⟨m, hhost, hm⟩ := List.append_eq_append_iff.mp h
  · -- the scheme reaches beyond the host
    cases m with
    | nil =>
      obtain ⟨-, d, t, ht, hd⟩ | hend := a.afterHost hm
      · obtain rfl : '/' = d := (List.cons.inj ht).1
        cases hd
      · cases hend
    | cons x m =>
      obtain ⟨rfl, -⟩ | hend := a.afterHost hm
      · have hx := schemeText_letter hS (hhost ▸ by simp : ':' ∈ c :: S')
        simp at hx
      · have hx := schemeText_letter hS (hhost ▸ by simp : x ∈ c :: S')
        rcases hx with rfl | rfl | rfl | rfl <;> cases hend
  · -- the host goes on with the colon
    cases m with
    | nil =>
      obtain ⟨-, d, t, ht, hd⟩ | hend := a.afterHost hm.symm
      · obtain rfl : '/' = d := (List.cons.inj ht).1
        cases hd
      · cases hend
    | cons x m =>
      obtain rfl : ':' = x := (List.cons.inj hm).1
      obtain ⟨s, hs, -⟩ := a.host_literal (hhost ▸ by simp)
      have hbracket : c = '[' := (List.cons.inj (hhost.symm.trans hs)).1
      have hx := schemeText_letter hS (List.mem_cons_self : c ∈ c :: S')
      simp [hbracket] at hx

/-- The scheme of the address as it is spelled, or the default. -/
def schemeOf (a : WsAddr) : List Char := a.scheme.getD "wss".toList

theorem withScheme_text (a : WsAddr) {wssAddr : String} (h : (trim wssAddr).toList = a.text) :
    (∃ kind, a.schemeOf.map Char.toLower = (schemeText kind).toList) ∧
      (withScheme wssAddr).toList = a.schemeOf ++ ':' :: '/' :: '/' :: a.rest := by
  unfold schemeOf text at *
  cases hs : a.scheme with
  | some S =>
    obtain ⟨kind, hkind⟩ := a.scheme_lower S hs
    simp only [hs, Option.map_some, Option.getD_some] at h ⊢
    refine ⟨⟨kind, hkind⟩, ?_⟩
    have htext : (trim wssAddr).toList = S ++ ':' :: '/' :: '/' :: a.rest := by
      rw [h, List.append_assoc]
      rfl
    rw [withScheme_of_spelled hkind htext, htext]
  | none =>
    simp only [hs, Option.map_none, Option.getD_none, List.nil_append] at h ⊢
    refine ⟨⟨.wss, rfl⟩, ?_⟩
    have hno : ∀ kind, ((schemeText kind).toList ++ "://".toList).isPrefixOf
        ((trim wssAddr).toList.map Char.toLower) = false := by
      intro kind
      rw [Bool.eq_false_iff]
      intro hpre
      obtain ⟨S, r, hr, hS⟩ := lower_prefix hpre
      exact a.rest_ne_spelled hS (h.symm.trans hr)
    have heq : withScheme wssAddr = "wss://" ++ trim wssAddr := by
      rw [withScheme, if_neg]
      simp only [Bool.not_eq_true, Bool.or_eq_false_iff]
      exact ⟨hno .wss, hno .ws⟩
    rw [heq, String.toList_append, h]
    rfl

/-- A host and its port have no slash. -/
theorem slash_notMem_authority (a : WsAddr) : '/' ∉ a.host ++ a.portText := by
  rw [List.mem_append]
  rintro (hm | hm)
  · cases a.host_all _ hm
  · unfold portText at hm
    cases hp : a.port with
    | none => simp [hp] at hm
    | some p =>
      rw [hp] at hm
      obtain hc | hm := List.mem_cons.mp hm
      · cases hc
      · cases a.port_all p hp _ hm

/-- The address with a scheme and a path, and the other components as they were. -/
def normalised (a : WsAddr) : WsAddr where
  scheme := some a.schemeOf
  host := a.host
  port := a.port
  path := if a.path = [] then ['/'] else a.path
  query := a.query
  fragment := a.fragment
  scheme_lower := by
    rintro S hS
    obtain rfl := Option.some.inj hS
    unfold schemeOf
    cases hs : a.scheme with
    | some S => exact a.scheme_lower S hs
    | none => exact ⟨.wss, rfl⟩
  host_ne := a.host_ne
  host_all := a.host_all
  host_literal := a.host_literal
  port_ne := a.port_ne
  port_all := a.port_all
  path_head := by
    split
    · exact Or.inr ⟨[], rfl⟩
    · exact a.path_head
  path_all := by
    split
    · decide
    · exact a.path_all
  query_all := a.query_all

theorem normalised_text (a : WsAddr) : a.normalised.text = a.schemeOf ++ ':' :: '/' :: '/' ::
    (a.host ++ (a.portText ++
      ((if a.path = [] then ['/'] else a.path) ++ (a.queryText ++ a.fragmentText)))) := by
  change (a.schemeOf ++ "://".toList) ++ _ = _
  rw [List.append_assoc]
  rfl

/-- A query or a fragment starts with its mark. -/
theorem afterPath (a : WsAddr) : (a.query = none ∧ a.fragment = none ∧
      a.queryText ++ a.fragmentText = []) ∨
    ¬ (a.query = none ∧ a.fragment = none) ∧
      ∃ c s, a.queryText ++ a.fragmentText = c :: s ∧ c ≠ '/' := by
  cases hq : a.query with
  | some q => exact Or.inr ⟨by simp, '?', q ++ a.fragmentText, by simp [queryText, hq], by decide⟩
  | none =>
    cases hf : a.fragment with
    | some f => exact Or.inr ⟨by simp, '#', f, by simp [queryText, fragmentText, hq, hf], by decide⟩
    | none => exact Or.inl ⟨rfl, rfl, by simp [queryText, fragmentText, hq, hf]⟩

/-- The code puts the slash where the path is missing exactly when the address ends there. -/
theorem closePath_rest (a : WsAddr) : closePath a.rest = a.host ++ (a.portText ++
      ((if a.path = [] then ['/'] else a.path) ++ (a.queryText ++ a.fragmentText))) ↔
    a.path ≠ [] ∨ a.query = none ∧ a.fragment = none := by
  obtain hpath | ⟨q, hpath⟩ := a.path_head
  · have hrest : a.rest = (a.host ++ a.portText) ++ (a.queryText ++ a.fragmentText) := by
      simp [rest, hpath]
    rw [if_pos hpath, hrest, ← List.append_assoc a.host]
    obtain ⟨hq, hf, htail⟩ | ⟨hnone, c, s, htail, hc⟩ := a.afterPath
    · have hslash : ¬ (a.host ++ a.portText).contains '/' = true := by
        simpa using a.slash_notMem_authority
      rw [htail, List.append_nil, closePath, if_neg hslash, List.append_nil]
      simp [hq, hf]
    · simp only [hpath, hnone, ne_eq, not_true_eq_false, or_self, iff_false]
      intro heq
      rw [closePath, htail] at heq
      split at heq
      · have hlen := congrArg List.length (List.append_cancel_left heq)
        simp at hlen
      · rw [List.append_assoc] at heq
        exact hc (List.cons.inj (List.append_cancel_left heq)).1
  · have hslash : a.rest.contains '/' = true := by simp [rest, hpath]
    rw [closePath, if_pos hslash, hpath]
    simp [rest, hpath]

end WsAddr

/-! ### Normalising twice -/

theorem withScheme_spelled (wssAddr : String) : ∃ kind S r,
    S.map Char.toLower = (schemeText kind).toList ∧
      (withScheme wssAddr).toList = S ++ ':' :: '/' :: '/' :: r := by
  unfold withScheme
  by_cases hs : "wss://".toList.isPrefixOf ((trim wssAddr).toList.map Char.toLower) = true
  · obtain ⟨S, r, hr, hS⟩ := lower_prefix (s := "wss".toList) hs
    rw [hs, Bool.true_or, if_pos rfl]
    exact ⟨.wss, S, r, hS, hr⟩
  · by_cases hp : "ws://".toList.isPrefixOf ((trim wssAddr).toList.map Char.toLower) = true
    · obtain ⟨S, r, hr, hS⟩ := lower_prefix (s := "ws".toList) hp
      rw [hp, Bool.or_true, if_pos rfl]
      exact ⟨.ws, S, r, hS, hr⟩
    · rw [Bool.not_eq_true] at hs hp
      rw [hs, hp]
      exact ⟨.wss, ['w', 's', 's'], (trim wssAddr).toList, rfl, String.toList_append⟩

/-- A text that neither starts nor ends with a blank is trimmed. -/
theorem trim_eq_self {s : String} (hhead : ∀ c ∈ s.toList.head?, 32 < c.toNat)
    (hlast : ∀ c ∈ s.toList.getLast?, 32 < c.toNat) : trim s = s := by
  have drop : ∀ l : List Char, (∀ c ∈ l.head?, 32 < c.toNat) →
      l.dropWhile (·.toNat ≤ 32) = l := by
    intro l hl
    cases l with
    | nil => rfl
    | cons c l =>
      have hc := hl c rfl
      rw [List.dropWhile_cons_of_neg]
      simpa using hc
  rw [trim, drop _ hhead, drop, List.reverse_reverse, String.ofList_toList]
  rwa [List.head?_reverse]

/-- The text ends where the trimmed one does. -/
theorem trim_getLast (s : String) : ∀ c ∈ (trim s).toList.getLast?, 32 < c.toNat := by
  rw [trim, String.toList_ofList, List.getLast?_reverse]
  intro c hc
  have h := List.head?_dropWhile_not (fun c : Char => decide (c.toNat ≤ 32))
    (s.toList.dropWhile (·.toNat ≤ 32)).reverse
  rw [Option.mem_def.mp hc] at h
  simpa using h

theorem withScheme_getLast (wssAddr : String) :
    ∀ c ∈ (withScheme wssAddr).toList.getLast?, 32 < c.toNat := by
  unfold withScheme
  split
  · exact trim_getLast wssAddr
  · intro c hc
    rw [String.toList_append, List.getLast?_append] at hc
    cases hlast : (trim wssAddr).toList.getLast? with
    | some d =>
      rw [hlast] at hc
      exact trim_getLast wssAddr c (hlast.trans hc)
    | none =>
      rw [hlast] at hc
      obtain rfl : '/' = c := Option.some.inj hc
      decide

theorem slash_mem_closePath (r : List Char) : '/' ∈ closePath r := by
  unfold closePath
  split
  · simp_all
  · simp

/-- Nothing is left to trim. -/
theorem trim_normalizeWsAddr {kind : Scheme} {S r : List Char} {wssAddr : String}
    (hS : S.map Char.toLower = (schemeText kind).toList)
    (hr : (withScheme wssAddr).toList = S ++ ':' :: '/' :: '/' :: r) :
    trim (normalizeWsAddr (some wssAddr)) = normalizeWsAddr (some wssAddr) := by
  have htext := normalizeWsAddr_toList (spelling_of_lower hS) hr
  apply trim_eq_self
  · cases S with
    | nil => cases kind <;> cases hS
    | cons c S =>
      rw [htext]
      rintro d hd
      obtain rfl : c = d := Option.some.inj hd
      rcases schemeText_letter hS (List.mem_cons_self : c ∈ c :: S) with rfl | rfl | rfl | rfl <;>
        decide
  · rw [htext, closePath]
    split
    · rw [← hr]
      exact withScheme_getLast wssAddr
    · intro c hc
      rw [← List.cons_append, ← List.cons_append, ← List.cons_append, ← List.append_assoc,
        List.getLast?_append] at hc
      obtain rfl : '/' = c := Option.some.inj hc
      decide

/-- A normalised address does not change any more. -/
theorem normalizeWsAddr_again (rawWsAddr : Option String) :
    normalizeWsAddr (some (normalizeWsAddr rawWsAddr)) = normalizeWsAddr rawWsAddr := by
  obtain ⟨wssAddr, heq⟩ :
      ∃ wssAddr, normalizeWsAddr rawWsAddr = normalizeWsAddr (some wssAddr) := by
    cases rawWsAddr with
    | none =>
      refine ⟨"", ?_⟩
      have htrim : trim "" = "" := by simp [trim]
      unfold normalizeWsAddr
      rw [Option.map_none, Option.map_some, htrim, Option.getD_none, Option.getD_some]
    | some wssAddr => exact ⟨wssAddr, rfl⟩
  rw [heq]
  obtain ⟨kind, S, r, hS, hr⟩ := withScheme_spelled wssAddr
  have htext := normalizeWsAddr_toList (spelling_of_lower hS) hr
  have htrim := trim_normalizeWsAddr hS hr
  have hwith := withScheme_of_spelled hS ((congrArg _ htrim).trans htext)
  have hagain := normalizeWsAddr_toList (spelling_of_lower hS)
    ((congrArg _ (hwith.trans htrim)).trans htext)
  rw [← String.toList_inj, hagain, htext, closePath, if_pos]
  simpa using slash_mem_closePath r

/-- The normalised address has the components of the text, with the default scheme and with `/` for
an empty path, it is the same in both copies of the code and it is final. -/
structure Normalises (wssAddr : String) (a : WsAddr) : Prop where
  same : startWsAddr wssAddr = normalizeWsAddr (some wssAddr)
  components : ∃ b : WsAddr, (normalizeWsAddr (some wssAddr)).toList = b.text ∧
    b.scheme = some (a.scheme.getD "wss".toList) ∧ b.host = a.host ∧ b.port = a.port ∧
    b.path = (if a.path = [] then ['/'] else a.path) ∧ b.query = a.query ∧ b.fragment = a.fragment
  again : normalizeWsAddr (some (normalizeWsAddr (some wssAddr))) = normalizeWsAddr (some wssAddr)

theorem Normalises.text {wssAddr : String} {a : WsAddr} (h : Normalises wssAddr a) :
    (normalizeWsAddr (some wssAddr)).toList = a.normalised.text := by
  obtain ⟨b, hb, hscheme, hhost, hport, hpath, hquery, hfragment⟩ := h.components
  rw [hb]
  unfold WsAddr.text WsAddr.rest WsAddr.portText WsAddr.queryText WsAddr.fragmentText
  rw [hscheme, hhost, hport, hpath, hquery, hfragment]
  rfl

/-- An address is normalised as it should be exactly when it has a path, or ends where the path
would be. -/
theorem normalises_iff {wssAddr : String} {a : WsAddr} (h : (trim wssAddr).toList = a.text) :
    Normalises wssAddr a ↔ a.path ≠ [] ∨ a.query = none ∧ a.fragment = none := by
  obtain ⟨⟨kind, hS⟩, hwith⟩ := a.withScheme_text h
  have htext := normalizeWsAddr_toList (spelling_of_lower hS) hwith
  rw [← a.closePath_rest]
  constructor
  · intro hn
    rw [hn.text, a.normalised_text] at htext
    simpa using htext.symm
  · intro hclose
    refine ⟨startWsAddr_eq wssAddr, ⟨a.normalised, ?_, rfl, rfl, rfl, rfl, rfl, rfl⟩,
      normalizeWsAddr_again _⟩
    rw [htext, hclose, a.normalised_text]

/-- A host and a query. -/
def hostQuery (scheme : Option (List Char))
    (h : ∀ S ∈ scheme, ∃ kind, S.map Char.toLower = (schemeText kind).toList)
    (query : Option (List Char)) (hq : ∀ q ∈ query, '#' ∉ q) : WsAddr where
  scheme := scheme
  host := "host".toList
  port := none
  path := []
  query := query
  fragment := none
  scheme_lower := h
  host_ne := by decide
  host_all := by simp [endsAuthority]
  host_literal h := absurd h (by decide)
  port_ne := by simp
  port_all := by simp
  path_head := Or.inl rfl
  path_all := by decide
  query_all := hq

/-- The address of `Ws://host` gets its path. -/
theorem normalises_host : ∃ a, a.host = "host".toList ∧ Normalises "Ws://host" a := by
  refine ⟨hostQuery (some "Ws".toList) (by rintro S ⟨⟩; exact ⟨.ws, by decide⟩) none (by simp), rfl,
    ?_⟩
  exact (normalises_iff (by decide)).mpr (.inr ⟨rfl, rfl⟩)

/-- The slash of a missing path is put behind the query. -/
theorem slash_behind_query : ¬ ∀ wssAddr a, (trim wssAddr).toList = WsAddr.text a →
    Normalises wssAddr a := by
  intro h
  have htext := (h "wss://host?x=1" (hostQuery (some "wss".toList)
    (by rintro S ⟨⟩; exact ⟨.wss, rfl⟩) (some "x=1".toList) (by decide)) (by decide)).text
  have hlower : "wss".toList.map Char.toLower = (schemeText .wss).toList := rfl
  have htrim : (trim "wss://host?x=1").toList =
      "wss".toList ++ ':' :: '/' :: '/' :: "host?x=1".toList := by decide
  have hwith := (congrArg String.toList (withScheme_of_spelled hlower htrim)).trans htrim
  rw [normalizeWsAddr_toList (spelling_of_lower hlower) hwith] at htext
  revert htext
  decide

end XTunnel.Service
