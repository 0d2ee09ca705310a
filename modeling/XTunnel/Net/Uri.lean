import XTunnel.Net.HostPort
import Mathlib.Data.List.Basic

/-! Addresses `scheme://authority/path?query#fragment` in the standard syntax, and the parameters
of a query. -/
namespace XTunnel.Net

abbrev slash : UInt8 := 47
abbrev questionMark : UInt8 := 63
abbrev hashMark : UInt8 := 35
abbrev atSign : UInt8 := 64
abbrev ampersand : UInt8 := 38
abbrev semicolon : UInt8 := 59
abbrev equalsSign : UInt8 := 61

/-- The host of a literal is without its brackets; a port may be empty. Nothing reads a
fragment. -/
structure Uri where
  scheme : Text
  userinfo : Option Text
  host : Text
  port : Option Text
  path : Text
  query : Option Text
deriving DecidableEq

namespace Uri

def isAlpha (c : UInt8) : Bool :=
  65 ≤ c.toNat && c.toNat ≤ 90 || 97 ≤ c.toNat && c.toNat ≤ 122

/-- The unreserved and the reserved characters. -/
def isUriChar (c : UInt8) : Bool :=
  isAlpha c || isDigit c || [45, 46, 95, 126].contains c ||
    [58, 47, 63, 35, 91, 93, 64, 33, 36, 38, 39, 40, 41, 42, 43, 44, 59, 61].contains c

/-- Every other character is escaped. -/
def escaped : Text → Bool
  | [] => true
  | 37 :: a :: b :: s => isHexDigit a && isHexDigit b && escaped s
  | c :: s => isUriChar c && escaped s

def isSchemeChar (c : UInt8) : Bool := isAlpha c || isDigit c || [43, 45, 46].contains c

def isScheme : Text → Bool
  | [] => false
  | c :: s => isAlpha c && s.all isSchemeChar

/-- The path goes up to one of these. -/
def endsPath (c : UInt8) : Bool := c = questionMark || c = hashMark

/-- Authority and path. -/
def beforeQuery (rest : Text) : Text := rest.takeWhile fun c => !endsPath c

def authorityOf (rest : Text) : Text := (beforeQuery rest).takeWhile fun c => c ≠ slash

def pathOf (rest : Text) : Text := (beforeQuery rest).dropWhile fun c => c ≠ slash

def queryOf (rest : Text) : Option Text :=
  match rest.dropWhile fun c => !endsPath c with
  | 63 :: s => some (s.takeWhile fun c => c ≠ hashMark)
  | _ => none

/-- The host at the head, and what is left. A literal has a colon; a name has no escapes. -/
def parseHost : Text → Option (Text × Text)
  | 91 :: s =>
    match cutFirst rbracket s with
    | some (host, after) => if colon ∈ host ∧ lbracket ∉ host then some (host, after) else none
    | none => none
  | s =>
    let host := s.takeWhile fun c => c ≠ colon
    if lbracket ∈ host ∨ rbracket ∈ host ∨ percent ∈ host then none
    else some (host, s.dropWhile fun c => c ≠ colon)

def parsePort : Text → Option (Option Text)
  | [] => some none
  | c :: s => if c = colon ∧ s.all isDigit = true then some (some s) else none

def parseAuthority (s : Text) : Option (Option Text × Text × Option Text) :=
  let (userinfo, s) :=
    match cutLast atSign s with
    | some (userinfo, s) => (some userinfo, s)
    | none => (none, s)
  (parseHost s).bind fun (host, after) => (parsePort after).map fun port => (userinfo, host, port)

/-- The address whose scheme and `rest` stand around `://`. -/
def hier (scheme rest : Text) : Option Uri :=
  (parseAuthority (authorityOf rest)).map fun (userinfo, host, port) =>
    { scheme := scheme, userinfo := userinfo, host := host, port := port, path := pathOf rest,
      query := queryOf rest }

def parse (s : Text) : Option Uri :=
  if escaped s then
    match cutFirst colon s with
    | some (scheme, 47 :: 47 :: rest) => if isScheme scheme then hier scheme rest else none
    | _ => none
  else none

/-- Undoes the escapes of a query. -/
def queryUnescape : Text → Option Text
  | [] => some []
  | 37 :: a :: b :: s =>
    if isHexDigit a ∧ isHexDigit b then
      (queryUnescape s).map fun s => UInt8.ofNat (16 * digitValue a + digitValue b) :: s
    else none
  | 37 :: _ => none
  | 43 :: s => (queryUnescape s).map fun s => 32 :: s
  | c :: s => (queryUnescape s).map fun s => c :: s

/-- A piece of a query with a semicolon or a bad escape is left out. -/
def parseParameter (piece : Text) : Option (Text × Text) :=
  if piece = [] ∨ semicolon ∈ piece then none
  else
    let (key, value) := (cutFirst equalsSign piece).getD (piece, [])
    (queryUnescape key).bind fun key => (queryUnescape value).map fun value => (key, value)

def parameters (u : Uri) : List (Text × Text) :=
  ((u.query.getD []).splitOn ampersand).filterMap parseParameter

variable {s scheme rest host after d : Text} {u : Uri} {c : UInt8}

/-- A scheme goes on before every separator. -/
theorem schemeChar_ne {x : UInt8} (h : isSchemeChar c = true) (hx : isSchemeChar x = false) :
    c ≠ x := by
  rintro rfl
  rw [h] at hx
  cases hx

theorem endsPath_schemeChar (h : isSchemeChar c = true) : endsPath c = false := by
  have hq : c ≠ questionMark := schemeChar_ne h (by decide)
  have hh : c ≠ hashMark := schemeChar_ne h (by decide)
  simp [endsPath, hq, hh]

theorem isScheme_all (h : isScheme scheme = true) : ∀ c ∈ scheme, isSchemeChar c = true := by
  cases scheme with
  | nil => cases h
  | cons x s =>
    simp only [isScheme, Bool.and_eq_true, List.all_eq_true] at h
    rw [List.forall_mem_cons]
    refine ⟨?_, h.2⟩
    simp [isSchemeChar, h.1]

theorem colon_notMem_scheme (h : isScheme scheme = true) : colon ∉ scheme := by
  intro hm
  exact schemeChar_ne (isScheme_all h colon hm) (by decide) rfl

theorem hier_eq_some : hier scheme rest = some u ↔
    u.scheme = scheme ∧ parseAuthority (authorityOf rest) = some (u.userinfo, u.host, u.port) ∧
      u.path = pathOf rest ∧ u.query = queryOf rest := by
  rw [hier, Option.map_eq_some_iff]
  constructor
  · rintro ⟨⟨userinfo, host, port⟩, ha, rfl⟩
    exact ⟨rfl, ha, rfl, rfl⟩
  · rintro ⟨rfl, ha, hp, hq⟩
    refine ⟨_, ha, ?_⟩
    cases u
    subst hp hq
    rfl

theorem parse_eq_some : parse s = some u ↔
    escaped s = true ∧ isScheme u.scheme = true ∧
      ∃ rest, s = u.scheme ++ colon :: slash :: slash :: rest ∧ hier u.scheme rest = some u := by
  constructor
  · intro h
    rw [parse] at h
    split at h
    · rename_i he
      split at h
      · rename_i scheme rest hcut
        split at h
        · rename_i hs
          obtain ⟨hscheme, -⟩ := hier_eq_some.mp h
          subst hscheme
          exact ⟨he, hs, rest, (cutFirst_eq_some.mp hcut).1, h⟩
        · cases h
      · cases h
    · cases h
  · rintro ⟨he, hs, rest, rfl, h⟩
    rw [parse, if_pos he, cutFirst_append (colon_notMem_scheme hs)]
    exact (if_pos hs).trans h

/-- The rest of an address that has a known scheme. -/
theorem parse_append (hs : isScheme scheme = true)
    (h : parse (scheme ++ colon :: slash :: slash :: rest) = some u) :
    hier scheme rest = some u := by
  obtain ⟨-, hu, rest', heq, hh⟩ := parse_eq_some.mp h
  have hcut := cutFirst_append (b := slash :: slash :: rest) (colon_notMem_scheme hs)
  rw [heq, cutFirst_append (colon_notMem_scheme hu)] at hcut
  cases hcut
  exact hh

theorem parseHost_spec (h : parseHost s = some (host, after)) :
    lbracket ∉ host ∧ rbracket ∉ host := by
  unfold parseHost at h
  split at h
  · split at h
    · rename_i hcut
      split at h
      · rename_i hok
        cases h
        exact ⟨hok.2, (cutFirst_eq_some.mp hcut).2⟩
      · cases h
    · cases h
  · simp only at h
    split at h
    · cases h
    · rename_i hno
      cases h
      simp only [not_or] at hno
      exact ⟨hno.1, hno.2.1⟩

theorem parsePort_spec (h : parsePort s = some (some d)) : d.all isDigit = true := by
  cases s with
  | nil => cases h
  | cons c s =>
    rw [parsePort] at h
    split at h
    · rename_i hok
      cases h
      exact hok.2
    · cases h

theorem parseAuthority_spec {userinfo port : Option Text}
    (h : parseAuthority s = some (userinfo, host, port)) :
    lbracket ∉ host ∧ rbracket ∉ host ∧ ∀ d, port = some d → d.all isDigit = true := by
  simp only [parseAuthority, Option.bind_eq_some_iff, Option.map_eq_some_iff] at h
  obtain ⟨⟨host', after⟩, hhost, port', hport, heq⟩ := h
  cases heq
  obtain ⟨hl, hr⟩ := parseHost_spec hhost
  refine ⟨hl, hr, ?_⟩
  rintro d rfl
  exact parsePort_spec hport

/-- The host has no brackets, and the port is a number or empty. -/
theorem parse_spec (h : parse s = some u) :
    lbracket ∉ u.host ∧ rbracket ∉ u.host ∧ ∀ d, u.port = some d → d.all isDigit = true := by
  obtain ⟨-, -, rest, -, hh⟩ := parse_eq_some.mp h
  exact parseAuthority_spec (hier_eq_some.mp hh).2.1

theorem pathOf_length_le : (pathOf rest).length ≤ (beforeQuery rest).length :=
  List.length_dropWhile_le _ _

/-- A whole address in the place of the authority goes into the path from its slashes on. -/
theorem pathOf_scheme (h : isScheme scheme = true) :
    pathOf (scheme ++ colon :: slash :: slash :: rest) = slash :: slash :: beforeQuery rest := by
  have hall : ∀ c ∈ scheme, (!endsPath c) = true := by
    intro c hc
    rw [endsPath_schemeChar (isScheme_all h c hc)]
    rfl
  have hno : ∀ c ∈ scheme, decide (c ≠ slash) = true := by
    intro c hc
    rw [decide_eq_true_eq]
    exact schemeChar_ne (isScheme_all h c hc) (by decide)
  rw [pathOf, beforeQuery, List.takeWhile_append_of_pos hall, List.dropWhile_append_of_pos hno]
  rfl

/-- What stands before the query, if a slash is put at the end. -/
theorem beforeQuery_append_slash (rest : Text) : beforeQuery (rest ++ [slash]) = beforeQuery rest ∨
    beforeQuery (rest ++ [slash]) = beforeQuery rest ++ [slash] := by
  have happend : beforeQuery (rest ++ [slash]) =
      if (beforeQuery rest).length = rest.length then rest ++ [slash] else beforeQuery rest :=
    List.takeWhile_append
  by_cases h : (beforeQuery rest).length = rest.length
  · right
    have hs : beforeQuery rest = rest := (List.takeWhile_prefix _).eq_of_length h
    rw [happend, if_pos h, hs]
  · left
    rw [happend, if_neg h]

theorem slash_notMem_beforeQuery (h : slash ∉ rest) :
    ∀ c ∈ beforeQuery rest, decide (c ≠ slash) = true := by
  intro c hc
  rw [decide_eq_true_eq]
  rintro rfl
  exact h ((List.takeWhile_sublist _).mem hc)

/-- There is no path without a slash. -/
theorem pathOf_eq_nil (h : slash ∉ rest) : pathOf rest = [] :=
  List.dropWhile_eq_nil_iff.mpr (slash_notMem_beforeQuery h)

/-- A slash at the end of an address without a path makes at most a path of it. -/
theorem append_slash (h : slash ∉ rest) : authorityOf (rest ++ [slash]) = authorityOf rest ∧
    (pathOf (rest ++ [slash]) = [] ∨ pathOf (rest ++ [slash]) = [slash]) := by
  have hall := slash_notMem_beforeQuery h
  obtain heq | heq := beforeQuery_append_slash rest
  · refine ⟨by rw [authorityOf, heq, authorityOf], Or.inl ?_⟩
    rw [pathOf, heq]
    exact pathOf_eq_nil h
  · constructor
    · rw [authorityOf, heq, List.takeWhile_append_of_pos hall, authorityOf,
        List.takeWhile_eq_self_iff.mpr hall]
      exact List.append_nil _
    · right
      rw [pathOf, heq, List.dropWhile_append_of_pos hall]
      rfl

section

variable {v : Uri} {scheme' : Text}

/-- One authority has one host and one port, whatever stands around it. -/
theorem hier_authority {rest' : Text} (h : authorityOf rest' = authorityOf rest)
    (hu : hier scheme rest = some u) (hv : hier scheme' rest' = some v) :
    v.host = u.host ∧ v.port = u.port := by
  have hau := (hier_eq_some.mp hu).2.1
  have hav := (hier_eq_some.mp hv).2.1
  rw [h, hau] at hav
  injection hav with hav
  injection hav with _ hav
  injection hav with hhost hport
  exact ⟨hhost.symm, hport.symm⟩

/-- The scheme is read apart from the rest. -/
theorem hier_same (hu : hier scheme rest = some u) (hv : hier scheme' rest = some v) :
    v.host = u.host ∧ v.port = u.port ∧ v.path = u.path := by
  obtain ⟨hhost, hport⟩ := hier_authority rfl hu hv
  obtain ⟨-, -, hpu, -⟩ := hier_eq_some.mp hu
  obtain ⟨-, -, hpv, -⟩ := hier_eq_some.mp hv
  exact ⟨hhost, hport, hpv.trans hpu.symm⟩

/-- A slash at the end changes nothing but the path. -/
theorem hier_append_slash (h : slash ∉ rest) (hu : hier scheme rest = some u)
    (hv : hier scheme' (rest ++ [slash]) = some v) :
    v.host = u.host ∧ v.port = u.port ∧ u.path = [] ∧ (v.path = [] ∨ v.path = [slash]) := by
  obtain ⟨ha, hp⟩ := append_slash h
  obtain ⟨hhost, hport⟩ := hier_authority ha hu hv
  obtain ⟨-, -, hpu, -⟩ := hier_eq_some.mp hu
  obtain ⟨-, -, hpv, -⟩ := hier_eq_some.mp hv
  rw [hpu, hpv]
  exact ⟨hhost, hport, pathOf_eq_nil h, hp⟩

end

end Uri
end XTunnel.Net
