import XTunnel.Subscription.Ini

/-! INI documents, and what the reader of `parseIniNodes` knows after one. -/
namespace XTunnel.Subscription

inductive Field
  | server
  | token
  | ip
  | fallback
  | insecure
  | connections
  | block
  | name
  deriving DecidableEq

def Field.key : Field → Chars
  | .server => "server".toList
  | .token => "token".toList
  | .ip => "ip".toList
  | .fallback => "fallback".toList
  | .insecure => "insecure".toList
  | .connections => "connections".toList
  | .block => "block".toList
  | .name => "name".toList

structure Spaces where
  chars : Chars
  spaces : ∀ c ∈ chars, isSpace c = true

/-- A section name or a value of a field: no line breaks and no outer white space. -/
structure Value where
  chars : Chars
  oneLine : '\n' ∉ chars ∧ '\r' ∉ chars
  trimmed : trim chars = chars
  deriving DecidableEq

/-- A key in any case of its ASCII letters, with any spacing around it and its value. -/
structure Entry where
  lead : Spaces
  field : Field
  key : Chars
  before : Spaces
  after : Spaces
  value : Value
  trail : Spaces
  spelled : key.map Char.toLower = field.key

def Entry.text (e : Entry) : Chars :=
  e.lead.chars ++ (e.key ++ e.before.chars ++ ['=']) ++
    (e.after.chars ++ e.value.chars ++ e.trail.chars)

/-- A line of a section; `other` is a blank, comment or foreign one. -/
inductive Line
  | entry (e : Entry)
  | other (text : Chars)

def Line.text : Line → Chars
  | .entry e => e.text
  | .other text => text

/-- A section header with the lines up to the next one. -/
structure Block where
  lead : Spaces
  before : Spaces
  name : Value
  after : Spaces
  trail : Spaces
  lines : List Line

def Block.header (b : Block) : Chars :=
  b.lead.chars ++ ('[' :: (b.before.chars ++ b.name.chars ++ b.after.chars) ++ [']']) ++
    b.trail.chars

def Block.text (b : Block) : List Chars := b.header :: b.lines.map Line.text

structure Document where
  preamble : List Chars
  blocks : List Block

def Document.lines (doc : Document) : List Chars := doc.preamble ++ doc.blocks.flatMap Block.text

/-- No header, and no assignment to one of the eight keys. -/
def Foreign (locale : Locale) (text : Chars) : Prop :=
  isHeader (trim text) = false ∧ ∀ left right, trim text = left ++ '=' :: right → '=' ∉ left →
    ∀ f : Field, locale.toLowerCase (trim left) ≠ f.key

/-- Blank, comment and foreign lines. -/
def Other (locale : Locale) (text : Chars) : Prop :=
  trim text = [] ∨ (trim text).head? = some '#' ∨ (trim text).head? = some ';' ∨
    Foreign locale text

/-- The lines of all blocks of a section. -/
def linesOf (blocks : List Block) (name : Chars) : List Line :=
  (blocks.filter fun b => b.name.chars = name).flatMap Block.lines

/-- What a line assigns to a field, if keys that satisfy `skipped` do not count. -/
def Line.value (skipped : Chars → Bool) (f : Field) : Line → Option Value
  | .entry e => if e.field = f ∧ skipped e.key = false then some e.value else none
  | .other _ => none

/-- The last value that the lines give a field. -/
def lastValue (skipped : Chars → Bool) (lines : List Line) (f : Field) : Option Value :=
  (lines.filterMap (Line.value skipped f)).getLast?

/-! ### Trimming -/

def stripEnd (s : Chars) : Chars := (s.reverse.dropWhile isSpace).reverse

theorem dropWhile_spaces {a : Chars} (ha : ∀ c ∈ a, isSpace c = true) (s : Chars) :
    (a ++ s).dropWhile isSpace = s.dropWhile isSpace :=
  List.dropWhile_append_of_pos ha

theorem stripEnd_spaces {t : Chars} (ht : ∀ c ∈ t, isSpace c = true) (s : Chars) :
    stripEnd (s ++ t) = stripEnd s := by
  unfold stripEnd
  rw [List.reverse_append, dropWhile_spaces]
  intro c hc
  exact ht c (List.mem_reverse.mp hc)

/-- What follows a character that is no space does not reach it. -/
theorem stripEnd_append (m t : Chars) {c : Char} (hc : isSpace c = false) :
    stripEnd (m ++ [c] ++ t) = m ++ [c] ++ stripEnd t := by
  unfold stripEnd
  rw [List.reverse_append, List.dropWhile_append]
  split
  · rename_i h
    rw [List.isEmpty_iff.mp h]
    simp [hc]
  · simp

theorem trim_spaces {a : Chars} (ha : ∀ c ∈ a, isSpace c = true) (s : Chars) :
    trim (a ++ s) = trim s := by
  unfold trim
  rw [dropWhile_spaces ha]

theorem trim_trail {t : Chars} (ht : ∀ c ∈ t, isSpace c = true) (s : Chars) :
    trim (s ++ t) = trim s := by
  change stripEnd ((s ++ t).dropWhile isSpace) = stripEnd (s.dropWhile isSpace)
  rw [List.dropWhile_append]
  split
  · rename_i h
    rw [List.isEmpty_iff.mp h]
    have hnil := dropWhile_spaces ht []
    rw [List.append_nil] at hnil
    rw [hnil]
    rfl
  · exact stripEnd_spaces ht _

theorem trim_pad {a t : Chars} (ha : ∀ c ∈ a, isSpace c = true) (ht : ∀ c ∈ t, isSpace c = true)
    (s : Chars) : trim (a ++ s ++ t) = trim s := by
  rw [trim_trail ht, trim_spaces ha]

/-- A text that begins with no space keeps its part up to another such character. -/
theorem trim_anchor {c d : Char} (hc : isSpace c = false) (hd : isSpace d = false) (m t : Chars) :
    trim (c :: m ++ [d] ++ t) = c :: m ++ [d] ++ stripEnd t := by
  have hdrop : (c :: m ++ [d] ++ t).dropWhile isSpace = c :: m ++ [d] ++ t := by
    simp [hc]
  unfold trim
  rw [hdrop]
  exact stripEnd_append (c :: m) t hd

theorem dropWhile_of_no_space {s : Chars} (h : ∀ c ∈ s, isSpace c = false) :
    s.dropWhile isSpace = s := by
  cases s with
  | nil => rfl
  | cons c s => rw [List.dropWhile_cons_of_neg (by simp [h c List.mem_cons_self])]

theorem trim_of_no_space {s : Chars} (h : ∀ c ∈ s, isSpace c = false) : trim s = s := by
  unfold trim
  rw [dropWhile_of_no_space h, dropWhile_of_no_space, List.reverse_reverse]
  intro c hc
  exact h c (List.mem_reverse.mp hc)

theorem Value.last (v : Value) (hne : v.chars ≠ []) :
    ∃ m d, v.chars = m ++ [d] ∧ isSpace d = false := by
  have h := v.trimmed
  unfold trim at h
  cases hd : (v.chars.dropWhile isSpace).reverse.dropWhile isSpace with
  | nil =>
    rw [hd] at h
    exact (hne h.symm).elim
  | cons d m =>
    have hnot := List.head?_dropWhile_not isSpace (v.chars.dropWhile isSpace).reverse
    rw [hd] at h hnot
    exact ⟨m.reverse, d, by simpa using h.symm, by simpa using hnot⟩

/-- Behind the `=` a line keeps a text that trims to the value. -/
theorem trim_stripEnd_value (v : Value) {a t : Chars} (ha : ∀ c ∈ a, isSpace c = true)
    (ht : ∀ c ∈ t, isSpace c = true) : trim (stripEnd (a ++ v.chars ++ t)) = v.chars := by
  rw [stripEnd_spaces ht]
  by_cases hne : v.chars = []
  · have hnil := stripEnd_spaces ha []
    rw [List.nil_append] at hnil
    rw [hne, List.append_nil, hnil]
    rfl
  · obtain ⟨m, d, hv, hd⟩ := v.last hne
    have hend : stripEnd (a ++ m ++ [d]) = a ++ m ++ [d] := by
      simpa [stripEnd] using stripEnd_append (a ++ m) [] hd
    rw [List.append_assoc, ← hv] at hend
    rw [hend, trim_spaces ha, v.trimmed]

/-! ### What the reader makes of a line -/

theorem readLine_skipped {locale : Locale} {r : Reader} {line : Chars}
    (h : trim line = [] ∨ (trim line).head? = some '#' ∨ (trim line).head? = some ';') :
    readLine locale r line = r := by
  unfold readLine
  rcases h with h | h | h <;> simp [h]

theorem takeWhile_equals {left : Chars} (h : '=' ∉ left) (right : Chars) :
    (left ++ '=' :: right).takeWhile (· ≠ '=') = left := by
  rw [List.takeWhile_append_of_pos]
  · simp
  · intro c hc
    refine decide_eq_true ?_
    rintro rfl
    exact h hc

theorem dropWhile_equals {left : Chars} (h : '=' ∉ left) (right : Chars) :
    (left ++ '=' :: right).dropWhile (· ≠ '=') = '=' :: right := by
  rw [List.dropWhile_append_of_pos]
  · simp
  · intro c hc
    refine decide_eq_true ?_
    rintro rfl
    exact h hc

/-- A line of an open section that is no header and not skipped is split at its first `=`. -/
theorem readLine_plain {locale : Locale} {r : Reader} {line name : Chars}
    (hne : ¬ (trim line = [] ∨ (trim line).head? = some '#' ∨ (trim line).head? = some ';'))
    (hh : isHeader (trim line) = false) (hcur : r.currentSection = some name) :
    readLine locale r line =
      if '=' ∈ trim line ∧ (trim line).takeWhile (· ≠ '=') ≠ [] then
        { r with
          sections := r.sections.put name (((r.sections.get name).getD .empty).put
            (locale.toLowerCase (trim ((trim line).takeWhile (· ≠ '='))))
            (trim ((trim line).dropWhile (· ≠ '=')).tail)) }
      else r := by
  simp only [not_or] at hne
  obtain ⟨h₁, h₂, h₃⟩ := hne
  unfold readLine
  dsimp only
  rw [if_neg (by simp [h₁, h₂, h₃]), if_neg (by rw [hh]; exact Bool.false_ne_true), hcur]

theorem Block.trim_header (b : Block) :
    trim b.header = '[' :: (b.before.chars ++ b.name.chars ++ b.after.chars) ++ [']'] := by
  unfold Block.header
  rw [trim_pad b.lead.spaces b.trail.spaces]
  have h := trim_anchor (c := '[') (d := ']') rfl rfl
    (b.before.chars ++ b.name.chars ++ b.after.chars) []
  rw [List.append_nil] at h
  rw [h]
  exact List.append_nil _

theorem Block.readLine_header (b : Block) (locale : Locale) (r : Reader) :
    readLine locale r b.header =
      { currentSection := some b.name.chars
        sections := if r.sections.containsKey b.name.chars then r.sections
          else r.sections.put b.name.chars .empty } := by
  have hh : isHeader (trim b.header) = true := by
    rw [b.trim_header, isHeader, List.getLast?_concat]
    rfl
  have hname : trim (trim b.header).tail.dropLast = b.name.chars := by
    rw [b.trim_header]
    simp only [List.cons_append, List.tail_cons, List.dropLast_concat]
    rw [trim_pad b.before.spaces b.after.spaces, b.name.trimmed]
  unfold readLine
  dsimp only
  rw [if_neg (by rw [b.trim_header]; simp), if_pos hh, hname]

/-! ### Keys -/

theorem Field.key_injective {f g : Field} (h : f.key = g.key) : f = g := by
  revert h
  cases f <;> cases g <;> decide

theorem letter_of_toLower {c : Char} (h : 97 ≤ c.toLower.toNat ∧ c.toLower.toNat ≤ 122) :
    65 ≤ c.toNat ∧ c.toNat ≤ 122 ∧ c.toNat ≠ 91 := by
  by_cases hc : 'A'.val ≤ c.val ∧ c.val ≤ 'Z'.val
  · have h65 : 65 ≤ c.toNat := hc.1
    have h90 : c.toNat ≤ 90 := hc.2
    omega
  · have heq : c.toLower = c := dif_neg hc
    rw [heq] at h
    omega

theorem Field.key_letters (f : Field) : ∀ c ∈ f.key, 97 ≤ c.toNat ∧ c.toNat ≤ 122 := by
  have hall : f.key.all (fun c => decide (97 ≤ c.toNat ∧ c.toNat ≤ 122)) = true := by
    cases f <;> decide
  intro c hc
  exact of_decide_eq_true (List.all_eq_true.mp hall c hc)

theorem Field.dotless_notMem_key (f : Field) : 'ı' ∉ f.key := by
  cases f <;> decide

namespace Entry

variable {c : Char}

theorem mem_key (e : Entry) (hc : c ∈ e.key) : 65 ≤ c.toNat ∧ c.toNat ≤ 122 ∧ c.toNat ≠ 91 := by
  refine letter_of_toLower (e.field.key_letters _ ?_)
  rw [← e.spelled]
  exact List.mem_map_of_mem hc

theorem key_ascii (e : Entry) : ∀ c ∈ e.key, c.toNat < 128 := by
  intro c hc
  have h := e.mem_key hc
  omega

theorem isSpace_key (e : Entry) (hc : c ∈ e.key) : isSpace c = false := by
  have h := e.mem_key hc
  refine decide_eq_false ?_
  omega

theorem key_ne_nil (e : Entry) : e.key ≠ [] := by
  intro hk
  have h := e.spelled
  rw [hk] at h
  cases hf : e.field <;> rw [hf] at h <;> exact absurd h (by decide)

theorem trim_key (e : Entry) : trim e.key = e.key :=
  trim_of_no_space fun _ hc => e.isSpace_key hc

/-- No `=` stands before the one behind the key. -/
theorem equals_notMem_left (e : Entry) : '=' ∉ e.key ++ e.before.chars := by
  intro hm
  rcases List.mem_append.mp hm with hm | hm
  · have h := e.mem_key hm
    have heq : '='.toNat = 61 := rfl
    omega
  · have h := e.before.spaces _ hm
    cases h

/-- A key is read as its field unless a Turkic locale meets a capital I. -/
theorem lower_key (e : Entry) {locale : Locale} (h : (locale.turkic && e.key.contains 'I') = false) :
    locale.toLowerCase e.key = e.field.key := by
  rw [locale.ascii _ e.key_ascii, ← e.spelled]
  refine List.map_congr_left ?_
  intro c hc
  unfold lowerAscii
  cases ht : locale.turkic with
  | false => rfl
  | true =>
    rw [ht, Bool.true_and] at h
    have hne : c ≠ 'I' := by
      rintro rfl
      rw [List.contains_iff_mem.mpr hc] at h
      cases h
    simp [hne]

theorem lower_key_dotless (e : Entry) {locale : Locale}
    (h : (locale.turkic && e.key.contains 'I') = true) (f : Field) :
    locale.toLowerCase e.key ≠ f.key := by
  intro hf
  rw [Bool.and_eq_true] at h
  refine f.dotless_notMem_key ?_
  rw [← hf, locale.ascii _ e.key_ascii]
  refine List.mem_map.mpr ⟨'I', List.contains_iff_mem.mp h.2, ?_⟩
  simp [lowerAscii, h.1]

/-- Its key and the sign stand in front, and trim to the key; behind them comes the value. -/
theorem trim_text (e : Entry) : trim e.text =
    e.key ++ e.before.chars ++ ['='] ++
      stripEnd (e.after.chars ++ e.value.chars ++ e.trail.chars) := by
  cases hk : e.key with
  | nil => exact (e.key_ne_nil hk).elim
  | cons c cs =>
    have hc : isSpace c = false := e.isSpace_key (by rw [hk]; exact List.mem_cons_self)
    have h := trim_anchor (d := '=') hc rfl (cs ++ e.before.chars)
      (e.after.chars ++ e.value.chars ++ e.trail.chars)
    rw [text, List.append_assoc e.lead.chars, trim_spaces e.lead.spaces, hk]
    exact h

end Entry

/-! ### What the reader knows -/

/-- The value that the reader has for a field of a section. -/
def Reader.get (r : Reader) (name : Chars) (f : Field) : Option Chars :=
  (r.sections.get name).bind fun kv => kv.get f.key

/-- The keys that the locale does not lower to those of the fields. -/
def dotless (locale : Locale) (key : Chars) : Bool := locale.turkic && key.contains 'I'

variable {locale : Locale} {r : Reader} {name : Chars} {n : Chars} {f : Field}

theorem get_put_section (key val : Chars) : Reader.get
    { r with sections := r.sections.put name (((r.sections.get name).getD .empty).put key val) } n f =
      if n = name ∧ f.key = key then some val else r.get n f := by
  unfold Reader.get
  simp only [LinkedMap.get_put]
  by_cases hn : n = name
  · subst hn
    by_cases hf : f.key = key
    · simp [hf]
    · cases hs : r.sections.get n <;> simp [hf]
  · simp [hn]

theorem Other.skipped_or_foreign {text : Chars} (h : Other locale text) :
    (trim text = [] ∨ (trim text).head? = some '#' ∨ (trim text).head? = some ';') ∨
      Foreign locale text := by
  rcases h with h | h | h | h
  · exact Or.inl (Or.inl h)
  · exact Or.inl (Or.inr (Or.inl h))
  · exact Or.inl (Or.inr (Or.inr h))
  · exact Or.inr h

/-- What a line does in an open section: it may put one key, of no field or of the entry's. -/
theorem readLine_entry (e : Entry) (hcur : r.currentSection = some name) :
    readLine locale r e.text = { r with
      sections := r.sections.put name (((r.sections.get name).getD .empty).put
        (locale.toLowerCase e.key) e.value.chars) } := by
  have htrim := e.trim_text
  rw [List.append_assoc, List.singleton_append] at htrim
  obtain ⟨c, cs, hk⟩ := List.exists_cons_of_ne_nil e.key_ne_nil
  have hletter : 65 ≤ c.toNat ∧ c.toNat ≤ 122 ∧ c.toNat ≠ 91 :=
    e.mem_key (by rw [hk]; exact List.mem_cons_self)
  have hc : (trim e.text).head? = some c := by
    rw [htrim, hk]
    rfl
  rw [readLine_plain ?_ ?_ hcur, htrim, takeWhile_equals e.equals_notMem_left,
    dropWhile_equals e.equals_notMem_left, trim_trail e.before.spaces, e.trim_key, List.tail_cons,
    trim_stripEnd_value e.value e.after.spaces e.trail.spaces, if_pos]
  · refine ⟨List.mem_append_right _ List.mem_cons_self, ?_⟩
    simp [e.key_ne_nil]
  · rw [hc]
    rintro (h | h | h)
    · rw [h] at hc
      cases hc
    · cases h
      exact absurd hletter.1 (by decide)
    · cases h
      exact absurd hletter.1 (by decide)
  · have hne : c ≠ '[' := by
      rintro rfl
      exact hletter.2.2 rfl
    rw [isHeader, hc]
    simp [hne]

theorem readLine_body (line : Line) (hother : ∀ text, line = .other text → Other locale text)
    (hcur : r.currentSection = some name) (hmem : name ∈ r.sections.keys) :
    (readLine locale r line.text).currentSection = some name ∧
      (readLine locale r line.text).sections.keys = r.sections.keys ∧
      ∀ n f, (readLine locale r line.text).get n f =
        if n = name then ((line.value (dotless locale) f).map Value.chars).or (r.get n f)
        else r.get n f := by
  cases line with
  | entry e =>
    change (readLine locale r e.text).currentSection = _ ∧ _
    simp only [Line.text]
    rw [readLine_entry e hcur]
    refine ⟨hcur, LinkedMap.keys_put_of_mem hmem, ?_⟩
    intro n f
    rw [get_put_section]
    by_cases hn : n = name
    · cases hd : dotless locale e.key with
      | false =>
        have hl := e.lower_key hd
        by_cases hf : e.field = f
        · simp [hn, hl, hf, hd, Line.value]
        · have hne : f.key ≠ e.field.key := fun he => hf (Field.key_injective he).symm
          simp [hn, hl, hne, hf, Line.value]
      | true =>
        have hne := (e.lower_key_dotless hd f).symm
        simp [hn, hne, hd, Line.value]
    · simp [hn]
  | other text =>
    have hsame : ∀ n f, r.get n f = if n = name then
        (((Line.other text).value (dotless locale) f).map Value.chars).or (r.get n f)
        else r.get n f := by
      intro n f
      simp [Line.value]
    change (readLine locale r text).currentSection = _ ∧
      (readLine locale r text).sections.keys = _ ∧ _
    by_cases hskip : trim text = [] ∨ (trim text).head? = some '#' ∨ (trim text).head? = some ';'
    · have heq : readLine locale r text = r := readLine_skipped hskip
      rw [show (Line.other text).text = text from rfl, heq]
      exact ⟨hcur, rfl, hsame⟩
    · obtain ⟨hh, hkey⟩ := (hother text rfl).skipped_or_foreign.resolve_left hskip
      rw [show (Line.other text).text = text from rfl, readLine_plain hskip hh hcur]
      split
      · rename_i heq
        refine ⟨hcur, LinkedMap.keys_put_of_mem hmem, ?_⟩
        intro n f
        rw [get_put_section, ← hsame, if_neg]
        rintro ⟨-, hf⟩
        obtain ⟨left, right, hsplit, hnot⟩ := List.eq_append_cons_of_mem heq.1
        rw [hsplit, takeWhile_equals hnot] at hf
        exact hkey left right hsplit hnot f hf.symm
      · exact ⟨hcur, rfl, hsame⟩

theorem lastValue_cons (skipped : Chars → Bool) (line : Line) (lines : List Line) (f : Field) :
    lastValue skipped (line :: lines) f = (lastValue skipped lines f).or (line.value skipped f) := by
  unfold lastValue
  rw [List.filterMap_cons]
  cases line.value skipped f with
  | none => simp
  | some v =>
    simp only [List.getLast?_cons]
    cases (lines.filterMap (Line.value skipped f)).getLast? <;> rfl

theorem lastValue_append (skipped : Chars → Bool) (xs ys : List Line) (f : Field) :
    lastValue skipped (xs ++ ys) f = (lastValue skipped ys f).or (lastValue skipped xs f) := by
  unfold lastValue
  rw [List.filterMap_append, List.getLast?_append]

/-- What the lines of a block do in its section. -/
theorem readLines_body {lines : List Line} (hother : ∀ text, .other text ∈ lines → Other locale text)
    (hcur : r.currentSection = some name) (hmem : name ∈ r.sections.keys) :
    ((lines.map Line.text).foldl (readLine locale) r).sections.keys = r.sections.keys ∧
      ∀ n f, ((lines.map Line.text).foldl (readLine locale) r).get n f =
        if n = name then ((lastValue (dotless locale) lines f).map Value.chars).or (r.get n f)
        else r.get n f := by
  induction lines generalizing r with
  | nil =>
    refine ⟨rfl, ?_⟩
    intro n f
    simp [lastValue]
  | cons line lines ih =>
    obtain ⟨hc, hk, hg⟩ := readLine_body line (fun text h => hother text (h ▸ List.mem_cons_self))
      hcur hmem
    obtain ⟨hks, hgs⟩ := ih (fun text h => hother text (List.mem_cons_of_mem _ h)) hc
      (by rw [hk]; exact hmem)
    refine ⟨hks.trans hk, ?_⟩
    intro n f
    rw [List.map_cons, List.foldl_cons, hgs, hg, lastValue_cons]
    by_cases hn : n = name
    · rw [if_pos hn, if_pos hn, if_pos hn, Option.map_or, Option.or_assoc]
    · rw [if_neg hn, if_neg hn, if_neg hn]

theorem Block.read (b : Block) (hother : ∀ text, .other text ∈ b.lines → Other locale text) :
    (b.text.foldl (readLine locale) r).sections.keys =
        (r.sections.keys ++ [b.name.chars]).eraseDups ∧
      ∀ n f, (b.text.foldl (readLine locale) r).get n f =
        if n = b.name.chars then
          ((lastValue (dotless locale) b.lines f).map Value.chars).or (r.get n f)
        else r.get n f := by
  have hheader := b.readLine_header locale r
  obtain ⟨hkeys, hget⟩ : (readLine locale r b.header).sections.keys =
      (r.sections.keys ++ [b.name.chars]).eraseDups ∧
      ∀ n f, (readLine locale r b.header).get n f = r.get n f := by
    rw [hheader]
    by_cases hm : b.name.chars ∈ r.sections.keys
    · have hput : (r.sections.put b.name.chars .empty).keys = _ := LinkedMap.keys_put
      have hcontains : r.sections.containsKey b.name.chars = true := List.contains_iff_mem.mpr hm
      simp only [hcontains, if_true]
      exact ⟨by rw [← hput, LinkedMap.keys_put_of_mem hm], fun _ _ => rfl⟩
    · have hcontains : ¬ r.sections.containsKey b.name.chars = true :=
        mt List.contains_iff_mem.mp hm
      have hnone := LinkedMap.get_eq_none hm
      simp only [if_neg hcontains]
      refine ⟨LinkedMap.keys_put, ?_⟩
      intro n f
      unfold Reader.get
      by_cases hn : n = b.name.chars
      · simp [hn, hnone]
      · simp [hn]
  have hcur : (readLine locale r b.header).currentSection = some b.name.chars := by rw [hheader]
  have hmem : b.name.chars ∈ (readLine locale r b.header).sections.keys := by
    rw [hkeys, List.mem_eraseDups]
    simp
  obtain ⟨hk, hg⟩ := readLines_body hother hcur hmem
  refine ⟨hk.trans hkeys, ?_⟩
  intro n f
  rw [Block.text, List.foldl_cons, hg, hget]

/-- What a run of blocks leaves in the reader. -/
theorem readLines_blocks {blocks : List Block}
    (hother : ∀ b ∈ blocks, ∀ text, .other text ∈ b.lines → Other locale text) :
    ((blocks.flatMap Block.text).foldl (readLine locale) r).sections.keys =
        (r.sections.keys ++ blocks.map fun b => b.name.chars).eraseDups ∧
      ∀ n f, ((blocks.flatMap Block.text).foldl (readLine locale) r).get n f =
        ((lastValue (dotless locale) (linesOf blocks n) f).map Value.chars).or (r.get n f) := by
  induction blocks generalizing r with
  | nil =>
    refine ⟨?_, ?_⟩
    · exact (List.append_nil _).symm ▸ (eraseDups_of_nodup r.sections.nodup).symm
    · intro n f
      simp [linesOf, lastValue]
  | cons b blocks ih =>
    obtain ⟨hk, hg⟩ := b.read (r := r) (hother b List.mem_cons_self)
    obtain ⟨hks, hgs⟩ := ih (r := b.text.foldl (readLine locale) r)
      fun b' hb => hother b' (List.mem_cons_of_mem _ hb)
    rw [List.flatMap_cons, List.foldl_append]
    refine ⟨?_, ?_⟩
    · rw [hks, hk, eraseDups_append_left, List.append_assoc]
      rfl
    · intro n f
      rw [hgs, hg]
      by_cases hn : n = b.name.chars
      · have hlines : linesOf (b :: blocks) n = b.lines ++ linesOf blocks n := by
          simp [linesOf, hn]
        rw [if_pos hn, hlines, lastValue_append, Option.map_or, Option.or_assoc]
      · have hlines : linesOf (b :: blocks) n = linesOf blocks n := by
          simp [linesOf, Ne.symm hn]
        rw [if_neg hn, hlines]

/-- Before the first header nothing is read. -/
theorem readLines_preamble {preamble : List Chars}
    (h : ∀ text ∈ preamble, isHeader (trim text) = false) (hcur : r.currentSection = none) :
    preamble.foldl (readLine locale) r = r := by
  induction preamble with
  | nil => rfl
  | cons text preamble ih =>
    have hline : readLine locale r text = r := by
      unfold readLine
      dsimp only
      split
      · rfl
      · rw [if_neg (by rw [h text List.mem_cons_self]; exact Bool.false_ne_true), hcur]
    rw [List.foldl_cons, hline]
    exact ih fun text ht => h text (List.mem_cons_of_mem _ ht)

end XTunnel.Subscription
