import XTunnel.Subscription.Reading

/-! INI documents that describe nodes, and what `parseIniNodes` makes of them. -/
namespace XTunnel.Subscription

open Profiles (SubNode)

structure Description where
  name : Value
  fields : Field → Option Value

/-- The document describes `ds`: their sections in the order of first appearance, each with the fields
that its lines give it. Besides them it has only sections named Settings. -/
structure Renders (locale : Locale) (ds : List Description) (doc : Document) : Prop where
  order : ((doc.blocks.map fun b => b.name.chars).eraseDups.filter
    fun name => !equalsIgnoreCase name "Settings") = ds.map fun d => d.name.chars
  fields : ∀ d ∈ ds, ∀ f,
    lastValue (fun _ => false) (linesOf doc.blocks d.name.chars) f = d.fields f
  preamble : ∀ text ∈ doc.preamble, isHeader (trim text) = false
  others : ∀ b ∈ doc.blocks, ∀ text, .other text ∈ b.lines → Other locale text

/-! ### The nodes that a list of descriptions stands for -/

def text (v : Option Value) : String := String.ofList ((v.map Value.chars).getD [])

def flag (byDefault : Bool) (v : Option Value) : Bool := (v.map fun v => isTrue v.chars).getD byDefault

def count (v : Option Value) : Int := (v.bind fun v => parseInt v.chars).getD 3

def orElse (v : Option Value) (byDefault : String) : String :=
  if text v = "" then byDefault else text v

/-- The node of a section, with the documented defaults. -/
def node (fields : Field → Option Value) (position : Nat) : SubNode where
  name := orElse (fields .name) (numbered position)
  server := text (fields .server)
  token := text (fields .token)
  ip := text (fields .ip)
  fallback := flag true (fields .fallback)
  insecure := flag false (fields .insecure)
  connections := count (fields .connections)
  block := orElse (fields .block) "443"

def hasServer (fields : Field → Option Value) : Bool := text (fields .server) != ""

/-- One node for each section with a server; `position` is the next node's. -/
def nodesFrom (position : Nat) : List (Field → Option Value) → List SubNode
  | [] => []
  | fields :: rest =>
    if hasServer fields then node fields position :: nodesFrom (position + 1) rest
    else nodesFrom position rest

/-! ### The nodes of the sections -/

/-- What a section holds for the fields. -/
def Holds (kv : Section) (fields : Field → Option Value) : Prop :=
  ∀ f : Field, kv.get f.key = (fields f).map Value.chars

variable {kv : Section} {fields : Field → Option Value} {server : Value}

theorem orElse_eq (v : Option Value) (byDefault : String) :
    orElse v byDefault =
      match v.map Value.chars with
      | none => byDefault
      | some s => if s.isEmpty then byDefault else String.ofList s := by
  cases v with
  | none => rfl
  | some v =>
    unfold orElse
    by_cases hv : v.chars = []
    · simp [text, hv]
    · simp [text, hv]

theorem readNode_eq (h : Holds kv fields) (hs : fields .server = some server) (position : Nat) :
    readNode kv position server.chars = node fields position := by
  have hname : kv.get "name".toList = _ := h .name
  have htoken : kv.get "token".toList = _ := h .token
  have hip : kv.get "ip".toList = _ := h .ip
  have hfallback : kv.get "fallback".toList = _ := h .fallback
  have hinsecure : kv.get "insecure".toList = _ := h .insecure
  have hconnections : kv.get "connections".toList = _ := h .connections
  have hblock : kv.get "block".toList = _ := h .block
  unfold readNode node
  rw [hname, htoken, hip, hfallback, hinsecure, hconnections, hblock, orElse_eq, orElse_eq, hs,
    SubNode.mk.injEq]
  refine ⟨rfl, rfl, rfl, rfl, ?_, ?_, ?_, ?_⟩
  · cases fields .fallback <;> rfl
  · cases fields .insecure <;> rfl
  · cases hc : fields .connections with
    | none => rfl
    | some v => simp [count, v.trimmed]
  · cases hb : fields .block with
    | none => rfl
    | some v => simp [v.trimmed]

theorem addNode_eq (list : List SubNode) (h : Holds kv fields) :
    addNode list (name, kv) =
      if equalsIgnoreCase name "Settings" then list
      else if hasServer fields then list ++ [node fields (list.length + 1)] else list := by
  have hserver : kv.get "server".toList = _ := h .server
  unfold addNode
  dsimp only
  rw [hserver]
  cases hset : equalsIgnoreCase name "Settings" with
  | true => rfl
  | false =>
    cases hs : fields .server with
    | none => simp [hasServer, hs, text]
    | some server =>
      have hempty : server.chars.isEmpty = !hasServer fields := by
        cases hc : server.chars <;> simp [hasServer, hs, text, hc]
      simp only [Option.map_some, Bool.false_eq_true, if_false, hempty]
      cases hasServer fields
      · rfl
      · simp [readNode_eq h hs]

theorem addNodes_eq (read : Chars → Field → Option Value) (entries : List (Chars × Section))
    (h : ∀ e ∈ entries, Holds e.2 (read e.1)) (list : List SubNode) :
    entries.foldl addNode list = list ++ nodesFrom (list.length + 1)
      (((entries.map Prod.fst).filter fun name => !equalsIgnoreCase name "Settings").map read) := by
  induction entries generalizing list with
  | nil => simp [nodesFrom]
  | cons e entries ih =>
    obtain ⟨name, kv⟩ := e
    have ih := ih fun e he => h e (List.mem_cons_of_mem _ he)
    rw [List.foldl_cons, addNode_eq list (h _ List.mem_cons_self), ih]
    cases hset : equalsIgnoreCase name "Settings" with
    | true => simp [hset]
    | false =>
      cases hserver : hasServer (read name) <;> simp [hset, hserver, nodesFrom]

/-! ### Whole documents -/

variable {ds : List Description} {doc : Document} {content : String}

/-- The parser's nodes are those of the values that it does not lose. -/
theorem parseIniNodes_read (hr : Renders locale ds doc) (ht : readLines content.toList = doc.lines) :
    parseIniNodes locale content = nodesFrom 1 (ds.map fun d =>
      lastValue (dotless locale) (linesOf doc.blocks d.name.chars)) := by
  unfold parseIniNodes
  dsimp only
  rw [ht, Document.lines, List.foldl_append, readLines_preamble hr.preamble rfl]
  obtain ⟨hk, hg⟩ := readLines_blocks (r := initial) hr.others
  have hholds : ∀ e ∈ ((doc.blocks.flatMap Block.text).foldl (readLine locale)
      initial).sections.entries, Holds e.2 (lastValue (dotless locale) (linesOf doc.blocks e.1)) := by
    rintro ⟨name, kv⟩ he f
    have hget := hg name f
    unfold Reader.get at hget
    rw [LinkedMap.get_of_mem he] at hget
    exact hget.trans Option.or_none
  rw [addNodes_eq (fun name => lastValue (dotless locale) (linesOf doc.blocks name)) _ hholds]
  have hnames : ((doc.blocks.flatMap Block.text).foldl (readLine locale)
      initial).sections.entries.map Prod.fst = (doc.blocks.map fun b => b.name.chars).eraseDups := hk
  rw [hnames, hr.order, List.map_map]
  rfl

/-- A capital I is in the keys of three fields only. -/
theorem dotless_field (e : Entry) (h : 'I' ∈ e.key) :
    e.field = .ip ∨ e.field = .insecure ∨ e.field = .connections := by
  have hi : 'i' ∈ e.field.key := by
    rw [← e.spelled]
    exact List.mem_map_of_mem h
  revert hi
  cases e.field <;> decide

theorem lastValue_congr {skipped skipped' : Chars → Bool} {lines : List Line}
    (h : ∀ line ∈ lines, line.value skipped f = line.value skipped' f) :
    lastValue skipped lines f = lastValue skipped' lines f := by
  unfold lastValue
  rw [List.filterMap_congr h]

theorem lastValue_dotless (lines : List Line) (hip : f ≠ .ip) (hin : f ≠ .insecure)
    (hco : f ≠ .connections) :
    lastValue (fun key => key.contains 'I') lines f = lastValue (fun _ => false) lines f := by
  refine lastValue_congr ?_
  intro line _
  cases line with
  | other text => rfl
  | entry e =>
    by_cases hf : e.field = f
    · by_cases hI : 'I' ∈ e.key
      · rcases dotless_field e hI with h | h | h
        · exact (hip (hf.symm.trans h)).elim
        · exact (hin (hf.symm.trans h)).elim
        · exact (hco (hf.symm.trans h)).elim
      · simp [Line.value, hI]
    · simp [Line.value, hf]

/-- The lines whose keys have no capital I give the three fields with an i in their key what all lines
give them. -/
def SameWithoutI (doc : Document) (d : Description) : Prop :=
  let read := lastValue (fun key => key.contains 'I') (linesOf doc.blocks d.name.chars)
  text (read .ip) = text (d.fields .ip) ∧ flag false (read .insecure) = flag false (d.fields .insecure) ∧
    count (read .connections) = count (d.fields .connections)

theorem node_eq_iff {read : Field → Option Value} (position : Nat)
    (h : ∀ f, f ≠ .ip → f ≠ .insecure → f ≠ .connections → read f = fields f) :
    node read position = node fields position ↔
      text (read .ip) = text (fields .ip) ∧
        flag false (read .insecure) = flag false (fields .insecure) ∧
        count (read .connections) = count (fields .connections) := by
  unfold node
  rw [h .name (by decide) (by decide) (by decide), h .server (by decide) (by decide) (by decide),
    h .token (by decide) (by decide) (by decide), h .fallback (by decide) (by decide) (by decide),
    h .block (by decide) (by decide) (by decide), SubNode.mk.injEq]
  constructor
  · rintro ⟨-, -, -, hip, -, hin, hco, -⟩
    exact ⟨hip, hin, hco⟩
  · rintro ⟨hip, hin, hco⟩
    exact ⟨rfl, rfl, rfl, hip, rfl, hin, hco, rfl⟩

/-- Two readings of the sections give the same nodes if they do so section by section. -/
theorem nodesFrom_map_iff {read : Description → Field → Option Value} (position : Nat)
    (h : ∀ d ∈ ds, ∀ f, f ≠ .ip → f ≠ .insecure → f ≠ .connections → read d f = d.fields f) :
    nodesFrom position (ds.map read) = nodesFrom position (ds.map Description.fields) ↔
      ∀ d ∈ ds, hasServer d.fields = true →
        text (read d .ip) = text (d.fields .ip) ∧
          flag false (read d .insecure) = flag false (d.fields .insecure) ∧
          count (read d .connections) = count (d.fields .connections) := by
  induction ds generalizing position with
  | nil => simp
  | cons d ds ih =>
    have hd := h d List.mem_cons_self
    have ih := fun position => ih position fun d hd => h d (List.mem_cons_of_mem _ hd)
    have hserver : hasServer (read d) = hasServer d.fields := by
      unfold hasServer
      rw [hd .server (by decide) (by decide) (by decide)]
    rw [List.map_cons, List.map_cons, nodesFrom, nodesFrom, hserver, List.forall_mem_cons]
    cases hs : hasServer d.fields with
    | false => simp [ih]
    | true => simp [ih, node_eq_iff position hd]

/-- The parser returns the nodes that the document describes, unless the default locale is Turkic and
a key written with a capital I makes a difference. -/
theorem parseIniNodes_iff (hr : Renders locale ds doc) (ht : readLines content.toList = doc.lines) :
    parseIniNodes locale content = nodesFrom 1 (ds.map Description.fields) ↔
      locale.turkic = false ∨ ∀ d ∈ ds, hasServer d.fields = true → SameWithoutI doc d := by
  rw [parseIniNodes_read hr ht]
  cases hl : locale.turkic with
  | false =>
    refine iff_of_true ?_ (Or.inl rfl)
    have hskip : dotless locale = fun _ => false := by
      funext key
      rw [dotless, hl, Bool.false_and]
    rw [hskip]
    congr 1
    refine List.map_congr_left ?_
    intro d hd
    funext f
    exact hr.fields d hd f
  | true =>
    have hskip : dotless locale = fun key => key.contains 'I' := by
      funext key
      rw [dotless, hl, Bool.true_and]
    rw [hskip, nodesFrom_map_iff]
    · simp [SameWithoutI]
    · intro d hd f hip hin hco
      rw [lastValue_dotless _ hip hin hco]
      exact hr.fields d hd f

/-- Each line ended by a line feed. Other texts with the same lines end them otherwise. -/
def Document.text (doc : Document) : String := String.ofList (doc.lines.flatMap (· ++ ['\n']))

theorem readLines_append {line : Chars} (h : '\n' ∉ line ∧ '\r' ∉ line) (rest : Chars) :
    readLines (line ++ '\n' :: rest) = line :: readLines rest := by
  induction line with
  | nil => rfl
  | cons c line ih =>
    simp only [List.mem_cons, not_or] at h
    have hc : ¬ (c = '\n' ∨ c = '\r') := by
      rintro (rfl | rfl)
      · exact h.1.1 rfl
      · exact h.2.1 rfl
    rw [List.cons_append, readLines, if_neg hc, ih ⟨h.1.2, h.2.2⟩]
    intro cs he
    exact (hc (Or.inr he)).elim

theorem readLines_text (h : ∀ line ∈ doc.lines, '\n' ∉ line ∧ '\r' ∉ line) :
    readLines doc.text.toList = doc.lines := by
  rw [Document.text, String.toList_ofList]
  generalize doc.lines = lines at h
  induction lines with
  | nil => rfl
  | cons line lines ih =>
    rw [List.flatMap_cons, List.append_assoc, List.singleton_append,
      readLines_append (h line List.mem_cons_self), ih fun l hl => h l (List.mem_cons_of_mem _ hl)]

def noSpaces : Spaces := ⟨[], fun _ h => (List.not_mem_nil h).elim⟩

/-- A document of one section, without spaces. -/
def single (name : Value) (entries : List Entry) : Document :=
  ⟨[], [⟨noSpaces, noSpaces, name, noSpaces, noSpaces, entries.map .entry⟩]⟩

def described (name : Value) (entries : List Entry) : Description :=
  ⟨name, lastValue (fun _ => false) (entries.map .entry)⟩

theorem renders_single {name : Value} (h : equalsIgnoreCase name.chars "Settings" = false)
    (entries : List Entry) : Renders locale [described name entries] (single name entries) := by
  refine ⟨?_, ?_, ?_, ?_⟩
  · simp [single, described, List.eraseDups_cons, h]
  · intro d hd f
    rw [List.mem_singleton.mp hd]
    simp [single, described, linesOf]
  · intro text ht
    cases ht
  · intro b hb text ht
    rw [single, List.mem_singleton] at hb
    subst hb
    simp at ht

def asciiLocale (turkic : Bool) : Locale := ⟨turkic, List.map (lowerAscii turkic), fun _ _ => rfl⟩

def letterA : Value := ⟨['a'], by decide, by decide⟩

def serverLine : Entry :=
  ⟨noSpaces, .server, "Server".toList, noSpaces, noSpaces, letterA, noSpaces, by decide⟩

def ipLine : Entry := ⟨noSpaces, .ip, "IP".toList, noSpaces, noSpaces, letterA, noSpaces, by decide⟩

def letterB : Value := ⟨['b'], by decide, by decide⟩

def settings : Value := ⟨"Settings".toList, by decide, by decide⟩

/-- A comment, a section Settings, the section `a` with a comment and a foreign line, and the section `b`
with no server. -/
def sample : Document :=
  ⟨["# nodes".toList],
    [⟨noSpaces, noSpaces, settings, noSpaces, noSpaces, [.entry ipLine]⟩,
      ⟨noSpaces, noSpaces, letterA, noSpaces, noSpaces,
        [.other "; first".toList, .entry serverLine, .other "free text".toList, .entry ipLine]⟩,
      ⟨noSpaces, noSpaces, letterB, noSpaces, noSpaces, [.entry ipLine]⟩]⟩

def sampleDescriptions : List Description :=
  [letterA, letterB].map fun name =>
    ⟨name, lastValue (fun _ => false) (linesOf sample.blocks name.chars)⟩

theorem renders_sample : Renders locale sampleDescriptions sample where
  order := by decide
  fields := List.forall_mem_map.mpr fun _ _ _ => rfl
  preamble := by decide
  others := by
    intro b hb text ht
    simp only [sample, List.mem_cons, List.not_mem_nil, or_false] at hb
    rcases hb with rfl | rfl | rfl
    · simp at ht
    · simp only [List.mem_cons, Line.other.injEq, List.not_mem_nil, or_false, reduceCtorEq, false_or] at ht
      rcases ht with rfl | rfl
      · exact .inr (.inr (.inl (by decide)))
      · -- no line without = assigns anything
        refine .inr (.inr (.inr ⟨by decide, fun left right he _ => ?_⟩))
        have hm : '=' ∈ trim "free text".toList := by
          rw [he]
          exact List.mem_append_right _ List.mem_cons_self
        exact absurd hm (by decide)
    · simp at ht

theorem parseIniNodes_iff_ascii : parseIniNodes (asciiLocale false) sample.text =
    nodesFrom 1 (sampleDescriptions.map Description.fields) :=
  (parseIniNodes_iff renders_sample (readLines_text (by decide))).mpr (Or.inl rfl)

/-- In a Turkic locale `IP=a` is not read. -/
theorem capital_I_lost : ¬ ∀ locale ds doc content, Renders locale ds doc →
    readLines (String.toList content) = Document.lines doc →
    parseIniNodes locale content = nodesFrom 1 (ds.map Description.fields) := by
  intro h
  have hr : Renders (asciiLocale true) [described letterA [serverLine, ipLine]]
      (single letterA [serverLine, ipLine]) := renders_single (by decide) _
  have ht : readLines (single letterA [serverLine, ipLine]).text.toList =
      (single letterA [serverLine, ipLine]).lines := readLines_text (by decide)
  have hnodes := h _ _ _ _ hr ht
  rw [parseIniNodes_read hr ht] at hnodes
  have hips := congrArg (List.map SubNode.ip) hnodes
  exact absurd hips (by decide)

end XTunnel.Subscription
