import Mathlib.Data.List.Infix
import XTunnel.Net.Base64Decoder
import XTunnel.Net.Utf8
import XTunnel.Subscription.Rendering

/-! `SubscriptionManager.tryBase64Decode`: plain subscriptions and their base64 texts. -/
namespace XTunnel.Subscription

open Net

/-- `new String(bytes, UTF_8)`: bytes that are no text are replaced. -/
structure Utf8 where
  newString : Text → String
  valid : ∀ s : String, newString (encode s.toList) = s

/-- The tests on the raw text. -/
def looksPlain (text : String) : Prop :=
  text.toList.head? = some '[' ∨ "[Server".toList <:+: text.toList ∨
    "server=".toList <:+: text.toList

/-- The tests on the decoded text. -/
def looksDecoded (str : String) : Prop :=
  "[".toList <:+: str.toList ∨ "server=".toList <:+: str.toList

instance (text : String) : Decidable (looksPlain text) := inferInstanceAs (Decidable (_ ∨ _))

instance (str : String) : Decidable (looksDecoded str) := inferInstanceAs (Decidable (_ ∨ _))

variable (base64 : Base64.Decoder) (utf8 : Utf8) (locale : Locale)

def tryBase64Decode (text : String) : String :=
  if looksPlain text then text
  else
    match base64.decode (encode text.toList) with
    | none => text
    | some decoded =>
      let str := utf8.newString decoded
      if looksDecoded str then str else text

/-- The padded base64 of the text's bytes, with or without line breaks. -/
def IsBase64Of (b text : String) : Prop :=
  (encode b.toList).filter (fun x => x != 10 && x != 13) = Base64.encodeToString (encode text.toList)

/-- A text and its base64 give the nodes of the text. -/
structure Equivalent (text : String) : Prop where
  plain : parseIniNodes locale (tryBase64Decode base64 utf8 text) = parseIniNodes locale text
  encoded : ∀ b, IsBase64Of b text →
    parseIniNodes locale (tryBase64Decode base64 utf8 b) = parseIniNodes locale text

/-- The text passes the tests on the raw text, or the decoder refuses it, or what it decodes to fails
the tests or describes the same nodes. -/
def StaysPlain (text : String) : Prop :=
  looksPlain text ∨ ∀ decoded, base64.decode (encode text.toList) = some decoded →
    looksDecoded (utf8.newString decoded) →
    parseIniNodes locale (utf8.newString decoded) = parseIniNodes locale text

variable {base64 utf8 locale} {text b : String}

theorem mem_of_mem_trim {s : Chars} {c : Char} (h : c ∈ trim s) : c ∈ s := by
  have hend := List.mem_reverse.mp ((List.dropWhile_sublist isSpace).subset (List.mem_reverse.mp h))
  exact (List.dropWhile_sublist isSpace).subset hend

theorem mem_of_mem_readLines {cs line : Chars} {c : Char} (hl : line ∈ readLines cs) (hc : c ∈ line) :
    c ∈ cs := by
  induction cs using readLines.induct generalizing line with
  | case1 => cases hl
  | case2 cs ih =>
    rw [readLines] at hl
    rcases List.mem_cons.mp hl with rfl | hl
    · cases hc
    · exact List.mem_cons_of_mem _ (List.mem_cons_of_mem _ (ih hl hc))
  | case3 d cs hnot hbreak ih =>
    rw [readLines, if_pos hbreak] at hl
    · rcases List.mem_cons.mp hl with rfl | hl
      · cases hc
      · exact List.mem_cons_of_mem _ (ih hl hc)
    · exact hnot
  | case4 d cs hnot hbreak hnil ih =>
    rw [readLines, if_neg hbreak, hnil] at hl
    · obtain rfl := List.mem_singleton.mp hl
      obtain rfl := List.mem_singleton.mp hc
      exact List.mem_cons_self
    · exact hnot
  | case5 d cs hnot hbreak l ls hcons ih =>
    rw [readLines, if_neg hbreak, hcons] at hl
    · rcases List.mem_cons.mp hl with rfl | hl
      · rcases List.mem_cons.mp hc with rfl | hc
        · exact List.mem_cons_self
        · exact List.mem_cons_of_mem _ (ih (hcons ▸ List.mem_cons_self) hc)
      · exact List.mem_cons_of_mem _ (ih (hcons ▸ List.mem_cons_of_mem _ hl) hc)
    · exact hnot

/-- A text with nodes has a section header. -/
theorem bracket_of_nodes (h : parseIniNodes locale text ≠ []) : '[' ∈ text.toList := by
  by_contra hno
  refine h ?_
  have hheader : ∀ line ∈ readLines text.toList, isHeader (trim line) = false := by
    intro line hl
    refine Bool.eq_false_iff.mpr ?_
    intro hh
    have hhead : (trim line).head? = some '[' := by
      unfold isHeader at hh
      simpa using (Bool.and_eq_true_iff.mp hh).1
    exact hno (mem_of_mem_readLines hl (mem_of_mem_trim (List.mem_of_mem_head? hhead)))
  unfold parseIniNodes
  rw [readLines_preamble hheader rfl]
  rfl

/-! ### The base64 of a text -/

theorem ascii_mem_encode {s : List Char} {c : Char} (hc : c.toNat ≤ 127) (h : c ∈ s) :
    UInt8.ofNat c.toNat ∈ encode s := by
  refine List.mem_flatMap.mpr ⟨c, h, ?_⟩
  rw [utf8EncodeChar_ascii hc]
  exact List.mem_singleton_self _

/-- The bytes of the alphabet and the padding are no line breaks. -/
theorem isCode_noBreak {x : UInt8} (h : Base64.isCode x = true) : (x != 10 && x != 13) = true := by
  rw [Bool.and_eq_true, bne_iff_ne, bne_iff_ne]
  constructor <;> rintro rfl <;> exact absurd h (by decide)

theorem not_looksPlain_encoded (h : IsBase64Of b text) : ¬ looksPlain b := by
  have hbracket : '[' ∉ b.toList := by
    intro hm
    have hx : (91 : UInt8) ∈ Base64.encodeToString (encode text.toList) := by
      rw [← h]
      exact List.mem_filter.mpr ⟨ascii_mem_encode (c := '[') (by decide) hm, rfl⟩
    exact absurd (Base64.isCode_encodeToString _ _ hx) (by decide)
  rintro (hp | ⟨pre, post, hp⟩ | ⟨pre, post, hp⟩)
  · exact hbracket (List.mem_of_mem_head? hp)
  · refine hbracket ?_
    rw [← hp]
    exact List.mem_append_left _ (List.mem_append_right _ (by decide))
  · -- the r before the = would have two bits that the padding leaves zero
    have hinfix : [114, 61] <:+: Base64.encodeToString (encode text.toList) := by
      have hserver : (encode "server=".toList).filter (fun x => x != 10 && x != 13) =
          [115, 101, 114, 118, 101] ++ [114, 61] := by decide
      rw [← h, ← hp, encode_append, encode_append, List.filter_append, List.filter_append, hserver,
        ← List.append_assoc]
      exact List.infix_append _ _ _
    have hcloses := List.IsChain.infix (Base64.closes_encodeToString _) hinfix
    rcases (List.isChain_pair.mp hcloses) rfl with he | ⟨n, hn, he⟩
    · exact absurd he (by decide)
    · revert he
      revert n
      decide

theorem decode_encoded (h : IsBase64Of b text) :
    base64.decode (encode b.toList) = some (encode text.toList) := by
  have hfilter : (encode b.toList).filter Base64.isCode =
      Base64.encodeToString (encode text.toList) := by
    have hsame : (encode b.toList).filter Base64.isCode =
        ((encode b.toList).filter fun x => x != 10 && x != 13).filter Base64.isCode := by
      rw [List.filter_filter]
      refine List.filter_congr ?_
      intro x _
      cases hx : Base64.isCode x with
      | false => rfl
      | true => rw [isCode_noBreak hx]; rfl
    rw [hsame, h]
    exact List.filter_eq_self.mpr (Base64.isCode_encodeToString _)
  rw [← base64.skips, hfilter, base64.decodes]

/-- The base64 of a text with a bracket is decoded to the text. -/
theorem tryBase64Decode_encoded (h : IsBase64Of b text) (hbracket : '[' ∈ text.toList) :
    tryBase64Decode base64 utf8 b = text := by
  have hlooks : looksDecoded text := by
    obtain ⟨pre, post, hsplit⟩ := List.append_of_mem hbracket
    exact Or.inl ⟨pre, post, by rw [hsplit]; simp⟩
  unfold tryBase64Decode
  rw [if_neg (not_looksPlain_encoded h), decode_encoded h]
  dsimp only
  rw [utf8.valid, if_pos hlooks]

/-- A byte of the alphabet behind an = keeps a text from the decoder. -/
theorem staysPlain_of_alphabet {pre post : List Char} (ht : text.toList = pre ++ '=' :: post)
    {x : UInt8} (hx : (Base64.value x).isSome = true) (hm : x ∈ encode post) :
    StaysPlain base64 utf8 locale text := by
  right
  intro decoded hd
  have hbytes : encode text.toList = encode pre ++ Base64.padding :: encode post := by
    rw [ht, encode_append]
    rfl
  rw [hbytes, base64.rejects _ _ x hx hm] at hd
  cases hd

/-- Malformed input has its bytes beyond ASCII replaced one by one. -/
def newString (bytes : Text) : String :=
  match String.fromUTF8? bytes.toByteArray with
  | some s => s
  | none => String.ofList (bytes.map fun x => if x < 128 then Char.ofNat x.toNat else '\uFFFD')

def utf8Charset : Utf8 where
  newString := newString
  valid s := by
    have hbytes : (encode s.toList).toByteArray = s.toByteArray := by
      conv_rhs => rw [← String.ofList_toList (s := s), String.toByteArray_ofList]
      rfl
    have hutf8 : String.fromUTF8? s.toByteArray = some s := dif_pos s.isValidUTF8
    unfold newString
    rw [hbytes, hutf8]

theorem equivalent_of_staysPlain (h : parseIniNodes locale text ≠ [])
    (hs : StaysPlain base64 utf8 locale text) : Equivalent base64 utf8 locale text := by
  refine ⟨?_, fun b hb => by rw [tryBase64Decode_encoded hb (bracket_of_nodes h)]⟩
  unfold tryBase64Decode
  split
  · rfl
  · rename_i hp
    have hdec := hs.resolve_left hp
    cases hd : base64.decode (encode text.toList) with
    | none => rfl
    | some decoded =>
      dsimp only
      split
      · rename_i hl
        exact hdec decoded hd hl
      · rfl

/-- The tests of the code are enough: the text passes those on the raw text, or the decoder refuses it,
or what it decodes to fails the others. -/
theorem equivalent_of_tests (h : parseIniNodes locale text ≠ [])
    (ht : looksPlain text ∨ base64.decode (encode text.toList) = none ∨
      ∃ decoded, base64.decode (encode text.toList) = some decoded ∧
        ¬ looksDecoded (utf8.newString decoded)) : Equivalent base64 utf8 locale text := by
  refine equivalent_of_staysPlain h (ht.imp_right fun hd => ?_)
  rintro decoded hdec hl
  rcases hd with hnone | ⟨d, hd, hn⟩
  · rw [hnone] at hdec
    cases hdec
  · rw [hd] at hdec
    cases hdec
    exact (hn hl).elim

/-- Texts with nodes keep them through their base64, and through the decoder if they stay plain. -/
theorem tryBase64Decode_iff (h : parseIniNodes locale text ≠ []) :
    Equivalent base64 utf8 locale text ↔ StaysPlain base64 utf8 locale text := by
  constructor
  · intro he
    by_cases hp : looksPlain text
    · exact Or.inl hp
    · right
      intro decoded hd hl
      have hplain := he.plain
      unfold tryBase64Decode at hplain
      rw [if_neg hp, hd] at hplain
      dsimp only at hplain
      rw [if_pos hl] at hplain
      exact hplain
  · exact equivalent_of_staysPlain h

theorem tryBase64Decode_iff_server : Equivalent Base64.android utf8Charset (asciiLocale false)
    "[a]\nserver=a\n" :=
  (tryBase64Decode_iff (by decide)).mpr (Or.inl (by decide))

/-- The server's name has no ASCII letter, and the comment decodes to `[[1`. -/
def chineseServer : String := "#W1sxA\n[节点]\nSERVER = 例子.中国\n"

theorem chineseServer_decoded :
    tryBase64Decode Base64.android utf8Charset chineseServer = "[[1\x01!\x11TD" := by
  have hplain : ¬ looksPlain chineseServer := by decide
  have hdecode : Base64.android.decode (encode chineseServer.toList) =
      some (encode "[[1\x01!\x11TD".toList) := by decide
  unfold tryBase64Decode
  rw [if_neg hplain, hdecode]
  dsimp only
  rw [utf8Charset.valid, if_pos (by decide)]

theorem nodes_lost_in_decoder : ¬ ∀ base64 utf8 locale text, parseIniNodes locale text ≠ [] →
    Equivalent base64 utf8 locale text := by
  intro h
  have hnodes : parseIniNodes (asciiLocale false) chineseServer ≠ [] := by decide
  have hplain := (h Base64.android utf8Charset _ _ hnodes).plain
  rw [chineseServer_decoded] at hplain
  exact hnodes (hplain.symm.trans (by decide))

end XTunnel.Subscription
