import XTunnel.Net.Text

/-! The bytes of a string: its characters one after another, and ASCII bytes only of ASCII
characters. -/
namespace XTunnel.Net

/-- The bytes of characters, as a string encodes them. -/
def encode (s : List Char) : Text := s.flatMap String.utf8EncodeChar

variable {s : List Char} {c : Char} {b : UInt8}

theorem toList_loop (bs : ByteArray) (i : Nat) (r : List UInt8) :
    ByteArray.toList.loop bs i r = r.reverse ++ bs.data.toList.drop i := by
  induction i, r using ByteArray.toList.loop.induct bs with
  | case1 i r h ih =>
    have hi : i < bs.data.toList.length := h
    have hget : bs.get! i = bs.data.toList[i] := by
      change bs.data[i]! = _
      rw [getElem!_pos bs.data i hi, Array.getElem_toList]
    rw [ByteArray.toList.loop, if_pos h, ih, List.reverse_cons, List.append_assoc, hget,
      List.drop_eq_getElem_cons hi]
    rfl
  | case2 i r h =>
    have hi : bs.data.toList.length ≤ i := Nat.le_of_not_lt h
    rw [ByteArray.toList.loop, if_neg h, List.drop_of_length_le hi, List.append_nil]

theorem toUTF8_toList (s : String) : s.toUTF8.toList = encode s.toList := by
  have hb : s.toUTF8 = s.toList.utf8Encode := by
    rw [← String.toByteArray_ofList, String.ofList_toList]
    rfl
  rw [ByteArray.toList, toList_loop, hb, List.utf8Encode, List.toList_data_toByteArray]
  rfl

theorem encode_append {t : List Char} : encode (s ++ t) = encode s ++ encode t :=
  List.flatMap_append

theorem utf8EncodeChar_ascii (h : c.toNat ≤ 127) :
    String.utf8EncodeChar c = [UInt8.ofNat c.toNat] :=
  if_pos h

theorem toNat_ascii (h : c.toNat ≤ 127) : (UInt8.ofNat c.toNat).toNat = c.toNat := by
  rw [UInt8.toNat_ofNat']
  exact Nat.mod_eq_of_lt (by omega)

/-- The bytes of a character beyond ASCII are beyond ASCII. -/
theorem le_utf8EncodeChar (h : 127 < c.toNat) (hb : b ∈ String.utf8EncodeChar c) :
    128 ≤ b.toNat := by
  have hn : ¬ c.val.toNat ≤ 127 := Nat.not_le_of_lt h
  simp only [String.utf8EncodeChar, if_neg hn] at hb
  split at hb
  · simp only [List.mem_cons, List.not_mem_nil, or_false] at hb
    rcases hb with rfl | rfl <;> rw [UInt8.toNat_ofNat'] <;> omega
  · split at hb
    · simp only [List.mem_cons, List.not_mem_nil, or_false] at hb
      rcases hb with rfl | rfl | rfl <;> rw [UInt8.toNat_ofNat'] <;> omega
    · simp only [List.mem_cons, List.not_mem_nil, or_false] at hb
      rcases hb with rfl | rfl | rfl | rfl <;> rw [UInt8.toNat_ofNat'] <;> omega

/-- An ASCII byte stands for its character. -/
theorem mem_encode (hc : c.toNat ≤ 127) (h : UInt8.ofNat c.toNat ∈ encode s) : c ∈ s := by
  obtain ⟨d, hd, hm⟩ := List.mem_flatMap.mp h
  have hdn : d.toNat ≤ 127 := by
    apply Nat.le_of_not_lt
    intro hn
    have hle := le_utf8EncodeChar hn hm
    rw [toNat_ascii hc] at hle
    omega
  rw [utf8EncodeChar_ascii hdn, List.mem_singleton] at hm
  have heq : c.toNat = d.toNat := by rw [← toNat_ascii hc, ← toNat_ascii hdn, hm]
  rw [Char.toNat_inj.mp heq]
  exact hd

end XTunnel.Net
