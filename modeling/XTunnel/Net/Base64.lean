import XTunnel.Net.Text

/-! The standard base64 encoding, with padding. -/
namespace XTunnel.Net.Base64

/-- The character of a value below 64. -/
def encodeChar (n : Nat) : UInt8 :=
  if n < 26 then UInt8.ofNat (65 + n)
  else if n < 52 then UInt8.ofNat (71 + n)
  else if n < 62 then UInt8.ofNat (n - 4)
  else if n = 62 then 43
  else 47

/-- The padding character. -/
def padding : UInt8 := 61

/-- `base64.StdEncoding.EncodeToString`: three bytes make four characters. -/
def encodeToString : Text → Text
  | [] => []
  | [a] => [encodeChar (a.toNat / 4), encodeChar (a.toNat % 4 * 16), padding, padding]
  | [a, b] => [encodeChar (a.toNat / 4), encodeChar (a.toNat % 4 * 16 + b.toNat / 16),
      encodeChar (b.toNat % 16 * 4), padding]
  | a :: b :: c :: s =>
    encodeChar (a.toNat / 4) :: encodeChar (a.toNat % 4 * 16 + b.toNat / 16) ::
      encodeChar (b.toNat % 16 * 4 + c.toNat / 64) :: encodeChar (c.toNat % 64) :: encodeToString s

theorem encodeToString_eq_nil {s : Text} : encodeToString s = [] ↔ s = [] := by
  constructor
  · intro h
    match s with
    | [] => rfl
    | [_] | [_, _] | _ :: _ :: _ :: _ => cases h
  · rintro rfl
    rfl

-- "foobar", and its first four bytes
example : encodeToString [0x66, 0x6f, 0x6f, 0x62, 0x61, 0x72] =
    [0x5a, 0x6d, 0x39, 0x76, 0x59, 0x6d, 0x46, 0x79] := by decide
example : encodeToString [0x66, 0x6f, 0x6f, 0x62] =
    [0x5a, 0x6d, 0x39, 0x76, 0x59, 0x67, 0x3d, 0x3d] := by decide

end XTunnel.Net.Base64
