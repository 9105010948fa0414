import WalletHub.Text.Numeral

/-!
# Bytes of a text

The UTF-8 octets of a string, the string some octets encode, and the way a message shows one
octet: as the character of that number between apostrophes, escaped where it has no glyph.
-/
namespace WalletHub.Text

/-- The UTF-8 octets of a string. -/
def utf8 (s : String) : List UInt8 := s.toUTF8.data.toList

/-- The string whose UTF-8 octets these are. -/
def ofUtf8? (bytes : List UInt8) : Option String := String.fromUTF8? ⟨bytes.toArray⟩

/-- The octets of a text are those of its characters. -/
theorem utf8_ofList (cs : List Char) :
    utf8 (String.ofList cs) = cs.flatMap String.utf8EncodeChar := by
  simp [utf8, String.toUTF8, List.utf8Encode]

theorem ofUtf8?_utf8 (s : String) : ofUtf8? (utf8 s) = some s := by
  have h : (⟨(utf8 s).toArray⟩ : ByteArray) = s.toUTF8 := by simp [utf8]
  have hv : s.toUTF8.IsValidUTF8 := s.isValidUTF8
  rw [ofUtf8?, h, String.fromUTF8?, dif_pos hv]
  rfl

/-- Whether the character with this number has a glyph of its own. -/
def hasGlyph (b : UInt8) : Bool :=
  (decide (0x20 ≤ b) && decide (b ≤ 0x7E)) || (decide (0xA1 ≤ b) && b != 0xAD)

/-- What stands between the apostrophes for the character with this number. -/
def glyph (b : UInt8) : String :=
  if b = 0 then "\\0"
  else if b = 9 then "\\t"
  else if b = 10 then "\\n"
  else if b = 13 then "\\r"
  else if b = 39 then "\\'"
  else if b = 92 then "\\\\"
  else if hasGlyph b then String.singleton (Char.ofUInt8 b)
  else "\\u\x7b" ++ String.ofList (hexadecimal b.toNat) ++ "\x7d"

/-- The character with this number between apostrophes. -/
def quoteByte (b : UInt8) : String := "'" ++ glyph b ++ "'"

end WalletHub.Text
