/-!
# Blank characters

The characters with the Unicode property `White_Space`, and a text without the ones at its two
ends. The zero-width space and the byte order mark do not have the property.
-/
namespace WalletHub.Text

/-- The code points with the property `White_Space`, in ranges. -/
def blankRanges : List (Nat × Nat) :=
  [(0x09, 0x0D), (0x20, 0x20), (0x85, 0x85), (0xA0, 0xA0), (0x1680, 0x1680), (0x2000, 0x200A),
   (0x2028, 0x2029), (0x202F, 0x202F), (0x205F, 0x205F), (0x3000, 0x3000)]

/-- Whether the character has the property `White_Space`. -/
def isBlank (c : Char) : Bool :=
  blankRanges.any fun r => decide (r.1 ≤ c.toNat) && decide (c.toNat ≤ r.2)

/-- The text without the blank characters before and after it. -/
def strip (cs : List Char) : List Char :=
  ((cs.dropWhile isBlank).reverse.dropWhile isBlank).reverse

/-- A string without the blank characters before and after it. -/
def trim (s : String) : String := String.ofList (strip s.toList)

end WalletHub.Text
