import UnionScript.Text.Alphabetic
import UnionScript.Text.Numeric
/-!
# Character — the character classes a program text is read with

Words are built from Unicode classes, not from ASCII alone: `isAlphabetic` is the property `Alphabetic`, `isWordPart`
adds the three number categories and the underscore, and `isSpace` is the property `White_Space`, which a comment loses
at its end.  Numerals are ASCII only.  Each class decides ASCII directly, so that a fact about an ASCII character never
has to look into a table.
-/
namespace UnionScript
namespace Text

def inRanges (ranges : List (Nat × Nat)) (c : Char) : Bool :=
  ranges.any fun range => range.1 ≤ c.toNat && c.toNat ≤ range.2

/-- The Unicode property `Alphabetic`. -/
def isAlphabetic (c : Char) : Bool :=
  if c.toNat < 0x80 then c.isAlpha else inRanges alphabeticRanges c

/-- The Unicode categories `Nd`, `Nl` and `No`. -/
def isNumeric (c : Char) : Bool :=
  if c.toNat < 0x80 then c.isDigit else inRanges numericRanges c

/-- Inclusive ranges of the code points with the Unicode property `White_Space`. -/
def spaceRanges : List (Nat × Nat) :=
  [(0x0009, 0x000D), (0x0020, 0x0020), (0x0085, 0x0085), (0x00A0, 0x00A0), (0x1680, 0x1680), (0x2000, 0x200A),
   (0x2028, 0x2029), (0x202F, 0x202F), (0x205F, 0x205F), (0x3000, 0x3000)]

/-- The Unicode property `White_Space`. -/
def isSpace (c : Char) : Bool :=
  inRanges spaceRanges c

/-- A character a word may start with. -/
def isWordStart (c : Char) : Bool :=
  isAlphabetic c || c == '_'

/-- A character a word may go on with; a dot is not among them, because whether it belongs to the word depends on the
character behind it. -/
def isWordPart (c : Char) : Bool :=
  isAlphabetic c || isNumeric c || c == '_'

def isHexDigit (c : Char) : Bool :=
  c.isDigit || ('a' ≤ c && c ≤ 'f') || ('A' ≤ c && c ≤ 'F')

theorem isAlphabetic_of_isAlpha {c : Char} (h : c.isAlpha = true) : isAlphabetic c = true := by
  have hc : c.toNat < 0x80 := by
    delta Char.isAlpha Char.isUpper Char.isLower at h
    simp only [Bool.or_eq_true, Bool.and_eq_true, decide_eq_true_eq, ge_iff_le, UInt32.le_iff_toNat_le] at h
    have : c.toNat = c.val.toNat := rfl
    rcases h with ⟨_, h⟩ | ⟨_, h⟩ <;> simp_all <;> omega
  simp [isAlphabetic, hc, h]

def trimEnd (cs : List Char) : List Char :=
  (cs.reverse.dropWhile isSpace).reverse

end Text
end UnionScript
