/-!
# Blanks

The characters that count as blank at the end of a message: Unicode's separators of words, lines and
paragraphs, the five control characters that lay out text, and the byte order mark.
-/

namespace Strata

/-- Ranges of code points, ends included. -/
def blankRanges : List (Nat × Nat) :=
  [(0x09, 0x0d), (0x20, 0x20), (0xa0, 0xa0), (0x1680, 0x1680), (0x2000, 0x200a), (0x2028, 0x2029),
    (0x202f, 0x202f), (0x205f, 0x205f), (0x3000, 0x3000), (0xfeff, 0xfeff)]

def isBlank (c : Char) : Bool := blankRanges.any fun (low, high) => low ≤ c.toNat && c.toNat ≤ high

def trimEnd (s : String) : String := String.ofList (s.toList.reverse.dropWhile isBlank).reverse

end Strata
