/-!
# Separators

The blank characters that separate words in the scripts of the world, texts without them at their
ends, and the parts of a text between separators.
-/

namespace FlowRecovery.Text

def blankRanges : List (Nat × Nat) :=
  [(0x09, 0x0D), (0x1C, 0x20), (0x85, 0x85), (0xA0, 0xA0), (0x1680, 0x1680), (0x2000, 0x200A), (0x2028, 0x2029),
    (0x202F, 0x202F), (0x205F, 0x205F), (0x3000, 0x3000)]

def isBlank (c : Char) : Bool := blankRanges.any (fun (first, last) => first ≤ c.toNat && c.toNat ≤ last)

def trimmed (test : Char → Bool) (cs : List Char) : List Char :=
  ((cs.dropWhile test).reverse.dropWhile test).reverse

def strip (s : String) : String := String.ofList (trimmed isBlank s.toList)

def split (separator : Char) (s : String) : List String := (s.toList.splitOn separator).map String.ofList

end FlowRecovery.Text
