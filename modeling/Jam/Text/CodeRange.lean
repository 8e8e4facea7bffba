/-!
Sets of characters as lists of ranges of code points, both ends included.
-/
namespace Jam

abbrev CodeRanges := List (Nat × Nat)

namespace CodeRanges

def contains (ranges : CodeRanges) (c : Char) : Bool :=
  ranges.any fun (first, last) => first ≤ c.toNat && c.toNat ≤ last

end CodeRanges
end Jam
