/-!
# Ranges of code points

The tables of this folder list ranges of code points in ascending order, each
with both its ends.  They follow Unicode 17.
-/

namespace Unification
namespace Text

/-- The character lies in one of the ranges. -/
def inRanges (ranges : List (Nat × Nat)) (c : Char) : Bool :=
  ranges.any fun (first, last) => first ≤ c.toNat && c.toNat ≤ last

end Text
end Unification
