import LexicalScope.Scope.Region

/-!
# The regions in which things were met

For each statement and expression of a tree the region that was open when it was reached.
-/

namespace LexicalScope

/-- Regions by index; an entry that was not made is none. -/
abbrev RegionRecord := Array RegionRef

namespace RegionRecord

/-- The record of `size` things of which none was met. -/
def blank (size : Nat) : RegionRecord := Array.replicate size none

/-- The region recorded under an index. -/
def lookup (record : RegionRecord) (index : Nat) : RegionRef := (record[index]?).getD none

/-- Records a region under an index, in place of any earlier one. -/
def put (record : RegionRecord) (index : Nat) (region : RegionRef) : RegionRecord :=
  record.setIfInBounds index region

/-- Records a region under an index that has none yet. -/
def putFirst (record : RegionRecord) (index : Nat) (region : RegionRef) : RegionRecord :=
  if (record.lookup index).isSome then record else record.put index region

end RegionRecord

end LexicalScope
