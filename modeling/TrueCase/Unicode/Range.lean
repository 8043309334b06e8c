/-!
# Ranges of code points

A Unicode property is given by the ranges of the code points that have it.

## Main definitions

* `Range` is a closed interval of code points.
* `Range.Table.has` says whether a character lies in one of the ranges of a table.
-/

namespace TrueCase.Unicode

/-- The code points from `first` to `last`, both included. -/
structure Range where
  first : Nat
  last : Nat
  deriving DecidableEq, Repr

/-- Whether the character lies in the range. -/
def Range.covers (r : Range) (c : Char) : Bool :=
  r.first ≤ c.toNat && c.toNat ≤ r.last

/-- A property of characters as a list of ranges. -/
abbrev Range.Table := List Range

/-- Whether the character has the property. -/
def Range.Table.has (t : Range.Table) (c : Char) : Bool :=
  t.any (·.covers c)

theorem Range.Table.has_eq_true_iff {t : Range.Table} {c : Char} :
    t.has c = true ↔ ∃ r ∈ t, r.first ≤ c.toNat ∧ c.toNat ≤ r.last := by
  simp [Range.Table.has, Range.covers]

end TrueCase.Unicode
