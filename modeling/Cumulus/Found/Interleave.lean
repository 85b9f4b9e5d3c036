import Mathlib.Data.List.Basic

/-!
# Interleavings of two lists

`Interleave xs ys zs`: `zs` merges `xs` and `ys`, keeping the order of each. A queue that routes
each arriving item either to a side store or to its main line satisfies "the arrivals are an
interleaving of what went aside and what went down the line"; the two `snoc` rules are the steps
of such a run, one item arriving at a time.
-/

namespace Cumulus.Found

variable {α : Type*}

/-- `zs` is a merge of `xs` and `ys` that keeps the order of each. -/
inductive Interleave : List α → List α → List α → Prop
  /-- Nothing merges to nothing. -/
  | nil : Interleave [] [] []
  /-- The next item of the merge comes from the left list. -/
  | left {a : α} {xs ys zs : List α} : Interleave xs ys zs → Interleave (a :: xs) ys (a :: zs)
  /-- The next item of the merge comes from the right list. -/
  | right {a : α} {xs ys zs : List α} : Interleave xs ys zs → Interleave xs (a :: ys) (a :: zs)

namespace Interleave

variable {xs ys zs : List α}

/-- An item arriving last and going to the left list. -/
theorem snoc_left (h : Interleave xs ys zs) (a : α) :
    Interleave (xs ++ [a]) ys (zs ++ [a]) := by
  induction h with
  | nil => exact .left .nil
  | left _ ih => exact .left ih
  | right _ ih => exact .right ih

/-- An item arriving last and going to the right list. -/
theorem snoc_right (h : Interleave xs ys zs) (a : α) :
    Interleave xs (ys ++ [a]) (zs ++ [a]) := by
  induction h with
  | nil => exact .right .nil
  | left _ ih => exact .left ih
  | right _ ih => exact .right ih

end Interleave

end Cumulus.Found
