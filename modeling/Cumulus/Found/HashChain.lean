import Mathlib.Logic.Function.Basic

/-!
# Hash chains

A hash chain folds a step `f : H → α → H` over a list from a start `z`, each step hashing the
previous head with the next element. When the step is injective in both arguments and never
yields the start, the head binds the whole list: nothing can be dropped, repeated, reordered or
changed without changing the head (`HashChain.eq_of_foldl_eq`).
-/

namespace Cumulus.Found

namespace HashChain

variable {H α : Type*} {f : H → α → H} {z : H}

/-- The binding property on the reversed lists, where the last step comes first. -/
theorem eq_of_foldr_eq (hf : ∀ a x b y, f a x = f b y → a = b ∧ x = y)
    (hz : ∀ a x, f a x ≠ z) :
    ∀ {l l' : List α}, l.foldr (fun x a => f a x) z = l'.foldr (fun x a => f a x) z → l = l'
  | [], [], _ => rfl
  | [], y :: _, h => absurd h.symm (hz _ y)
  | x :: _, [], h => absurd h (hz _ x)
  | x :: _, y :: _, h => by
    obtain ⟨hrest, rfl⟩ := hf _ x _ y h
    rw [eq_of_foldr_eq hf hz hrest]

/-- **A head binds its chain.** Two lists that reach the same head from the start are equal. -/
theorem eq_of_foldl_eq (hf : ∀ a x b y, f a x = f b y → a = b ∧ x = y)
    (hz : ∀ a x, f a x ≠ z) {l l' : List α} (h : l.foldl f z = l'.foldl f z) : l = l' := by
  rw [List.foldl_eq_foldr_reverse, List.foldl_eq_foldr_reverse] at h
  exact List.reverse_inj.mp (eq_of_foldr_eq hf hz h)

end HashChain

end Cumulus.Found
