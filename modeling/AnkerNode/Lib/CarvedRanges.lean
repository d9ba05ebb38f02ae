import Mathlib.Data.List.Basic
import Mathlib.Logic.Function.Basic

-- Ranges cut off the end of areas that only grow.
namespace CarvedRanges

structure Range (K : Type) where
  area : K
  start : Nat
  size : Nat
deriving DecidableEq, Repr

variable {K : Type}

namespace Range

def stop (r : Range K) : Nat := r.start + r.size

def Apart (r r' : Range K) : Prop := r.area = r'.area → r.stop ≤ r'.start ∨ r'.stop ≤ r.start

instance [DecidableEq K] (r r' : Range K) : Decidable (r.Apart r') :=
  inferInstanceAs (Decidable (r.area = r'.area → r.stop ≤ r'.start ∨ r'.stop ≤ r.start))

end Range

-- `mark` is how far each area has been handed out.
structure Carved (mark : K → Nat) (ranges : List (Range K)) : Prop where
  below : ∀ r ∈ ranges, r.stop ≤ mark r.area
  apart : ranges.Pairwise Range.Apart

variable {mark : K → Nat} {ranges : List (Range K)}

theorem carved_nil : Carved mark [] := ⟨fun _ h => absurd h List.not_mem_nil, .nil⟩

theorem Carved.cut [DecidableEq K] (h : Carved mark ranges) (k : K) (n : Nat) :
    Carved (Function.update mark k (mark k + n)) (⟨k, mark k, n⟩ :: ranges) := by
  refine ⟨fun r hr => ?_, List.pairwise_cons.mpr ⟨fun r hr heq => ?_, h.apart⟩⟩
  · rcases List.mem_cons.mp hr with rfl | hr
    · dsimp only
      rw [Function.update_self]
      exact Nat.le_refl _
    · have hbelow := h.below r hr
      by_cases hk : r.area = k
      · rw [hk, Function.update_self]
        rw [hk] at hbelow
        exact Nat.le_add_right_of_le hbelow
      · rw [Function.update_of_ne hk]
        exact hbelow
  · have hbelow := h.below r hr
    rw [← heq] at hbelow
    exact .inr hbelow

end CarvedRanges
