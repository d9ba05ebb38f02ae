import Mathlib.Algebra.BigOperators.Group.List.Basic
import Mathlib.Algebra.Ring.Int.Defs
import Mathlib.Data.List.Basic
import Mathlib.Data.List.Forall2
import Mathlib.Data.List.NodupEquivFin

namespace FirstFit

variable {α : Type} {w : α → Int} {r : Int} {xs ys : List α}

-- `Fills w r xs ys`: whoever takes each of `xs` whose weight still fits in `r` ends with `ys`.
inductive Fills (w : α → Int) : Int → List α → List α → Prop where
  | nil (r : Int) : Fills w r [] []
  | take {r : Int} {x : α} {xs ys : List α} (hfits : w x ≤ r) (hrest : Fills w (r - w x) xs ys) :
      Fills w r (x :: xs) (x :: ys)
  | skip {r : Int} {x : α} {xs ys : List α} (hfull : r < w x) (hrest : Fills w r xs ys) :
      Fills w r (x :: xs) ys

theorem Fills.sublist (h : Fills w r xs ys) : ys.Sublist xs := by
  induction h with
  | nil => exact List.Sublist.refl []
  | take _ _ ih => exact ih.cons_cons _
  | skip _ _ ih => exact ih.cons _

theorem Fills.sum_le (h : Fills w r xs ys) (hr : 0 ≤ r) : (ys.map w).sum ≤ r := by
  induction h with
  | nil => simpa using hr
  | take hfits _ ih =>
    have hrest := ih (by omega)
    rw [List.map_cons, List.sum_cons]
    omega
  | skip _ _ ih => exact ih hr

theorem Fills.unique {zs : List α} (h : Fills w r xs ys) (h' : Fills w r xs zs) : ys = zs := by
  induction h generalizing zs with
  | nil =>
    cases h'
    rfl
  | take hfits _ ih =>
    cases h' with
    | take _ hrest => rw [ih hrest]
    | skip hfull _ => omega
  | skip hfull _ ih =>
    cases h' with
    | take hfits _ => omega
    | skip _ hrest => exact ih hrest

end FirstFit

-- Matching the entries of one list with entries of another, in order and from the front.
namespace GreedyMatch

open List

variable {α β : Type} {R : α → β → Prop} {a : α} {b : β} {as : List α} {bs : List β}

theorem length_le (h : SublistForall₂ R as bs) : as.length ≤ bs.length := by
  obtain ⟨l, hl, hsub⟩ := sublistForall₂_iff.mp h
  rw [hl.length_eq]
  exact hsub.length_le

theorem not_sublistForall₂_of_lt (h : bs.length < as.length) : ¬SublistForall₂ R as bs :=
  fun hmatch => absurd (length_le hmatch) (Nat.not_le.mpr h)

theorem tail (h : SublistForall₂ R (a :: as) bs) : SublistForall₂ R as bs := by
  induction bs with
  | nil => cases h
  | cons b bs ih =>
    cases h with
    | cons _ h => exact .cons_right h
    | cons_right h => exact .cons_right (ih h)

-- The first entry that fits is as good as any later one.
theorem sublistForall₂_cons_iff (h : R a b) :
    SublistForall₂ R (a :: as) (b :: bs) ↔ SublistForall₂ R as bs := by
  constructor
  · intro hmatch
    cases hmatch with
    | cons _ hrest => exact hrest
    | cons_right hrest => exact tail hrest
  · exact .cons h

theorem sublistForall₂_skip_iff (h : ¬R a b) :
    SublistForall₂ R (a :: as) (b :: bs) ↔ SublistForall₂ R (a :: as) bs := by
  constructor
  · intro hmatch
    cases hmatch with
    | cons hab _ => exact absurd hab h
    | cons_right hrest => exact hrest
  · exact .cons_right

def greedy (ok : α → β → Bool) : List α → List β → Bool
  | [], _ => true
  | _ :: _, [] => false
  | a :: as, b :: bs =>
    let left := if ok a b then as else a :: as
    if bs.length < left.length then false else greedy ok left bs

-- Giving up once too few entries are left loses no match.
theorem greedy_iff {ok : α → β → Bool} :
    greedy ok as bs = true ↔ SublistForall₂ (fun a b => ok a b = true) as bs := by
  induction bs generalizing as with
  | nil =>
    cases as with
    | nil => exact ⟨fun _ => .nil, fun _ => rfl⟩
    | cons a as =>
      refine iff_of_false Bool.false_ne_true fun h => ?_
      cases h
  | cons b bs ih =>
    cases as with
    | nil => exact ⟨fun _ => .nil, fun _ => rfl⟩
    | cons a as =>
      have hleft : SublistForall₂ (fun a b => ok a b = true) (a :: as) (b :: bs) ↔
          SublistForall₂ (fun a b => ok a b = true) (if ok a b then as else a :: as) bs := by
        by_cases hab : ok a b = true
        · rw [if_pos hab]
          exact sublistForall₂_cons_iff hab
        · rw [if_neg hab]
          exact sublistForall₂_skip_iff hab
      rw [hleft, greedy]
      by_cases hlt : bs.length < (if ok a b then as else a :: as).length
      · rw [if_pos hlt]
        exact iff_of_false Bool.false_ne_true (not_sublistForall₂_of_lt hlt)
      · rw [if_neg hlt]
        exact ih

theorem reverse (h : SublistForall₂ R as bs) : SublistForall₂ R as.reverse bs.reverse := by
  obtain ⟨l, hl, hsub⟩ := sublistForall₂_iff.mp h
  exact sublistForall₂_iff.mpr ⟨l.reverse, forall₂_reverse_iff.mpr hl, hsub.reverse⟩

theorem sublistForall₂_iff_exists_strictMono : SublistForall₂ R as bs ↔
    ∃ f : Fin as.length → Fin bs.length, StrictMono f ∧ ∀ i, R (as.get i) (bs.get (f i)) := by
  rw [sublistForall₂_iff]
  constructor
  · rintro ⟨l, hl, hsub⟩
    obtain ⟨f, hf⟩ := sublist_iff_exists_fin_orderEmbedding_get_eq.mp hsub
    refine ⟨fun i => f (i.cast hl.length_eq), fun i j hij => f.strictMono hij, fun i => ?_⟩
    rw [← hf]
    exact hl.get i.isLt (hl.length_eq ▸ i.isLt)
  · rintro ⟨f, hmono, hf⟩
    refine ⟨List.ofFn fun i => bs.get (f i), ?_, ?_⟩
    · rw [forall₂_iff_get]
      refine ⟨by rw [length_ofFn], fun i hi hi' => ?_⟩
      rw [get_ofFn]
      exact hf ⟨i, hi⟩
    · rw [sublist_iff_exists_fin_orderEmbedding_get_eq]
      have hlen : (List.ofFn fun i => bs.get (f i)).length = as.length := length_ofFn
      refine ⟨OrderEmbedding.ofStrictMono (fun i => f (i.cast hlen)) fun i j hij => hmono hij,
        fun i => ?_⟩
      rw [get_ofFn]
      rfl

end GreedyMatch
