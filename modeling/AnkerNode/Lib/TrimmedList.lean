import Mathlib.Data.List.DropRight
import Mathlib.Data.List.GetD

namespace TrimmedList

variable {α : Type*} {p : α → Bool} {d : α} {l a b : List α}

def Trimmed (p : α → Bool) (l : List α) : Prop := l.rdropWhile p = l

def Canonical (p : α → Bool) (d : α) (l : List α) : Prop := ∀ x ∈ l, p x = true → x = d

theorem trimmed_rdropWhile : Trimmed p (l.rdropWhile p) := List.rdropWhile_idempotent p l

theorem trimmed_drop (h : Trimmed p l) (n : Nat) : Trimmed p (l.drop n) := by
  rw [Trimmed, List.rdropWhile_eq_self_iff] at h ⊢
  intro hne
  rw [List.getLast_drop]
  exact h _

theorem canonical_rdropWhile (h : Canonical p d l) : Canonical p d (l.rdropWhile p) :=
  fun x hx => h x ((List.rdropWhile_prefix p l).subset hx)

theorem canonical_set {n : Nat} {x : α} (h : Canonical p d l) (hx : p x = true → x = d) :
    Canonical p d (l.set n x) := by
  intro y hy hpy
  rcases List.mem_or_eq_of_mem_set hy with hy | rfl
  · exact h y hy hpy
  · exact hx hpy

theorem getD_rdropWhile (h : Canonical p d l) (n : Nat) :
    (l.rdropWhile p).getD n d = l.getD n d := by
  induction l using List.reverseRecOn with
  | nil => simp
  | append_singleton l x ih =>
    rw [List.rdropWhile_concat]
    split
    · rename_i hx
      have hxd : x = d := h x (by simp) hx
      rw [ih (fun y hy => h y (by simp [hy]))]
      subst hxd
      rcases Nat.lt_trichotomy n l.length with hn | rfl | hn
      · rw [List.getD_append _ _ _ _ hn]
      · simp
      · rw [List.getD_eq_default _ _ (by omega), List.getD_eq_default _ _ (by simp; omega)]
    · rfl

theorem apply_getD_rdropWhile (hd : p d = true) (l : List α) (n : Nat) :
    p ((l.rdropWhile p).getD n d) = p (l.getD n d) := by
  induction l using List.reverseRecOn with
  | nil => simp
  | append_singleton l x ih =>
    rw [List.rdropWhile_concat]
    split
    · rename_i hx
      rw [ih]
      rcases Nat.lt_trichotomy n l.length with hn | rfl | hn
      · rw [List.getD_append _ _ _ _ hn]
      · simp [hd, hx]
      · rw [List.getD_eq_default _ _ (by omega), List.getD_eq_default _ _ (by simp; omega)]
    · rfl

theorem getD_rdropWhile_of_not (hd : p d = true) {n : Nat}
    (h : p ((l.rdropWhile p).getD n d) = false) : (l.rdropWhile p).getD n d = l.getD n d := by
  have hn : n < (l.rdropWhile p).length := by
    by_contra hle
    rw [List.getD_eq_default _ _ (by omega), hd] at h
    simp at h
  have hpre := List.rdropWhile_prefix p l
  rw [List.getD_eq_getElem _ _ hn, List.getD_eq_getElem _ _ (lt_of_lt_of_le hn hpre.length_le)]
  exact hpre.getElem hn

theorem length_le_of_getD (hd : p d = true) (ha : Trimmed p a)
    (h : ∀ n, a.getD n d = b.getD n d) : a.length ≤ b.length := by
  by_contra hlt
  have hne : a ≠ [] := by
    rintro rfl
    simp at hlt
  have hlast := List.rdropWhile_eq_self_iff.mp ha hne
  have hget := h (a.length - 1)
  rw [List.getD_eq_default b d (by omega), List.getD_eq_getElem a d (by omega)] at hget
  rw [List.getLast_eq_getElem, hget] at hlast
  exact hlast hd

theorem eq_of_getD (hd : p d = true) (ha : Trimmed p a) (hb : Trimmed p b)
    (h : ∀ n, a.getD n d = b.getD n d) : a = b := by
  have hlen : a.length = b.length :=
    Nat.le_antisymm (length_le_of_getD hd ha h) (length_le_of_getD hd hb (fun n => (h n).symm))
  refine List.ext_getElem hlen ?_
  intro n hna hnb
  rw [← List.getD_eq_getElem a d hna, ← List.getD_eq_getElem b d hnb]
  exact h n

theorem eq_nil_of_all (ha : Trimmed p a) (h : a.all p = true) : a = [] := by
  rw [← ha]
  exact List.rdropWhile_eq_nil_iff.mpr (by simpa using h)

end TrimmedList
