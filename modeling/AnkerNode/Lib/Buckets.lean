import Std.Data.TreeMap.Lemmas
import Mathlib.Data.Finset.Basic
import Mathlib.Data.Finset.Erase

namespace Buckets

open Std

variable {α β : Type} [Ord α]

def bucket (t : TreeMap α (Finset β)) (k : α) : Finset β := t[k]?.getD ∅

def Full (t : TreeMap α (Finset β)) : Prop := ∀ k : α, t[k]? ≠ some (∅ : Finset β)

theorem bucket_of_some {t : TreeMap α (Finset β)} {k : α} {s : Finset β} (hs : t[k]? = some s) :
    bucket t k = s := by
  simp [bucket, hs]

theorem nonempty_of_full {t : TreeMap α (Finset β)} {k : α} {s : Finset β} (h : Full t)
    (hs : t[k]? = some s) : s.Nonempty := by
  rw [Finset.nonempty_iff_ne_empty]
  rintro rfl
  exact h k hs

variable [TransOrd α] [LawfulEqOrd α] [DecidableEq α] [DecidableEq β]

def add (x : β) (t : TreeMap α (Finset β)) (k : α) : TreeMap α (Finset β) :=
  t.insert k (insert x (bucket t k))

-- A bucket that becomes empty is deleted.
def remove (x : β) (t : TreeMap α (Finset β)) (k : α) : TreeMap α (Finset β) :=
  match t[k]? with
  | none => t
  | some s => if s.erase x = ∅ then t.erase k else t.insert k (s.erase x)

variable {t : TreeMap α (Finset β)} {x y : β} {a k : α}

theorem getElem?_add : (add x t k)[a]? = if k = a then some (insert x (bucket t k)) else t[a]? := by
  simp [add, TreeMap.getElem?_insert]

theorem mem_bucket_add : y ∈ bucket (add x t k) a ↔ y ∈ bucket t a ∨ (y = x ∧ a = k) := by
  rw [bucket, getElem?_add]
  by_cases hk : k = a
  · subst hk
    simp [or_comm]
  · have hka : a ≠ k := fun h => hk h.symm
    simp [hk, hka, bucket]

theorem full_add (h : Full t) : Full (add x t k) := by
  intro a
  rw [getElem?_add]
  split
  · intro hnil
    exact Finset.insert_ne_empty x _ (Option.some.inj hnil)
  · exact h a

theorem getElem?_remove : (remove x t k)[a]? =
    if k = a then t[k]?.bind (fun s => if s.erase x = ∅ then none else some (s.erase x))
    else t[a]? := by
  rw [remove]
  by_cases hk : k = a
  · subst hk
    cases hs : t[k]? with
    | none => simp [hs]
    | some s =>
      by_cases he : s.erase x = ∅
      · simp [he]
      · simp [he]
  · cases hs : t[k]? with
    | none => simp [hk]
    | some s =>
      by_cases he : s.erase x = ∅
      · simp [he, hk, TreeMap.getElem?_erase]
      · simp [he, hk, TreeMap.getElem?_insert]

theorem mem_bucket_remove : y ∈ bucket (remove x t k) a ↔ y ∈ bucket t a ∧ ¬ (y = x ∧ a = k) := by
  rw [bucket, getElem?_remove]
  by_cases hk : k = a
  · subst hk
    rw [if_pos rfl, bucket]
    cases hs : t[k]? with
    | none => simp
    | some s =>
      rw [Option.bind_some, Option.getD_some]
      have hsplit : y ∈ (if s.erase x = ∅ then none else some (s.erase x)).getD ∅ ↔
          y ∈ s.erase x := by
        by_cases he : s.erase x = ∅
        · simp [he]
        · simp [he]
      rw [hsplit, Finset.mem_erase]
      tauto
  · have hka : a ≠ k := fun h => hk h.symm
    simp [hk, hka, bucket]

theorem full_remove (h : Full t) : Full (remove x t k) := by
  intro a
  rw [getElem?_remove]
  split
  · cases t[k]? with
    | none => simp
    | some s =>
      by_cases he : s.erase x = ∅
      · simp [he]
      · simp [he]
  · exact h a

theorem mem_bucket_foldl_add (ks : List α) :
    y ∈ bucket (ks.foldl (add x) t) a ↔ y ∈ bucket t a ∨ (y = x ∧ a ∈ ks) := by
  induction ks generalizing t with
  | nil => simp
  | cons k ks ih =>
    rw [List.foldl_cons, ih, mem_bucket_add, List.mem_cons]
    tauto

theorem full_foldl_add (ks : List α) (h : Full t) : Full (ks.foldl (add x) t) := by
  induction ks generalizing t with
  | nil => exact h
  | cons k ks ih => exact ih (full_add h)

theorem mem_bucket_foldl_remove (ks : List α) :
    y ∈ bucket (ks.foldl (remove x) t) a ↔ y ∈ bucket t a ∧ ¬ (y = x ∧ a ∈ ks) := by
  induction ks generalizing t with
  | nil => simp
  | cons k ks ih =>
    rw [List.foldl_cons, ih, mem_bucket_remove, List.mem_cons]
    tauto

theorem full_foldl_remove (ks : List α) (h : Full t) : Full (ks.foldl (remove x) t) := by
  induction ks generalizing t with
  | nil => exact h
  | cons k ks ih => exact ih (full_remove h)

end Buckets
