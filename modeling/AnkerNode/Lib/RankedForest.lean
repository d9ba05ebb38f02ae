import Mathlib.Data.List.Basic
import Mathlib.Data.List.TakeWhile

-- A forest on the naturals, each node numbered after its parent, with the distance to the root.
structure RankedForest where
  parent : Nat → Option Nat
  height : Nat → Nat
  parent_lt : ∀ {i j : Nat}, parent i = some j → j < i
  height_parent : ∀ {i j : Nat}, parent i = some j → height i = height j + 1
  height_root : ∀ {i : Nat}, parent i = none → height i = 0

namespace RankedForest

variable (t : RankedForest)

def branchFrom : Nat → Nat → List Nat
  | 0, _ => []
  | fuel + 1, i => i :: (t.parent i).elim [] (branchFrom fuel)

def branch (i : Nat) : List Nat := t.branchFrom (i + 1) i

def ancestorAt (i h : Nat) : Option Nat := (t.branch i).find? fun a => t.height a == h

variable {t}

theorem branchFrom_eq {fuel i : Nat} (h : i < fuel) : t.branchFrom fuel i = t.branch i := by
  induction i using Nat.strong_induction_on generalizing fuel with
  | _ i ih =>
    obtain ⟨fuel, rfl⟩ : ∃ n, fuel = n + 1 := ⟨fuel - 1, by omega⟩
    simp only [branch, branchFrom]
    cases hp : t.parent i with
    | none => rfl
    | some j =>
      have hj := t.parent_lt hp
      simp only [Option.elim_some]
      rw [ih j hj (by omega), ih j hj hj]

theorem branch_of_none {i : Nat} (h : t.parent i = none) : t.branch i = [i] := by
  simp [branch, branchFrom, h]

theorem branch_of_some {i j : Nat} (h : t.parent i = some j) : t.branch i = i :: t.branch j := by
  rw [branch, branchFrom, h, Option.elim_some, branchFrom_eq (t.parent_lt h)]

theorem branch_induction {P : Nat → Prop} (root : ∀ i, t.parent i = none → P i)
    (step : ∀ i j, t.parent i = some j → P j → P i) (i : Nat) : P i := by
  induction i using Nat.strong_induction_on with
  | _ i ih =>
    cases hp : t.parent i with
    | none => exact root i hp
    | some j => exact step i j hp (ih j (t.parent_lt hp))

theorem self_mem_branch (i : Nat) : i ∈ t.branch i := by
  simp [branch, branchFrom]

theorem mem_branch_of_parent {a i j : Nat} (h : t.parent i = some j) :
    a ∈ t.branch i ↔ a = i ∨ a ∈ t.branch j := by
  rw [branch_of_some h, List.mem_cons]

theorem parent_mem_branch {i j : Nat} (h : t.parent i = some j) : j ∈ t.branch i := by
  rw [mem_branch_of_parent h]
  exact .inr (self_mem_branch j)

theorem branch_suffix {a i : Nat} (h : a ∈ t.branch i) : ∃ pre, t.branch i = pre ++ t.branch a := by
  induction i using t.branch_induction with
  | root i hp =>
    rw [branch_of_none hp, List.mem_singleton] at h
    exact ⟨[], by rw [h]; rfl⟩
  | step i j hp ih =>
    rcases (mem_branch_of_parent hp).mp h with rfl | h
    · exact ⟨[], rfl⟩
    · obtain ⟨pre, hpre⟩ := ih h
      exact ⟨i :: pre, by rw [branch_of_some hp, hpre]; rfl⟩

theorem mem_branch_trans {a b c : Nat} (hab : a ∈ t.branch b) (hbc : b ∈ t.branch c) :
    a ∈ t.branch c := by
  obtain ⟨pre, hpre⟩ := branch_suffix hbc
  rw [hpre]
  exact List.mem_append_right pre hab

theorem le_of_mem_branch {a i : Nat} (h : a ∈ t.branch i) : a ≤ i := by
  induction i using t.branch_induction with
  | root i hp =>
    rw [branch_of_none hp, List.mem_singleton] at h
    omega
  | step i j hp ih =>
    rcases (mem_branch_of_parent hp).mp h with rfl | h
    · exact Nat.le_refl _
    · have hle := ih h
      have hlt := t.parent_lt hp
      omega

theorem height_le_of_mem_branch {a i : Nat} (h : a ∈ t.branch i) : t.height a ≤ t.height i := by
  induction i using t.branch_induction with
  | root i hp =>
    rw [branch_of_none hp, List.mem_singleton] at h
    rw [h]
  | step i j hp ih =>
    rcases (mem_branch_of_parent hp).mp h with rfl | h
    · exact Nat.le_refl _
    · have hle := ih h
      have hh := t.height_parent hp
      omega

theorem eq_of_height_eq {a i : Nat} (h : a ∈ t.branch i) (hh : t.height a = t.height i) :
    a = i := by
  cases hp : t.parent i with
  | none =>
    rw [branch_of_none hp, List.mem_singleton] at h
    exact h
  | some j =>
    rcases (mem_branch_of_parent hp).mp h with rfl | h
    · rfl
    · have hle := height_le_of_mem_branch h
      have hs := t.height_parent hp
      omega

theorem branch_total {a b i : Nat} (ha : a ∈ t.branch i) (hb : b ∈ t.branch i) :
    a ∈ t.branch b ∨ b ∈ t.branch a := by
  induction i using t.branch_induction with
  | root i hp =>
    rw [branch_of_none hp, List.mem_singleton] at ha hb
    rw [ha, hb]
    exact .inl (self_mem_branch i)
  | step i j hp ih =>
    rcases (mem_branch_of_parent hp).mp ha with rfl | ha'
    · exact .inr hb
    · rcases (mem_branch_of_parent hp).mp hb with rfl | hb'
      · exact .inl ha
      · exact ih ha' hb'

theorem eq_of_mem_branch {a b i : Nat} (ha : a ∈ t.branch i) (hb : b ∈ t.branch i)
    (hh : t.height a = t.height b) : a = b := by
  rcases branch_total ha hb with h | h
  · exact eq_of_height_eq h hh
  · exact (eq_of_height_eq h hh.symm).symm

theorem exists_ancestor {i h : Nat} (hle : h ≤ t.height i) :
    ∃ a ∈ t.branch i, t.height a = h := by
  induction i using t.branch_induction with
  | root i hp => exact ⟨i, self_mem_branch i, by have := t.height_root hp; omega⟩
  | step i j hp ih =>
    by_cases hi : h = t.height i
    · exact ⟨i, self_mem_branch i, hi.symm⟩
    · have hs := t.height_parent hp
      obtain ⟨a, ha, hah⟩ := ih (by omega)
      exact ⟨a, (mem_branch_of_parent hp).mpr (.inr ha), hah⟩

theorem ancestorAt_eq_some {i h a : Nat} :
    t.ancestorAt i h = some a ↔ a ∈ t.branch i ∧ t.height a = h := by
  constructor
  · intro hf
    refine ⟨List.mem_of_find?_eq_some hf, ?_⟩
    have := List.find?_some hf
    simpa using this
  · rintro ⟨ha, hh⟩
    cases hf : t.ancestorAt i h with
    | none =>
      have hne := List.find?_eq_none.mp hf a ha
      simp [hh] at hne
    | some b =>
      have hb := List.mem_of_find?_eq_some hf
      have hbh := List.find?_some hf
      simp only [beq_iff_eq] at hbh
      rw [eq_of_mem_branch hb ha (hbh.trans hh.symm)]

theorem ancestorAt_of_mem {i k h : Nat} (hk : k ∈ t.branch i) (hh : h ≤ t.height k) :
    t.ancestorAt i h = t.ancestorAt k h := by
  obtain ⟨a, ha, hah⟩ := exists_ancestor hh
  rw [ancestorAt_eq_some.mpr ⟨ha, hah⟩, ancestorAt_eq_some.mpr ⟨mem_branch_trans ha hk, hah⟩]

-- A node is on the branch of `i` exactly when it is the ancestor at its own height.
theorem mem_branch_iff_ancestorAt {i a : Nat} :
    a ∈ t.branch i ↔ t.ancestorAt i (t.height a) = some a := by
  rw [ancestorAt_eq_some]
  simp

theorem length_branch (i : Nat) : (t.branch i).length = t.height i + 1 := by
  induction i using t.branch_induction with
  | root i hp => rw [branch_of_none hp, t.height_root hp]; rfl
  | step i j hp ih => rw [branch_of_some hp, List.length_cons, ih, t.height_parent hp]

-- Read from the root, a branch lists its members by height.
theorem getElem?_reverse_branch (i h : Nat) : (t.branch i).reverse[h]? = t.ancestorAt i h := by
  induction i using t.branch_induction with
  | root i hp =>
    have h0 := t.height_root hp
    cases h with
    | zero => simp [ancestorAt, branch_of_none hp, h0]
    | succ h => simp [ancestorAt, branch_of_none hp, h0]
  | step i j hp ih =>
    have hh := t.height_parent hp
    rw [branch_of_some hp, List.reverse_cons]
    rcases Nat.lt_trichotomy h (t.height i) with hlt | rfl | hgt
    · rw [List.getElem?_append_left (by rw [List.length_reverse, length_branch]; omega), ih]
      exact (ancestorAt_of_mem (parent_mem_branch hp) (by omega)).symm
    · rw [List.getElem?_append_right (by rw [List.length_reverse, length_branch]; omega),
        ancestorAt_eq_some.mpr ⟨self_mem_branch i, rfl⟩, List.length_reverse, length_branch, hh]
      simp
    · rw [List.getElem?_eq_none (by
        rw [List.length_append, List.length_reverse, length_branch, List.length_singleton]; omega)]
      cases ha : t.ancestorAt i h with
      | none => rfl
      | some a =>
        obtain ⟨hmem, hah⟩ := ancestorAt_eq_some.mp ha
        have hle := height_le_of_mem_branch hmem
        omega

theorem branch_congr {t' : RankedForest} {i : Nat}
    (h : ∀ k ≤ i, t'.parent k = t.parent k) : t'.branch i = t.branch i := by
  induction i using t.branch_induction with
  | root i hp => rw [branch_of_none hp, branch_of_none ((h i (Nat.le_refl i)).trans hp)]
  | step i j hp ih =>
    have hlt := t.parent_lt hp
    rw [branch_of_some hp, branch_of_some ((h i (Nat.le_refl i)).trans hp),
      ih fun k hk => h k (by omega)]

theorem branch_antisymm {a b : Nat} (hab : a ∈ t.branch b) (hba : b ∈ t.branch a) : a = b :=
  eq_of_height_eq hab
    (Nat.le_antisymm (height_le_of_mem_branch hab) (height_le_of_mem_branch hba))

-- Between a member of a branch and its end lie descendants of that member.
theorem mem_branch_of_mem_takeWhile {a k i : Nat} (ha : a ∈ t.branch i)
    (hk : k ∈ (t.branch i).takeWhile fun b => b != a) : a ∈ t.branch k := by
  induction i using t.branch_induction with
  | root i hp =>
    rw [branch_of_none hp] at ha hk
    have hki := List.mem_singleton.mp ((List.takeWhile_prefix _).subset hk)
    rw [List.mem_singleton.mp ha, hki]
    exact self_mem_branch i
  | step i j hp ih =>
    by_cases hia : i = a
    · subst hia
      simp [branch_of_some hp] at hk
    · have haj : a ∈ t.branch j := by
        rcases (mem_branch_of_parent hp).mp ha with rfl | haj
        · exact absurd rfl hia
        · exact haj
      rw [branch_of_some hp, List.takeWhile_cons_of_pos (by simpa using hia)] at hk
      rcases List.mem_cons.mp hk with rfl | hk
      · exact ha
      · exact ih haj hk

theorem mem_takeWhile_of_closed {p : Nat → Bool}
    (hclosed : ∀ a b, a ∈ t.branch b → p b = true → p a = true) {a i : Nat} (ha : a ∈ t.branch i)
    (hpa : p a = false) : a ∈ (t.branch i).takeWhile fun b => !p b := by
  have hpos : ∀ b, a ∈ t.branch b → p b = false := by
    intro b hb
    cases hpb : p b with
    | false => rfl
    | true =>
      rw [hclosed a b hb hpb] at hpa
      simp at hpa
  induction i using t.branch_induction with
  | root i hp =>
    rw [branch_of_none hp] at ha ⊢
    rw [List.mem_singleton.mp ha] at hpa ⊢
    simp [hpa]
  | step i j hp ih =>
    rw [branch_of_some hp, List.takeWhile_cons_of_pos (by simpa using hpos i ha)]
    rcases (mem_branch_of_parent hp).mp ha with rfl | haj
    · simp
    · exact List.mem_cons_of_mem i (ih haj)

theorem mem_branch_of_find? {p : Nat → Bool} {a f i : Nat} (hf : (t.branch i).find? p = some f)
    (ha : a ∈ t.branch i) (hpa : p a = true) : a ∈ t.branch f := by
  induction i using t.branch_induction with
  | root i hp =>
    rw [branch_of_none hp] at ha hf
    have hfi := List.mem_singleton.mp (List.mem_of_find?_eq_some hf)
    rw [List.mem_singleton.mp ha, hfi]
    exact self_mem_branch i
  | step i j hp ih =>
    rw [branch_of_some hp] at hf
    cases hpi : p i with
    | true =>
      rw [List.find?_cons_of_pos hpi] at hf
      rw [← Option.some.inj hf]
      exact ha
    | false =>
      rw [List.find?_cons_of_neg (by simp [hpi])] at hf
      rcases (mem_branch_of_parent hp).mp ha with rfl | haj
      · rw [hpi] at hpa
        simp at hpa
      · exact ih hf haj

-- a walk from child to child that starts above `b` and ends at `a`
def Climbs (t : RankedForest) : Nat → List Nat → Nat → Prop
  | b, [], a => b = a
  | b, i :: is, a => t.parent i = some b ∧ Climbs t i is a

theorem Climbs.snoc {is : List Nat} {b i a : Nat} (h : t.Climbs b is i) (hp : t.parent a = some i) :
    t.Climbs b (is ++ [a]) a := by
  induction is generalizing b with
  | nil =>
    have hb : b = i := h
    exact ⟨hb ▸ hp, rfl⟩
  | cons k is ih => exact ⟨h.1, ih h.2⟩

theorem climbs_takeWhile {a i : Nat} (ha : a ∈ t.branch i) :
    t.Climbs a ((t.branch i).takeWhile fun b => b != a).reverse i := by
  induction i using t.branch_induction with
  | root i hp =>
    rw [branch_of_none hp, List.mem_singleton] at ha
    subst ha
    simp [branch_of_none hp, Climbs]
  | step i j hp ih =>
    by_cases hia : i = a
    · subst hia
      simp [branch_of_some hp, Climbs]
    · have haj : a ∈ t.branch j := by
        rcases (mem_branch_of_parent hp).mp ha with rfl | haj
        · exact absurd rfl hia
        · exact haj
      rw [branch_of_some hp, List.takeWhile_cons_of_pos (by simpa using hia), List.reverse_cons]
      exact (ih haj).snoc hp

theorem takeWhile_height {a i : Nat} (ha : a ∈ t.branch i) :
    ((t.branch i).takeWhile fun b => t.height b + 1 != t.height a + 1) =
      (t.branch i).takeWhile fun b => b != a := by
  induction i using t.branch_induction with
  | root i hp =>
    rw [branch_of_none hp, List.mem_singleton] at ha
    subst ha
    simp [branch_of_none hp]
  | step i j hp ih =>
    by_cases hia : i = a
    · subst hia
      simp [branch_of_some hp]
    · have haj : a ∈ t.branch j := by
        rcases (mem_branch_of_parent hp).mp ha with rfl | haj
        · exact absurd rfl hia
        · exact haj
      have hle := height_le_of_mem_branch haj
      have hh := t.height_parent hp
      have hne : t.height i ≠ t.height a := by omega
      rw [branch_of_some hp, List.takeWhile_cons_of_pos (by simpa using hne),
        List.takeWhile_cons_of_pos (by simpa using hia), ih haj]

end RankedForest
