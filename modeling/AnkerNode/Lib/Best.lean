import Mathlib.Data.List.Basic
import Mathlib.Algebra.Order.Ring.Int

namespace Best

variable {α : Type}

def better (worse : α → α → Bool) (acc : Option α) (x : α) : Option α :=
  match acc with
  | none => some x
  | some b => if worse b x then some x else some b

-- the last element of a set ordered by `worse`
def best (worse : α → α → Bool) (xs : List α) : Option α := xs.foldl (better worse) none

variable {worse : α → α → Bool}

theorem foldl_better_spec (htrans : ∀ a b c, worse a b = false → worse b c = false → worse a c = false)
    (hasymm : ∀ a b, worse a b = true → worse b a = false)
    (hirr : ∀ a, worse a a = false) (b : α) (xs : List α) :
    ∃ m, xs.foldl (better worse) (some b) = some m ∧ (m = b ∨ m ∈ xs) ∧ worse m b = false ∧
      ∀ x ∈ xs, worse m x = false := by
  induction xs generalizing b with
  | nil => exact ⟨b, rfl, .inl rfl, hirr b, by simp⟩
  | cons x xs ih =>
    rw [List.foldl_cons]
    cases hw : worse b x with
    | true =>
      obtain ⟨m, hm, hmem, hmx, hall⟩ := ih x
      refine ⟨m, by simp only [better, hw, if_true]; exact hm, ?_, ?_, ?_⟩
      · rcases hmem with rfl | hmem
        · exact .inr (by simp)
        · exact .inr (by simp [hmem])
      · exact htrans m x b hmx (hasymm b x hw)
      · simp only [List.forall_mem_cons]
        exact ⟨hmx, hall⟩
    | false =>
      obtain ⟨m, hm, hmem, hmb, hall⟩ := ih b
      refine ⟨m, by simp only [better, hw]; exact hm, ?_, hmb, ?_⟩
      · rcases hmem with rfl | hmem
        · exact .inl rfl
        · exact .inr (by simp [hmem])
      · simp only [List.forall_mem_cons]
        exact ⟨htrans m b x hmb hw, hall⟩

theorem best_eq_some (htrans : ∀ a b c, worse a b = false → worse b c = false → worse a c = false)
    (hasymm : ∀ a b, worse a b = true → worse b a = false) (hirr : ∀ a, worse a a = false)
    {xs : List α} {m : α} (h : best worse xs = some m) : m ∈ xs ∧ ∀ x ∈ xs, worse m x = false := by
  cases xs with
  | nil => simp [best] at h
  | cons x xs =>
    obtain ⟨m', hm', hmem, hmx, hall⟩ := foldl_better_spec htrans hasymm hirr x xs
    have heq : m' = m := by
      have hbest : best worse (x :: xs) = some m' := hm'
      rw [hbest] at h
      exact Option.some.inj h
    subst heq
    refine ⟨?_, ?_⟩
    · rcases hmem with rfl | hmem
      · simp
      · simp [hmem]
    · simp only [List.forall_mem_cons]
      exact ⟨hmx, hall⟩

section Highest

variable (score : α → Int)

def climb (best : Option α × Int) (x : α) : Option α × Int :=
  if best.2 < score x then (some x, score x) else best

-- the first element with the highest score, and its score, when one is above the floor
def highest (floor : Int) (xs : List α) : Option α × Int := xs.foldl (climb score) (none, floor)

inductive Highest (best : Option α × Int) (xs : List α) : Option α × Int → Prop where
  | none (h : ∀ x ∈ xs, score x ≤ best.2) : Highest best xs best
  | found (before : List α) (m : α) (after : List α) (heq : xs = before ++ m :: after)
      (hfloor : best.2 < score m) (hbefore : ∀ x ∈ before, score x < score m)
      (hafter : ∀ x ∈ after, score x ≤ score m) : Highest best xs (some m, score m)

theorem foldl_climb (best : Option α × Int) (xs : List α) :
    Highest score best xs (xs.foldl (climb score) best) := by
  induction xs generalizing best with
  | nil => exact .none (by simp)
  | cons x xs ih =>
    rw [List.foldl_cons, climb]
    by_cases hx : best.2 < score x
    · rw [if_pos hx]
      generalize hr : xs.foldl (climb score) (some x, score x) = r
      cases hr ▸ ih (some x, score x) with
      | none h => exact .found [] x xs rfl hx (by simp) h
      | found before m after heq hfloor hbefore hafter =>
        subst heq
        refine .found (x :: before) m after rfl (hx.trans hfloor) ?_ hafter
        exact List.forall_mem_cons.mpr ⟨hfloor, hbefore⟩
    · rw [if_neg hx]
      generalize hr : xs.foldl (climb score) best = r
      cases hr ▸ ih best with
      | none h => exact .none (List.forall_mem_cons.mpr ⟨by omega, h⟩)
      | found before m after heq hfloor hbefore hafter =>
        subst heq
        refine .found (x :: before) m after rfl hfloor ?_ hafter
        exact List.forall_mem_cons.mpr ⟨by omega, hbefore⟩

theorem highest_spec (floor : Int) (xs : List α) :
    Highest score (none, floor) xs (highest score floor xs) :=
  foldl_climb score (none, floor) xs

variable {score}

theorem exists_highest {floor : Int} {xs : List α} {x : α} (hx : x ∈ xs) (hfloor : floor < score x) :
    ∃ m ∈ xs, highest score floor xs = (some m, score m) ∧ score x ≤ score m := by
  generalize hr : highest score floor xs = r
  cases hr ▸ highest_spec score floor xs with
  | none h =>
    have hle : score x ≤ floor := h x hx
    omega
  | found before m after heq _ hbefore hafter =>
    subst heq
    refine ⟨m, by simp, rfl, ?_⟩
    rcases List.mem_append.mp hx with hx | hx
    · exact (hbefore x hx).le
    · rcases List.mem_cons.mp hx with rfl | hx
      · exact le_rfl
      · exact hafter x hx

theorem highest_some {floor : Int} {xs : List α} {m : α}
    (h : (highest score floor xs).1 = some m) : m ∈ xs ∧ ∀ x ∈ xs, score x ≤ score m := by
  generalize hr : highest score floor xs = r at h
  cases hr ▸ highest_spec score floor xs with
  | none => cases h
  | found before m' after heq _ hbefore hafter =>
    obtain rfl := Option.some.inj h
    subst heq
    refine ⟨by simp, List.forall_mem_append.mpr ⟨fun x hx => (hbefore x hx).le, ?_⟩⟩
    exact List.forall_mem_cons.mpr ⟨le_rfl, hafter⟩

theorem highest_none {floor : Int} {xs : List α} (h : (highest score floor xs).1 = none) :
    ∀ x ∈ xs, score x ≤ floor := by
  generalize hr : highest score floor xs = r at h
  cases hr ▸ highest_spec score floor xs with
  | none hle => exact hle
  | found => cases h

end Highest

section Newest

variable (time : α → Int) (gap : Int)

-- What is kept gives way only to what is later by at least the gap.
def renew (kept : Option α) (x : α) : Option α :=
  match kept with
  | none => some x
  | some a => if time a + gap ≤ time x then some x else some a

def Spaced (xs : List α) : Prop :=
  ∀ a ∈ xs, ∀ b ∈ xs, a = b ∨ time a + gap ≤ time b ∨ time b + gap ≤ time a

variable {time gap}

theorem Spaced.sublist {xs ys : List α} (h : Spaced time gap ys) (hsub : ∀ x ∈ xs, x ∈ ys) :
    Spaced time gap xs :=
  fun a ha b hb => h a (hsub a ha) b (hsub b hb)

theorem foldl_renew_some {xs : List α} {a m : α} (hgap : 0 < gap) (h : Spaced time gap (a :: xs))
    (hm : m ∈ a :: xs) (hmax : ∀ x ∈ a :: xs, time x ≤ time m) :
    xs.foldl (renew time gap) (some a) = some m := by
  induction xs generalizing a with
  | nil => rw [List.mem_singleton.mp hm, List.foldl_nil]
  | cons x xs ih =>
    rw [List.forall_mem_cons, List.forall_mem_cons] at hmax
    rw [List.foldl_cons, renew]
    by_cases hlater : time a + gap ≤ time x
    · rw [if_pos hlater]
      apply ih (h.sublist fun y hy => List.mem_cons_of_mem a hy)
      · rcases List.mem_cons.mp hm with rfl | hm
        · omega
        · exact hm
      · exact List.forall_mem_cons.mpr hmax.2
    · rw [if_neg hlater]
      apply ih
      · apply h.sublist
        intro y hy
        rcases List.mem_cons.mp hy with rfl | hy
        · exact List.mem_cons_self
        · exact List.mem_cons_of_mem a (List.mem_cons_of_mem x hy)
      · rcases List.mem_cons.mp hm with rfl | hm
        · exact List.mem_cons_self
        · rcases List.mem_cons.mp hm with rfl | hm
          · rcases h a (by simp) m (by simp) with rfl | hbefore | hafter
            · exact List.mem_cons_self
            · exact absurd hbefore hlater
            · omega
          · exact List.mem_cons_of_mem a hm
      · exact List.forall_mem_cons.mpr ⟨hmax.1, hmax.2.2⟩

-- In whatever order and however often they come, the latest one stays.
theorem foldl_renew_newest {xs : List α} {m : α} (hgap : 0 < gap) (h : Spaced time gap xs)
    (hm : m ∈ xs) (hmax : ∀ x ∈ xs, time x ≤ time m) :
    xs.foldl (renew time gap) none = some m := by
  cases xs with
  | nil => simp at hm
  | cons a xs => exact foldl_renew_some hgap h hm hmax

end Newest

end Best
