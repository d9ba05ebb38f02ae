import Mathlib.Data.List.Sort

-- A set kept as the list of its elements in increasing order.
namespace OrderedSet

variable {α : Type} [LE α] [LT α] [DecidableLT α]

def insert (a : α) : List α → List α
  | [] => [a]
  | b :: bs => if a < b then a :: b :: bs else if b < a then b :: insert a bs else b :: bs

variable [Std.IsLinearOrder α] [Std.LawfulOrderLT α] {a b x : α} {as bs : List α}

omit [DecidableLT α] in
theorem eq_of_not_lt (hab : ¬a < b) (hba : ¬b < a) : a = b :=
  Std.le_antisymm (Std.not_lt.mp hba) (Std.not_lt.mp hab)

theorem mem_insert : x ∈ insert a bs ↔ x = a ∨ x ∈ bs := by
  induction bs with
  | nil => simp [insert]
  | cons b bs ih =>
    rw [insert]
    by_cases hab : a < b
    · rw [if_pos hab, List.mem_cons]
    by_cases hba : b < a
    · rw [if_neg hab, if_pos hba, List.mem_cons, List.mem_cons, ih]
      exact or_left_comm
    · rw [if_neg hab, if_neg hba, eq_of_not_lt hab hba]
      simp

theorem pairwise_insert (h : bs.Pairwise (· < ·)) : (insert a bs).Pairwise (· < ·) := by
  induction bs with
  | nil => exact List.pairwise_singleton _ a
  | cons b bs ih =>
    obtain ⟨hhead, htail⟩ := List.pairwise_cons.mp h
    rw [insert]
    by_cases hab : a < b
    · rw [if_pos hab]
      refine List.pairwise_cons.mpr ⟨fun x hx => ?_, h⟩
      rcases List.mem_cons.mp hx with rfl | hx
      · exact hab
      · exact Std.lt_trans hab (hhead x hx)
    by_cases hba : b < a
    · rw [if_neg hab, if_pos hba]
      refine List.pairwise_cons.mpr ⟨fun x hx => ?_, ih htail⟩
      rcases mem_insert.mp hx with rfl | hx
      · exact hba
      · exact hhead x hx
    · rw [if_neg hab, if_neg hba]
      exact h

omit [DecidableLT α] in
-- The list is determined by the elements of the set.
theorem eq_of_mem_iff (has : as.Pairwise (· < ·)) (hbs : bs.Pairwise (· < ·))
    (h : ∀ x, x ∈ as ↔ x ∈ bs) : as = bs := by
  have hirrefl : Std.Irrefl (fun a b : α => a < b) := ⟨fun _ => Std.lt_irrefl⟩
  have hantisymm : Std.Antisymm (fun a b : α => a < b) :=
    ⟨fun _ _ hab hba => absurd (Std.lt_trans hab hba) Std.lt_irrefl⟩
  exact has.eq_of_mem_iff hbs h

end OrderedSet
