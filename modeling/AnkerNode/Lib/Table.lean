import Mathlib.Data.List.Basic
import Mathlib.Data.List.Induction
import Mathlib.Logic.Function.Basic

namespace Table

variable {α K V : Type} [DecidableEq K]

def writeAll (key : α → K) (val : α → V) (t : K → V) (xs : List α) : K → V :=
  xs.foldl (fun t x => Function.update t (key x) (val x)) t

variable {key : α → K} {val : α → V} {t : K → V} {xs : List α} {k : K}

theorem writeAll_cons (x : α) :
    writeAll key val t (x :: xs) = writeAll key val (Function.update t (key x) (val x)) xs := rfl

theorem writeAll_of_not_mem (h : k ∉ xs.map key) : writeAll key val t xs k = t k := by
  induction xs generalizing t with
  | nil => rfl
  | cons x xs ih =>
    simp only [List.map_cons, List.mem_cons, not_or] at h
    rw [writeAll_cons, ih h.2, Function.update_of_ne h.1]

theorem writeAll_of_mem (val : α → V) (t : K → V) (h : k ∈ xs.map key) :
    ∃ x ∈ xs, key x = k ∧ writeAll key val t xs k = val x := by
  induction xs generalizing t with
  | nil => simp at h
  | cons x xs ih =>
    rw [writeAll_cons]
    by_cases hk : k ∈ xs.map key
    · obtain ⟨y, hy, hkey, hval⟩ := ih (Function.update t (key x) (val x)) hk
      exact ⟨y, by simp [hy], hkey, hval⟩
    · have hx : key x = k := by
        rcases List.mem_cons.mp h with h | h
        · exact h.symm
        · exact absurd h hk
      refine ⟨x, by simp, hx, ?_⟩
      rw [writeAll_of_not_mem hk, ← hx, Function.update_self]

theorem writeAll_const (v : V) :
    writeAll key (fun _ => v) t xs k = if k ∈ xs.map key then v else t k := by
  split
  · rename_i h
    obtain ⟨_, -, -, hval⟩ := writeAll_of_mem (fun _ => v) t h
    exact hval
  · rename_i h
    exact writeAll_of_not_mem h

theorem writeAll_map {β : Type} (f : β → α) (xs : List β) :
    writeAll key val t (xs.map f) = writeAll (fun x => key (f x)) (fun x => val (f x)) t xs := by
  simp [writeAll, List.foldl_map]

theorem writeAll_append (xs ys : List α) :
    writeAll key val t (xs ++ ys) = writeAll key val (writeAll key val t xs) ys := by
  simp [writeAll]

def lastWrite (key : α → K) (xs : List α) (k : K) : Option α :=
  xs.reverse.find? fun x => decide (key x = k)

theorem writeAll_eq_lastWrite :
    writeAll key val t xs k = ((lastWrite key xs k).map val).getD (t k) := by
  induction xs using List.reverseRecOn with
  | nil => rfl
  | append_singleton xs x ih =>
    rw [writeAll_append, writeAll_cons, lastWrite, List.reverse_append]
    by_cases hx : key x = k
    · subst hx
      simp [writeAll]
    · rw [lastWrite] at ih
      simpa [writeAll, hx, Function.update_of_ne (Ne.symm hx)] using ih

theorem lastWrite_isSome (h : k ∈ xs.map key) : ∃ x, lastWrite key xs k = some x := by
  obtain ⟨x, hx, rfl⟩ := List.mem_map.mp h
  refine Option.isSome_iff_exists.mp (List.find?_isSome.mpr ⟨x, List.mem_reverse.mpr hx, ?_⟩)
  simp

theorem forget_eq_iff {keys : List K} {t : K → Option V} :
    (fun k => if k ∈ keys then none else t k) = t ↔ ∀ k ∈ keys, t k = none := by
  rw [funext_iff]
  refine forall_congr' (fun k => ?_)
  by_cases hk : k ∈ keys <;> simp [hk, eq_comm]

theorem rewrite_eq_iff {v : α → V} {t : K → Option V} :
    writeAll key (fun x => some (v x)) (fun k => if k ∈ xs.map key then none else t k) xs = t ↔
      ∀ k ∈ xs.map key, t k = (lastWrite key xs k).map v := by
  rw [funext_iff]
  refine forall_congr' (fun k => ?_)
  by_cases hk : k ∈ xs.map key
  · obtain ⟨x, hx⟩ := lastWrite_isSome hk
    rw [writeAll_eq_lastWrite, hx]
    simp only [Option.map_some, Option.getD_some, hk, forall_const]
    exact eq_comm
  · rw [writeAll_of_not_mem hk, if_neg hk]
    simp [hk]

theorem forget_forget {p q : Prop} [Decidable p] [Decidable q] [Decidable (p ∨ q)] (v : Option V) :
    (if q then none else if p then none else v) = if p ∨ q then none else v := by
  by_cases hp : p <;> by_cases hq : q <;> simp [hp, hq]

end Table

namespace LayeredValue

variable {α : Type} [DecidableEq α]

section Definitions

variable (unset base : α)

-- What the topmost layer stands for: its own value, or that of the layers below it.
def topValue : List α → α
  | [] => base
  | a :: below => if a = unset then topValue below else a

-- A read from the top: every layer that it passes keeps what it found.
def fetch : List α → List α
  | [] => []
  | a :: below => if a = unset then topValue unset base below :: fetch below else a :: below

-- Copying the topmost layer over the next one hides no value.
def Covered : List α → Prop
  | top :: next :: below => top ≠ unset ∨ next = unset ∨ next = topValue unset base below
  | _ => True

instance (layers : List α) : Decidable (Covered unset base layers) := by
  unfold Covered
  split <;> infer_instance

end Definitions

variable {unset base a top next : α} {below layers : List α}

@[simp] theorem topValue_nil : topValue unset base [] = base := rfl

theorem topValue_cons_unset : topValue unset base (unset :: below) = topValue unset base below := by
  rw [topValue, if_pos rfl]

theorem topValue_cons_of_ne (h : a ≠ unset) : topValue unset base (a :: below) = a := by
  rw [topValue, if_neg h]

theorem fetch_cons_unset :
    fetch unset base (unset :: below) = topValue unset base below :: fetch unset base below := by
  rw [fetch, if_pos rfl]

theorem fetch_cons_of_ne (h : a ≠ unset) : fetch unset base (a :: below) = a :: below := by
  rw [fetch, if_neg h]

theorem topValue_fetch (layers : List α) :
    topValue unset base (fetch unset base layers) = topValue unset base layers := by
  induction layers with
  | nil => rfl
  | cons a below ih =>
    by_cases ha : a = unset
    · subst ha
      rw [fetch_cons_unset, topValue_cons_unset, topValue]
      split
      · exact ih
      · rfl
    · rw [fetch_cons_of_ne ha]

theorem head_fetch (layers : List α) :
    (fetch unset base layers).head? = layers.head?.map fun _ => topValue unset base layers := by
  cases layers with
  | nil => rfl
  | cons a below =>
    by_cases ha : a = unset
    · subst ha
      rw [fetch_cons_unset, topValue_cons_unset]
      rfl
    · rw [fetch_cons_of_ne ha, topValue_cons_of_ne ha]
      rfl

theorem topValue_copy_iff :
    topValue unset base (top :: below) = topValue unset base (top :: next :: below) ↔
      Covered unset base (top :: next :: below) := by
  by_cases htop : top = unset
  · subst htop
    rw [topValue_cons_unset, topValue_cons_unset, topValue, Covered]
    constructor
    · intro h
      split at h
      · exact .inr (.inl ‹_›)
      · exact .inr (.inr h.symm)
    · rintro (h | h | h)
      · exact absurd rfl h
      · rw [if_pos h]
      · split
        · rfl
        · exact h.symm
  · rw [topValue_cons_of_ne htop, topValue_cons_of_ne htop]
    exact ⟨fun _ => .inl htop, fun _ => rfl⟩

theorem covered_of_ne (h : a ≠ unset) : Covered unset base (a :: below) := by
  cases below with
  | nil => trivial
  | cons next below => exact .inl h

theorem covered_copied : Covered unset base (top :: top :: below) := by
  by_cases h : top = unset
  · exact .inr (.inl h)
  · exact .inl h

theorem covered_fetch (h : Covered unset base layers) :
    Covered unset base (fetch unset base layers) := by
  cases layers with
  | nil => trivial
  | cons a below =>
    by_cases ha : a = unset
    · subst ha
      rw [fetch_cons_unset]
      have hhead := @head_fetch α _ a base below
      cases hfetch : fetch a base below with
      | nil => trivial
      | cons next rest =>
        cases below with
        | nil => cases hfetch
        | cons b below =>
          rw [hfetch, List.head?_cons, List.head?_cons, Option.map_some, Option.some.injEq] at hhead
          rw [← hhead]
          exact covered_copied
    · rw [fetch_cons_of_ne ha]
      exact h

end LayeredValue
