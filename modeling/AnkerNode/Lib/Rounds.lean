import Mathlib.Data.List.Basic
import Mathlib.Data.List.Find
import Mathlib.Data.List.Nodup
import Mathlib.Data.List.Perm.Subperm

namespace Rounds

-- The item of the round: the least score up to the stop, or else the first item there is.
structure Picked {α σ : Type} [LE σ] (time : α → Int) (score : α → σ) (taken : α → Bool)
    (stop : Int) (as : List α) (a : α) : Prop where
  mem : a ∈ as
  fresh : taken a = false
  least : ∀ b ∈ as, taken b = false → time b ≤ stop → time a ≤ stop ∧ score a ≤ score b
  first : (∀ b ∈ as, taken b = false → stop < time b) → as.find? (fun b => !taken b) = some a

-- one item a round, each different from the ones before
structure Chosen {α σ : Type} [LE σ] [DecidableEq α] (time : α → Int) (score : α → σ)
    (stopAt : Nat → Int) (as chosen : List α) : Prop where
  nodup : chosen.Nodup
  picked : ∀ r a, chosen[r]? = some a →
    Picked time score (fun b => decide (b ∈ chosen.take r)) (stopAt r) as a

section Scan

variable {α σ : Type} [LE σ] [LT σ] [DecidableLT σ] [Std.IsLinearOrder σ] [Std.LawfulOrderLT σ]
  {time : α → Int} {score : α → σ} {taken : α → Bool}
  {stop : Int} {as : List α}

-- The scan of one round, over items in the order of their times: what is not taken yet competes by
-- its score, until an item lies behind the stop and there is something to take.
def pick (time : α → Int) (score : α → σ) (taken : α → Bool) (stop : Int) :
    Option (σ × α) → List α → Option (σ × α)
  | best, [] => best
  | best, a :: as =>
    if best.isSome && decide (stop < time a) then best
    else if taken a then pick time score taken stop best as
    else
      match best with
      | none => pick time score taken stop (some (score a, a)) as
      | some (s, b) =>
        if score a < s then pick time score taken stop (some (score a, a)) as
        else pick time score taken stop (some (s, b)) as

omit [LE σ] [Std.IsLinearOrder σ] [Std.LawfulOrderLT σ] in
theorem pick_cons (time : α → Int) (score : α → σ) (taken : α → Bool) (stop : Int)
    (best : Option (σ × α)) (a : α) (as : List α) :
    pick time score taken stop best (a :: as) =
      if best.isSome && decide (stop < time a) then best
      else if taken a then pick time score taken stop best as
      else
        match best with
        | none => pick time score taken stop (some (score a, a)) as
        | some (s, b) =>
          if score a < s then pick time score taken stop (some (score a, a)) as
          else pick time score taken stop (some (s, b)) as := by
  rw [pick.eq_def]

-- a scan that already has `b`
theorem pick_some (score : α → σ) (taken : α → Bool) (stop : Int)
    (hsorted : as.Pairwise fun a b => time a ≤ time b) (b : α) :
    ∃ a, pick time score taken stop (some (score b, b)) as = some (score a, a) ∧
      (a = b ∨ a ∈ as ∧ taken a = false ∧ time a ≤ stop) ∧ score a ≤ score b ∧
      ∀ c ∈ as, taken c = false → time c ≤ stop → score a ≤ score c := by
  induction as generalizing b with
  | nil => exact ⟨b, rfl, Or.inl rfl, Std.le_refl _, by simp⟩
  | cons a as ih =>
    rw [List.pairwise_cons] at hsorted
    rw [pick_cons, Option.isSome_some, Bool.true_and]
    by_cases hstop : stop < time a
    · refine ⟨b, if_pos (decide_eq_true hstop), Or.inl rfl, Std.le_refl _, ?_⟩
      intro c hc _ hle
      rcases List.mem_cons.mp hc with rfl | hc
      · omega
      · have hac := hsorted.1 c hc
        omega
    rw [if_neg (by simpa using hstop)]
    cases htaken : taken a with
    | true =>
      obtain ⟨x, hx, hmem, hle, hall⟩ := ih hsorted.2 b
      refine ⟨x, hx, ?_, hle, ?_⟩
      · exact hmem.imp id fun h => ⟨List.mem_cons_of_mem a h.1, h.2⟩
      · intro c hc hfresh
        rcases List.mem_cons.mp hc with rfl | hc
        · rw [htaken] at hfresh
          cases hfresh
        · exact hall c hc hfresh
    | false =>
      by_cases hless : score a < score b
      · obtain ⟨x, hx, hmem, hle, hall⟩ := ih hsorted.2 a
        refine ⟨x, by simpa [hless] using hx, Or.inr ?_, Std.le_trans hle (Std.le_of_lt hless), ?_⟩
        · rcases hmem with rfl | h
          · exact ⟨List.mem_cons_self, htaken, by omega⟩
          · exact ⟨List.mem_cons_of_mem a h.1, h.2⟩
        · intro c hc hfresh
          rcases List.mem_cons.mp hc with rfl | hc
          · exact fun _ => hle
          · exact hall c hc hfresh
      · obtain ⟨x, hx, hmem, hle, hall⟩ := ih hsorted.2 b
        refine ⟨x, by simpa [hless] using hx, ?_, hle, ?_⟩
        · exact hmem.imp id fun h => ⟨List.mem_cons_of_mem a h.1, h.2⟩
        · intro c hc hfresh
          rcases List.mem_cons.mp hc with rfl | hc
          · exact fun _ => Std.le_trans hle (Std.not_lt.mp hless)
          · exact hall c hc hfresh

theorem pick_none (score : α → σ) (taken : α → Bool) (stop : Int)
    (hsorted : as.Pairwise fun a b => time a ≤ time b)
    (hfresh : ∃ a ∈ as, taken a = false) :
    ∃ a, pick time score taken stop none as = some (score a, a) ∧
      Picked time score taken stop as a := by
  induction as with
  | nil => simp at hfresh
  | cons a as ih =>
    rw [List.pairwise_cons] at hsorted
    rw [pick_cons]
    cases htaken : taken a with
    | true =>
      have hrest : ∃ b ∈ as, taken b = false := by
        obtain ⟨b, hb, hbt⟩ := hfresh
        rcases List.mem_cons.mp hb with rfl | hb
        · rw [htaken] at hbt
          cases hbt
        · exact ⟨b, hb, hbt⟩
      obtain ⟨x, hx, hpicked⟩ := ih hsorted.2 hrest
      refine ⟨x, by simpa using hx, List.mem_cons_of_mem a hpicked.mem, hpicked.fresh, ?_, ?_⟩
      · intro b hb hbt
        rcases List.mem_cons.mp hb with rfl | hb
        · rw [htaken] at hbt
          cases hbt
        · exact hpicked.least b hb hbt
      · intro hlate
        rw [List.find?_cons_of_neg (by simp [htaken])]
        exact hpicked.first fun b hb => hlate b (List.mem_cons_of_mem a hb)
    | false =>
      obtain ⟨x, hx, hmem, hle, hall⟩ := pick_some score taken stop hsorted.2 a
      refine ⟨x, by simpa using hx, ?_, ?_, ?_, ?_⟩
      · rcases hmem with rfl | h
        · exact List.mem_cons_self
        · exact List.mem_cons_of_mem a h.1
      · rcases hmem with rfl | h
        · exact htaken
        · exact h.2.1
      · intro b hb hbt hbs
        refine ⟨?_, ?_⟩
        · rcases hmem with rfl | h
          · rcases List.mem_cons.mp hb with rfl | hb
            · exact hbs
            · exact Int.le_trans (hsorted.1 b hb) hbs
          · exact h.2.2
        · rcases List.mem_cons.mp hb with rfl | hb
          · exact hle
          · exact hall b hb hbt hbs
      · intro hlate
        rw [List.find?_cons_of_pos (by simp [htaken])]
        rcases hmem with rfl | h
        · rfl
        · have hx := hlate x (List.mem_cons_of_mem a h.1) h.2.1
          omega

end Scan

section Choice

variable {α σ : Type} [LE σ] [DecidableEq α] {time : α → Int} {score : α → σ} {stopAt : Nat → Int}
  {as chosen : List α}

omit [DecidableEq α] in
theorem Picked.congr {taken taken' : α → Bool} {stop : Int} {a : α}
    (h : Picked time score taken stop as a) (htaken : ∀ b ∈ as, taken b = taken' b) :
    Picked time score taken' stop as a := by
  have hfind : as.find? (fun b => !taken' b) = as.find? (fun b => !taken b) :=
    List.find?_congr fun b hb => by rw [htaken b hb]
  refine ⟨h.mem, (htaken a h.mem) ▸ h.fresh, ?_, ?_⟩
  · intro b hb hbt
    exact h.least b hb ((htaken b hb).trans hbt)
  · intro hlate
    rw [hfind]
    exact h.first fun b hb hbt => hlate b hb ((htaken b hb).symm.trans hbt)

theorem chosen_nil : Chosen time score stopAt as [] :=
  ⟨List.nodup_nil, by simp⟩

theorem Chosen.concat (h : Chosen time score stopAt as chosen) {a : α}
    (ha : Picked time score (fun b => decide (b ∈ chosen)) (stopAt chosen.length) as a) :
    Chosen time score stopAt as (chosen ++ [a]) := by
  have hfresh : a ∉ chosen := by simpa using ha.fresh
  refine ⟨?_, ?_⟩
  · rw [List.nodup_append]
    refine ⟨h.nodup, List.nodup_singleton a, ?_⟩
    intro b hb c hc heq
    rw [List.mem_singleton.mp hc] at heq
    exact hfresh (heq ▸ hb)
  · intro r b hr
    rcases Nat.lt_trichotomy r chosen.length with hlt | rfl | hgt
    · rw [List.getElem?_append_left hlt] at hr
      rw [List.take_append_of_le_length (Nat.le_of_lt hlt)]
      exact h.picked r b hr
    · rw [List.getElem?_append_right (Nat.le_refl _), Nat.sub_self, List.getElem?_cons_zero,
        Option.some.injEq] at hr
      rw [List.take_left' rfl, ← hr]
      exact ha
    · rw [List.getElem?_eq_none (by simp; omega)] at hr
      cases hr

-- As long as fewer items are chosen than there are, one is left.
theorem exists_fresh (hnodup : as.Nodup) (hlt : chosen.length < as.length) :
    ∃ a ∈ as, decide (a ∈ chosen) = false := by
  by_contra hnone
  have hsub : as ⊆ chosen := by
    intro a ha
    by_contra hout
    exact hnone ⟨a, ha, decide_eq_false hout⟩
  have hle := (hnodup.subperm hsub).length_le
  omega

end Choice

end Rounds
