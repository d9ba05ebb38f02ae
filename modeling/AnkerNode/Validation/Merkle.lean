import AnkerNode.Lib.HashLevels
import Mathlib.Data.Nat.Bitwise
import Mathlib.Logic.Function.Basic
import Mathlib.Data.List.Basic

namespace AnkerNode

namespace Merkle

section Algorithm

variable {α : Type} (hash : α → α → α)

-- the loops over `level` look for the lowest bit of `count` that is set, from a level on
def lowestLevel (count : Nat) : Nat → Nat → Nat
  | 0, level => level
  | fuel + 1, level => if count.testBit level then level else lowestLevel count fuel (level + 1)

-- the same loop, with `h` combined into each inner value it passes
def combineUp (inner : Nat → α) (count : Nat) : Nat → Nat → α → Nat × α
  | 0, level, h => (level, h)
  | fuel + 1, level, h =>
    if count.testBit level then (level, h)
    else combineUp inner count fuel (level + 1) (hash (inner level) h)

def processLeaves : Nat → (Nat → α) → List α → Nat → α
  | _, inner, [] => inner
  | count, inner, h :: leaves =>
    let top := combineUp hash inner (count + 1) (count + 1) 0 h
    processLeaves (count + 1) (Function.update inner top.1 top.2) leaves

-- the final sweep over the rightmost branch: a value that is not the top is combined with itself
def sweep (inner : Nat → α) : Nat → Nat → Nat → α → α
  | 0, _, _, h => h
  | fuel + 1, count, level, h =>
    if count = 2 ^ level then h
    else
      let count := count + 2 ^ level
      let top := combineUp hash inner count count (level + 1) (hash h h)
      sweep inner fuel count top.1 top.2

-- `zero` is uint256(), which the entries of `inner` hold before they are written as well.
def merkleComputation (zero : α) (leaves : List α) : α :=
  if leaves.isEmpty then zero
  else
    let count := leaves.length
    let inner := processLeaves hash 0 (fun _ => zero) leaves
    let level := lowestLevel count count 0
    sweep hash inner (count + 1) count level (inner level)

end Algorithm

section Levels

variable {α : Type} {hash : α → α → α} {inner : Nat → α} {count level fuel : Nat}

theorem combineUp_fst (h : α) :
    (combineUp hash inner count fuel level h).1 = lowestLevel count fuel level := by
  induction fuel generalizing level h with
  | zero => rfl
  | succ fuel ih =>
    rw [combineUp, lowestLevel]
    split
    · rfl
    · exact ih _

-- A set bit within the fuel stops the search at a set bit, the ones before it being clear.
theorem lowestLevel_spec (fuel : Nat) {m : Nat} (hm : count.testBit m = true) (hlevel : level ≤ m)
    (hfuel : m < level + fuel) :
    count.testBit (lowestLevel count fuel level) = true ∧
      level ≤ lowestLevel count fuel level ∧ lowestLevel count fuel level ≤ m ∧
      ∀ k, level ≤ k → k < lowestLevel count fuel level → count.testBit k = false := by
  induction fuel generalizing level with
  | zero => omega
  | succ fuel ih =>
    rw [lowestLevel]
    split
    · rename_i hbit
      exact ⟨hbit, Nat.le_refl _, hlevel, fun k hk hlt => by omega⟩
    · rename_i hbit
      have hne : level ≠ m := by
        rintro rfl
        exact hbit hm
      obtain ⟨hset, hge, hle, hclear⟩ := ih (show level + 1 ≤ m by omega) (by omega)
      refine ⟨hset, by omega, hle, fun k hk hlt => ?_⟩
      rcases Nat.eq_or_lt_of_le hk with rfl | hgt
      · simpa using hbit
      · exact hclear k hgt hlt

theorem exists_testBit (hcount : 0 < count) : ∃ m, count.testBit m = true ∧ m < count := by
  obtain ⟨m, hm, -⟩ := Nat.exists_most_significant_bit (Nat.pos_iff_ne_zero.mp hcount)
  exact ⟨m, hm, Nat.lt_of_lt_of_le Nat.lt_two_pow_self (Nat.ge_two_pow_of_testBit hm)⟩

theorem dvd_of_clear (h : ∀ k < level, count.testBit k = false) : 2 ^ level ∣ count := by
  rw [Nat.dvd_iff_mod_eq_zero]
  refine Nat.eq_of_testBit_eq fun k => ?_
  rw [Nat.testBit_mod_two_pow, Nat.zero_testBit]
  by_cases hk : k < level
  · rw [h k hk, Bool.and_false]
  · rw [decide_eq_false hk, Bool.false_and]

theorem testBit_eq_false_of_dvd {m : Nat} (h : 2 ^ level ∣ count) (hm : m < level) :
    count.testBit m = false := by
  obtain ⟨q, rfl⟩ := h
  rw [Nat.testBit_two_pow_mul, decide_eq_false (Nat.not_le.mpr hm), Bool.false_and]

-- What is added below the lowest set bit of a sum leaves the bits above it as they were.
theorem testBit_of_carry {d p : Nat} (hd : 0 < d) (hle : d ≤ 2 ^ p) (hdvd : 2 ^ p ∣ count + d)
    (hbit : (count + d).testBit p = true) :
    count.testBit p = false ∧ ∀ m, p < m → count.testBit m = (count + d).testBit m := by
  obtain ⟨q, hq⟩ := hdvd
  have hodd : q.testBit 0 = true := by
    rw [hq, Nat.testBit_two_pow_mul, Nat.sub_self] at hbit
    simpa using hbit
  rw [Nat.testBit_zero, decide_eq_true_eq] at hodd
  have hsum : count = 2 ^ p * (q - 1) + (2 ^ p - d) := by
    obtain ⟨r, rfl⟩ : ∃ r, q = r + 1 := ⟨q - 1, by omega⟩
    rw [Nat.mul_add, Nat.mul_one] at hq
    rw [Nat.add_sub_cancel]
    omega
  have hshift : ∀ j, count.testBit (p + j) = (q - 1).testBit j := by
    intro j
    rw [hsum, Nat.testBit_two_pow_mul_add _ (by omega), if_neg (by omega), Nat.add_sub_cancel_left]
  refine ⟨?_, fun m hm => ?_⟩
  · have h0 := hshift 0
    rw [Nat.add_zero, Nat.testBit_zero] at h0
    rw [h0, decide_eq_false_iff_not]
    omega
  · obtain ⟨j, rfl⟩ : ∃ j, m = p + (j + 1) := ⟨m - p - 1, by omega⟩
    rw [hshift, hq, Nat.testBit_two_pow_mul, decide_eq_true (by omega), Bool.true_and,
      Nat.add_sub_cancel_left, Nat.testBit_succ, Nat.testBit_succ]
    congr 1
    omega

-- The search from a level that divides the count ends at its lowest set bit.
theorem lowestLevel_of_dvd (hpos : 0 < count) (hdvd : 2 ^ level ∣ count) :
    count.testBit (lowestLevel count count level) = true ∧
      level ≤ lowestLevel count count level ∧ 2 ^ lowestLevel count count level ∣ count := by
  obtain ⟨m, hm, hlt⟩ := exists_testBit hpos
  have hlevel : level ≤ m := by
    by_contra hnot
    rw [testBit_eq_false_of_dvd hdvd (by omega)] at hm
    exact Bool.false_ne_true hm
  obtain ⟨hset, hge, -, hclear⟩ := lowestLevel_spec count hm hlevel (by omega)
  refine ⟨hset, hge, dvd_of_clear fun k hk => ?_⟩
  rcases Nat.lt_or_ge k level with hlow | hhigh
  · exact testBit_eq_false_of_dvd hdvd hlow
  · exact hclear k hhigh hk

theorem lowestLevel_zero (hpos : 0 < count) :
    count.testBit (lowestLevel count count 0) = true ∧ 2 ^ lowestLevel count count 0 ∣ count := by
  have hone : 2 ^ 0 ∣ count := Nat.one_dvd count
  obtain ⟨hset, -, hdvd⟩ := lowestLevel_of_dvd hpos hone
  exact ⟨hset, hdvd⟩

-- Doubling the lowest set bit keeps below a power of two that bounds the count.
theorem sweep_step {L : Nat} (hset : count.testBit level = true) (hdvd : 2 ^ level ∣ count)
    (hcount : count ≤ 2 ^ L) (hpow : count ≠ 2 ^ level) :
    level < L ∧ count + 2 ^ level ≤ 2 ^ L ∧ 2 ^ (level + 1) ∣ count + 2 ^ level := by
  have hge := Nat.ge_two_pow_of_testBit hset
  have hlevel : level < L := by
    refine (Nat.pow_lt_pow_iff_right (a := 2) (by decide)).mp ?_
    omega
  have hne : count ≠ 2 ^ L := by
    rintro rfl
    rw [Nat.testBit_two_pow_of_ne (by omega)] at hset
    exact Bool.false_ne_true hset
  obtain ⟨q, rfl⟩ := hdvd
  obtain ⟨r, hr⟩ : 2 ^ level ∣ 2 ^ L := Nat.pow_dvd_pow 2 (by omega)
  have hodd : q % 2 = 1 := by
    rw [Nat.testBit_two_pow_mul, Nat.sub_self, Nat.testBit_zero] at hset
    simpa using hset
  refine ⟨hlevel, ?_, ?_⟩
  · rw [hr] at hcount hne ⊢
    rw [← Nat.mul_succ]
    exact Nat.mul_le_mul_left _ (Nat.lt_of_mul_lt_mul_left (by omega : 2 ^ level * q < _))
  · rw [← Nat.mul_succ, Nat.pow_succ]
    exact Nat.mul_dvd_mul_left _ (by omega)

end Levels

section Covers

variable {α : Type} {inner : Nat → HashTree α} {count level fuel : Nat} {a : α}

-- some inner value that counts, from a level on, has the leaf below it
def Covered (inner : Nat → HashTree α) (count level : Nat) (a : α) : Prop :=
  ∃ m, level ≤ m ∧ count.testBit m = true ∧ a ∈ (inner m).leaves

theorem combineUp_covers (count fuel : Nat) {old : Nat} {h : HashTree α}
    (hcover : a ∈ h.leaves ∨ Covered inner old level a) :
    a ∈ (combineUp .node inner count fuel level h).2.leaves ∨
      Covered inner old (combineUp .node inner count fuel level h).1 a := by
  induction fuel generalizing level h with
  | zero => exact hcover
  | succ fuel ih =>
    rw [combineUp]
    split
    · exact hcover
    · refine ih ?_
      rcases hcover with hleaf | ⟨m, hm, hbit, hmem⟩
      · exact Or.inl (HashTree.mem_leaves_right hleaf)
      · rcases Nat.eq_or_lt_of_le hm with rfl | hlt
        · exact Or.inl (HashTree.mem_leaves_left hmem)
        · exact Or.inr ⟨m, hlt, hbit, hmem⟩

-- One carry: from the inner values of `count` to those of `count + d`.
theorem carry_covers {d : Nat} {h : HashTree α} (hd : 0 < d) (hle : d ≤ 2 ^ level)
    (hdvd : 2 ^ level ∣ count + d) (hcover : a ∈ h.leaves ∨ Covered inner count level a) :
    let top := combineUp HashTree.node inner (count + d) (count + d) level h
    (count + d).testBit top.1 = true ∧ level ≤ top.1 ∧ 2 ^ top.1 ∣ count + d ∧
      (a ∈ top.2.leaves ∨ Covered inner (count + d) (top.1 + 1) a) := by
  intro top
  obtain ⟨hset, hge, hdvdTop⟩ := lowestLevel_of_dvd (Nat.add_pos_right count hd) hdvd
  have htop : top.1 = lowestLevel (count + d) (count + d) level := combineUp_fst h
  rw [← htop] at hset hge hdvdTop
  have hpow : d ≤ 2 ^ top.1 := Nat.le_trans hle (Nat.pow_le_pow_right (by decide) hge)
  obtain ⟨hzero, habove⟩ := testBit_of_carry hd hpow hdvdTop hset
  refine ⟨hset, hge, hdvdTop, ?_⟩
  rcases combineUp_covers (count + d) (count + d) hcover with
    hleaf | ⟨k, hk, hbit, hmem⟩
  · exact Or.inl hleaf
  · rcases Nat.eq_or_lt_of_le hk with rfl | hgt
    · rw [hzero] at hbit
      exact absurd hbit Bool.false_ne_true
    · exact Or.inr ⟨k, hgt, by rw [← habove k hgt]; exact hbit, hmem⟩

theorem processLeaves_covers {leaves : List (HashTree α)}
    (hcover : Covered inner count 0 a ∨ ∃ t ∈ leaves, a ∈ t.leaves) :
    Covered (processLeaves .node count inner leaves) (count + leaves.length) 0 a := by
  induction leaves generalizing count inner with
  | nil =>
    rcases hcover with hcovered | ⟨t, ht, -⟩
    · exact hcovered
    · exact absurd ht List.not_mem_nil
  | cons h leaves ih =>
    rw [processLeaves, List.length_cons, Nat.add_comm leaves.length 1, ← Nat.add_assoc]
    refine ih ?_
    have hstep : (a ∈ h.leaves ∨ Covered inner count 0 a) ∨ ∃ t ∈ leaves, a ∈ t.leaves := by
      simpa [or_assoc, or_comm, or_left_comm] using hcover
    rcases hstep with hnow | hlater
    · refine Or.inl ?_
      obtain ⟨hset, -, -, hleaf | ⟨m, hm, hbit, hmem⟩⟩ :=
        carry_covers Nat.one_pos (show 1 ≤ 2 ^ 0 from Nat.le_refl 1) (Nat.one_dvd _) hnow
      · exact ⟨_, Nat.zero_le _, hset, by rw [Function.update_self]; exact hleaf⟩
      · exact ⟨m, Nat.zero_le _, hbit, by rw [Function.update_of_ne (by omega)]; exact hmem⟩
    · exact Or.inr hlater

-- `L` bounds the levels that the sweep can come to.
theorem sweep_covers {L : Nat} {h : HashTree α} (hset : count.testBit level = true)
    (hdvd : 2 ^ level ∣ count) (hcount : count ≤ 2 ^ L) (hfuel : L < level + fuel)
    (hcover : a ∈ h.leaves ∨ Covered inner count (level + 1) a) :
    a ∈ (sweep .node inner fuel count level h).leaves := by
  induction fuel generalizing count level h with
  | zero =>
    have hge := Nat.ge_two_pow_of_testBit hset
    have hlt : 2 ^ L < 2 ^ level := Nat.pow_lt_pow_right (by decide) (by omega)
    omega
  | succ fuel ih =>
    rw [sweep]
    split
    · rename_i hpow
      rcases hcover with hleaf | ⟨m, hm, hbit, -⟩
      · exact hleaf
      · rw [hpow, Nat.testBit_two_pow_of_ne (by omega)] at hbit
        exact absurd hbit Bool.false_ne_true
    · rename_i hpow
      obtain ⟨hlevel, hcount', hdvd'⟩ := sweep_step hset hdvd hcount hpow
      obtain ⟨hset', hle', hdvdTop, hcover'⟩ :=
        carry_covers (h := .node h h) (Nat.two_pow_pos level)
          (Nat.pow_le_pow_right (by decide) (show level ≤ level + 1 by omega)) hdvd'
          (hcover.imp_left HashTree.mem_leaves_left)
      exact ih hset' hdvdTop hcount' (by omega) hcover'

-- Every leaf is hashed into the root.
theorem merkleComputation_covers (zero : HashTree α) {leaves : List (HashTree α)}
    {t : HashTree α} (ht : t ∈ leaves) (ha : a ∈ t.leaves) :
    a ∈ (merkleComputation .node zero leaves).leaves := by
  have hpos : 0 < leaves.length := List.length_pos_of_mem ht
  obtain ⟨m, hm, hlt⟩ := exists_testBit hpos
  obtain ⟨hset, -, -, hclear⟩ :=
    lowestLevel_spec leaves.length hm (Nat.zero_le m) (by omega)
  have hdvd : 2 ^ lowestLevel leaves.length leaves.length 0 ∣ leaves.length :=
    dvd_of_clear fun k hk => hclear k (Nat.zero_le k) hk
  have hcovered : Covered (processLeaves .node 0 (fun _ => zero) leaves) (0 + leaves.length) 0 a :=
    processLeaves_covers (Or.inr ⟨t, ht, ha⟩)
  obtain ⟨k, -, hbit, hmem⟩ := hcovered
  rw [Nat.zero_add] at hbit
  rw [merkleComputation, if_neg (by simp [List.ne_nil_of_mem ht])]
  refine sweep_covers hset hdvd Nat.lt_two_pow_self.le (by omega) ?_
  rcases Nat.lt_trichotomy k (lowestLevel leaves.length leaves.length 0) with hlow | rfl | hhigh
  · rw [hclear k (Nat.zero_le k) hlow] at hbit
    exact absurd hbit Bool.false_ne_true
  · exact Or.inl hmem
  · exact Or.inr ⟨k, hhigh, hbit, hmem⟩

end Covers

section Naturality

variable {α β : Type} {hash : α → α → α} {hash' : β → β → β} {f : α → β}

theorem combineUp_map (hf : ∀ a b, f (hash a b) = hash' (f a) (f b)) (inner : Nat → α)
    (count fuel level : Nat) (h : α) :
    combineUp hash' (fun k => f (inner k)) count fuel level (f h) =
      ((combineUp hash inner count fuel level h).1, f (combineUp hash inner count fuel level h).2) := by
  induction fuel generalizing level h with
  | zero => rfl
  | succ fuel ih =>
    rw [combineUp, combineUp]
    split
    · rfl
    · rw [← hf]
      exact ih (level + 1) _

theorem processLeaves_map (hf : ∀ a b, f (hash a b) = hash' (f a) (f b)) (count : Nat)
    (inner : Nat → α) (leaves : List α) :
    processLeaves hash' count (fun k => f (inner k)) (leaves.map f) =
      fun k => f (processLeaves hash count inner leaves k) := by
  induction leaves generalizing count inner with
  | nil => rfl
  | cons h leaves ih =>
    rw [List.map_cons, processLeaves, processLeaves, combineUp_map hf]
    have hupdate : ∀ (k : Nat) (a : α),
        Function.update (fun j => f (inner j)) k (f a) = fun j => f (Function.update inner k a j) :=
      fun k a => (Function.comp_update f inner k a).symm
    dsimp only
    rw [hupdate]
    exact ih _ _

theorem sweep_map (hf : ∀ a b, f (hash a b) = hash' (f a) (f b)) (inner : Nat → α)
    (fuel count level : Nat) (h : α) :
    sweep hash' (fun k => f (inner k)) fuel count level (f h) =
      f (sweep hash inner fuel count level h) := by
  induction fuel generalizing count level h with
  | zero => rfl
  | succ fuel ih =>
    rw [sweep, sweep]
    split
    · rfl
    · dsimp only
      rw [← hf, combineUp_map hf]
      exact ih _ _ _

theorem merkleComputation_map (hf : ∀ a b, f (hash a b) = hash' (f a) (f b)) (zero : α)
    (leaves : List α) :
    merkleComputation hash' (f zero) (leaves.map f) = f (merkleComputation hash zero leaves) := by
  rw [merkleComputation, merkleComputation, List.isEmpty_map]
  split
  · rfl
  · dsimp only
    rw [processLeaves_map hf _ (fun _ => zero), List.length_map, sweep_map hf]

end Naturality

-- the tree that a root is computed over
def hashTree {α : Type} (zero : α) (leaves : List α) : HashTree α :=
  merkleComputation .node (.leaf zero) (leaves.map .leaf)

section Tree

variable {α : Type} {hash : α → α → α} {zero : α} {leaves leaves' : List α}

theorem root_hashTree (hash : α → α → α) (zero : α) (leaves : List α) :
    (hashTree zero leaves).root hash = merkleComputation hash zero leaves := by
  have hmap := merkleComputation_map (HashTree.root_node hash) (.leaf zero) (leaves.map .leaf)
  rw [hashTree, ← hmap, List.map_map]
  congr 1
  exact List.map_id leaves

theorem map_hashTree {β : Type} (f : β → α) (zero : β) (leaves : List β) :
    (hashTree zero leaves).map f = hashTree (f zero) (leaves.map f) := by
  have hmap := merkleComputation_map (HashTree.map_node f) (.leaf zero) (leaves.map .leaf)
  rw [hashTree, ← hmap, hashTree, List.map_map, List.map_map]
  rfl

theorem mem_leaves_hashTree {a : α} (ha : a ∈ leaves) : a ∈ (hashTree zero leaves).leaves :=
  merkleComputation_covers _ (List.mem_map_of_mem ha) (List.mem_singleton.mpr rfl)

theorem forall_leaves_hashTree {P : α → Prop} (hzero : P zero) (hleaves : ∀ a ∈ leaves, P a) :
    ∀ a ∈ (hashTree zero leaves).leaves, P a := by
  obtain ⟨subs, rfl⟩ : ∃ subs : List {a // P a}, subs.map Subtype.val = leaves :=
    ⟨leaves.attachWith P hleaves, List.attachWith_map_subtype_val hleaves⟩
  have hmap := map_hashTree Subtype.val ⟨zero, hzero⟩ subs
  rw [← hmap, HashTree.leaves_map]
  intro a ha
  obtain ⟨b, -, rfl⟩ := List.mem_map.mp ha
  exact b.property

-- As many leaves with the same root are the same leaves.
theorem leaves_eq_of_merkleComputation_eq (hlength : leaves.length = leaves'.length)
    (hfree : ∀ p ∈ (hashTree zero leaves).pairs hash, ∀ q ∈ (hashTree zero leaves').pairs hash,
      hash p.1 p.2 = hash q.1 q.2 → p = q)
    (hroot : merkleComputation hash zero leaves = merkleComputation hash zero leaves') :
    leaves = leaves' := by
  have hfst : (leaves.zip leaves').map Prod.fst = leaves := List.map_fst_zip (by omega)
  have hsnd : (leaves.zip leaves').map Prod.snd = leaves' := List.map_snd_zip (by omega)
  have hleft := map_hashTree Prod.fst (zero, zero) (leaves.zip leaves')
  have hright := map_hashTree Prod.snd (zero, zero) (leaves.zip leaves')
  rw [hfst] at hleft
  rw [hsnd] at hright
  rw [← root_hashTree, ← root_hashTree, ← hleft, ← hright] at hroot
  rw [← hleft, ← hright] at hfree
  have hall := HashTree.map_leaves_eq_of_root_eq Prod.fst Prod.snd _ hfree hroot
  calc leaves = (leaves.zip leaves').map Prod.fst := hfst.symm
    _ = (leaves.zip leaves').map Prod.snd :=
      List.map_congr_left fun p hp => hall p (mem_leaves_hashTree hp)
    _ = leaves' := hsnd

end Tree

end Merkle

end AnkerNode
