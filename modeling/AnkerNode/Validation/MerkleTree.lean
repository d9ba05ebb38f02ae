import AnkerNode.Coins.Undo
import AnkerNode.Lib.HashLevels

namespace AnkerNode

namespace Merkle

open HashLevels

def intAdd (a b : Nat) : Option Nat := if a + b < 2 ^ 31 then some (a + b) else none

theorem intAdd_eq_some {a b : Nat} (h : a + b < 2 ^ 31) : intAdd a b = some (a + b) := if_pos h

section Room

variable {α : Type} {level before : List α} {fuel k : Nat}

-- `2 ^ k` bounds the level, and what stands before it leaves room for twice as much.
structure Room (level before : List α) (fuel k : Nat) : Prop where
  bounded : level.length ≤ 2 ^ k
  fit : before.length + 2 ^ (k + 1) ≤ 2 ^ 31
  fuel : level.length < fuel

theorem room_start {leaves : List α} (h : leaves.length ≤ 2 ^ 30) :
    Room leaves [] (leaves.length + 1) 30 :=
  ⟨h, by simp, Nat.lt_succ_self leaves.length⟩

theorem Room.exists_fuel (h : Room level before fuel k) : ∃ fuel', fuel = fuel' + 1 :=
  Nat.exists_eq_add_one_of_ne_zero (Nat.ne_of_gt (Nat.zero_lt_of_lt h.fuel))

theorem Room.lt (h : Room level before fuel k) (hlt : 1 < level.length) :
    before.length + level.length + 1 < 2 ^ 31 := by
  have hpow : 2 ^ (k + 1) = 2 * 2 ^ k := Nat.pow_succ'
  have hbounded := h.bounded
  have hfit := h.fit
  omega

theorem Room.descend (hash : α → α → α) (h : Room level before (fuel + 1) k)
    (hlt : 1 < level.length) :
    intAdd before.length level.length = some (before ++ level).length ∧
      intAdd level.length 1 = some (level.length + 1) ∧
      ∃ k', Room (pairUp hash level) (before ++ level) fuel k' := by
  have hfits := h.lt hlt
  obtain ⟨hbounded, hfit, hfuel⟩ := h
  obtain ⟨k, rfl⟩ : ∃ m, k = m + 1 := by
    refine Nat.exists_eq_add_one_of_ne_zero ?_
    rintro rfl
    omega
  have hpow : 2 ^ (k + 1) = 2 * 2 ^ k := Nat.pow_succ'
  have hpow' : 2 ^ (k + 1 + 1) = 2 * 2 ^ (k + 1) := Nat.pow_succ'
  have hlength := length_pairUp hash level
  rw [List.length_append]
  refine ⟨intAdd_eq_some (by omega), intAdd_eq_some (by omega), k, ?_⟩
  exact ⟨by omega, by rw [List.length_append]; omega, by omega⟩

end Room

section BuildMerkleTree

variable {α : Type} [DecidableEq α] (hash : α → α → α)

-- the loop over `i`
def buildLevel (j nSize : Nat) : Nat → Nat → List α × Bool → Option (List α × Bool)
  | 0, _, _ => none
  | fuel + 1, i, (vMerkleTree, mutated) =>
    if i < nSize then do
      let i2 := min (i + 1) (nSize - 1)
      let left ← vMerkleTree[← intAdd j i]?
      let right ← vMerkleTree[← intAdd j i2]?
      -- two identical hashes at the end of the list at a particular level
      let mutated := mutated || (i2 == i + 1 && i2 + 1 == nSize && left == right)
      let i ← intAdd i 2
      buildLevel j nSize fuel i (vMerkleTree ++ [hash left right], mutated)
    else some (vMerkleTree, mutated)

-- the loop over `nSize`
def buildLevels : Nat → Nat → Nat → List α × Bool → Option (List α × Bool)
  | 0, _, _, _ => none
  | fuel + 1, j, nSize, built =>
    if 1 < nSize then do
      let built ← buildLevel hash j nSize (nSize + 1) 0 built
      let j ← intAdd j nSize
      let next ← intAdd nSize 1
      buildLevels fuel j (next / 2) built
    else some built

structure Built (α : Type) where
  vMerkleTree : List α
  mutated : Bool
  root : α
deriving DecidableEq, Repr

-- The size of vtx goes into an int.
def buildMerkleTree (zero : α) (leaves : List α) : Option (Built α) := do
  let (vMerkleTree, mutated) ←
    buildLevels hash (leaves.length + 1) 0 (toInt32 (leaves.length % 2 ^ 32)).toNat (leaves, false)
  pure ⟨vMerkleTree, mutated, vMerkleTree.getLastD zero⟩

end BuildMerkleTree

section GetMerkleBranch

variable {α : Type}

-- nIndex ^ 1 of an int
def xorOne (nIndex : Int) : Int := if nIndex % 2 = 0 then nIndex + 1 else nIndex - 1

def readBranch (vMerkleTree : List α) : Nat → Nat → Nat → Int → Option (List α)
  | 0, _, _, _ => none
  | fuel + 1, j, nSize, nIndex =>
    if 1 < nSize then do
      let i := min (xorOne nIndex) (nSize - 1)
      let sibling ← if 0 ≤ j + i ∧ j + i < 2 ^ 31 then vMerkleTree[(j + i).toNat]? else none
      let j ← intAdd j nSize
      let next ← intAdd nSize 1
      let branch ← readBranch vMerkleTree fuel j (next / 2) (nIndex / 2)
      pure (sibling :: branch)
    else some []

-- `vMerkleTree` is what an earlier BuildMerkleTree left, or empty.
def getMerkleBranch [DecidableEq α] (hash : α → α → α) (zero : α) (leaves vMerkleTree : List α)
    (nIndex : Int) : Option (List α) := do
  let vMerkleTree ←
    if vMerkleTree.isEmpty then (buildMerkleTree hash zero leaves).map Built.vMerkleTree
    else some vMerkleTree
  readBranch vMerkleTree (leaves.length + 1) 0 (toInt32 (leaves.length % 2 ^ 32)).toNat nIndex

def foldBranch (hash : α → α → α) (nIndex : Int) (h : α) : List α → α
  | [] => h
  | sibling :: branch =>
    foldBranch hash (nIndex / 2) (if nIndex % 2 = 1 then hash sibling h else hash h sibling) branch

def checkMerkleBranch (hash : α → α → α) (zero h : α) (vMerkleBranch : List α) (nIndex : Int) : α :=
  if nIndex = -1 then zero else foldBranch hash nIndex h vMerkleBranch

end GetMerkleBranch

section Spec

variable {α : Type} [DecidableEq α] {hash : α → α → α} {zero : α}

theorem endsTwice_cons_cons_eq (a b : α) (l : List α) :
    endsTwice (a :: b :: l) = (l.isEmpty && a == b || endsTwice l) := by
  cases l with
  | nil => simp [endsTwice, beq_eq_decide]
  | cons c l => simp [endsTwice]

omit [DecidableEq α] in
theorem getElem?_middle {before level out : List α} {k : Nat} {a : α} (hk : level[k]? = some a) :
    (before ++ level ++ out)[before.length + k]? = some a := by
  have hlt := (List.getElem?_eq_some_iff.mp hk).1
  rw [List.append_assoc, List.getElem?_append_right (Nat.le_add_right _ _), Nat.add_sub_cancel_left,
    List.getElem?_append_left hlt, hk]

theorem buildLevel_step {level before out : List α} {i : Nat} {a b : α} (fuel : Nat)
    (mutated : Bool) (ha : level[i]? = some a)
    (hb : level[min (i + 1) (level.length - 1)]? = some b)
    (hfit : before.length + level.length + 1 < 2 ^ 31) :
    buildLevel hash before.length level.length (fuel + 1) i (before ++ level ++ out, mutated) =
      buildLevel hash before.length level.length fuel (i + 2)
        (before ++ level ++ (out ++ [hash a b]),
          mutated || (i + 2 == level.length && a == b)) := by
  have hlt := (List.getElem?_eq_some_iff.mp ha).1
  have hlast : (min (i + 1) (level.length - 1) == i + 1 &&
      min (i + 1) (level.length - 1) + 1 == level.length) = (i + 2 == level.length) := by
    rw [Bool.eq_iff_iff, Bool.and_eq_true, beq_iff_eq, beq_iff_eq, beq_iff_eq]
    omega
  have hi : intAdd before.length i = some (before.length + i) := intAdd_eq_some (by omega)
  have hi2 : intAdd before.length (min (i + 1) (level.length - 1)) =
      some (before.length + min (i + 1) (level.length - 1)) := intAdd_eq_some (by omega)
  have hnext : intAdd i 2 = some (i + 2) := intAdd_eq_some (by omega)
  rw [buildLevel, if_pos hlt]
  simp only [Option.bind_eq_bind, Option.bind_some, hi, hi2, hnext, getElem?_middle ha,
    getElem?_middle hb]
  rw [hlast, List.append_assoc]

theorem buildLevel_eq {level rest before : List α} {fuel i : Nat} (out : List α) (mutated : Bool)
    (hrest : level.drop i = rest) (hfit : before.length + level.length + 1 < 2 ^ 31)
    (hfuel : rest.length < fuel) :
    buildLevel hash before.length level.length fuel i (before ++ level ++ out, mutated) =
      some (before ++ level ++ (out ++ pairUp hash rest), mutated || endsTwice rest) := by
  induction rest using pairs.induct generalizing i out fuel mutated with
  | case1 =>
    obtain ⟨fuel, rfl⟩ := Nat.exists_eq_add_one_of_ne_zero (Nat.ne_of_gt hfuel)
    have hend : ¬i < level.length := Nat.not_lt.mpr (List.drop_eq_nil_iff.mp hrest)
    rw [buildLevel, if_neg hend]
    simp [pairUp, pairs, endsTwice]
  | case2 a =>
    obtain ⟨fuel, rfl⟩ := Nat.exists_eq_add_of_lt hfuel
    have hlength := congrArg List.length hrest
    have hget : ∀ j, level[i + j]? = [a][j]? := fun j => by rw [← hrest, List.getElem?_drop]
    rw [List.length_drop, List.length_singleton] at hlength
    have hmin : min (i + 1) (level.length - 1) = i := by omega
    have hend : ¬i + 2 < level.length := by omega
    have hne : (i + 2 == level.length) = false := by
      rw [beq_eq_false_iff_ne]
      omega
    have ha : level[i]? = some a := hget 0
    rw [List.length_singleton, buildLevel_step _ mutated ha (by rw [hmin]; exact ha) hfit,
      Nat.add_comm 1 fuel, buildLevel, if_neg hend, hne, Bool.false_and]
    simp [pairUp, pairs, endsTwice]
  | case3 a b rest ih =>
    obtain ⟨fuel, rfl⟩ := Nat.exists_eq_add_of_lt hfuel
    have hlength := congrArg List.length hrest
    have hget : ∀ j, level[i + j]? = (a :: b :: rest)[j]? := fun j => by
      rw [← hrest, List.getElem?_drop]
    have ha : level[i]? = some a := hget 0
    rw [List.length_drop, List.length_cons, List.length_cons] at hlength
    have hmin : min (i + 1) (level.length - 1) = i + 1 := by omega
    have hdrop : level.drop (i + 2) = rest := by
      rw [← List.drop_drop, hrest]
      rfl
    have hempty : (i + 2 == level.length) = rest.isEmpty := by
      rw [Bool.eq_iff_iff, beq_iff_eq, List.isEmpty_iff_length_eq_zero]
      omega
    rw [buildLevel_step _ mutated ha (by rw [hmin]; exact hget 1) hfit,
      ih _ _ hdrop (by simp only [List.length_cons]; omega), hempty, endsTwice_cons_cons_eq,
      List.append_assoc out, Bool.or_assoc]
    rfl

theorem buildLevels_eq {level before : List α} {fuel k : Nat} (mutated : Bool)
    (h : Room level before fuel k) :
    buildLevels hash fuel before.length level.length (before ++ level, mutated) =
      some (before ++ (levels hash level).flatten, mutated || doubled hash level) := by
  induction level using root.induct hash generalizing before fuel k mutated with
  | case1 level hle =>
    obtain ⟨fuel, rfl⟩ := h.exists_fuel
    rw [buildLevels, if_neg (by omega), levels_of_le hle, doubled, if_pos hle]
    simp
  | case2 level hlt ih =>
    obtain ⟨fuel, rfl⟩ := h.exists_fuel
    have hlt : 1 < level.length := by omega
    obtain ⟨hj, hnext, k', hroom⟩ := h.descend hash hlt
    have hhere := @buildLevel_eq α _ hash level level before (level.length + 1) 0 []
      mutated (List.drop_zero (l := level)) (h.lt hlt) (Nat.lt_succ_self _)
    rw [List.append_nil, List.nil_append] at hhere
    rw [buildLevels, if_pos hlt, hhere, hj, hnext]
    simp only [Option.bind_eq_bind, Option.bind_some]
    rw [← length_pairUp hash level, ih _ hroom, levels_of_lt hlt, doubled_of_lt hlt,
      List.flatten_cons, List.append_assoc, Bool.or_assoc]

theorem toInt32_toNat_of_lt {n : Nat} (h : n < 2 ^ 31) : (toInt32 (n % 2 ^ 32)).toNat = n := by
  rw [toInt32, if_pos (by omega)]
  omega

theorem buildMerkleTree_eq {leaves : List α} (h : leaves.length ≤ 2 ^ 30) :
    buildMerkleTree hash zero leaves =
      some ⟨(levels hash leaves).flatten, doubled hash leaves, root hash zero leaves⟩ := by
  have hbuilt := @buildLevels_eq α _ hash leaves [] (leaves.length + 1) 30 false (room_start h)
  rw [List.nil_append, List.nil_append, List.length_nil, Bool.false_or] at hbuilt
  rw [buildMerkleTree, toInt32_toNat_of_lt (by omega), hbuilt]
  cases leaves with
  | nil =>
    have hnil : levels hash ([] : List α) = [[]] := levels_of_le (Nat.zero_le 1)
    rw [hnil, root_nil]
    rfl
  | cons a leaves =>
    have hlast : (levels hash (a :: leaves)).flatten.getLast? = some (root hash zero (a :: leaves)) :=
      getLast?_levels (List.cons_ne_nil a leaves)
    simp [List.getLastD_eq_getLast?, hlast]

end Spec

section Branch

variable {α : Type} {hash : α → α → α} {zero : α}

theorem xorOne_natCast (i : Nat) : xorOne i = ((i ^^^ 1 : Nat) : Int) := by
  rw [xorOne]
  rcases Nat.mod_two_eq_zero_or_one i with heven | hodd
  · rw [if_pos (by omega), Nat.xor_one_of_even (Nat.even_iff.mpr heven)]
    rfl
  · rw [if_neg (by omega), Nat.xor_one_of_odd (Nat.odd_iff.mpr hodd)]
    omega

theorem readBranch_eq {level before : List α} {fuel k i : Nat} (hi : i < level.length)
    (h : Room level before fuel k) :
    readBranch (before ++ (levels hash level).flatten) fuel before.length level.length i =
      some (siblings hash level i) := by
  induction level using root.induct hash generalizing before fuel k i with
  | case1 level hle =>
    obtain ⟨fuel, rfl⟩ := h.exists_fuel
    rw [readBranch, if_neg (by omega), siblings, if_pos hle]
  | case2 level hlt ih =>
    obtain ⟨fuel, rfl⟩ := h.exists_fuel
    have hlt : 1 < level.length := by omega
    obtain ⟨hj, hnext, k', hroom⟩ := h.descend hash hlt
    have hfits := h.lt hlt
    have hlength := length_pairUp hash level
    have hsibling : min (i ^^^ 1) (level.length - 1) < level.length := by omega
    have hget := List.getElem?_eq_getElem hsibling
    have hmin : min (xorOne i) ((level.length : Nat) - 1) =
        ((min (i ^^^ 1) (level.length - 1) : Nat) : Int) := by
      rw [xorOne_natCast]
      omega
    have hread : (before ++ (level ++ (levels hash (pairUp hash level)).flatten))[(
        (before.length : Int) + min (xorOne i) ((level.length : Nat) - 1)).toNat]? =
        level[min (i ^^^ 1) (level.length - 1)]? := by
      rw [hmin, ← Nat.cast_add, Int.toNat_natCast, ← List.append_assoc, hget]
      exact getElem?_middle hget
    have habove := ih (i := i / 2) (by omega) hroom
    rw [levels_of_lt hlt, List.flatten_cons, readBranch, if_pos hlt, hj, hnext, siblings_of_lt hlt,
      hget]
    simp only [Option.bind_eq_bind, Option.bind_some]
    rw [if_pos (by rw [hmin]; omega), hread, hget]
    simp only [Option.bind_some]
    rw [← hlength, ← List.append_assoc, show (i : Int) / 2 = ((i / 2 : Nat) : Int) from by omega,
      habove]
    rfl

theorem getMerkleBranch_eq [DecidableEq α] {leaves vMerkleTree : List α} {i : Nat}
    (h : leaves.length ≤ 2 ^ 30) (hi : i < leaves.length)
    (htree : vMerkleTree = [] ∨ vMerkleTree = (levels hash leaves).flatten) :
    getMerkleBranch hash zero leaves vMerkleTree i = some (siblings hash leaves i) := by
  have hread := @readBranch_eq α hash leaves [] (leaves.length + 1) 30 i hi (room_start h)
  rw [List.nil_append, List.length_nil] at hread
  rw [getMerkleBranch, toInt32_toNat_of_lt (by omega)]
  split
  · rw [buildMerkleTree_eq h]
    exact hread
  · rename_i hfull
    rcases htree with rfl | rfl
    · exact absurd rfl hfull
    · exact hread

theorem foldBranch_natCast (i : Nat) (h : α) (branch : List α) :
    foldBranch hash i h branch = foldSiblings hash i h branch := by
  induction branch generalizing i h with
  | nil => rfl
  | cons sibling branch ih =>
    have hodd : (i : Int) % 2 = 1 ↔ i % 2 = 1 := by omega
    rw [foldBranch, foldSiblings, show (i : Int) / 2 = ((i / 2 : Nat) : Int) from by omega, ih]
    simp only [hodd]

theorem checkMerkleBranch_eq {leaves : List α} {i : Nat} {a : α} (hi : leaves[i]? = some a) :
    checkMerkleBranch hash zero a (siblings hash leaves i) i = root hash zero leaves := by
  rw [checkMerkleBranch, if_neg (by omega), foldBranch_natCast]
  exact foldSiblings_siblings hi

end Branch

section Oversized

variable {α : Type} [DecidableEq α] {hash : α → α → α} {zero : α} {leaves : List α}

-- From 2 ^ 31 on the int of the size is negative, and no level is built.
theorem buildMerkleTree_oversized (h : 2 ^ 31 ≤ leaves.length) (h' : leaves.length < 2 ^ 32) :
    buildMerkleTree hash zero leaves = some ⟨leaves, false, leaves.getLastD zero⟩ := by
  have hsize : (toInt32 (leaves.length % 2 ^ 32)).toNat = 0 := by
    rw [toInt32, if_neg (by omega)]
    omega
  rw [buildMerkleTree, hsize, buildLevels, if_neg (by decide)]
  rfl

theorem buildMerkleTree_replicate {n : Nat} (a : α) (h : 2 ^ 31 ≤ n) (h' : n < 2 ^ 32) :
    buildMerkleTree hash zero (List.replicate n a) = some ⟨List.replicate n a, false, a⟩ := by
  have hlength : (List.replicate n a).length = n := List.length_replicate
  rw [buildMerkleTree_oversized (by omega) (by omega), List.getLastD_eq_getLast?,
    List.getLast?_replicate, if_neg (by omega)]
  rfl

end Oversized

end Merkle

section Malleability

open Merkle HashLevels

variable {α : Type} [DecidableEq α]

-- Injectivity is asked of what is hashed for the two lists only.
theorem merkle_malleability_detected (hash : α → α → α) (zero : α) (vtx vtx' : List α)
    (hsize : vtx.length ≤ 2 ^ 30) (hsize' : vtx'.length ≤ 2 ^ 30)
    (hinj : ∀ p ∈ hashed hash vtx, ∀ q ∈ hashed hash vtx', hash p.1 p.2 = hash q.1 q.2 → p = q)
    (hleaf : ∀ a ∈ vtx, ∀ q ∈ hashed hash vtx', hash q.1 q.2 ≠ a)
    (hleaf' : ∀ a ∈ vtx', ∀ p ∈ hashed hash vtx, hash p.1 p.2 ≠ a)
    (hnull : vtx = [] → zero ∉ vtx' ∧ ∀ q ∈ hashed hash vtx', hash q.1 q.2 ≠ zero)
    (hnull' : vtx' = [] → zero ∉ vtx ∧ ∀ p ∈ hashed hash vtx, hash p.1 p.2 ≠ zero)
    (hne : vtx ≠ vtx') :
    ∃ built built', buildMerkleTree hash zero vtx = some built ∧
      buildMerkleTree hash zero vtx' = some built' ∧
      (built.root = built'.root → built.mutated = true ∨ built'.mutated = true) := by
  refine ⟨_, _, buildMerkleTree_eq hsize, buildMerkleTree_eq hsize', fun hroot => ?_⟩
  dsimp only at hroot ⊢
  rcases eq_or_ne vtx [] with rfl | hnil
  · exact absurd hroot.symm (root_ne_root_nil hne.symm (hnull rfl))
  · rcases eq_or_ne vtx' [] with rfl | hnil'
    · exact absurd hroot (root_ne_root_nil hne (hnull' rfl))
    · exact doubled_of_root_eq hnil hnil' hinj hleaf hleaf' hroot hne

-- six and eight, of which the last two repeat the two before them
theorem merkle_malleability_detected_eight : ∃ built built' : Built (HashTree Nat),
    buildMerkleTree .node (.leaf 0) ([1, 2, 3, 4, 5, 6].map HashTree.leaf) = some built ∧
    buildMerkleTree .node (.leaf 0) ([1, 2, 3, 4, 5, 6, 5, 6].map HashTree.leaf) = some built' ∧
    (built.root = built'.root → built.mutated = true ∨ built'.mutated = true) := by
  have hleaf : ∀ (ns : List Nat) (l : List (HashTree Nat)), ∀ a ∈ ns.map HashTree.leaf,
      ∀ q ∈ hashed HashTree.node l, HashTree.node q.1 q.2 ≠ a := by
    intro ns l a ha q _ h
    obtain ⟨n, -, rfl⟩ := List.mem_map.mp ha
    cases h
  have hdetected := merkle_malleability_detected .node (.leaf 0)
    ([1, 2, 3, 4, 5, 6].map HashTree.leaf) ([1, 2, 3, 4, 5, 6, 5, 6].map HashTree.leaf)
    (by simp) (by simp)
    (fun p _ q _ h => Prod.ext (HashTree.node.inj h).1 (HashTree.node.inj h).2)
    (hleaf _ _) (hleaf _ _) (fun h => by simp at h) (fun h => by simp at h) (by simp)
  exact hdetected

-- The null hash as a leaf, and a list whose size is no int.
theorem merkle_malleability_unseen :
    (∀ s t u v : HashTree Nat, HashTree.node s t = HashTree.node u v → s = u ∧ t = v) ∧
    buildMerkleTree .node (.leaf 0) ([] : List (HashTree Nat)) = some ⟨[], false, .leaf 0⟩ ∧
    buildMerkleTree .node (.leaf 0) [HashTree.leaf 0] = some ⟨[.leaf 0], false, .leaf 0⟩ ∧
    buildMerkleTree .node (.leaf 0) [HashTree.leaf 1] = some ⟨[.leaf 1], false, .leaf 1⟩ ∧
    buildMerkleTree .node (.leaf 0) (List.replicate (2 ^ 31) (HashTree.leaf 1)) =
      some ⟨List.replicate (2 ^ 31) (HashTree.leaf 1), false, .leaf 1⟩ := by
  have hlarge : ∀ n, n = 2 ^ 31 →
      buildMerkleTree .node (.leaf 0) (List.replicate n (HashTree.leaf 1)) =
        some ⟨List.replicate n (HashTree.leaf 1), false, .leaf 1⟩ :=
    fun n hn => buildMerkleTree_replicate (HashTree.leaf 1) (by omega) (by omega)
  exact ⟨fun s t u v h => HashTree.node.inj h, by decide, by decide, by decide, hlarge _ rfl⟩

end Malleability

end AnkerNode
