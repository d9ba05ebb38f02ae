import AnkerNode.Lib.RankedForest
import AnkerNode.Primitives.Transaction

namespace AnkerNode

-- turn the lowest 1 bit into a 0
def invertLowestOne (n : Nat) : Nat := n &&& (n - 1)

def getSkipHeight (height : Nat) : Nat :=
  if height < 2 then 0
  else if height % 2 = 1 then invertLowestOne (invertLowestOne (height - 1)) + 1
  else invertLowestOne height

theorem invertLowestOne_le (n : Nat) : invertLowestOne n ≤ n - 1 := Nat.and_le_right

theorem getSkipHeight_lt (height : Nat) (h : 0 < height) : getSkipHeight height < height := by
  simp only [getSkipHeight]
  split
  · exact h
  · split
    · have h1 := invertLowestOne_le (height - 1)
      have h2 := invertLowestOne_le (invertLowestOne (height - 1))
      omega
    · have h1 := invertLowestOne_le height
      omega

-- The fields of the entries of mapBlockIndex that AddToBlockIndex sets once. An entry is its
-- place in the order of insertion, pprev is parent and nHeight is height.
structure BlockTree extends RankedForest where
  size : Nat
  hash : Nat → UInt256
  pskip : Nat → Option Nat
  nChainWork : Nat → Nat
  parent_size : ∀ {i : Nat}, size ≤ i → parent i = none
  pskip_parent : ∀ {i j : Nat}, parent i = some j →
    pskip i = toRankedForest.ancestorAt j (getSkipHeight (height i))
  nChainWork_parent : ∀ {i j : Nat}, parent i = some j → nChainWork j < nChainWork i

namespace BlockTree

variable (t : BlockTree)

def followsSkip (heightWalk height : Nat) : Bool :=
  getSkipHeight heightWalk == height ||
    (decide (height < getSkipHeight heightWalk) &&
      !(decide (getSkipHeight (heightWalk - 1) + 2 < getSkipHeight heightWalk) &&
        decide (height ≤ getSkipHeight (heightWalk - 1))))

def walkBack (height : Nat) : Nat → Nat → Nat → Option Nat
  | 0, _, i => some i
  | fuel + 1, heightWalk, i =>
    if heightWalk ≤ height then some i
    else if followsSkip heightWalk height then
      (t.pskip i).bind (walkBack height fuel (getSkipHeight heightWalk))
    else (t.parent i).bind (walkBack height fuel (heightWalk - 1))

def getAncestor (i height : Nat) : Option Nat :=
  if t.height i < height then none else t.walkBack height (t.height i) (t.height i) i

variable {t}

theorem exists_parent {i : Nat} (h : 0 < t.height i) : ∃ j, t.parent i = some j := by
  cases hp : t.parent i with
  | none =>
    have := t.height_root hp
    omega
  | some j => exact ⟨j, rfl⟩

theorem walkBack_eq {height fuel i : Nat} (hle : height ≤ t.height i)
    (hfuel : t.height i - height ≤ fuel) :
    t.walkBack height fuel (t.height i) i = t.ancestorAt i height := by
  induction fuel generalizing i with
  | zero =>
    have hh : t.height i = height := by omega
    exact (RankedForest.ancestorAt_eq_some.mpr ⟨RankedForest.self_mem_branch i, hh⟩).symm
  | succ fuel ih =>
    simp only [walkBack]
    split
    · exact (RankedForest.ancestorAt_eq_some.mpr
        ⟨RankedForest.self_mem_branch i, by omega⟩).symm
    · obtain ⟨j, hj⟩ := exists_parent (t := t) (i := i) (by omega)
      have hhj := t.height_parent hj
      have hlt := getSkipHeight_lt (t.height i) (by omega)
      split
      · rename_i hskip
        -- The skip pointer is an ancestor that does not lie below the wanted height.
        have hge : height ≤ getSkipHeight (t.height i) := by
          simp only [followsSkip, Bool.or_eq_true, beq_iff_eq, Bool.and_eq_true,
            decide_eq_true_eq] at hskip
          omega
        obtain ⟨k, hk, hkh⟩ := RankedForest.exists_ancestor (t := t.toRankedForest) (i := j)
          (h := getSkipHeight (t.height i)) (by omega)
        rw [t.pskip_parent hj, RankedForest.ancestorAt_eq_some.mpr ⟨hk, hkh⟩, Option.bind_some,
          ← hkh, ih (by omega) (by omega)]
        exact (RankedForest.ancestorAt_of_mem
          ((RankedForest.mem_branch_of_parent hj).mpr (.inr hk)) (by omega)).symm
      · rw [hj, Option.bind_some, hhj, Nat.add_sub_cancel, ih (by omega) (by omega)]
        exact (RankedForest.ancestorAt_of_mem (RankedForest.parent_mem_branch hj) (by omega)).symm

theorem getAncestor_eq {i height : Nat} (h : height ≤ t.height i) :
    t.getAncestor i height = t.ancestorAt i height := by
  rw [getAncestor, if_neg (by omega), walkBack_eq h (by omega)]

-- A header whose target decodes, so that its proof is positive.
structure Header where
  hash : UInt256
  hashPrevBlock : UInt256
  nProof : Nat
  nProof_pos : 0 < nProof

def lookup (t : BlockTree) (hash : UInt256) : Option Nat :=
  (List.range t.size).find? fun i => t.hash i == hash

theorem lookup_lt {hash : UInt256} {i : Nat} (h : t.lookup hash = some i) : i < t.size := by
  have hmem := List.mem_of_find?_eq_some h
  simpa using hmem

theorem hash_of_lookup {hash : UInt256} {i : Nat} (h : t.lookup hash = some i) : t.hash i = hash := by
  simpa using List.find?_some h

theorem lookup_hash {i : Nat} (hi : i < t.size)
    (hunique : ∀ j < t.size, t.hash j = t.hash i → j = i) : t.lookup (t.hash i) = some i := by
  cases h : t.lookup (t.hash i) with
  | none =>
    rw [lookup, List.find?_eq_none] at h
    exact absurd (beq_self_eq_true (t.hash i)) (h i (List.mem_range.mpr hi))
  | some j =>
    have hhash := List.find?_some h
    rw [beq_iff_eq] at hhash
    rw [hunique j (lookup_lt h) hhash]

theorem parent_update_of_some {prev : Option Nat} {i j : Nat}
    (h : Function.update t.parent t.size prev i = some j) :
    (i = t.size ∧ prev = some j) ∨ (i < t.size ∧ t.parent i = some j) := by
  by_cases hi : i = t.size
  · subst hi
    rw [Function.update_self] at h
    exact .inl ⟨rfl, h⟩
  · rw [Function.update_of_ne hi] at h
    refine .inr ⟨?_, h⟩
    by_contra hlt
    rw [t.parent_size (by omega)] at h
    simp at h

def insertForest (t : BlockTree) (prev : Option Nat) (hprev : ∀ j, prev = some j → j < t.size) :
    RankedForest where
  parent := Function.update t.parent t.size prev
  height := Function.update t.height t.size (prev.elim 0 fun j => t.height j + 1)
  parent_lt := by
    intro i j h
    rcases parent_update_of_some h with ⟨rfl, hj⟩ | ⟨-, hj⟩
    · exact hprev j hj
    · exact t.parent_lt hj
  height_parent := by
    intro i j h
    rcases parent_update_of_some h with ⟨rfl, rfl⟩ | ⟨hi, hj⟩
    · have hj := hprev j rfl
      rw [Function.update_self, Function.update_of_ne (by omega), Option.elim_some]
    · have hlt := t.parent_lt hj
      rw [Function.update_of_ne (by omega), Function.update_of_ne (by omega), t.height_parent hj]
  height_root := by
    intro i h
    by_cases hi : i = t.size
    · subst hi
      rw [Function.update_self] at h ⊢
      rw [h]
      rfl
    · rw [Function.update_of_ne hi] at h ⊢
      exact t.height_root h

theorem branch_insertForest {prev : Option Nat} {hprev : ∀ j, prev = some j → j < t.size} {i : Nat}
    (hi : i < t.size) : (t.insertForest prev hprev).branch i = t.branch i := by
  refine RankedForest.branch_congr fun k hk => ?_
  exact Function.update_of_ne (by omega) _ _

theorem ancestorAt_insertForest {prev : Option Nat} {hprev : ∀ j, prev = some j → j < t.size}
    {i h : Nat} (hi : i < t.size) :
    (t.insertForest prev hprev).ancestorAt i h = t.ancestorAt i h := by
  ext a
  rw [RankedForest.ancestorAt_eq_some, RankedForest.ancestorAt_eq_some, branch_insertForest hi]
  refine and_congr_right fun ha => ?_
  have hle := RankedForest.le_of_mem_branch ha
  rw [show (t.insertForest prev hprev).height a = t.height a from
    Function.update_of_ne (by omega) _ _]

-- The entry AddToBlockIndex constructs; prev is the entry of hashPrevBlock, if there is one.
def insert (t : BlockTree) (block : Header) (prev : Option Nat)
    (hprev : ∀ j, prev = some j → j < t.size) : BlockTree where
  toRankedForest := t.insertForest prev hprev
  size := t.size + 1
  hash := Function.update t.hash t.size block.hash
  pskip := Function.update t.pskip t.size
    (prev.bind fun j => t.getAncestor j (getSkipHeight (t.height j + 1)))
  nChainWork := Function.update t.nChainWork t.size
    ((prev.elim 0 fun j => t.nChainWork j) + block.nProof)
  parent_size := by
    intro i hi
    simp only [insertForest]
    rw [Function.update_of_ne (by omega)]
    exact t.parent_size (by omega)
  pskip_parent := by
    intro i j h
    rcases parent_update_of_some h with ⟨rfl, rfl⟩ | ⟨hi, hj⟩
    · have hj := hprev j rfl
      have hlt := getSkipHeight_lt (t.height j + 1) (by omega)
      rw [Function.update_self, Option.bind_some, getAncestor_eq (by omega),
        ancestorAt_insertForest hj]
      simp only [insertForest, Function.update_self, Option.elim_some]
    · have hlt := t.parent_lt hj
      rw [Function.update_of_ne (by omega), t.pskip_parent hj, ancestorAt_insertForest (by omega)]
      simp only [insertForest]
      rw [Function.update_of_ne (by omega)]
  nChainWork_parent := by
    intro i j h
    have hpos := block.nProof_pos
    rcases parent_update_of_some h with ⟨rfl, rfl⟩ | ⟨hi, hj⟩
    · have hj := hprev j rfl
      rw [Function.update_self, Function.update_of_ne (by omega), Option.elim_some]
      omega
    · have hlt := t.parent_lt hj
      rw [Function.update_of_ne (by omega), Function.update_of_ne (by omega)]
      exact t.nChainWork_parent hj

theorem nChainWork_lt_of_mem_branch {a i : Nat} (h : a ∈ t.branch i) (hne : a ≠ i) :
    t.nChainWork a < t.nChainWork i := by
  induction i using t.branch_induction with
  | root i hp =>
    rw [RankedForest.branch_of_none hp, List.mem_singleton] at h
    exact absurd h hne
  | step i j hp ih =>
    have hwork := t.nChainWork_parent hp
    rcases (RankedForest.mem_branch_of_parent hp).mp h with rfl | h
    · exact absurd rfl hne
    · by_cases haj : a = j
      · rw [haj]
        exact hwork
      · exact (ih h haj).trans hwork

end BlockTree

end AnkerNode
