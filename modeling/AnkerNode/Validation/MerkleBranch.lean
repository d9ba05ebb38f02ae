import AnkerNode.Validation.Merkle
import AnkerNode.Validation.MerkleTree

namespace AnkerNode

namespace Merkle

open HashLevels

section Computation

variable {α : Type} [DecidableEq α] (hash : α → α → α)

structure Climb (α : Type) where
  level : Nat
  h : α
  matchh : Bool
  branch : List α
  mutated : Bool
deriving DecidableEq, Repr

-- the loops over `level`, which write to the branch as well
def climb (inner : Nat → α) (matchlevel : Option Nat) (count : Nat) : Nat → Climb α → Climb α
  | 0, c => c
  | fuel + 1, c =>
    if count.testBit c.level then c
    else climb inner matchlevel count fuel
      { level := c.level + 1
        h := hash (inner c.level) c.h
        matchh := c.matchh || matchlevel == some c.level
        branch :=
          if c.matchh then c.branch ++ [inner c.level]
          else if matchlevel = some c.level then c.branch ++ [c.h]
          else c.branch
        mutated := c.mutated || inner c.level == c.h }

structure Partial (α : Type) where
  inner : Nat → α
  matchlevel : Option Nat
  branch : List α
  mutated : Bool

def processLeaf (branchpos : Option Nat) (count : Nat) (p : Partial α) (leaf : α) : Partial α :=
  let c := climb hash p.inner p.matchlevel (count + 1) (count + 1)
    { level := 0
      h := leaf
      matchh := branchpos == some count
      branch := p.branch
      mutated := p.mutated }
  { inner := Function.update p.inner c.level c.h
    matchlevel := if c.matchh then some c.level else p.matchlevel
    branch := c.branch
    mutated := c.mutated }

def processAll (branchpos : Option Nat) : Nat → Partial α → List α → Partial α
  | _, p, [] => p
  | count, p, leaf :: leaves =>
    processAll branchpos (count + 1) (processLeaf hash branchpos count p leaf) leaves

-- An inner value that is not the top is combined with itself.
def Climb.withItself (c : Climb α) : Climb α :=
  { level := c.level + 1
    h := hash c.h c.h
    matchh := c.matchh
    branch := if c.matchh then c.branch ++ [c.h] else c.branch
    mutated := c.mutated }

-- the sweep compares nothing
def sweepBranch (p : Partial α) : Nat → Nat → Climb α → Climb α
  | 0, _, c => c
  | fuel + 1, count, c =>
    if count = 2 ^ c.level then c
    else
      let count' := count + 2 ^ c.level
      let up := climb hash p.inner p.matchlevel count' count' (c.withItself hash)
      sweepBranch p fuel count' { up with mutated := c.mutated }

def Partial.lowest (p : Partial α) (count : Nat) : Climb α :=
  let level := lowestLevel count count 0
  { level := level
    h := p.inner level
    matchh := p.matchlevel == some level
    branch := p.branch
    mutated := p.mutated }

structure Computed (α : Type) where
  root : α
  mutated : Bool
  branch : List α
deriving DecidableEq, Repr

-- `branchpos` is none where there is no pbranch.
def merkleComputationWith (zero : α) (leaves : List α) (branchpos : Option Nat) : Computed α :=
  if leaves.isEmpty then ⟨zero, false, []⟩
  else
    let count := leaves.length
    let p := processAll hash branchpos 0 ⟨fun _ => zero, none, [], false⟩ leaves
    let top := sweepBranch hash p (count + 1) count (p.lowest count)
    ⟨top.h, top.mutated, top.branch⟩

def computeMerkleRoot (zero : α) (leaves : List α) : α × Bool :=
  let computed := merkleComputationWith hash zero leaves none
  (computed.root, computed.mutated)

def computeMerkleBranch (zero : α) (leaves : List α) (position : Nat) : List α :=
  (merkleComputationWith hash zero leaves (some position)).branch

def computeMerkleRootFromBranch (leaf : α) (vMerkleBranch : List α) (nIndex : Nat) : α :=
  match vMerkleBranch with
  | [] => leaf
  | sibling :: branch =>
    computeMerkleRootFromBranch (if nIndex % 2 = 1 then hash sibling leaf else hash leaf sibling)
      branch (nIndex / 2)

end Computation

section Root

variable {α : Type} [DecidableEq α] {hash : α → α → α}

theorem climb_combineUp (inner : Nat → α) (matchlevel : Option Nat) (count fuel : Nat)
    (c : Climb α) :
    ((climb hash inner matchlevel count fuel c).level, (climb hash inner matchlevel count fuel c).h) =
      combineUp hash inner count fuel c.level c.h := by
  induction fuel generalizing c with
  | zero => rfl
  | succ fuel ih =>
    rw [climb, combineUp]
    split
    · rfl
    · exact ih _

theorem processAll_inner (branchpos : Option Nat) (count : Nat) (p : Partial α) (leaves : List α) :
    (processAll hash branchpos count p leaves).inner =
      processLeaves hash count p.inner leaves := by
  induction leaves generalizing count p with
  | nil => rfl
  | cons leaf leaves ih =>
    have hup := @climb_combineUp α _ hash p.inner p.matchlevel (count + 1) (count + 1)
      ⟨0, leaf, branchpos == some count, p.branch, p.mutated⟩
    rw [processAll, ih, processLeaves, ← hup]
    rfl

theorem sweepBranch_h (p : Partial α) (fuel count : Nat) (c : Climb α) :
    (sweepBranch hash p fuel count c).h = sweep hash p.inner fuel count c.level c.h := by
  induction fuel generalizing count c with
  | zero => rfl
  | succ fuel ih =>
    rw [sweepBranch, sweep]
    split
    · rfl
    · have hup : (_, _) = combineUp hash p.inner (count + 2 ^ c.level) (count + 2 ^ c.level)
          (c.level + 1) (hash c.h c.h) :=
        climb_combineUp p.inner p.matchlevel _ _ (c.withItself hash)
      dsimp only
      rw [ih, ← hup]

theorem root_merkleComputationWith (zero : α) (leaves : List α) (branchpos : Option Nat) :
    (merkleComputationWith hash zero leaves branchpos).root =
      merkleComputation hash zero leaves := by
  rw [merkleComputationWith, merkleComputation]
  split
  · rfl
  · dsimp only
    rw [sweepBranch_h, Partial.lowest, processAll_inner]

end Root

section Lift

variable {α : Type} [DecidableEq α] {hash : α → α → α} {inner inner' : Nat → α}
variable {matchlevel matchlevel' : Option Nat} {count count' : Nat} {pre : List α}

-- A climb over the leaves, beside the climb over their pairs one level up.
structure Climb.Lifts (pre : List α) (c c' : Climb α) : Prop where
  level : c.level = c'.level + 1
  h : c.h = c'.h
  matchh : c.matchh = c'.matchh
  branch : c.branch = pre ++ c'.branch

theorem climb_lifts {c c' : Climb α} (fuel : Nat)
    (hinner : ∀ k, c'.level ≤ k → inner (k + 1) = inner' k)
    (hmatch : c'.matchh = true ∨ ∀ k, c'.level ≤ k → (matchlevel = some (k + 1) ↔ matchlevel' = some k))
    (hbit : ∀ k, count.testBit (k + 1) = count'.testBit k) (h : c.Lifts pre c') :
    (climb hash inner matchlevel count fuel c).Lifts pre
      (climb hash inner' matchlevel' count' fuel c') := by
  induction fuel generalizing c c' with
  | zero => exact h
  | succ fuel ih =>
    rw [climb, climb, h.level, hbit]
    split
    · exact h
    · have hhere := hinner _ (Nat.le_refl c'.level)
      rcases hmatch with htrue | hmatch
      · refine ih (fun k hk => hinner k (Nat.le_of_succ_le hk)) (Or.inl ?_) ⟨rfl, ?_, ?_, ?_⟩
        · rw [htrue, Bool.true_or]
        · rw [← hhere, ← h.h]
        · rw [h.matchh, htrue, Bool.true_or, Bool.true_or]
        · rw [if_pos (h.matchh.trans htrue), if_pos htrue, h.branch, hhere, List.append_assoc]
      · have heq : (matchlevel == some (c'.level + 1)) = (matchlevel' == some c'.level) := by
          rw [Bool.eq_iff_iff, beq_iff_eq, beq_iff_eq]
          exact hmatch _ (Nat.le_refl c'.level)
        refine ih (fun k hk => hinner k (Nat.le_of_succ_le hk))
          (Or.inr fun k hk => hmatch k (Nat.le_of_succ_le hk)) ⟨rfl, ?_, ?_, ?_⟩
        · rw [← hhere, ← h.h]
        · rw [h.matchh, heq]
        · simp only [h.matchh, h.branch, h.h, hhere, hmatch _ (Nat.le_refl c'.level)]
          split
          · rw [List.append_assoc]
          · split
            · rw [List.append_assoc]
            · rfl

-- Beyond the lowest set bit no fuel is used.
theorem climb_fuel {m fuel fuel' : Nat} {c : Climb α} (hm : count.testBit m = true)
    (hlevel : c.level ≤ m) (hfuel : m < c.level + fuel) (hfuel' : m < c.level + fuel') :
    climb hash inner matchlevel count fuel c = climb hash inner matchlevel count fuel' c := by
  induction fuel generalizing fuel' c with
  | zero => omega
  | succ fuel ih =>
    obtain ⟨fuel', rfl⟩ : ∃ n, fuel' = n + 1 := Nat.exists_eq_add_one_of_ne_zero (by omega)
    rw [climb, climb]
    split
    · rfl
    · rename_i hbit
      have hne : c.level ≠ m := fun heq => hbit (heq ▸ hm)
      exact ih (by dsimp only; omega) (by dsimp only; omega) (by dsimp only; omega)

theorem climb_level (inner : Nat → α) (matchlevel : Option Nat) (count fuel : Nat) (c : Climb α) :
    (climb hash inner matchlevel count fuel c).level = lowestLevel count fuel c.level := by
  have hfst := congrArg Prod.fst (@climb_combineUp α _ hash inner matchlevel count fuel c)
  rw [combineUp_fst] at hfst
  exact hfst

theorem climb_matchh_of_matchh {fuel : Nat} {c : Climb α} (h : c.matchh = true) :
    (climb hash inner matchlevel count fuel c).matchh = true := by
  induction fuel generalizing c with
  | zero => exact h
  | succ fuel ih =>
    rw [climb]
    split
    · exact h
    · exact ih (by rw [h, Bool.true_or])

theorem climb_unmatched {fuel : Nat} {c : Climb α} (hml : matchlevel = none)
    (h : c.matchh = false) : (climb hash inner matchlevel count fuel c).matchh = false ∧
      (climb hash inner matchlevel count fuel c).branch = c.branch := by
  induction fuel generalizing c with
  | zero => exact ⟨h, rfl⟩
  | succ fuel ih =>
    rw [climb]
    split
    · exact ⟨h, rfl⟩
    · have hrest := ih (c := ⟨c.level + 1, hash (inner c.level) c.h,
        c.matchh || matchlevel == some c.level, if c.matchh then c.branch ++ [inner c.level]
          else if matchlevel = some c.level then c.branch ++ [c.h] else c.branch,
        c.mutated || inner c.level == c.h⟩) (by rw [h, hml]; rfl)
      refine ⟨hrest.1, hrest.2.trans ?_⟩
      simp [h, hml]

-- An unmatched climb passed no level at which the matched leaf stood.
theorem matchlevel_of_climb {fuel l : Nat} {c : Climb α}
    (h : (climb hash inner matchlevel count fuel c).matchh = false) (hl : matchlevel = some l)
    (hge : c.level ≤ l) : (climb hash inner matchlevel count fuel c).level ≤ l := by
  induction fuel generalizing c with
  | zero => exact hge
  | succ fuel ih =>
    rw [climb] at h ⊢
    split at h
    · rename_i hbit
      rw [if_pos hbit]
      exact hge
    · rename_i hbit
      rw [if_neg hbit]
      have hne : c.level ≠ l := by
        rintro rfl
        rw [climb_matchh_of_matchh (by rw [hl]; simp)] at h
        exact Bool.noConfusion h
      exact ih h (by dsimp only; omega)

theorem testBit_two_mul (n k : Nat) : (2 * n).testBit (k + 1) = n.testBit k := by
  rw [Nat.testBit_succ, Nat.mul_div_cancel_left _ (by decide)]

-- The climb after a carry to `n`, and the one over the leaves, which has more fuel.
theorem climb_carry_lifts {n : Nat} {c c' : Climb α} (hpos : 0 < n) (hdvd : 2 ^ c'.level ∣ n)
    (hinner : ∀ k, c'.level ≤ k → inner (k + 1) = inner' k)
    (hmatch : c'.matchh = true ∨ ∀ k, c'.level ≤ k → (matchlevel = some (k + 1) ↔ matchlevel' = some k))
    (h : c.Lifts pre c') {fuel : Nat} (hfuel : n ≤ fuel) :
    (climb hash inner matchlevel (2 * n) fuel c).Lifts pre
      (climb hash inner' matchlevel' n n c') := by
  obtain ⟨hset, hge, -⟩ := lowestLevel_of_dvd hpos hdvd
  have hlt : lowestLevel n n c'.level < n :=
    Nat.lt_of_lt_of_le Nat.lt_two_pow_self (Nat.ge_two_pow_of_testBit hset)
  rw [← testBit_two_mul] at hset
  rw [climb_fuel hset (by rw [h.level]; omega) (by rw [h.level]; omega)
    (show _ < c.level + n by rw [h.level]; omega)]
  exact climb_lifts n hinner hmatch (testBit_two_mul n) h

omit [DecidableEq α] in
theorem Climb.Lifts.withItself {c c' : Climb α} (h : c.Lifts pre c') :
    (c.withItself hash).Lifts pre (c'.withItself hash) := by
  refine ⟨?_, ?_, h.matchh, ?_⟩
  · rw [Climb.withItself, h.level]
    rfl
  · rw [Climb.withItself, h.h]
    rfl
  · simp only [Climb.withItself, h.matchh, h.branch, h.h]
    split
    · rw [List.append_assoc]
    · rfl

theorem sweepBranch_lifts {p p' : Partial α} {c c' : Climb α} {L fuel fuel' : Nat}
    (hset : count.testBit c'.level = true) (hdvd : 2 ^ c'.level ∣ count) (hcount : count ≤ 2 ^ L)
    (hfuel : L < c'.level + fuel) (hfuel' : L < c'.level + fuel')
    (hinner : ∀ k, c'.level < k → p.inner (k + 1) = p'.inner k)
    (hmatch : c'.matchh = true ∨
      ∀ k, c'.level < k → (p.matchlevel = some (k + 1) ↔ p'.matchlevel = some k))
    (h : c.Lifts pre c') :
    (sweepBranch hash p fuel (2 * count) c).Lifts pre (sweepBranch hash p' fuel' count c') := by
  have hge := Nat.ge_two_pow_of_testBit hset
  have hle : c'.level ≤ L := (Nat.pow_le_pow_iff_right (a := 2) (by decide)).mp (by omega)
  induction fuel generalizing count c c' fuel' with
  | zero => omega
  | succ fuel ih =>
    obtain ⟨fuel', rfl⟩ : ∃ n, fuel' = n + 1 := Nat.exists_eq_add_one_of_ne_zero (by omega)
    have hpow : 2 ^ c.level = 2 * 2 ^ c'.level := by rw [h.level, Nat.pow_succ']
    rw [sweepBranch, sweepBranch]
    split
    · rw [if_pos (by omega)]
      exact h
    · rename_i hne
      have hne' : count ≠ 2 ^ c'.level := by omega
      obtain ⟨hlevel, hcount', hdvd'⟩ := sweep_step hset hdvd hcount hne'
      have hpos : 0 < count + 2 ^ c'.level := by omega
      have htwice : 2 * count + 2 ^ c.level = 2 * (count + 2 ^ c'.level) := by omega
      have hup : (climb hash p.inner p.matchlevel (2 * (count + 2 ^ c'.level))
          (2 * (count + 2 ^ c'.level)) (c.withItself hash)).Lifts pre
          (climb hash p'.inner p'.matchlevel (count + 2 ^ c'.level) (count + 2 ^ c'.level)
            (c'.withItself hash)) := by
        refine climb_carry_lifts hpos hdvd' ?_ ?_ h.withItself (by omega)
        · exact hinner
        · exact hmatch
      have htop : (climb hash p'.inner p'.matchlevel (count + 2 ^ c'.level) (count + 2 ^ c'.level)
          (c'.withItself hash)).level =
          lowestLevel (count + 2 ^ c'.level) (count + 2 ^ c'.level) (c'.level + 1) :=
        climb_level _ _ _ _ _
      obtain ⟨hset', hge', hdvdTop⟩ := lowestLevel_of_dvd hpos hdvd'
      have hbound := Nat.ge_two_pow_of_testBit hset'
      have hle' : lowestLevel (count + 2 ^ c'.level) (count + 2 ^ c'.level) (c'.level + 1) ≤ L :=
        (Nat.pow_le_pow_iff_right (a := 2) (by decide)).mp (by omega)
      rw [if_neg hne']
      dsimp only
      rw [htwice]
      rw [← htop] at hset' hge' hdvdTop hbound hle'
      refine ih hset' hdvdTop hcount' ?_ ?_ (fun k hk => hinner k ?_) ?_
        ⟨hup.level, hup.h, hup.matchh, hup.branch⟩ hbound hle'
      · dsimp only
        omega
      · dsimp only
        omega
      · dsimp only at hk
        omega
      · refine hmatch.imp (fun htrue => ?_) (fun hmatch k hk => hmatch k ?_)
        · exact climb_matchh_of_matchh htrue
        · dsimp only at hk
          omega

end Lift

section Pairs

variable {α : Type} [DecidableEq α] {hash : α → α → α} {p p' : Partial α} {pos m : Nat} {sib a b : α}

theorem testBit_zero_odd (m : Nat) : (2 * m + 1).testBit 0 = true := by
  rw [Nat.testBit_zero, decide_eq_true_eq]
  omega

theorem testBit_zero_even (m : Nat) : (2 * m).testBit 0 = false := by
  rw [Nat.testBit_zero, decide_eq_false_iff_not]
  omega

theorem processLeaf_even (branchpos : Option Nat) (m : Nat) (p : Partial α) (a : α) :
    processLeaf hash branchpos (2 * m) p a =
      { p with
        inner := Function.update p.inner 0 a
        matchlevel := if branchpos = some (2 * m) then some 0 else p.matchlevel } := by
  rw [processLeaf, climb, if_pos (testBit_zero_odd m)]
  simp only [beq_iff_eq]

theorem processLeaf_live {branchpos : Option Nat} {count : Nat}
    (h : ∀ l, p.matchlevel = some l → count.testBit l = true) (l : Nat)
    (hl : (processLeaf hash branchpos count p a).matchlevel = some l) :
    (count + 1).testBit l = true := by
  rw [processLeaf] at hl
  dsimp only at hl
  have htop := @climb_level α _ hash p.inner p.matchlevel (count + 1) (count + 1)
    ⟨0, a, branchpos == some count, p.branch, p.mutated⟩
  obtain ⟨hset, hdvd⟩ := lowestLevel_zero (Nat.succ_pos count)
  rw [← htop] at hset hdvd
  split at hl
  · rw [← Option.some.inj hl]
    exact hset
  · rename_i hmatch
    have hge := matchlevel_of_climb (Bool.eq_false_iff.mpr hmatch) hl (Nat.zero_le l)
    obtain ⟨hclear, habove⟩ := testBit_of_carry Nat.one_pos (Nat.one_le_two_pow) hdvd hset
    rcases Nat.eq_or_lt_of_le hge with heq | hlt
    · rw [heq, h l hl] at hclear
      exact Bool.noConfusion hclear
    · rw [← habove l hlt]
      exact h l hl

-- `sib` is the leaf that the one at `pos` is paired with.
structure Partial.Lifts (pos m : Nat) (sib : α) (p p' : Partial α) : Prop where
  inner : ∀ k, p.inner (k + 1) = p'.inner k
  matchlevel : p.matchlevel = p'.matchlevel.map (· + 1)
  branch : p.branch = (if pos < 2 * m then [sib] else []) ++ p'.branch
  unmatched : 2 * m ≤ pos → p'.matchlevel = none ∧ p'.branch = []
  live : ∀ l, p'.matchlevel = some l → m.testBit l = true

-- A leaf at an even position changes nothing that the pairs are combined with.
structure Partial.Above (pos m : Nat) (a : α) (p p1 p' : Partial α) : Prop where
  inner_zero : p1.inner 0 = a
  inner : ∀ k, p1.inner (k + 1) = p'.inner k
  matched : p1.matchlevel = some 0 ↔ pos = 2 * m
  matchlevel : (some (pos / 2) == some m) = true ∨
    ∀ k, p1.matchlevel = some (k + 1) ↔ p'.matchlevel = some k
  branch : p1.branch = p.branch

theorem Partial.Lifts.processLeaf_even (h : p.Lifts pos m sib p') :
    Partial.Above pos m a p (processLeaf hash (some pos) (2 * m) p a) p' := by
  rw [Merkle.processLeaf_even]
  refine ⟨Function.update_self 0 a p.inner, fun k => ?_, ?_, ?_, rfl⟩
  · exact (Function.update_of_ne (Nat.succ_ne_zero k) a p.inner).trans (h.inner k)
  · dsimp only
    rw [h.matchlevel]
    cases p'.matchlevel <;> simp
  · dsimp only
    rw [h.matchlevel]
    by_cases hmatch : pos / 2 = m
    · exact Or.inl (by rw [hmatch]; exact beq_self_eq_true _)
    · refine Or.inr fun k => ?_
      rw [if_neg (by rw [Option.some.injEq]; omega)]
      cases p'.matchlevel <;> simp

-- The climb of a pair begins where the climb of its hash does, one level up.
theorem Partial.Above.climb_pair {p1 : Partial α} (h : Partial.Above pos m a p p1 p') :
    ∃ mutated, climb hash p1.inner p1.matchlevel (2 * m + 1 + 1) (2 * m + 1 + 1)
        ⟨0, b, some pos == some (2 * m + 1), p1.branch, p1.mutated⟩ =
      climb hash p1.inner p1.matchlevel (2 * (m + 1)) (2 * m + 1)
        ⟨1, hash a b, some (pos / 2) == some m,
          if pos / 2 = m then p.branch ++ [if pos % 2 = 1 then a else b] else p.branch, mutated⟩ := by
  have hodd : (2 * m + 1 + 1).testBit 0 = false := testBit_zero_even (m + 1)
  have hmatchh : (some pos == some (2 * m + 1) || p1.matchlevel == some 0) =
      (some (pos / 2) == some m) := by
    rw [Bool.eq_iff_iff, Bool.or_eq_true, beq_iff_eq, beq_iff_eq, beq_iff_eq, h.matched,
      Option.some.injEq, Option.some.injEq]
    omega
  have hbranch : (if (some pos == some (2 * m + 1)) = true then p.branch ++ [a]
      else if p1.matchlevel = some 0 then p.branch ++ [b] else p.branch) =
      if pos / 2 = m then p.branch ++ [if pos % 2 = 1 then a else b] else p.branch := by
    simp only [beq_iff_eq, Option.some.injEq, h.matched]
    by_cases hright : pos = 2 * m + 1
    · rw [if_pos hright, if_pos (by omega), if_pos (by omega)]
    · by_cases hleft : pos = 2 * m
      · rw [if_neg hright, if_pos hleft, if_pos (by omega), if_neg (by omega)]
      · rw [if_neg hright, if_neg hleft, if_neg (by omega)]
  refine ⟨p1.mutated || p1.inner 0 == b, ?_⟩
  rw [climb]
  dsimp only
  rw [hodd, if_neg Bool.false_ne_true, hmatchh, h.inner_zero, h.branch, hbranch]
  rfl

omit [DecidableEq α] in
theorem Partial.Lifts.branch_append (h : p.Lifts pos m sib p') (hsib : pos / 2 = m → sib = b) :
    (if pos / 2 = m then p.branch ++ [b] else p.branch) =
      (if pos < 2 * (m + 1) then [sib] else []) ++ p'.branch := by
  by_cases hmatch : pos / 2 = m
  · have hlt : pos < 2 * (m + 1) := by omega
    have hge : ¬pos < 2 * m := by omega
    rw [if_pos hmatch, if_pos hlt, h.branch, if_neg hge, (h.unmatched (by omega)).2, hsib hmatch]
    rfl
  · rw [if_neg hmatch, h.branch]
    by_cases hlt : pos < 2 * m
    · rw [if_pos hlt, if_pos (by omega)]
    · rw [if_neg hlt, if_neg (by omega)]

theorem processLeaf_pair (h : p.Lifts pos m sib p')
    (hsib : pos / 2 = m → sib = if pos % 2 = 1 then a else b) :
    (processLeaf hash (some pos) (2 * m + 1) (processLeaf hash (some pos) (2 * m) p a) b).Lifts
      pos (m + 1) sib (processLeaf hash (some (pos / 2)) m p' (hash a b)) := by
  have heven : Partial.Above pos m a p (processLeaf hash (some pos) (2 * m) p a) p' :=
    h.processLeaf_even
  have hkept : pos ≠ 2 * m → (processLeaf hash (some pos) (2 * m) p a).matchlevel = p.matchlevel := by
    intro hne
    rw [Merkle.processLeaf_even]
    exact if_neg (fun heq => hne (Option.some.inj heq))
  generalize processLeaf hash (some pos) (2 * m) p a = p1 at heven hkept ⊢
  obtain ⟨mutated, hclimb⟩ := @Partial.Above.climb_pair α _ hash _ _ _ _ a b _ heven
  have hlifts : (climb hash p1.inner p1.matchlevel (2 * (m + 1)) (2 * m + 1)
      ⟨1, hash a b, some (pos / 2) == some m,
        if pos / 2 = m then p.branch ++ [if pos % 2 = 1 then a else b] else p.branch, mutated⟩).Lifts
      (if pos < 2 * (m + 1) then [sib] else [])
      (climb hash p'.inner p'.matchlevel (m + 1) (m + 1)
        ⟨0, hash a b, some (pos / 2) == some m, p'.branch, p'.mutated⟩) := by
    refine climb_carry_lifts (Nat.succ_pos m) (Nat.one_dvd _) ?_ ?_ ?_ (by omega)
    · exact fun k _ => heven.inner k
    · exact heven.matchlevel.imp id fun hmatch k _ => hmatch k
    · exact ⟨rfl, rfl, rfl, h.branch_append hsib⟩
  rw [← hclimb] at hlifts
  refine ⟨fun k => ?_, ?_, hlifts.branch, fun hle => ?_, processLeaf_live h.live⟩
  · rw [processLeaf, processLeaf]
    dsimp only
    rw [hlifts.level, hlifts.h]
    rcases eq_or_ne k (climb hash p'.inner p'.matchlevel (m + 1) (m + 1)
      ⟨0, hash a b, some (pos / 2) == some m, p'.branch, p'.mutated⟩).level with rfl | hne
    · rw [Function.update_self, Function.update_self]
    · rw [Function.update_of_ne hne, Function.update_of_ne (fun heq => hne (Nat.succ.inj heq))]
      exact heven.inner k
  · rw [processLeaf, processLeaf]
    dsimp only
    rw [hlifts.level, hlifts.matchh]
    split
    · rfl
    · rename_i hmatchh
      have hne : pos ≠ 2 * m := by
        rintro rfl
        refine hmatchh (climb_matchh_of_matchh ?_)
        rw [Nat.mul_div_cancel_left _ (by decide)]
        exact beq_self_eq_true _
      rw [hkept hne]
      exact h.matchlevel
  · obtain ⟨hnone, hnil⟩ := h.unmatched (by omega)
    have hne : (some (pos / 2) == some m) = false := by
      rw [beq_eq_false_iff_ne, Ne, Option.some.injEq]
      omega
    obtain ⟨hmatchh, hbranch⟩ := @climb_unmatched α _ hash p'.inner p'.matchlevel (m + 1) (m + 1)
      ⟨0, hash a b, some (pos / 2) == some m, p'.branch, p'.mutated⟩ hnone hne
    rw [processLeaf]
    dsimp only
    rw [hmatchh, hbranch]
    exact ⟨hnone, hnil⟩

theorem lowestLevel_two_mul (hpos : 0 < m) :
    lowestLevel (2 * m) (2 * m) 0 = lowestLevel m m 0 + 1 := by
  obtain ⟨hset, hdvd⟩ := lowestLevel_zero hpos
  obtain ⟨hset', hdvd'⟩ := lowestLevel_zero (Nat.mul_pos Nat.two_pos hpos)
  generalize lowestLevel m m 0 = t at hset hdvd ⊢
  rw [← testBit_two_mul] at hset
  have hdvd2 : 2 ^ (t + 1) ∣ 2 * m := by
    rw [Nat.pow_succ']
    exact Nat.mul_dvd_mul_left 2 hdvd
  rcases Nat.lt_trichotomy (lowestLevel (2 * m) (2 * m) 0) (t + 1) with hlt | heq | hgt
  · rw [testBit_eq_false_of_dvd hdvd2 hlt] at hset'
    exact Bool.noConfusion hset'
  · exact heq
  · rw [testBit_eq_false_of_dvd hdvd' hgt] at hset
    exact Bool.noConfusion hset

-- The sweep after as many leaves as pair up.
theorem sweep_even (hpos : 0 < m) (h : p.Lifts pos m sib p') (hmatched : pos < 2 * m) :
    (sweepBranch hash p (2 * m + 1) (2 * m) (p.lowest (2 * m))).Lifts [sib]
      (sweepBranch hash p' (m + 1) m (p'.lowest m)) := by
  obtain ⟨hset, hdvd⟩ := lowestLevel_zero hpos
  have hmatch : ∀ k, p.matchlevel = some (k + 1) ↔ p'.matchlevel = some k := by
    intro k
    rw [h.matchlevel]
    cases p'.matchlevel <;> simp
  refine sweepBranch_lifts (L := m) hset hdvd Nat.lt_two_pow_self.le (by omega) (by omega)
    (fun k _ => h.inner k) (Or.inr fun k _ => hmatch k) ⟨?_, ?_, ?_, ?_⟩
  · exact lowestLevel_two_mul hpos
  · rw [Partial.lowest, Partial.lowest, lowestLevel_two_mul hpos]
    exact h.inner _
  · rw [Partial.lowest, Partial.lowest, lowestLevel_two_mul hpos]
    dsimp only
    rw [Bool.eq_iff_iff, beq_iff_eq, beq_iff_eq]
    exact hmatch _
  · rw [Partial.lowest, Partial.lowest]
    dsimp only
    rw [h.branch, if_pos hmatched]

theorem lowestLevel_odd (m fuel : Nat) : lowestLevel (2 * m + 1) (fuel + 1) 0 = 0 := by
  rw [lowestLevel, if_pos (testBit_zero_odd m)]

-- The matched leaf stands at the lowest level if it was matched in the climb to it.
theorem lowest_processLeaf {branchpos : Option Nat} {count : Nat}
    (live : ∀ l, p.matchlevel = some l → count.testBit l = true) :
    let c := climb hash p.inner p.matchlevel (count + 1) (count + 1)
      ⟨0, a, branchpos == some count, p.branch, p.mutated⟩
    (processLeaf hash branchpos count p a).lowest (count + 1) = c := by
  intro c
  have htop : c.level = lowestLevel (count + 1) (count + 1) 0 := climb_level _ _ _ _ _
  obtain ⟨hset, hdvd⟩ := lowestLevel_zero (Nat.succ_pos count)
  rw [← htop] at hset hdvd
  obtain ⟨hclear, -⟩ := testBit_of_carry Nat.one_pos Nat.one_le_two_pow hdvd hset
  have hmatch : ((if c.matchh then some c.level else p.matchlevel) == some c.level) = c.matchh := by
    cases hc : c.matchh with
    | true => exact beq_self_eq_true _
    | false =>
      rw [if_neg Bool.false_ne_true, beq_eq_false_iff_ne]
      intro hl
      rw [live _ hl] at hclear
      exact Bool.noConfusion hclear
  have hinner : Function.update p.inner c.level c.h c.level = c.h := Function.update_self _ _ _
  rw [Partial.lowest, ← htop]
  change (⟨c.level, Function.update p.inner c.level c.h c.level,
    (if c.matchh then some c.level else p.matchlevel) == some c.level, c.branch, c.mutated⟩ :
      Climb α) = c
  rw [hinner, hmatch]

-- The sweep after a leaf that is left over.
theorem sweep_odd (hpos : 0 < m) (h : p.Lifts pos m sib p') (hmatched : pos < 2 * m + 1)
    (hsib : pos / 2 = m → sib = a) :
    let p1 := processLeaf hash (some pos) (2 * m) p a
    let p1' := processLeaf hash (some (pos / 2)) m p' (hash a a)
    (sweepBranch hash p1 (2 * m + 1 + 1) (2 * m + 1) (p1.lowest (2 * m + 1))).Lifts [sib]
      (sweepBranch hash p1' (m + 1 + 1) (m + 1) (p1'.lowest (m + 1))) := by
  intro p1 p1'
  have heven : Partial.Above pos m a p p1 p' := h.processLeaf_even
  have hlow : p1.lowest (2 * m + 1) = ⟨0, a, some (pos / 2) == some m, p.branch, p1.mutated⟩ := by
    have hmatchh : (p1.matchlevel == some 0) = (some (pos / 2) == some m) := by
      rw [Bool.eq_iff_iff, beq_iff_eq, beq_iff_eq, heven.matched, Option.some.injEq]
      omega
    rw [Partial.lowest, lowestLevel_odd, hmatchh]
    exact congrArg₂ (fun h branch => Climb.mk 0 h _ branch _) heven.inner_zero heven.branch
  have hlow' := @lowest_processLeaf α _ hash p' (hash a a) (some (pos / 2)) m h.live
  have hbranch : (if (some (pos / 2) == some m) = true then p.branch ++ [a] else p.branch) =
      [sib] ++ p'.branch := by
    have happend := h.branch_append (b := a) hsib
    rw [if_pos (show pos < 2 * (m + 1) by omega)] at happend
    simpa using happend
  have hup : (climb hash p1.inner p1.matchlevel (2 * (m + 1)) (2 * (m + 1))
      (Climb.withItself hash ⟨0, a, some (pos / 2) == some m, p.branch, p1.mutated⟩)).Lifts [sib]
      (climb hash p'.inner p'.matchlevel (m + 1) (m + 1)
        ⟨0, hash a a, some (pos / 2) == some m, p'.branch, p'.mutated⟩) := by
    refine climb_carry_lifts (Nat.succ_pos m) (Nat.one_dvd _) ?_ ?_ ?_ (by omega)
    · exact fun k _ => heven.inner k
    · exact heven.matchlevel.imp id fun hmatch k _ => hmatch k
    · exact ⟨rfl, rfl, rfl, hbranch⟩
  have hne : 2 * m + 1 ≠ 2 ^ 0 := by
    rw [Nat.pow_zero]
    omega
  have htop : (climb hash p'.inner p'.matchlevel (m + 1) (m + 1)
      ⟨0, hash a a, some (pos / 2) == some m, p'.branch, p'.mutated⟩).level =
      lowestLevel (m + 1) (m + 1) 0 := climb_level _ _ _ _ _
  obtain ⟨hset, hdvd⟩ := lowestLevel_zero (Nat.succ_pos m)
  rw [← htop] at hset hdvd
  rw [hlow, hlow', sweepBranch, if_neg hne]
  dsimp only
  rw [show 2 * m + 1 + 2 ^ 0 = 2 * (m + 1) from rfl]
  refine sweepBranch_lifts (L := m + 1) hset hdvd Nat.lt_two_pow_self.le (by omega) (by omega)
    (fun k hk => ?_) ?_ ⟨hup.level, hup.h, hup.matchh, hup.branch⟩
  · rw [heven.inner k]
    exact (Function.update_of_ne (Nat.ne_of_gt hk) _ p'.inner).symm
  · by_cases hmatchh : (climb hash p'.inner p'.matchlevel (m + 1) (m + 1)
      ⟨0, hash a a, some (pos / 2) == some m, p'.branch, p'.mutated⟩).matchh = true
    · exact Or.inl hmatchh
    · refine Or.inr fun k _ => ?_
      have hml : p1'.matchlevel = p'.matchlevel := if_neg hmatchh
      rw [hml]
      refine heven.matchlevel.elim (fun htrue => ?_) fun hmatch => hmatch k
      exact absurd (climb_matchh_of_matchh htrue) hmatchh

-- The leaves that are left are paired as the pairs that are left are stored.
theorem sweep_processAll {rest : List α} (h : p.Lifts pos m sib p')
    (hsib : ∀ j c d, (pairs rest)[j]? = some (c, d) → pos / 2 = m + j →
      sib = if pos % 2 = 1 then c else d)
    (hmatched : pos < 2 * m + rest.length) (htwo : 1 < 2 * m + rest.length) :
    let q := processAll hash (some pos) (2 * m) p rest
    let q' := processAll hash (some (pos / 2)) m p' (pairUp hash rest)
    (sweepBranch hash q (2 * m + rest.length + 1) (2 * m + rest.length)
        (q.lowest (2 * m + rest.length))).Lifts [sib]
      (sweepBranch hash q' (m + (pairUp hash rest).length + 1) (m + (pairUp hash rest).length)
        (q'.lowest (m + (pairUp hash rest).length))) := by
  induction rest using pairs.induct generalizing p p' m with
  | case1 =>
    rw [List.length_nil, Nat.add_zero] at htwo
    exact sweep_even (by omega) h hmatched
  | case2 a =>
    refine sweep_odd (by simpa using htwo) h hmatched fun hpos => ?_
    have ha := hsib 0 a a rfl hpos
    rwa [ite_self] at ha
  | case3 a b rest ih =>
    have hpair := @processLeaf_pair α _ hash p p' pos m sib a b h fun hpos => hsib 0 a b rfl hpos
    have hcount : 2 * m + (a :: b :: rest).length = 2 * (m + 1) + rest.length := by
      rw [List.length_cons, List.length_cons]
      omega
    have hcount' : m + (pairUp hash (a :: b :: rest)).length = m + 1 + (pairUp hash rest).length := by
      rw [length_pairUp, length_pairUp, List.length_cons, List.length_cons]
      omega
    have hrest := ih hpair (fun j c d hj hpos => hsib (j + 1) c d hj (by omega))
      (by omega) (by omega)
    rw [hcount, hcount']
    exact hrest

end Pairs

section Agreement

variable {α : Type} [DecidableEq α] {hash : α → α → α} {zero : α} {leaves : List α} {i : Nat}

-- One level: the root of the pairs, and the entry's own sibling before those of its pair.
theorem merkleComputationWith_pairUp (hlt : 1 < leaves.length) {sib : α}
    (hsib : leaves[min (i ^^^ 1) (leaves.length - 1)]? = some sib) (hi : i < leaves.length) :
    (merkleComputationWith hash zero leaves (some i)).root =
        (merkleComputationWith hash zero (pairUp hash leaves) (some (i / 2))).root ∧
      (merkleComputationWith hash zero leaves (some i)).branch =
        sib :: (merkleComputationWith hash zero (pairUp hash leaves) (some (i / 2))).branch := by
  have hstart : Partial.Lifts i 0 sib (⟨fun _ => zero, none, [], false⟩ : Partial α)
      ⟨fun _ => zero, none, [], false⟩ :=
    ⟨fun _ => rfl, rfl, rfl, fun _ => ⟨rfl, rfl⟩, fun l hl => by cases hl⟩
  have hpair : ∀ j c d, (pairs leaves)[j]? = some (c, d) → i / 2 = 0 + j →
      sib = if i % 2 = 1 then c else d := by
    intro j c d hj hhalf
    rw [Nat.zero_add] at hhalf
    rw [← hhalf, getElem?_pairs_half (List.getElem?_eq_getElem hi) hsib] at hj
    split at hj
    · rw [if_pos ‹_›]
      exact (Prod.mk.inj (Option.some.inj hj)).1
    · rw [if_neg ‹_›]
      exact (Prod.mk.inj (Option.some.inj hj)).2
  have hlifts := @sweep_processAll α _ hash _ _ _ _ _ _ hstart hpair (by omega) (by omega)
  have hne : leaves ≠ [] := List.ne_nil_of_length_pos (by omega)
  rw [Nat.mul_zero, Nat.zero_add, Nat.zero_add] at hlifts
  rw [merkleComputationWith, merkleComputationWith, if_neg (by simpa using hne),
    if_neg (by simpa using pairUp_ne_nil hne)]
  exact ⟨hlifts.h, hlifts.branch⟩

theorem merkleComputationWith_eq (hi : i < leaves.length) :
    (merkleComputationWith hash zero leaves (some i)).root = root hash zero leaves ∧
      (merkleComputationWith hash zero leaves (some i)).branch = siblings hash leaves i := by
  induction leaves using root.induct hash generalizing i with
  | case1 l hle =>
    obtain ⟨a, rfl⟩ := List.length_eq_one_iff.mp (show l.length = 1 by omega)
    obtain rfl : i = 0 := by simpa using hi
    rw [root_singleton, siblings_singleton]
    simp [merkleComputationWith, processAll, processLeaf, climb, sweepBranch, Partial.lowest,
      lowestLevel]
  | case2 l hgt ih =>
    have hlt : 1 < l.length := by omega
    have hsibling : min (i ^^^ 1) (l.length - 1) < l.length := by omega
    have hget := List.getElem?_eq_getElem hsibling
    obtain ⟨hroot, hbranch⟩ :=
      @merkleComputationWith_pairUp α _ hash zero l i hlt _ hget hi
    obtain ⟨hroot', hbranch'⟩ := @ih (i / 2) (by rw [length_pairUp]; omega)
    rw [hroot, hbranch, hroot', hbranch', root_of_lt hlt, siblings_of_lt hlt, hget]
    exact ⟨rfl, rfl⟩

theorem computeMerkleRoot_eq (hne : leaves ≠ []) :
    (computeMerkleRoot hash zero leaves).1 = root hash zero leaves := by
  have hroot : (merkleComputationWith hash zero leaves (some 0)).root = root hash zero leaves :=
    (merkleComputationWith_eq (List.length_pos_of_ne_nil hne)).1
  rw [root_merkleComputationWith] at hroot
  rw [computeMerkleRoot, ← hroot]
  exact root_merkleComputationWith zero leaves none

omit [DecidableEq α] in
theorem computeMerkleRootFromBranch_eq (leaf : α) (branch : List α) (nIndex : Nat) :
    computeMerkleRootFromBranch hash leaf branch nIndex = foldSiblings hash nIndex leaf branch := by
  induction branch generalizing leaf nIndex with
  | nil => rfl
  | cons sibling branch ih => exact ih _ _

end Agreement

end Merkle

section Agreement

open Merkle HashLevels

variable {α : Type} [DecidableEq α]

theorem merkle_implementations_agree (hash : α → α → α) (zero : α) (leaves : List α)
    (hne : leaves ≠ []) (hsize : leaves.length ≤ 2 ^ 30) :
    ∃ built, buildMerkleTree hash zero leaves = some built ∧
      built.vMerkleTree.getLast? = some built.root ∧
      (computeMerkleRoot hash zero leaves).1 = built.root ∧
      ∀ vMerkleTree, vMerkleTree = [] ∨ vMerkleTree = built.vMerkleTree →
        ∀ (i : Nat) (leaf : α), leaves[i]? = some leaf →
          ∃ branch, computeMerkleBranch hash zero leaves i = branch ∧
            getMerkleBranch hash zero leaves vMerkleTree i = some branch ∧
            computeMerkleRootFromBranch hash leaf branch i = built.root ∧
            checkMerkleBranch hash zero leaf branch i = built.root := by
  refine ⟨_, buildMerkleTree_eq hsize, getLast?_levels hne, computeMerkleRoot_eq hne,
    fun vMerkleTree htree i leaf hleaf => ?_⟩
  have hi := (List.getElem?_eq_some_iff.mp hleaf).1
  refine ⟨siblings hash leaves i, (merkleComputationWith_eq hi).2, getMerkleBranch_eq hsize hi htree,
    ?_, checkMerkleBranch_eq hleaf⟩
  rw [computeMerkleRootFromBranch_eq]
  exact foldSiblings_siblings hleaf

theorem merkle_implementations_agree_three :
    ∃ built, buildMerkleTree (fun a b => 10 * a + b) 0 [1, 2, 3] = some built ∧
      built.root = (computeMerkleRoot (fun a b => 10 * a + b) 0 [1, 2, 3]).1 ∧
      ∃ branch, getMerkleBranch (fun a b => 10 * a + b) 0 [1, 2, 3] [] 2 = some branch ∧
        checkMerkleBranch (fun a b => 10 * a + b) 0 3 branch 2 = built.root := by
  obtain ⟨built, hbuilt, -, hroot, hbranches⟩ :=
    merkle_implementations_agree (fun a b => 10 * a + b) 0 [1, 2, 3] (by decide) (by decide)
  obtain ⟨branch, -, hget, -, hcheck⟩ := hbranches [] (Or.inl rfl) 2 3 rfl
  exact ⟨built, hbuilt, hroot.symm, branch, hget, hcheck⟩

-- The size 2 ^ 31 is no int: BuildMerkleTree gives the last leaf back.
theorem merkle_implementations_differ :
    ∃ leaves : List Nat, leaves.length = 2 ^ 31 ∧ ∃ built,
      buildMerkleTree (fun a b => a + b + 1) 0 leaves = some built ∧
      (computeMerkleRoot (fun a b => a + b + 1) 0 leaves).1 ≠ built.root := by
  have hlarge : ∀ n, n = 2 ^ 31 → ∃ leaves : List Nat, leaves.length = n ∧ ∃ built,
      buildMerkleTree (fun a b => a + b + 1) 0 leaves = some built ∧
      (computeMerkleRoot (fun a b => a + b + 1) 0 leaves).1 ≠ built.root := by
    intro n hn
    have hlt : 1 < (List.replicate n 0).length := by
      rw [List.length_replicate]
      omega
    obtain ⟨p, -, hroot⟩ := @root_hashed Nat (fun a b => a + b + 1) _ 0 hlt
    refine ⟨List.replicate n 0, List.length_replicate, _,
      buildMerkleTree_replicate 0 (by omega) (by omega), ?_⟩
    rw [computeMerkleRoot_eq (List.ne_nil_of_length_pos (by omega)), ← hroot]
    exact Nat.succ_ne_zero _
  exact hlarge _ rfl

end Agreement

end AnkerNode
