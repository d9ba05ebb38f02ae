import AnkerNode.Chain.Pow
import AnkerNode.Chain.StakeKernel
import AnkerNode.Validation.CheckTransaction

namespace AnkerNode

open UInt256

-- the easiest target that is encoded above the last block with proof of work
def easiestTarget : Nat := compactRound bnTargetLimit.toNat

def clampTarget (n : Nat) : Nat :=
  if n = 0 ∨ bnTargetLimit.toNat < n then bnTargetLimit.toNat else n

-- The product of a target and twice a spacing, as far as 256 bits hold it.
def spacingProduct (target nSpacing : Nat) : Nat := target * (2 * nSpacing) % 2 ^ 256

theorem toNat_bnTargetLimit : bnTargetLimit.toNat = 2 ^ 232 - 1 := by decide +kernel

theorem easiestTarget_eq : easiestTarget = 0xffff * 2 ^ 216 := by decide +kernel

theorem compactRound_mono {a b : Nat} (h : a ≤ b) : compactRound a ≤ compactRound b :=
  RoundDown.roundDown_mono compactDrop_le h

theorem compactRound_le (a : Nat) : compactRound a ≤ a := RoundDown.roundDown_le compactDrop a

theorem compactRound_le_iff {a b : Nat} : compactRound a ≤ compactRound b ↔ compactRound a ≤ b :=
  RoundDown.roundDown_le_roundDown_iff compactDrop_le

theorem clampTarget_le (n : Nat) : clampTarget n ≤ bnTargetLimit.toNat := by
  rw [clampTarget]
  split
  · exact le_rfl
  · omega

theorem compactRound_clampTarget_le (n : Nat) : compactRound (clampTarget n) ≤ easiestTarget :=
  compactRound_mono (clampTarget_le n)

theorem easiestTarget_le : easiestTarget ≤ bnTargetLimit.toNat := compactRound_le _

theorem clampTarget_ordered_iff (a b : Nat) :
    compactRound (clampTarget a) ≤ compactRound (clampTarget b) ↔
      b = 0 ∨ easiestTarget ≤ b ∨ a ≠ 0 ∧ compactRound a ≤ b := by
  have hlimit := easiestTarget_le
  by_cases hb0 : b = 0
  · have hclamp : clampTarget b = bnTargetLimit.toNat := by simp [clampTarget, hb0]
    rw [hclamp]
    exact iff_of_true (compactRound_clampTarget_le a) (.inl hb0)
  by_cases hbe : easiestTarget ≤ b
  · refine iff_of_true ((compactRound_clampTarget_le a).trans ?_) (.inr (.inl hbe))
    rw [easiestTarget, compactRound_le_iff, clampTarget]
    split
    · exact hlimit
    · exact hbe
  · have hclamp : clampTarget b = b := by
      rw [clampTarget, if_neg]
      omega
    rw [hclamp, compactRound_le_iff, clampTarget]
    split
    · rename_i ha
      refine iff_of_false hbe ?_
      rintro (h | h | ⟨h0, h⟩)
      · exact hb0 h
      · exact hbe h
      · have hround : easiestTarget ≤ compactRound a := compactRound_mono (by omega)
        exact hbe (hround.trans h)
    · rename_i ha
      simp only [hb0, hbe, false_or]
      exact ⟨fun h => ⟨by omega, h⟩, fun h => h.2⟩

-- a chain above the last block with proof of work, by the bits and the spacing of its tip
structure StakeTip (net : NetworkID) (chain : PowChain) (nBits : UInt32) (nSpacing : Nat) :
    Prop where
  above : net.LAST_POW_BLOCK < chain.nHeight
  tip : ∃ pindexLast pprev rest, chain = pindexLast :: pprev :: rest ∧
    pindexLast.nBits = nBits ∧ pindexLast.getBlockTime - pprev.getBlockTime = nSpacing

theorem NetworkID.LAST_POW_BLOCK_ge (net : NetworkID) : 500 ≤ net.LAST_POW_BLOCK := by
  cases net <;> decide

theorem StakeTip.getNextWorkRequired_eq {net : NetworkID} {chain : PowChain} {nBits : UInt32}
    {nSpacing : Nat} (h : StakeTip net chain nBits nSpacing) (hfit : 2 * nSpacing < 2 ^ 32) :
    ∃ w, getNextWorkRequired net chain = some w ∧
      (setCompact w).toNat =
        compactRound (clampTarget (spacingProduct (setCompact nBits).toNat nSpacing / 60)) := by
  obtain ⟨pindexLast, pprev, rest, rfl, rfl, hspacing⟩ := h.tip
  have habove := h.above
  have hlast := net.LAST_POW_BLOCK_ge
  have hproduct : (pindexLast.target.mulWord (nSpacing + nSpacing)).toNat =
      spacingProduct pindexLast.target.toNat nSpacing := by
    rw [toNat_mulWord (by omega) (by omega), spacingProduct]
    congr 2
    omega
  obtain ⟨z, hz, hzn⟩ := divide_ofInt64 (n := 60) (by decide) (by decide)
    (pindexLast.target.mulWord (nSpacing + nSpacing))
  rw [hproduct] at hzn
  have hclamp : (if z ≤ 0 ∨ bnTargetLimit < z then bnTargetLimit else z).toNat =
      clampTarget z.toNat := by
    have hiff : (z ≤ 0 ∨ bnTargetLimit < z) ↔ (z.toNat = 0 ∨ bnTargetLimit.toNat < z.toNat) := by
      have hzero : (0 : UInt256).toNat = 0 := rfl
      rw [BitVec.le_def, BitVec.lt_def, hzero, Nat.le_zero]
    rw [clampTarget, ← apply_ite BitVec.toNat]
    simp only [hiff]
  have hnext : getNextWorkRequired net (pindexLast :: pprev :: rest) =
      stakeWorkRequired pindexLast (pprev :: rest) := by
    rw [getNextWorkRequired, if_neg (by rw [PastBlocksMin]; omega), if_pos habove]
  refine ⟨(if z ≤ 0 ∨ bnTargetLimit < z then bnTargetLimit else z).getCompact, ?_, ?_⟩
  · have hnonneg : ¬ ((nSpacing : Int) < 0) := by omega
    have hfactor : ((Int.tdiv 30 30 - 1) * 30 + (nSpacing : Int) + nSpacing) =
        nSpacing + nSpacing := by
      have hinterval : Int.tdiv 30 30 = 1 := by decide
      rw [hinterval]
      omega
    have hdivisor : (Int.tdiv 30 30 + 1) * 30 = 60 := by decide
    simp only [hnext, stakeWorkRequired, hspacing, hnonneg, if_false, hfactor, hdivisor, hz,
      Option.bind_eq_bind, Option.bind_some]
    rfl
  · rw [toNat_setCompact_getCompact, hclamp, hzn]
    rfl

-- The target for the later spacing is the easiest one, or that for the earlier spacing is not
-- rounded to zero and the later product fits, or the wrapped products are still in order.
def SpacingsOrdered (target s₁ s₂ : Nat) : Prop :=
  spacingProduct target s₂ < 60 ∨ 60 * easiestTarget ≤ spacingProduct target s₂ ∨
    60 ≤ spacingProduct target s₁ ∧ (target * (2 * s₂) < 2 ^ 256 ∨
      compactRound (spacingProduct target s₁ / 60) ≤ spacingProduct target s₂ / 60)

theorem spacingsOrdered_iff {s₁ s₂ : Nat} (target : Nat) (hle : s₁ ≤ s₂) :
    SpacingsOrdered target s₁ s₂ ↔
      spacingProduct target s₂ / 60 = 0 ∨ easiestTarget ≤ spacingProduct target s₂ / 60 ∨
        spacingProduct target s₁ / 60 ≠ 0 ∧
          compactRound (spacingProduct target s₁ / 60) ≤ spacingProduct target s₂ / 60 := by
  have hfits : target * (2 * s₂) < 2 ^ 256 →
      compactRound (spacingProduct target s₁ / 60) ≤ spacingProduct target s₂ / 60 := by
    intro hlt
    have hmul : target * (2 * s₁) ≤ target * (2 * s₂) := Nat.mul_le_mul_left _ (by omega)
    have hproducts : spacingProduct target s₁ ≤ spacingProduct target s₂ := by
      rw [spacingProduct, spacingProduct, Nat.mod_eq_of_lt hlt, Nat.mod_eq_of_lt (by omega)]
      exact hmul
    exact (compactRound_le _).trans (Nat.div_le_div_right hproducts)
  have hzero : spacingProduct target s₂ / 60 = 0 ↔ spacingProduct target s₂ < 60 := by omega
  have hpos : spacingProduct target s₁ / 60 ≠ 0 ↔ 60 ≤ spacingProduct target s₁ := by omega
  have heasy : easiestTarget ≤ spacingProduct target s₂ / 60 ↔
      60 * easiestTarget ≤ spacingProduct target s₂ := by omega
  rw [SpacingsOrdered, hzero, hpos, heasy, or_iff_right_of_imp hfits]

-- At a spacing up to the aimed one the target does not grow, unless it is below one second's share.
theorem no_easier_iff {target nSpacing : Nat} (hspacing : nSpacing ≤ 30) :
    compactRound (clampTarget (spacingProduct target nSpacing / 60)) ≤ target ↔
      easiestTarget ≤ target ∨ 60 ≤ target * (2 * nSpacing) := by
  have hmul : target * (2 * nSpacing) ≤ target * 60 := Nat.mul_le_mul_left _ (by omega)
  have hlimit := toNat_bnTargetLimit
  have heasiest := easiestTarget_le
  by_cases heasy : easiestTarget ≤ target
  · exact iff_of_true ((compactRound_clampTarget_le _).trans heasy) (.inl heasy)
  have hfits : spacingProduct target nSpacing = target * (2 * nSpacing) :=
    Nat.mod_eq_of_lt (by omega)
  rw [hfits, clampTarget]
  simp only [heasy, false_or]
  split
  · rename_i h
    refine iff_of_false heasy ?_
    omega
  · rename_i h
    refine iff_of_true ((compactRound_le _).trans ?_) (by omega)
    omega

theorem stake_retarget_monotone_iff (net : NetworkID) (nBits : UInt32) (s₁ s₂ : Nat)
    (chain₁ chain₂ : PowChain) (h₁ : StakeTip net chain₁ nBits s₁)
    (h₂ : StakeTip net chain₂ nBits s₂) (hle : s₁ ≤ s₂) (hfit : 2 * s₂ < 2 ^ 32) :
    ∃ w₁ w₂, getNextWorkRequired net chain₁ = some w₁ ∧ getNextWorkRequired net chain₂ = some w₂ ∧
      (setCompact w₁ ≤ setCompact w₂ ↔ SpacingsOrdered (setCompact nBits).toNat s₁ s₂) ∧
      (s₁ ≤ 30 → (setCompact w₁ ≤ setCompact nBits ↔
        easiestTarget ≤ (setCompact nBits).toNat ∨ 60 ≤ (setCompact nBits).toNat * (2 * s₁))) := by
  obtain ⟨w₁, hw₁, htarget₁⟩ := h₁.getNextWorkRequired_eq (by omega)
  obtain ⟨w₂, hw₂, htarget₂⟩ := h₂.getNextWorkRequired_eq hfit
  refine ⟨w₁, w₂, hw₁, hw₂, ?_, ?_⟩
  · rw [BitVec.le_def, htarget₁, htarget₂, clampTarget_ordered_iff, spacingsOrdered_iff _ hle]
  · intro h30
    rw [BitVec.le_def, htarget₁]
    exact no_easier_iff h30

-- a tip the given time after the block before it
def tipAfter (nBits nSpacing : UInt32) : PowChain :=
  ⟨1597078000 + nSpacing, nBits⟩ :: List.replicate 501 ⟨1597078000, nBits⟩

theorem stakeTip_tipAfter (nBits : UInt32) {nSpacing : UInt32} (h : nSpacing.toNat < 2 ^ 31) :
    StakeTip .MAIN (tipAfter nBits nSpacing) nBits nSpacing.toNat := by
  refine ⟨?_, _, _, List.replicate 500 _, rfl, rfl, ?_⟩
  · rw [PowChain.nHeight, tipAfter, List.length_cons, List.length_replicate]
    decide
  · have hsum : (1597078000 + nSpacing).toNat = 1597078000 + nSpacing.toNat := by
      rw [UInt32.toNat_add]
      have hbase : (1597078000 : UInt32).toNat = 1597078000 := by decide
      omega
    have hbase : (1597078000 : UInt32).toNat = 1597078000 := by decide
    simp only [PowIndex.getBlockTime, hsum, hbase]
    omega

theorem stake_retarget_monotone_minute :
    ∃ w₁ w₂, getNextWorkRequired .MAIN (tipAfter 0x1d00ffff 20) = some w₁ ∧
      getNextWorkRequired .MAIN (tipAfter 0x1d00ffff 60) = some w₂ ∧
      setCompact w₁ ≤ setCompact w₂ := by
  obtain ⟨w₁, w₂, hw₁, hw₂, hiff, -⟩ := stake_retarget_monotone_iff .MAIN 0x1d00ffff 20 60
    (tipAfter 0x1d00ffff 20) (tipAfter 0x1d00ffff 60) (stakeTip_tipAfter _ (by decide))
    (stakeTip_tipAfter _ (by decide)) (by decide) (by decide)
  exact ⟨w₁, w₂, hw₁, hw₂, hiff.mpr (.inr (.inr ⟨by decide +kernel, .inl (by decide +kernel)⟩))⟩

-- A block at the time of its parent makes the target the easiest one.
theorem stake_retarget_zero_spacing :
    StakeTip .MAIN (tipAfter 0x1d00ffff 0) 0x1d00ffff 0 ∧
      StakeTip .MAIN (tipAfter 0x1d00ffff 30) 0x1d00ffff 30 ∧
      getNextWorkRequired .MAIN (tipAfter 0x1d00ffff 0) = some 0x1e00ffff ∧
      getNextWorkRequired .MAIN (tipAfter 0x1d00ffff 30) = some 0x1d00ffff ∧
      ¬ setCompact 0x1e00ffff ≤ setCompact 0x1d00ffff :=
  ⟨stakeTip_tipAfter _ (by decide), stakeTip_tipAfter _ (by decide), by decide +kernel,
    by decide +kernel, by decide +kernel⟩

-- the weight of a stake, over unbounded numbers
def coinDayWeight (nValueIn : Int) : Nat := nValueIn.toNat / 100

-- The words of the source compute the quotient and the product.
theorem stakeTargetHit_eq_words (hash : UInt256) (nValueIn : Int) (target : UInt256) :
    ((ofInt64 nValueIn).divide 100).map (fun weight => decide (hash < weight.mul target)) =
      some (stakeTargetHit hash nValueIn target) := by
  rw [divide_eq (by decide), Option.map_some, mul_eq, stakeTargetHit]

theorem stakeTargetHit_iff {nValueIn : Int} (h : 0 ≤ nValueIn) (hlt : nValueIn < 2 ^ 64)
    (hash target : UInt256) : stakeTargetHit hash nValueIn target = true ↔
      hash.toNat < coinDayWeight nValueIn * target.toNat % 2 ^ 256 := by
  have hhundred : (100 : UInt256).toNat = 100 := by decide
  have hproduct : (ofInt64 nValueIn / 100 * target).toNat =
      coinDayWeight nValueIn * target.toNat % 2 ^ 256 := by
    rw [BitVec.toNat_mul, BitVec.toNat_udiv, toNat_ofInt64 h hlt, hhundred, coinDayWeight]
  rw [stakeTargetHit, decide_eq_true_iff, BitVec.lt_def, hproduct]

theorem coinDayWeight_mono {a b : Int} (h : a ≤ b) : coinDayWeight a ≤ coinDayWeight b := by
  rw [coinDayWeight, coinDayWeight]
  omega

-- A stake is weighed exactly just when the product of weight and target fits 256 bits.
theorem stake_weight_exact_iff (params : ChainParams) (nValueIn : Int) (target : UInt256)
    (h : 0 ≤ nValueIn) (hmax : nValueIn ≤ params.nMaxMoneyOut) :
    ((∀ hash : UInt256, stakeTargetHit hash nValueIn target = true ↔
        hash.toNat < coinDayWeight nValueIn * target.toNat) ∧
      ∀ (hash : UInt256) (smaller : Int), 0 ≤ smaller → smaller ≤ nValueIn →
        stakeTargetHit hash smaller target = true → stakeTargetHit hash nValueIn target = true) ↔
    coinDayWeight nValueIn * target.toNat < 2 ^ 256 := by
  have hmoney := params.maxMoneyOut_lt
  have hlt : nValueIn < 2 ^ 64 := by omega
  constructor
  · rintro ⟨hexact, -⟩
    have htop : (BitVec.allOnes 256).toNat = 2 ^ 256 - 1 := BitVec.toNat_allOnes
    have hiff := hexact (BitVec.allOnes 256)
    rw [stakeTargetHit_iff h hlt, htop] at hiff
    have hmod : coinDayWeight nValueIn * target.toNat % 2 ^ 256 < 2 ^ 256 :=
      Nat.mod_lt _ (by decide)
    have hnot : ¬ 2 ^ 256 - 1 < coinDayWeight nValueIn * target.toNat := by
      rw [← hiff]
      omega
    omega
  · intro hfits
    have hexact : ∀ hash : UInt256, stakeTargetHit hash nValueIn target = true ↔
        hash.toNat < coinDayWeight nValueIn * target.toNat := by
      intro hash
      rw [stakeTargetHit_iff h hlt, Nat.mod_eq_of_lt hfits]
    refine ⟨hexact, fun hash smaller h0 hle hhit => ?_⟩
    rw [stakeTargetHit_iff h0 (by omega)] at hhit
    rw [hexact]
    calc hash.toNat < coinDayWeight smaller * target.toNat % 2 ^ 256 := hhit
      _ ≤ coinDayWeight smaller * target.toNat := Nat.mod_le _ _
      _ ≤ coinDayWeight nValueIn * target.toNat :=
        Nat.mul_le_mul_right _ (coinDayWeight_mono hle)

theorem stake_weight_exact_coin :
    (∀ hash : UInt256, stakeTargetHit hash COIN (setCompact 0x1e00ffff) = true ↔
        hash.toNat < coinDayWeight COIN * (setCompact 0x1e00ffff).toNat) ∧
      ∀ (hash : UInt256) (smaller : Int), 0 ≤ smaller → smaller ≤ COIN →
        stakeTargetHit hash smaller (setCompact 0x1e00ffff) = true →
          stakeTargetHit hash COIN (setCompact 0x1e00ffff) = true :=
  (stake_weight_exact_iff { hashGenesisBlock := 0 } COIN (setCompact 0x1e00ffff) (by decide)
    (by decide)).mpr (by decide +kernel)

-- At the easiest target a stake of 16.78 coins is refused a hash that one of 16.77 coins meets.
theorem stake_weight_wraps :
    1677747300 ≤ ({ hashGenesisBlock := 0 } : ChainParams).nMaxMoneyOut ∧
      (setCompact 0x1e00ffff).toNat = easiestTarget ∧
      stakeTargetHit (1 <<< 250) 1677721600 (setCompact 0x1e00ffff) = true ∧
      stakeTargetHit (1 <<< 250) 1677747300 (setCompact 0x1e00ffff) = false ∧
      ((1 : UInt256) <<< 250).toNat < coinDayWeight 1677747300 * (setCompact 0x1e00ffff).toNat := by
  refine ⟨by decide, ?_, by decide +kernel, by decide +kernel, by decide +kernel⟩
  rw [easiestTarget_eq]
  decide +kernel

end AnkerNode
