import AnkerNode.Chain.Pow
import AnkerNode.Validation.CheckBlock

namespace AnkerNode

open Checks UInt256

namespace UInt256

variable {nCompact : UInt32}

theorem compactWord_lt (nCompact : UInt32) : compactWord nCompact < 2 ^ 23 := by
  have hand : nCompact.toNat &&& 0x007fffff < 2 ^ 23 := Nat.and_lt_two_pow _ (by decide)
  simp only [compactWord]
  split
  · exact (Nat.shiftRight_le _ _).trans_lt hand
  · exact hand

theorem compactWord_mul_lt (h : compactOverflow nCompact = false) :
    compactWord nCompact * 2 ^ (8 * (nCompact.toNat >>> 24 - 3)) < 2 ^ 256 := by
  have hword := compactWord_lt nCompact
  simp only [compactOverflow, Bool.and_eq_false_iff, bne_eq_false_iff_eq, Bool.or_eq_false_iff,
    decide_eq_false_iff_not, Bool.and_eq_false_iff] at h
  generalize compactWord nCompact = nWord at *
  generalize nCompact.toNat >>> 24 = nSize at *
  rcases h with rfl | ⟨⟨h34, h33⟩, h32⟩
  · simp
  · have hbound : ∀ a b : Nat, nWord < 2 ^ a → 8 * (nSize - 3) ≤ b → a + b = 256 →
        nWord * 2 ^ (8 * (nSize - 3)) < 2 ^ 256 := by
      intro a b ha hb hab
      calc nWord * 2 ^ (8 * (nSize - 3)) < 2 ^ a * 2 ^ (8 * (nSize - 3)) :=
            Nat.mul_lt_mul_of_pos_right ha (Nat.two_pow_pos _)
        _ ≤ 2 ^ a * 2 ^ b := Nat.mul_le_mul_left _ (Nat.pow_le_pow_right (by decide) hb)
        _ = 2 ^ 256 := by rw [← Nat.pow_add, hab]
    by_cases hsize : nSize ≤ 32
    · exact hbound 23 233 hword (by omega) rfl
    by_cases hsize33 : nSize ≤ 33
    · exact hbound 16 240 (by omega) (by omega) rfl
    · exact hbound 8 248 (by omega) (by omega) rfl

theorem toNat_setCompact (h : compactOverflow nCompact = false) :
    (setCompact nCompact).toNat =
      compactWord nCompact * 2 ^ (8 * (nCompact.toNat >>> 24 - 3)) := by
  have hfits := compactWord_mul_lt h
  have hword := compactWord_lt nCompact
  simp only [setCompact]
  split
  · rename_i hsize
    have hzero : nCompact.toNat >>> 24 - 3 = 0 := by omega
    rw [hzero, Nat.mul_zero, Nat.pow_zero, Nat.mul_one, BitVec.toNat_ofNat]
    simp only [compactWord, hsize, if_true] at hword ⊢
    exact Nat.mod_eq_of_lt (by omega)
  · rename_i hsize
    have heq : compactWord nCompact = nCompact.toNat &&& 0x007fffff := by
      simp only [compactWord, hsize, if_false]
    rw [heq] at hfits hword ⊢
    rw [BitVec.toNat_shiftLeft, BitVec.toNat_ofNat, Nat.shiftLeft_eq,
      Nat.mod_eq_of_lt (by omega : nCompact.toNat &&& 0x007fffff < 2 ^ 256),
      Nat.mod_eq_of_lt hfits]

theorem setCompact_succ_lt (h : compactOverflow nCompact = false) :
    (setCompact nCompact).toNat + 1 < 2 ^ 256 := by
  have hfits := compactWord_mul_lt h
  have hword := compactWord_lt nCompact
  rw [toNat_setCompact h]
  rcases hshift : nCompact.toNat >>> 24 - 3 with _ | k
  · omega
  · have heven : 2 ^ (8 * (k + 1)) = 2 * 2 ^ (8 * k + 7) := by
      rw [← Nat.pow_succ']
      rfl
    rw [hshift, heven] at hfits
    rw [heven]
    have hmul : compactWord nCompact * (2 * 2 ^ (8 * k + 7)) =
        2 * (compactWord nCompact * 2 ^ (8 * k + 7)) := by ring
    omega

end UInt256

namespace NetworkID

variable (net : NetworkID)

-- the range that `CheckProofOfWork` refuses
def belowMinimumWork (nBits : UInt32) : Bool :=
  compactNegative nBits || setCompact nBits == 0 || compactOverflow nBits ||
    decide (net.ProofOfWorkLimit < setCompact nBits)

-- The comparison of the hash with the target is commented out in the source.
def checkProofOfWork (fSkipProofOfWorkCheck : Bool) (_hash : UInt256) (nBits : UInt32) : Bool :=
  if fSkipProofOfWorkCheck then true else !net.belowMinimumWork nBits

-- The bits decode to a target that the limit allows, and the hash meets it.
structure Enforced (hash : UInt256) (nBits : UInt32) : Prop where
  positive : compactNegative nBits = false ∧ 0 < (setCompact nBits).toNat
  fits : compactOverflow nBits = false
  limit : setCompact nBits ≤ net.ProofOfWorkLimit
  hash_le : hash ≤ setCompact nBits

end NetworkID

namespace BlockContext

-- a context that checks proof of work as the node does
def withProofOfWork (ctx : BlockContext) (net : NetworkID) : BlockContext :=
  { ctx with checkProofOfWork := net.checkProofOfWork false }

end BlockContext

section Enforcement

variable {net : NetworkID} {nBits : UInt32}

theorem belowMinimumWork_eq_false : net.belowMinimumWork nBits = false ↔
    (compactNegative nBits = false ∧ 0 < (setCompact nBits).toNat) ∧
      compactOverflow nBits = false ∧ setCompact nBits ≤ net.ProofOfWorkLimit := by
  have hpos : setCompact nBits = 0 ↔ ¬ 0 < (setCompact nBits).toNat := by
    rw [Nat.pos_iff_ne_zero, not_not, ← BitVec.toNat_inj]
    rfl
  simp only [NetworkID.belowMinimumWork, Bool.or_eq_false_iff, beq_eq_false_iff_ne, ne_eq, hpos,
    Decidable.not_not, decide_eq_false_iff_not, BitVec.not_lt]
  tauto

theorem target_lt_top (h : net.belowMinimumWork nBits = false) :
    ¬ BitVec.allOnes 256 ≤ setCompact nBits := by
  have hlimit := (belowMinimumWork_eq_false.mp h).2.2
  have hmax : ¬ BitVec.allOnes 256 ≤ net.ProofOfWorkLimit := by
    rw [NetworkID.ProofOfWorkLimit]
    decide +kernel
  exact fun htop => hmax (BitVec.le_trans htop hlimit)

theorem checkProofOfWork_enforced_iff :
    (∀ hash, net.checkProofOfWork false hash nBits = true → net.Enforced hash nBits) ↔
      net.belowMinimumWork nBits = true := by
  constructor
  · intro h
    by_contra hrange
    rw [Bool.not_eq_true] at hrange
    have htop := h (BitVec.allOnes 256) (by simp [NetworkID.checkProofOfWork, hrange])
    exact target_lt_top hrange htop.hash_le
  · intro hrange hash hcheck
    simp [NetworkID.checkProofOfWork, hrange] at hcheck

variable {ctx : BlockContext} {block : CBlock}

theorem checkBlockHeader_withProofOfWork (fCheckPOW : Bool) :
    (ctx.withProofOfWork net).checkBlockHeader block fCheckPOW =
      failIf (fCheckPOW && net.belowMinimumWork block.nBits)
        (CValidationState.doS {} 50 REJECT_INVALID "high-hash") := by
  simp [BlockContext.checkBlockHeader, BlockContext.withProofOfWork, NetworkID.checkProofOfWork]

-- No other check of a block reads the hash of its header.
theorem checkBlock_withHash (hpayee : ∀ hash nHeight,
      ctx.isBlockPayeeValid { block with hash := hash } nHeight =
        ctx.isBlockPayeeValid block nHeight) (hash : UInt256) (fCheckMerkleRoot : Bool) :
    (ctx.withProofOfWork net).checkBlock { block with hash := hash } fCheckMerkleRoot =
      (ctx.withProofOfWork net).checkBlock block fCheckMerkleRoot := by
  have hpay : (ctx.withProofOfWork net).checkPayee { block with hash := hash } =
      (ctx.withProofOfWork net).checkPayee block := by
    simp only [BlockContext.checkPayee, BlockContext.withProofOfWork, hpayee]
    rfl
  simp only [BlockContext.checkBlock, checkBlockHeader_withProofOfWork, hpay]
  rfl

theorem inRange_of_checkBlock {fCheckMerkleRoot : Bool} (hpow : block.isProofOfWork = true)
    (h : (ctx.withProofOfWork net).checkBlock block fCheckMerkleRoot = .ok ()) :
    net.belowMinimumWork block.nBits = false := by
  simp only [BlockContext.checkBlock, bind_eq_ok, checkBlockHeader_withProofOfWork, hpow,
    Bool.true_and] at h
  obtain ⟨_, hheader, -⟩ := h
  by_contra hrange
  rw [Bool.not_eq_false] at hrange
  simp [hrange, failIf, mapError] at hheader

end Enforcement

-- Hashes are held against the target just of bits that the range check refuses anyway, and just of
-- blocks that are refused or carry no proof of work.
theorem proof_of_work_enforced_iff (net : NetworkID) (ctx : BlockContext) (block : CBlock)
    (fCheckMerkleRoot : Bool) (hpayee : ∀ hash nHeight,
      ctx.isBlockPayeeValid { block with hash := hash } nHeight =
        ctx.isBlockPayeeValid block nHeight) :
    ((∀ hash, net.checkProofOfWork false hash block.nBits = true →
        net.Enforced hash block.nBits) ↔ net.belowMinimumWork block.nBits = true) ∧
    ((∀ hash, (ctx.withProofOfWork net).checkBlock { block with hash := hash } fCheckMerkleRoot =
        .ok () → block.isProofOfWork = true → hash ≤ setCompact block.nBits) ↔
      (ctx.withProofOfWork net).checkBlock block fCheckMerkleRoot ≠ .ok () ∨
        block.isProofOfWork = false) := by
  refine ⟨checkProofOfWork_enforced_iff, ?_⟩
  simp only [checkBlock_withHash hpayee]
  constructor
  · intro h
    by_contra hor
    simp only [not_or, ne_eq, not_not, Bool.not_eq_false] at hor
    obtain ⟨haccept, hpow⟩ := hor
    exact target_lt_top (inRange_of_checkBlock hpow haccept) (h _ haccept hpow)
  · rintro (hreject | hpos) hash haccept hpow
    · exact absurd haccept hreject
    · rw [hpos] at hpow
      exact absurd hpow Bool.false_ne_true

theorem proof_of_work_enforced_zero :
    (∀ hash, NetworkID.MAIN.checkProofOfWork false hash 0 = true →
      NetworkID.MAIN.Enforced hash 0) ∧
    ∀ hash, ((BlockContext.syncing { hashGenesisBlock := 0 }).withProofOfWork .MAIN).checkBlock
        { BlockContext.overpaid 4 with hash := hash } true = .ok () →
      (BlockContext.overpaid 4).isProofOfWork = true → hash ≤ setCompact 0 := by
  have hbits : (BlockContext.overpaid 4).nBits = 0 := rfl
  have hpow : (BlockContext.overpaid 4).isProofOfWork = true := rfl
  have hrange : NetworkID.MAIN.belowMinimumWork 0 = true := by decide +kernel
  have hiff := proof_of_work_enforced_iff .MAIN (BlockContext.syncing { hashGenesisBlock := 0 })
    (BlockContext.overpaid 4) true fun _ _ => rfl
  rw [hbits] at hiff
  refine ⟨hiff.1.mpr hrange, hiff.2.mpr (.inl fun haccept => ?_)⟩
  have hin := inRange_of_checkBlock hpow haccept
  rw [hbits, hrange] at hin
  exact absurd hin (by decide)

-- A hash above the target passes.
theorem proof_of_work_unenforced :
    NetworkID.MAIN.checkProofOfWork false (BitVec.allOnes 256) 0x1e00ffff = true ∧
      ¬ BitVec.allOnes 256 ≤ setCompact 0x1e00ffff := by
  constructor
  · decide +kernel
  · decide +kernel

def getBlockProof (nBits : UInt32) : Option UInt256 :=
  let bnTarget := setCompact nBits
  if compactNegative nBits || compactOverflow nBits || bnTarget == 0 then some 0
  else ((~~~bnTarget).divide (bnTarget + 1)).map fun quotient => quotient + 1

def getBlockTrust (fProofOfStake : Bool) (nBits : UInt32) : Option UInt256 :=
  let bnTarget := setCompact nBits
  if bnTarget ≤ 0 then some 0
  else if fProofOfStake then ((1 : UInt256).shl 256).divide (bnTarget + 1)
  else
    (UInt256.divide (~~~(0 : UInt256) >>> 20) (bnTarget + 1)).map fun bnPoWTrust =>
      if 1 < bnPoWTrust then bnPoWTrust else 1

-- the bits decode to a positive target that does not overflow
structure ValidTarget (nBits : UInt32) : Prop where
  nonneg : compactNegative nBits = false
  fits : compactOverflow nBits = false
  positive : 0 < (setCompact nBits).toNat

theorem ValidTarget.getBlockProof_eq {nBits : UInt32} (h : ValidTarget nBits) :
    ∃ w, getBlockProof nBits = some w ∧ w.toNat = 2 ^ 256 / ((setCompact nBits).toNat + 1) := by
  have hsucc := setCompact_succ_lt h.fits
  have hpos := h.positive
  have hzero : (setCompact nBits == 0) = false := by
    rw [beq_eq_false_iff_ne]
    intro heq
    rw [heq] at hpos
    exact Nat.lt_irrefl 0 hpos
  have hplus : (setCompact nBits + 1).toNat = (setCompact nBits).toNat + 1 := by
    have hone : (1 : UInt256).toNat = 1 := rfl
    rw [BitVec.toNat_add, hone]
    exact Nat.mod_eq_of_lt hsucc
  have hdivide := divide_eq (y := setCompact nBits + 1) (by omega) (~~~setCompact nBits)
  refine ⟨~~~setCompact nBits / (setCompact nBits + 1) + 1, ?_, ?_⟩
  · simp only [getBlockProof, h.nonneg, h.fits, hzero, Bool.or_self, Bool.false_eq_true, if_false,
      hdivide, Option.map_some]
  · have hquot : 2 ^ 256 / ((setCompact nBits).toNat + 1) =
        (2 ^ 256 - 1 - (setCompact nBits).toNat) / ((setCompact nBits).toNat + 1) + 1 := by
      rw [Nat.div_eq_sub_div (by omega) (by omega), Nat.sub_sub, Nat.add_comm 1]
    have hsmall : 2 ^ 256 / ((setCompact nBits).toNat + 1) < 2 ^ 256 :=
      Nat.div_lt_self (by decide) (by omega)
    have hone : (1 : UInt256).toNat = 1 := rfl
    rw [hquot] at hsmall ⊢
    rw [BitVec.toNat_add, BitVec.toNat_udiv, BitVec.toNat_not, hplus, hone]
    exact Nat.mod_eq_of_lt hsmall

-- Two targets with 23 leading bits are no closer than that precision allows.
theorem compact_gap {a b i j : Nat} (ha : a < 2 ^ 23) (hb : b < 2 ^ 23)
    (hlt : a * 2 ^ i < b * 2 ^ j) : a * 2 ^ i + 1 ≤ 2 ^ 23 * (b * 2 ^ j - a * 2 ^ i) := by
  rcases Nat.le_total i j with hij | hij
  · obtain ⟨k, rfl⟩ := Nat.exists_eq_add_of_le hij
    have hsplit : b * 2 ^ (i + k) = b * 2 ^ k * 2 ^ i := by rw [Nat.pow_add]; ring
    rw [hsplit] at hlt ⊢
    have hquot : a < b * 2 ^ k := Nat.lt_of_mul_lt_mul_right hlt
    rw [← Nat.sub_mul]
    have hgap : 2 ^ i ≤ (b * 2 ^ k - a) * 2 ^ i := Nat.le_mul_of_pos_left _ (by omega)
    have hmul : (a + 1) * 2 ^ i ≤ 2 ^ 23 * 2 ^ i := Nat.mul_le_mul_right _ (by omega)
    have hpos : 0 < 2 ^ i := Nat.two_pow_pos i
    rw [Nat.add_mul, Nat.one_mul] at hmul
    omega
  · obtain ⟨k, rfl⟩ := Nat.exists_eq_add_of_le hij
    have hsplit : a * 2 ^ (j + k) = a * 2 ^ k * 2 ^ j := by rw [Nat.pow_add]; ring
    rw [hsplit] at hlt ⊢
    have hquot : a * 2 ^ k < b := Nat.lt_of_mul_lt_mul_right hlt
    rw [← Nat.sub_mul]
    have hgap : 2 ^ j ≤ (b - a * 2 ^ k) * 2 ^ j := Nat.le_mul_of_pos_left _ (by omega)
    have hmul : (a * 2 ^ k + 1) * 2 ^ j ≤ 2 ^ 23 * 2 ^ j := Nat.mul_le_mul_right _ (by omega)
    have hpos : 0 < 2 ^ j := Nat.two_pow_pos j
    rw [Nat.add_mul, Nat.one_mul] at hmul
    omega

theorem div_succ_lt {s t : Nat} (hgap : s + 1 ≤ 2 ^ 23 * (t - s)) (hlt : s < t)
    (ht : t < 2 ^ 233) : 2 ^ 256 / (t + 1) < 2 ^ 256 / (s + 1) := by
  have hlow : 2 ^ 23 ≤ 2 ^ 256 / (t + 1) := by
    rw [Nat.le_div_iff_mul_le (by omega)]
    omega
  have hmul := Nat.div_mul_le_self (2 ^ 256) (t + 1)
  generalize 2 ^ 256 / (t + 1) = q at *
  rw [Nat.lt_iff_add_one_le, Nat.le_div_iff_mul_le (by omega)]
  obtain ⟨d, rfl⟩ := Nat.exists_eq_add_of_lt hlt
  have hdiff : s + d + 1 - s = d + 1 := by omega
  rw [hdiff] at hgap
  have hstep : 2 ^ 23 * (d + 1) ≤ q * (d + 1) := Nat.mul_le_mul_right _ hlow
  have hsum : q * (s + d + 1 + 1) = q * (s + 1) + q * (d + 1) := by ring
  rw [hsum] at hmul
  rw [Nat.add_mul, Nat.one_mul]
  omega

theorem block_proof_exact (nBits : UInt32) (h : ValidTarget nBits) :
    ∃ w, getBlockProof nBits = some w ∧ w.toNat = 2 ^ 256 / ((setCompact nBits).toNat + 1) ∧
      1 ≤ w.toNat ∧
      ∀ nBits' : UInt32, ValidTarget nBits' → setCompact nBits' < setCompact nBits →
        ∃ w', getBlockProof nBits' = some w' ∧ w ≤ w' ∧
          ((setCompact nBits).toNat < 2 ^ 233 → w < w') := by
  obtain ⟨w, hw, hvalue⟩ := h.getBlockProof_eq
  have hsucc := setCompact_succ_lt h.fits
  refine ⟨w, hw, hvalue, ?_, fun nBits' h' hlt => ?_⟩
  · rw [hvalue, Nat.le_div_iff_mul_le (by omega)]
    omega
  · obtain ⟨w', hw', hvalue'⟩ := h'.getBlockProof_eq
    rw [BitVec.lt_def] at hlt
    refine ⟨w', hw', ?_, fun hsmall => ?_⟩
    · rw [BitVec.le_def, hvalue, hvalue']
      exact Nat.div_le_div_left (by omega) (by omega)
    · rw [BitVec.lt_def, hvalue, hvalue']
      refine div_succ_lt ?_ hlt hsmall
      rw [toNat_setCompact h.fits, toNat_setCompact h'.fits] at hlt ⊢
      exact compact_gap (compactWord_lt nBits') (compactWord_lt nBits) hlt

theorem validTarget_minimum : ValidTarget 0x1e00ffff :=
  ⟨by decide +kernel, by decide +kernel, by decide +kernel⟩

theorem block_proof_exact_minimum :
    ∃ w, getBlockProof 0x1e00ffff = some w ∧
      w.toNat = 2 ^ 256 / ((setCompact 0x1e00ffff).toNat + 1) ∧ 1 ≤ w.toNat ∧
      ∀ nBits' : UInt32, ValidTarget nBits' → setCompact nBits' < setCompact 0x1e00ffff →
        ∃ w', getBlockProof nBits' = some w' ∧ w ≤ w' ∧
          ((setCompact 0x1e00ffff).toNat < 2 ^ 233 → w < w') :=
  block_proof_exact 0x1e00ffff validTarget_minimum

-- A proof-of-stake block has no trust, and two large targets share a quotient.
theorem block_trust_lost :
    (ValidTarget 0x1e00ffff ∧ getBlockTrust true 0x1e00ffff = some 0 ∧
      getBlockProof 0x1e00ffff ≠ some 0) ∧
    ValidTarget 0x207ffffe ∧ ValidTarget 0x207fffff ∧
      setCompact 0x207ffffe < setCompact 0x207fffff ∧
      getBlockProof 0x207ffffe = getBlockProof 0x207fffff := by
  refine ⟨⟨validTarget_minimum, by decide +kernel, by decide +kernel⟩,
    ⟨by decide +kernel, by decide +kernel, by decide +kernel⟩,
    ⟨by decide +kernel, by decide +kernel, by decide +kernel⟩, by decide +kernel, by decide +kernel⟩

end AnkerNode
