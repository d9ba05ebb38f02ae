import AnkerNode.Chain.ProofOfWork
import AnkerNode.Chain.StakeWeight

namespace AnkerNode.UInt256

variable {x y : UInt256}

theorem getCompact_zero : (0 : UInt256).getCompact = 0 := by decide +kernel

theorem compactParts_shift (hx : 0 < x.bits) :
    x.compactParts.2 = if x.bits / 8 + 1 ≤ 3 then x.toNat <<< (8 * (3 - (x.bits / 8 + 1)))
      else x.toNat >>> compactDrop x.bits := by
  have hdrop : 8 * (x.bits / 8 + 1 - 3) = compactDrop x.bits := by
    rw [compactDrop]
    omega
  rw [compactParts_eq hx, hdrop]

theorem getCompact_size (hx : 0 < x.bits) : x.getCompact.toNat >>> 24 = x.bits / 8 + 1 := by
  have hword : x.compactParts.2 < 2 ^ 23 := Nat.size_le.mp (size_compactWord hx)
  rw [toNat_getCompact hx, Nat.shiftRight_eq_div_pow]
  omega

theorem getCompact_word (hx : 0 < x.bits) :
    x.getCompact.toNat &&& 0x007fffff = x.compactParts.2 := by
  have hword : x.compactParts.2 < 2 ^ 23 := Nat.size_le.mp (size_compactWord hx)
  have hmask : (0x007fffff : Nat) = 2 ^ 23 - 1 := by decide
  rw [toNat_getCompact hx, hmask, Nat.and_two_pow_sub_one_eq_mod]
  omega

-- Shifted into place, the word of a packed number is what packing leaves of the number.
theorem compactWord_getCompact (hx : 0 < x.bits) :
    compactWord x.getCompact = x.toNat >>> compactDrop x.bits := by
  simp only [compactWord, getCompact_size hx, getCompact_word hx, compactParts_shift hx]
  split
  · have hdrop : compactDrop x.bits = 0 := by
      rw [compactDrop]
      omega
    rw [Nat.shiftLeft_shiftRight, hdrop]
    rfl
  · rfl

theorem compactNegative_getCompact (x : UInt256) : compactNegative x.getCompact = false := by
  by_cases hx : x.bits = 0
  · rw [bits_eq_zero_iff.mp hx, getCompact_zero]
    rfl
  · have hpos : 0 < x.bits := Nat.pos_of_ne_zero hx
    have hword : x.compactParts.2 < 2 ^ 23 := Nat.size_le.mp (size_compactWord hpos)
    have hsign : (0x00800000 : Nat) = 2 ^ 23 := by decide
    have hclear : x.getCompact.toNat.testBit 23 = false := by
      rw [toNat_getCompact hpos, Nat.testBit_eq_decide_div_mod_eq, decide_eq_false_iff_not]
      omega
    rw [compactNegative, hsign, Nat.and_two_pow, hclear]
    simp

theorem compactOverflow_getCompact (x : UInt256) : compactOverflow x.getCompact = false := by
  by_cases hx : x.bits = 0
  · rw [bits_eq_zero_iff.mp hx, getCompact_zero]
    rfl
  · have hpos : 0 < x.bits := Nat.pos_of_ne_zero hx
    have hbits : x.bits ≤ 256 := Nat.size_le.mpr x.isLt
    have hnot34 : ¬ 34 < x.bits / 8 + 1 := by omega
    have hnot33 : ¬ 33 < x.bits / 8 + 1 := by omega
    -- A number of 33 bytes with its sign keeps the sixteen places below the sign.
    have hshort : ¬ (0xffff < compactWord x.getCompact ∧ 32 < x.bits / 8 + 1) := by
      rintro ⟨hword, hsize⟩
      have hshift : (x.toNat >>> compactDrop x.bits).size ≤ 16 := by
        rw [RoundDown.size_shiftRight, compactDrop]
        have hsize' : x.toNat.size = x.bits := rfl
        omega
      rw [compactWord_getCompact hpos] at hword
      have hlt := Nat.size_le.mp hshift
      omega
    simp only [compactOverflow, getCompact_size hpos, hnot34, hnot33, decide_false, Bool.and_false,
      Bool.false_or, Bool.and_eq_false_iff, decide_eq_false_iff_not]
    exact .inr (by tauto)

theorem setCompact_getCompact_le (x : UInt256) : setCompact x.getCompact ≤ x := by
  rw [BitVec.le_def, toNat_setCompact_getCompact]
  exact compactRound_le x.toNat

theorem toNat_setCompact_getCompact_div (x : UInt256) :
    (setCompact x.getCompact).toNat =
      x.toNat / 256 ^ (x.bits / 8 - 2) * 256 ^ (x.bits / 8 - 2) := by
  have hpow : 2 ^ compactDrop x.toNat.size = 256 ^ (x.bits / 8 - 2) := by
    rw [compactDrop, Nat.pow_mul]
    rfl
  rw [toNat_setCompact_getCompact, compactRound, RoundDown.roundDown_eq, hpow]

-- A number of at most 23 places and whole bytes of zeros below them loses nothing.
theorem setCompact_getCompact_of_aligned {m k : Nat} (hm : m < 2 ^ 23) (hx : x.toNat = m * 256 ^ k) :
    setCompact x.getCompact = x := by
  apply BitVec.eq_of_toNat_eq
  rw [toNat_setCompact_getCompact, compactRound]
  apply RoundDown.roundDown_of_dvd
  by_cases h0 : m = 0
  · rw [hx, h0, Nat.zero_mul]
    exact Nat.dvd_zero _
  · have hpow : (256 : Nat) ^ k = 2 ^ (8 * k) := by
      rw [Nat.pow_mul]
    have hsize : x.toNat.size = m.size + 8 * k := by
      rw [hx, hpow, ← Nat.shiftLeft_eq, Nat.size_shiftLeft h0]
    have hm23 : m.size ≤ 23 := Nat.size_le.mpr hm
    rw [hsize, hx, hpow]
    apply Nat.dvd_mul_left_of_dvd
    apply Nat.pow_dvd_pow
    rw [compactDrop]
    omega

theorem setCompact_getCompact_setCompact {nBits : UInt32} (h : compactOverflow nBits = false) :
    setCompact (setCompact nBits).getCompact = setCompact nBits := by
  apply setCompact_getCompact_of_aligned (compactWord_lt nBits) (k := nBits.toNat >>> 24 - 3)
  rw [toNat_setCompact h, Nat.pow_mul]

theorem getCompact_mono (h : x ≤ y) : x.getCompact ≤ y.getCompact := by
  by_cases hx : x.bits = 0
  · rw [bits_eq_zero_iff.mp hx, getCompact_zero]
    exact UInt32.le_iff_toNat_le.mpr (Nat.zero_le _)
  have hle : x.bits ≤ y.bits := Nat.size_le_size h
  have hxpos : 0 < x.bits := Nat.pos_of_ne_zero hx
  have hypos : 0 < y.bits := hxpos.trans_le hle
  have hxword : x.compactParts.2 < 2 ^ 23 := Nat.size_le.mp (size_compactWord hxpos)
  rw [UInt32.le_iff_toNat_le, toNat_getCompact hxpos, toNat_getCompact hypos]
  by_cases hsize : x.bits / 8 = y.bits / 8
  · have hword : x.compactParts.2 ≤ y.compactParts.2 := by
      rw [compactParts_shift hxpos, compactParts_shift hypos, compactDrop, compactDrop, hsize]
      split
      · rw [Nat.shiftLeft_eq, Nat.shiftLeft_eq]
        exact Nat.mul_le_mul_right _ h
      · rw [Nat.shiftRight_eq_div_pow, Nat.shiftRight_eq_div_pow]
        exact Nat.div_le_div_right h
    omega
  · have hlt : x.bits / 8 < y.bits / 8 := by omega
    omega

theorem getCompact_setCompact_getCompact (x : UInt256) :
    (setCompact x.getCompact).getCompact = x.getCompact := by
  by_cases hx : x.bits = 0
  · rw [bits_eq_zero_iff.mp hx, getCompact_zero]
    decide +kernel
  obtain ⟨z, hz⟩ : ∃ z, z = setCompact x.getCompact := ⟨_, rfl⟩
  have hround : z.toNat = x.toNat >>> compactDrop x.bits <<< compactDrop x.bits := by
    rw [hz]
    exact toNat_setCompact_getCompact x
  have hbits : z.bits = x.bits := by
    rw [bits, hround]
    exact RoundDown.size_roundDown compactDrop_le x.toNat
  have hpos : 0 < x.bits := Nat.pos_of_ne_zero hx
  have hzpos : 0 < z.bits := by omega
  have hword : z.compactParts.2 = x.compactParts.2 := by
    rw [compactParts_shift hzpos, compactParts_shift hpos, hbits]
    split
    · have hdrop : compactDrop x.bits = 0 := by
        rw [compactDrop]
        omega
      rw [hround, hdrop]
      rfl
    · rw [hround, Nat.shiftLeft_shiftRight]
  rw [← hz, ← UInt32.toNat_inj, toNat_getCompact hzpos, toNat_getCompact hpos, hbits, hword]

-- Packed numbers are ordered as the numbers that they stand for.
theorem getCompact_le_iff :
    x.getCompact ≤ y.getCompact ↔ setCompact x.getCompact ≤ setCompact y.getCompact := by
  constructor
  · intro h
    rcases BitVec.le_total (setCompact x.getCompact) (setCompact y.getCompact) with hle | hle
    · exact hle
    · have hback := getCompact_mono hle
      rw [getCompact_setCompact_getCompact, getCompact_setCompact_getCompact] at hback
      rw [UInt32.le_antisymm h hback]
      exact BitVec.le_refl _
  · intro h
    have hback := getCompact_mono h
    rwa [getCompact_setCompact_getCompact, getCompact_setCompact_getCompact] at hback

theorem compact_form :
    (∀ x : UInt256, compactNegative x.getCompact = false ∧ compactOverflow x.getCompact = false ∧
      (setCompact x.getCompact).toNat =
        x.toNat / 256 ^ (x.bits / 8 - 2) * 256 ^ (x.bits / 8 - 2) ∧
      setCompact x.getCompact ≤ x ∧
      ∀ m k : Nat, m < 2 ^ 23 → x.toNat = m * 256 ^ k → setCompact x.getCompact = x) ∧
    (∀ nBits : UInt32, compactNegative nBits = false → compactOverflow nBits = false →
      setCompact (setCompact nBits).getCompact = setCompact nBits) ∧
    (∀ x : UInt256, (setCompact x.getCompact).getCompact = x.getCompact) ∧
    (∀ x y : UInt256, x ≤ y → x.getCompact ≤ y.getCompact) ∧
    (∀ x y : UInt256,
      x.getCompact ≤ y.getCompact ↔ setCompact x.getCompact ≤ setCompact y.getCompact) := by
  refine ⟨fun x => ⟨compactNegative_getCompact x, compactOverflow_getCompact x,
    toNat_setCompact_getCompact_div x, setCompact_getCompact_le x,
    fun m k => setCompact_getCompact_of_aligned⟩, ?_, getCompact_setCompact_getCompact,
    fun x y => getCompact_mono, fun x y => getCompact_le_iff⟩
  intro nBits _ hoverflow
  exact setCompact_getCompact_setCompact hoverflow

theorem compact_form_minimumBits :
    setCompact (setCompact 0x1e0ffff0).getCompact = setCompact 0x1e0ffff0 :=
  compact_form.2.1 0x1e0ffff0 (by decide) (by decide)

end AnkerNode.UInt256
