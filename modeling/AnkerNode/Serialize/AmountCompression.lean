import AnkerNode.Serialize.Compressor
import AnkerNode.Validation.CheckTransaction

namespace AnkerNode.CTxOutCompressor

-- the decompressed amount over unbounded numbers
def decompressedAmount (x : Nat) : Nat :=
  if x = 0 then 0
  else
    let x := x - 1
    let e := x % 10
    let x := x / 10
    let n := if e < 9 then x / 9 * 10 + x % 9 + 1 else x + 1
    n * 10 ^ e

theorem decompressAmount_eq (x : Nat) : decompressAmount x = decompressedAmount x % 2 ^ 64 := by
  simp only [decompressAmount, decompressedAmount]
  split
  · rfl
  · rfl

theorem stripZeros_mul_pow (m k fuel e : Nat) :
    stripZeros (k + fuel) (m * 10 ^ k) e = stripZeros fuel m (e + k) := by
  induction k generalizing e with
  | zero => simp
  | succ k ih =>
    have hlast : m * 10 ^ (k + 1) % 10 = 0 := by
      rw [Nat.pow_succ, ← Nat.mul_assoc, Nat.mul_mod_left]
    have hrest : m * 10 ^ (k + 1) / 10 = m * 10 ^ k := by
      rw [Nat.pow_succ, ← Nat.mul_assoc, Nat.mul_div_cancel _ (by decide)]
    rw [Nat.add_right_comm, stripZeros, if_pos hlast, hrest, ih, Nat.add_right_comm, Nat.add_assoc]

theorem stripZeros_of_last {m : Nat} (hm : m % 10 ≠ 0) (fuel e : Nat) :
    stripZeros fuel m e = (m, e) := by
  cases fuel with
  | zero => rfl
  | succ fuel => rw [stripZeros, if_neg hm]

theorem compressedAmount_of_last {m e : Nat} (hm : m % 10 ≠ 0) (he : e < 9) :
    compressedAmount (m * 10 ^ e) = 1 + (m / 10 * 9 + m % 10 - 1) * 10 + e := by
  have hpos : 0 < m := by omega
  have hne : m * 10 ^ e ≠ 0 := (Nat.mul_pos hpos (Nat.pow_pos (by decide))).ne'
  obtain ⟨fuel, hfuel⟩ := Nat.exists_eq_add_of_lt he
  have hstrip : stripZeros 9 (m * 10 ^ e) 0 = (m, e) := by
    rw [hfuel, Nat.add_assoc, stripZeros_mul_pow, stripZeros_of_last hm, Nat.zero_add]
  rw [compressedAmount, if_neg hne, hstrip]
  exact if_pos he

theorem compressedAmount_mul_pow_nine {m : Nat} (hm : 0 < m) :
    compressedAmount (m * 10 ^ 9) = 1 + (m - 1) * 10 + 9 := by
  have hne : m * 10 ^ 9 ≠ 0 := by omega
  have hstrip : stripZeros 9 (m * 10 ^ 9) 0 = (m, 9) := stripZeros_mul_pow m 9 0 0
  rw [compressedAmount, if_neg hne, hstrip]
  rfl

-- Without a bound on the words, compressing undoes decompressing for every number.
theorem compressedAmount_decompressedAmount (x : Nat) :
    compressedAmount (decompressedAmount x) = x := by
  by_cases hx : x = 0
  · subst hx
    rfl
  simp only [decompressedAmount, hx, if_false]
  obtain ⟨y, rfl⟩ := Nat.exists_eq_succ_of_ne_zero hx
  have hpred : y.succ - 1 = y := rfl
  rw [hpred]
  split
  · rename_i he
    obtain ⟨q, hq⟩ : ∃ q, q = y / 10 := ⟨_, rfl⟩
    rw [← hq]
    -- the last digit is between one and nine
    have hlast : (q / 9 * 10 + q % 9 + 1) % 10 = q % 9 + 1 := by omega
    have hrest : (q / 9 * 10 + q % 9 + 1) / 10 = q / 9 := by omega
    rw [compressedAmount_of_last (by omega) he, hlast, hrest]
    omega
  · have he : y % 10 = 9 := by omega
    rw [he, compressedAmount_mul_pow_nine (Nat.succ_pos _)]
    omega

theorem compressAmount_of_fits {x : Nat} (hx : x < 2 ^ 64) (hfits : decompressedAmount x < 2 ^ 64) :
    compressAmount (decompressAmount x) = x := by
  rw [decompressAmount_eq, Nat.mod_eq_of_lt hfits, compressAmount_eq,
    compressedAmount_decompressedAmount, Nat.mod_eq_of_lt hx]

theorem compression_bijective (params : ChainParams) :
    (∀ n < 2 ^ 64, compressedAmount n < 2 ^ 64 → decompressAmount (compressAmount n) = n) ∧
    (∀ n : Nat, n ≤ params.nMaxMoneyOut →
      compressedAmount n < 2 ^ 64 ∧ decompressAmount (compressAmount n) = n) ∧
    (∀ x < 2 ^ 64, decompressedAmount x < 2 ^ 64 → compressAmount (decompressAmount x) = x) := by
  refine ⟨fun n => decompressAmount_of_fits, ?_, fun x => compressAmount_of_fits⟩
  intro n hn
  have hmax := params.maxMoneyOut_lt
  have hfits : compressedAmount n < 2 ^ 64 := compressedAmount_lt (by omega)
  exact ⟨hfits, decompressAmount_of_fits (by omega) hfits⟩

theorem compression_bijective_coin :
    decompressAmount (compressAmount 5000000000) = 5000000000 ∧
      compressAmount (decompressAmount 50) = 50 :=
  ⟨(compression_bijective { hashGenesisBlock := 0 }).1 5000000000 (by decide) (by decide),
    (compression_bijective { hashGenesisBlock := 0 }).2.2 50 (by decide) (by decide)⟩

end AnkerNode.CTxOutCompressor
