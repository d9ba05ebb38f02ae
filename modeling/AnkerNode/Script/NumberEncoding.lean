import AnkerNode.Script.Opcodes
import Mathlib.Data.Nat.Bitwise

namespace AnkerNode

section Bytes

variable (b : UInt8)

theorem signBit_eq_zero_iff : b &&& 0x80 = 0 ↔ b.toNat < 128 := by
  have hb := b.toNat_lt
  have hmask : (0x80 : UInt8).toNat = 2 ^ 7 := rfl
  have hbit : b.toNat.testBit 7 = decide (128 ≤ b.toNat) := by
    rw [Nat.testBit_eq_decide_div_mod_eq, decide_eq_decide]
    omega
  rw [← UInt8.toNat_inj, UInt8.toNat_and, hmask, Nat.and_two_pow, hbit]
  by_cases hlt : 128 ≤ b.toNat
  · simp [hlt]
  · simp [hlt, Nat.not_le.mp hlt]

theorem toNat_and_magnitude : (b &&& 0x7f).toNat = b.toNat % 128 := by
  have hmask : (0x7f : UInt8).toNat = 2 ^ 7 - 1 := rfl
  rw [UInt8.toNat_and, hmask, Nat.and_two_pow_sub_one_eq_mod]

theorem magnitude_eq_zero_iff : b &&& 0x7f = 0 ↔ b.toNat % 128 = 0 := by
  rw [← UInt8.toNat_inj, toNat_and_magnitude]
  rfl

theorem toNat_or_signBit {b : UInt8} (hb : b.toNat < 128) : (b ||| 0x80).toNat = b.toNat + 128 := by
  have hmask : (0x80 : UInt8).toNat = 2 ^ 7 * 1 := rfl
  rw [UInt8.toNat_or, hmask, Nat.lor_comm, ← Nat.two_pow_add_eq_or_of_lt hb, Nat.add_comm]

end Bytes

theorem littleEndian_cons (b : UInt8) (bytes : List UInt8) :
    littleEndian (b :: bytes) = b.toNat + 256 * littleEndian bytes := by
  rw [littleEndian, List.map_cons, Nat.ofDigits_cons]
  rfl

theorem littleEndian_singleton (b : UInt8) : littleEndian [b] = b.toNat := by
  rw [littleEndian_cons]
  rfl

theorem littleEndian_append (xs ys : List UInt8) :
    littleEndian (xs ++ ys) = littleEndian xs + 256 ^ xs.length * littleEndian ys := by
  rw [littleEndian, List.map_append, Nat.ofDigits_append, List.length_map]
  rfl

theorem littleEndian_lt (bytes : List UInt8) : littleEndian bytes < 256 ^ bytes.length := by
  induction bytes with
  | nil => decide
  | cons b bytes ih =>
    have hb := b.toNat_lt
    rw [littleEndian_cons, List.length_cons, Nat.pow_succ']
    omega

namespace CScriptNum

theorem littleEndian_magnitude {fuel n : Nat} (hn : n < 256 ^ fuel) :
    littleEndian (magnitude fuel n) = n := by
  induction fuel generalizing n with
  | zero =>
    rw [Nat.pow_zero] at hn
    rw [magnitude]
    exact (Nat.lt_one_iff.mp hn).symm
  | succ fuel ih =>
    rw [Nat.pow_succ'] at hn
    rw [magnitude]
    split
    · rename_i h0
      exact h0.symm
    · rw [littleEndian_cons, ih (Nat.div_lt_of_lt_mul hn), UInt8.toNat_ofNat', Nat.mod_mod]
      exact Nat.mod_add_div n 256

-- Bytes whose highest is not zero are the digits of the number that they hold.
theorem magnitude_littleEndian (fuel : Nat) (xs : List UInt8) {b : UInt8} (hb : b ≠ 0)
    (hfuel : xs.length < fuel) : magnitude fuel (littleEndian (xs ++ [b])) = xs ++ [b] := by
  have hbpos : 0 < b.toNat := by
    apply Nat.pos_of_ne_zero
    exact fun h => hb (UInt8.toNat_inj.mp h)
  induction xs generalizing fuel with
  | nil =>
    obtain ⟨fuel, rfl⟩ := Nat.exists_eq_succ_of_ne_zero (Nat.ne_of_gt hfuel)
    have hlt := b.toNat_lt
    have hdigit : b.toNat % 256 = b.toNat := Nat.mod_eq_of_lt hlt
    have hrest : b.toNat / 256 = 0 := Nat.div_eq_of_lt hlt
    have hend : magnitude fuel 0 = [] := by cases fuel <;> rfl
    rw [List.nil_append, littleEndian_singleton, Nat.succ_eq_add_one, magnitude, if_neg hbpos.ne',
      hdigit, hrest, hend, UInt8.ofNat_toNat]
  | cons x xs ih =>
    obtain ⟨fuel, rfl⟩ := Nat.exists_eq_succ_of_ne_zero (Nat.ne_of_gt (Nat.zero_lt_of_lt hfuel))
    have hx := x.toNat_lt
    have hrest : 0 < littleEndian (xs ++ [b]) := by
      rw [littleEndian_append, littleEndian_singleton]
      exact Nat.add_pos_right _ (Nat.mul_pos (Nat.pow_pos (by decide)) hbpos)
    have hdigit : (x.toNat + 256 * littleEndian (xs ++ [b])) % 256 = x.toNat := by omega
    have hquot : (x.toNat + 256 * littleEndian (xs ++ [b])) / 256 = littleEndian (xs ++ [b]) := by
      omega
    rw [List.cons_append, littleEndian_cons, Nat.succ_eq_add_one, magnitude, if_neg (by omega),
      hdigit, hquot, ih _ (Nat.lt_of_succ_lt_succ hfuel), UInt8.ofNat_toNat]

theorem magnitude_cases (fuel : Nat) {n : Nat} (hn : n < 256 ^ fuel) :
    magnitude fuel n = [] ∧ n = 0 ∨ ∃ xs b, b ≠ 0 ∧ xs.length < fuel ∧
      magnitude fuel n = xs ++ [b] ∧ n = littleEndian (xs ++ [b]) := by
  induction fuel generalizing n with
  | zero => exact .inl ⟨rfl, by omega⟩
  | succ fuel ih =>
    by_cases h0 : n = 0
    · exact .inl ⟨by rw [magnitude, if_pos h0], h0⟩
    have hvalue := littleEndian_magnitude hn
    rw [Nat.pow_succ'] at hn
    have hdigits : magnitude (fuel + 1) n = UInt8.ofNat (n % 256) :: magnitude fuel (n / 256) := by
      rw [magnitude, if_neg h0]
    right
    rcases ih (Nat.div_lt_of_lt_mul hn) with ⟨hnil, hquot⟩ | ⟨xs, b, hb, hlength, heq, -⟩
    · rw [hnil] at hdigits
      refine ⟨[], UInt8.ofNat (n % 256), ?_, Nat.succ_pos fuel, hdigits, ?_⟩
      · intro hzero
        have hdigit := congrArg UInt8.toNat hzero
        rw [UInt8.toNat_ofNat', Nat.mod_mod] at hdigit
        exact h0 (by simp only [UInt8.toNat_zero] at hdigit; omega)
      · rw [hdigits] at hvalue
        exact hvalue.symm
    · rw [heq] at hdigits
      rw [hdigits] at hvalue
      exact ⟨UInt8.ofNat (n % 256) :: xs, b, hb, Nat.succ_lt_succ hlength, hdigits, hvalue.symm⟩

-- The highest byte holds the sign in its top bit.
theorem setVch_concat (xs : List UInt8) (b : UInt8) :
    setVch (xs ++ [b]) =
      if b.toNat < 128 then (littleEndian (xs ++ [b]) : Int)
      else -(littleEndian xs + 256 ^ xs.length * (b.toNat % 128) : Nat) := by
  have hlast : (xs ++ [b]).getLastD 0 = b := by simp [List.getLastD_eq_getLast?]
  have hlength : (xs ++ [b]).length - 1 = xs.length := by simp
  simp only [setVch, hlast, hlength, bne_iff_ne, ne_eq, signBit_eq_zero_iff]
  by_cases hb : b.toNat < 128
  · rw [if_neg (not_not.mpr hb), if_pos hb]
  · have hlt := b.toNat_lt
    have hsplit : b.toNat = 128 + b.toNat % 128 := by omega
    rw [if_pos hb, if_neg hb, littleEndian_append, littleEndian_singleton]
    generalize b.toNat % 128 = r at hsplit
    rw [hsplit]
    push_cast
    ring

theorem natAbs_setVch_le (vch : Valtype) : (setVch vch).natAbs ≤ littleEndian vch := by
  rcases List.eq_nil_or_concat' vch with rfl | ⟨xs, b, rfl⟩
  · decide
  · rw [setVch_concat]
    split
    · exact Nat.le_refl _
    · have hvalue : littleEndian [b] = b.toNat := by simp [littleEndian]
      rw [Int.natAbs_neg, Int.natAbs_natCast, littleEndian_append, littleEndian_singleton]
      exact Nat.add_le_add_left (Nat.mul_le_mul_left _ (Nat.mod_le _ _)) _

theorem isMinimal_concat (xs : List UInt8) (b : UInt8) :
    isMinimal (xs ++ [b]) = true ↔ b.toNat % 128 ≠ 0 ∨ 128 ≤ (xs.getLastD 0).toNat := by
  have hhead : xs.reverse.headD 0 = xs.getLastD 0 := by
    rw [List.getLastD_eq_getLast?, List.headD_eq_head?_getD, List.head?_reverse]
  simp only [isMinimal, List.reverse_append, List.reverse_singleton, List.singleton_append, hhead,
    Bool.or_eq_true, bne_iff_ne, ne_eq, magnitude_eq_zero_iff, signBit_eq_zero_iff, Nat.not_lt]

-- With the highest byte of the magnitude below 0x80, that byte takes the sign.
theorem serialize_of_low {n : Int} {xs : List UInt8} {b : UInt8}
    (hn : magnitude 8 n.natAbs = xs ++ [b]) (hb : b.toNat < 128) :
    serialize n = xs ++ [if n < 0 then b ||| 0x80 else b] := by
  have hlast : (xs ++ [b]).getLast? = some b := by simp
  have hclear : b &&& 0x80 = 0 := (signBit_eq_zero_iff b).mpr hb
  simp only [serialize, hn, hlast, hclear, ne_eq, not_true_eq_false, if_false, List.dropLast_concat]
  split
  · rfl
  · rfl

-- Else one more byte holds it.
theorem serialize_of_high {n : Int} {xs : List UInt8} {b : UInt8}
    (hn : magnitude 8 n.natAbs = xs ++ [b]) (hb : 128 ≤ b.toNat) :
    serialize n = xs ++ [b] ++ [if n < 0 then 0x80 else 0] := by
  have hlast : (xs ++ [b]).getLast? = some b := by simp
  have hset : b &&& 0x80 ≠ 0 := by
    rw [ne_eq, signBit_eq_zero_iff]
    omega
  simp only [serialize, hn, hlast, hset, ne_eq, not_false_eq_true, if_true]

-- What is serialized is minimal and reads back.
theorem decode_serialize {n : Int} (hn : n.natAbs < 2 ^ 64) :
    isMinimal (serialize n) = true ∧ setVch (serialize n) = n := by
  rcases magnitude_cases 8 hn with ⟨hnil, h0⟩ | ⟨xs, b, hb, -, heq, hvalue⟩
  · obtain rfl := Int.natAbs_eq_zero.mp h0
    exact ⟨rfl, rfl⟩
  have hbpos : b.toNat ≠ 0 := fun h => hb (UInt8.toNat_inj.mp h)
  by_cases hlow : b.toNat < 128
  · have hmod : b.toNat % 128 = b.toNat := Nat.mod_eq_of_lt hlow
    rw [serialize_of_low heq hlow, isMinimal_concat, setVch_concat]
    by_cases hneg : n < 0
    · have hor := toNat_or_signBit hlow
      have hmod' : (b.toNat + 128) % 128 = b.toNat := by omega
      rw [if_pos hneg, hor, hmod', if_neg (by omega)]
      refine ⟨.inl hbpos, ?_⟩
      rw [littleEndian_append, littleEndian_singleton] at hvalue
      rw [← hvalue]
      omega
    · rw [if_neg hneg, hmod, if_pos hlow, ← hvalue]
      exact ⟨.inl hbpos, by omega⟩
  · have hlast : (xs ++ [b]).getLastD 0 = b := by simp [List.getLastD_eq_getLast?]
    rw [serialize_of_high heq (by omega), isMinimal_concat, setVch_concat, hlast]
    refine ⟨.inr (by omega), ?_⟩
    by_cases hneg : n < 0
    · have hsign : (0x80 : UInt8).toNat = 128 := rfl
      rw [if_pos hneg, hsign, if_neg (by decide), Nat.mod_self, Nat.mul_zero, Nat.add_zero, ← hvalue]
      omega
    · have hsign : (0 : UInt8).toNat = 0 := rfl
      rw [if_neg hneg, hsign, if_pos (by decide), littleEndian_append (xs ++ [b]), littleEndian_singleton, hsign,
        Nat.mul_zero, Nat.add_zero, ← hvalue]
      omega

theorem littleEndian_concat_pos (xs : List UInt8) {c : UInt8} (hc : c ≠ 0) :
    0 < littleEndian (xs ++ [c]) := by
  have hpos : c.toNat ≠ 0 := fun h => hc (UInt8.toNat_inj.mp h)
  rw [littleEndian_append, littleEndian_singleton]
  exact Nat.add_pos_right _ (Nat.mul_pos (Nat.pow_pos (by decide)) (Nat.pos_of_ne_zero hpos))

-- The last byte holds the sign only, so the byte below it has its top bit set.
theorem serialize_decode_of_sign {xs : List UInt8} {c b : UInt8} (hlength : xs.length < 8)
    (htop : 128 ≤ c.toNat) (hb : b.toNat % 128 = 0) :
    serialize (setVch (xs ++ [c] ++ [b])) = xs ++ [c] ++ [b] := by
  have hbound := b.toNat_lt
  have hread := setVch_concat (xs ++ [c]) b
  have hc : c ≠ 0 := by
    rintro rfl
    exact absurd htop (by decide)
  have hmagnitude := magnitude_littleEndian 8 xs hc hlength
  have hpos := littleEndian_concat_pos xs hc
  rw [hb, Nat.mul_zero, Nat.add_zero, littleEndian_append _ [b], littleEndian_singleton] at hread
  by_cases hsign : b.toNat < 128
  · obtain rfl : b = 0 := UInt8.toNat_inj.mp (by simp only [UInt8.toNat_zero]; omega)
    rw [if_pos hsign, UInt8.toNat_zero, Nat.mul_zero, Nat.add_zero] at hread
    rw [hread, serialize_of_high (n := (littleEndian (xs ++ [c]) : Nat)) hmagnitude htop,
      if_neg (by omega)]
  · obtain rfl : b = 0x80 := UInt8.toNat_inj.mp (by change b.toNat = 128; omega)
    rw [if_neg hsign] at hread
    rw [hread, serialize_of_high (by rw [Int.natAbs_neg]; exact hmagnitude) htop, if_pos (by omega)]

-- The last byte holds digits: without the sign it is the highest one of the number.
theorem serialize_decode_of_digits {xs : List UInt8} {b : UInt8} (hlength : xs.length < 8)
    (hb : b.toNat % 128 ≠ 0) : serialize (setVch (xs ++ [b])) = xs ++ [b] := by
  have hbound := b.toNat_lt
  have hread := setVch_concat xs b
  obtain ⟨c, hc⟩ : ∃ c : UInt8, c.toNat = b.toNat % 128 := ⟨b &&& 0x7f, toNat_and_magnitude b⟩
  have hc0 : c ≠ 0 := by
    rintro rfl
    exact hb hc.symm
  have hlow : c.toNat < 128 := by omega
  have hmagnitude := magnitude_littleEndian 8 xs hc0 hlength
  have hpos := littleEndian_concat_pos xs hc0
  have hvalue : littleEndian (xs ++ [c]) = littleEndian xs + 256 ^ xs.length * (b.toNat % 128) := by
    rw [littleEndian_append, littleEndian_singleton, hc]
  by_cases hsign : b.toNat < 128
  · obtain rfl : c = b := UInt8.toNat_inj.mp (by omega)
    rw [if_pos hsign] at hread
    rw [hread, serialize_of_low (n := (littleEndian (xs ++ [c]) : Nat)) hmagnitude hlow,
      if_neg (by omega)]
  · have hor : c ||| 0x80 = b := by
      apply UInt8.toNat_inj.mp
      rw [toNat_or_signBit hlow]
      omega
    rw [if_neg hsign, ← hvalue] at hread
    rw [hread, serialize_of_low (by rw [Int.natAbs_neg]; exact hmagnitude) hlow, if_pos (by omega),
      hor]

-- A minimal string of at most eight bytes is what its number is serialized to.
theorem serialize_decode {vch : Valtype} (hlength : vch.length ≤ 8) (h : isMinimal vch = true) :
    serialize (setVch vch) = vch := by
  rcases List.eq_nil_or_concat' vch with rfl | ⟨xs, b, rfl⟩
  · rfl
  rw [List.length_append, List.length_singleton] at hlength
  by_cases hrest : b.toNat % 128 = 0
  · have htop : 128 ≤ (xs.getLastD 0).toNat :=
      ((isMinimal_concat xs b).mp h).resolve_left (not_not.mpr hrest)
    rcases List.eq_nil_or_concat' xs with rfl | ⟨ys, c, rfl⟩
    · exact absurd htop (by decide)
    have hlast : (ys ++ [c]).getLastD 0 = c := by simp [List.getLastD_eq_getLast?]
    rw [hlast] at htop
    rw [List.length_append, List.length_singleton] at hlength
    exact serialize_decode_of_sign (by omega) htop hrest
  · exact serialize_decode_of_digits (by omega) hrest

theorem serialize_length_le_eight {n : Int} (hlow : -2 ^ 63 < n) (hhigh : n < 2 ^ 63) :
    (serialize n).length ≤ 8 := by
  have hn : n.natAbs < 2 ^ 63 := by omega
  rcases magnitude_cases 8 (n := n.natAbs) (by omega) with
    ⟨-, h0⟩ | ⟨xs, b, -, hlength, heq, hvalue⟩
  · rw [Int.natAbs_eq_zero.mp h0]
    decide
  by_cases hb : b.toNat < 128
  · rw [serialize_of_low heq hb, List.length_append, List.length_singleton]
    omega
  · rw [littleEndian_append, littleEndian_singleton] at hvalue
    have hpow : 256 ^ xs.length * 128 < 256 ^ 7 * 128 := by
      calc 256 ^ xs.length * 128 ≤ 256 ^ xs.length * b.toNat := Nat.mul_le_mul_left _ (by omega)
        _ ≤ n.natAbs := by omega
        _ < 256 ^ 7 * 128 := hn
    have hxs : xs.length < 7 :=
      (Nat.pow_lt_pow_iff_right (by decide)).mp (Nat.lt_of_mul_lt_mul_right hpow)
    rw [serialize_of_high heq (by omega), List.length_append, List.length_append,
      List.length_singleton, List.length_singleton]
    omega

theorem ofVch_of_fits {vch : Valtype} {k : Nat} (hlength : vch.length ≤ k) (fRequireMinimal : Bool) :
    ofVch vch fRequireMinimal k =
      if fRequireMinimal && !isMinimal vch then none else some (setVch vch) := by
  rw [ofVch, if_neg (Nat.not_lt.mpr hlength)]

theorem minimal_form :
    (∀ (n : Int) (k : Nat), -2 ^ 63 < n → n < 2 ^ 63 → k ≤ 8 → (serialize n).length ≤ k →
      ofVch (serialize n) true k = some n) ∧
    (∀ (vch : Valtype) (k : Nat), k ≤ 8 → vch.length ≤ k → ∃ n,
      ofVch vch false k = some n ∧
      ofVch vch true k = if vch = serialize n then some n else none) := by
  constructor
  · intro n k hlow hhigh hk hlength
    obtain ⟨hminimal, hread⟩ := decode_serialize (n := n) (by omega)
    rw [ofVch_of_fits hlength, hminimal, hread]
    rfl
  · intro vch k hk hlength
    refine ⟨setVch vch, by rw [ofVch_of_fits hlength]; rfl, ?_⟩
    rw [ofVch_of_fits hlength]
    by_cases h : isMinimal vch = true
    · rw [h, serialize_decode (hlength.trans hk) h]
      simp
    · have hne : vch ≠ serialize (setVch vch) := by
        intro heq
        have hbound : (setVch vch).natAbs < 2 ^ 64 := by
          calc (setVch vch).natAbs ≤ littleEndian vch := natAbs_setVch_le vch
            _ < 256 ^ vch.length := littleEndian_lt vch
            _ ≤ 256 ^ 8 := Nat.pow_le_pow_right (by decide) (hlength.trans hk)
        rw [heq] at h
        exact h (decode_serialize hbound).1
      rw [if_neg hne]
      simp [h]

theorem minimal_form_negative :
    ofVch (serialize (-255)) true 2 = some (-255) ∧ ofVch [0xff, 0x00, 0x80] true 3 = none := by
  refine ⟨minimal_form.1 (-255) 2 (by decide) (by decide) (by decide) (by decide), ?_⟩
  obtain ⟨n, hn, hminimal⟩ := minimal_form.2 [0xff, 0x00, 0x80] 3 (by decide) (by decide)
  have hvalue : n = -255 := by
    rw [show ofVch [0xff, 0x00, 0x80] false 3 = some (-255) from rfl] at hn
    exact (Option.some.inj hn).symm
  subst hvalue
  rw [hminimal]
  decide

end CScriptNum

end AnkerNode
