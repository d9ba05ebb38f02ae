import AnkerNode.Lib.LimbDivision
import AnkerNode.Primitives.Transaction
import Mathlib.Data.Nat.Bitwise

namespace AnkerNode

def uint32 (n : Int) : Nat := (n % 2 ^ 32).toNat

theorem uint32_sub {m n : Nat} (hle : n ≤ m) (hm : m < 2 ^ 32) : uint32 ((m : Int) - n) = m - n := by
  rw [uint32]
  omega

theorem uint32_natCast {n : Nat} (hn : n < 2 ^ 32) : uint32 n = n := by
  rw [uint32]
  omega

namespace UInt256

def WIDTH : Nat := 8

def limbBase : Nat := 2 ^ 32

-- the words `pn` of a number
def limbs (x : UInt256) : List Nat := LimbArith.toLimbs limbBase WIDTH x.toNat

def ofLimbs (pn : List Nat) : UInt256 := BitVec.ofNat 256 (Nat.ofDigits limbBase pn)

-- the constructor from a 64-bit word, given a signed one
def ofInt64 (n : Int) : UInt256 := BitVec.ofNat 256 (BitVec.ofInt 64 n).toNat

def bits (x : UInt256) : Nat := x.toNat.size

-- `operator*=` with a 32-bit word, given a signed 64-bit one
def mulWord (x : UInt256) (n : Int) : UInt256 :=
  ofLimbs (LimbArith.mulLimb limbBase (BitVec.ofInt 32 n).toNat 0 x.limbs)

-- `operator*=` with a number
def mul (x y : UInt256) : UInt256 :=
  ofLimbs (LimbArith.mulLimbs limbBase y.limbs x.limbs (List.replicate WIDTH 0))

-- `operator<<=`
def shl (x : UInt256) (shift : Nat) : UInt256 := ofLimbs (LimbArith.shiftLeft 32 shift x.limbs)

-- `operator/=`, which throws when the divisor is zero
def divide (x y : UInt256) : Option UInt256 :=
  if y.bits = 0 then none else some (BitVec.ofNat 256 (LimbArith.divide x.toNat y.toNat))

def setCompact (nCompact : UInt32) : UInt256 :=
  let nSize := nCompact.toNat >>> 24
  let nWord := nCompact.toNat &&& 0x007fffff
  if nSize ≤ 3 then BitVec.ofNat 256 (nWord >>> (8 * (3 - nSize)))
  else BitVec.ofNat 256 nWord <<< (8 * (nSize - 3))

-- the word of a compact number that is shifted into place
def compactWord (nCompact : UInt32) : Nat :=
  let nSize := nCompact.toNat >>> 24
  let nWord := nCompact.toNat &&& 0x007fffff
  if nSize ≤ 3 then nWord >>> (8 * (3 - nSize)) else nWord

-- `fNegative` and `fOverflow` of `SetCompact`
def compactNegative (nCompact : UInt32) : Bool :=
  compactWord nCompact != 0 && nCompact.toNat &&& 0x00800000 != 0

def compactOverflow (nCompact : UInt32) : Bool :=
  let nSize := nCompact.toNat >>> 24
  let nWord := compactWord nCompact
  nWord != 0 && (decide (34 < nSize) || (decide (0xff < nWord) && decide (33 < nSize)) ||
    (decide (0xffff < nWord) && decide (32 < nSize)))

-- the size and the word that `GetCompact` packs
def compactParts (x : UInt256) : Nat × Nat :=
  let nSize := (x.bits + 7) / 8
  let nCompact :=
    if nSize ≤ 3 then x.toNat <<< (8 * (3 - nSize)) else (x >>> (8 * (nSize - 3))).toNat
  if nCompact &&& 0x00800000 ≠ 0 then (nSize + 1, nCompact >>> 8) else (nSize, nCompact)

def getCompact (x : UInt256) : UInt32 :=
  UInt32.ofNat (x.compactParts.2 ||| x.compactParts.1 <<< 24)

theorem toNat_ofInt64 {n : Int} (h : 0 ≤ n) (hlt : n < 2 ^ 64) : (ofInt64 n).toNat = n.toNat := by
  rw [ofInt64, BitVec.toNat_ofNat, BitVec.toNat_ofInt]
  omega

theorem limbs_lt (x : UInt256) : ∀ d ∈ x.limbs, d < limbBase :=
  LimbArith.toLimbs_lt (by decide) WIDTH x.toNat

theorem ofDigits_limbs (x : UInt256) : Nat.ofDigits limbBase x.limbs = x.toNat := by
  rw [limbs, LimbArith.ofDigits_toLimbs]
  exact Nat.mod_eq_of_lt x.isLt

theorem length_limbs (x : UInt256) : x.limbs.length = WIDTH := LimbArith.length_toLimbs ..

theorem mulWord_eq (x : UInt256) (n : Int) :
    x.mulWord n = BitVec.ofNat 256 (x.toNat * (BitVec.ofInt 32 n).toNat) := by
  have hword : (BitVec.ofInt 32 n).toNat < limbBase := (BitVec.ofInt 32 n).isLt
  rw [mulWord, ofLimbs, LimbArith.ofDigits_mulLimb hword x.limbs_lt (by decide), ofDigits_limbs,
    length_limbs, Nat.zero_add, Nat.mul_comm]
  apply BitVec.eq_of_toNat_eq
  rw [BitVec.toNat_ofNat, BitVec.toNat_ofNat]
  exact Nat.mod_mod _ _

theorem toNat_mulWord {n : Int} (h : 0 ≤ n) (hlt : n < 2 ^ 32) (x : UInt256) :
    (x.mulWord n).toNat = x.toNat * n.toNat % 2 ^ 256 := by
  have hword : (BitVec.ofInt 32 n).toNat = n.toNat := by
    rw [BitVec.toNat_ofInt]
    omega
  rw [mulWord_eq, BitVec.toNat_ofNat, hword]

-- The loops over the words multiply modulo 2^256.
theorem mul_eq (x y : UInt256) : x.mul y = x * y := by
  have hzeros : ∀ d ∈ List.replicate WIDTH 0, d < limbBase := by decide
  have hempty : Nat.ofDigits limbBase (List.replicate WIDTH 0) = 0 := by decide
  have hlength : (List.replicate WIDTH 0).length = WIDTH := List.length_replicate
  have hvalue := LimbArith.ofDigits_mulLimbs x.limbs_lt hzeros y.limbs_lt
    (by rw [length_limbs, hlength]) (by rw [length_limbs, hlength])
  rw [hempty, Nat.zero_add, ofDigits_limbs, ofDigits_limbs, hlength] at hvalue
  apply BitVec.eq_of_toNat_eq
  rw [mul, ofLimbs, hvalue, BitVec.toNat_ofNat, BitVec.toNat_mul]
  exact Nat.mod_mod _ _

theorem shl_eq (x : UInt256) (shift : Nat) : x.shl shift = x <<< shift := by
  have hvalue := LimbArith.ofDigits_shiftLeft (w := 32) (by decide) shift x.limbs_lt
  have hofDigits : Nat.ofDigits (2 ^ 32) x.limbs = x.toNat := ofDigits_limbs x
  rw [hofDigits, length_limbs] at hvalue
  apply BitVec.eq_of_toNat_eq
  rw [shl, ofLimbs, limbBase, hvalue, BitVec.toNat_ofNat, BitVec.toNat_shiftLeft, Nat.shiftLeft_eq]
  exact Nat.mod_mod _ _

theorem divide_eq {y : UInt256} (hy : 0 < y.toNat) (x : UInt256) : x.divide y = some (x / y) := by
  have hbits : y.bits ≠ 0 := by
    have hsize : 0 < y.toNat.size := Nat.size_pos.mpr hy
    exact hsize.ne'
  rw [divide, if_neg hbits, LimbArith.divide_eq hy]
  apply congrArg some
  apply BitVec.eq_of_toNat_eq
  rw [BitVec.toNat_ofNat, BitVec.toNat_udiv]
  exact Nat.mod_eq_of_lt ((Nat.div_le_self _ _).trans_lt x.isLt)

theorem divide_ofInt64 {n : Int} (h : 0 < n) (hlt : n < 2 ^ 64) (x : UInt256) :
    ∃ z : UInt256, x.divide (ofInt64 n) = some z ∧ z.toNat = x.toNat / n.toNat := by
  have hn := toNat_ofInt64 h.le hlt
  refine ⟨x / ofInt64 n, divide_eq (by omega) x, ?_⟩
  rw [BitVec.toNat_udiv, hn]

-- the places that the compact form of a number with `n` of them loses
def compactDrop (n : Nat) : Nat := 8 * (n / 8 - 2)

theorem compactDrop_le (n : Nat) : compactDrop n ≤ n - 1 := by
  rw [compactDrop]
  omega

def compactRound (n : Nat) : Nat := RoundDown.roundDown compactDrop n

theorem and_signBit_ne_zero {m : Nat} (h : m.size ≤ 24) : m &&& 0x00800000 ≠ 0 ↔ m.size = 24 := by
  have hbit : (m &&& 2 ^ 23) = (m.testBit 23).toNat * 2 ^ 23 := Nat.and_two_pow m 23
  have hsign : (0x00800000 : Nat) = 2 ^ 23 := by decide
  rw [hsign, hbit, RoundDown.testBit_top h]
  by_cases h24 : m.size = 24
  · simp [h24]
  · have hlt : ¬ 23 < m.size := by omega
    simp [h24, hlt]

-- With the sign bit kept clear the size is one more than that of the number without its top bit.
theorem compactParts_eq {x : UInt256} (hx : 0 < x.bits) :
    x.compactParts = (x.bits / 8 + 1,
      if x.bits / 8 + 1 ≤ 3 then x.toNat <<< (8 * (3 - (x.bits / 8 + 1)))
      else x.toNat >>> (8 * (x.bits / 8 + 1 - 3))) := by
  have hne : x.toNat ≠ 0 := (Nat.size_pos.mp hx).ne'
  obtain ⟨n, hn⟩ : ∃ n, n = (x.bits + 7) / 8 := ⟨_, rfl⟩
  obtain ⟨m, hm⟩ : ∃ m, m = if n ≤ 3 then x.toNat <<< (8 * (3 - n))
      else (x >>> (8 * (n - 3))).toNat := ⟨_, rfl⟩
  have hsize : m.size = x.bits + 24 - 8 * n := by
    rw [hm]
    split
    · rw [Nat.size_shiftLeft hne]
      simp only [bits] at hn ⊢
      omega
    · rw [BitVec.toNat_ushiftRight, RoundDown.size_shiftRight]
      simp only [bits] at hn ⊢
      omega
  have hparts : x.compactParts =
      if m &&& 0x00800000 ≠ 0 then (n + 1, m >>> 8) else (n, m) := by
    rw [compactParts, hm, hn]
  simp only [hparts, and_signBit_ne_zero (m := m) (by omega)]
  split
  · have hbits : x.bits / 8 + 1 = n + 1 := by omega
    rw [hbits, hm]
    by_cases h2 : n + 1 ≤ 3
    · have hshift : 8 * (3 - n) = 8 * (3 - (n + 1)) + 8 := by omega
      rw [if_pos (by omega), if_pos h2, hshift, Nat.shiftLeft_add, Nat.shiftLeft_shiftRight]
    · rw [if_neg h2]
      split
      · have h3 : n = 3 := by omega
        subst h3
        rfl
      · have hshift : 8 * (n + 1 - 3) = 8 * (n - 3) + 8 := by omega
        rw [hshift, BitVec.toNat_ushiftRight, Nat.shiftRight_add]
  · have hbits : x.bits / 8 + 1 = n := by omega
    rw [hbits, hm, BitVec.toNat_ushiftRight]

theorem size_compactWord {x : UInt256} (hx : 0 < x.bits) : x.compactParts.2.size ≤ 23 := by
  have hne : x.toNat ≠ 0 := (Nat.size_pos.mp hx).ne'
  have hbits : x.toNat.size = x.bits := rfl
  rw [compactParts_eq hx]
  split
  · rw [Nat.size_shiftLeft hne]
    omega
  · rw [RoundDown.size_shiftRight]
    omega

theorem toNat_getCompact {x : UInt256} (hx : 0 < x.bits) :
    x.getCompact.toNat = 2 ^ 24 * (x.bits / 8 + 1) + x.compactParts.2 := by
  have hword : x.compactParts.2 < 2 ^ 23 := Nat.size_le.mp (size_compactWord hx)
  have hbits : x.bits ≤ 256 := Nat.size_le.mpr x.isLt
  have hsize : x.compactParts.1 = x.bits / 8 + 1 := by rw [compactParts_eq hx]
  rw [getCompact, hsize, UInt32.toNat_ofNat', Nat.lor_comm, Nat.shiftLeft_eq,
    Nat.mul_comm _ (2 ^ 24), ← Nat.two_pow_add_eq_or_of_lt (by omega)]
  omega

-- Packing a number and unpacking it rounds it down to the precision of the compact form.
theorem toNat_setCompact_getCompact (x : UInt256) :
    (setCompact x.getCompact).toNat = compactRound x.toNat := by
  by_cases hx : x.bits = 0
  · have hzero : x = 0 := BitVec.eq_of_toNat_eq (Nat.size_eq_zero.mp hx)
    subst hzero
    decide +kernel
  · have hpos : 0 < x.bits := Nat.pos_of_ne_zero hx
    have hword : x.compactParts.2 < 2 ^ 23 := Nat.size_le.mp (size_compactWord hpos)
    have hmask : (0x007fffff : Nat) = 2 ^ 23 - 1 := by decide
    have hhigh : (2 ^ 24 * (x.bits / 8 + 1) + x.compactParts.2) >>> 24 = x.bits / 8 + 1 := by
      rw [Nat.shiftRight_eq_div_pow]
      omega
    have hlow : (2 ^ 24 * (x.bits / 8 + 1) + x.compactParts.2) % 2 ^ 23 = x.compactParts.2 := by
      omega
    simp only [setCompact, toNat_getCompact hpos, hhigh, hmask, Nat.and_two_pow_sub_one_eq_mod, hlow]
    have hparts : x.compactParts.2 = if x.bits / 8 + 1 ≤ 3 then
        x.toNat <<< (8 * (3 - (x.bits / 8 + 1))) else x.toNat >>> (8 * (x.bits / 8 + 1 - 3)) := by
      rw [compactParts_eq hpos]
    have hbits : x.toNat.size = x.bits := rfl
    have hround := RoundDown.roundDown_le compactDrop x.toNat
    rw [compactRound, hparts]
    split
    · have hdrop : compactDrop x.toNat.size = 0 := by
        rw [compactDrop]
        omega
      rw [Nat.shiftLeft_shiftRight, BitVec.toNat_ofNat, Nat.mod_eq_of_lt x.isLt,
        RoundDown.roundDown, hdrop]
      rfl
    · have hdrop : 8 * (x.bits / 8 + 1 - 3) = compactDrop x.toNat.size := by
        rw [compactDrop]
        omega
      have hshift : x.toNat >>> compactDrop x.toNat.size < 2 ^ 256 :=
        (Nat.shiftRight_le _ _).trans_lt x.isLt
      rw [hdrop, BitVec.toNat_shiftLeft, BitVec.toNat_ofNat, Nat.mod_eq_of_lt hshift]
      exact Nat.mod_eq_of_lt (hround.trans_lt x.isLt)

theorem bits_eq_zero_iff {x : UInt256} : x.bits = 0 ↔ x = 0 := by
  rw [bits, Nat.size_eq_zero, ← BitVec.toNat_inj]
  rfl

-- `operator/=` over the words
def divideWords (x y : UInt256) : Option UInt256 :=
  (LimbArith.divideLimbs 32 WIDTH x.limbs y.limbs).map ofLimbs

theorem divideWords_eq (x y : UInt256) : x.divideWords y = x.divide y := by
  have hdivide := LimbArith.divideLimbs_eq (w := 32) (by decide) x.limbs_lt y.limbs_lt
    x.length_limbs y.length_limbs
  have hvalue : ∀ z : UInt256, Nat.ofDigits (2 ^ 32) z.limbs = z.toNat := ofDigits_limbs
  rw [hvalue, hvalue] at hdivide
  have hofLimbs : ofLimbs = BitVec.ofNat 256 ∘ Nat.ofDigits (2 ^ 32) := rfl
  rw [divideWords, hofLimbs, ← Option.map_map, hdivide, divide, bits]
  by_cases hzero : y.toNat = 0
  · rw [if_pos hzero, hzero, if_pos Nat.size_zero]
    rfl
  · rw [if_neg hzero, if_neg (fun h => hzero (Nat.size_eq_zero.mp h))]
    rfl

theorem divideWords_eq_none_iff (x y : UInt256) : x.divideWords y = none ↔ y = 0 := by
  rw [divideWords_eq, divide, ← bits_eq_zero_iff]
  split
  · rename_i hy
    exact iff_of_true rfl hy
  · rename_i hy
    exact iff_of_false (by simp) hy

theorem divideWords_exact {y : UInt256} (hy : y ≠ 0) (x : UInt256) :
    ∃ q : UInt256, x.divideWords y = some q ∧ q.toNat = x.toNat / y.toNat := by
  have hpos : 0 < y.toNat := by
    apply Nat.pos_of_ne_zero
    exact fun h => hy (BitVec.eq_of_toNat_eq h)
  exact ⟨x / y, by rw [divideWords_eq, divide_eq hpos], BitVec.toNat_udiv⟩

theorem mulWord_eq_mul {n : Nat} (hn : n < 2 ^ 32) (x : UInt256) :
    x.mulWord n = x.mul (BitVec.ofNat 256 n) := by
  have hword : (BitVec.ofInt 32 (n : Int)).toNat = n := by
    rw [BitVec.toNat_ofInt]
    omega
  rw [mulWord_eq, mul_eq, hword]
  apply BitVec.eq_of_toNat_eq
  rw [BitVec.toNat_ofNat, BitVec.toNat_mul, BitVec.toNat_ofNat, Nat.mul_mod_mod]

theorem arithmetic_exact (a b : UInt256) (b32 : UInt32) :
    (b ≠ 0 → ∃ q : UInt256, a.divideWords b = some q ∧ q.toNat = a.toNat / b.toNat) ∧
    (a.divideWords b = none ↔ b = 0) ∧
    (a.mul b).toNat = a.toNat * b.toNat % 2 ^ 256 ∧
    (a.mulWord b32.toNat).toNat = a.toNat * b32.toNat % 2 ^ 256 ∧
    (b.toNat < 2 ^ 32 → a.mulWord b.toNat = a.mul b) := by
  have hb32 := b32.toNat_lt
  refine ⟨fun hb => divideWords_exact hb a, divideWords_eq_none_iff a b, ?_, ?_, ?_⟩
  · rw [mul_eq, BitVec.toNat_mul]
  · exact toNat_mulWord (by omega) (by omega) a
  · intro hb
    rw [mulWord_eq_mul hb, BitVec.ofNat_toNat, BitVec.setWidth_eq]

theorem arithmetic_exact_words :
    ∃ q : UInt256, divideWords (BitVec.ofNat 256 (2 ^ 200 + 5)) (BitVec.ofNat 256 (2 ^ 100)) = some q ∧
      q.toNat = (2 ^ 200 + 5) / 2 ^ 100 :=
  (arithmetic_exact (BitVec.ofNat 256 (2 ^ 200 + 5)) (BitVec.ofNat 256 (2 ^ 100)) 0).1 (by decide)

end UInt256

end AnkerNode
