import Mathlib.Data.Nat.Bitwise
import Mathlib.Data.Nat.Digits.Defs
import Mathlib.Data.Nat.Size

namespace LimbArith

-- the `w` lowest limbs of a number, the lowest first
def toLimbs (base : Nat) : Nat → Nat → List Nat
  | 0, _ => []
  | w + 1, x => x % base :: toLimbs base w (x / base)

@[simp] theorem length_toLimbs (base w x : Nat) : (toLimbs base w x).length = w := by
  induction w generalizing x with
  | zero => rfl
  | succ w ih => rw [toLimbs, List.length_cons, ih]

theorem toLimbs_lt {base : Nat} (hbase : 0 < base) (w x : Nat) :
    ∀ d ∈ toLimbs base w x, d < base := by
  induction w generalizing x with
  | zero => simp [toLimbs]
  | succ w ih =>
    rw [toLimbs, List.forall_mem_cons]
    exact ⟨Nat.mod_lt x hbase, ih (x / base)⟩

theorem ofDigits_toLimbs (base w x : Nat) :
    Nat.ofDigits base (toLimbs base w x) = x % base ^ w := by
  induction w generalizing x with
  | zero => simp [toLimbs, Nat.mod_one]
  | succ w ih => rw [toLimbs, Nat.ofDigits_cons, ih, Nat.pow_succ', Nat.mod_mul]

-- Multiplies limbs, the lowest first, by one more limb. The word that is split into a limb and a
-- carry is twice as wide as a limb.
def mulLimb (base b : Nat) : Nat → List Nat → List Nat
  | _, [] => []
  | carry, d :: ds =>
    let n := (carry + b * d) % (base * base)
    n % base :: mulLimb base b (n / base) ds

theorem word_lt {base b carry d : Nat} (hb : b < base) (hd : d < base) (hcarry : carry < base) :
    carry + b * d < base * base := by
  have hmul : b * d ≤ (base - 1) * (base - 1) := Nat.mul_le_mul (by omega) (by omega)
  obtain ⟨m, rfl⟩ : ∃ m, base = m + 1 := ⟨base - 1, by omega⟩
  simp only [Nat.add_sub_cancel] at hmul
  have hsquare : (m + 1) * (m + 1) = m * m + 2 * m + 1 := by ring
  omega

theorem ofDigits_mulLimb {base b : Nat} (hb : b < base) {ds : List Nat} {carry : Nat}
    (hds : ∀ d ∈ ds, d < base) (hcarry : carry < base) :
    Nat.ofDigits base (mulLimb base b carry ds) =
      (carry + b * Nat.ofDigits base ds) % base ^ ds.length := by
  induction ds generalizing carry with
  | nil => simp [mulLimb, Nat.mod_one]
  | cons d ds ih =>
    rw [List.forall_mem_cons] at hds
    have hword := word_lt hb hds.1 hcarry
    have hcarry' : (carry + b * d) / base < base := Nat.div_lt_of_lt_mul hword
    have hsum : carry + b * (d + base * Nat.ofDigits base ds) =
        carry + b * d + base * (b * Nat.ofDigits base ds) := by ring
    simp only [mulLimb, Nat.mod_eq_of_lt hword, Nat.ofDigits_cons, List.length_cons]
    rw [ih hds.2 hcarry', hsum, Nat.pow_succ', Nat.mod_mul, Nat.add_mul_mod_self_left,
      Nat.add_mul_div_left _ _ (by omega)]

-- One subtraction for every place of the quotient, the highest first. The quotient, with what is
-- left of `num`.
def divLoop : Nat → Nat → Nat → Nat → Nat × Nat
  | 0, num, _, q => (q, num)
  | shift + 1, num, div, q =>
    if div ≤ num then divLoop shift (num - div) (div >>> 1) (q ||| 1 <<< shift)
    else divLoop shift num (div >>> 1) q

theorem divLoop_eq {b : Nat} (hb : 0 < b) (n num a : Nat) (hnum : num < b * 2 ^ n) :
    divLoop n num (b * 2 ^ n / 2) (2 ^ n * a) = (2 ^ n * a + num / b, num % b) := by
  induction n generalizing num a with
  | zero =>
    rw [Nat.pow_zero, Nat.mul_one] at hnum
    simp [divLoop, Nat.div_eq_of_lt hnum, Nat.mod_eq_of_lt hnum]
  | succ n ih =>
    have hdiv : b * 2 ^ (n + 1) / 2 = b * 2 ^ n := by
      rw [Nat.pow_succ, ← Nat.mul_assoc, Nat.mul_div_cancel _ (by decide)]
    have hdouble : b * 2 ^ (n + 1) = b * 2 ^ n + b * 2 ^ n := by ring
    rw [hdiv, divLoop, Nat.shiftRight_one]
    split
    · rename_i hle
      have hq : 2 ^ (n + 1) * a ||| 1 <<< n = 2 ^ n * (2 * a + 1) := by
        rw [Nat.one_shiftLeft, ← Nat.two_pow_add_eq_or_of_lt (Nat.pow_lt_pow_right (by decide)
          (Nat.lt_add_one n)), Nat.pow_succ]
        ring
      have hquot : (num - b * 2 ^ n) / b = num / b - 2 ^ n := Nat.sub_mul_div ..
      have hrem : (num - b * 2 ^ n) % b = num % b := Nat.sub_mul_mod hle
      have hlow : 2 ^ n ≤ num / b := by
        rwa [Nat.le_div_iff_mul_le hb, Nat.mul_comm]
      rw [hq, ih _ _ (by omega), hquot, hrem]
      have htotal : 2 ^ n * (2 * a + 1) + (num / b - 2 ^ n) = 2 ^ (n + 1) * a + num / b := by
        rw [Nat.pow_succ, Nat.mul_add, Nat.mul_one, ← Nat.mul_assoc]
        omega
      rw [htotal]
    · have hq : 2 ^ (n + 1) * a = 2 ^ n * (2 * a) := by ring
      rw [hq, ih _ _ (by omega)]

def divide (num div : Nat) : Nat :=
  if num.size < div.size then 0
  else (divLoop (num.size - div.size + 1) num (div <<< (num.size - div.size)) 0).1

theorem divide_eq {num div : Nat} (hdiv : 0 < div) : divide num div = num / div := by
  have hsize : 0 < div.size := Nat.size_pos.mpr hdiv
  have hlow : 2 ^ (div.size - 1) ≤ div := Nat.lt_size.mp (by omega)
  rw [divide]
  split
  · rename_i hlt
    have hnum : num < 2 ^ (div.size - 1) := Nat.size_le.mp (by omega)
    exact (Nat.div_eq_of_lt (hnum.trans_le hlow)).symm
  · have hbound : num < div * 2 ^ (num.size - div.size + 1) := by
      calc num < 2 ^ num.size := Nat.lt_size_self num
        _ = 2 ^ (div.size - 1) * 2 ^ (num.size - div.size + 1) := by
          rw [← Nat.pow_add]
          congr 1
          omega
        _ ≤ div * 2 ^ (num.size - div.size + 1) := Nat.mul_le_mul_right _ hlow
    have hstart : div <<< (num.size - div.size) = div * 2 ^ (num.size - div.size + 1) / 2 := by
      rw [Nat.shiftLeft_eq, Nat.pow_succ, ← Nat.mul_assoc, Nat.mul_div_cancel _ (by decide)]
    have hloop := divLoop_eq hdiv _ num 0 hbound
    rw [Nat.mul_zero, Nat.zero_add] at hloop
    rw [hstart, hloop]

-- Adds the product of limbs and one more limb to the limbs of a sum, as far as the sum reaches.
def addMulLimb (base a : Nat) : Nat → List Nat → List Nat → List Nat
  | carry, s :: ss, d :: ds =>
    let n := (carry + s + a * d) % (base * base)
    n % base :: addMulLimb base a (n / base) ss ds
  | _, ss, _ => ss

theorem length_addMulLimb (base a carry : Nat) (ss ds : List Nat) :
    (addMulLimb base a carry ss ds).length = ss.length := by
  induction ss generalizing carry ds with
  | nil => rfl
  | cons s ss ih =>
    cases ds with
    | nil => rfl
    | cons d ds => rw [addMulLimb, List.length_cons, ih, List.length_cons]

theorem addMulLimb_lt {base : Nat} (hbase : 0 < base) (a carry : Nat) {ss ds : List Nat}
    (hss : ∀ s ∈ ss, s < base) : ∀ n ∈ addMulLimb base a carry ss ds, n < base := by
  induction ss generalizing carry ds with
  | nil => simp [addMulLimb]
  | cons s ss ih =>
    cases ds with
    | nil => exact hss
    | cons d ds =>
      rw [List.forall_mem_cons] at hss
      rw [addMulLimb, List.forall_mem_cons]
      exact ⟨Nat.mod_lt _ hbase, ih _ hss.2⟩

theorem sum_word_lt {base a carry s d : Nat} (ha : a < base) (hd : d < base) (hs : s < base)
    (hcarry : carry < base) : carry + s + a * d < base * base := by
  have hmul : a * d ≤ (base - 1) * (base - 1) := Nat.mul_le_mul (by omega) (by omega)
  obtain ⟨m, rfl⟩ : ∃ m, base = m + 1 := ⟨base - 1, by omega⟩
  simp only [Nat.add_sub_cancel] at hmul
  have hsquare : (m + 1) * (m + 1) = m * m + 2 * m + 1 := by ring
  omega

theorem ofDigits_addMulLimb {base a : Nat} (ha : a < base) {carry : Nat} {ss ds : List Nat}
    (hss : ∀ s ∈ ss, s < base) (hds : ∀ d ∈ ds, d < base) (hcarry : carry < base)
    (hlength : ss.length ≤ ds.length) :
    Nat.ofDigits base (addMulLimb base a carry ss ds) =
      (carry + Nat.ofDigits base ss + a * Nat.ofDigits base ds) % base ^ ss.length := by
  induction ss generalizing carry ds with
  | nil => simp [addMulLimb, Nat.mod_one]
  | cons s ss ih =>
    cases ds with
    | nil => simp at hlength
    | cons d ds =>
      rw [List.forall_mem_cons] at hss hds
      have hword := sum_word_lt ha hds.1 hss.1 hcarry
      have hcarry' : (carry + s + a * d) / base < base := Nat.div_lt_of_lt_mul hword
      have hsum : carry + (s + base * Nat.ofDigits base ss) + a * (d + base * Nat.ofDigits base ds) =
          carry + s + a * d + base * (Nat.ofDigits base ss + a * Nat.ofDigits base ds) := by ring
      simp only [addMulLimb, Nat.mod_eq_of_lt hword, Nat.ofDigits_cons, List.length_cons]
      rw [ih hss.2 hds.2 hcarry' (by simpa using hlength), hsum, Nat.pow_succ', Nat.mod_mul,
        Nat.add_mul_mod_self_left, Nat.add_mul_div_left _ _ (by omega),
        Nat.add_assoc ((carry + s + a * d) / base)]

-- The schoolbook product: each limb of the first factor adds its row one place further on.
def mulLimbs (base : Nat) (ds : List Nat) : List Nat → List Nat → List Nat
  | a :: as, ss =>
    match addMulLimb base a 0 ss ds with
    | [] => []
    | s :: ss => s :: mulLimbs base ds as ss
  | [], ss => ss

theorem ofDigits_mulLimbs {base : Nat} {as ss ds : List Nat} (has : ∀ a ∈ as, a < base)
    (hss : ∀ s ∈ ss, s < base) (hds : ∀ d ∈ ds, d < base) (hlength : ss.length ≤ ds.length)
    (hrows : as.length = ss.length) :
    Nat.ofDigits base (mulLimbs base ds as ss) =
      (Nat.ofDigits base ss + Nat.ofDigits base as * Nat.ofDigits base ds) % base ^ ss.length := by
  induction as generalizing ss with
  | nil =>
    obtain rfl := List.eq_nil_of_length_eq_zero hrows.symm
    simp [mulLimbs, Nat.mod_one]
  | cons a as ih =>
    rw [List.forall_mem_cons] at has
    have hbase : 0 < base := Nat.zero_lt_of_lt has.1
    have hrow := ofDigits_addMulLimb has.1 hss hds hbase hlength
    have hlimbs : ∀ n ∈ addMulLimb base a 0 ss ds, n < base := addMulLimb_lt hbase a 0 hss
    have hcount := length_addMulLimb base a 0 ss ds
    rw [mulLimbs]
    generalize addMulLimb base a 0 ss ds = row at *
    cases row with
    | nil => simp [← hcount] at hrows
    | cons s row =>
      rw [List.forall_mem_cons] at hlimbs
      rw [List.length_cons] at hrows hcount
      have hpow : base ^ ss.length = base * base ^ row.length := by rw [← hcount, Nat.pow_succ']
      rw [Nat.ofDigits_cons, hpow, Nat.zero_add] at hrow
      have hsum : Nat.ofDigits base ss + (a + base * Nat.ofDigits base as) * Nat.ofDigits base ds =
          Nat.ofDigits base ss + a * Nat.ofDigits base ds +
            base * (Nat.ofDigits base as * Nat.ofDigits base ds) := by ring
      simp only [Nat.ofDigits_cons]
      rw [ih has.2 hlimbs.2 (by omega) (by omega), hsum, hpow]
      have hmod : ∀ x y : Nat, (x + base * y) % (base * base ^ row.length) =
          (x % (base * base ^ row.length) + base * y) % (base * base ^ row.length) := by
        intro x y
        rw [Nat.mod_add_mod]
      rw [hmod, ← hrow, Nat.add_assoc, ← Nat.mul_add, Nat.mod_mul, Nat.add_mul_mod_self_left,
        Nat.mod_eq_of_lt hlimbs.1, Nat.add_mul_div_left _ _ hbase, Nat.div_eq_of_lt hlimbs.1,
        Nat.zero_add]

-- Shifts limbs of `w` bits by `s` bits, with what the limb below leaves.
def shiftBits (w s : Nat) : Nat → List Nat → List Nat
  | _, [] => []
  | carry, d :: ds => (carry ||| (d <<< s) % 2 ^ w) :: shiftBits w s (d >>> (w - s)) ds

theorem ofDigits_shiftBits {w s : Nat} (hs : s ≤ w) {carry : Nat} {ds : List Nat}
    (hds : ∀ d ∈ ds, d < 2 ^ w) (hcarry : carry < 2 ^ s) :
    Nat.ofDigits (2 ^ w) (shiftBits w s carry ds) =
      (carry + 2 ^ s * Nat.ofDigits (2 ^ w) ds) % (2 ^ w) ^ ds.length := by
  induction ds generalizing carry with
  | nil => simp [shiftBits, Nat.mod_one]
  | cons d ds ih =>
    rw [List.forall_mem_cons] at hds
    obtain ⟨t, rfl⟩ := Nat.exists_eq_add_of_le hs
    have hquot : d / 2 ^ t < 2 ^ s := by
      rw [Nat.div_lt_iff_lt_mul (Nat.two_pow_pos t), ← Nat.pow_add]
      exact hds.1
    have hlow : (d <<< s) % 2 ^ (s + t) = 2 ^ s * (d % 2 ^ t) := by
      rw [Nat.shiftLeft_eq, Nat.mul_comm, Nat.pow_add, Nat.mul_mod_mul_left]
    have hlimb : carry ||| (d <<< s) % 2 ^ (s + t) = carry + 2 ^ s * (d % 2 ^ t) := by
      rw [hlow, Nat.lor_comm, ← Nat.two_pow_add_eq_or_of_lt hcarry, Nat.add_comm]
    have hlt : carry + 2 ^ s * (d % 2 ^ t) < 2 ^ (s + t) := by
      have hmod : d % 2 ^ t + 1 ≤ 2 ^ t := Nat.mod_lt _ (Nat.two_pow_pos t)
      have hmul := Nat.mul_le_mul_left (2 ^ s) hmod
      rw [Nat.mul_add, Nat.mul_one, ← Nat.pow_add] at hmul
      omega
    have hsum : carry + 2 ^ s * (d + 2 ^ (s + t) * Nat.ofDigits (2 ^ (s + t)) ds) =
        carry + 2 ^ s * (d % 2 ^ t) +
          2 ^ (s + t) * (d / 2 ^ t + 2 ^ s * Nat.ofDigits (2 ^ (s + t)) ds) := by
      calc carry + 2 ^ s * (d + 2 ^ (s + t) * Nat.ofDigits (2 ^ (s + t)) ds)
          = carry + 2 ^ s * (d % 2 ^ t + 2 ^ t * (d / 2 ^ t) +
              2 ^ (s + t) * Nat.ofDigits (2 ^ (s + t)) ds) := by rw [Nat.mod_add_div]
        _ = _ := by rw [Nat.pow_add]; ring
    rw [shiftBits, hlimb, Nat.add_sub_cancel_left, Nat.shiftRight_eq_div_pow, Nat.ofDigits_cons,
      ih hds.2 hquot, Nat.ofDigits_cons, hsum, List.length_cons, Nat.pow_succ',
      Nat.mod_mul, Nat.add_mul_mod_self_left, Nat.mod_eq_of_lt hlt,
      Nat.add_mul_div_left _ _ (Nat.two_pow_pos _), Nat.div_eq_of_lt hlt, Nat.zero_add]

theorem shiftBits_lt {w s : Nat} (hs : s ≤ w) {carry : Nat} {ds : List Nat}
    (hds : ∀ d ∈ ds, d < 2 ^ w) (hcarry : carry < 2 ^ s) :
    ∀ d ∈ shiftBits w s carry ds, d < 2 ^ w := by
  induction ds generalizing carry with
  | nil => simp [shiftBits]
  | cons d ds ih =>
    rw [List.forall_mem_cons] at hds
    rw [shiftBits, List.forall_mem_cons]
    constructor
    · have hle : carry < 2 ^ w := hcarry.trans_le (Nat.pow_le_pow_right (by decide) hs)
      exact Nat.or_lt_two_pow hle (Nat.mod_lt _ (Nat.two_pow_pos w))
    · apply ih hds.2
      rw [Nat.shiftRight_eq_div_pow, Nat.div_lt_iff_lt_mul (Nat.two_pow_pos _), ← Nat.pow_add,
        Nat.add_sub_cancel' hs]
      exact hds.1

-- Shifts by whole limbs and then by bits; what passes the highest limb is lost.
def shiftLeft (w shift : Nat) (ds : List Nat) : List Nat :=
  (List.replicate (shift / w) 0 ++ shiftBits w (shift % w) 0 ds).take ds.length

theorem ofDigits_shiftLeft {w : Nat} (hw : 0 < w) (shift : Nat) {ds : List Nat}
    (hds : ∀ d ∈ ds, d < 2 ^ w) :
    Nat.ofDigits (2 ^ w) (shiftLeft w shift ds) =
      Nat.ofDigits (2 ^ w) ds * 2 ^ shift % (2 ^ w) ^ ds.length := by
  have hs : shift % w ≤ w := (Nat.mod_lt _ hw).le
  have hzero : 0 < 2 ^ (shift % w) := Nat.two_pow_pos _
  have hlimbs : ∀ d ∈ List.replicate (shift / w) 0 ++ shiftBits w (shift % w) 0 ds, d < 2 ^ w := by
    intro d hd
    rcases List.mem_append.mp hd with hd | hd
    · rw [List.eq_of_mem_replicate hd]
      exact Nat.two_pow_pos w
    · exact shiftBits_lt hs hds hzero d hd
  have hpow : 2 ^ shift = (2 ^ w) ^ (shift / w) * 2 ^ (shift % w) := by
    rw [← Nat.pow_mul, ← Nat.pow_add, Nat.div_add_mod]
  have hreplicate : Nat.ofDigits (2 ^ w) (List.replicate (shift / w) 0) = 0 := by
    induction shift / w with
    | zero => rfl
    | succ n ih => rw [List.replicate_succ, Nat.ofDigits_cons, ih, Nat.mul_zero]
  rw [shiftLeft, ← Nat.ofDigits_mod_pow_eq_ofDigits_take _ (Nat.two_pow_pos w) _ hlimbs,
    Nat.ofDigits_append, hreplicate, List.length_replicate, ofDigits_shiftBits hs hds hzero,
    Nat.zero_add, Nat.zero_add, Nat.mul_mod, Nat.mod_mod, ← Nat.mul_mod, hpow]
  congr 1
  ring

end LimbArith
