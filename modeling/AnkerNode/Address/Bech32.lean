import Mathlib.Algebra.Group.Nat.Defs
import Mathlib.Data.Bool.AllAny
import Mathlib.Data.List.Basic
import Mathlib.Order.Basic
import Mathlib.Data.Nat.Basic

namespace AnkerNode

namespace Bech32

def CHARSET : List Char := "qpzry9x8gf2tvdw0s3jn54khce6mua7l".toList

def CHARSET_REV : List Int := [
  -1, -1, -1, -1, -1, -1, -1, -1, -1, -1, -1, -1, -1, -1, -1, -1,
  -1, -1, -1, -1, -1, -1, -1, -1, -1, -1, -1, -1, -1, -1, -1, -1,
  -1, -1, -1, -1, -1, -1, -1, -1, -1, -1, -1, -1, -1, -1, -1, -1,
  15, -1, 10, 17, 21, 20, 26, 30,  7,  5, -1, -1, -1, -1, -1, -1,
  -1, 29, -1, 24, 13, 25,  9,  8, 23, -1, 18, 22, 31, 27, 19, -1,
   1,  0,  3, 16, 11, 28, 12, 14,  6,  4,  2, -1, -1, -1, -1, -1,
  -1, 29, -1, 24, 13, 25,  9,  8, 23, -1, 18, 22, 31, 27, 19, -1,
   1,  0,  3, 16, 11, 28, 12, 14,  6,  4,  2, -1, -1, -1, -1, -1]

def addWhen (b : Bool) (k c : BitVec 32) : BitVec 32 := if b then c ^^^ k else c

-- the body of the loop over `v_i`
def polyModStep (c v_i : BitVec 32) : BitVec 32 :=
  let c0 := c >>> 25
  let c := ((c &&& 0x1ffffff) <<< 5) ^^^ v_i
  let c := addWhen (c0.getLsbD 0) 0x3b6a57b2 c
  let c := addWhen (c0.getLsbD 1) 0x26508e6d c
  let c := addWhen (c0.getLsbD 2) 0x1ea119fa c
  let c := addWhen (c0.getLsbD 3) 0x3d4233dd c
  addWhen (c0.getLsbD 4) 0x2a1462b3 c

def polyModFrom (c : BitVec 32) (v : List UInt8) : BitVec 32 :=
  v.foldl (fun c v_i => polyModStep c (v_i.toBitVec.setWidth 32)) c

def polyMod (v : List UInt8) : BitVec 32 := polyModFrom 1 v

def isUpper (c : Char) : Bool := 'A' ≤ c && c ≤ 'Z'

def isLower (c : Char) : Bool := 'a' ≤ c && c ≤ 'z'

def lowerCase (c : Char) : Char :=
  if isUpper c then Char.ofNat (c.toNat - 'A'.toNat + 'a'.toNat) else c

-- A char is a byte.
def expandHRP (hrp : List Char) : List UInt8 :=
  hrp.map (fun c => UInt8.ofNat (c.toNat >>> 5)) ++ 0 ::
    hrp.map (fun c => UInt8.ofNat (c.toNat &&& 0x1f))

def verifyChecksum (hrp : List Char) (values : List UInt8) : Bool :=
  polyMod (expandHRP hrp ++ values) == 1

-- the 5-bit group of a number at `i`, from the lowest
def group (mod : BitVec 32) (i : Nat) : UInt8 := UInt8.ofNat (mod >>> (5 * i) &&& 31).toNat

def createChecksum (hrp : List Char) (values : List UInt8) : List UInt8 :=
  let mod := polyMod (expandHRP hrp ++ values ++ List.replicate 6 0) ^^^ 1
  (List.range 6).map fun i => group mod (5 - i)

def charsetAt (v : UInt8) : Char := CHARSET.getD v.toNat '\x00'

def encode (hrp : List Char) (values : List UInt8) : List Char :=
  let combined := values ++ createChecksum hrp values
  hrp ++ '1' :: combined.map charsetAt

def rfind (c : Char) : List Char → Option Nat
  | [] => none
  | d :: str =>
    match rfind c str with
    | some n => some (n + 1)
    | none => if d = c then some 0 else none

def outside (c : Char) : Bool := c.toNat < 33 || 126 < c.toNat

def rev (c : Char) : Option UInt8 :=
  if outside c then none
  else
    match CHARSET_REV.getD c.toNat (-1) with
    | -1 => none
    | n => some (UInt8.ofNat n.toNat)

-- An empty hrp means failure.
def decode (str : List Char) : List Char × List UInt8 :=
  if str.any outside then ([], [])
  else if str.any isLower && str.any isUpper then ([], [])
  else
    match rfind '1' str with
    | none => ([], [])
    | some pos =>
      if 90 < str.length ∨ pos = 0 ∨ str.length < pos + 7 then ([], [])
      else
        match (str.drop (pos + 1)).mapM rev with
        | none => ([], [])
        | some values =>
          let hrp := (str.take pos).map lowerCase
          if verifyChecksum hrp values then (hrp, values.take (values.length - 6)) else ([], [])

example : decode "A12UEL5L".toList = (['a'], []) := by decide

section Step

def whenSet (b : Bool) (k : BitVec 32) : BitVec 32 := if b then k else 0

theorem addWhen_eq (b : Bool) (k c : BitVec 32) : addWhen b k c = c ^^^ whenSet b k := by
  cases b <;> simp [addWhen, whenSet]

theorem whenSet_xor (a b : Bool) (k : BitVec 32) :
    whenSet (a ^^ b) k = whenSet a k ^^^ whenSet b k := by
  cases a <;> cases b <;> simp [whenSet]

theorem xor_and_distrib (a b m : BitVec 32) : (a ^^^ b) &&& m = (a &&& m) ^^^ (b &&& m) := by
  refine BitVec.eq_of_getLsbD_eq fun i _ => ?_
  simp only [BitVec.getLsbD_and, BitVec.getLsbD_xor]
  exact Bool.and_xor_distrib_right _ _ _

theorem polyModStep_eq (c v : BitVec 32) : polyModStep c v =
    ((c &&& 0x1ffffff) <<< 5) ^^^ v ^^^ whenSet (c.getLsbD 25) 0x3b6a57b2 ^^^
      whenSet (c.getLsbD 26) 0x26508e6d ^^^ whenSet (c.getLsbD 27) 0x1ea119fa ^^^
      whenSet (c.getLsbD 28) 0x3d4233dd ^^^ whenSet (c.getLsbD 29) 0x2a1462b3 := by
  simp only [polyModStep, addWhen_eq, BitVec.getLsbD_ushiftRight]

theorem polyModStep_xor (c d v w : BitVec 32) :
    polyModStep (c ^^^ d) (v ^^^ w) = polyModStep c v ^^^ polyModStep d w := by
  simp only [polyModStep_eq, xor_and_distrib, BitVec.shiftLeft_xor_distrib, BitVec.getLsbD_xor,
    whenSet_xor]
  ac_rfl

-- thirty bits of state
def Small (c : BitVec 32) : Prop := ∀ i, 30 ≤ i → c.getLsbD i = false

theorem small_xor {c d : BitVec 32} (hc : Small c) (hd : Small d) : Small (c ^^^ d) := by
  intro i hi
  rw [BitVec.getLsbD_xor, hc i hi, hd i hi]
  rfl

theorem small_of_toNat_lt {c : BitVec 32} (hc : c.toNat < 2 ^ 30) : Small c := by
  intro i hi
  rw [← BitVec.testBit_toNat]
  exact Nat.testBit_lt_two_pow (Nat.lt_of_lt_of_le hc (Nat.pow_le_pow_right (by decide) hi))

theorem small_whenSet {k : BitVec 32} (hk : k.toNat < 2 ^ 30) (b : Bool) : Small (whenSet b k) := by
  cases b with
  | false => exact small_of_toNat_lt (show (0 : BitVec 32).toNat < 2 ^ 30 by decide)
  | true => exact small_of_toNat_lt hk

theorem getLsbD_mask (i : Nat) : (0x1ffffff : BitVec 32).getLsbD i = decide (i < 25) := by
  have hmask : (0x1ffffff : BitVec 32).toNat = 2 ^ 25 - 1 := rfl
  rw [← BitVec.testBit_toNat, hmask, Nat.testBit_two_pow_sub_one]

theorem getLsbD_shifted (c : BitVec 32) (i : Nat) :
    ((c &&& 0x1ffffff) <<< 5).getLsbD i =
      (decide (5 ≤ i) && decide (i < 30) && c.getLsbD (i - 5)) := by
  rw [BitVec.getLsbD_shiftLeft, BitVec.getLsbD_and, getLsbD_mask]
  cases c.getLsbD (i - 5) with
  | false => simp
  | true =>
    rw [Bool.eq_iff_iff]
    simp only [Bool.and_eq_true, Bool.not_eq_true', decide_eq_true_eq, decide_eq_false_iff_not,
      Bool.true_and, and_true]
    omega

theorem small_shifted (c : BitVec 32) : Small ((c &&& 0x1ffffff) <<< 5) := by
  intro i hi
  rw [getLsbD_shifted, decide_eq_false (Nat.not_lt.mpr hi), Bool.and_false, Bool.false_and]

theorem small_polyModStep (c : BitVec 32) {v : BitVec 32} (hv : Small v) :
    Small (polyModStep c v) := by
  rw [polyModStep_eq]
  have hshifted := small_shifted c
  have h0 := small_whenSet (k := 0x3b6a57b2) (by decide) (c.getLsbD 25)
  have h1 := small_whenSet (k := 0x26508e6d) (by decide) (c.getLsbD 26)
  have h2 := small_whenSet (k := 0x1ea119fa) (by decide) (c.getLsbD 27)
  have h3 := small_whenSet (k := 0x3d4233dd) (by decide) (c.getLsbD 28)
  have h4 := small_whenSet (k := 0x2a1462b3) (by decide) (c.getLsbD 29)
  exact small_xor (small_xor (small_xor (small_xor (small_xor (small_xor hshifted hv)
    h0) h1) h2) h3) h4

-- The five highest bits change the five lowest one to one.
theorem low_bits_kernel : ∀ b0 b1 b2 b3 b4 : Bool,
    (∀ i < 5, (whenSet b0 0x3b6a57b2 ^^^ whenSet b1 0x26508e6d ^^^ whenSet b2 0x1ea119fa ^^^
      whenSet b3 0x3d4233dd ^^^ whenSet b4 0x2a1462b3).getLsbD i = false) →
    (b0 || b1 || b2 || b3 || b4) = false := by decide

theorem getLsbD_zero (i : Nat) : (0 : BitVec 32).getLsbD i = false := by
  simp

theorem eq_zero_of_polyModStep {x : BitVec 32} (hx : Small x) (h : polyModStep x 0 = 0) :
    x = 0 := by
  have hbit : ∀ i, (polyModStep x 0).getLsbD i = false := fun i => by rw [h, getLsbD_zero]
  have hhigh := low_bits_kernel (x.getLsbD 25) (x.getLsbD 26) (x.getLsbD 27) (x.getLsbD 28)
    (x.getLsbD 29) fun i hi => by
      have hlow := hbit i
      rw [polyModStep_eq] at hlow
      simp only [BitVec.getLsbD_xor, getLsbD_shifted, getLsbD_zero,
        decide_eq_false (Nat.not_le.mpr hi),
        Bool.false_and, Bool.false_xor] at hlow
      simp only [BitVec.getLsbD_xor]
      exact hlow
  simp only [Bool.or_eq_false_iff] at hhigh
  obtain ⟨⟨⟨⟨h25, h26⟩, h27⟩, h28⟩, h29⟩ := hhigh
  refine BitVec.eq_of_getLsbD_eq fun i _ => ?_
  rw [getLsbD_zero]
  rcases Nat.lt_or_ge i 25 with hlt | hge
  · have hshifted := hbit (i + 5)
    rw [polyModStep_eq, h25, h26, h27, h28, h29] at hshifted
    simp only [whenSet, Bool.false_eq_true, if_false, BitVec.getLsbD_xor, getLsbD_zero,
      Bool.xor_false,
      getLsbD_shifted, Nat.add_sub_cancel] at hshifted
    rw [decide_eq_true (by omega), decide_eq_true (by omega)] at hshifted
    exact hshifted
  · rcases Nat.lt_or_ge i 30 with hlt' | hge'
    · obtain rfl | rfl | rfl | rfl | rfl : i = 25 ∨ i = 26 ∨ i = 27 ∨ i = 28 ∨ i = 29 := by omega
      · exact h25
      · exact h26
      · exact h27
      · exact h28
      · exact h29
    · exact hx i hge'

theorem polyModStep_inj {c d v : BitVec 32} (hc : Small c) (hd : Small d)
    (h : polyModStep c v = polyModStep d v) : c = d := by
  have hkernel : polyModStep (c ^^^ d) 0 = 0 := by
    have hxor := polyModStep_xor c d v v
    rw [h, BitVec.xor_self, BitVec.xor_self] at hxor
    exact hxor
  exact BitVec.xor_eq_zero_iff.mp (eq_zero_of_polyModStep (small_xor hc hd) hkernel)

theorem polyModStep_value_inj {c v w : BitVec 32} (h : polyModStep c v = polyModStep c w) :
    v = w := by
  simp only [polyModStep_eq, BitVec.xor_left_inj, BitVec.xor_right_inj] at h
  exact h

end Step

section Run

theorem small_value (v : UInt8) : Small (v.toBitVec.setWidth 32) := by
  refine small_of_toNat_lt ?_
  rw [BitVec.toNat_setWidth]
  exact lt_of_le_of_lt (Nat.mod_le _ _) (lt_trans v.toBitVec.isLt (by decide))

theorem small_polyModFrom {c : BitVec 32} (hc : Small c) (v : List UInt8) :
    Small (polyModFrom c v) := by
  induction v generalizing c with
  | nil => exact hc
  | cons v_i v ih => exact ih (small_polyModStep c (small_value v_i))

theorem small_polyMod (v : List UInt8) : Small (polyMod v) :=
  small_polyModFrom (small_of_toNat_lt (by decide)) v

theorem polyModFrom_append (c : BitVec 32) (a b : List UInt8) :
    polyModFrom c (a ++ b) = polyModFrom (polyModFrom c a) b :=
  List.foldl_append

theorem polyModFrom_inj {c d : BitVec 32} {v : List UInt8} (hc : Small c) (hd : Small d)
    (h : polyModFrom c v = polyModFrom d v) : c = d := by
  induction v generalizing c d with
  | nil => exact h
  | cons v_i v ih =>
    have hsmall := small_value v_i
    exact polyModStep_inj hc hd (ih (small_polyModStep c hsmall) (small_polyModStep d hsmall) h)

theorem value_inj {v w : UInt8} (h : v.toBitVec.setWidth 32 = w.toBitVec.setWidth 32) : v = w := by
  have hnat := congrArg BitVec.toNat h
  have hv := v.toBitVec.isLt
  have hw := w.toBitVec.isLt
  rw [BitVec.toNat_setWidth, BitVec.toNat_setWidth, Nat.mod_eq_of_lt (by omega),
    Nat.mod_eq_of_lt (by omega)] at hnat
  exact UInt8.toNat_inj.mp hnat

-- One value changed is one checksum changed.
theorem eq_of_polyMod {a b : List UInt8} {v w : UInt8}
    (h : polyMod (a ++ v :: b) = polyMod (a ++ w :: b)) : v = w := by
  have hsmall := small_polyMod a
  simp only [polyMod, polyModFrom_append] at h hsmall
  refine value_inj (polyModStep_value_inj (polyModFrom_inj ?_ ?_ h))
  · exact small_polyModStep _ (small_value v)
  · exact small_polyModStep _ (small_value w)

theorem polyModFrom_xor (c d : BitVec 32) (v : List UInt8) : polyModFrom (c ^^^ d) v =
    polyModFrom c (List.replicate v.length 0) ^^^ polyModFrom d v := by
  induction v generalizing c d with
  | nil => rfl
  | cons v_i v ih =>
    have hstep := polyModStep_xor c d 0 (v_i.toBitVec.setWidth 32)
    have hvalue : 0 ^^^ v_i.toBitVec.setWidth 32 = v_i.toBitVec.setWidth 32 := BitVec.zero_xor
    rw [hvalue] at hstep
    calc polyModFrom (c ^^^ d) (v_i :: v)
        = polyModFrom (polyModStep c 0 ^^^ polyModStep d (v_i.toBitVec.setWidth 32)) v := by
          rw [← hstep]
          rfl
      _ = _ := ih _ _

theorem setWidth_group (mod : BitVec 32) (i : Nat) :
    (group mod i).toBitVec.setWidth 32 = mod >>> (5 * i) &&& 31 := by
  have hlt : (mod >>> (5 * i) &&& 31).toNat < 2 ^ 8 := by
    rw [BitVec.toNat_and]
    exact lt_of_le_of_lt Nat.and_le_right (by decide)
  refine BitVec.eq_of_toNat_eq ?_
  rw [group, BitVec.toNat_setWidth]
  have hbyte : (UInt8.ofNat (mod >>> (5 * i) &&& 31).toNat).toBitVec.toNat =
    (mod >>> (5 * i) &&& 31).toNat := UInt8.toNat_ofNat_of_lt' hlt
  rw [hbyte, Nat.mod_eq_of_lt (lt_trans hlt (by decide))]

theorem getLsbD_thirtyOne (i : Nat) : (31 : BitVec 32).getLsbD i = decide (i < 5) := by
  have hmask : (31 : BitVec 32).toNat = 2 ^ 5 - 1 := rfl
  rw [← BitVec.testBit_toNat, hmask, Nat.testBit_two_pow_sub_one]

-- The groups of `mod` shift it back in.
theorem polyModStep_group {mod : BitVec 32} (hmod : Small mod) (i : Nat) :
    polyModStep (mod >>> (5 * (i + 1))) ((group mod i).toBitVec.setWidth 32) = mod >>> (5 * i) := by
  have hhigh : ∀ k, 25 ≤ k → (mod >>> (5 * (i + 1))).getLsbD k = false := fun k hk => by
    rw [BitVec.getLsbD_ushiftRight]
    exact hmod _ (by omega)
  rw [polyModStep_eq, setWidth_group, hhigh 25 le_rfl, hhigh 26 (by decide), hhigh 27 (by decide),
    hhigh 28 (by decide), hhigh 29 (by decide)]
  refine BitVec.eq_of_getLsbD_eq fun k _ => ?_
  simp only [whenSet, Bool.false_eq_true, if_false, BitVec.getLsbD_xor, getLsbD_zero,
    Bool.xor_false, getLsbD_shifted, BitVec.getLsbD_and, BitVec.getLsbD_ushiftRight,
    getLsbD_thirtyOne]
  rcases Nat.lt_or_ge k 5 with hlt | hge
  · simp [hlt, Nat.not_le.mpr hlt]
  · rw [decide_eq_true hge, decide_eq_false (Nat.not_lt.mpr hge), Bool.and_false, Bool.xor_false,
      Bool.true_and, show 5 * (i + 1) + (k - 5) = 5 * i + k from by omega]
    rcases Nat.lt_or_ge k 30 with hlt' | hge'
    · rw [decide_eq_true hlt', Bool.true_and]
    · rw [hmod (5 * i + k) (by omega), Bool.and_false]

theorem polyModFrom_groups {mod : BitVec 32} (hmod : Small mod) {n : Nat} (hn : n ≤ 6) :
    polyModFrom 0 ((List.range n).map fun i => group mod (5 - i)) = mod >>> (5 * (6 - n)) := by
  induction n with
  | zero =>
    refine BitVec.eq_of_getLsbD_eq fun k _ => ?_
    rw [BitVec.getLsbD_ushiftRight, hmod _ (by omega)]
    exact BitVec.getLsbD_zero
  | succ n ih =>
    have hnext : 6 - n = 5 - n + 1 := by omega
    rw [List.range_succ, List.map_append, polyModFrom_append, ih (Nat.le_of_succ_le hn), hnext]
    exact (polyModStep_group hmod (5 - n)).trans (by rw [show 6 - (n + 1) = 5 - n from by omega])

theorem length_createChecksum (hrp : List Char) (values : List UInt8) :
    (createChecksum hrp values).length = 6 := by
  rw [createChecksum, List.length_map, List.length_range]

theorem createChecksum_lt {hrp : List Char} {values : List UInt8} {v : UInt8}
    (hv : v ∈ createChecksum hrp values) : v.toNat < 32 := by
  obtain ⟨i, -, rfl⟩ := List.mem_map.mp hv
  refine lt_of_le_of_lt ?_ (show 31 < 32 by decide)
  rw [group, UInt8.toNat_ofNat', BitVec.toNat_and]
  exact (Nat.mod_le _ _).trans Nat.and_le_right

theorem verifyChecksum_createChecksum (hrp : List Char) (values : List UInt8) :
    verifyChecksum hrp (values ++ createChecksum hrp values) = true := by
  have hmod : Small (polyMod (expandHRP hrp ++ values ++ List.replicate 6 0) ^^^ 1) :=
    small_xor (small_polyMod _) (small_of_toNat_lt (by decide))
  have hsplit := polyModFrom_xor (polyMod (expandHRP hrp ++ values)) 0 (createChecksum hrp values)
  have hzeros : polyModFrom (polyMod (expandHRP hrp ++ values)) (List.replicate 6 0) =
      polyMod (expandHRP hrp ++ values ++ List.replicate 6 0) := (polyModFrom_append 1 _ _).symm
  have hgroups := polyModFrom_groups hmod le_rfl
  rw [show 5 * (6 - 6) = 0 from rfl, BitVec.ushiftRight_zero] at hgroups
  have hstart : polyMod (expandHRP hrp ++ values) ^^^ 0 = polyMod (expandHRP hrp ++ values) :=
    BitVec.xor_zero
  rw [hstart, length_createChecksum, hzeros] at hsplit
  rw [verifyChecksum, beq_iff_eq, ← List.append_assoc]
  calc polyMod (expandHRP hrp ++ values ++ createChecksum hrp values)
      = polyModFrom (polyMod (expandHRP hrp ++ values)) (createChecksum hrp values) :=
        polyModFrom_append 1 _ _
    _ = polyMod (expandHRP hrp ++ values ++ List.replicate 6 0) ^^^
          polyModFrom 0 (createChecksum hrp values) := hsplit
    _ = polyMod (expandHRP hrp ++ values ++ List.replicate 6 0) ^^^
          (polyMod (expandHRP hrp ++ values ++ List.replicate 6 0) ^^^ 1) := by
        rw [createChecksum, hgroups]
    _ = 1 := by rw [← BitVec.xor_assoc, BitVec.xor_self, BitVec.zero_xor]

end Run

section Characters

theorem rfind_eq_none {c : Char} {str : List Char} (h : c ∉ str) : rfind c str = none := by
  induction str with
  | nil => rfl
  | cons d str ih =>
    obtain ⟨hd, hstr⟩ := not_or.mp (mt List.mem_cons.mpr h)
    rw [rfind, ih hstr]
    exact if_neg (Ne.symm hd)

theorem rfind_append {c : Char} {text : List Char} (h : c ∉ text) (hrp : List Char) :
    rfind c (hrp ++ c :: text) = some hrp.length := by
  induction hrp with
  | nil =>
    rw [List.nil_append, rfind, rfind_eq_none h]
    exact if_pos rfl
  | cons d hrp ih =>
    rw [List.cons_append, rfind, ih]
    rfl

theorem exists_split {c : Char} {str : List Char} (h : c ∈ str) :
    ∃ a b, str = a ++ c :: b ∧ c ∉ b := by
  induction str with
  | nil => cases h
  | cons d str ih =>
    by_cases hmem : c ∈ str
    · obtain ⟨a, b, rfl, hb⟩ := ih hmem
      exact ⟨d :: a, b, rfl, hb⟩
    · obtain rfl | htail := List.mem_cons.mp h
      · exact ⟨[], str, rfl, hmem⟩
      · exact absurd htail hmem

-- What holds of the printable characters one by one holds of each.
theorem forall_printable {P : Char → Prop} (h : ∀ n < 127, P (Char.ofNat n)) {c : Char}
    (hc : outside c = false) : P c := by
  have hlt : c.toNat < 127 := by
    simp only [outside, Bool.or_eq_false_iff, decide_eq_false_iff_not] at hc
    omega
  have hchar := h c.toNat hlt
  rwa [Char.ofNat_toNat] at hchar

theorem rev_lowerCase {c : Char} (hc : outside c = false) : rev (lowerCase c) = rev c :=
  forall_printable (P := fun c => rev (lowerCase c) = rev c) (by decide) hc

theorem outside_of_rev {c : Char} {v : UInt8} (h : rev c = some v) : outside c = false := by
  cases hout : outside c with
  | false => rfl
  | true =>
    rw [rev, hout] at h
    cases h

theorem charsetAt_of_rev {c : Char} {v : UInt8} (h : rev c = some v) :
    charsetAt v = lowerCase c := by
  have htable := forall_printable
    (P := fun c => (rev c).all (fun v => charsetAt v == lowerCase c) = true) (by decide)
    (outside_of_rev h)
  rw [h] at htable
  exact beq_iff_eq.mp htable

theorem rev_charsetAt {v : UInt8} (hv : v.toNat < 32) : rev (charsetAt v) = some v := by
  have htable : ∀ n < 32, rev (charsetAt (UInt8.ofNat n)) = some (UInt8.ofNat n) := by decide
  have hchar := htable v.toNat hv
  rwa [UInt8.ofNat_toNat] at hchar

theorem charset_spec : ∀ c ∈ CHARSET, outside c = false ∧ isUpper c = false ∧ c ≠ '1' :=
  List.all_iff_forall_prop.mp (by decide)

theorem charsetAt_mem {v : UInt8} (hv : v.toNat < 32) : charsetAt v ∈ CHARSET := by
  have hlt : v.toNat < CHARSET.length := hv
  rw [charsetAt, List.getD_eq_getElem?_getD, List.getElem?_eq_getElem hlt]
  exact List.getElem_mem hlt

theorem lowerCase_eq_self {c : Char} (hc : isUpper c = false) : lowerCase c = c := by
  rw [lowerCase, hc]
  rfl

theorem mapM_rev_charsetAt {values : List UInt8} (hvalues : ∀ v ∈ values, v.toNat < 32) :
    (values.map charsetAt).mapM rev = some values := by
  induction values with
  | nil => rfl
  | cons v values ih =>
    rw [List.forall_mem_cons] at hvalues
    rw [List.map_cons, List.mapM_cons, rev_charsetAt hvalues.1, ih hvalues.2]
    rfl

theorem mapM_append_cons {a b : List Char} {c : Char} {values : List UInt8} :
    (a ++ c :: b).mapM rev = some values ↔ ∃ va v vb, values = va ++ v :: vb ∧
      a.mapM rev = some va ∧ rev c = some v ∧ b.mapM rev = some vb := by
  rw [List.mapM_append, List.mapM_cons]
  cases a.mapM rev with
  | none => simp
  | some va =>
    cases rev c with
    | none => simp
    | some v =>
      cases b.mapM rev with
      | none => simp
      | some vb => simp [eq_comm]

end Characters

section Decode

def oneCase (str : List Char) : Prop := (str.any isLower && str.any isUpper) = false

def LowerHRP (hrp : List Char) : Prop :=
  hrp ≠ [] ∧ ∀ c ∈ hrp, outside c = false ∧ isUpper c = false

-- a string whose last '1' stands between `hrp` and `text`
structure Accepted (hrp text : List Char) (values : List UInt8) : Prop where
  printable : (hrp ++ '1' :: text).any outside = false
  one_case : oneCase (hrp ++ '1' :: text)
  length_le : (hrp ++ '1' :: text).length ≤ 90
  hrp_ne_nil : hrp ≠ []
  six_le : 6 ≤ text.length
  values_eq : text.mapM rev = some values
  checksum : verifyChecksum (hrp.map lowerCase) values = true

theorem Accepted.decode_eq {hrp text : List Char} {values : List UInt8}
    (h : Accepted hrp text values) (hone : '1' ∉ text) : decode (hrp ++ '1' :: text) =
      (hrp.map lowerCase, values.take (values.length - 6)) := by
  have hlimits : ¬(90 < (hrp ++ '1' :: text).length ∨ hrp.length = 0 ∨
      (hrp ++ '1' :: text).length < hrp.length + 7) := by
    have hne := List.length_pos_of_ne_nil h.hrp_ne_nil
    have hlong := h.length_le
    have hsix := h.six_le
    rw [List.length_append, List.length_cons] at hlong ⊢
    omega
  have htext : (hrp ++ '1' :: text).drop (hrp.length + 1) = text := by
    rw [List.drop_append, List.drop_eq_nil_of_le (Nat.le_succ _)]
    simp
  rw [decode, h.printable, h.one_case, rfind_append hone]
  simp only [Bool.false_eq_true, if_false, if_neg hlimits, htext, h.values_eq, List.take_left,
    h.checksum, if_true]

theorem exists_accepted {hrp text : List Char} (hone : '1' ∉ text)
    (h : decode (hrp ++ '1' :: text) ≠ ([], [])) : ∃ values, Accepted hrp text values := by
  have htext : (hrp ++ '1' :: text).drop (hrp.length + 1) = text := by
    rw [List.drop_append, List.drop_eq_nil_of_le (Nat.le_succ _)]
    simp
  rw [decode, rfind_append hone] at h
  simp only [htext, List.take_left] at h
  split at h
  · exact absurd rfl h
  rename_i hprintable
  split at h
  · exact absurd rfl h
  rename_i hcase
  split at h
  · exact absurd rfl h
  rename_i hlimits
  split at h
  · exact absurd rfl h
  rename_i values hvalues
  split at h
  · rename_i hchecksum
    rw [List.length_append, List.length_cons] at hlimits
    refine ⟨values, Bool.eq_false_iff.mpr hprintable, Bool.eq_false_iff.mpr hcase, ?_, ?_, ?_,
      hvalues, hchecksum⟩
    · rw [List.length_append, List.length_cons]
      omega
    · rintro rfl
      simp at hlimits
    · omega
  · exact absurd rfl h

theorem LowerHRP.map_lowerCase {hrp : List Char} (h : LowerHRP hrp) : hrp.map lowerCase = hrp :=
  (List.map_congr_left fun c hc => lowerCase_eq_self (h.2 c hc).2).trans (List.map_id' hrp)

theorem accepted_encode {hrp : List Char} {values : List UInt8} (hhrp : LowerHRP hrp)
    (hvalues : ∀ v ∈ values, v.toNat < 32) (hlength : (encode hrp values).length ≤ 90) :
    Accepted hrp ((values ++ createChecksum hrp values).map charsetAt)
      (values ++ createChecksum hrp values) := by
  have hall : ∀ v ∈ values ++ createChecksum hrp values, v.toNat < 32 := fun v hv =>
    (List.mem_append.mp hv).elim (hvalues v) createChecksum_lt
  have hchars : ∀ c ∈ hrp ++ '1' :: (values ++ createChecksum hrp values).map charsetAt,
      outside c = false ∧ isUpper c = false := by
    intro c hc
    rcases List.mem_append.mp hc with hc | hc
    · exact hhrp.2 c hc
    · rcases List.mem_cons.mp hc with rfl | hc
      · exact ⟨rfl, rfl⟩
      · obtain ⟨v, hv, rfl⟩ := List.mem_map.mp hc
        have hspec := charset_spec _ (charsetAt_mem (hall v hv))
        exact ⟨hspec.1, hspec.2.1⟩
  refine ⟨?_, ?_, hlength, hhrp.1, ?_, mapM_rev_charsetAt hall, ?_⟩
  · exact List.any_eq_false.mpr fun c hc => by simp [(hchars c hc).1]
  · have hupper : (hrp ++ '1' :: (values ++ createChecksum hrp values).map charsetAt).any isUpper =
        false := List.any_eq_false.mpr fun c hc => by simp [(hchars c hc).2]
    rw [oneCase, hupper, Bool.and_false]
  · rw [List.length_map, List.length_append, length_createChecksum]
    omega
  · rw [hhrp.map_lowerCase]
    exact verifyChecksum_createChecksum hrp values

theorem length_encode (hrp : List Char) (values : List UInt8) :
    (encode hrp values).length = hrp.length + 1 + values.length + 6 := by
  rw [encode, List.length_append, List.length_cons, List.length_map, List.length_append,
    length_createChecksum]
  omega

theorem decode_encode {hrp : List Char} {values : List UInt8} (hhrp : LowerHRP hrp)
    (hvalues : ∀ v ∈ values, v.toNat < 32) (hlength : (encode hrp values).length ≤ 90) :
    decode (encode hrp values) = (hrp, values) := by
  have hone : '1' ∉ (values ++ createChecksum hrp values).map charsetAt := by
    intro hmem
    obtain ⟨v, hv, heq⟩ := List.mem_map.mp hmem
    have hlt := (List.mem_append.mp hv).elim (hvalues v) createChecksum_lt
    exact (charset_spec _ (charsetAt_mem hlt)).2.2 heq
  have heq := (accepted_encode hhrp hvalues hlength).decode_eq hone
  rw [hhrp.map_lowerCase, List.length_append, length_createChecksum, Nat.add_sub_cancel,
    List.take_left] at heq
  exact heq

end Decode

section Substitution

def Letterless (c : Char) : Prop := isLower c = false ∧ isUpper c = false

theorem lowerCase_printable {c : Char} (hc : outside c = false) :
    outside (lowerCase c) = false ∧ isUpper (lowerCase c) = false :=
  forall_printable (P := fun c => outside c = false →
    outside (lowerCase c) = false ∧ isUpper (lowerCase c) = false) (by decide) hc hc

theorem lowerCase_letter {c : Char} (hc : outside c = false) (hupper : isUpper c = true) :
    isLower (lowerCase c) = true :=
  forall_printable (P := fun c => isUpper c = true → isLower (lowerCase c) = true) (by decide) hc
    hupper

theorem Accepted.decode_ne {hrp text : List Char} {values : List UInt8}
    (h : Accepted hrp text values) (hone : '1' ∉ text) :
    decode (hrp ++ '1' :: text) ≠ ([], []) := by
  rw [h.decode_eq hone]
  intro heq
  exact h.hrp_ne_nil (List.map_eq_nil_iff.mp (congrArg Prod.fst heq))

-- Two accepted strings that differ in one place read the same value there.
theorem Accepted.rev_eq {hrp a b : List Char} {c d : Char} {values values' : List UInt8}
    (h : Accepted hrp (a ++ d :: b) values) (h' : Accepted hrp (a ++ c :: b) values') :
    rev c = rev d := by
  obtain ⟨va, v, vb, rfl, ha, hd, hb⟩ := mapM_append_cons.mp h.values_eq
  obtain ⟨va', w, vb', rfl, ha', hc, hb'⟩ := mapM_append_cons.mp h'.values_eq
  obtain rfl : va = va' := Option.some.inj (ha.symm.trans ha')
  obtain rfl : vb = vb' := Option.some.inj (hb.symm.trans hb')
  have hpoly := (beq_iff_eq.mp h.checksum).trans (beq_iff_eq.mp h'.checksum).symm
  rw [← List.append_assoc, ← List.append_assoc] at hpoly
  rw [hc, hd, eq_of_polyMod hpoly]

theorem oneCase_iff {str : List Char} : oneCase str ↔
    (∀ c ∈ str, isLower c = false) ∨ ∀ c ∈ str, isUpper c = false := by
  rw [oneCase, Bool.and_eq_false_iff, List.any_eq_false, List.any_eq_false]
  simp only [Bool.not_eq_true]

theorem Accepted.letterless {hrp a b : List Char} {d : Char} {values values' : List UInt8}
    (h : Accepted hrp (a ++ d :: b) values) (hne : lowerCase d ≠ d)
    (h' : Accepted hrp (a ++ lowerCase d :: b) values') :
    ∀ x ∈ hrp ++ '1' :: a ++ b, Letterless x := by
  have hd : isUpper d = true := by
    by_contra hupper
    exact hne (lowerCase_eq_self (Bool.eq_false_iff.mpr hupper))
  obtain ⟨va, v, vb, -, -, hrev, -⟩ := mapM_append_cons.mp h.values_eq
  have hlower : ∀ x ∈ hrp ++ '1' :: (a ++ d :: b), isLower x = false := by
    rcases oneCase_iff.mp h.one_case with hlower | hupper
    · exact hlower
    · rw [hupper d (by simp)] at hd
      cases hd
  have hupper : ∀ x ∈ hrp ++ '1' :: (a ++ lowerCase d :: b), isUpper x = false := by
    rcases oneCase_iff.mp h'.one_case with hlower' | hupper
    · have hletter := lowerCase_letter (outside_of_rev hrev) hd
      rw [hlower' (lowerCase d) (by simp)] at hletter
      cases hletter
    · exact hupper
  intro x hx
  simp only [List.mem_append, List.mem_cons] at hx hlower hupper
  exact ⟨hlower x (by tauto), hupper x (by tauto)⟩

-- A string with one letter, a capital, is read again with that letter in lower case.
theorem Accepted.lowered {hrp a b : List Char} {d : Char} {values : List UInt8}
    (h : Accepted hrp (a ++ d :: b) values)
    (hletterless : ∀ x ∈ hrp ++ '1' :: a ++ b, Letterless x) :
    Accepted hrp (a ++ lowerCase d :: b) values := by
  obtain ⟨va, v, vb, hvalues, ha, hd, hb⟩ := mapM_append_cons.mp h.values_eq
  have hinside := outside_of_rev hd
  obtain ⟨hinside', hupper⟩ := lowerCase_printable hinside
  have hprintable := List.any_eq_false.mp h.printable
  have hlength := h.length_le
  have hsix := h.six_le
  simp only [List.length_append, List.length_cons] at hlength hsix
  refine ⟨?_, oneCase_iff.mpr (Or.inr ?_), ?_, h.hrp_ne_nil, ?_, ?_, h.checksum⟩
  · refine List.any_eq_false.mpr fun x hx => ?_
    simp only [List.mem_append, List.mem_cons] at hx hprintable
    by_cases heq : x = lowerCase d
    · simp [heq, hinside']
    · exact hprintable x (by tauto)
  · intro x hx
    simp only [List.mem_append, List.mem_cons] at hx hletterless
    by_cases heq : x = lowerCase d
    · rw [heq, hupper]
    · exact (hletterless x (by tauto)).2
  · simp only [List.length_append, List.length_cons]
    exact hlength
  · simp only [List.length_append, List.length_cons]
    exact hsix
  · exact mapM_append_cons.mpr ⟨va, v, vb, hvalues, ha, (rev_lowerCase hinside).trans hd, hb⟩

theorem decode_substituted {before after : List Char} {c d : Char} (hbefore : '1' ∈ before)
    (hafter : '1' ∉ after) (hd : d ≠ '1') (hc : c ∈ CHARSET) (hne : c ≠ d)
    (hvalid : decode (before ++ d :: after) ≠ ([], [])) :
    decode (before ++ c :: after) ≠ ([], []) ↔
      c = lowerCase d ∧ ∀ x ∈ before ++ after, Letterless x := by
  obtain ⟨hrp, a, rfl, ha⟩ := exists_split hbefore
  have htext : ∀ {x : Char}, x ≠ '1' → '1' ∉ a ++ x :: after := fun {x} hx => by
    simp only [List.mem_append, List.mem_cons, not_or]
    exact ⟨ha, Ne.symm hx, hafter⟩
  have hone := (charset_spec c hc).2.2
  rw [List.append_assoc, List.cons_append] at hvalid ⊢
  obtain ⟨values, hacc⟩ := exists_accepted (htext hd) hvalid
  constructor
  · intro hvalid'
    obtain ⟨values', hacc'⟩ := exists_accepted (htext hone) hvalid'
    obtain ⟨va, v, vb, -, -, hv, -⟩ := mapM_append_cons.mp hacc.values_eq
    have hlower : c = lowerCase d := by
      rw [← charsetAt_of_rev hv, charsetAt_of_rev ((hacc.rev_eq hacc').trans hv),
        lowerCase_eq_self (charset_spec c hc).2.1]
    subst hlower
    exact ⟨rfl, hacc.letterless hne hacc'⟩
  · rintro ⟨rfl, hletterless⟩
    exact (hacc.lowered hletterless).decode_ne (htext hone)

end Substitution

end Bech32

end AnkerNode
