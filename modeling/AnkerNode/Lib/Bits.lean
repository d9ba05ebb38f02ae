import Mathlib.Data.List.Basic
import Mathlib.Data.List.Induction
import Mathlib.Data.Nat.Bitwise
import Mathlib.Tactic.Positivity
import Mathlib.Tactic.Ring

-- Bits in bytes, eight in each, the least significant one first.
namespace BitBytes

def setBit (bytes : List UInt8) (p : Nat) (bit : Bool) : List UInt8 :=
  bytes.modify (p / 8) fun b => b ||| UInt8.ofNat (bit.toNat <<< (p % 8))

def getBit (bytes : List UInt8) (p : Nat) : Bool :=
  (bytes.getD (p / 8) 0).toNat &&& 1 <<< (p % 8) != 0

def packTo (bits : List Bool) (n : Nat) : List UInt8 :=
  (List.range n).foldl (fun bytes p => setBit bytes p (bits.getD p false))
    (List.replicate ((bits.length + 7) / 8) 0)

def pack (bits : List Bool) : List UInt8 := packTo bits bits.length

def unpack (bytes : List UInt8) : List Bool := (List.range (bytes.length * 8)).map (getBit bytes)

theorem length_setBit (bytes : List UInt8) (p : Nat) (bit : Bool) :
    (setBit bytes p bit).length = bytes.length := by
  rw [setBit, List.length_modify]

theorem packTo_succ (bits : List Bool) (n : Nat) :
    packTo bits (n + 1) = setBit (packTo bits n) n (bits.getD n false) := by
  rw [packTo, List.range_succ, List.foldl_append]
  rfl

theorem length_packTo (bits : List Bool) (n : Nat) :
    (packTo bits n).length = (bits.length + 7) / 8 := by
  induction n with
  | zero => exact List.length_replicate
  | succ n ih => rw [packTo_succ, length_setBit, ih]

theorem length_unpack (bytes : List UInt8) : (unpack bytes).length = bytes.length * 8 := by
  rw [unpack, List.length_map, List.length_range]

theorem getBit_eq_testBit (bytes : List UInt8) (p : Nat) :
    getBit bytes p = (bytes.getD (p / 8) 0).toNat.testBit (p % 8) := by
  rw [getBit, Nat.one_shiftLeft, Nat.and_two_pow]
  cases (bytes.getD (p / 8) 0).toNat.testBit (p % 8) <;> simp

theorem testBit_or_bit (b : UInt8) (bit : Bool) {i j : Nat} (hj : j < 8) :
    (b ||| UInt8.ofNat (bit.toNat <<< i)).toNat.testBit j =
      (b.toNat.testBit j || decide (j = i) && bit) := by
  have hbit : (UInt8.ofNat (bit.toNat <<< i)).toNat.testBit j = (decide (j = i) && bit) := by
    rw [UInt8.toNat_ofNat', Nat.testBit_mod_two_pow, decide_eq_true hj, Bool.true_and,
      Nat.testBit_shiftLeft, Nat.testBit_bool_toNat, ← Bool.and_assoc]
    congr 1
    rw [← Bool.decide_and]
    exact decide_eq_decide.mpr (by omega)
  rw [UInt8.toNat_or, Nat.testBit_or, hbit]

theorem getBit_setBit {bytes : List UInt8} {p : Nat} (hp : p / 8 < bytes.length) (bit : Bool)
    (q : Nat) : getBit (setBit bytes p bit) q = (getBit bytes q || decide (q = p) && bit) := by
  rw [getBit_eq_testBit, getBit_eq_testBit, setBit, List.getD_eq_getElem?_getD,
    List.getElem?_modify, List.getD_eq_getElem?_getD]
  by_cases hbyte : p / 8 = q / 8
  · have hq : decide (q % 8 = p % 8) = decide (q = p) := decide_eq_decide.mpr (by omega)
    rw [hbyte] at hp
    simp only [hbyte, if_true, List.getElem?_eq_getElem hp, Option.map_eq_map, Option.map_some,
      Option.getD_some]
    rw [testBit_or_bit _ _ (Nat.mod_lt q (by decide)), hq]
  · have hq : decide (q = p) = false := decide_eq_false (by omega)
    rw [hq, Bool.false_and, Bool.or_false]
    simp only [if_neg hbyte, Option.map_eq_map, Option.map_id_fun', id_eq]

theorem getBit_packTo {bits : List Bool} {n : Nat} (hn : n ≤ bits.length) (q : Nat) :
    getBit (packTo bits n) q = (decide (q < n) && bits.getD q false) := by
  induction n with
  | zero =>
    have hzero : (List.replicate ((bits.length + 7) / 8) (0 : UInt8)).getD (q / 8) 0 = 0 := by
      rw [List.getD_eq_getElem?_getD, List.getElem?_replicate]
      split <;> rfl
    rw [getBit_eq_testBit, packTo, List.range_zero, List.foldl_nil, hzero]
    simp
  | succ n ih =>
    have hbyte : n / 8 < (packTo bits n).length := by
      rw [length_packTo]
      omega
    rw [packTo_succ, getBit_setBit hbyte, ih (by omega)]
    rcases Nat.lt_trichotomy q n with hlt | rfl | hgt
    · simp [hlt, Nat.lt_succ_of_lt hlt, Nat.ne_of_lt hlt]
    · simp
    · have hnot : ¬q < n + 1 := by omega
      simp [hnot, Nat.not_lt.mpr hgt.le, Nat.ne_of_gt hgt]

-- The last byte is filled with zeros.
theorem unpack_pack (bits : List Bool) : unpack (pack bits) =
    bits ++ List.replicate ((bits.length + 7) / 8 * 8 - bits.length) false := by
  have hlength : (unpack (pack bits)).length = (bits.length + 7) / 8 * 8 := by
    rw [length_unpack, pack, length_packTo]
  refine List.ext_getElem (by rw [hlength, List.length_append, List.length_replicate]; omega)
    fun p hp hp' => ?_
  have hget : (unpack (pack bits))[p] = getBit (pack bits) p := by simp [unpack]
  rw [hget, pack, getBit_packTo le_rfl]
  by_cases hlt : p < bits.length
  · rw [List.getElem_append_left hlt, List.getD_eq_getElem _ _ hlt, decide_eq_true hlt,
      Bool.true_and]
  · rw [List.getElem_append_right (Nat.le_of_not_lt hlt), List.getElem_replicate,
      decide_eq_false hlt, Bool.false_and]

end BitBytes

-- Numbers as bits, the highest first, and a row of bits cut into groups of one length.
namespace BitGroups

def bits : Nat → Nat → List Bool
  | 0, _ => []
  | w + 1, n => n.testBit w :: bits w n

def value : List Bool → Nat
  | [] => 0
  | b :: l => b.toNat * 2 ^ l.length + value l

theorem length_bits (w n : Nat) : (bits w n).length = w := by
  induction w with
  | zero => rfl
  | succ w ih => rw [bits, List.length_cons, ih]

theorem value_append (a b : List Bool) : value (a ++ b) = value a * 2 ^ b.length + value b := by
  induction a with
  | nil => simp [value]
  | cons x a ih =>
    rw [List.cons_append, value, value, ih, List.length_append, Nat.pow_add]
    ring

theorem value_lt (l : List Bool) : value l < 2 ^ l.length := by
  induction l with
  | nil => exact Nat.one_pos
  | cons b l ih =>
    have hb : b.toNat * 2 ^ l.length ≤ 1 * 2 ^ l.length :=
      Nat.mul_le_mul_right _ (Bool.toNat_le b)
    rw [value, List.length_cons, Nat.pow_succ]
    omega

theorem value_bits (w n : Nat) : value (bits w n) = n % 2 ^ w := by
  induction w with
  | zero => rw [Nat.pow_zero, Nat.mod_one]; rfl
  | succ w ih =>
    rw [bits, value, length_bits, ih, Nat.toNat_testBit, Nat.pow_succ, Nat.mod_mul]
    ring

theorem value_inj {a b : List Bool} (hlength : a.length = b.length) (h : value a = value b) :
    a = b := by
  induction a generalizing b with
  | nil => exact (List.length_eq_zero_iff.mp hlength.symm).symm
  | cons x a ih =>
    match b with
    | y :: b =>
      have htail : a.length = b.length := by simpa using hlength
      have ha := value_lt a
      have hb := value_lt b
      rw [value, value, htail] at h
      rw [htail] at ha
      generalize 2 ^ b.length = p at ha hb h
      cases x <;> cases y <;> simp only [Bool.toNat_false, Bool.toNat_true, Nat.zero_mul,
        Nat.zero_add, Nat.one_mul] at h
      · rw [ih htail h]
      · omega
      · omega
      · rw [ih htail (by omega)]

theorem bits_value {w : Nat} {l : List Bool} (hl : l.length = w) : bits w (value l) = l := by
  refine value_inj (by rw [length_bits, hl]) ?_
  rw [value_bits, Nat.mod_eq_of_lt (by rw [← hl]; exact value_lt l)]

theorem value_replicate_false (k : Nat) : value (List.replicate k false) = 0 := by
  induction k with
  | zero => rfl
  | succ k ih => rw [List.replicate_succ, value, ih, Bool.toNat_false, Nat.zero_mul]

-- `l` in groups of `t`, and a rest that is too short for one
structure Grouped (t : Nat) (l : List Bool) (groups : List (List Bool)) (rest : List Bool) :
    Prop where
  append_eq : groups.flatten ++ rest = l
  length_eq : ∀ g ∈ groups, g.length = t
  rest_lt : rest.length < t

theorem Grouped.unique {t : Nat} {l rest rest' : List Bool} {groups groups' : List (List Bool)}
    (h : Grouped t l groups rest) (h' : Grouped t l groups' rest') :
    groups = groups' ∧ rest = rest' := by
  obtain ⟨happend, hlength, hrest⟩ := h
  obtain ⟨happend', hlength', hrest'⟩ := h'
  induction groups generalizing groups' l with
  | nil =>
    cases groups' with
    | nil =>
      rw [List.flatten_nil, List.nil_append] at happend happend'
      exact ⟨rfl, happend.trans happend'.symm⟩
    | cons g' groups' =>
      have hlong := congrArg List.length (happend.trans happend'.symm)
      have hg' := hlength' g' (by simp)
      simp only [List.flatten_nil, List.nil_append, List.flatten_cons, List.length_append] at hlong
      omega
  | cons g groups ih =>
    have hg := hlength g (by simp)
    cases groups' with
    | nil =>
      have hlong := congrArg List.length (happend.trans happend'.symm)
      simp only [List.flatten_nil, List.nil_append, List.flatten_cons, List.length_append] at hlong
      omega
    | cons g' groups' =>
      have hg' := hlength' g' (by simp)
      have heq := happend.trans happend'.symm
      rw [List.flatten_cons, List.flatten_cons, List.append_assoc, List.append_assoc] at heq
      obtain ⟨rfl, htail⟩ := List.append_inj heq (hg.trans hg'.symm)
      obtain ⟨rfl, rfl⟩ := ih htail (fun x hx => hlength x (by simp [hx])) rfl
        (fun x hx => hlength' x (by simp [hx]))
      exact ⟨rfl, rfl⟩

theorem Grouped.append {t : Nat} {a b rest rest' : List Bool} {groups groups' : List (List Bool)}
    (h : Grouped t a groups rest) (h' : Grouped t (rest ++ b) groups' rest') :
    Grouped t (a ++ b) (groups ++ groups') rest' where
  append_eq := by
    rw [List.flatten_append, List.append_assoc, h'.append_eq, ← h.append_eq, List.append_assoc]
  length_eq g hg := by
    rcases List.mem_append.mp hg with hg | hg
    · exact h.length_eq g hg
    · exact h'.length_eq g hg
  rest_lt := h'.rest_lt

end BitGroups

namespace Packing

variable {w n : Nat}

def push (acc : BitVec n) (c : BitVec w) : BitVec n := acc <<< w ||| c.setWidth n

def pack (n : Nat) (l : List (BitVec w)) : BitVec n := l.foldl push 0

def field (w : Nat) (k : Nat) (x : BitVec n) : BitVec w := (x >>> (w * k)).setWidth w

theorem getLsbD_field {k i : Nat} (x : BitVec n) (hi : i < w) :
    (field w k x).getLsbD i = x.getLsbD (w * k + i) := by
  simp [field, hi]

theorem field_zero_push (hw : w ≤ n) (acc : BitVec n) (c : BitVec w) :
    field w 0 (push acc c) = c := by
  refine BitVec.eq_of_getLsbD_eq fun i hi => ?_
  rw [getLsbD_field _ hi]
  simp [push, hi, show i < n by omega]

theorem field_succ_push {k : Nat} (hk : w * (k + 2) ≤ n) (acc : BitVec n) (c : BitVec w) :
    field w (k + 1) (push acc c) = field w k acc := by
  refine BitVec.eq_of_getLsbD_eq fun i hi => ?_
  rw [getLsbD_field _ hi, getLsbD_field _ hi]
  have hk' : w * (k + 1) + i = w + (w * k + i) := by ring
  have hlt : w + (w * k + i) < n := by
    have : w * (k + 2) = w + w * k + w := by ring
    omega
  have hlow : w * k + i < n := by omega
  rw [hk', BitVec.getLsbD_eq_getElem hlow]
  simp [push, hlt]

theorem field_pack {l : List (BitVec w)} (hl : w * l.length ≤ n) {k : Nat} (hk : k < l.length) :
    field w k (pack n l) = l[l.length - 1 - k] := by
  induction l using List.reverseRecOn generalizing k with
  | nil => simp at hk
  | append_singleton l c ih =>
    simp only [List.length_append, List.length_singleton] at hl hk
    have hpack : pack n (l ++ [c]) = push (pack n l) c := by simp [pack]
    have hmul : w * (l.length + 1) = w * l.length + w := by ring
    cases k with
    | zero =>
      rw [hpack, field_zero_push (by omega)]
      simp
    | succ k =>
      have hfit : w * (k + 2) ≤ n := (Nat.mul_le_mul_left w (by omega)).trans hl
      rw [hpack, field_succ_push hfit, ih (by omega) (by omega), List.getElem_append_left (by
        simp only [List.length_append, List.length_singleton]
        omega)]
      congr 1
      simp only [List.length_append, List.length_singleton]
      omega

theorem eq_of_field_eq {m : Nat} (hw : n ≤ w * m) {x y : BitVec n}
    (h : ∀ k < m, field w k x = field w k y) : x = y := by
  refine BitVec.eq_of_getLsbD_eq fun i hi => ?_
  have hpos : 0 < w := by
    rcases Nat.eq_zero_or_pos w with rfl | hpos
    · omega
    · exact hpos
  have hdiv : i / w < m := Nat.div_lt_of_lt_mul (by omega)
  have hbit := congrArg (fun z : BitVec w => z.getLsbD (i % w)) (h (i / w) hdiv)
  simpa only [getLsbD_field _ (Nat.mod_lt i hpos), Nat.div_add_mod] using hbit

end Packing

namespace AnkerNode

namespace TwosComplement

def unsigned : List UInt8 → Nat
  | [] => 0
  | b :: bytes => b.toNat * 256 ^ bytes.length + unsigned bytes

-- the big-endian integer whose sign is the first byte's highest bit
def signed : List UInt8 → Int
  | [] => 0
  | b :: bytes =>
      if b.toNat < 128 then unsigned (b :: bytes)
      else unsigned (b :: bytes) - 256 ^ (bytes.length + 1)

-- a leading zero is superfluous when the bytes after it mean the same number
structure Canonical (bytes : List UInt8) : Prop where
  ne_nil : bytes ≠ []
  nonneg : 0 ≤ signed bytes
  minimal : ∀ rest, bytes = 0 :: rest → rest ≠ [] → signed rest ≠ signed bytes

theorem unsigned_lt (bytes : List UInt8) : unsigned bytes < 256 ^ bytes.length := by
  induction bytes with
  | nil => simp [unsigned]
  | cons b bytes ih =>
    have hb : b.toNat + 1 ≤ 256 := b.toNat_lt
    calc unsigned (b :: bytes) = b.toNat * 256 ^ bytes.length + unsigned bytes := rfl
      _ < b.toNat * 256 ^ bytes.length + 256 ^ bytes.length := by omega
      _ = (b.toNat + 1) * 256 ^ bytes.length := by ring
      _ ≤ 256 * 256 ^ bytes.length := Nat.mul_le_mul_right _ hb
      _ = 256 ^ (b :: bytes).length := by rw [List.length_cons, pow_succ]; ring

theorem signed_cons_nonneg_iff (b : UInt8) (bytes : List UInt8) :
    0 ≤ signed (b :: bytes) ↔ b.toNat < 128 := by
  have hlt : (unsigned (b :: bytes) : Int) < 256 ^ (bytes.length + 1) := by
    exact_mod_cast unsigned_lt (b :: bytes)
  rw [signed]
  split
  case isTrue h => exact ⟨fun _ => h, fun _ => Int.natCast_nonneg _⟩
  case isFalse h => exact ⟨fun hle => by omega, fun hb => absurd hb h⟩

theorem signed_zero_cons (bytes : List UInt8) : signed (0 :: bytes) = unsigned bytes := by
  simp [signed, unsigned]

theorem signed_eq_unsigned_iff (b : UInt8) (bytes : List UInt8) :
    signed (b :: bytes) = unsigned (b :: bytes) ↔ b.toNat < 128 := by
  have hpos : (0 : Int) < 256 ^ (bytes.length + 1) := by positivity
  rw [signed]
  split
  case isTrue h => exact ⟨fun _ => h, fun _ => rfl⟩
  case isFalse h => exact ⟨fun heq => by omega, fun hb => absurd hb h⟩

theorem canonical_singleton_iff (b : UInt8) : Canonical [b] ↔ b.toNat < 128 := by
  constructor
  · intro h
    exact (signed_cons_nonneg_iff b []).mp h.nonneg
  · intro hb
    refine ⟨by simp, (signed_cons_nonneg_iff b []).mpr hb, ?_⟩
    intro rest heq hne
    exact absurd (List.cons.inj heq).2.symm hne

theorem canonical_cons_cons_iff (b c : UInt8) (bytes : List UInt8) :
    Canonical (b :: c :: bytes) ↔ b.toNat < 128 ∧ (b = 0 → 128 ≤ c.toNat) := by
  constructor
  · intro h
    refine ⟨(signed_cons_nonneg_iff b _).mp h.nonneg, ?_⟩
    rintro rfl
    by_contra hc
    apply h.minimal (c :: bytes) rfl (by simp)
    rw [signed_zero_cons, signed_eq_unsigned_iff]
    omega
  · rintro ⟨hb, hc⟩
    refine ⟨by simp, (signed_cons_nonneg_iff b _).mpr hb, ?_⟩
    intro rest heq _ hsame
    obtain ⟨rfl, rfl⟩ := List.cons.inj heq
    rw [signed_zero_cons, signed_eq_unsigned_iff] at hsame
    have := hc rfl
    omega

end TwosComplement

end AnkerNode
