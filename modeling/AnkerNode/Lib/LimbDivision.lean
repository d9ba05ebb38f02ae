import AnkerNode.Lib.LimbArith
import Mathlib.Algebra.Order.Group.Nat
import Mathlib.Data.Nat.Size
import Mathlib.Order.Basic

namespace RoundDown

theorem size_shiftRight (x j : Nat) : (x >>> j).size = x.size - j := by
  apply eq_of_forall_lt_iff
  intro c
  rw [Nat.lt_size, Nat.shiftRight_eq_div_pow, Nat.le_div_iff_mul_le (Nat.two_pow_pos j),
    ← Nat.pow_add, ← Nat.lt_size]
  omega

-- a bit above which there is none
theorem testBit_top {x n : Nat} (hx : x.size ≤ n + 1) :
    x.testBit n = decide (n < x.size) := by
  have hlt : x < 2 ^ n * 2 := by
    rw [← Nat.pow_succ]
    exact Nat.size_le.mp hx
  rw [Nat.testBit_eq_decide_div_mod_eq, decide_eq_decide, Nat.lt_size]
  have hdiv : x / 2 ^ n < 2 := Nat.div_lt_of_lt_mul hlt
  have hle := Nat.le_div_iff_mul_le (k := 2 ^ n) (x := 1) (y := x) (Nat.two_pow_pos n)
  rw [Nat.one_mul] at hle
  rw [← hle]
  generalize x / 2 ^ n = q at hdiv
  omega

-- `x` with its lowest `drop x.size` places cleared
def roundDown (drop : Nat → Nat) (x : Nat) : Nat := x >>> drop x.size <<< drop x.size

variable {drop : Nat → Nat} {x y : Nat}

theorem roundDown_eq (drop : Nat → Nat) (x : Nat) :
    roundDown drop x = x / 2 ^ drop x.size * 2 ^ drop x.size := by
  rw [roundDown, Nat.shiftLeft_eq, Nat.shiftRight_eq_div_pow]

theorem roundDown_le (drop : Nat → Nat) (x : Nat) : roundDown drop x ≤ x := by
  rw [roundDown_eq]
  exact Nat.div_mul_le_self x _

theorem roundDown_of_dvd (h : 2 ^ drop x.size ∣ x) : roundDown drop x = x := by
  rw [roundDown_eq, Nat.div_mul_cancel h]

-- the highest place stays
theorem pow_le_roundDown {n : Nat} (hdrop : drop x.size ≤ n) (hx : 2 ^ n ≤ x) :
    2 ^ n ≤ roundDown drop x := by
  obtain ⟨m, rfl⟩ := Nat.exists_eq_add_of_le hdrop
  rw [roundDown_eq, Nat.pow_add, Nat.mul_comm]
  apply Nat.mul_le_mul_right
  rwa [Nat.le_div_iff_mul_le (Nat.two_pow_pos _), Nat.mul_comm, ← Nat.pow_add]

-- Rounding keeps the order when no more than the places below the highest one are dropped.
theorem roundDown_mono (hdrop : ∀ n, drop n ≤ n - 1) (hxy : x ≤ y) :
    roundDown drop x ≤ roundDown drop y := by
  by_cases hsize : x.size = y.size
  · rw [roundDown_eq, roundDown_eq, hsize]
    exact Nat.mul_le_mul_right _ (Nat.div_le_div_right hxy)
  · have hlt : x.size < y.size := lt_of_le_of_ne (Nat.size_le_size hxy) hsize
    calc roundDown drop x ≤ x := roundDown_le drop x
      _ ≤ 2 ^ (y.size - 1) := Nat.le_of_lt (Nat.size_le.mp (by omega))
      _ ≤ roundDown drop y := pow_le_roundDown (hdrop y.size) (Nat.lt_size.mp (by omega))

theorem size_roundDown (hdrop : ∀ n, drop n ≤ n - 1) (x : Nat) :
    (roundDown drop x).size = x.size := by
  apply le_antisymm (Nat.size_le_size (roundDown_le drop x))
  by_cases hx : x = 0
  · simp [hx]
  · have hsize : 0 < x.size := Nat.size_pos.mpr (Nat.pos_of_ne_zero hx)
    have htop := Nat.lt_size.mpr (pow_le_roundDown (hdrop x.size) (Nat.lt_size.mp (by omega)))
    omega

theorem roundDown_idem (hdrop : ∀ n, drop n ≤ n - 1) (x : Nat) :
    roundDown drop (roundDown drop x) = roundDown drop x := by
  apply roundDown_of_dvd
  rw [size_roundDown hdrop, roundDown_eq]
  exact Nat.dvd_mul_left ..

theorem roundDown_le_roundDown_iff (hdrop : ∀ n, drop n ≤ n - 1) :
    roundDown drop x ≤ roundDown drop y ↔ roundDown drop x ≤ y := by
  constructor
  · exact fun h => h.trans (roundDown_le drop y)
  · intro h
    rw [← roundDown_idem hdrop x]
    exact roundDown_mono hdrop h

end RoundDown

namespace LimbArith

-- the highest place of a limb that is set, from `bit` downwards
def topBit (d : Nat) : Nat → Nat
  | 0 => 0
  | bit + 1 => if d.testBit (bit + 1) then bit + 1 else topBit d bit

-- the number of places in the `pos` lowest limbs
def bits (w : Nat) (ds : List Nat) : Nat → Nat
  | 0 => 0
  | pos + 1 =>
    if ds.getD pos 0 ≠ 0 then w * pos + topBit (ds.getD pos 0) (w - 1) + 1 else bits w ds pos

-- compares the `pos` lowest limbs, the highest first
def compareTo (ds es : List Nat) : Nat → Int
  | 0 => 0
  | pos + 1 =>
    if ds.getD pos 0 < es.getD pos 0 then -1
    else if es.getD pos 0 < ds.getD pos 0 then 1
    else compareTo ds es pos

def complement (base : Nat) (ds : List Nat) : List Nat := ds.map (fun d => base - 1 - d)

-- adds one, as far as the limbs wrap
def increment (base : Nat) : List Nat → List Nat
  | [] => []
  | d :: ds => if (d + 1) % base = 0 then 0 :: increment base ds else (d + 1) % base :: ds

-- a sum is the row of a product by one
def addLimbs (base : Nat) (ds es : List Nat) : List Nat := addMulLimb base 1 0 ds es

def negLimbs (base : Nat) (ds : List Nat) : List Nat := increment base (complement base ds)

def subLimbs (base : Nat) (ds es : List Nat) : List Nat := addLimbs base ds (negLimbs base es)

-- Shifts limbs of `w` bits down by `s` bits, with what the limb above leaves.
def shiftBitsDown (w s : Nat) : List Nat → List Nat
  | [] => []
  | d :: ds => ((d >>> s) ||| (ds.headD 0 <<< (w - s)) % 2 ^ w) :: shiftBitsDown w s ds

def shiftRight (w shift : Nat) (ds : List Nat) : List Nat :=
  shiftBitsDown w (shift % w) (ds.drop (shift / w)) ++
    List.replicate (min (shift / w) ds.length) 0

def setBit (w shift : Nat) (ds : List Nat) : List Nat :=
  ds.modify (shift / w) (fun d => d ||| 1 <<< (shift % w))

-- the loop of the long division: the quotient, with what is left of `num`
def divideLoop (w n : Nat) : Nat → List Nat → List Nat → List Nat → List Nat × List Nat
  | 0, num, _, q => (q, num)
  | shift + 1, num, div, q =>
    if 0 ≤ compareTo num div n then
      divideLoop w n shift (subLimbs (2 ^ w) num div) (shiftRight w 1 div) (setBit w shift q)
    else divideLoop w n shift num (shiftRight w 1 div) q

-- the quotient of two numbers of `n` limbs
def divideLimbs (w n : Nat) (num div : List Nat) : Option (List Nat) :=
  let q := List.replicate n 0
  let numBits := bits w num n
  let divBits := bits w div n
  if divBits = 0 then none
  else if numBits < divBits then some q
  else
    let shift := numBits - divBits
    some (divideLoop w n (shift + 1) num (shiftLeft w shift div) q).1

variable {w : Nat}

theorem topBit_add_one (bit : Nat) {d : Nat} (hd : d ≠ 0) (hsize : d.size ≤ bit + 1) :
    topBit d bit + 1 = d.size := by
  have hpos : 0 < d.size := Nat.size_pos.mpr (Nat.pos_of_ne_zero hd)
  induction bit with
  | zero =>
    rw [topBit]
    omega
  | succ bit ih =>
    rw [topBit, RoundDown.testBit_top hsize]
    by_cases htop : bit + 1 < d.size
    · simp only [htop, decide_true, if_true]
      omega
    · simp only [htop, decide_false, Bool.false_eq_true, if_false]
      exact ih (by omega)

theorem size_add_two_pow_mul {lo k d : Nat} (hlo : lo < 2 ^ k) (hd : d ≠ 0) :
    (lo + 2 ^ k * d).size = k + d.size := by
  have hpos : 0 < d.size := Nat.size_pos.mpr (Nat.pos_of_ne_zero hd)
  apply le_antisymm
  · rw [Nat.size_le, Nat.pow_add]
    calc lo + 2 ^ k * d < 2 ^ k * (d + 1) := by rw [Nat.mul_add]; omega
      _ ≤ 2 ^ k * 2 ^ d.size := Nat.mul_le_mul_left _ (Nat.lt_size_self d)
  · obtain ⟨n, hn⟩ : ∃ n, d.size = n + 1 := ⟨d.size - 1, by omega⟩
    have hlow : 2 ^ n ≤ d := Nat.lt_size.mp (by omega)
    have hmul := Nat.mul_le_mul_left (2 ^ k) hlow
    rw [hn, ← Nat.add_assoc, Nat.add_one_le_iff, Nat.lt_size, Nat.pow_add]
    omega

theorem getD_lt {base : Nat} (hbase : 0 < base) {ds : List Nat} (hds : ∀ d ∈ ds, d < base)
    (pos : Nat) : ds.getD pos 0 < base := by
  by_cases hpos : pos < ds.length
  · rw [List.getD_eq_getElem _ _ hpos]
    exact hds _ (List.getElem_mem hpos)
  · rw [List.getD_eq_default _ _ (Nat.not_lt.mp hpos)]
    exact hbase

theorem ofDigits_take_succ (base : Nat) {ds : List Nat} {pos : Nat} (hpos : pos < ds.length) :
    Nat.ofDigits base (ds.take (pos + 1)) =
      Nat.ofDigits base (ds.take pos) + base ^ pos * ds.getD pos 0 := by
  have hlength : (ds.take pos).length = pos := by
    rw [List.length_take]
    omega
  rw [List.take_add_one, List.getElem?_eq_getElem hpos, Nat.ofDigits_append, hlength,
    List.getD_eq_getElem _ _ hpos]
  simp

theorem ofDigits_take_lt {base : Nat} {ds : List Nat} (hds : ∀ d ∈ ds, d < base) (pos : Nat) :
    Nat.ofDigits base (ds.take pos) < base ^ (ds.take pos).length := by
  generalize htake : ds.take pos = es
  have hes : ∀ e ∈ es, e < base := by
    intro e he
    exact hds e (List.mem_of_mem_take (htake ▸ he))
  clear htake
  induction es with
  | nil => simp
  | cons e es ih =>
    rw [List.forall_mem_cons] at hes
    have hrest := ih hes.2
    have hmul := Nat.mul_le_mul_left base hrest
    rw [Nat.ofDigits_cons, List.length_cons, Nat.pow_succ']
    rw [Nat.mul_succ] at hmul
    omega

theorem bits_eq {ds : List Nat} (hds : ∀ d ∈ ds, d < 2 ^ w) {pos : Nat}
    (hpos : pos ≤ ds.length) : bits w ds pos = (Nat.ofDigits (2 ^ w) (ds.take pos)).size := by
  induction pos with
  | zero => simp [bits]
  | succ pos ih =>
    rw [bits, ofDigits_take_succ _ hpos]
    have hd := getD_lt (Nat.two_pow_pos w) hds pos
    generalize ds.getD pos 0 = d at hd
    by_cases h0 : d = 0
    · rw [h0, if_neg (by decide), Nat.mul_zero, Nat.add_zero]
      exact ih (by omega)
    · have hsize : d.size ≤ w := Nat.size_le.mpr hd
      have hdpos : 0 < d.size := Nat.size_pos.mpr (Nat.pos_of_ne_zero h0)
      have htop := topBit_add_one (w - 1) h0 (by omega)
      have hlow := ofDigits_take_lt hds pos
      have hlength : (ds.take pos).length = pos := by
        rw [List.length_take]
        omega
      rw [hlength, ← Nat.pow_mul] at hlow
      rw [if_pos h0, ← Nat.pow_mul, size_add_two_pow_mul hlow h0]
      omega

-- The highest limbs that differ decide.
theorem compareTo_eq {base : Nat} {ds es : List Nat} (hds : ∀ d ∈ ds, d < base)
    (hes : ∀ e ∈ es, e < base) {pos : Nat} (hpos : pos ≤ ds.length)
    (hpos' : pos ≤ es.length) :
    compareTo ds es pos =
      if Nat.ofDigits base (ds.take pos) < Nat.ofDigits base (es.take pos) then -1
      else if Nat.ofDigits base (es.take pos) < Nat.ofDigits base (ds.take pos) then 1 else 0 := by
  induction pos with
  | zero => simp [compareTo]
  | succ pos ih =>
    have hlow := ofDigits_take_lt hds pos
    have hlow' := ofDigits_take_lt hes pos
    rw [List.length_take, Nat.min_eq_left (by omega)] at hlow hlow'
    rw [compareTo, ofDigits_take_succ base hpos, ofDigits_take_succ base hpos',
      ih (by omega) (by omega)]
    generalize ds.getD pos 0 = d
    generalize es.getD pos 0 = e
    rcases Nat.lt_trichotomy d e with hlt | rfl | hgt
    · have hmul := Nat.mul_le_mul_left (base ^ pos) hlt
      rw [Nat.mul_succ] at hmul
      rw [if_pos hlt, if_pos (by omega)]
    · simp
    · have hmul := Nat.mul_le_mul_left (base ^ pos) hgt
      rw [Nat.mul_succ] at hmul
      rw [if_neg (by omega), if_pos hgt, if_neg (by omega), if_pos (by omega)]

theorem compareTo_nonneg_iff {base n : Nat} {ds es : List Nat} (hds : ∀ d ∈ ds, d < base)
    (hes : ∀ e ∈ es, e < base) (hn : ds.length = n) (hn' : es.length = n) :
    0 ≤ compareTo ds es n ↔ Nat.ofDigits base es ≤ Nat.ofDigits base ds := by
  rw [compareTo_eq hds hes hn.ge hn'.ge, List.take_of_length_le hn.le, List.take_of_length_le hn'.le]
  split
  · omega
  · split
    · omega
    · omega

theorem length_complement (base : Nat) (ds : List Nat) :
    (complement base ds).length = ds.length := List.length_map _

theorem complement_lt {base : Nat} (hbase : 0 < base) (ds : List Nat) :
    ∀ d ∈ complement base ds, d < base := by
  simp only [complement, List.mem_map, forall_exists_index, and_imp]
  intro d e _ hd
  omega

theorem ofDigits_complement {base : Nat} {ds : List Nat} (hds : ∀ d ∈ ds, d < base) :
    Nat.ofDigits base (complement base ds) + Nat.ofDigits base ds + 1 = base ^ ds.length := by
  induction ds with
  | nil => simp [complement]
  | cons d ds ih =>
    rw [List.forall_mem_cons] at hds
    have hrest := congrArg (base * ·) (ih hds.2)
    simp only [Nat.mul_add, Nat.mul_one] at hrest
    simp only [complement, List.map_cons, Nat.ofDigits_cons, List.length_cons, Nat.pow_succ'] at hrest ⊢
    omega

theorem length_increment (base : Nat) (ds : List Nat) :
    (increment base ds).length = ds.length := by
  induction ds with
  | nil => rfl
  | cons d ds ih =>
    rw [increment]
    split
    · rw [List.length_cons, List.length_cons, ih]
    · rfl

theorem increment_lt {base : Nat} {ds : List Nat} (hds : ∀ d ∈ ds, d < base) :
    ∀ d ∈ increment base ds, d < base := by
  induction ds with
  | nil => simp [increment]
  | cons d ds ih =>
    rw [List.forall_mem_cons] at hds
    have hbase : 0 < base := Nat.zero_lt_of_lt hds.1
    rw [increment]
    split
    · exact List.forall_mem_cons.mpr ⟨hbase, ih hds.2⟩
    · exact List.forall_mem_cons.mpr ⟨Nat.mod_lt _ hbase, hds.2⟩

theorem ofDigits_increment {base : Nat} {ds : List Nat} (hds : ∀ d ∈ ds, d < base) :
    Nat.ofDigits base (increment base ds) = (Nat.ofDigits base ds + 1) % base ^ ds.length := by
  induction ds with
  | nil => simp [increment]
  | cons d ds ih =>
    rw [List.forall_mem_cons] at hds
    rw [increment, List.length_cons, Nat.pow_succ', Nat.ofDigits_cons]
    rcases Nat.lt_or_eq_of_le (Nat.succ_le_of_lt hds.1) with hlt | heq
    · have hd : (d + 1) % base = d + 1 := Nat.mod_eq_of_lt hlt
      have hrest := ofDigits_take_lt hds.2 ds.length
      rw [List.take_length] at hrest
      have hmul := Nat.mul_le_mul_left base hrest
      rw [Nat.mul_succ] at hmul
      rw [if_neg (by omega), Nat.ofDigits_cons, hd, Nat.mod_eq_of_lt (by omega)]
      omega
    · have hwrap : (d + 1) % base = 0 := heq ▸ Nat.mod_self _
      have hsum : d + base * Nat.ofDigits base ds + 1 = base * (Nat.ofDigits base ds + 1) := by
        rw [Nat.mul_add]
        omega
      rw [if_pos hwrap, Nat.ofDigits_cons, ih hds.2, hsum, Nat.mul_mod_mul_left, Nat.zero_add]

theorem length_negLimbs (base : Nat) (ds : List Nat) : (negLimbs base ds).length = ds.length := by
  rw [negLimbs, length_increment, length_complement]

theorem negLimbs_lt {base : Nat} (hbase : 0 < base) (ds : List Nat) :
    ∀ d ∈ negLimbs base ds, d < base := increment_lt (complement_lt hbase ds)

theorem ofDigits_negLimbs {base : Nat} (hbase : 0 < base) {ds : List Nat}
    (hds : ∀ d ∈ ds, d < base) :
    Nat.ofDigits base (negLimbs base ds) =
      (base ^ ds.length - Nat.ofDigits base ds) % base ^ ds.length := by
  have hcomplement := ofDigits_complement hds
  rw [negLimbs, ofDigits_increment (complement_lt hbase ds), length_complement]
  congr 1
  omega

theorem length_subLimbs (base : Nat) (ds es : List Nat) :
    (subLimbs base ds es).length = ds.length := length_addMulLimb ..

theorem subLimbs_lt {base : Nat} (hbase : 0 < base) {ds : List Nat} (hds : ∀ d ∈ ds, d < base)
    (es : List Nat) : ∀ d ∈ subLimbs base ds es, d < base := addMulLimb_lt hbase 1 0 hds

theorem ofDigits_subLimbs {base : Nat} (hbase : 1 < base) {ds es : List Nat}
    (hds : ∀ d ∈ ds, d < base) (hes : ∀ e ∈ es, e < base) (hlength : ds.length = es.length)
    (hle : Nat.ofDigits base es ≤ Nat.ofDigits base ds) :
    Nat.ofDigits base (subLimbs base ds es) = Nat.ofDigits base ds - Nat.ofDigits base es := by
  have hbound := ofDigits_take_lt hds ds.length
  rw [List.take_length] at hbound
  have hneg := negLimbs_lt (Nat.zero_lt_of_lt hbase) es
  rw [subLimbs, addLimbs, ofDigits_addMulLimb hbase hds hneg (by omega)
    (by rw [length_negLimbs, hlength]), ofDigits_negLimbs (by omega) hes, Nat.zero_add, Nat.one_mul,
    ← hlength, Nat.add_mod_mod]
  have hsum : Nat.ofDigits base ds + (base ^ ds.length - Nat.ofDigits base es) =
      Nat.ofDigits base ds - Nat.ofDigits base es + base ^ ds.length := by omega
  rw [hsum, Nat.add_mod_right]
  exact Nat.mod_eq_of_lt (by omega)

theorem length_shiftBitsDown (w s : Nat) (ds : List Nat) :
    (shiftBitsDown w s ds).length = ds.length := by
  induction ds with
  | nil => rfl
  | cons d ds ih => rw [shiftBitsDown, List.length_cons, List.length_cons, ih]

theorem shiftBitsDown_lt (s : Nat) {ds : List Nat} (hds : ∀ d ∈ ds, d < 2 ^ w) :
    ∀ d ∈ shiftBitsDown w s ds, d < 2 ^ w := by
  induction ds with
  | nil => simp [shiftBitsDown]
  | cons d ds ih =>
    rw [List.forall_mem_cons] at hds
    have hhigh : d >>> s < 2 ^ w := (Nat.shiftRight_le d s).trans_lt hds.1
    rw [shiftBitsDown, List.forall_mem_cons]
    exact ⟨Nat.or_lt_two_pow hhigh (Nat.mod_lt _ (Nat.two_pow_pos w)), ih hds.2⟩

theorem headD_mod_two_pow {s : Nat} (hs : s ≤ w) (ds : List Nat) :
    ds.headD 0 % 2 ^ s = Nat.ofDigits (2 ^ w) ds % 2 ^ s := by
  cases ds with
  | nil => rfl
  | cons d ds =>
    obtain ⟨t, rfl⟩ := Nat.exists_eq_add_of_le hs
    rw [List.headD_cons, Nat.ofDigits_cons, Nat.pow_add, Nat.mul_assoc, Nat.add_mul_mod_self_left]

theorem ofDigits_shiftBitsDown {s : Nat} (hs : s ≤ w) {ds : List Nat}
    (hds : ∀ d ∈ ds, d < 2 ^ w) :
    Nat.ofDigits (2 ^ w) (shiftBitsDown w s ds) = Nat.ofDigits (2 ^ w) ds / 2 ^ s := by
  induction ds with
  | nil => simp [shiftBitsDown]
  | cons d ds ih =>
    rw [List.forall_mem_cons] at hds
    obtain ⟨t, rfl⟩ := Nat.exists_eq_add_of_le hs
    have hhead := headD_mod_two_pow hs ds
    obtain ⟨v, hv⟩ : ∃ v, v = Nat.ofDigits (2 ^ (s + t)) ds := ⟨_, rfl⟩
    have hlow : d >>> s < 2 ^ t := by
      rw [Nat.shiftRight_eq_div_pow, Nat.div_lt_iff_lt_mul (Nat.two_pow_pos s), ← Nat.pow_add,
        Nat.add_comm]
      exact hds.1
    have hcarry : (ds.headD 0 <<< t) % 2 ^ (s + t) = 2 ^ t * (v % 2 ^ s) := by
      rw [Nat.shiftLeft_eq, Nat.mul_comm, Nat.add_comm, Nat.pow_add, Nat.mul_mod_mul_left, hhead, hv]
    have hlimb : (d >>> s) ||| (ds.headD 0 <<< t) % 2 ^ (s + t) = 2 ^ t * (v % 2 ^ s) + d / 2 ^ s := by
      rw [hcarry, Nat.lor_comm, ← Nat.two_pow_add_eq_or_of_lt hlow, Nat.shiftRight_eq_div_pow]
    have hsplit : 2 ^ t * (v % 2 ^ s) + 2 ^ (s + t) * (v / 2 ^ s) = 2 ^ t * v := by
      calc 2 ^ t * (v % 2 ^ s) + 2 ^ (s + t) * (v / 2 ^ s)
          = 2 ^ t * (v % 2 ^ s + 2 ^ s * (v / 2 ^ s)) := by rw [Nat.pow_add]; ring
        _ = 2 ^ t * v := by rw [Nat.mod_add_div]
    have hdiv : (d + 2 ^ (s + t) * v) / 2 ^ s = d / 2 ^ s + 2 ^ t * v := by
      rw [Nat.pow_add, Nat.mul_assoc, Nat.add_mul_div_left _ _ (Nat.two_pow_pos s)]
    rw [shiftBitsDown, Nat.add_sub_cancel_left, hlimb, Nat.ofDigits_cons, ih hds.2,
      Nat.ofDigits_cons, ← hv, hdiv]
    omega

theorem length_shiftRight (w shift : Nat) (ds : List Nat) :
    (shiftRight w shift ds).length = ds.length := by
  rw [shiftRight, List.length_append, length_shiftBitsDown, List.length_drop, List.length_replicate]
  omega

theorem shiftRight_lt (shift : Nat) {ds : List Nat} (hds : ∀ d ∈ ds, d < 2 ^ w) :
    ∀ d ∈ shiftRight w shift ds, d < 2 ^ w := by
  intro d hd
  rcases List.mem_append.mp hd with hd | hd
  · exact shiftBitsDown_lt _ (fun e he => hds e (List.mem_of_mem_drop he)) d hd
  · rw [List.eq_of_mem_replicate hd]
    exact Nat.two_pow_pos w

theorem ofDigits_replicate_zero (base n : Nat) :
    Nat.ofDigits base (List.replicate n 0) = 0 := by
  induction n with
  | zero => rfl
  | succ n ih => rw [List.replicate_succ, Nat.ofDigits_cons, ih, Nat.mul_zero]

theorem ofDigits_shiftRight (hw : 0 < w) (shift : Nat) {ds : List Nat}
    (hds : ∀ d ∈ ds, d < 2 ^ w) :
    Nat.ofDigits (2 ^ w) (shiftRight w shift ds) = Nat.ofDigits (2 ^ w) ds / 2 ^ shift := by
  have hs : shift % w ≤ w := (Nat.mod_lt _ hw).le
  have hpow : 2 ^ shift = (2 ^ w) ^ (shift / w) * 2 ^ (shift % w) := by
    rw [← Nat.pow_mul, ← Nat.pow_add, Nat.div_add_mod]
  rw [shiftRight, Nat.ofDigits_append, ofDigits_replicate_zero, Nat.mul_zero, Nat.add_zero,
    ofDigits_shiftBitsDown hs (fun d hd => hds d (List.mem_of_mem_drop hd)),
    ← Nat.ofDigits_div_pow_eq_ofDigits_drop _ (Nat.two_pow_pos w) _ hds, hpow, Nat.div_div_eq_div_mul]

theorem length_setBit (w shift : Nat) (ds : List Nat) : (setBit w shift ds).length = ds.length :=
  List.length_modify ..

theorem setBit_cons_of_lt {shift : Nat} (hshift : shift < w) (d : Nat) (ds : List Nat) :
    setBit w shift (d :: ds) = (d ||| 1 <<< shift) :: ds := by
  rw [setBit, Nat.div_eq_of_lt hshift, Nat.mod_eq_of_lt hshift, List.modify_zero_cons]

theorem setBit_cons_of_le (hw : 0 < w) (shift d : Nat) (ds : List Nat) :
    setBit w (shift + w) (d :: ds) = d :: setBit w shift ds := by
  rw [setBit, Nat.add_div_right _ hw, Nat.add_mod_right, List.modify_succ_cons, setBit]

theorem ofDigits_setBit (hw : 0 < w) {ds : List Nat} (hds : ∀ d ∈ ds, d < 2 ^ w) {shift : Nat}
    (hshift : shift < w * ds.length) :
    (∀ d ∈ setBit w shift ds, d < 2 ^ w) ∧
      Nat.ofDigits (2 ^ w) (setBit w shift ds) = Nat.ofDigits (2 ^ w) ds ||| 1 <<< shift := by
  induction ds generalizing shift with
  | nil => simp at hshift
  | cons d ds ih =>
    rw [List.forall_mem_cons] at hds
    by_cases hfirst : shift < w
    · have hbit : 1 <<< shift < 2 ^ w := by
        rw [Nat.one_shiftLeft]
        exact Nat.pow_lt_pow_right (by decide) hfirst
      have hd : d ||| 1 <<< shift < 2 ^ w := Nat.or_lt_two_pow hds.1 hbit
      rw [setBit_cons_of_lt hfirst, Nat.ofDigits_cons, Nat.ofDigits_cons]
      refine ⟨List.forall_mem_cons.mpr ⟨hd, hds.2⟩, ?_⟩
      rw [Nat.add_comm, Nat.two_pow_add_eq_or_of_lt hd, Nat.add_comm d,
        Nat.two_pow_add_eq_or_of_lt hds.1, Nat.lor_assoc]
    · obtain ⟨rest, rfl⟩ := Nat.exists_eq_add_of_le' (Nat.not_lt.mp hfirst)
      rw [List.length_cons, Nat.mul_succ] at hshift
      obtain ⟨hlt, hvalue⟩ := @ih hds.2 rest (by omega)
      rw [setBit_cons_of_le hw, Nat.ofDigits_cons, Nat.ofDigits_cons, hvalue]
      refine ⟨List.forall_mem_cons.mpr ⟨hds.1, hlt⟩, ?_⟩
      have hmul : ∀ x : Nat, 2 ^ w * x = x <<< w := fun x => by
        rw [Nat.shiftLeft_eq, Nat.mul_comm]
      rw [Nat.add_comm, Nat.two_pow_add_eq_or_of_lt hds.1, Nat.add_comm d,
        Nat.two_pow_add_eq_or_of_lt hds.1, hmul, hmul, Nat.shiftLeft_add, Nat.shiftLeft_or_distrib,
        Nat.lor_assoc, Nat.lor_assoc, Nat.lor_comm d]

-- Over limbs the loop runs as it does over numbers.
theorem ofDigits_divideLoop (shift : Nat) (hw : 0 < w) {n : Nat} {num div q : List Nat}
    (hnum : ∀ d ∈ num, d < 2 ^ w) (hdiv : ∀ d ∈ div, d < 2 ^ w) (hq : ∀ d ∈ q, d < 2 ^ w)
    (hnumLength : num.length = n) (hdivLength : div.length = n) (hqLength : q.length = n)
    (hshift : shift ≤ w * n) :
    Nat.ofDigits (2 ^ w) (divideLoop w n shift num div q).1 =
      (divLoop shift (Nat.ofDigits (2 ^ w) num) (Nat.ofDigits (2 ^ w) div)
        (Nat.ofDigits (2 ^ w) q)).1 := by
  induction shift generalizing num div q with
  | zero => rfl
  | succ shift ih =>
    have hbase : 1 < 2 ^ w := Nat.one_lt_two_pow hw.ne'
    have hcompare := compareTo_nonneg_iff hnum hdiv hnumLength hdivLength
    have hhalf := ofDigits_shiftRight hw 1 hdiv
    rw [Nat.pow_one, ← Nat.shiftRight_one] at hhalf
    have hhalfLt := shiftRight_lt 1 hdiv
    have hhalfLength : (shiftRight w 1 div).length = n := by rw [length_shiftRight, hdivLength]
    rw [divideLoop, divLoop]
    by_cases hle : Nat.ofDigits (2 ^ w) div ≤ Nat.ofDigits (2 ^ w) num
    · obtain ⟨hsetLt, hset⟩ := @ofDigits_setBit w hw q hq shift (by rw [hqLength]; omega)
      have hsub := ofDigits_subLimbs hbase hnum hdiv (by omega) hle
      rw [if_pos (hcompare.mpr hle), if_pos hle,
        ih (subLimbs_lt (Nat.two_pow_pos w) hnum div) hhalfLt hsetLt
          (by rw [length_subLimbs, hnumLength]) hhalfLength (by rw [length_setBit, hqLength])
          (by omega), hsub, hhalf, hset]
    · rw [if_neg (fun h => hle (hcompare.mp h)), if_neg hle,
        ih hnum hhalfLt hq hnumLength hhalfLength hqLength (by omega), hhalf]

theorem length_shiftBits (w s carry : Nat) (ds : List Nat) :
    (shiftBits w s carry ds).length = ds.length := by
  induction ds generalizing carry with
  | nil => rfl
  | cons d ds ih => rw [shiftBits, List.length_cons, List.length_cons, ih]

theorem length_shiftLeft (w shift : Nat) (ds : List Nat) :
    (shiftLeft w shift ds).length = ds.length := by
  rw [shiftLeft, List.length_take, List.length_append, List.length_replicate, length_shiftBits]
  exact Nat.min_eq_left (Nat.le_add_left _ _)

theorem shiftLeft_lt (hw : 0 < w) (shift : Nat) {ds : List Nat} (hds : ∀ d ∈ ds, d < 2 ^ w) :
    ∀ d ∈ shiftLeft w shift ds, d < 2 ^ w := by
  intro d hd
  rcases List.mem_append.mp (List.mem_of_mem_take hd) with hd | hd
  · rw [List.eq_of_mem_replicate hd]
    exact Nat.two_pow_pos w
  · exact shiftBits_lt (Nat.mod_lt _ hw).le hds (Nat.two_pow_pos _) d hd

theorem replicate_zero_lt (w n : Nat) : ∀ d ∈ List.replicate n 0, d < 2 ^ w := by
  intro d hd
  rw [List.eq_of_mem_replicate hd]
  exact Nat.two_pow_pos w

-- The long division of limbs is the one of the numbers that they hold.
theorem divideLimbs_eq (hw : 0 < w) {n : Nat} {num div : List Nat} (hnum : ∀ d ∈ num, d < 2 ^ w)
    (hdiv : ∀ d ∈ div, d < 2 ^ w) (hnumLength : num.length = n) (hdivLength : div.length = n) :
    (divideLimbs w n num div).map (Nat.ofDigits (2 ^ w)) =
      if Nat.ofDigits (2 ^ w) div = 0 then none
      else some (divide (Nat.ofDigits (2 ^ w) num) (Nat.ofDigits (2 ^ w) div)) := by
  have hnumBits := bits_eq hnum hnumLength.ge
  have hdivBits := bits_eq hdiv hdivLength.ge
  have hshift := ofDigits_shiftLeft hw (bits w num n - bits w div n) hdiv
  have hloop := ofDigits_divideLoop (bits w num n - bits w div n + 1) hw hnum
    (shiftLeft_lt hw (bits w num n - bits w div n) hdiv) (replicate_zero_lt w n) hnumLength
    (by rw [length_shiftLeft, hdivLength]) List.length_replicate
  have hbound := ofDigits_take_lt hnum n
  rw [List.take_of_length_le hnumLength.le] at hnumBits hbound
  rw [List.take_of_length_le hdivLength.le] at hdivBits
  rw [hdivLength] at hshift
  rw [hnumLength, ← Nat.pow_mul] at hbound
  rw [ofDigits_replicate_zero] at hloop
  have hnumSize : bits w num n ≤ w * n := by
    rw [hnumBits]
    exact Nat.size_le.mpr hbound
  simp only [divideLimbs, divide]
  by_cases hzero : Nat.ofDigits (2 ^ w) div = 0
  · rw [hdivBits, hzero, if_pos Nat.size_zero, if_pos rfl]
    rfl
  have hpos : 0 < (Nat.ofDigits (2 ^ w) div).size := Nat.size_pos.mpr (Nat.pos_of_ne_zero hzero)
  rw [if_neg (by omega), if_neg hzero]
  by_cases hlt : bits w num n < bits w div n
  · rw [if_pos hlt, if_pos (by omega), Option.map_some, ofDigits_replicate_zero]
  · -- aligned with the number, the divisor loses no place
    have hfits : Nat.ofDigits (2 ^ w) div * 2 ^ (bits w num n - bits w div n) < (2 ^ w) ^ n := by
      rw [← Nat.pow_mul]
      calc Nat.ofDigits (2 ^ w) div * 2 ^ (bits w num n - bits w div n)
          < 2 ^ bits w div n * 2 ^ (bits w num n - bits w div n) := by
            apply Nat.mul_lt_mul_of_pos_right _ (Nat.two_pow_pos _)
            rw [hdivBits]
            exact Nat.lt_size_self _
        _ = 2 ^ bits w num n := by
            rw [← Nat.pow_add]
            congr 1
            omega
        _ ≤ 2 ^ (w * n) := Nat.pow_le_pow_right (by decide) hnumSize
    rw [Nat.mod_eq_of_lt hfits, ← Nat.shiftLeft_eq] at hshift
    rw [hshift] at hloop
    rw [if_neg hlt, if_neg (by omega), Option.map_some, hloop (by omega), hnumBits, hdivBits]

end LimbArith
