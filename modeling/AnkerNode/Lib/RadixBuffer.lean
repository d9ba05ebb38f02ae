import Mathlib.Data.List.DropRight
import Mathlib.Data.Nat.Digits.Lemmas
import Mathlib.Tactic.Ring

-- A number in a buffer of fixed size, the lowest digit first, of which the digits from `length` on
-- are not in use yet.
namespace RadixBuffer

-- the number times `base`, and `carry` more: what remains of the carry, and the digits now in use
def mulAdd (radix base length : Nat) : Nat → List Nat → Nat → List Nat × Nat × Nat
  | i, [], carry => ([], carry, i)
  | i, d :: ds, carry =>
    if carry ≠ 0 ∨ i < length then
      let n := carry + base * d
      let (ds, last, used) := mulAdd radix base length (i + 1) ds (n / radix)
      (n % radix :: ds, last, used)
    else (d :: ds, carry, i)

structure Represents (radix : Nat) (ds : List Nat) (length value : Nat) : Prop where
  digits_lt : ∀ d ∈ ds, d < radix
  value_eq : Nat.ofDigits radix ds = value
  unused : ∀ d ∈ ds.drop length, d = 0

section MulAdd

variable {radix length : Nat}

theorem ofDigits_eq_zero {ds : List Nat} (h : ∀ d ∈ ds, d = 0) : Nat.ofDigits radix ds = 0 := by
  induction ds with
  | nil => rfl
  | cons d ds ih =>
    rw [List.forall_mem_cons] at h
    rw [Nat.ofDigits_cons, h.1, ih h.2]
    rfl

theorem represents_replicate (hradix : 0 < radix) (size : Nat) :
    Represents radix (List.replicate size 0) 0 0 where
  digits_lt d hd := by rw [List.eq_of_mem_replicate hd]; exact hradix
  value_eq := ofDigits_eq_zero fun _ hd => List.eq_of_mem_replicate hd
  unused _ hd := List.eq_of_mem_replicate (List.mem_of_mem_drop hd)

-- `i` digits are behind. What does not fit is left in the carry.
theorem mulAdd_spec (base : Nat) (hradix : 0 < radix) {i : Nat} {ds : List Nat} (carry : Nat)
    (hdigits : ∀ d ∈ ds, d < radix) (hunused : ∀ d ∈ ds.drop (length - i), d = 0) :
    ∃ out last used, mulAdd radix base length i ds carry = (out, last, used) ∧ i ≤ used ∧
      out.length = ds.length ∧ (∀ d ∈ out, d < radix) ∧ (∀ d ∈ out.drop (used - i), d = 0) ∧
      Nat.ofDigits radix out + radix ^ ds.length * last = Nat.ofDigits radix ds * base + carry := by
  induction ds generalizing i carry with
  | nil => exact ⟨[], carry, i, rfl, le_rfl, rfl, by simp, by simp, by simp⟩
  | cons d ds ih =>
    rw [List.forall_mem_cons] at hdigits
    rw [mulAdd]
    split
    · have hvalue : Nat.ofDigits radix (d :: ds) * base + carry =
          (carry + base * d) % radix +
            radix * (Nat.ofDigits radix ds * base + (carry + base * d) / radix) := by
        calc Nat.ofDigits radix (d :: ds) * base + carry
            = carry + base * d + radix * (Nat.ofDigits radix ds * base) := by
              rw [Nat.ofDigits_cons]
              ring
          _ = radix * ((carry + base * d) / radix) + (carry + base * d) % radix +
                radix * (Nat.ofDigits radix ds * base) := by rw [Nat.div_add_mod]
          _ = _ := by ring
      have hunused' : ∀ e ∈ ds.drop (length - (i + 1)), e = 0 := by
        intro e he
        refine hunused e ?_
        rcases Nat.lt_or_ge i length with hlt | hge
        · rw [show length - i = length - (i + 1) + 1 from by omega, List.drop_succ_cons]
          exact he
        · rw [show length - i = 0 from by omega, List.drop_zero]
          exact List.mem_cons_of_mem d (List.mem_of_mem_drop he)
      obtain ⟨out, last, used, heq, hused, hlength, hlt, hzero, hout⟩ :=
        ih ((carry + base * d) / radix) hdigits.2 hunused'
      refine ⟨(carry + base * d) % radix :: out, last, used, by simp only [heq], by omega,
        by simp [hlength], ?_, ?_, ?_⟩
      · rw [List.forall_mem_cons]
        exact ⟨Nat.mod_lt _ hradix, hlt⟩
      · rw [show used - i = used - (i + 1) + 1 from by omega, List.drop_succ_cons]
        exact hzero
      · rw [hvalue, ← hout, Nat.ofDigits_cons, List.length_cons, Nat.pow_succ']
        ring
    · rename_i hstop
      obtain ⟨hcarry, hlength⟩ := not_or.mp hstop
      rw [not_not] at hcarry
      rw [show length - i = 0 from by omega, List.drop_zero] at hunused
      refine ⟨d :: ds, carry, i, rfl, le_rfl, rfl, List.forall_mem_cons.mpr hdigits, ?_, ?_⟩
      · rw [Nat.sub_self, List.drop_zero]
        exact hunused
      · rw [ofDigits_eq_zero hunused, hcarry, Nat.zero_mul, Nat.mul_zero]

theorem Represents.mulAdd {ds : List Nat} {v : Nat} (h : Represents radix ds length v)
    (hradix : 0 < radix) (base c : Nat) :
    ∃ out last used, RadixBuffer.mulAdd radix base length 0 ds c = (out, last, used) ∧
      out.length = ds.length ∧ (last = 0 → Represents radix out used (v * base + c)) ∧
      (v * base + c < radix ^ ds.length → last = 0) := by
  obtain ⟨out, last, used, heq, -, hlength, hlt, hzero, hvalue⟩ :=
    mulAdd_spec base (i := 0) hradix c h.digits_lt h.unused
  rw [h.value_eq] at hvalue
  refine ⟨out, last, used, heq, hlength, ?_, fun hfits => ?_⟩
  · rintro rfl
    exact ⟨hlt, hvalue, hzero⟩
  · by_contra hlast
    have hle : radix ^ ds.length ≤ radix ^ ds.length * last :=
      Nat.le_mul_of_pos_right _ (Nat.pos_of_ne_zero hlast)
    omega

end MulAdd

section Convert

variable {radix base : Nat}

-- one digit after the other, the highest first
def convert (radix base : Nat) : List Nat → List Nat × Nat → Option (List Nat × Nat)
  | [], s => some s
  | c :: cs, (ds, length) =>
    let (ds, carry, used) := mulAdd radix base length 0 ds c
    if carry = 0 then convert radix base cs (ds, used) else none

def value (base : Nat) (cs : List Nat) (v : Nat) : Nat := cs.foldl (fun v c => v * base + c) v

theorem le_value (hbase : 0 < base) (cs : List Nat) (v : Nat) : v ≤ value base cs v := by
  induction cs generalizing v with
  | nil => exact le_rfl
  | cons c cs ih =>
    have hstep : v ≤ v * base + c := (Nat.le_mul_of_pos_right v hbase).trans (Nat.le_add_right _ c)
    exact hstep.trans (ih (v * base + c))

theorem value_eq (cs : List Nat) (v : Nat) :
    value base cs v = v * base ^ cs.length + Nat.ofDigits base cs.reverse := by
  induction cs generalizing v with
  | nil => simp [value]
  | cons c cs ih =>
    have hstep : value base (c :: cs) v = value base cs (v * base + c) := rfl
    rw [hstep, ih, List.reverse_cons, Nat.ofDigits_append, List.length_reverse, List.length_cons,
      Nat.ofDigits_singleton]
    ring

theorem value_lt (hbase : 1 < base) {cs : List Nat} (hcs : ∀ c ∈ cs, c < base) :
    value base cs 0 < base ^ cs.length := by
  rw [value_eq, Nat.zero_mul, Nat.zero_add, ← List.length_reverse]
  exact Nat.ofDigits_lt_base_pow_length hbase fun c hc => hcs c (List.mem_reverse.mp hc)

theorem value_append (a b : List Nat) (v : Nat) :
    value base (a ++ b) v = value base b (value base a v) :=
  List.foldl_append

-- The digits that follow stay below one unit of those before.
theorem value_bounds (hbase : 1 < base) {cs : List Nat} (hcs : ∀ c ∈ cs, c < base) (v : Nat) :
    v * base ^ cs.length ≤ value base cs v ∧ value base cs v < (v + 1) * base ^ cs.length := by
  have hlt := value_lt hbase hcs
  rw [value_eq, Nat.zero_mul, Nat.zero_add] at hlt
  rw [value_eq, Nat.add_mul, Nat.one_mul]
  exact ⟨Nat.le_add_right _ _, Nat.add_lt_add_left hlt _⟩

theorem convert_spec (hradix : 0 < radix) (hbase : 0 < base) {cs ds : List Nat} {length v : Nat}
    (h : Represents radix ds length v) (hfits : value base cs v < radix ^ ds.length) :
    ∃ out used, convert radix base cs (ds, length) = some (out, used) ∧
      out.length = ds.length ∧ Represents radix out used (value base cs v) := by
  induction cs generalizing ds length v with
  | nil => exact ⟨ds, length, rfl, rfl, h⟩
  | cons c cs ih =>
    have hstep : v * base + c < radix ^ ds.length := (le_value hbase cs _).trans_lt hfits
    obtain ⟨ds', last, length', heq, hlength, hrep, hlast⟩ := h.mulAdd hradix base c
    obtain rfl := hlast hstep
    obtain ⟨out, used, hout, hlength', hrep'⟩ := ih (hrep rfl) (by rw [hlength]; exact hfits)
    refine ⟨out, used, ?_, hlength'.trans hlength, hrep'⟩
    simp only [convert, heq]
    exact hout

end Convert

section Trim

variable {radix : Nat}

-- the digits in use, the highest first and without leading zeros
def trim (ds : List Nat) (length : Nat) : List Nat := (ds.take length).reverse.dropWhile (· == 0)

theorem ofDigits_rdropWhile (ds : List Nat) :
    Nat.ofDigits radix (ds.rdropWhile (· == 0)) = Nat.ofDigits radix ds := by
  induction ds using List.reverseRecOn with
  | nil => rfl
  | append_singleton ds d ih =>
    rw [List.rdropWhile_concat]
    split
    · rename_i hzero
      rw [ih, beq_iff_eq.mp hzero, Nat.ofDigits_append_zero]
    · rfl

theorem Represents.trim_eq {ds : List Nat} {length v : Nat} (h : Represents radix ds length v)
    (hradix : 1 < radix) : trim ds length = (Nat.digits radix v).reverse := by
  have htake : Nat.ofDigits radix (ds.take length) = v := by
    have hsplit := @Nat.ofDigits_append radix (ds.take length) (ds.drop length)
    rw [List.take_append_drop, ofDigits_eq_zero h.unused, Nat.mul_zero, Nat.add_zero,
      h.value_eq] at hsplit
    exact hsplit.symm
  have hdigits : Nat.digits radix v = (ds.take length).rdropWhile (· == 0) := by
    rw [← htake, ← ofDigits_rdropWhile]
    refine Nat.digits_ofDigits radix hradix _ (fun d hd => ?_) fun hne => ?_
    · exact h.digits_lt d (List.mem_of_mem_take ((List.rdropWhile_prefix _ _).subset hd))
    · have hlast := List.rdropWhile_last_not _ _ hne
      exact fun hzero => hlast (by rw [hzero]; rfl)
  rw [hdigits, List.rdropWhile, List.reverse_reverse, trim]

-- no leading zeros
theorem digits_value {base : Nat} (hbase : 1 < base) {cs : List Nat} (hcs : ∀ c ∈ cs, c < base)
    (hhead : ∀ c ∈ cs.head?, c ≠ 0) : (Nat.digits base (value base cs 0)).reverse = cs := by
  rw [value_eq, Nat.zero_mul, Nat.zero_add, Nat.digits_ofDigits base hbase, List.reverse_reverse]
  · exact fun c hc => hcs c (List.mem_reverse.mp hc)
  · intro hne
    have hcs' : cs ≠ [] := fun h => hne (by rw [h]; rfl)
    rw [List.getLast_reverse]
    exact hhead _ (List.head_mem_head? hcs')

theorem head?_digits_ne_zero {base v : Nat} : ∀ c ∈ (Nat.digits base v).reverse.head?, c ≠ 0 := by
  intro c hc
  rw [List.head?_reverse] at hc
  obtain ⟨hne, rfl⟩ := List.mem_getLast?_eq_getLast hc
  exact Nat.getLast_digit_ne_zero base (Nat.digits_ne_nil_iff_ne_zero.mp hne)

end Trim

section Size

-- A size estimate with a quotient above the logarithm's.
theorem pow_le_pow_of_estimate {base radix p q : Nat} (hq : 0 < q) (hradix : 0 < radix)
    (h : base ^ q ≤ radix ^ p) (n : Nat) : base ^ n ≤ radix ^ (n * p / q + 1) := by
  have hlt : n * p < (n * p / q + 1) * q := Nat.lt_mul_of_div_lt (Nat.lt_succ_self _) hq
  have hpow : (base ^ n) ^ q ≤ (radix ^ (n * p / q + 1)) ^ q :=
    calc (base ^ n) ^ q = (base ^ q) ^ n := by rw [← Nat.pow_mul, ← Nat.pow_mul, Nat.mul_comm]
      _ ≤ (radix ^ p) ^ n := Nat.pow_le_pow_left h n
      _ = radix ^ (n * p) := by rw [← Nat.pow_mul, Nat.mul_comm]
      _ ≤ radix ^ ((n * p / q + 1) * q) := Nat.pow_le_pow_right hradix hlt.le
      _ = (radix ^ (n * p / q + 1)) ^ q := Nat.pow_mul radix _ q
  exact (Nat.pow_le_pow_iff_left (Nat.ne_of_gt hq)).mp hpow

end Size

end RadixBuffer
