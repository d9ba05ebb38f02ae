import Mathlib.Tactic.Ring
import Mathlib.Tactic.Positivity
import Std.Data.String.ToInt

namespace AnkerNode

namespace DigitText

-- the last `width` digits of `n` in base 16, leading zeros kept
def hexText : Nat → Nat → List Char
  | 0, _ => []
  | width + 1, n => hexText width (n / 16) ++ [Nat.digitChar (n % 16)]

theorem length_hexText (width n : Nat) : (hexText width n).length = width := by
  induction width generalizing n with
  | zero => rfl
  | succ width ih => simp [hexText, ih]

theorem digitChar_inj {m n : Nat} (hm : m < 16) (hn : n < 16)
    (h : Nat.digitChar m = Nat.digitChar n) : m = n := by
  have hall : ∀ m < 16, ∀ n < 16, Nat.digitChar m = Nat.digitChar n → m = n := by decide
  exact hall m hm n hn h

theorem hexText_inj {width m n : Nat} (hm : m < 16 ^ width) (hn : n < 16 ^ width)
    (h : hexText width m = hexText width n) : m = n := by
  induction width generalizing m n with
  | zero => simp at hm hn; omega
  | succ width ih =>
    obtain ⟨hinit, hlast⟩ := List.append_inj' h rfl
    rw [pow_succ] at hm hn
    have hdiv := ih (Nat.div_lt_of_lt_mul (by omega)) (Nat.div_lt_of_lt_mul (by omega)) hinit
    have hmod := digitChar_inj (Nat.mod_lt m (by decide)) (Nat.mod_lt n (by decide))
      (List.singleton_inj.mp hlast)
    omega

-- the characters of an integer in decimal
def decimal (n : Int) : List Char := (toString n).toList

theorem decimal_inj {m n : Int} (h : decimal m = decimal n) : m = n := by
  rw [decimal, decimal, String.toList_inj] at h
  exact Int.repr_injective (by simpa using h)

theorem decimal_of_nonneg {n : Int} (h : 0 ≤ n) : decimal n = Nat.toDigits 10 n.toNat := by
  rw [decimal, Int.toString_eq_repr, Int.repr_eq_if, if_pos h, Nat.toList_repr]

theorem decimal_of_neg {n : Int} (h : n < 0) :
    decimal n = '-' :: Nat.toDigits 10 (-n).toNat := by
  rw [decimal, Int.toString_eq_repr, Int.repr_eq_if, if_neg (by omega), String.toList_append,
    Nat.toList_repr]
  rfl

theorem decimal_ne_nil (n : Int) : decimal n ≠ [] := by
  rcases lt_or_ge n 0 with hn | hn
  · simp [decimal_of_neg hn]
  · rw [decimal_of_nonneg hn]
    exact Nat.toDigits_ne_nil

def width (n : Int) : Nat := (decimal n).length

def value (s : List Char) : Nat := Nat.ofDigitChars 10 s 0

theorem exists_digit {c : Char} (h : c.isDigit = true) : ∃ d < 10, c = Nat.digitChar d := by
  have hval : 48 ≤ c.toNat ∧ c.toNat ≤ 57 := by
    simpa [Char.isDigit, UInt32.le_iff_toNat_le] using h
  refine ⟨c.toNat - 48, by omega, ?_⟩
  apply Char.toNat_inj.mp
  rw [Nat.toNat_digitChar_of_lt_ten (by omega)]
  omega

theorem isDigit_of_mem {n : Nat} {c : Char} (h : c ∈ Nat.toDigits 10 n) : c.isDigit = true :=
  Nat.isDigit_of_mem_toDigits (by decide) (by decide) h

-- digits after a number that is not zero make the number they glue to
theorem toDigits_append {n : Nat} (hn : 0 < n) {s : List Char}
    (hs : ∀ c ∈ s, c.isDigit = true) :
    Nat.toDigits 10 n ++ s = Nat.toDigits 10 (n * 10 ^ s.length + value s) := by
  induction s using List.reverseRecOn with
  | nil => simp [value]
  | append_singleton s c ih =>
    obtain ⟨d, hd, rfl⟩ := exists_digit (hs c (by simp))
    have hdigit : value (s ++ [Nat.digitChar d]) = 10 * value s + d := by
      rw [value, Nat.ofDigitChars_append, Nat.ofDigitChars_cons_digitChar_of_lt_ten hd,
        Nat.ofDigitChars_nil, value]
    have hpos : 0 < n * 10 ^ s.length + value s := by positivity
    calc Nat.toDigits 10 n ++ (s ++ [Nat.digitChar d])
        = (Nat.toDigits 10 n ++ s) ++ Nat.toDigits 10 d := by
          rw [Nat.toDigits_of_lt_base hd, List.append_assoc]
      _ = Nat.toDigits 10 (10 * (n * 10 ^ s.length + value s) + d) := by
          rw [ih fun c hc => hs c (by simp [hc]), Nat.toDigits_append_toDigits (by decide) hpos hd]
      _ = Nat.toDigits 10
            (n * 10 ^ (s ++ [Nat.digitChar d]).length + value (s ++ [Nat.digitChar d])) := by
          rw [hdigit, List.length_append, List.length_singleton, pow_succ]
          congr 1
          ring

theorem value_lt {s : List Char} (hs : ∀ c ∈ s, c.isDigit = true) : value s < 10 ^ s.length := by
  have hnine := congrArg List.length (toDigits_append (show 0 < 9 by decide) hs)
  have hlen : (Nat.toDigits 10 (9 * 10 ^ s.length + value s)).length ≤ s.length + 1 := by
    rw [← hnine]
    simp [Nat.toDigits_of_lt_base (show 9 < 10 by decide)]
  rw [Nat.length_toDigits_le_iff (by decide) (by omega), pow_succ] at hlen
  omega

-- no number but zero starts with the digit zero
theorem eq_nil_of_zero_head {n : Nat} {s : List Char} (h : Nat.toDigits 10 n = '0' :: s) :
    s = [] := by
  by_contra hs
  have hpos : 0 < s.length := List.length_pos_iff.mpr hs
  have hlt : value s < 10 ^ s.length := value_lt fun c hc =>
    isDigit_of_mem (n := n) (by rw [h]; exact List.mem_cons_of_mem _ hc)
  have hvalue : n = value s := by
    rw [← Nat.ofDigitChars_ten_toDigits (n := n), h, Nat.ofDigitChars_cons, value]
    rfl
  rw [← hvalue, ← Nat.length_toDigits_le_iff (by decide) hpos, h, List.length_cons] at hlt
  omega

-- a proper beginning of a number is a number
theorem exists_of_append {n : Nat} {s rest : List Char} (hs : s ≠ []) (hrest : rest ≠ [])
    (h : Nat.toDigits 10 n = s ++ rest) : ∃ u : Nat, 0 < u ∧ s = Nat.toDigits 10 u := by
  have hdigit : ∀ c ∈ s, c.isDigit = true := fun c hc =>
    isDigit_of_mem (n := n) (by rw [h]; exact List.mem_append_left _ hc)
  cases s with
  | nil => exact absurd rfl hs
  | cons c s =>
    obtain ⟨d, hd, rfl⟩ := exists_digit (hdigit c List.mem_cons_self)
    have hpos : 0 < d := by
      rcases Nat.eq_zero_or_pos d with rfl | hpos
      · have hnil := eq_nil_of_zero_head (n := n) (s := s ++ rest) h
        exact absurd (List.append_eq_nil_iff.mp hnil).2 hrest
      · exact hpos
    refine ⟨d * 10 ^ s.length + value s, by positivity, ?_⟩
    rw [← toDigits_append hpos fun c hc => hdigit c (List.mem_cons_of_mem _ hc),
      Nat.toDigits_of_lt_base hd]
    rfl

theorem width_natCast (n : Nat) : width n = (Nat.toDigits 10 n).length := by
  rw [width, decimal_of_nonneg (Int.natCast_nonneg n), Int.toNat_natCast]

theorem toDigits_glue {n : Nat} (hn : 0 < n) (u : Nat) :
    Nat.toDigits 10 (n * 10 ^ width u + u) = Nat.toDigits 10 n ++ Nat.toDigits 10 u := by
  rw [toDigits_append hn fun _ => isDigit_of_mem, width_natCast, value, Nat.ofDigitChars_ten_toDigits]

-- the digits of `u` after those of `n`
def glue (n : Int) (u : Nat) : Int := n * 10 ^ width u + n.sign * u

theorem decimal_glue {n : Int} (hn : n ≠ 0) (u : Nat) :
    decimal (glue n u) = decimal n ++ decimal u := by
  have hdigits : decimal u = Nat.toDigits 10 u := by
    rw [decimal_of_nonneg (Int.natCast_nonneg u), Int.toNat_natCast]
  obtain ⟨k, hk | hk⟩ := n.eq_nat_or_neg
  · have hpos : 0 < k := by omega
    have hglue : glue n u = ((k * 10 ^ width u + u : Nat) : Int) := by
      rw [glue, hk, Int.sign_natCast_of_ne_zero (by omega)]
      push_cast
      ring
    rw [hglue, decimal_of_nonneg (Int.natCast_nonneg _), Int.toNat_natCast, toDigits_glue hpos,
      hdigits, hk, decimal_of_nonneg (Int.natCast_nonneg k), Int.toNat_natCast]
  · have hpos : 0 < k := by omega
    have hglue : glue n u = -((k * 10 ^ width u + u : Nat) : Int) := by
      rw [glue, hk, Int.sign_neg, Int.sign_natCast_of_ne_zero (by omega)]
      push_cast
      ring
    have hneg : 0 < k * 10 ^ width u + u := by positivity
    rw [hglue, decimal_of_neg (by omega), Int.neg_neg, Int.toNat_natCast, toDigits_glue hpos,
      hdigits, hk, decimal_of_neg (by omega), Int.neg_neg, Int.toNat_natCast]
    rfl

-- the first digits of `b` are read at the end of `a`
def Moved (a b a' b' : Int) : Prop :=
  ∃ u : Nat, 0 < u ∧ a ≠ 0 ∧ 0 ≤ b' ∧ a' = glue a u ∧ b = glue u b'.toNat

theorem append_of_moved {a b a' b' : Int} (h : Moved a b a' b') :
    decimal a ++ decimal b = decimal a' ++ decimal b' := by
  obtain ⟨u, hu, ha, hb', rfl, rfl⟩ := h
  rw [decimal_glue ha, decimal_glue (by omega), Int.toNat_of_nonneg hb', List.append_assoc]

theorem decimal_natCast (n : Nat) : decimal n = Nat.toDigits 10 n := by
  rw [decimal_of_nonneg (Int.natCast_nonneg n), Int.toNat_natCast]

theorem isDigit_of_cons {n : Int} {c : Char} {rest : List Char} (h : decimal n = c :: rest) :
    ∀ d ∈ rest, d.isDigit = true := by
  intro d hd
  rcases lt_or_ge n 0 with hn | hn
  · rw [decimal_of_neg hn] at h
    obtain ⟨-, rfl⟩ := List.cons.inj h
    exact isDigit_of_mem hd
  · rw [decimal_of_nonneg hn] at h
    exact isDigit_of_mem (n := n.toNat) (by rw [h]; exact List.mem_cons_of_mem c hd)

theorem nonneg_of_isDigit {n : Int} (h : ∀ c ∈ decimal n, c.isDigit = true) : 0 ≤ n := by
  by_contra hn
  rw [decimal_of_neg (by omega)] at h
  exact absurd (h '-' List.mem_cons_self) (by decide)

theorem moved_of_append {a b a' b' : Int} (hwidth : width a < width a')
    (h : decimal a ++ decimal b = decimal a' ++ decimal b') : Moved a b a' b' := by
  rcases List.append_eq_append_iff.mp h with ⟨s, ha', hb⟩ | ⟨s, ha, -⟩
  · have hs : s ≠ [] := by
      rintro rfl
      rw [List.append_nil] at ha'
      simp [width, ha'] at hwidth
    obtain ⟨c, rest, hc⟩ := List.exists_cons_of_ne_nil (decimal_ne_nil a)
    have hdigit : ∀ d ∈ s, d.isDigit = true := by
      intro d hd
      rw [hc, List.cons_append] at ha'
      exact isDigit_of_cons ha' d (List.mem_append_right rest hd)
    have hbdigit : ∀ d ∈ decimal b, d.isDigit = true := by
      obtain ⟨e, s', rfl⟩ := List.exists_cons_of_ne_nil hs
      intro d hd
      rw [hb, List.cons_append, List.mem_cons] at hd
      rcases hd with rfl | hd
      · exact hdigit d List.mem_cons_self
      · exact isDigit_of_cons hb d hd
    have hbpos := nonneg_of_isDigit hbdigit
    have hb'pos : 0 ≤ b' := nonneg_of_isDigit fun d hd =>
      hbdigit d (by rw [hb]; exact List.mem_append_right s hd)
    obtain ⟨u, hu, rfl⟩ := exists_of_append hs (decimal_ne_nil b')
      ((decimal_of_nonneg hbpos).symm.trans hb)
    have ha : a ≠ 0 := by
      rintro rfl
      have hzero : decimal a' = '0' :: Nat.toDigits 10 u := ha'
      have ha'pos : 0 ≤ a' := by
        by_contra hneg
        rw [decimal_of_neg (by omega)] at hzero
        exact absurd (List.cons.inj hzero).1 (by decide)
      rw [decimal_of_nonneg ha'pos] at hzero
      exact hs (eq_nil_of_zero_head hzero)
    refine ⟨u, hu, ha, hb'pos, decimal_inj ?_, decimal_inj ?_⟩
    · rw [ha', decimal_glue ha, decimal_natCast]
    · rw [hb, decimal_glue (by omega), Int.toNat_of_nonneg hb'pos, decimal_natCast]
  · have hlen := congrArg List.length ha
    rw [List.length_append] at hlen
    simp only [width] at hwidth
    omega

-- Two pairs of integers written one after the other read the same only if digits are moved.
theorem append_eq_iff {a b a' b' : Int} :
    decimal a ++ decimal b = decimal a' ++ decimal b' ↔
      (a = a' ∧ b = b') ∨ Moved a b a' b' ∨ Moved a' b' a b := by
  constructor
  · intro h
    rcases lt_trichotomy (width a) (width a') with hlt | heq | hgt
    · exact .inr (.inl (moved_of_append hlt h))
    · obtain ⟨ha, hb⟩ := List.append_inj h heq
      exact .inl ⟨decimal_inj ha, decimal_inj hb⟩
    · exact .inr (.inr (moved_of_append hgt h.symm))
  · rintro (⟨rfl, rfl⟩ | h | h)
    · rfl
    · exact append_of_moved h
    · exact (append_of_moved h).symm

end DigitText

end AnkerNode
