import Mathlib.Data.List.Basic
import Mathlib.Logic.Function.Basic
import Mathlib.Tactic.Linarith
import Mathlib.Tactic.Ring

-- Coins of several denominations, taken one denomination after the other.
namespace CoinChange

section Totals

variable {D : Type} (v : D → Int)

def total (u : D → Nat) (ds : List D) : Int := (ds.map fun d => (u d : Int) * v d).sum

def count (u : D → Nat) (ds : List D) : Nat := (ds.map u).sum

variable {v} {u w held : D → Nat} {ds : List D} {d : D} {lo : Int}

@[simp] theorem total_nil : total v u [] = 0 := rfl

@[simp] theorem total_cons : total v u (d :: ds) = u d * v d + total v u ds := by
  simp [total]

@[simp] theorem count_nil : count u [] = 0 := rfl

@[simp] theorem count_cons : count u (d :: ds) = u d + count u ds := by
  simp [count]

theorem total_congr (h : ∀ x ∈ ds, u x = w x) : total v u ds = total v w ds := by
  rw [total, total, List.map_congr_left fun x hx => by rw [h x hx]]

theorem count_congr (h : ∀ x ∈ ds, u x = w x) : count u ds = count w ds := by
  rw [count, count, List.map_congr_left h]

theorem total_reverse : total v u ds.reverse = total v u ds := by
  simp [total]

theorem count_reverse : count u ds.reverse = count u ds := by
  simp [count]

theorem total_one : total (fun _ => 1) u ds = count u ds := by
  induction ds with
  | nil => rfl
  | cons d ds ih =>
    rw [total_cons, count_cons, ih, mul_one]
    push_cast
    rfl

theorem total_of_zero (h : ∀ x ∈ ds, u x = 0) : total v u ds = 0 := by
  induction ds with
  | nil => rfl
  | cons d ds ih =>
    rw [total_cons, h d List.mem_cons_self, ih fun x hx => h x (List.mem_cons_of_mem _ hx)]
    simp

theorem total_add : total v (fun x => u x + w x) ds = total v u ds + total v w ds := by
  induction ds with
  | nil => rfl
  | cons d ds ih =>
    rw [total_cons, total_cons, total_cons, ih]
    push_cast
    ring

theorem count_add : count (fun x => u x + w x) ds = count u ds + count w ds := by
  have hone : total (fun _ => 1) (fun x => u x + w x) ds = _ := total_add
  simp only [total_one] at hone
  exact_mod_cast hone

theorem total_nonneg (hpos : ∀ x ∈ ds, 0 < v x) : 0 ≤ total v u ds := by
  induction ds with
  | nil => exact le_rfl
  | cons d ds ih =>
    rw [total_cons]
    have hd := mul_nonneg (Int.natCast_nonneg (u d)) (hpos d List.mem_cons_self).le
    linarith [ih fun x hx => hpos x (List.mem_cons_of_mem _ hx)]

theorem zero_of_total (hpos : ∀ x ∈ ds, 0 < v x) (h : total v u ds ≤ 0) : ∀ x ∈ ds, u x = 0 := by
  induction ds with
  | nil => simp
  | cons d ds ih =>
    have htail : ∀ x ∈ ds, 0 < v x := fun x hx => hpos x (List.mem_cons_of_mem _ hx)
    have hd := hpos d List.mem_cons_self
    rw [total_cons] at h
    have hmul := mul_nonneg (Int.natCast_nonneg (u d)) hd.le
    have hrest := total_nonneg (u := u) htail
    have hzero : (u d : Int) * v d = 0 := by linarith
    rw [List.forall_mem_cons]
    refine ⟨?_, ih htail (by linarith)⟩
    rcases mul_eq_zero.mp hzero with hu | hv
    · exact Int.natCast_eq_zero.mp hu
    · omega

theorem total_mono (hpos : ∀ x ∈ ds, 0 < v x) (h : ∀ x ∈ ds, u x ≤ w x) :
    total v u ds ≤ total v w ds := by
  induction ds with
  | nil => exact le_rfl
  | cons d ds ih =>
    rw [List.forall_mem_cons] at hpos h
    rw [total_cons, total_cons]
    have hd := mul_le_mul_of_nonneg_right (Int.ofNat_le.mpr h.1) hpos.1.le
    linarith [ih hpos.2 h.2]

theorem dvd_total {k : Int} (h : ∀ x ∈ ds, k ∣ v x) : k ∣ total v u ds := by
  induction ds with
  | nil => exact dvd_zero k
  | cons d ds ih =>
    rw [total_cons]
    exact Int.dvd_add (Dvd.dvd.mul_left (h d List.mem_cons_self) _)
      (ih fun x hx => h x (List.mem_cons_of_mem _ hx))

theorem total_le_count_mul (h : ∀ x ∈ ds, v x ≤ lo) : total v u ds ≤ count u ds * lo := by
  induction ds with
  | nil => simp
  | cons d ds ih =>
    rw [total_cons, count_cons]
    have hd := mul_le_mul_of_nonneg_left (h d List.mem_cons_self) (Int.natCast_nonneg (u d))
    have hrest := ih fun x hx => h x (List.mem_cons_of_mem _ hx)
    push_cast
    linarith

theorem le_total (hpos : ∀ x ∈ ds, 0 < v x) (h : d ∈ ds) : u d * v d ≤ total v u ds := by
  induction ds with
  | nil => cases h
  | cons x ds ih =>
    rw [List.forall_mem_cons] at hpos
    rw [total_cons]
    rcases List.mem_cons.mp h with rfl | hmem
    · linarith [total_nonneg (u := u) hpos.2]
    · have hmul := mul_nonneg (Int.natCast_nonneg (u x)) hpos.1.le
      linarith [ih hpos.2 hmem]

-- All coins worth more than `lo` are used and none that is worth less.
def Cut (v : D → Int) (held : D → Nat) (ds : List D) (u : D → Nat) (lo : Int) : Prop :=
  ∀ d ∈ ds, (lo < v d → u d = held d) ∧ (v d < lo → u d = 0)

-- Against the value `lo` of the last coin every coin more is a gain for the cut.
theorem Cut.total_sub_le (hcut : Cut v held ds u lo) (hw : ∀ x ∈ ds, w x ≤ held x) :
    total v w ds - count w ds * lo ≤ total v u ds - count u ds * lo := by
  induction ds with
  | nil => simp
  | cons d ds ih =>
    rw [Cut, List.forall_mem_cons] at hcut
    rw [List.forall_mem_cons] at hw
    have hrest := ih hcut.2 hw.2
    have hd : (w d : Int) * (v d - lo) ≤ u d * (v d - lo) := by
      rcases lt_trichotomy (v d) lo with hlt | heq | hgt
      · rw [hcut.1.2 hlt]
        have := mul_nonneg (Int.natCast_nonneg (w d)) (sub_nonneg.mpr hlt.le)
        push_cast
        linarith
      · rw [heq]
        simp
      · rw [hcut.1.1 hgt]
        have hle : (w d : Int) ≤ held d := by exact_mod_cast hw.1
        exact mul_le_mul_of_nonneg_right hle (sub_nonneg.mpr hgt.le)
    simp only [total_cons, count_cons]
    push_cast
    linarith

-- A cut that is short of the other total by less than its last coin has no more coins.
theorem Cut.count_le (hcut : Cut v held ds u lo) (hlo : 0 < lo) (hw : ∀ x ∈ ds, w x ≤ held x)
    (hlt : total v u ds < total v w ds + lo) : count u ds ≤ count w ds := by
  have hle := hcut.total_sub_le hw
  have hmul : (count u ds : Int) * lo < (count w ds + 1) * lo := by linarith
  have hcount := lt_of_mul_lt_mul_right hmul hlo.le
  omega

end Totals

section Update

variable {D : Type} [DecidableEq D] {v : D → Int} {u : D → Nat} {ds : List D} {d : D} {k : Nat}

theorem total_update_of_notMem (h : d ∉ ds) :
    total v (Function.update u d k) ds = total v u ds :=
  total_congr fun _ hx => Function.update_of_ne (ne_of_mem_of_not_mem hx h) k u

theorem total_update (hnodup : ds.Nodup) (h : d ∈ ds) :
    total v (Function.update u d (u d + k)) ds = total v u ds + k * v d := by
  induction ds with
  | nil => cases h
  | cons x ds ih =>
    rw [List.nodup_cons] at hnodup
    rw [total_cons, total_cons]
    rcases List.mem_cons.mp h with rfl | hmem
    · rw [Function.update_self, total_update_of_notMem hnodup.1]
      push_cast
      ring
    · have hne : x ≠ d := fun heq => hnodup.1 (heq ▸ hmem)
      rw [Function.update_of_ne hne, ih hnodup.2 hmem]
      ring

theorem count_update (hnodup : ds.Nodup) (h : d ∈ ds) :
    count (Function.update u d (u d + k)) ds = count u ds + k := by
  have hone := total_update (v := fun _ => 1) (u := u) (k := k) hnodup h
  simp only [total_one, mul_one] at hone
  exact_mod_cast hone

end Update

-- The denominations from the largest to the smallest, each a divisor of those before it.
structure DivisorChain {D : Type} (v : D → Int) (ds : List D) : Prop where
  nodup : ds.Nodup
  pos : ∀ d ∈ ds, 0 < v d
  dvd : ds.Pairwise fun a b => v b ∣ v a

namespace DivisorChain

variable {D : Type} {v : D → Int} {ds : List D} {d : D}

theorem tail (h : DivisorChain v (d :: ds)) : DivisorChain v ds where
  nodup := (List.nodup_cons.mp h.nodup).2
  pos := fun x hx => h.pos x (List.mem_cons_of_mem _ hx)
  dvd := (List.pairwise_cons.mp h.dvd).2

theorem dvd_head (h : DivisorChain v (d :: ds)) : ∀ x ∈ ds, v x ∣ v d :=
  (List.pairwise_cons.mp h.dvd).1

theorem le_head (h : DivisorChain v (d :: ds)) : ∀ x ∈ ds, v x ≤ v d := fun x hx =>
  Int.le_of_dvd (h.pos d List.mem_cons_self) (h.dvd_head x hx)

-- A multiple of every denomination that the coins reach is the total of some of the coins.
theorem exists_part [DecidableEq D] {u : D → Nat} {K : Int} (h : DivisorChain v ds) (hK : 0 ≤ K)
    (hdvd : ∀ x ∈ ds, v x ∣ K) (hle : K ≤ total v u ds) :
    ∃ p : D → Nat, (∀ x, p x ≤ u x) ∧ total v p ds = K := by
  induction ds generalizing K with
  | nil => exact ⟨fun _ => 0, fun x => Nat.zero_le _, le_antisymm hK hle⟩
  | cons d ds ih =>
    have hd := h.pos d List.mem_cons_self
    have hnot := (List.nodup_cons.mp h.nodup).1
    obtain ⟨m, rfl⟩ := hdvd d List.mem_cons_self
    have hm : 0 ≤ m := nonneg_of_mul_nonneg_right hK hd
    lift m to Nat using hm
    rcases Nat.le_total m (u d) with hmu | hmu
    · refine ⟨Function.update (fun _ => 0) d m, fun x => ?_, ?_⟩
      · rcases eq_or_ne x d with rfl | hne
        · simpa using hmu
        · simp [hne]
      · rw [total_cons, total_update_of_notMem hnot, total_of_zero fun _ _ => rfl]
        simp [mul_comm]
    · have hrest : 0 ≤ v d * m - u d * v d := by
        have := mul_le_mul_of_nonneg_right (Int.ofNat_le.mpr hmu) hd.le
        linarith
      obtain ⟨p, hpu, hp⟩ := ih h.tail hrest
        (fun x hx => Int.dvd_sub (hdvd x (List.mem_cons_of_mem _ hx))
          (Dvd.dvd.mul_left (h.dvd_head x hx) _))
        (by rw [total_cons] at hle; linarith)
      refine ⟨Function.update p d (u d), fun x => ?_, ?_⟩
      · rcases eq_or_ne x d with rfl | hne
        · simp
        · simpa [hne] using hpu x
      · rw [total_cons, total_update_of_notMem hnot, hp, Function.update_self]
        ring

end DivisorChain

section Loops

variable {D : Type} [DecidableEq D] (v : D → Int)

-- `do { if (goOn && held) take } while (goOn && held)` with `n` coins of the denomination left
def takeWhileLeft (value : Int) (goOn : Int → Bool) : Nat → Nat × Int → Nat × Int
  | 0, s => s
  | n + 1, (k, r) => if goOn r then takeWhileLeft value goOn n (k + 1, r - value) else (k, r)

def takeCoins (goOn : D → Int → Bool) (held : D → Nat) :
    List D → (D → Nat) × Int → (D → Nat) × Int
  | [], s => s
  | d :: ds, (used, r) =>
    let s := takeWhileLeft (v d) (goOn d) (held d - used d) (used d, r)
    takeCoins goOn held ds (Function.update used d s.1, s.2)

-- What the loop over the denominations comes to: `u` is what it has taken in the end.
inductive Taken (goOn : D → Int → Bool) (held u : D → Nat) (rest : Int) : List D → Int → Prop
  | nil : Taken goOn held u rest [] rest
  | cons {d : D} {ds : List D} {r : Int} : u d ≤ held d →
      (u d < held d → goOn d (r - u d * v d) = false) →
      (0 < u d → goOn d (r - u d * v d + v d) = true) →
      Taken goOn held u rest ds (r - u d * v d) → Taken goOn held u rest (d :: ds) r

variable {v}

theorem takeWhileLeft_spec (value : Int) (goOn : Int → Bool) (n k : Nat) (r : Int) :
    ∃ j ≤ n, takeWhileLeft value goOn n (k, r) = (k + j, r - j * value) ∧
      (j < n → goOn (r - j * value) = false) ∧ (0 < j → goOn (r - j * value + value) = true) := by
  induction n generalizing k r with
  | zero => exact ⟨0, le_rfl, by simp [takeWhileLeft]⟩
  | succ n ih =>
    rw [takeWhileLeft]
    split
    · rename_i hgo
      obtain ⟨j, hj, heq, hstop, hlast⟩ := ih (k + 1) (r - value)
      have hshift : r - value - j * value = r - (j + 1 : Nat) * value := by
        push_cast
        ring
      rw [hshift] at heq hstop hlast
      refine ⟨j + 1, by omega, ?_, fun h => hstop (by omega), fun _ => ?_⟩
      · rw [heq]
        simp only [Prod.mk.injEq, and_true]
        omega
      · rcases Nat.eq_zero_or_pos j with rfl | hpos
        · simpa using hgo
        · exact hlast hpos
    · rename_i hgo
      exact ⟨0, Nat.zero_le _, by simpa using hgo⟩

theorem takeCoins_of_notMem {goOn : D → Int → Bool} {held used : D → Nat} {ds : List D} {r : Int}
    {x : D} (h : x ∉ ds) : (takeCoins v goOn held ds (used, r)).1 x = used x := by
  induction ds generalizing used r with
  | nil => rfl
  | cons d ds ih =>
    rw [List.mem_cons, not_or] at h
    rw [takeCoins, ih h.2, Function.update_of_ne h.1]

theorem takeCoins_taken {goOn : D → Int → Bool} {held used : D → Nat} {ds : List D} {r : Int}
    (hnodup : ds.Nodup) (hused : ∀ x ∈ ds, used x = 0) :
    Taken v goOn held (takeCoins v goOn held ds (used, r)).1
      (takeCoins v goOn held ds (used, r)).2 ds r := by
  induction ds generalizing used r with
  | nil => exact .nil
  | cons d ds ih =>
    rw [List.nodup_cons] at hnodup
    rw [List.forall_mem_cons] at hused
    obtain ⟨j, hj, heq, hstop, hlast⟩ := takeWhileLeft_spec (v d) (goOn d) (held d) 0 r
    have hcons : takeCoins v goOn held (d :: ds) (used, r) =
        takeCoins v goOn held ds (Function.update used d j, r - j * v d) := by
      rw [takeCoins, hused.1, Nat.sub_zero, heq, Nat.zero_add]
    have htail := @ih (Function.update used d j) (r - j * v d) hnodup.2 fun x hx => by
      rw [Function.update_of_ne (ne_of_mem_of_not_mem hx hnodup.1)]
      exact hused.2 x hx
    have hd : (takeCoins v goOn held ds (Function.update used d j, r - j * v d)).1 d = j := by
      rw [takeCoins_of_notMem hnodup.1, Function.update_self]
    rw [hcons]
    exact .cons (by rw [hd]; exact hj) (by rw [hd]; exact hstop) (by rw [hd]; exact hlast)
      (by rw [hd]; exact htail)

end Loops

namespace Taken

variable {D : Type} {v : D → Int} {goOn : D → Int → Bool} {held u w : D → Nat} {ds : List D}
  {r rest : Int}

theorem le_held (h : Taken v goOn held u rest ds r) : ∀ x ∈ ds, u x ≤ held x := by
  induction h with
  | nil => simp
  | cons hle _ _ _ ih => exact List.forall_mem_cons.mpr ⟨hle, ih⟩

theorem total_eq (h : Taken v goOn held u rest ds r) : total v u ds = r - rest := by
  induction h with
  | nil => simp
  | cons _ _ _ _ ih =>
    rw [total_cons, ih]
    ring

theorem rest_le (h : Taken v goOn held u rest ds r) (hpos : ∀ x ∈ ds, 0 < v x) : rest ≤ r := by
  have := total_nonneg (u := u) hpos
  rw [h.total_eq] at this
  linarith

theorem guard (h : Taken v goOn held u rest ds r) {x : D} (hx : x ∈ ds) (hpos : 0 < u x) :
    ∃ r', goOn x r' = true := by
  induction h with
  | nil => cases hx
  | cons _ _ hlast _ ih =>
    rcases List.mem_cons.mp hx with rfl | hmem
    · exact ⟨_, hlast hpos⟩
    · exact ih hmem

-- Guards that ask for something left take nothing when nothing is left.
theorem nothing (h : Taken v goOn held u rest ds r) (hpos : ∀ x ∈ ds, 0 < v x)
    (hgo : ∀ x r', goOn x r' = true → 0 < r') (hr : r ≤ 0) : (∀ x ∈ ds, u x = 0) ∧ rest = r := by
  induction h with
  | nil => simp
  | @cons d ds r _ _ hlast _ ih =>
    rw [List.forall_mem_cons] at hpos
    have hd : u d = 0 := by
      by_contra hne
      have hleft := hgo d _ (hlast (Nat.pos_of_ne_zero hne))
      have hone : (1 : Int) ≤ u d := by omega
      have := mul_le_mul_of_nonneg_right hone hpos.1.le
      linarith
    have hkeep : r - u d * v d = r := by
      rw [hd]
      simp
    rw [hkeep] at ih
    obtain ⟨hzero, hrest⟩ := ih hpos.2 hr
    exact ⟨List.forall_mem_cons.mpr ⟨hd, hzero⟩, hrest⟩

-- What is left keeps what holds at the start and after every coin that the guard lets through.
theorem rest_keeps {P : Int → Prop} (h : Taken v goOn held u rest ds r)
    (hgo : ∀ x r', goOn x r' = true → P (r' - v x)) (hr : P r) : P rest := by
  induction h with
  | nil => exact hr
  | @cons d ds r _ _ hlast _ ih =>
    refine ih ?_
    rcases Nat.eq_zero_or_pos (u d) with hzero | hpos
    · simpa [hzero] using hr
    · simpa using hgo d _ (hlast hpos)

-- A denomination of which a coin is left has stopped its loop, with what the later
-- denominations have taken still to come.
theorem stopped {pre post : List D} {d : D} (h : Taken v goOn held u rest (pre ++ d :: post) r)
    (hlt : u d < held d) : goOn d (rest + total v u post) = false := by
  induction pre generalizing r with
  | nil =>
    cases h with
    | cons _ hstop _ htail =>
      rw [htail.total_eq, add_sub_cancel]
      exact hstop hlt
  | cons x pre ih =>
    cases h with
    | cons _ _ _ htail => exact ih htail

-- A run that leaves only coins of the value of its rest reaches the target with one of them,
-- and that is a cut.
theorem one_short [DecidableEq D] (h : Taken v goOn held u rest ds r) (hchain : DivisorChain v ds)
    (hle : ∀ x ∈ ds, u x < held x → v x ≤ rest)
    (hguard : ∀ x ∈ ds, u x < held x → ∀ r', goOn x r' = false → r' ≤ v x)
    {d : D} (hd : d ∈ ds) (hfree : u d < held d) :
    v d = rest ∧ Cut v held ds (Function.update u d (u d + 1)) (v d) := by
  obtain ⟨pre, post, rfl⟩ := List.append_of_mem hd
  have hpost : ∀ x ∈ post, 0 < v x := fun x hx => hchain.pos x (by simp [hx])
  have hstop := hguard d hd hfree _ (h.stopped hfree)
  have hnonneg := total_nonneg (u := u) hpost
  have hrest := hle d hd hfree
  have hnone := zero_of_total hpost (u := u) (by linarith)
  have heq : v d = rest := by linarith
  refine ⟨heq, fun x hx => ⟨fun hlt => ?_, fun hlt => ?_⟩⟩
  · have hne : x ≠ d := fun hxd => lt_irrefl _ (hxd ▸ hlt)
    rw [Function.update_of_ne hne]
    by_contra hused
    have hless := h.le_held x hx
    linarith [hle x hx (by omega)]
  · have hne : x ≠ d := fun hxd => lt_irrefl _ (hxd ▸ hlt)
    rw [Function.update_of_ne hne]
    simp only [List.mem_append, List.mem_cons] at hx
    rcases hx with hpre | rfl | hmem
    · have hdvd := (List.pairwise_append.mp hchain.dvd).2.2 x hpre d List.mem_cons_self
      exact absurd (Int.le_of_dvd (hchain.pos x (by simp [hpre])) hdvd) (not_le.mpr hlt)
    · exact absurd rfl hne
    · exact hnone x hmem

end Taken

-- As many coins of each denomination as fit, the largest denomination first.
def fits {D : Type} (v : D → Int) (d : D) (r : Int) : Bool := decide (v d ≤ r)

namespace Taken

variable {D : Type} {v : D → Int} {held u w : D → Nat} {ds : List D} {r rest : Int}

theorem fits_nonneg (h : Taken v (fits v) held u rest ds r) (hr : 0 ≤ r) : 0 ≤ rest :=
  h.rest_keeps (fun _ _ hgo => sub_nonneg.mpr (of_decide_eq_true hgo)) hr

theorem fits_rest_lt (h : Taken v (fits v) held u rest ds r) (hpos : ∀ x ∈ ds, 0 < v x) {d : D}
    (hd : d ∈ ds) (hlt : u d < held d) : rest < v d := by
  obtain ⟨pre, post, rfl⟩ := List.append_of_mem hd
  have hstop := of_decide_eq_false (h.stopped hlt)
  have hpost : 0 ≤ total v u post := total_nonneg fun x hx => hpos x (by simp [hx])
  linarith

-- Where each denomination divides those before it, the greedy choice reaches whatever some of
-- the coins reach, with no more coins: the coins by which another choice falls short of it in
-- a denomination are made up by smaller ones.
theorem fits_exact (h : Taken v (fits v) held u rest ds r) (hchain : DivisorChain v ds)
    [DecidableEq D] (hw : ∀ x ∈ ds, w x ≤ held x) (htotal : total v w ds = r) :
    rest = 0 ∧ count u ds ≤ count w ds := by
  induction h generalizing w with
  | nil => exact ⟨by simpa using htotal.symm, le_rfl⟩
  | @cons d ds r _ hstop hlast htail ih =>
    have hd := hchain.pos d List.mem_cons_self
    have hsmall := total_nonneg (u := w) hchain.tail.pos
    rw [List.forall_mem_cons] at hw
    rw [total_cons] at htotal
    have hrest : 0 ≤ r - u d * v d := by
      rcases Nat.eq_zero_or_pos (u d) with hzero | hpos
      · have := mul_nonneg (Int.natCast_nonneg (w d)) hd.le
        rw [hzero]
        simp only [Nat.cast_zero, zero_mul, sub_zero]
        linarith
      · have := of_decide_eq_true (hlast hpos)
        linarith
    have hle : w d ≤ u d := by
      by_contra hgt
      have hlt := of_decide_eq_false (hstop (by omega))
      have hone : (u d : Int) + 1 ≤ w d := by omega
      have := mul_le_mul_of_nonneg_right hone hd.le
      linarith
    obtain ⟨k, hk⟩ := Nat.exists_eq_add_of_le hle
    have hkd : (u d : Int) * v d = w d * v d + k * v d := by
      rw [hk]
      push_cast
      ring
    obtain ⟨p, hpw, hp⟩ := hchain.tail.exists_part (u := w) (K := k * v d)
      (mul_nonneg (Int.natCast_nonneg k) hd.le)
      (fun x hx => Dvd.dvd.mul_left (hchain.dvd_head x hx) _) (by linarith)
    have hpart : ∀ x, w x = p x + (w x - p x) := fun x => by have := hpw x; omega
    have htw : total v w ds = total v p ds + total v (fun x => w x - p x) ds := by
      rw [← total_add]
      exact total_congr fun x _ => hpart x
    have hcw : count w ds = count p ds + count (fun x => w x - p x) ds := by
      rw [← count_add]
      exact count_congr fun x _ => hpart x
    obtain ⟨hzero, hcount⟩ := ih hchain.tail (w := fun x => w x - p x)
      (fun x hx => (Nat.sub_le _ _).trans (hw.2 x hx)) (by linarith)
    have hmany : (k : Int) * v d ≤ count p ds * v d := hp ▸ total_le_count_mul hchain.le_head
    have hkp := le_of_mul_le_mul_right hmany hd
    refine ⟨hzero, ?_⟩
    rw [count_cons, count_cons]
    omega

end Taken

-- The coins from the largest on, until nothing is left to pay.
def owed {D : Type} (_ : D) (r : Int) : Bool := decide (0 < r)

namespace Taken

variable {D : Type} {v : D → Int} {held u w : D → Nat} {ds : List D} {r rest : Int}

-- Either all coins are used and do not suffice, or the coins used are a cut that passes the
-- target with its last coin.
theorem owed_cut (h : Taken v owed held u rest ds r) (hchain : DivisorChain v ds) (hr : 0 < r) :
    (0 < rest ∧ ∀ x ∈ ds, u x = held x) ∨
      (rest ≤ 0 ∧ ∃ d ∈ ds, 0 < rest + v d ∧ Cut v held ds u (v d)) := by
  induction h with
  | nil => exact .inl ⟨hr, by simp⟩
  | @cons d ds r hheld hstop hlast htail ih =>
    have hd := hchain.pos d List.mem_cons_self
    by_cases hleft : 0 < r - u d * v d
    · have hall : u d = held d := by
        by_contra hne
        exact of_decide_eq_false (hstop (by omega)) hleft
      rcases ih hchain.tail hleft with ⟨hrest, hused⟩ | ⟨hrest, x, hx, hlt, hcut⟩
      · exact .inl ⟨hrest, List.forall_mem_cons.mpr ⟨hall, hused⟩⟩
      · refine .inr ⟨hrest, x, List.mem_cons_of_mem _ hx, hlt,
          List.forall_mem_cons.mpr ⟨⟨fun _ => hall, fun hlo => ?_⟩, hcut⟩⟩
        exact absurd (hchain.le_head x hx) (not_le.mpr hlo)
    · obtain ⟨hzero, hrest⟩ := htail.nothing hchain.tail.pos (fun _ _ h => of_decide_eq_true h)
        (not_lt.mp hleft)
      have hpos : 0 < u d := by
        by_contra hnone
        rw [Nat.eq_zero_of_not_pos hnone] at hleft
        simp only [Nat.cast_zero, zero_mul, sub_zero] at hleft
        exact hleft hr
      refine .inr ⟨by rw [hrest]; exact not_lt.mp hleft, d, List.mem_cons_self, ?_,
        List.forall_mem_cons.mpr ⟨⟨fun hlt => absurd hlt (lt_irrefl _), fun hlt =>
          absurd hlt (lt_irrefl _)⟩, fun x hx => ⟨fun hlt => ?_, fun _ => hzero x hx⟩⟩⟩
      · rw [hrest]
        exact of_decide_eq_true (hlast hpos)
      · exact absurd (hchain.le_head x hx) (not_le.mpr hlt)

end Taken

end CoinChange
