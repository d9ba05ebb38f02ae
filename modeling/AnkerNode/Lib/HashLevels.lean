import Mathlib.Data.List.Basic
import Mathlib.Data.List.Zip
import Mathlib.Data.Nat.Bitwise
import Mathlib.Data.Nat.Find
import Mathlib.Logic.Function.Basic

-- Binary trees of what was hashed with what: a value at each leaf, a pair at each node.
inductive HashTree (α : Type) where
  | leaf (a : α)
  | node (l r : HashTree α)
deriving DecidableEq, Repr

namespace HashTree

variable {α β : Type}

def leaves : HashTree α → List α
  | leaf a => [a]
  | node l r => l.leaves ++ r.leaves

def map (f : α → β) : HashTree α → HashTree β
  | leaf a => leaf (f a)
  | node l r => node (l.map f) (r.map f)

def root (hash : α → α → α) : HashTree α → α
  | leaf a => a
  | node l r => hash (l.root hash) (r.root hash)

-- the pairs that are hashed for the root
def pairs (hash : α → α → α) : HashTree α → List (α × α)
  | leaf _ => []
  | node l r => (l.root hash, r.root hash) :: (l.pairs hash ++ r.pairs hash)

theorem map_node (f : α → β) (l r : HashTree α) : (node l r).map f = node (l.map f) (r.map f) := rfl

theorem root_node (hash : α → α → α) (l r : HashTree α) :
    (node l r).root hash = hash (l.root hash) (r.root hash) := rfl

theorem mem_leaves_left {l r : HashTree α} {a : α} (h : a ∈ l.leaves) : a ∈ (node l r).leaves :=
  List.mem_append_left _ h

theorem mem_leaves_right {l r : HashTree α} {a : α} (h : a ∈ r.leaves) : a ∈ (node l r).leaves :=
  List.mem_append_right _ h

theorem leaves_map (f : α → β) (t : HashTree α) : (t.map f).leaves = t.leaves.map f := by
  induction t with
  | leaf a => rfl
  | node l r ihl ihr => rw [map_node, leaves, ihl, ihr, leaves, List.map_append]

-- What holds of the leaves and of every hash holds of all that is hashed.
theorem forall_pairs {P : α → Prop} {hash : α → α → α} (hhash : ∀ a b, P (hash a b))
    {t : HashTree α} (hleaves : ∀ a ∈ t.leaves, P a) :
    P (t.root hash) ∧ ∀ p ∈ t.pairs hash, P p.1 ∧ P p.2 := by
  induction t with
  | leaf a => exact ⟨hleaves a (List.mem_singleton.mpr rfl), fun p hp => absurd hp List.not_mem_nil⟩
  | node l r ihl ihr =>
    obtain ⟨hl, hpl⟩ := ihl fun a ha => hleaves a (mem_leaves_left ha)
    obtain ⟨hr, hpr⟩ := ihr fun a ha => hleaves a (mem_leaves_right ha)
    refine ⟨hhash _ _, fun p hp => ?_⟩
    rcases List.mem_cons.mp hp with rfl | hp
    · exact ⟨hl, hr⟩
    · rcases List.mem_append.mp hp with hp | hp
      · exact hpl p hp
      · exact hpr p hp

-- Without a collision among the pairs hashed, one root comes of one choice of leaves only.
theorem map_leaves_eq_of_root_eq {hash : α → α → α} (f g : β → α) (t : HashTree β)
    (hfree : ∀ p ∈ (t.map f).pairs hash, ∀ q ∈ (t.map g).pairs hash,
      hash p.1 p.2 = hash q.1 q.2 → p = q)
    (hroot : (t.map f).root hash = (t.map g).root hash) : ∀ b ∈ t.leaves, f b = g b := by
  induction t with
  | leaf b => simpa [leaves, map, root] using hroot
  | node l r ihl ihr =>
    have htop : ((l.map f).root hash, (r.map f).root hash) =
        ((l.map g).root hash, (r.map g).root hash) :=
      hfree _ List.mem_cons_self _ List.mem_cons_self hroot
    rw [Prod.mk.injEq] at htop
    intro b hb
    rcases List.mem_append.mp hb with hl | hr
    · refine ihl (fun p hp q hq => hfree p ?_ q ?_) htop.1 b hl
      · exact List.mem_cons_of_mem _ (List.mem_append_left _ hp)
      · exact List.mem_cons_of_mem _ (List.mem_append_left _ hq)
    · refine ihr (fun p hp q hq => hfree p ?_ q ?_) htop.2 b hr
      · exact List.mem_cons_of_mem _ (List.mem_append_right _ hp)
      · exact List.mem_cons_of_mem _ (List.mem_append_right _ hq)

end HashTree

-- Lists hashed pair by pair, level after level, down to one entry.
namespace HashLevels

variable {α : Type}

-- an odd last entry is paired with itself
def pairs : List α → List (α × α)
  | [] => []
  | [a] => [(a, a)]
  | a :: b :: l => (a, b) :: pairs l

theorem length_pairs (l : List α) : (pairs l).length = (l.length + 1) / 2 := by
  induction l using pairs.induct with
  | case1 => simp [pairs]
  | case2 a => simp [pairs]
  | case3 a b l ih =>
    rw [pairs, List.length_cons, ih, List.length_cons, List.length_cons]
    omega

theorem pairs_ne_nil {l : List α} (h : l ≠ []) : pairs l ≠ [] := by
  have hpos := List.length_pos_of_ne_nil h
  have hlength := length_pairs l
  exact List.ne_nil_of_length_pos (by omega)

theorem getElem?_pairs (l : List α) (k : Nat) : (pairs l)[k]? =
    l[2 * k]?.bind fun a => l[min (2 * k + 1) (l.length - 1)]?.map fun b => (a, b) := by
  induction l using pairs.induct generalizing k with
  | case1 => rfl
  | case2 a =>
    cases k with
    | zero => rfl
    | succ k => rfl
  | case3 a b l ih =>
    cases k with
    | zero => rfl
    | succ k =>
      rw [pairs, List.getElem?_cons_succ, ih, show 2 * (k + 1) = 2 * k + 1 + 1 from by omega,
        List.getElem?_cons_succ, List.getElem?_cons_succ]
      cases hk : l[2 * k]? with
      | none => rfl
      | some c =>
        have hlt := (List.getElem?_eq_some_iff.mp hk).1
        have hmin : min (2 * k + 1 + 1 + 1) ((a :: b :: l).length - 1) =
            min (2 * k + 1) (l.length - 1) + 1 + 1 := by
          rw [List.length_cons, List.length_cons]
          omega
        rw [hmin, List.getElem?_cons_succ, List.getElem?_cons_succ]

def pairUp (hash : α → α → α) (l : List α) : List α := (pairs l).map fun p => hash p.1 p.2

theorem length_pairUp (hash : α → α → α) (l : List α) :
    (pairUp hash l).length = (l.length + 1) / 2 := by
  rw [pairUp, List.length_map, length_pairs]

theorem pairUp_ne_nil {hash : α → α → α} {l : List α} (h : l ≠ []) : pairUp hash l ≠ [] := by
  rw [pairUp]
  exact List.map_eq_nil_iff.not.mpr (pairs_ne_nil h)

theorem length_pairUp_lt {hash : α → α → α} {l : List α} (h : ¬l.length ≤ 1) :
    (pairUp hash l).length < l.length := by
  rw [length_pairUp]
  omega

section Levels

variable (hash : α → α → α)

def levels (l : List α) : List (List α) :=
  if l.length ≤ 1 then [l] else l :: levels (pairUp hash l)
termination_by l.length
decreasing_by exact length_pairUp_lt ‹_›

def depth (l : List α) : Nat := if l.length ≤ 1 then 0 else depth (pairUp hash l) + 1
termination_by l.length
decreasing_by exact length_pairUp_lt ‹_›

def root (zero : α) (l : List α) : α :=
  if l.length ≤ 1 then l.headD zero else root zero (pairUp hash l)
termination_by l.length
decreasing_by exact length_pairUp_lt ‹_›

def hashed (l : List α) : List (α × α) :=
  if l.length ≤ 1 then [] else pairs l ++ hashed (pairUp hash l)
termination_by l.length
decreasing_by exact length_pairUp_lt ‹_›

-- the entry that the one at `i` is hashed with, on each level
def siblings (l : List α) (i : Nat) : List α :=
  if l.length ≤ 1 then []
  else l[min (i ^^^ 1) (l.length - 1)]?.toList ++ siblings (pairUp hash l) (i / 2)
termination_by l.length
decreasing_by exact length_pairUp_lt ‹_›

def foldSiblings : Nat → α → List α → α
  | _, a, [] => a
  | i, a, b :: branch => foldSiblings (i / 2) (if i % 2 = 1 then hash b a else hash a b) branch

end Levels

section Doubled

variable [DecidableEq α]

def endsTwice : List α → Bool
  | [a, b] => a = b
  | _ :: _ :: l => endsTwice l
  | _ => false

def doubled (hash : α → α → α) (l : List α) : Bool :=
  if l.length ≤ 1 then false else endsTwice l || doubled hash (pairUp hash l)
termination_by l.length
decreasing_by exact length_pairUp_lt ‹_›

end Doubled

theorem endsTwice_cons_cons [DecidableEq α] {a b : α} {l : List α} (h : endsTwice l = true) :
    endsTwice (a :: b :: l) = true := by
  cases l with
  | nil => simp [endsTwice] at h
  | cons c l => rw [endsTwice, h]; simp

section Unfold

variable {hash : α → α → α} {l : List α} {zero : α}

theorem levels_of_le (h : l.length ≤ 1) : levels hash l = [l] := by rw [levels, if_pos h]

theorem levels_of_lt (h : 1 < l.length) : levels hash l = l :: levels hash (pairUp hash l) := by
  rw [levels, if_neg (Nat.not_le.mpr h)]

theorem root_of_lt (h : 1 < l.length) : root hash zero l = root hash zero (pairUp hash l) := by
  rw [root, if_neg (Nat.not_le.mpr h)]

theorem root_singleton (a : α) : root hash zero [a] = a := by
  rw [root, if_pos (by simp)]
  rfl

theorem siblings_of_lt (h : 1 < l.length) (i : Nat) : siblings hash l i =
    l[min (i ^^^ 1) (l.length - 1)]?.toList ++ siblings hash (pairUp hash l) (i / 2) := by
  rw [siblings, if_neg (Nat.not_le.mpr h)]

theorem siblings_singleton (a : α) (i : Nat) : siblings hash [a] i = [] := by
  rw [siblings, if_pos (by simp)]

end Unfold

section Root

variable {hash : α → α → α} {zero : α}

theorem getLast?_levels {l : List α} (h : l ≠ []) :
    (levels hash l).flatten.getLast? = some (root hash zero l) := by
  induction l using root.induct hash with
  | case1 l hle =>
    obtain ⟨a, rfl⟩ := List.length_eq_one_iff.mp
      (Nat.le_antisymm hle (List.length_pos_of_ne_nil h))
    rw [levels_of_le hle, root_singleton]
    rfl
  | case2 l hlt ih =>
    rw [levels_of_lt (by omega), root_of_lt (by omega), List.flatten_cons, List.getLast?_append,
      ih (pairUp_ne_nil h)]
    rfl

theorem getElem?_pairs_half {l : List α} {i : Nat} {a b : α} (hi : l[i]? = some a)
    (hb : l[min (i ^^^ 1) (l.length - 1)]? = some b) :
    (pairs l)[i / 2]? = some (if i % 2 = 1 then (b, a) else (a, b)) := by
  have hlt := (List.getElem?_eq_some_iff.mp hi).1
  rw [getElem?_pairs]
  rcases Nat.mod_two_eq_zero_or_one i with heven | hodd
  · have hxor : i ^^^ 1 = i + 1 := Nat.xor_one_of_even (Nat.even_iff.mpr heven)
    have hhalf : 2 * (i / 2) = i := by omega
    rw [hxor] at hb
    rw [hhalf, hi, hb, if_neg (by omega)]
    rfl
  · have hxor : i ^^^ 1 = i - 1 := Nat.xor_one_of_odd (Nat.odd_iff.mpr hodd)
    have hhalf : 2 * (i / 2) = i - 1 := by omega
    rw [hxor, Nat.min_eq_left (by omega)] at hb
    have hright : min (i - 1 + 1) (l.length - 1) = i := by omega
    rw [hhalf, hb, hright, if_pos hodd, Option.bind_some, hi]
    rfl

theorem getElem?_pairUp {l : List α} {i : Nat} {a b : α} (hi : l[i]? = some a)
    (hb : l[min (i ^^^ 1) (l.length - 1)]? = some b) :
    (pairUp hash l)[i / 2]? = some (if i % 2 = 1 then hash b a else hash a b) := by
  rw [pairUp, List.getElem?_map, getElem?_pairs_half hi hb]
  split <;> rfl

theorem foldSiblings_siblings {l : List α} {i : Nat} {a : α} (hi : l[i]? = some a) :
    foldSiblings hash i a (siblings hash l i) = root hash zero l := by
  induction l using root.induct hash generalizing i a with
  | case1 l h =>
    have hlt := (List.getElem?_eq_some_iff.mp hi).1
    obtain ⟨b, rfl⟩ := List.length_eq_one_iff.mp (show l.length = 1 by omega)
    obtain rfl : i = 0 := by simpa using hlt
    rw [siblings_singleton, root_singleton]
    exact (Option.some.inj hi).symm
  | case2 l h ih =>
    have hlt := (List.getElem?_eq_some_iff.mp hi).1
    have hsibling : min (i ^^^ 1) (l.length - 1) < l.length := by omega
    have hb := List.getElem?_eq_getElem hsibling
    rw [siblings_of_lt (by omega), root_of_lt (by omega), hb]
    exact ih (getElem?_pairUp hi hb)

end Root

section Level

variable (hash : α → α → α)

def level : Nat → List α → List α
  | 0, l => l
  | k + 1, l => pairUp hash (level k l)

def width (n k : Nat) : Nat := (n + 2 ^ k - 1) / 2 ^ k

theorem width_succ (n k : Nat) : width n (k + 1) = (width n k + 1) / 2 := by
  have hpos : 0 < 2 ^ k := Nat.two_pow_pos k
  rw [width, width, ← Nat.add_div_right _ hpos, Nat.div_div_eq_div_mul, Nat.pow_succ]
  congr 1
  omega

theorem width_zero (n : Nat) : width n 0 = n := by simp [width]

theorem lt_width_iff {n k q : Nat} : q < width n k ↔ q * 2 ^ k < n := by
  have hpos : 0 < 2 ^ k := Nat.two_pow_pos k
  rw [width, Nat.lt_iff_add_one_le, Nat.le_div_iff_mul_le hpos, Nat.add_mul, Nat.one_mul]
  omega

theorem length_level (k : Nat) (l : List α) : (level hash k l).length = width l.length k := by
  induction k with
  | zero => rw [level, width_zero]
  | succ k ih => rw [level, length_pairUp, ih, width_succ]

theorem getElem?_pairUp_eq (l : List α) (q : Nat) : (pairUp hash l)[q]? =
    l[2 * q]?.bind fun a => l[min (2 * q + 1) (l.length - 1)]?.map fun b => hash a b := by
  rw [pairUp, List.getElem?_map, getElem?_pairs]
  cases l[2 * q]? with
  | none => rfl
  | some a => simp [Function.comp_def]

theorem level_eq_root {hash : α → α → α} {zero : α} {l : List α} {k : Nat} (hl : l ≠ [])
    (hbelow : ∀ j < k, 1 < width l.length j) (hk : width l.length k ≤ 1) :
    level hash k l = [root hash zero l] := by
  have hroot : ∀ j ≤ k, root hash zero (level hash j l) = root hash zero l := by
    intro j hj
    induction j with
    | zero => rfl
    | succ j ih =>
      have hlt : 1 < (level hash j l).length := by
        rw [length_level]
        exact hbelow j hj
      rw [level, ← root_of_lt hlt, ih (by omega)]
  have hpos : 0 < width l.length k := by
    rw [lt_width_iff, Nat.zero_mul]
    exact List.length_pos_of_ne_nil hl
  have hlength : (level hash k l).length = 1 := by
    rw [length_level]
    omega
  obtain ⟨a, ha⟩ := List.length_eq_one_iff.mp hlength
  have hrootk := hroot k le_rfl
  rw [ha, root_singleton] at hrootk
  rw [ha, hrootk]

theorem exists_level_eq_root (hash : α → α → α) (zero : α) {l : List α} (hl : l ≠ []) :
    ∃ k, level hash k l = [root hash zero l] := by
  have hnarrow : ∃ k, width l.length k ≤ 1 := by
    refine ⟨l.length, Nat.le_of_not_lt fun hwide => ?_⟩
    rw [lt_width_iff, Nat.one_mul] at hwide
    exact absurd Nat.lt_two_pow_self (Nat.not_lt.mpr hwide.le)
  exact ⟨Nat.find hnarrow, level_eq_root hl
    (fun j hj => Nat.lt_of_not_le (Nat.find_min hnarrow hj)) (Nat.find_spec hnarrow)⟩

end Level

section Injective

variable {hash : α → α → α} {zero : α} {l l' : List α}

theorem hashed_of_lt (h : 1 < l.length) :
    hashed hash l = pairs l ++ hashed hash (pairUp hash l) := by
  rw [hashed, if_neg (Nat.not_le.mpr h)]

theorem depth_of_le (h : l.length ≤ 1) : depth hash l = 0 := by rw [depth, if_pos h]

theorem depth_of_lt (h : 1 < l.length) : depth hash l = depth hash (pairUp hash l) + 1 := by
  rw [depth, if_neg (Nat.not_le.mpr h)]

-- Only a last pair of equal entries can stand for an odd last entry.
theorem pairs_inj [DecidableEq α] (h : pairs l = pairs l') :
    l = l' ∨ endsTwice l = true ∨ endsTwice l' = true := by
  induction l using pairs.induct generalizing l' with
  | case1 =>
    by_contra hne
    exact pairs_ne_nil (l := l') (fun hnil => hne (Or.inl hnil.symm)) h.symm
  | case2 a =>
    match l' with
    | [] => simp [pairs] at h
    | [b] => exact Or.inl (by simpa [pairs] using h)
    | b :: c :: l' =>
      simp only [pairs, List.cons.injEq, Prod.mk.injEq] at h
      obtain ⟨⟨rfl, rfl⟩, hnil⟩ := h
      cases l' with
      | nil => exact Or.inr (Or.inr (decide_eq_true rfl))
      | cons d l' => exact absurd hnil.symm (pairs_ne_nil (List.cons_ne_nil d l'))
  | case3 a b l ih =>
    match l' with
    | [] => simp [pairs] at h
    | [c] =>
      simp only [pairs, List.cons.injEq, Prod.mk.injEq] at h
      obtain ⟨⟨rfl, rfl⟩, hnil⟩ := h
      cases l with
      | nil => exact Or.inr (Or.inl (decide_eq_true rfl))
      | cons d l => exact absurd hnil (pairs_ne_nil (List.cons_ne_nil d l))
    | c :: d :: l' =>
      simp only [pairs, List.cons.injEq, Prod.mk.injEq] at h
      obtain ⟨⟨rfl, rfl⟩, hpairs⟩ := h
      rcases ih hpairs with rfl | hl | hl'
      · exact Or.inl rfl
      · exact Or.inr (Or.inl (by rw [endsTwice_cons_cons hl]))
      · exact Or.inr (Or.inr (by rw [endsTwice_cons_cons hl']))

theorem doubled_of_lt [DecidableEq α] (h : 1 < l.length) :
    doubled hash l = (endsTwice l || doubled hash (pairUp hash l)) := by
  rw [doubled, if_neg (Nat.not_le.mpr h)]

theorem pairUp_inj [DecidableEq α]
    (hfree : ∀ p ∈ pairs l, ∀ q ∈ pairs l', hash p.1 p.2 = hash q.1 q.2 → p = q)
    (h : pairUp hash l = pairUp hash l') : l = l' ∨ endsTwice l = true ∨ endsTwice l' = true := by
  refine pairs_inj (List.ext_getElem? fun k => ?_)
  have hk := congrArg (fun m => m[k]?) h
  simp only [pairUp, List.getElem?_map] at hk
  cases hp : (pairs l)[k]? with
  | none =>
    rw [hp, Option.map_none, eq_comm, Option.map_eq_none_iff] at hk
    exact hk.symm
  | some p =>
    rw [hp, Option.map_some, eq_comm, Option.map_eq_some_iff] at hk
    obtain ⟨q, hq, hhash⟩ := hk
    rw [hq, hfree p (List.mem_of_getElem? hp) q (List.mem_of_getElem? hq) hhash.symm]

-- Lists of one depth with one root are equal, or one of them has a doubled end.
theorem eq_or_doubled_of_depth_eq [DecidableEq α] (hl : l ≠ []) (hl' : l' ≠ [])
    (hfree : ∀ p ∈ hashed hash l, ∀ q ∈ hashed hash l', hash p.1 p.2 = hash q.1 q.2 → p = q)
    (hdepth : depth hash l = depth hash l') (hroot : root hash zero l = root hash zero l') :
    l = l' ∨ doubled hash l = true ∨ doubled hash l' = true := by
  induction l using root.induct hash generalizing l' with
  | case1 l hle =>
    have hle' : l'.length ≤ 1 := by
      by_contra hlt
      rw [depth_of_le hle, depth_of_lt (by omega)] at hdepth
      omega
    obtain ⟨a, rfl⟩ := List.length_eq_one_iff.mp
      (Nat.le_antisymm hle (List.length_pos_of_ne_nil hl))
    obtain ⟨b, rfl⟩ := List.length_eq_one_iff.mp
      (Nat.le_antisymm hle' (List.length_pos_of_ne_nil hl'))
    rw [root_singleton, root_singleton] at hroot
    exact Or.inl (by rw [hroot])
  | case2 l hlt ih =>
    have hlt : 1 < l.length := by omega
    have hlt' : 1 < l'.length := by
      by_contra hle'
      rw [depth_of_lt hlt, depth_of_le (Nat.le_of_not_lt hle')] at hdepth
      omega
    rw [depth_of_lt hlt, depth_of_lt hlt', Nat.add_right_cancel_iff] at hdepth
    rw [root_of_lt hlt, root_of_lt hlt'] at hroot
    rw [hashed_of_lt hlt, hashed_of_lt hlt'] at hfree
    rw [doubled_of_lt hlt, doubled_of_lt hlt', Bool.or_eq_true, Bool.or_eq_true]
    have habove := ih (pairUp_ne_nil hl) (pairUp_ne_nil hl') (fun p hp q hq =>
      hfree p (List.mem_append_right _ hp) q (List.mem_append_right _ hq)) hdepth hroot
    rcases habove with heq | hl | hl'
    · have hhere := pairUp_inj (fun p hp q hq =>
        hfree p (List.mem_append_left _ hp) q (List.mem_append_left _ hq)) heq
      rcases hhere with heq | hl | hl'
      · exact Or.inl heq
      · exact Or.inr (Or.inl (Or.inl hl))
      · exact Or.inr (Or.inr (Or.inl hl'))
    · exact Or.inr (Or.inl (Or.inr hl))
    · exact Or.inr (Or.inr (Or.inr hl'))

-- a level of a deeper list, all of it hashes
theorem exists_level_of_depth_lt [DecidableEq α] {d : Nat} (zero : α) (hl : l ≠ [])
    (hd : d < depth hash l) : ∃ m, m ≠ [] ∧ depth hash m = d ∧
      root hash zero m = root hash zero l ∧ (∀ p ∈ hashed hash m, p ∈ hashed hash l) ∧
      (doubled hash m = true → doubled hash l = true) ∧
      ∀ a ∈ m, ∃ p ∈ hashed hash l, hash p.1 p.2 = a := by
  induction l using root.induct hash with
  | case1 l hle =>
    rw [depth_of_le hle] at hd
    omega
  | case2 l hlt ih =>
    have hlt : 1 < l.length := by omega
    rw [depth_of_lt hlt] at hd
    rw [root_of_lt hlt, hashed_of_lt hlt, doubled_of_lt hlt]
    rcases Nat.lt_succ_iff_lt_or_eq.mp hd with hbelow | rfl
    · obtain ⟨m, hm, hdm, hroot, hsub, hdoubled, hhash⟩ := ih (pairUp_ne_nil hl) hbelow
      refine ⟨m, hm, hdm, hroot, fun p hp => List.mem_append_right _ (hsub p hp), fun h => ?_,
        fun a ha => ?_⟩
      · rw [hdoubled h, Bool.or_true]
      · obtain ⟨p, hp, rfl⟩ := hhash a ha
        exact ⟨p, List.mem_append_right _ hp, rfl⟩
    · refine ⟨pairUp hash l, pairUp_ne_nil hl, rfl, rfl, fun p hp => List.mem_append_right _ hp,
        fun h => by rw [h, Bool.or_true], fun a ha => ?_⟩
      obtain ⟨p, hp, rfl⟩ := List.mem_map.mp ha
      exact ⟨p, List.mem_append_left _ hp, rfl⟩

theorem doubled_of_depth_lt [DecidableEq α] (hl : l ≠ []) (hl' : l' ≠ [])
    (hfree : ∀ p ∈ hashed hash l, ∀ q ∈ hashed hash l', hash p.1 p.2 = hash q.1 q.2 → p = q)
    (hleaf : ∀ a ∈ l, ∀ q ∈ hashed hash l', hash q.1 q.2 ≠ a)
    (hdepth : depth hash l < depth hash l') (hroot : root hash zero l = root hash zero l') :
    doubled hash l = true ∨ doubled hash l' = true := by
  obtain ⟨m, hm, hdm, hrootm, hsub, hdoubled, hhash⟩ := exists_level_of_depth_lt zero hl' hdepth
  have hcases := eq_or_doubled_of_depth_eq hl hm (fun p hp q hq => hfree p hp q (hsub q hq))
    hdm.symm (hroot.trans hrootm.symm)
  rcases hcases with rfl | hl | hl'
  · obtain ⟨a, ha⟩ := List.exists_mem_of_ne_nil l hl
    obtain ⟨q, hq, hqa⟩ := hhash a ha
    exact absurd hqa (hleaf a ha q hq)
  · exact Or.inl hl
  · exact Or.inr (hdoubled hl')

-- Without a collision, and with no leaf a hash, one root comes of two lists only where one of them
-- has a doubled end on some level.
theorem doubled_of_root_eq [DecidableEq α] (hl : l ≠ []) (hl' : l' ≠ [])
    (hfree : ∀ p ∈ hashed hash l, ∀ q ∈ hashed hash l', hash p.1 p.2 = hash q.1 q.2 → p = q)
    (hleaf : ∀ a ∈ l, ∀ q ∈ hashed hash l', hash q.1 q.2 ≠ a)
    (hleaf' : ∀ a ∈ l', ∀ p ∈ hashed hash l, hash p.1 p.2 ≠ a)
    (hroot : root hash zero l = root hash zero l') (hne : l ≠ l') :
    doubled hash l = true ∨ doubled hash l' = true := by
  rcases Nat.lt_trichotomy (depth hash l) (depth hash l') with hlt | heq | hgt
  · exact doubled_of_depth_lt hl hl' hfree hleaf hlt hroot
  · exact (eq_or_doubled_of_depth_eq hl hl' hfree heq hroot).resolve_left hne
  · have hsymm := doubled_of_depth_lt hl' hl (fun p hp q hq h => (hfree q hq p hp h.symm).symm)
      hleaf' hgt hroot.symm
    exact hsymm.symm

theorem root_hashed (zero : α) (h : 1 < l.length) :
    ∃ p ∈ hashed hash l, hash p.1 p.2 = root hash zero l := by
  induction l using root.induct hash with
  | case1 l hle => omega
  | case2 l hlt ih =>
    rw [root_of_lt h, hashed_of_lt h]
    rcases Nat.lt_or_ge 1 (pairUp hash l).length with habove | hone
    · obtain ⟨p, hp, hroot⟩ := ih habove
      exact ⟨p, List.mem_append_right _ hp, hroot⟩
    · have hlength := length_pairUp hash l
      obtain ⟨a, ha⟩ := List.length_eq_one_iff.mp (show (pairUp hash l).length = 1 by omega)
      obtain ⟨p, hp, hhash⟩ := List.mem_map.mp (show a ∈ pairUp hash l by simp [ha])
      refine ⟨p, List.mem_append_left _ hp, ?_⟩
      rw [ha, root_singleton]
      exact hhash

theorem root_nil (zero : α) : root hash zero [] = zero := by
  rw [root]
  rfl

theorem root_ne_root_nil (hl : l ≠ [])
    (hzero : zero ∉ l ∧ ∀ p ∈ hashed hash l, hash p.1 p.2 ≠ zero) :
    root hash zero l ≠ root hash zero [] := by
  intro hroot
  rw [root_nil] at hroot
  rcases Nat.lt_or_ge 1 l.length with hlt | hle
  · obtain ⟨p, hp, hhash⟩ := root_hashed zero hlt
    exact hzero.2 p hp (hhash.trans hroot)
  · obtain ⟨a, rfl⟩ := List.length_eq_one_iff.mp
      (Nat.le_antisymm hle (List.length_pos_of_ne_nil hl))
    rw [root_singleton] at hroot
    exact hzero.1 (by rw [hroot]; exact List.mem_singleton.mpr rfl)

end Injective

end HashLevels
