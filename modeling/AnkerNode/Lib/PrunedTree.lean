import AnkerNode.Lib.HashLevels
import Mathlib.Tactic.Ring

-- A hash tree cut below the nodes that nothing of interest lies under.
inductive PrunedTree (α : Type) where
  | leaf (isMatched : Bool) (a : α)
  | cut (a : α)
  -- a node whose only child stands for both
  | lone (l : PrunedTree α)
  | node (l r : PrunedTree α)
deriving DecidableEq, Repr

namespace PrunedTree

open HashLevels

variable {α : Type}

-- whether something of interest lies below, in depth-first order
def bits : PrunedTree α → List Bool
  | leaf isMatched _ => [isMatched]
  | cut _ => [false]
  | lone l => true :: l.bits
  | node l r => true :: (l.bits ++ r.bits)

def hashes : PrunedTree α → List α
  | leaf _ a => [a]
  | cut a => [a]
  | lone l => l.hashes
  | node l r => l.hashes ++ r.hashes

def root (hash : α → α → α) : PrunedTree α → α
  | leaf _ a => a
  | cut a => a
  | lone l => hash (l.root hash) (l.root hash)
  | node l r => hash (l.root hash) (r.root hash)

-- the leaves of interest with their positions
def matched : Nat → PrunedTree α → List (Nat × α)
  | pos, leaf isMatched a => if isMatched then [(pos, a)] else []
  | _, cut _ => []
  | pos, lone l => l.matched (pos * 2)
  | pos, node l r => l.matched (pos * 2) ++ r.matched (pos * 2 + 1)

-- `t` stands at `pos` on level `h` of a tree that is `w k` wide on level `k`.
inductive Shaped (w : Nat → Nat) : Nat → Nat → PrunedTree α → Prop
  | leaf (pos : Nat) (isMatched : Bool) (a : α) : Shaped w 0 pos (leaf isMatched a)
  | cut (h pos : Nat) (a : α) : Shaped w (h + 1) pos (cut a)
  | lone {h pos : Nat} {l : PrunedTree α} (hend : ¬pos * 2 + 1 < w h)
      (hl : Shaped w h (pos * 2) l) : Shaped w (h + 1) pos (lone l)
  | node {h pos : Nat} {l r : PrunedTree α} (hlt : pos * 2 + 1 < w h)
      (hl : Shaped w h (pos * 2) l) (hr : Shaped w h (pos * 2 + 1) r) :
      Shaped w (h + 1) pos (node l r)

theorem length_hashes_le_bits (t : PrunedTree α) : t.hashes.length ≤ t.bits.length := by
  induction t with
  | leaf isMatched a => exact le_rfl
  | cut a => exact le_rfl
  | lone l ih =>
    rw [hashes, bits, List.length_cons]
    omega
  | node l r ihl ihr =>
    rw [hashes, bits, List.length_cons, List.length_append, List.length_append]
    omega

theorem Shaped.congr {w w' : Nat → Nat} {h pos : Nat} {t : PrunedTree α} (hshape : Shaped w h pos t)
    (hw : ∀ k < h, w' k = w k) : Shaped w' h pos t := by
  induction hshape with
  | leaf pos isMatched a => exact Shaped.leaf pos isMatched a
  | cut h pos a => exact Shaped.cut h pos a
  | @lone h pos l hend hl ih =>
    rw [← hw h (Nat.lt_succ_self h)] at hend
    exact Shaped.lone hend (ih fun k hk => hw k (Nat.lt_succ_of_lt hk))
  | @node h pos l r hlt hl hr ihl ihr =>
    rw [← hw h (Nat.lt_succ_self h)] at hlt
    exact Shaped.node hlt (ihl fun k hk => hw k (Nat.lt_succ_of_lt hk))
      (ihr fun k hk => hw k (Nat.lt_succ_of_lt hk))

theorem Shaped.length_bits_lt {w : Nat → Nat} {h pos : Nat} {t : PrunedTree α}
    (hshape : Shaped w h pos t) : t.bits.length < 2 ^ (h + 1) := by
  induction hshape with
  | leaf pos isMatched a => exact Nat.one_lt_two
  | cut h pos a =>
    have hpos : 0 < 2 ^ h := Nat.two_pow_pos h
    rw [bits, List.length_singleton, Nat.pow_succ, Nat.pow_succ]
    omega
  | @lone h pos l hend hl ih =>
    rw [bits, List.length_cons, Nat.pow_succ]
    omega
  | @node h pos l r hlt hl hr ihl ihr =>
    rw [bits, List.length_cons, List.length_append, Nat.pow_succ]
    omega

section Sound

variable {hash : α → α → α} {w : Nat → Nat} {l : List α} {h pos : Nat} {t : PrunedTree α}

-- the position on level 0 that the way down to `p` leads to where the levels of `n` entries narrow
def foldedPosition (n : Nat) : Nat → Nat → Nat → Nat
  | 0, q, _ => q
  | h + 1, q, p => foldedPosition n h (min (2 * q + p / 2 ^ h % 2) (width n h - 1)) p

theorem foldedPosition_eq_self {n p : Nat} (hp : p < n) (h : Nat) :
    foldedPosition n h (p / 2 ^ h) p = p := by
  induction h with
  | zero => rw [foldedPosition, Nat.pow_zero, Nat.div_one]
  | succ h ih =>
    have hdouble : 2 * (p / 2 ^ (h + 1)) + p / 2 ^ h % 2 = p / 2 ^ h := by
      rw [Nat.pow_succ, ← Nat.div_div_eq_div_mul]
      omega
    have hlt : p / 2 ^ h < width n h := lt_width_iff.mpr
      (Nat.lt_of_le_of_lt (Nat.div_mul_le_self p (2 ^ h)) hp)
    rw [foldedPosition, hdouble, Nat.min_eq_left (by omega), ih]

theorem div_pow_of_mem_matched (hshape : Shaped w h pos t) {x : Nat × α}
    (hx : x ∈ t.matched pos) : x.1 / 2 ^ h = pos := by
  induction hshape with
  | leaf pos isMatched a =>
    rw [matched] at hx
    split at hx
    · rw [List.mem_singleton.mp hx, Nat.pow_zero, Nat.div_one]
    · exact absurd hx List.not_mem_nil
  | cut h pos a => exact absurd hx List.not_mem_nil
  | @lone h pos l hend hl ih =>
    have hhalf := ih hx
    rw [Nat.pow_succ, ← Nat.div_div_eq_div_mul, hhalf]
    omega
  | @node h pos l r hlt hl hr ihl ihr =>
    rw [Nat.pow_succ, ← Nat.div_div_eq_div_mul]
    rcases List.mem_append.mp hx with hx | hx
    · rw [ihl hx]
      omega
    · rw [ihr hx]
      omega

-- what a node of two children agrees with is a pair of the level below
theorem exists_children (hinj : ∀ a b c d, hash a b = hash c d → a = c ∧ b = d)
    (hleaf : ∀ a b, hash a b ∉ l) {k q : Nat} {a b : α}
    (hroot : (level hash k l)[q]? = some (hash a b)) :
    ∃ k', k = k' + 1 ∧ (level hash k' l)[2 * q]? = some a ∧
      (level hash k' l)[min (2 * q + 1) (width l.length k' - 1)]? = some b := by
  cases k with
  | zero => exact absurd (List.mem_of_getElem? hroot) (hleaf a b)
  | succ k =>
    rw [level, getElem?_pairUp_eq, Option.bind_eq_some_iff] at hroot
    obtain ⟨c, hc, hmap⟩ := hroot
    obtain ⟨d, hd, hhash⟩ := Option.map_eq_some_iff.mp hmap
    obtain ⟨rfl, rfl⟩ := hinj _ _ _ _ hhash
    rw [length_level] at hd
    exact ⟨k, rfl, hc, hd⟩

theorem getElem?_foldedPosition (hinj : ∀ a b c d, hash a b = hash c d → a = c ∧ b = d)
    (hleaf : ∀ a b, hash a b ∉ l) (hshape : Shaped w h pos t) {k q : Nat}
    (hroot : (level hash k l)[q]? = some (t.root hash)) {x : Nat × α} (hx : x ∈ t.matched pos)
    (hfree : ∀ a b, hash a b ≠ x.2) : k = h ∧ l[foldedPosition l.length h q x.1]? = some x.2 := by
  -- Both trees are descended along the way to `x`, whose hashes are those of the list's own levels.
  induction hshape generalizing k q with
  | leaf pos isMatched a =>
    rw [matched] at hx
    split at hx
    · obtain rfl := List.mem_singleton.mp hx
      cases k with
      | zero => exact ⟨rfl, hroot⟩
      | succ k =>
        obtain ⟨p, -, hp⟩ := List.mem_map.mp (List.mem_of_getElem? hroot)
        exact absurd hp (hfree p.1 p.2)
    · exact absurd hx List.not_mem_nil
  | cut h pos a => exact absurd hx List.not_mem_nil
  | @lone h pos t hend ht ih =>
    obtain ⟨k, rfl, hleft, -⟩ := exists_children hinj hleaf hroot
    obtain ⟨rfl, hget⟩ := ih hleft hx
    have hlt := (List.getElem?_eq_some_iff.mp hleft).1
    have hbit : x.1 / 2 ^ k % 2 = 0 := by
      rw [div_pow_of_mem_matched ht hx]
      omega
    rw [length_level] at hlt
    rw [foldedPosition, hbit, Nat.add_zero, Nat.min_eq_left (by omega)]
    exact ⟨rfl, hget⟩
  | @node h pos t u hlt ht hu iht ihu =>
    obtain ⟨k, rfl, hleft, hright⟩ := exists_children hinj hleaf hroot
    rcases List.mem_append.mp hx with hx | hx
    · obtain ⟨rfl, hget⟩ := iht hleft hx
      have hlt := (List.getElem?_eq_some_iff.mp hleft).1
      have hbit : x.1 / 2 ^ k % 2 = 0 := by
        rw [div_pow_of_mem_matched ht hx]
        omega
      rw [length_level] at hlt
      rw [foldedPosition, hbit, Nat.add_zero, Nat.min_eq_left (by omega)]
      exact ⟨rfl, hget⟩
    · obtain ⟨rfl, hget⟩ := ihu hright hx
      have hbit : x.1 / 2 ^ k % 2 = 1 := by
        rw [div_pow_of_mem_matched hu hx]
        omega
      rw [foldedPosition, hbit]
      exact ⟨rfl, hget⟩

end Sound

section Prune

-- the positions of the leaves under a node, of `n` in all
def leavesUnder (n h pos : Nat) : List Nat :=
  List.range' (pos * 2 ^ h) (min ((pos + 1) * 2 ^ h) n - pos * 2 ^ h)

theorem leavesUnder_zero {n pos : Nat} (hpos : pos < n) : leavesUnder n 0 pos = [pos] := by
  have hcount : min ((pos + 1) * 2 ^ 0) n - pos * 2 ^ 0 = 1 := by omega
  rw [leavesUnder, hcount, Nat.pow_zero, Nat.mul_one, List.range'_one]

theorem leavesUnder_node {n h pos : Nat} (hlt : pos * 2 + 1 < width n h) :
    leavesUnder n (h + 1) pos = leavesUnder n h (pos * 2) ++ leavesUnder n h (pos * 2 + 1) := by
  rw [lt_width_iff, Nat.add_mul, Nat.one_mul] at hlt
  have hstart : pos * 2 ^ (h + 1) = pos * 2 * 2 ^ h := by rw [Nat.pow_succ]; ring
  have hstop : (pos + 1) * 2 ^ (h + 1) = pos * 2 * 2 ^ h + 2 ^ h + 2 ^ h := by
    rw [Nat.pow_succ]; ring
  have hmiddle : (pos * 2 + 1) * 2 ^ h = pos * 2 * 2 ^ h + 2 ^ h := by ring
  have hright : (pos * 2 + 1 + 1) * 2 ^ h = pos * 2 * 2 ^ h + 2 ^ h + 2 ^ h := by ring
  rw [leavesUnder, leavesUnder, leavesUnder, hstart, hstop, hmiddle, hright]
  generalize pos * 2 * 2 ^ h = a at hlt ⊢
  generalize 2 ^ h = b at hlt ⊢
  rw [Nat.min_eq_left hlt.le, Nat.add_sub_cancel_left, List.range'_append_1]
  congr 1
  omega

theorem leavesUnder_lone {n h pos : Nat} (hend : ¬pos * 2 + 1 < width n h) :
    leavesUnder n (h + 1) pos = leavesUnder n h (pos * 2) := by
  rw [lt_width_iff, Nat.add_mul, Nat.one_mul] at hend
  have hstart : pos * 2 ^ (h + 1) = pos * 2 * 2 ^ h := by rw [Nat.pow_succ]; ring
  have hstop : (pos + 1) * 2 ^ (h + 1) = pos * 2 * 2 ^ h + 2 ^ h + 2 ^ h := by
    rw [Nat.pow_succ]; ring
  rw [leavesUnder, leavesUnder, hstart, hstop, Nat.add_mul, Nat.one_mul]
  congr 1
  omega

theorem double_lt_width {n h pos : Nat} (hpos : pos < width n (h + 1)) : pos * 2 < width n h := by
  rw [width_succ] at hpos
  omega

variable (hash : α → α → α) (zero : α) (l : List α) (mark : Nat → Bool)

-- the tree over a list, cut where no marked position lies below
def prune : Nat → Nat → PrunedTree α
  | 0, pos => leaf ((leavesUnder l.length 0 pos).any mark) (l.getD pos zero)
  | h + 1, pos =>
    if (leavesUnder l.length (h + 1) pos).any mark then
      if pos * 2 + 1 < width l.length h then
        node (prune h (pos * 2)) (prune h (pos * 2 + 1))
      else lone (prune h (pos * 2))
    else cut ((level hash (h + 1) l).getD pos zero)

variable {hash zero l mark}

theorem shaped_prune (h pos : Nat) :
    Shaped (width l.length) h pos (prune hash zero l mark h pos) := by
  induction h generalizing pos with
  | zero => exact Shaped.leaf pos _ _
  | succ h ih =>
    rw [prune]
    split
    · split
      · rename_i hlt
        exact Shaped.node hlt (ih (pos * 2)) (ih (pos * 2 + 1))
      · rename_i hend
        exact Shaped.lone hend (ih (pos * 2))
    · exact Shaped.cut h pos _

theorem getD_level_succ {h pos : Nat} (hpos : pos < width l.length (h + 1)) :
    (level hash (h + 1) l).getD pos zero = hash ((level hash h l).getD (pos * 2) zero)
      ((level hash h l).getD (min (pos * 2 + 1) (width l.length h - 1)) zero) := by
  have hleft := double_lt_width hpos
  have hright : min (pos * 2 + 1) (width l.length h - 1) < width l.length h := by omega
  rw [← length_level hash] at hleft hright
  rw [List.getD_eq_getElem?_getD, level, getElem?_pairUp_eq, Nat.mul_comm 2 pos, length_level,
    List.getElem?_eq_getElem hleft, Option.bind_some, ← length_level hash,
    List.getElem?_eq_getElem hright, List.getD_eq_getElem _ _ hleft,
    List.getD_eq_getElem _ _ hright]
  rfl

theorem root_prune {h pos : Nat} (hpos : pos < width l.length h) :
    (prune hash zero l mark h pos).root hash = (level hash h l).getD pos zero := by
  induction h generalizing pos with
  | zero => rfl
  | succ h ih =>
    have hleft := double_lt_width hpos
    rw [prune]
    split
    · rw [getD_level_succ hpos]
      split
      · rename_i hlt
        rw [root, ih hleft, ih hlt, Nat.min_eq_left (by omega)]
      · rename_i hend
        have hmin : min (pos * 2 + 1) (width l.length h - 1) = pos * 2 := by omega
        rw [root, ih hleft, hmin]
    · rfl

theorem matched_prune {h pos : Nat} (hpos : pos < width l.length h) :
    (prune hash zero l mark h pos).matched pos =
      ((leavesUnder l.length h pos).filter mark).map fun p => (p, l.getD p zero) := by
  induction h generalizing pos with
  | zero =>
    rw [width_zero] at hpos
    rw [prune, matched, leavesUnder_zero hpos]
    cases hmark : mark pos <;> simp [hmark]
  | succ h ih =>
    have hleft := double_lt_width hpos
    rw [prune]
    split
    · split
      · rename_i hlt
        rw [matched, ih hleft, ih hlt, leavesUnder_node hlt, List.filter_append, List.map_append]
      · rename_i hend
        rw [matched, ih hleft, leavesUnder_lone hend]
    · rename_i hnone
      have hempty : (leavesUnder l.length (h + 1) pos).filter mark = [] := by
        rw [List.filter_eq_nil_iff]
        exact fun p hp hmark => hnone (List.any_eq_true.mpr ⟨p, hp, hmark⟩)
      rw [matched, hempty, List.map_nil]

theorem length_leavesUnder_pos {n h pos : Nat} (hpos : pos < width n h) :
    0 < (leavesUnder n h pos).length := by
  rw [lt_width_iff] at hpos
  have hpow : 0 < 2 ^ h := Nat.two_pow_pos h
  rw [leavesUnder, List.length_range', Nat.add_mul, Nat.one_mul]
  omega

-- Each hash stands for leaves of its own.
theorem length_hashes_prune {h pos : Nat} (hpos : pos < width l.length h) :
    (prune hash zero l mark h pos).hashes.length ≤ (leavesUnder l.length h pos).length := by
  induction h generalizing pos with
  | zero => exact length_leavesUnder_pos hpos
  | succ h ih =>
    have hleft := double_lt_width hpos
    rw [prune]
    split
    · split
      · rename_i hlt
        rw [hashes, List.length_append, leavesUnder_node hlt, List.length_append]
        exact Nat.add_le_add (ih hleft) (ih hlt)
      · rename_i hend
        rw [hashes, leavesUnder_lone hend]
        exact ih hleft
    · exact length_leavesUnder_pos hpos

end Prune

end PrunedTree
