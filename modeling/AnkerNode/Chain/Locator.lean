import AnkerNode.Chain.IndexRun
import AnkerNode.Lib.Loops

namespace AnkerNode

-- a null pointer is none
structure CChain where
  vChain : List (Option Nat) := []
deriving DecidableEq, Repr

namespace CChain

variable (t : BlockTree) (c : CChain)

def atHeight (nHeight : Int) : Option Nat :=
  if nHeight < 0 ∨ (c.vChain.length : Int) ≤ nHeight then none else (c.vChain[nHeight.toNat]?).join

def height : Int := c.vChain.length - 1

def genesis : Option Nat := if 0 < c.vChain.length then (c.vChain[0]?).join else none

def tip : Option Nat :=
  if c.vChain.length < 1 then none else (c.vChain[c.vChain.length - 1]?).join

def contains (pindex : Nat) : Bool := c.atHeight (t.height pindex) == some pindex

-- the loop of SetTip
def fillBack : Nat → List (Option Nat) → Option Nat → List (Option Nat)
  | 0, vChain, _ => vChain
  | _ + 1, vChain, none => vChain
  | fuel + 1, vChain, some pindex =>
    if (vChain[t.height pindex]?).join = some pindex then vChain
    else fillBack fuel (vChain.set (t.height pindex) (some pindex)) (t.parent pindex)

def resize (vChain : List (Option Nat)) (n : Nat) : List (Option Nat) :=
  vChain.take n ++ List.replicate (n - vChain.length) none

def setTip : Option Nat → CChain
  | none => ⟨[]⟩
  | some pindex =>
    ⟨fillBack t (t.height pindex + 1) (resize c.vChain (t.height pindex + 1)) (some pindex)⟩

def getAncestor (i : Nat) (height : Int) : Option Nat :=
  if height < 0 then none else t.getAncestor i height.toNat

structure Located where
  pindex : Option Nat
  nStep : Nat
  vHave : List Nat

-- `vHave` lists the entries; what is sent are their hashes.
def locatorStep (l : Located) : Located ⊕ List Nat :=
  match l.pindex with
  | none => .inr l.vHave
  | some pindex =>
    let vHave := l.vHave ++ [pindex]
    if t.height pindex = 0 then .inr vHave
    else
      let nHeight : Int := max ((t.height pindex : Int) - l.nStep) 0
      .inl
        { pindex := if c.contains t pindex then c.atHeight nHeight else getAncestor t pindex nHeight
          nStep := if 10 < vHave.length then l.nStep * 2 else l.nStep
          vHave := vHave }

def start (pindex : Option Nat) : Located := ⟨pindex.or c.tip, 1, []⟩

-- One turn for each height is enough; the result is none where they are used up.
def getLocator (pindex : Option Nat) : Option (List UInt256) :=
  (WhileLoop.run (c.locatorStep t) ((pindex.or c.tip).elim 0 t.height + 1) (c.start pindex)).map
    fun entries => entries.map t.hash

-- the loop of FindFork
def walkToFork : Nat → Option Nat → Option Nat
  | 0, _ => none
  | _ + 1, none => none
  | fuel + 1, some pindex =>
    if c.contains t pindex then some pindex else walkToFork fuel (t.parent pindex)

def findFork (pindex : Nat) : Option Nat :=
  c.walkToFork t (t.height pindex + 2)
    (if c.height < t.height pindex then getAncestor t pindex c.height else some pindex)

-- what one hash of the locator gives, if it gives anything: the tip may be null
def findForkAt (hash : UInt256) : Option (Option Nat) :=
  (t.lookup hash).bind fun pindex =>
    if c.contains t pindex then some (some pindex)
    else if getAncestor t pindex c.height = c.tip then some c.tip
    else none

def findForkInGlobalIndex (vHave : List UInt256) : Option Nat :=
  (vHave.findSome? (c.findForkAt t)).getD c.genesis

section SetTip

variable {t c} {tip i : Nat} {v : List (Option Nat)}

-- below a height the vector holds the branch of each entry in it
def Closed (t : BlockTree) (v : List (Option Nat)) (n : Nat) : Prop :=
  ∀ k < n, ∀ a, v[k]? = some (some a) →
    t.height a = k ∧ ∀ j ≤ k, v[j]? = some (t.ancestorAt a j)

theorem eq_branch (hlength : v.length = t.height tip + 1)
    (h : ∀ k ≤ t.height tip, v[k]? = some (t.ancestorAt tip k)) :
    v = (t.branch tip).reverse.map some := by
  refine List.ext_getElem? fun k => ?_
  rw [List.getElem?_map, RankedForest.getElem?_reverse_branch]
  rcases Nat.lt_or_ge (t.height tip) k with hgt | hle
  · rw [List.getElem?_eq_none (by omega)]
    cases ha : t.ancestorAt tip k with
    | none => rfl
    | some a =>
      obtain ⟨hmem, hheight⟩ := RankedForest.ancestorAt_eq_some.mp ha
      have hbelow := RankedForest.height_le_of_mem_branch hmem
      omega
  · obtain ⟨a, hmem, hheight⟩ := RankedForest.exists_ancestor (t := t.toRankedForest) hle
    rw [h k hle, RankedForest.ancestorAt_eq_some.mpr ⟨hmem, hheight⟩]
    rfl

-- The loop ends at an entry that the vector holds, or past the genesis block.
theorem fillBack_eq {fuel : Nat} (hi : i ∈ t.branch tip) (hlength : v.length = t.height tip + 1)
    (hfuel : t.height i < fuel)
    (habove : ∀ k, t.height i < k → k ≤ t.height tip → v[k]? = some (t.ancestorAt tip k))
    (hclosed : Closed t v (t.height i + 1)) :
    fillBack t fuel v (some i) = (t.branch tip).reverse.map some := by
  induction fuel generalizing i v with
  | zero => omega
  | succ fuel ih =>
    have hle := RankedForest.height_le_of_mem_branch hi
    have hself : t.ancestorAt tip (t.height i) = some i :=
      RankedForest.ancestorAt_eq_some.mpr ⟨hi, rfl⟩
    rw [fillBack]
    split
    · rename_i hheld
      refine eq_branch hlength fun k hk => ?_
      rcases Nat.lt_or_ge (t.height i) k with hgt | hbelow
      · exact habove k hgt hk
      · have hget := (hclosed _ (Nat.lt_succ_self _) i (Option.join_eq_some_iff.mp hheld)).2 k hbelow
        rw [hget, RankedForest.ancestorAt_of_mem hi hbelow]
    · have hset : ∀ k, k ≠ t.height i → (v.set (t.height i) (some i))[k]? = v[k]? :=
        fun k hk => List.getElem?_set_ne (fun heq => hk heq.symm)
      have hhere : (v.set (t.height i) (some i))[t.height i]? = some (some i) :=
        List.getElem?_set_self (by omega)
      have habove' : ∀ k, t.height i ≤ k → k ≤ t.height tip →
          (v.set (t.height i) (some i))[k]? = some (t.ancestorAt tip k) := by
        intro k hge hk
        rcases Nat.eq_or_lt_of_le hge with rfl | hgt
        · rw [hhere, hself]
        · rw [hset k (by omega), habove k hgt hk]
      cases hp : t.parent i with
      | none =>
        have hroot := t.height_root hp
        have hend : fillBack t fuel (v.set (t.height i) (some i)) none =
            v.set (t.height i) (some i) := by
          cases fuel <;> rfl
        rw [hend]
        exact eq_branch (by rw [List.length_set]; exact hlength) fun k hk => habove' k (by omega) hk
      | some j =>
        have hheight := t.height_parent hp
        refine ih (RankedForest.mem_branch_trans (RankedForest.parent_mem_branch hp) hi)
          (by rw [List.length_set]; exact hlength) (by omega)
          (fun k hgt hk => habove' k (by omega) hk) fun k hk a ha => ?_
        rw [hset k (by omega)] at ha
        obtain ⟨hah, hbelow⟩ := hclosed k (by omega) a ha
        exact ⟨hah, fun l hl => by rw [hset l (by omega), hbelow l hl]⟩

def OnBranch (t : BlockTree) (c : CChain) (tip : Nat) : Prop :=
  c.vChain = (t.branch tip).reverse.map some

theorem closed_resize (n m : Nat) (h : c.vChain = [] ∨ ∃ old, OnBranch t c old) :
    Closed t (resize c.vChain n) m := by
  intro k _ a ha
  have hcut : ∀ j, (resize c.vChain n)[j]? = some (some a) → j < n ∧ c.vChain[j]? = some (some a) := by
    intro j hj
    rw [resize, List.getElem?_append] at hj
    split at hj
    · rename_i hlt
      rw [List.length_take] at hlt
      rw [List.getElem?_take_of_lt (by omega)] at hj
      exact ⟨by omega, hj⟩
    · rw [List.getElem?_replicate] at hj
      split at hj <;> simp at hj
  obtain ⟨hkn, hk⟩ := hcut k ha
  rcases h with hnil | ⟨old, hold⟩
  · rw [hnil] at hk
    simp at hk
  · have hget : ∀ j, c.vChain[j]? = (t.ancestorAt old j).map some := by
      intro j
      rw [hold, List.getElem?_map, RankedForest.getElem?_reverse_branch]
    rw [hget, Option.map_eq_some_iff] at hk
    obtain ⟨b, hb, hba⟩ := hk
    obtain rfl := Option.some.inj hba
    obtain ⟨hmem, hheight⟩ := RankedForest.ancestorAt_eq_some.mp hb
    refine ⟨hheight, fun j hj => ?_⟩
    obtain ⟨d, hd, hdh⟩ := RankedForest.exists_ancestor (t := t.toRankedForest) (i := b) (h := j)
      (by omega)
    have hold' : t.ancestorAt old j = t.ancestorAt b j :=
      RankedForest.ancestorAt_of_mem hmem (by omega)
    have hvalue : c.vChain[j]? = some (t.ancestorAt b j) := by
      rw [hget, hold', RankedForest.ancestorAt_eq_some.mpr ⟨hd, hdh⟩]
      rfl
    have hlt := (List.getElem?_eq_some_iff.mp hvalue).1
    rw [resize, List.getElem?_append_left (by rw [List.length_take]; omega),
      List.getElem?_take_of_lt (by omega), hvalue]

theorem setTip_onBranch (h : c.vChain = [] ∨ ∃ old, OnBranch t c old) (i : Nat) :
    OnBranch t (c.setTip t (some i)) i := by
  have hlength : (resize c.vChain (t.height i + 1)).length = t.height i + 1 := by
    rw [resize, List.length_append, List.length_take, List.length_replicate]
    omega
  exact fillBack_eq (RankedForest.self_mem_branch i) hlength (Nat.lt_succ_self _)
    (fun k hgt hk => by omega) (closed_resize _ _ h)

end SetTip

inductive Reached (t : BlockTree) : CChain → Prop
  | empty : Reached t {}
  | setTip {c : CChain} {pindex : Option Nat} (h : Reached t c)
      (hlt : ∀ i, pindex = some i → i < t.size) : Reached t (c.setTip t pindex)

theorem Reached.cases {t : BlockTree} {c : CChain} (h : Reached t c) :
    c.vChain = [] ∨ ∃ tip, tip < t.size ∧ OnBranch t c tip := by
  induction h with
  | empty => exact Or.inl rfl
  | @setTip c pindex h hlt ih =>
    cases pindex with
    | none => exact Or.inl rfl
    | some i =>
      have hold : c.vChain = [] ∨ ∃ old, OnBranch t c old := by
        rcases ih with hnil | ⟨old, -, hold⟩
        · exact Or.inl hnil
        · exact Or.inr ⟨old, hold⟩
      exact Or.inr ⟨i, hlt i rfl, setTip_onBranch hold i⟩

section Read

variable {t : BlockTree} {c : CChain} {tip i : Nat}

theorem OnBranch.length (h : OnBranch t c tip) : c.vChain.length = t.height tip + 1 := by
  rw [h, List.length_map, List.length_reverse, RankedForest.length_branch]

theorem OnBranch.getElem?_join (h : OnBranch t c tip) (n : Nat) :
    (c.vChain[n]?).join = t.ancestorAt tip n := by
  rw [h, List.getElem?_map, RankedForest.getElem?_reverse_branch]
  cases t.ancestorAt tip n <;> rfl

theorem OnBranch.atHeight (h : OnBranch t c tip) (n : Nat) :
    c.atHeight n = t.ancestorAt tip n := by
  rw [CChain.atHeight]
  split
  · rw [← h.getElem?_join, List.getElem?_eq_none (by omega)]
    rfl
  · rw [Int.toNat_natCast, h.getElem?_join]

theorem OnBranch.height (h : OnBranch t c tip) : c.height = t.height tip := by
  rw [CChain.height, h.length]
  omega

theorem OnBranch.tip_eq (h : OnBranch t c tip) : c.tip = some tip := by
  rw [CChain.tip, h.length, if_neg (by omega), Nat.add_sub_cancel, h.getElem?_join]
  exact RankedForest.ancestorAt_eq_some.mpr ⟨RankedForest.self_mem_branch tip, rfl⟩

theorem OnBranch.contains_iff (h : OnBranch t c tip) :
    c.contains t i = true ↔ i ∈ t.branch tip := by
  rw [contains, beq_iff_eq, h.atHeight, RankedForest.mem_branch_iff_ancestorAt]

theorem contains_of_nil (h : c.vChain = []) (i : Nat) : c.contains t i = false := by
  have hout : ((t.height i : Nat) : Int) < 0 ∨
      ((([] : List (Option Nat)).length : Nat) : Int) ≤ t.height i :=
    Or.inr (Int.natCast_nonneg _)
  rw [contains, CChain.atHeight, h, if_pos hout]
  rfl

theorem tip_of_nil (h : c.vChain = []) : c.tip = none := by
  rw [CChain.tip, h, if_pos (by decide)]

theorem height_of_nil (h : c.vChain = []) : c.height = -1 := by
  rw [CChain.height, h]
  rfl

theorem getAncestor_natCast {n : Nat} (h : n ≤ t.height i) :
    getAncestor t i n = t.ancestorAt i n := by
  rw [CChain.getAncestor, if_neg (by omega), Int.toNat_natCast, BlockTree.getAncestor_eq h]

-- A chain that holds an entry steps back from it along the entry's own branch.
theorem Reached.stepBack (h : Reached t c) {n : Nat} (hn : n ≤ t.height i) :
    (if c.contains t i then c.atHeight n else getAncestor t i n) = t.ancestorAt i n := by
  split
  · rename_i hcontains
    rcases h.cases with hnil | ⟨tip, -, hbranch⟩
    · rw [contains_of_nil hnil] at hcontains
      exact Bool.noConfusion hcontains
    · rw [hbranch.atHeight]
      exact RankedForest.ancestorAt_of_mem (hbranch.contains_iff.mp hcontains) hn
  · exact getAncestor_natCast hn

-- a list that goes down from an entry to the genesis block
structure Descends (t : BlockTree) (i : Nat) (entries : List Nat) : Prop where
  head : entries.head? = some i
  branch : ∀ a ∈ entries, a ∈ t.branch i
  heights : entries.Pairwise fun a b => t.height b < t.height a
  last : ∃ a, entries.getLast? = some a ∧ t.height a = 0

theorem Descends.cons {j : Nat} {entries : List Nat} (h : Descends t j entries)
    (hj : j ∈ t.branch i) (hlt : t.height j < t.height i) : Descends t i (i :: entries) where
  head := rfl
  branch := by
    intro a ha
    rcases List.mem_cons.mp ha with rfl | ha
    · exact RankedForest.self_mem_branch a
    · exact RankedForest.mem_branch_trans (h.branch a ha) hj
  heights := by
    refine List.pairwise_cons.mpr ⟨fun a ha => ?_, h.heights⟩
    have hle := RankedForest.height_le_of_mem_branch (h.branch a ha)
    omega
  last := by
    obtain ⟨a, ha, hzero⟩ := h.last
    exact ⟨a, by rw [List.getLast?_cons, ha]; rfl, hzero⟩

theorem Reached.run_locatorStep (h : Reached t c) {fuel nStep : Nat} (hstep : 0 < nStep)
    (hfuel : t.height i < fuel) (vHave : List Nat) : ∃ entries, Descends t i entries ∧
      WhileLoop.run (c.locatorStep t) fuel ⟨some i, nStep, vHave⟩ = some (vHave ++ entries) := by
  induction fuel generalizing i nStep vHave with
  | zero => omega
  | succ fuel ih =>
    by_cases hzero : t.height i = 0
    · refine ⟨[i], ⟨rfl, ?_, List.pairwise_singleton _ _, i, rfl, hzero⟩, ?_⟩
      · intro a ha
        rw [List.mem_singleton.mp ha]
        exact RankedForest.self_mem_branch i
      · rw [WhileLoop.run, locatorStep]
        dsimp only
        rw [if_pos hzero]
    · obtain ⟨j, hj, hjh⟩ := RankedForest.exists_ancestor (t := t.toRankedForest) (i := i)
        (h := t.height i - nStep) (by omega)
      have hback : (if c.contains t i then c.atHeight (max ((t.height i : Int) - nStep) 0)
          else getAncestor t i (max ((t.height i : Int) - nStep) 0)) = some j := by
        rw [show max ((t.height i : Int) - nStep) 0 = ((t.height i - nStep : Nat) : Int) by omega,
          h.stepBack (by omega)]
        exact RankedForest.ancestorAt_eq_some.mpr ⟨hj, hjh⟩
      have hnext : 0 < if 10 < (vHave ++ [i]).length then nStep * 2 else nStep := by
        split <;> omega
      obtain ⟨entries, hentries, hrun⟩ := ih (i := j) hnext (by omega) (vHave ++ [i])
      refine ⟨i :: entries, hentries.cons hj (by omega), ?_⟩
      rw [WhileLoop.run, locatorStep]
      dsimp only
      rw [if_neg hzero, hback]
      dsimp only
      rw [hrun, List.append_assoc]
      rfl

theorem Reached.getLocator (h : Reached t c) (i : Nat) : ∃ entries, Descends t i entries ∧
    c.getLocator t (some i) = some (entries.map t.hash) := by
  obtain ⟨entries, hentries, hrun⟩ :=
    h.run_locatorStep (i := i) Nat.one_pos (Nat.lt_succ_self (t.height i)) []
  refine ⟨entries, hentries, ?_⟩
  change (WhileLoop.run (c.locatorStep t) (t.height i + 1) ⟨some i, 1, []⟩).map _ = _
  rw [hrun]
  rfl

end Read

section Fork

variable {t : BlockTree} {c : CChain} {tip i : Nat}

def Keyed (t : BlockTree) : Prop := ∀ i < t.size, t.lookup (t.hash i) = some i

def Rooted (t : BlockTree) : Prop := ∀ i < t.size, t.parent i = none → i = 0

theorem genesis_mem_branch (hroot : Rooted t) (hi : i < t.size) : 0 ∈ t.branch i := by
  induction i using t.branch_induction with
  | root i hp =>
    rw [hroot i hi hp]
    exact RankedForest.self_mem_branch 0
  | step i j hp ih =>
    have hlt := t.parent_lt hp
    exact (RankedForest.mem_branch_of_parent hp).mpr (Or.inr (ih (by omega)))

theorem eq_genesis (hroot : Rooted t) (hi : i < t.size) (hzero : t.height i = 0) : i = 0 := by
  cases hp : t.parent i with
  | none => exact hroot i hi hp
  | some j =>
    have hheight := t.height_parent hp
    omega

theorem walkToFork_eq {fuel : Nat} (hfuel : t.height i < fuel) :
    c.walkToFork t fuel (some i) = (t.branch i).find? fun a => c.contains t a := by
  induction fuel generalizing i with
  | zero => omega
  | succ fuel ih =>
    rw [walkToFork]
    cases hcontains : c.contains t i with
    | true =>
      rw [if_pos rfl]
      cases hp : t.parent i with
      | none => rw [RankedForest.branch_of_none hp, List.find?_cons_of_pos hcontains]
      | some j => rw [RankedForest.branch_of_some hp, List.find?_cons_of_pos hcontains]
    | false =>
      have hnot : ¬c.contains t i = true := Bool.eq_false_iff.mp hcontains
      rw [if_neg Bool.false_ne_true]
      cases hp : t.parent i with
      | none =>
        rw [RankedForest.branch_of_none hp, List.find?_cons_of_neg hnot]
        cases fuel <;> rfl
      | some j =>
        have hheight := t.height_parent hp
        rw [RankedForest.branch_of_some hp, List.find?_cons_of_neg hnot]
        exact ih (by omega)

-- Where FindFork begins: no common ancestor is above it.
theorem OnBranch.exists_start (h : OnBranch t c tip) (i : Nat) : ∃ q,
    (if c.height < t.height i then getAncestor t i c.height else some i) = some q ∧
      q ∈ t.branch i ∧ ∀ a ∈ t.branch i, a ∈ t.branch tip → a ∈ t.branch q := by
  rw [h.height]
  split
  · rename_i hlt
    obtain ⟨q, hq, hqh⟩ := RankedForest.exists_ancestor (t := t.toRankedForest) (i := i)
      (h := t.height tip) (by omega)
    refine ⟨q, ?_, hq, fun a ha hat => ?_⟩
    · rw [getAncestor_natCast (by omega)]
      exact RankedForest.ancestorAt_eq_some.mpr ⟨hq, hqh⟩
    · have hle := RankedForest.height_le_of_mem_branch hat
      rcases RankedForest.branch_total ha hq with haq | hqa
      · exact haq
      · have hge := RankedForest.height_le_of_mem_branch hqa
        rw [RankedForest.eq_of_height_eq hqa (by omega)]
        exact RankedForest.self_mem_branch a
  · exact ⟨i, rfl, RankedForest.self_mem_branch i, fun a ha _ => ha⟩

theorem OnBranch.findFork (h : OnBranch t c tip) (hroot : Rooted t) (htip : tip < t.size)
    (hi : i < t.size) : ∃ f, c.findFork t i = some f ∧ f ∈ t.branch i ∧ f ∈ t.branch tip ∧
      ∀ a ∈ t.branch i, a ∈ t.branch tip → t.height a ≤ t.height f := by
  obtain ⟨q, hstart, hqi, hcommon⟩ := h.exists_start i
  have hle := RankedForest.height_le_of_mem_branch hqi
  have hzero := hcommon 0 (genesis_mem_branch hroot hi) (genesis_mem_branch hroot htip)
  have hcontains : c.contains t 0 = true := h.contains_iff.mpr (genesis_mem_branch hroot htip)
  cases hf : (t.branch q).find? fun a => c.contains t a with
  | none => exact absurd hcontains (List.find?_eq_none.mp hf 0 hzero)
  | some f =>
    refine ⟨f, ?_, RankedForest.mem_branch_trans (List.mem_of_find?_eq_some hf) hqi,
      h.contains_iff.mp (List.find?_some hf), fun a ha hat => ?_⟩
    · rw [CChain.findFork, hstart, walkToFork_eq (by omega), hf]
    · exact RankedForest.height_le_of_mem_branch
        (RankedForest.mem_branch_of_find? hf (hcommon a ha hat) (h.contains_iff.mpr hat))

theorem findForkAt_eq (hkeyed : Keyed t) (hi : i < t.size) : c.findForkAt t (t.hash i) =
    if c.contains t i then some (some i)
    else if getAncestor t i c.height = c.tip then some c.tip else none := by
  rw [findForkAt, hkeyed i hi, Option.bind_some]

theorem OnBranch.mem_of_getAncestor (h : OnBranch t c tip)
    (ha : getAncestor t i c.height = c.tip) : tip ∈ t.branch i := by
  rw [h.height, h.tip_eq, CChain.getAncestor, if_neg (by omega), Int.toNat_natCast] at ha
  rcases Nat.lt_or_ge (t.height i) (t.height tip) with hlt | hge
  · rw [BlockTree.getAncestor, if_pos hlt] at ha
    cases ha
  · rw [BlockTree.getAncestor_eq hge] at ha
    exact (RankedForest.ancestorAt_eq_some.mp ha).1

theorem Descends.lt_size {entries : List Nat} (h : Descends t i entries) (hi : i < t.size) {a : Nat}
    (ha : a ∈ entries) : a < t.size := by
  have hle := RankedForest.le_of_mem_branch (h.branch a ha)
  omega

-- A chain with blocks gets one of them that is an ancestor.
theorem OnBranch.findForkInGlobalIndex (h : OnBranch t c tip) (hroot : Rooted t) (hkeyed : Keyed t)
    (htip : tip < t.size) (hi : i < t.size) {entries : List Nat} (hl : Descends t i entries) :
    ∃ a, c.findForkInGlobalIndex t (entries.map t.hash) = some a ∧ c.contains t a = true ∧
      a ∈ t.branch i := by
  rw [CChain.findForkInGlobalIndex, List.findSome?_map]
  cases hfound : entries.findSome? (c.findForkAt t ∘ t.hash) with
  | none =>
    obtain ⟨a, hlast, hzero⟩ := hl.last
    have ha := List.mem_of_getLast? hlast
    have hnone := List.findSome?_eq_none_iff.mp hfound a ha
    rw [Function.comp_apply, findForkAt_eq hkeyed (hl.lt_size hi ha),
      eq_genesis hroot (hl.lt_size hi ha) hzero,
      if_pos (h.contains_iff.mpr (genesis_mem_branch hroot htip))] at hnone
    cases hnone
  | some r =>
    obtain ⟨a, ha, hr⟩ := List.exists_of_findSome?_eq_some hfound
    rw [Function.comp_apply, findForkAt_eq hkeyed (hl.lt_size hi ha)] at hr
    rw [Option.getD_some]
    split at hr
    · rename_i hcontains
      exact ⟨a, (Option.some.inj hr).symm, hcontains, hl.branch a ha⟩
    · split at hr
      · rename_i hancestor
        refine ⟨tip, ?_, h.contains_iff.mpr (RankedForest.self_mem_branch tip),
          RankedForest.mem_branch_trans (h.mem_of_getAncestor hancestor) (hl.branch a ha)⟩
        rw [← Option.some.inj hr, h.tip_eq]
      · cases hr

-- The first entry of a locator settles the search where it gives anything.
theorem findForkInGlobalIndex_of_head (hkeyed : Keyed t) (hi : i < t.size) {entries : List Nat}
    (hl : Descends t i entries) {r : Option Nat}
    (hr : (if c.contains t i then some (some i)
      else if getAncestor t i c.height = c.tip then some c.tip else none) = some r) :
    c.findForkInGlobalIndex t (entries.map t.hash) = r := by
  obtain ⟨rest, rfl⟩ := List.head?_eq_some_iff.mp hl.head
  rw [CChain.findForkInGlobalIndex, List.map_cons, List.findSome?_cons, findForkAt_eq hkeyed hi, hr]
  rfl

theorem findForkInGlobalIndex_of_nil (hnil : c.vChain = []) (hkeyed : Keyed t) (hi : i < t.size)
    {entries : List Nat} (hl : Descends t i entries) :
    c.findForkInGlobalIndex t (entries.map t.hash) = none := by
  refine findForkInGlobalIndex_of_head hkeyed hi hl ?_
  rw [contains_of_nil hnil, if_neg Bool.false_ne_true, height_of_nil hnil, tip_of_nil hnil]
  exact if_pos rfl

theorem findForkInGlobalIndex_of_contains (hkeyed : Keyed t) (hi : i < t.size) {entries : List Nat}
    (hl : Descends t i entries) (hcontains : c.contains t i = true) :
    c.findForkInGlobalIndex t (entries.map t.hash) = some i :=
  findForkInGlobalIndex_of_head hkeyed hi hl (if_pos hcontains)

end Fork

end CChain

open CChain in
theorem locator_finds_fork (t : BlockTree) (hroot : Rooted t) (hkeyed : Keyed t) {c c' : CChain}
    (hc : Reached t c) (hc' : Reached t c') {p : Nat} (hp : p < t.size) :
    ∃ entries : List Nat,
      c'.getLocator t (some p) = some (entries.map t.hash) ∧
      entries.head? = some p ∧ entries.getLast? = some 0 ∧ (∀ a ∈ entries, a ∈ t.branch p) ∧
      entries.Pairwise (fun a b => t.height b < t.height a) ∧
      (c.tip = none → c.findForkInGlobalIndex t (entries.map t.hash) = none ∧
        c.findFork t p = none) ∧
      (∀ tip, c.tip = some tip →
        (∃ a, c.findForkInGlobalIndex t (entries.map t.hash) = some a ∧ c.contains t a = true ∧
          a ∈ t.branch p) ∧
        (c.contains t p = true →
          c.findForkInGlobalIndex t (entries.map t.hash) = some p) ∧
        ∃ f, c.findFork t p = some f ∧ f ∈ t.branch p ∧ f ∈ t.branch tip ∧
          ∀ a ∈ t.branch p, a ∈ t.branch tip → t.height a ≤ t.height f) := by
  obtain ⟨entries, hl, hrun⟩ := hc'.getLocator p
  obtain ⟨last, hlast, hzero⟩ := hl.last
  have hgenesis := eq_genesis hroot (hl.lt_size hp (List.mem_of_getLast? hlast)) hzero
  refine ⟨entries, hrun, hl.head, hgenesis ▸ hlast, hl.branch, hl.heights, fun hnone => ?_,
    fun tip htip => ?_⟩
  · rcases hc.cases with hnil | ⟨tip, -, hbranch⟩
    · refine ⟨findForkInGlobalIndex_of_nil hnil hkeyed hp hl, ?_⟩
      rw [CChain.findFork, height_of_nil hnil, if_pos (by omega), CChain.getAncestor,
        if_pos (by decide)]
      rfl
    · rw [hbranch.tip_eq] at hnone
      cases hnone
  · rcases hc.cases with hnil | ⟨tip', hlt, hbranch⟩
    · rw [tip_of_nil hnil] at htip
      cases htip
    · rw [hbranch.tip_eq] at htip
      obtain rfl := Option.some.inj htip
      exact ⟨hbranch.findForkInGlobalIndex hroot hkeyed hlt hp hl,
        findForkInGlobalIndex_of_contains hkeyed hp hl, hbranch.findFork hroot hlt hp⟩

def forkedTree : BlockTree :=
  ((BlockIndex.genesisTree 1 1).insert ⟨2, 1, 1, Nat.one_pos⟩ (some 0)
    (fun j h => by cases h; decide)).insert ⟨3, 1, 1, Nat.one_pos⟩ (some 0)
    (fun j h => by cases h; decide)

open CChain in
theorem locator_finds_fork_forked :
    ∃ entries : List Nat,
      CChain.getLocator forkedTree {} (some 2) = some (entries.map forkedTree.hash) ∧
      entries.head? = some 2 ∧ entries.getLast? = some 0 ∧
      ∃ f, (CChain.setTip forkedTree {} (some 1)).findFork forkedTree 2 = some f ∧
        f ∈ forkedTree.branch 2 := by
  have hreached : Reached forkedTree (CChain.setTip forkedTree {} (some 1)) :=
    Reached.empty.setTip fun i h => by cases h; decide
  obtain ⟨entries, hrun, hhead, hlast, -, -, -, htip⟩ :=
    locator_finds_fork forkedTree (by unfold Rooted; decide) (by unfold Keyed; decide) hreached
      Reached.empty (show 2 < forkedTree.size by decide)
  obtain ⟨-, -, f, hf, hmem, -⟩ := htip 1 (by decide)
  exact ⟨entries, hrun, hhead, hlast, f, hf, hmem⟩

end AnkerNode
