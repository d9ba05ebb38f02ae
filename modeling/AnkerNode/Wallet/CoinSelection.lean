import AnkerNode.Lib.Ranking
import AnkerNode.Wallet.CoinStake
import Mathlib.Algebra.BigOperators.Group.Finset.Basic
import Mathlib.Algebra.Order.BigOperators.Group.Finset

namespace AnkerNode

open Sorting

-- `obfuScationDenominations`, as the node fills it at its start
def obfuScationDenominations : List Int :=
  [10000 * COIN + 10000000, 1000 * COIN + 1000000, 100 * COIN + 100000, 10 * COIN + 10000,
    1 * COIN + 1000, 10000000 + 100]

def isDenominatedAmount (nInputAmount : Int) : Bool :=
  obfuScationDenominations.any fun d => nInputAmount == d

-- `fFromMe` is what `IsFromMe(ISMINE_ALL)` says.
structure CWalletTx where
  tx : CTransaction
  fFromMe : Bool
deriving DecidableEq

-- a wallet transaction and the number of one of its outputs
abbrev WalletCoin := CWalletTx × Nat

def WalletCoin.nValue (coin : WalletCoin) : Int := (coin.1.tx.vout[coin.2]?.map CTxOut.nValue).getD 0

structure COutput where
  tx : CWalletTx
  i : Nat
  nDepth : Int
  fSpendable : Bool
deriving DecidableEq

def COutput.coin (output : COutput) : WalletCoin := (output.tx, output.i)

def COutput.nValue (output : COutput) : Int := output.coin.nValue

def lessThenDenom (out1 out2 : COutput) : Bool :=
  !isDenominatedAmount out1.nValue && isDenominatedAmount out2.nValue

def compareValueOnly (t1 t2 : WalletCoin) : Bool := t1.nValue < t2.nValue

-- What a sum is as an `int64_t`.
def toCAmount (n : Int) : Int := n.bmod (2 ^ 64)

-- The best subset so far is the one of `vfBest`.
structure SubsetSearch where
  vfIncluded : Nat → Bool := fun _ => false
  nTotal : Int := 0
  fReachedTarget : Bool := false
  vfBest : Nat → Bool
  nBest : Int

namespace SubsetSearch

variable (vValue : List Int) (nTargetValue : Int)

def visit (wanted : SubsetSearch → Nat → Bool) (s : SubsetSearch) (i : Nat) : SubsetSearch :=
  if !wanted s i then s
  else
    let nTotal := s.nTotal + vValue.getD i 0
    let vfIncluded := Function.update s.vfIncluded i true
    if nTargetValue ≤ nTotal then
      let s := { s with fReachedTarget := true }
      let s := if nTotal < s.nBest then { s with nBest := nTotal, vfBest := vfIncluded } else s
      { s with
        nTotal := nTotal - vValue.getD i 0
        vfIncluded := Function.update vfIncluded i false }
    else { s with nTotal := nTotal, vfIncluded := vfIncluded }

def pass (wanted : SubsetSearch → Nat → Bool) (s : SubsetSearch) (n : Nat) : SubsetSearch :=
  (List.range n).foldl (visit vValue nTargetValue wanted) s

-- The first pass takes what the coin says, the second what the first one has left.
def rep (rand : Nat → Bool) (s : SubsetSearch) : SubsetSearch :=
  let s := { s with vfIncluded := fun _ => false, nTotal := 0, fReachedTarget := false }
  let s := pass vValue nTargetValue (fun _ i => rand i) s vValue.length
  if s.fReachedTarget then s
  else pass vValue nTargetValue (fun s i => !s.vfIncluded i) s vValue.length

def reps (rand : Nat → Nat → Bool) : Nat → SubsetSearch → SubsetSearch
  | 0, s => s
  | n + 1, s => if s.nBest = nTargetValue then s else reps rand n (rep vValue nTargetValue (rand n) s)

end SubsetSearch

-- `rand` gives the coins of each of the iterations.
def approximateBestSubset (rand : Nat → Nat → Bool) (vValue : List Int)
    (nTotalLower nTargetValue : Int) (iterations : Nat := 1000) : (Nat → Bool) × Int :=
  let s := SubsetSearch.reps vValue nTargetValue rand iterations
    { vfBest := fun _ => true, nBest := nTotalLower }
  (s.vfBest, s.nBest)

-- What is left to chance: the shuffle, what the sorts do with equals, and the coins of the two
-- searches.
structure SelectionChoices where
  shuffle : List COutput → List COutput
  shuffle_perm : ∀ vCoins, (shuffle vCoins).Perm vCoins
  sortDenoms : Sorter lessThenDenom
  sortValues : Sorter compareValueOnly
  rand : Bool → Nat → Nat → Bool

structure CoinRequest where
  nTargetValue : Int
  nConfMine : Int
  nConfTheirs : Int

structure GatheredCoins where
  vValue : List WalletCoin := []
  nTotalLower : Int := 0
  coinLowestLarger : Option WalletCoin

abbrev SelectedCoins := Finset WalletCoin × Int

def SelectedCoins.add (ret : SelectedCoins) (coin : WalletCoin) : SelectedCoins :=
  (insert coin ret.1, ret.2 + coin.nValue)

def selectAll (coins : List WalletCoin) : SelectedCoins := coins.foldl SelectedCoins.add (∅, 0)

namespace CoinRequest

variable (req : CoinRequest)

def nTargetCent : Int := toCAmount (req.nTargetValue + CENT)

def eligible (output : COutput) : Bool :=
  output.fSpendable &&
    decide ((if output.tx.fFromMe then req.nConfMine else req.nConfTheirs) ≤ output.nDepth)

-- the amount of `coinLowestLarger`
def lowestLarger (coin : Option WalletCoin) : Int := (coin.map WalletCoin.nValue).getD int64Max

-- One walk over the coins, which ends early at a coin of just the amount.
def gather (skipDenom : Bool) : List COutput → GatheredCoins → WalletCoin ⊕ GatheredCoins
  | [], g => .inr g
  | output :: vCoins, g =>
    let n := output.nValue
    if !req.eligible output then gather skipDenom vCoins g
    else if skipDenom && isDenominatedAmount n then gather skipDenom vCoins g
    else if n = req.nTargetValue then .inl output.coin
    else if n < req.nTargetCent then
      gather skipDenom vCoins
        { g with vValue := g.vValue ++ [output.coin], nTotalLower := g.nTotalLower + n }
    else if n < lowestLarger g.coinLowestLarger then
      gather skipDenom vCoins { g with coinLowestLarger := some output.coin }
    else gather skipDenom vCoins g

def searchSubset (choices : SelectionChoices) (nTotalLower : Int) (vValue : List Int) :
    (Nat → Bool) × Int :=
  let best := approximateBestSubset (choices.rand false) vValue nTotalLower req.nTargetValue
  if best.2 ≠ req.nTargetValue ∧ req.nTargetCent ≤ nTotalLower then
    approximateBestSubset (choices.rand true) vValue nTotalLower req.nTargetCent
  else best

def included (vfBest : Nat → Bool) (vValue : List WalletCoin) : List WalletCoin :=
  (vValue.zipIdx.filter fun p => vfBest p.2).map Prod.fst

def solve (choices : SelectionChoices) (g : GatheredCoins) : SelectedCoins :=
  let vValue := choices.sortValues.sortReversed g.vValue
  let best := req.searchSubset choices g.nTotalLower (vValue.map WalletCoin.nValue)
  match g.coinLowestLarger with
  | some coin =>
    if best.2 ≠ req.nTargetValue ∧ best.2 < req.nTargetCent ∨ coin.nValue ≤ best.2 then
      selectAll [coin]
    else selectAll (included best.1 vValue)
  | none => selectAll (included best.1 vValue)

-- The rounds of the loop over `tryDenom`. Only a round that finds too little goes on to the next.
def tryDenoms (choices : SelectionChoices) (vCoins : List COutput) :
    List Bool → Option WalletCoin → Option SelectedCoins
  | [], _ => none
  | skipDenom :: rounds, coinLowestLarger =>
    match req.gather skipDenom vCoins { coinLowestLarger := coinLowestLarger } with
    | .inl coin => some (selectAll [coin])
    | .inr g =>
      if g.nTotalLower = req.nTargetValue then some (selectAll g.vValue)
      else if g.nTotalLower < req.nTargetValue then
        match g.coinLowestLarger with
        | some coin => some (selectAll [coin])
        | none => tryDenoms choices vCoins rounds none
      else some (req.solve choices g)

-- A failed selection leaves the set empty.
def selectCoinsMinConf (choices : SelectionChoices) (vCoins : List COutput) :
    Option SelectedCoins :=
  let vCoins := choices.sortDenoms.sort (choices.shuffle vCoins)
  req.tryDenoms choices vCoins [true, false] none

end CoinRequest

def flaggedSum (vValue : List Int) (vf : Nat → Bool) : Int :=
  ∑ i ∈ Finset.range vValue.length, if vf i then vValue.getD i 0 else 0

theorem flaggedSum_append_singleton (vValue : List Int) (n : Int) (vf : Nat → Bool) :
    flaggedSum (vValue ++ [n]) vf = flaggedSum vValue vf + if vf vValue.length then n else 0 := by
  have hinit : ∀ i ∈ Finset.range vValue.length,
      (if vf i then (vValue ++ [n]).getD i 0 else 0) = if vf i then vValue.getD i 0 else 0 := by
    intro i hi
    rw [List.getD_append _ _ _ _ (Finset.mem_range.mp hi)]
  have hlast : (vValue ++ [n]).getD vValue.length 0 = n := by simp
  rw [flaggedSum, List.length_append, List.length_singleton, Finset.sum_range_succ,
    Finset.sum_congr rfl hinit, hlast, flaggedSum]

theorem flaggedSum_all (vValue : List Int) : flaggedSum vValue (fun _ => true) = vValue.sum := by
  induction vValue using List.reverseRecOn with
  | nil => rfl
  | append_singleton vValue n ih =>
    rw [flaggedSum_append_singleton, ih, if_pos rfl, List.sum_append, List.sum_singleton]

theorem flaggedSum_none (vValue : List Int) : flaggedSum vValue (fun _ => false) = 0 :=
  Finset.sum_eq_zero fun _ _ => if_neg Bool.false_ne_true

theorem flaggedSum_update {vValue : List Int} {vf : Nat → Bool} {i : Nat} (hi : i < vValue.length)
    (hfree : vf i = false) :
    flaggedSum vValue (Function.update vf i true) = flaggedSum vValue vf + vValue.getD i 0 := by
  have hmem := Finset.mem_range.mpr hi
  have hrest : ∀ j ∈ (Finset.range vValue.length).erase i,
      (if Function.update vf i true j then vValue.getD j 0 else 0) =
        if vf j then vValue.getD j 0 else 0 := by
    intro j hj
    rw [Function.update_of_ne (Finset.ne_of_mem_erase hj)]
  rw [flaggedSum, flaggedSum, ← Finset.add_sum_erase _ _ hmem, ← Finset.add_sum_erase _ _ hmem,
    Finset.sum_congr rfl hrest, Function.update_self, if_pos rfl, hfree, if_neg Bool.false_ne_true]
  omega

namespace SubsetSearch

variable {vValue : List Int} {nTargetValue : Int} {wanted : SubsetSearch → Nat → Bool}
  {s : SubsetSearch} {i n : Nat}

-- The flags and the totals are in step, and the best total is enough.
structure InStep (vValue : List Int) (nTargetValue : Int) (s : SubsetSearch) : Prop where
  total : s.nTotal = flaggedSum vValue s.vfIncluded
  best : s.nBest = flaggedSum vValue s.vfBest
  enough : nTargetValue ≤ s.nBest

theorem inStep_visit (h : InStep vValue nTargetValue s) (hi : i < vValue.length)
    (hfree : wanted s i = true → s.vfIncluded i = false) :
    InStep vValue nTargetValue (visit vValue nTargetValue wanted s i) := by
  rw [visit]
  split
  · exact h
  · rename_i hwanted
    have hfree := hfree (by simpa using hwanted)
    have hsum : s.nTotal + vValue.getD i 0 =
        flaggedSum vValue (Function.update s.vfIncluded i true) := by
      rw [flaggedSum_update hi hfree, h.total]
    have hback : Function.update (Function.update s.vfIncluded i true) i false = s.vfIncluded := by
      rw [Function.update_idem, ← hfree, Function.update_eq_self]
    have htotal : s.nTotal + vValue.getD i 0 - vValue.getD i 0 =
        flaggedSum vValue (Function.update (Function.update s.vfIncluded i true) i false) := by
      rw [hback, ← h.total]
      omega
    dsimp only
    split
    · rename_i henough
      split
      · exact ⟨htotal, hsum, henough⟩
      · exact ⟨htotal, h.best, h.enough⟩
    · exact ⟨hsum, h.best, h.enough⟩

theorem vfIncluded_visit_of_ne {j : Nat} (hj : j ≠ i) :
    (visit vValue nTargetValue wanted s i).vfIncluded j = s.vfIncluded j := by
  rw [visit]
  split
  · rfl
  · dsimp only
    split
    · dsimp only
      rw [Function.update_of_ne hj, Function.update_of_ne hj]
    · exact Function.update_of_ne hj _ _

theorem pass_succ (s : SubsetSearch) (n : Nat) : pass vValue nTargetValue wanted s (n + 1) =
    visit vValue nTargetValue wanted (pass vValue nTargetValue wanted s n) n := by
  rw [pass, List.range_succ, List.foldl_append]
  rfl

-- Nothing is flagged yet that the pass comes to.
theorem inStep_pass_of_fresh (h : InStep vValue nTargetValue s)
    (hfresh : ∀ j, s.vfIncluded j = false) (hn : n ≤ vValue.length) :
    InStep vValue nTargetValue (pass vValue nTargetValue wanted s n) ∧
      ∀ j, n ≤ j → (pass vValue nTargetValue wanted s n).vfIncluded j = false := by
  induction n with
  | zero => exact ⟨h, fun j _ => hfresh j⟩
  | succ n ih =>
    obtain ⟨hstep, hfree⟩ := ih (by omega)
    rw [pass_succ]
    refine ⟨inStep_visit hstep (by omega) fun _ => hfree n le_rfl, ?_⟩
    intro j hj
    rw [vfIncluded_visit_of_ne (by omega)]
    exact hfree j (by omega)

theorem inStep_pass (h : InStep vValue nTargetValue s)
    (hfree : ∀ s i, wanted s i = true → s.vfIncluded i = false) (hn : n ≤ vValue.length) :
    InStep vValue nTargetValue (pass vValue nTargetValue wanted s n) := by
  induction n with
  | zero => exact h
  | succ n ih =>
    rw [pass_succ]
    exact inStep_visit (ih (by omega)) (by omega) (hfree _ n)

theorem inStep_rep (rand : Nat → Bool) (h : InStep vValue nTargetValue s) :
    InStep vValue nTargetValue (rep vValue nTargetValue rand s) := by
  have hreset : InStep vValue nTargetValue
      { s with vfIncluded := fun _ => false, nTotal := 0, fReachedTarget := false } :=
    ⟨(flaggedSum_none vValue).symm, h.best, h.enough⟩
  have hfirst : InStep vValue nTargetValue (pass vValue nTargetValue (fun _ i => rand i)
      { s with vfIncluded := fun _ => false, nTotal := 0, fReachedTarget := false }
      vValue.length) :=
    (inStep_pass_of_fresh hreset (fun _ => rfl) le_rfl).1
  rw [rep]
  split
  · exact hfirst
  · exact inStep_pass hfirst (fun s i h => by simpa using h) le_rfl

theorem inStep_reps (rand : Nat → Nat → Bool) (h : InStep vValue nTargetValue s) :
    InStep vValue nTargetValue (reps vValue nTargetValue rand n s) := by
  induction n generalizing s with
  | zero => exact h
  | succ n ih =>
    rw [reps]
    split
    · exact h
    · exact ih (inStep_rep (rand n) h)

end SubsetSearch

theorem approximateBestSubset_spec (rand : Nat → Nat → Bool) {vValue : List Int}
    {nTargetValue : Int} (h : nTargetValue ≤ vValue.sum) :
    (approximateBestSubset rand vValue vValue.sum nTargetValue).2 =
        flaggedSum vValue (approximateBestSubset rand vValue vValue.sum nTargetValue).1 ∧
      nTargetValue ≤ (approximateBestSubset rand vValue vValue.sum nTargetValue).2 := by
  have hstart : SubsetSearch.InStep vValue nTargetValue
      { vfBest := fun _ => true, nBest := vValue.sum } :=
    ⟨(flaggedSum_none vValue).symm, (flaggedSum_all vValue).symm, h⟩
  have hend := SubsetSearch.inStep_reps (n := 1000) rand hstart
  exact ⟨hend.best, hend.enough⟩

namespace CoinRequest

variable {req : CoinRequest} {skipDenom : Bool} {vCoins : List COutput} {g g' : GatheredCoins}

def wanted (req : CoinRequest) (skipDenom : Bool) (output : COutput) : Bool :=
  req.eligible output && !(skipDenom && isDenominatedAmount output.nValue)

def lowers (req : CoinRequest) (skipDenom : Bool) (vCoins : List COutput) : List COutput :=
  vCoins.filter fun output => req.wanted skipDenom output && decide (output.nValue < req.nTargetCent)

-- What a whole walk has gathered when it met no coin of just the amount.
structure Gathers (req : CoinRequest) (skipDenom : Bool) (vCoins : List COutput)
    (g g' : GatheredCoins) : Prop where
  vValue : g'.vValue = g.vValue ++ (req.lowers skipDenom vCoins).map COutput.coin
  nTotalLower : g'.nTotalLower =
    g.nTotalLower + ((req.lowers skipDenom vCoins).map COutput.nValue).sum
  lowest_le : lowestLarger g'.coinLowestLarger ≤ lowestLarger g.coinLowestLarger
  lowest_le_larger : ∀ output ∈ vCoins, req.wanted skipDenom output = true →
    req.nTargetCent ≤ output.nValue → lowestLarger g'.coinLowestLarger ≤ output.nValue
  lowest_mem : g'.coinLowestLarger = g.coinLowestLarger ∨
    ∃ output ∈ vCoins, req.wanted skipDenom output = true ∧ req.nTargetCent ≤ output.nValue ∧
      g'.coinLowestLarger = some output.coin

theorem gathers_skip {output : COutput} (hskip : req.wanted skipDenom output = false)
    (h : Gathers req skipDenom vCoins g g') : Gathers req skipDenom (output :: vCoins) g g' := by
  have hlowers : req.lowers skipDenom (output :: vCoins) = req.lowers skipDenom vCoins := by
    rw [lowers, List.filter_cons_of_neg (by simp [hskip])]
    rfl
  refine ⟨?_, ?_, h.lowest_le, ?_, ?_⟩
  · rw [hlowers, h.vValue]
  · rw [hlowers, h.nTotalLower]
  · intro output' hmem hwanted
    rcases List.mem_cons.mp hmem with rfl | hmem
    · rw [hskip] at hwanted
      cases hwanted
    · exact h.lowest_le_larger output' hmem hwanted
  · refine h.lowest_mem.imp_right ?_
    rintro ⟨output', hmem, hrest⟩
    exact ⟨output', List.mem_cons_of_mem _ hmem, hrest⟩

theorem gathers_lower {output : COutput} (hwanted : req.wanted skipDenom output = true)
    (hlower : output.nValue < req.nTargetCent)
    (h : Gathers req skipDenom vCoins { g with
      vValue := g.vValue ++ [output.coin], nTotalLower := g.nTotalLower + output.nValue } g') :
    Gathers req skipDenom (output :: vCoins) g g' := by
  have hlowers : req.lowers skipDenom (output :: vCoins) =
      output :: req.lowers skipDenom vCoins := by
    rw [lowers, List.filter_cons_of_pos (by simp [hwanted, hlower])]
    rfl
  refine ⟨?_, ?_, h.lowest_le, ?_, ?_⟩
  · rw [hlowers, h.vValue, List.append_assoc, List.map_cons]
    rfl
  · rw [hlowers, h.nTotalLower, List.map_cons, List.sum_cons]
    exact add_assoc _ _ _
  · intro output' hmem hwanted' hlarger
    rcases List.mem_cons.mp hmem with rfl | hmem
    · exact absurd hlower (not_lt.mpr hlarger)
    · exact h.lowest_le_larger output' hmem hwanted' hlarger
  · refine h.lowest_mem.imp_right ?_
    rintro ⟨output', hmem, hrest⟩
    exact ⟨output', List.mem_cons_of_mem _ hmem, hrest⟩

theorem gathers_larger {output : COutput} (hlarger : req.nTargetCent ≤ output.nValue)
    (coinLowestLarger : Option WalletCoin)
    (hle : lowestLarger coinLowestLarger ≤ lowestLarger g.coinLowestLarger)
    (hlowest : lowestLarger coinLowestLarger ≤ output.nValue)
    (hmem : coinLowestLarger = g.coinLowestLarger ∨
      req.wanted skipDenom output = true ∧ coinLowestLarger = some output.coin)
    (h : Gathers req skipDenom vCoins { g with coinLowestLarger := coinLowestLarger } g') :
    Gathers req skipDenom (output :: vCoins) g g' := by
  have hlowers : req.lowers skipDenom (output :: vCoins) = req.lowers skipDenom vCoins := by
    rw [lowers, List.filter_cons_of_neg (by simp [not_lt.mpr hlarger])]
    rfl
  refine ⟨?_, ?_, h.lowest_le.trans hle, ?_, ?_⟩
  · rw [hlowers, h.vValue]
  · rw [hlowers, h.nTotalLower]
  · intro output' hmem' hwanted' hlarger'
    rcases List.mem_cons.mp hmem' with rfl | hmem'
    · exact h.lowest_le.trans hlowest
    · exact h.lowest_le_larger output' hmem' hwanted' hlarger'
  · rcases h.lowest_mem with heq | ⟨output', hmem', hrest⟩
    · rcases hmem with heq' | ⟨hwanted, heq'⟩
      · exact .inl (heq.trans heq')
      · exact .inr ⟨output, List.mem_cons_self, hwanted, hlarger, heq.trans heq'⟩
    · exact .inr ⟨output', List.mem_cons_of_mem _ hmem', hrest⟩

theorem gather_spec (req : CoinRequest) (skipDenom : Bool) (vCoins : List COutput)
    (g : GatheredCoins) :
    (∃ output ∈ vCoins, req.eligible output = true ∧ output.nValue = req.nTargetValue ∧
      req.gather skipDenom vCoins g = .inl output.coin) ∨
    ∃ g', req.gather skipDenom vCoins g = .inr g' ∧ Gathers req skipDenom vCoins g g' := by
  induction vCoins generalizing g with
  | nil => exact .inr ⟨g, rfl, by simp [lowers], by simp [lowers], le_rfl, by simp, .inl rfl⟩
  | cons output vCoins ih =>
    have hrest : ∀ {g₁ r}, (∀ {g'}, Gathers req skipDenom vCoins g₁ g' →
        Gathers req skipDenom (output :: vCoins) g g') →
        req.gather skipDenom vCoins g₁ = r →
        (∃ output' ∈ output :: vCoins, req.eligible output' = true ∧
          output'.nValue = req.nTargetValue ∧ r = .inl output'.coin) ∨
        ∃ g', r = .inr g' ∧ Gathers req skipDenom (output :: vCoins) g g' := by
      rintro g₁ r hgathers rfl
      rcases ih g₁ with ⟨output', hmem, hrest⟩ | ⟨g', heq, h⟩
      · exact .inl ⟨output', List.mem_cons_of_mem _ hmem, hrest⟩
      · exact .inr ⟨g', heq, hgathers h⟩
    rw [gather]
    split
    · rename_i hskip
      exact hrest (gathers_skip (by simpa [wanted] using fun h => absurd h (by simpa using hskip))) rfl
    · rename_i heligible
      have heligible : req.eligible output = true := by simpa using heligible
      split
      · rename_i hdenom
        exact hrest (gathers_skip (by rw [wanted, hdenom, Bool.not_true, Bool.and_false])) rfl
      · rename_i hdenom
        have hwanted : req.wanted skipDenom output = true := by
          rw [Bool.not_eq_true] at hdenom
          rw [wanted, heligible, hdenom]
          rfl
        split
        · rename_i hexact
          exact .inl ⟨output, List.mem_cons_self, heligible, hexact, rfl⟩
        · split
          · rename_i hlower
            exact hrest (gathers_lower hwanted hlower) rfl
          · rename_i hlarger
            rw [not_lt] at hlarger
            split
            · rename_i hlowest
              exact hrest (gathers_larger hlarger (some output.coin)
                hlowest.le le_rfl (.inr ⟨hwanted, rfl⟩)) rfl
            · rename_i hlowest
              exact hrest (gathers_larger hlarger g.coinLowestLarger le_rfl
                (not_lt.mp hlowest) (.inl rfl)) rfl

theorem sum_included (coins : List WalletCoin) (vf : Nat → Bool) :
    ((included vf coins).map WalletCoin.nValue).sum = flaggedSum (coins.map WalletCoin.nValue) vf := by
  induction coins using List.reverseRecOn with
  | nil => rfl
  | append_singleton coins coin ih =>
    rw [List.map_append, List.map_singleton, flaggedSum_append_singleton, ← ih, List.length_map]
    cases hvf : vf coins.length with
    | false => simp [included, List.zipIdx_append, hvf]
    | true => simp [included, List.zipIdx_append, hvf]

theorem included_sublist (coins : List WalletCoin) (vf : Nat → Bool) :
    (included vf coins).Sublist coins := by
  have h := (List.filter_sublist (l := coins.zipIdx) (p := fun p => vf p.2)).map Prod.fst
  rwa [List.zipIdx_map_fst] at h

theorem foldl_add (coins : List WalletCoin) (ret : SelectedCoins) :
    coins.foldl SelectedCoins.add ret =
      (ret.1 ∪ coins.toFinset, ret.2 + (coins.map WalletCoin.nValue).sum) := by
  induction coins generalizing ret with
  | nil => simp
  | cons coin coins ih =>
    rw [List.foldl_cons, ih, SelectedCoins.add, List.toFinset_cons, List.map_cons, List.sum_cons,
      Finset.insert_union, Finset.union_insert]
    exact Prod.ext rfl (add_assoc _ _ _)

theorem selectAll_eq (coins : List WalletCoin) :
    selectAll coins = (coins.toFinset, (coins.map WalletCoin.nValue).sum) := by
  rw [selectAll, foldl_add, Finset.empty_union, zero_add]

-- What the caller may rely on.
structure Sound (req : CoinRequest) (vCoins : List COutput) (ret : SelectedCoins) : Prop where
  eligible : ∀ coin ∈ ret.1, ∃ output ∈ vCoins, req.eligible output = true ∧ output.coin = coin
  total : ∑ coin ∈ ret.1, coin.nValue = ret.2
  enough : req.nTargetValue ≤ ret.2
  at_most : ∀ output ∈ vCoins, req.eligible output = true →
    isDenominatedAmount output.nValue = false → req.nTargetValue + CENT ≤ output.nValue →
    ret.2 ≤ output.nValue

-- The outputs are distinct and have positive amounts, and no sum leaves the range of its type.
structure Sane (req : CoinRequest) (vCoins : List COutput) : Prop where
  distinct : (vCoins.map COutput.coin).Nodup
  positive : ∀ output ∈ vCoins, 0 < output.nValue
  total : (vCoins.map COutput.nValue).sum < 2 ^ 62
  target_pos : 0 < req.nTargetValue
  target : req.nTargetValue + CENT < 2 ^ 63

theorem Sane.nTargetCent (h : Sane req vCoins) : req.nTargetCent = req.nTargetValue + CENT := by
  have hpos := h.target_pos
  have hlt := h.target
  rw [CoinRequest.nTargetCent, toCAmount, CENT] at *
  rw [Int.bmod_eq_of_le] <;> omega

theorem Sane.lt_int64Max (h : Sane req vCoins) {output : COutput} (hmem : output ∈ vCoins) :
    output.nValue < int64Max := by
  have hle : output.nValue ≤ (vCoins.map COutput.nValue).sum :=
    List.single_le_sum (by simpa using fun output hmem => (h.positive output hmem).le) _
      (List.mem_map_of_mem hmem)
  have htotal := h.total
  rw [int64Max]
  omega

theorem sound_selectAll {coins : List WalletCoin} (hdistinct : coins.Nodup)
    (heligible : ∀ coin ∈ coins, ∃ output ∈ vCoins, req.eligible output = true ∧ output.coin = coin)
    (henough : req.nTargetValue ≤ (coins.map WalletCoin.nValue).sum)
    (hmost : ∀ output ∈ vCoins, req.eligible output = true →
      isDenominatedAmount output.nValue = false → req.nTargetValue + CENT ≤ output.nValue →
      (coins.map WalletCoin.nValue).sum ≤ output.nValue) :
    Sound req vCoins (selectAll coins) := by
  rw [selectAll_eq]
  exact ⟨fun coin hcoin => heligible coin (List.mem_toFinset.mp hcoin),
    List.sum_toFinset _ hdistinct, henough, hmost⟩

theorem eligible_of_wanted {output : COutput} (h : req.wanted skipDenom output = true) :
    req.eligible output = true := by
  rw [wanted, Bool.and_eq_true] at h
  exact h.1

theorem wanted_of_not_denominated {output : COutput} (heligible : req.eligible output = true)
    (h : isDenominatedAmount output.nValue = false) : req.wanted skipDenom output = true := by
  rw [wanted, heligible, h, Bool.and_false]
  rfl

theorem sound_singleton {output : COutput} (hmem : output ∈ vCoins)
    (heligible : req.eligible output = true) (henough : req.nTargetValue ≤ output.nValue)
    (hmost : ∀ output' ∈ vCoins, req.eligible output' = true →
      isDenominatedAmount output'.nValue = false → req.nTargetValue + CENT ≤ output'.nValue →
      output.nValue ≤ output'.nValue) :
    Sound req vCoins (selectAll [output.coin]) := by
  have hsum : ([output.coin].map WalletCoin.nValue).sum = output.nValue := by
    rw [List.map_singleton, List.sum_singleton]
    rfl
  apply sound_selectAll (List.nodup_singleton _)
  · intro coin hcoin
    exact ⟨output, hmem, heligible, (List.mem_singleton.mp hcoin).symm⟩
  · rw [hsum]
    exact henough
  · rw [hsum]
    exact hmost

theorem searchSubset_spec (hsane : Sane req vCoins) (choices : SelectionChoices) {vValue : List Int}
    (henough : req.nTargetValue ≤ vValue.sum) :
    (req.searchSubset choices vValue.sum vValue).2 =
        flaggedSum vValue (req.searchSubset choices vValue.sum vValue).1 ∧
      req.nTargetValue ≤ (req.searchSubset choices vValue.sum vValue).2 := by
  rw [searchSubset]
  split
  · rename_i hcent
    obtain ⟨hbest, hreached⟩ := approximateBestSubset_spec (choices.rand true) hcent.2
    rw [hsane.nTargetCent, CENT] at hreached
    rw [hsane.nTargetCent, CENT] at *
    exact ⟨hbest, by omega⟩
  · exact approximateBestSubset_spec (choices.rand false) henough

section Round

variable (h : Gathers req skipDenom vCoins { coinLowestLarger := none } g)

include h

theorem vValue_of_gathers : g.vValue = (req.lowers skipDenom vCoins).map COutput.coin := h.vValue

theorem nTotalLower_of_gathers : g.nTotalLower = (g.vValue.map WalletCoin.nValue).sum := by
  rw [h.nTotalLower, h.vValue, List.nil_append, List.map_map]
  exact zero_add _

theorem eligible_of_gathers :
    ∀ coin ∈ g.vValue, ∃ output ∈ vCoins, req.eligible output = true ∧ output.coin = coin := by
  intro coin hcoin
  rw [vValue_of_gathers h] at hcoin
  obtain ⟨output, hmem, rfl⟩ := List.mem_map.mp hcoin
  obtain ⟨hmem, hwanted⟩ := List.mem_filter.mp hmem
  rw [Bool.and_eq_true] at hwanted
  exact ⟨output, hmem, eligible_of_wanted hwanted.1, rfl⟩

variable (hsane : Sane req vCoins)

include hsane

theorem distinct_of_gathers : g.vValue.Nodup := by
  rw [vValue_of_gathers h]
  exact hsane.distinct.sublist (List.filter_sublist.map _)

-- Without a candidate, there is no coin large enough.
theorem lt_of_lowest_none (hnone : g.coinLowestLarger = none) {output : COutput}
    (hmem : output ∈ vCoins) (hwanted : req.wanted skipDenom output = true) :
    output.nValue < req.nTargetValue + CENT := by
  rw [← hsane.nTargetCent]
  by_contra hlarger
  have hle := h.lowest_le_larger output hmem hwanted (not_lt.mp hlarger)
  rw [hnone] at hle
  exact (hsane.lt_int64Max hmem).not_ge hle

theorem sound_lowest {coin : WalletCoin} (hsome : g.coinLowestLarger = some coin) :
    Sound req vCoins (selectAll [coin]) := by
  rcases h.lowest_mem with heq | ⟨output, hmem, hwanted, hlarger, heq⟩
  · rw [hsome] at heq
    cases heq
  · obtain rfl : coin = output.coin := Option.some.inj (hsome.symm.trans heq)
    have hle : ∀ output' ∈ vCoins, req.eligible output' = true →
        isDenominatedAmount output'.nValue = false → req.nTargetValue + CENT ≤ output'.nValue →
        output.nValue ≤ output'.nValue := by
      intro output' hmem' heligible hdenom hlarger'
      have h := h.lowest_le_larger output' hmem' (wanted_of_not_denominated heligible hdenom)
        (hsane.nTargetCent.trans_le hlarger')
      rwa [hsome] at h
    rw [hsane.nTargetCent, CENT] at hlarger
    exact sound_singleton hmem (eligible_of_wanted hwanted) (by omega) hle

theorem sound_exact (hexact : g.nTotalLower = req.nTargetValue) :
    Sound req vCoins (selectAll g.vValue) := by
  rw [nTotalLower_of_gathers h] at hexact
  apply sound_selectAll
  · exact distinct_of_gathers h hsane
  · exact eligible_of_gathers h
  · exact hexact.ge
  · intro output _ _ _ hlarger
    rw [CENT] at hlarger
    omega

theorem sound_solve (choices : SelectionChoices) (henough : req.nTargetValue ≤ g.nTotalLower) :
    Sound req vCoins (req.solve choices g) := by
  have hperm := (choices.sortValues.sortsTo_reversed g.vValue).perm
  have hsum : ((choices.sortValues.sortReversed g.vValue).map WalletCoin.nValue).sum =
      g.nTotalLower := by
    rw [nTotalLower_of_gathers h]
    exact (hperm.map _).sum_eq
  rw [← hsum] at henough
  obtain ⟨hbest, hreached⟩ := searchSubset_spec hsane choices henough
  rw [← sum_included, hsum] at hbest
  rw [hsum] at hreached
  have hsub := included_sublist (choices.sortValues.sortReversed g.vValue)
    (req.searchSubset choices g.nTotalLower
      ((choices.sortValues.sortReversed g.vValue).map WalletCoin.nValue)).1
  -- the subset is fine where no larger coin costs less
  have hsubset : ∀ hmost, Sound req vCoins
      (selectAll (included _ (choices.sortValues.sortReversed g.vValue))) :=
    sound_selectAll ((hperm.nodup_iff.mpr (distinct_of_gathers h hsane)).sublist hsub)
      (fun coin hcoin => eligible_of_gathers h coin (hperm.mem_iff.mp (hsub.subset hcoin)))
      (hbest ▸ hreached)
  rw [solve]
  split
  · rename_i coin hsome
    split
    · exact sound_lowest h hsane hsome
    · rename_i hkeep
      refine hsubset fun output hmem heligible hdenom hlarger => ?_
      have hle := h.lowest_le_larger output hmem (wanted_of_not_denominated heligible hdenom)
        (hsane.nTargetCent.trans_le hlarger)
      rw [hsome] at hle
      rw [not_or, not_le] at hkeep
      exact hbest ▸ hkeep.2.le.trans hle
  · rename_i hnone
    refine hsubset fun output hmem heligible hdenom hlarger => ?_
    exact absurd (lt_of_lowest_none h hsane hnone hmem (wanted_of_not_denominated heligible hdenom))
      (not_lt.mpr hlarger)

end Round

def eligibleTotal (req : CoinRequest) (vCoins : List COutput) : Int :=
  ((vCoins.filter req.eligible).map COutput.nValue).sum

theorem Sound.le_eligibleTotal {ret : SelectedCoins} (h : Sound req vCoins ret)
    (hsane : Sane req vCoins) : req.nTargetValue ≤ req.eligibleTotal vCoins := by
  have hdistinct : ((vCoins.filter req.eligible).map COutput.coin).Nodup :=
    hsane.distinct.sublist (List.filter_sublist.map _)
  have hsub : ret.1 ⊆ ((vCoins.filter req.eligible).map COutput.coin).toFinset := by
    intro coin hcoin
    obtain ⟨output, hmem, heligible, rfl⟩ := h.eligible coin hcoin
    exact List.mem_toFinset.mpr (List.mem_map_of_mem (List.mem_filter.mpr ⟨hmem, heligible⟩))
  have hle : ∑ coin ∈ ret.1, coin.nValue ≤
      ∑ coin ∈ ((vCoins.filter req.eligible).map COutput.coin).toFinset, coin.nValue := by
    refine Finset.sum_le_sum_of_subset_of_nonneg hsub fun coin hcoin _ => ?_
    obtain ⟨output, hmem, rfl⟩ := List.mem_map.mp (List.mem_toFinset.mp hcoin)
    exact (hsane.positive output (List.mem_filter.mp hmem).1).le
  rw [h.total, List.sum_toFinset _ hdistinct, List.map_map] at hle
  exact h.enough.trans hle

theorem sound_of_tryDenoms (hsane : Sane req vCoins) {choices : SelectionChoices}
    {rounds : List Bool} {ret : SelectedCoins}
    (h : req.tryDenoms choices vCoins rounds none = some ret) : Sound req vCoins ret := by
  induction rounds with
  | nil => cases h
  | cons skipDenom rounds ih =>
    rw [tryDenoms] at h
    rcases gather_spec req skipDenom vCoins { coinLowestLarger := none } with
      ⟨output, hmem, heligible, hexact, heq⟩ | ⟨g, heq, hgathers⟩
    · rw [heq] at h
      cases h
      refine sound_singleton hmem heligible hexact.ge fun output' _ _ _ hlarger => ?_
      rw [CENT] at hlarger
      omega
    · rw [heq] at h
      dsimp only at h
      split at h
      · cases h
        exact sound_exact hgathers hsane ‹_›
      · split at h
        · split at h
          · cases h
            exact sound_lowest hgathers hsane ‹_›
          · exact ih h
        · cases h
          exact sound_solve hgathers hsane choices (not_lt.mp ‹_›)

theorem eligibleTotal_lt_of_tryDenoms (hsane : Sane req vCoins) {choices : SelectionChoices}
    {rounds : List Bool} (hall : false ∈ rounds)
    (h : req.tryDenoms choices vCoins rounds none = none) :
    req.eligibleTotal vCoins < req.nTargetValue := by
  induction rounds with
  | nil => cases hall
  | cons skipDenom rounds ih =>
    rw [tryDenoms] at h
    rcases gather_spec req skipDenom vCoins { coinLowestLarger := none } with
      ⟨output, -, -, -, heq⟩ | ⟨g, heq, hgathers⟩
    · rw [heq] at h
      cases h
    · rw [heq] at h
      dsimp only at h
      split at h
      · cases h
      · split at h
        · split at h
          · cases h
          · rename_i hless _ hnone
            rcases List.mem_cons.mp hall with rfl | hall
            · -- everything eligible was counted
              have hlowers : req.lowers false vCoins = vCoins.filter req.eligible := by
                refine List.filter_congr fun output hmem => ?_
                have hwanted : req.wanted false output = req.eligible output := Bool.and_true _
                rw [hwanted]
                cases heligible : req.eligible output with
                | false => rfl
                | true =>
                  have hlt := lt_of_lowest_none hgathers hsane hnone hmem (hwanted.trans heligible)
                  rw [← hsane.nTargetCent] at hlt
                  rw [decide_eq_true hlt]
                  rfl
              rw [hgathers.nTotalLower, hlowers, zero_add] at hless
              exact hless
            · exact ih hall h
        · cases h

theorem Sane.perm {vCoins' : List COutput} (h : Sane req vCoins) (hperm : vCoins'.Perm vCoins) :
    Sane req vCoins' where
  distinct := (hperm.map _).nodup_iff.mpr h.distinct
  positive output hmem := h.positive output (hperm.mem_iff.mp hmem)
  total := (hperm.map COutput.nValue).sum_eq.trans_lt h.total
  target_pos := h.target_pos
  target := h.target

theorem Sound.perm {vCoins' : List COutput} {ret : SelectedCoins} (h : Sound req vCoins' ret)
    (hperm : vCoins'.Perm vCoins) : Sound req vCoins ret where
  eligible coin hcoin := by
    obtain ⟨output, hmem, hrest⟩ := h.eligible coin hcoin
    exact ⟨output, hperm.mem_iff.mp hmem, hrest⟩
  total := h.total
  enough := h.enough
  at_most output hmem := h.at_most output (hperm.mem_iff.mpr hmem)

theorem selection_sound_complete (hsane : Sane req vCoins) (choices : SelectionChoices) :
    ((req.selectCoinsMinConf choices vCoins).isSome = true ↔
        req.nTargetValue ≤ req.eligibleTotal vCoins) ∧
      ∀ ret, req.selectCoinsMinConf choices vCoins = some ret → Sound req vCoins ret := by
  have hperm : (choices.sortDenoms.sort (choices.shuffle vCoins)).Perm vCoins :=
    (choices.sortDenoms.sorts _).perm.trans (choices.shuffle_perm vCoins)
  have hsound : ∀ ret, req.selectCoinsMinConf choices vCoins = some ret → Sound req vCoins ret :=
    fun ret h => (sound_of_tryDenoms (hsane.perm hperm) h).perm hperm
  refine ⟨⟨?_, ?_⟩, hsound⟩
  · intro h
    obtain ⟨ret, hret⟩ := Option.isSome_iff_exists.mp h
    exact (hsound ret hret).le_eligibleTotal hsane
  · intro henough
    rw [Option.isSome_iff_ne_none]
    intro hnone
    have hlt := eligibleTotal_lt_of_tryDenoms (hsane.perm hperm) (by simp) hnone
    rw [eligibleTotal, ((hperm.filter _).map _).sum_eq] at hlt
    exact hlt.not_ge henough

end CoinRequest

def plainChoices : SelectionChoices where
  shuffle := id
  shuffle_perm := .refl
  sortDenoms := insertionSorter lessThenDenom
    (fun a b => by
      rw [lessThenDenom, lessThenDenom]
      cases isDenominatedAmount a.nValue <;> simp)
    (fun a b c => by
      rw [lessThenDenom, lessThenDenom, lessThenDenom]
      cases isDenominatedAmount a.nValue <;> cases isDenominatedAmount b.nValue <;> simp)
  sortValues := insertionSorter compareValueOnly
    (fun a b => by
      simp only [compareValueOnly, decide_eq_false_iff_not]
      omega)
    (fun a b c => by
      simp only [compareValueOnly, decide_eq_false_iff_not]
      omega)
  rand _ _ _ := true

-- output 0 of a transaction that pays `nValue`
def payOutput (hash : UInt256) (nValue : Int) : COutput where
  tx := ⟨{ hash := hash, vin := [], vout := [⟨nValue, []⟩] }, false⟩
  i := 0
  nDepth := 6
  fSpendable := true

theorem selection_sound_complete_two :
    ((CoinRequest.mk 5 1 6).selectCoinsMinConf plainChoices
        [payOutput 1 4, payOutput 2 3]).isSome = true ∧
      ∀ ret, (CoinRequest.mk 5 1 6).selectCoinsMinConf plainChoices
        [payOutput 1 4, payOutput 2 3] = some ret →
          CoinRequest.Sound ⟨5, 1, 6⟩ [payOutput 1 4, payOutput 2 3] ret := by
  have hsane : CoinRequest.Sane ⟨5, 1, 6⟩ [payOutput 1 4, payOutput 2 3] :=
    ⟨by decide, by decide, by decide, by decide, by decide⟩
  obtain ⟨hiff, hsound⟩ := CoinRequest.selection_sound_complete hsane plainChoices
  exact ⟨hiff.mpr (by decide), hsound⟩

-- The sum of the target and `CENT` leaves the range of an `int64_t`.
theorem selection_of_less_than_target :
    (CoinRequest.mk int64Max 1 6).selectCoinsMinConf plainChoices [payOutput 1 4] =
        some ({(payOutput 1 4).coin}, 4) ∧
      (CoinRequest.mk int64Max 1 6).eligibleTotal [payOutput 1 4] < int64Max := by
  constructor
  · decide +kernel
  · decide

end AnkerNode
