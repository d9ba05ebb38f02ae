import AnkerNode.Lib.CoinChange
import AnkerNode.Lib.Loops
import AnkerNode.Zerocoin.Accumulators

namespace AnkerNode

open CoinChange CoinDenomination

-- The wallet's set of these is ordered by `hashPubcoin`, and `hashSerial` is what a mint is
-- fetched by.
structure CMintMeta where
  hashSerial : UInt256
  hashPubcoin : UInt256
  denom : CoinDenomination
  isUsed : Bool
deriving DecidableEq, Repr

-- A `std::map` with an entry for every denomination of `zerocoinDenomList`.
abbrev DenomMap := CoinDenomination → Nat

-- `spread.at` throws for a denomination that is not in the list.
def getMyZerocoinDistribution (setMints : List CMintMeta) : Option DenomMap :=
  setMints.foldlM (fun spread mint =>
    if mint.denom ∈ zerocoinDenomList then
      some (Function.update spread mint.denom (spread mint.denom + 1))
    else none) fun _ => 0

def getNumberOfCoinsUsed (mapChange : DenomMap) : Nat :=
  zerocoinDenomList.foldl (fun nChangeCount denom => nChangeCount + mapChange denom) 0

def getMaxDenomHeld (mapCoinsHeld : DenomMap) : CoinDenomination :=
  (zerocoinDenomList.reverse.find? fun coin => mapCoinsHeld coin ≠ 0).getD ZQ_ERROR

def getNextLowerDenomHeld (this_denom : CoinDenomination) (mapCoinsHeld : DenomMap) :
    CoinDenomination :=
  (zerocoinDenomList.reverse.find? fun denom =>
    denom.toInt < this_denom.toInt && mapCoinsHeld denom ≠ 0).getD ZQ_ERROR

def getSpendCoins (nValueTarget : Int) (mapOfDenomsHeld : DenomMap) : DenomMap :=
  (takeCoins toAmount (fits toAmount) mapOfDenomsHeld zerocoinDenomList.reverse
    (fun _ => 0, nValueTarget)).1

-- There is no limit to the coins of the change. A loop that takes a coin of at least 1 each
-- time ends before it has taken as many as the amount is.
def getChange (nValueTarget : Int) : DenomMap :=
  (takeCoins toAmount (fits toAmount) (fun _ => nValueTarget.toNat) zerocoinDenomList.reverse
    (fun _ => 0, nValueTarget)).1

section Ideal

def idealPass (coin : CoinDenomination) : List CMintMeta → Nat × Int → Nat × Int
  | [], s => s
  | mint :: listMints, (used, nRemainingValue) =>
    if mint.isUsed then idealPass coin listMints (used, nRemainingValue)
    else
      let s := if coin.toAmount ≤ nRemainingValue ∧ coin = mint.denom then
          (used + 1, nRemainingValue - mint.denom.toAmount)
        else (used, nRemainingValue)
      if s.2 < coin.toAmount then s else idealPass coin listMints s

-- The map of the coins held is passed to the code's function as well, which does not read it.
def getIdealSpends (nValueTarget : Int) (listMints : List CMintMeta) : Bool × DenomMap :=
  let s := zerocoinDenomList.reverse.foldl (fun (s : DenomMap × Int) coin =>
    let pass := idealPass coin listMints (s.1 coin, s.2)
    (Function.update s.1 coin pass.1, pass.2)) (fun _ => 0, nValueTarget)
  (decide (s.2 = 0), s.1)

end Ideal

section Spends

-- The state is what is selected, its value and the coins of the denomination still to select.
def spendPass (coin : CoinDenomination) :
    List CMintMeta → List CMintMeta × Int × Nat → List CMintMeta × Int × Nat
  | [], s => s
  | mint :: listMints, (vSelectedMints, nCoinsSpentValue, left) =>
    if mint.isUsed then spendPass coin listMints (vSelectedMints, nCoinsSpentValue, left)
    else if coin = mint.denom ∧ left ≠ 0 then
      spendPass coin listMints
        (vSelectedMints ++ [mint], nCoinsSpentValue + coin.toAmount, left - 1)
    else spendPass coin listMints (vSelectedMints, nCoinsSpentValue, left)

def spendStep (listMints : List CMintMeta) (coin : CoinDenomination)
    (s : List CMintMeta × Int × Nat) : (List CMintMeta × Int × Nat) ⊕ (List CMintMeta × Int × Nat) :=
  let s := spendPass coin listMints s
  if s.2.2 ≠ 0 then .inl s else .inr s

-- A denomination of which too many coins are asked for keeps the loop going for ever.
def getSpends (fuel : Nat) (listMints : List CMintMeta) (mapOfDenomsUsed : DenomMap) :
    Option (List CMintMeta × Int) :=
  zerocoinDenomList.reverse.foldlM (fun (s : List CMintMeta × Int) coin =>
    (WhileLoop.run (spendStep listMints coin) fuel (s.1, s.2, mapOfDenomsUsed coin)).map fun s =>
      (s.1, s.2.1)) ([], 0)

end Spends

section Change

-- the coins from `nextToMaxDenom` down, as long as something is left to pay
def coinsBelow (nextToMaxDenom : CoinDenomination) (nValueTarget : Int)
    (mapOfDenomsHeld : DenomMap) : DenomMap × Int :=
  takeCoins toAmount (fun denom nRemainingValue =>
    decide (denom.toInt ≤ nextToMaxDenom.toInt) && decide (denom.toAmount < nRemainingValue))
    mapOfDenomsHeld zerocoinDenomList.reverse (fun _ => 0, nValueTarget)

def fillUp (mapOfDenomsHeld : DenomMap) : List CoinDenomination → DenomMap × Int → DenomMap × Int
  | [], s => s
  | denom :: denoms, (mapOfDenomsUsed, nRemainingValue) =>
    let s := if nRemainingValue < denom.toAmount ∧ mapOfDenomsUsed denom < mapOfDenomsHeld denom then
        (Function.update mapOfDenomsUsed denom (mapOfDenomsUsed denom + 1),
          nRemainingValue - denom.toAmount)
      else (mapOfDenomsUsed, nRemainingValue)
    if s.2 < 0 then s else fillUp mapOfDenomsHeld denoms s

def cancelCoins (nValue : Int) : Nat → Nat → Int → Nat × Nat × Int
  | used + 1, alt + 1, AmountUsed => cancelCoins nValue used alt (AmountUsed - nValue)
  | used, alt, AmountUsed => (used, alt, AmountUsed)

def cancelOverlap : List CoinDenomination → DenomMap × DenomMap × Int → DenomMap × DenomMap × Int
  | [], s => s
  | denom :: denoms, (mapOfDenomsUsed, mapAltChange, AmountUsed) =>
    let s := cancelCoins denom.toAmount (mapOfDenomsUsed denom) (mapAltChange denom) AmountUsed
    cancelOverlap denoms (Function.update mapOfDenomsUsed denom s.1,
      Function.update mapAltChange denom s.2.1, s.2.2)

-- `AmountUsed` before coins that come back as change are cancelled is always the target less
-- `nRemainingValue`.
def amountToMeet (nextToMaxDenom : CoinDenomination) (nValueTarget : Int)
    (mapOfDenomsHeld : DenomMap) : Int :=
  let s := fillUp mapOfDenomsHeld zerocoinDenomList
    (coinsBelow nextToMaxDenom nValueTarget mapOfDenomsHeld)
  let AmountUsed := nValueTarget - s.2
  (cancelOverlap zerocoinDenomList (s.1, getChange (AmountUsed - nValueTarget), AmountUsed)).2.2

-- `mapOfDenomsUsed` is the map to go back to.
def minimizeChange (nMaxNumberOfSpends nChangeCount : Nat) (nextToMaxDenom : CoinDenomination)
    (nValueTarget : Int) (mapOfDenomsHeld mapOfDenomsUsed : DenomMap) : Nat × DenomMap :=
  let AmountUsed := amountToMeet nextToMaxDenom nValueTarget mapOfDenomsHeld
  let altDenomsUsed := getSpendCoins AmountUsed mapOfDenomsHeld
  let nCoinCount := getNumberOfCoinsUsed altDenomsUsed
  let AltChangeCount := getNumberOfCoinsUsed (getChange (AmountUsed - nValueTarget))
  if AltChangeCount < nChangeCount ∧ nCoinCount ≤ nMaxNumberOfSpends then
    (AltChangeCount, altDenomsUsed)
  else (nChangeCount, mapOfDenomsUsed)

def calculateChange (nMaxNumberOfSpends : Nat) (fMinimizeChange : Bool) (nValueTarget : Int)
    (mapOfDenomsHeld : DenomMap) : Nat × DenomMap :=
  match zerocoinDenomList.find? fun denom =>
      nValueTarget < denom.toAmount && mapOfDenomsHeld denom ≠ 0 with
  | some minDenomOverTarget =>
    let mapOfDenomsUsed : DenomMap := Function.update (fun _ => 0) minDenomOverTarget 1
    let nChangeAmount := minDenomOverTarget.toAmount - nValueTarget
    let nChangeCount := getNumberOfCoinsUsed (getChange nChangeAmount)
    if fMinimizeChange then
      let nextToMaxDenom := getNextLowerDenomHeld minDenomOverTarget mapOfDenomsHeld
      let alt := minimizeChange nMaxNumberOfSpends nChangeCount nextToMaxDenom nValueTarget
        mapOfDenomsHeld mapOfDenomsUsed
      if alt.1 < nChangeCount then alt else (nChangeCount, mapOfDenomsUsed)
    else (nChangeCount, mapOfDenomsUsed)
  | none =>
    -- The code leaves this loop once `nRemainingValue` is negative, when it takes no more coins.
    let s := takeCoins toAmount owed mapOfDenomsHeld zerocoinDenomList.reverse
      (fun _ => 0, nValueTarget)
    let AmountUsed := nValueTarget - s.2
    let nCoinCount := getNumberOfCoinsUsed s.1
    let nMaxChangeCount := getNumberOfCoinsUsed (getChange (AmountUsed - nValueTarget))
    let min := minimizeChange nMaxNumberOfSpends nMaxChangeCount (getMaxDenomHeld mapOfDenomsHeld)
      nValueTarget mapOfDenomsHeld s.1
    if !fMinimizeChange ∧ nCoinCount < getNumberOfCoinsUsed min.2 then (nMaxChangeCount, s.1)
    else min

end Change

structure MintSelection where
  vSelectedMints : List CMintMeta
  nSelectedValue : Int
  nCoinsReturned : Nat
  nNeededSpends : Nat
deriving DecidableEq, Repr

section Select

variable (fuel : Nat) (nValueTarget nSelectedValue : Int) (nMaxNumberOfSpends : Nat)
  (fMinimizeChange : Bool) (listMints : List CMintMeta) (mapOfDenomsHeld : DenomMap)

-- No coins of change stand for a failure.
def selectWithChange (nNeededSpends : Nat) : Option MintSelection :=
  let change := calculateChange nMaxNumberOfSpends fMinimizeChange nValueTarget mapOfDenomsHeld
  if change.1 = 0 then some ⟨[], nSelectedValue, change.1, nNeededSpends⟩
  else (getSpends fuel listMints change.2).map fun s => ⟨s.1, s.2, change.1, nNeededSpends⟩

def selectMintsFromList : Option MintSelection :=
  let ideal := getIdealSpends nValueTarget listMints
  if ideal.1 then
    match getSpends fuel listMints ideal.2 with
    | none => none
    | some s =>
      if s.1.length ≤ nMaxNumberOfSpends then some ⟨s.1, s.2, 0, 0⟩
      else selectWithChange fuel nValueTarget s.2 nMaxNumberOfSpends fMinimizeChange listMints
        mapOfDenomsHeld s.1.length
  else selectWithChange fuel nValueTarget nSelectedValue nMaxNumberOfSpends fMinimizeChange
    listMints mapOfDenomsHeld 0

end Select

-- The denominations from the largest on, as `reverse_iterate` goes through them.
def denomsDown : List CoinDenomination := zerocoinDenomList.reverse

theorem denomsDown_chain : DivisorChain toAmount denomsDown where
  nodup := by decide
  pos := by decide
  dvd := by decide

theorem coin_dvd_toAmount (denom : CoinDenomination) : COIN ∣ denom.toAmount := dvd_mul_right _ _

theorem denomsDown_antitone : denomsDown.Pairwise fun a b => b.toInt ≤ a.toInt := by decide

theorem mem_denomsDown {denom : CoinDenomination} : denom ∈ denomsDown ↔ denom ≠ ZQ_ERROR := by
  cases denom <;> decide

@[simp] theorem mem_zerocoinDenomList {denom : CoinDenomination} :
    denom ∈ zerocoinDenomList ↔ denom ∈ denomsDown := List.mem_reverse.symm

-- The value of the coins of a map, and their number.
def worth (used : DenomMap) : Int := total toAmount used denomsDown

def numberOf (used : DenomMap) : Nat := count used denomsDown

def Within (used mapOfDenomsHeld : DenomMap) : Prop :=
  ∀ denom ∈ denomsDown, used denom ≤ mapOfDenomsHeld denom

theorem within_update {used mapOfDenomsHeld : DenomMap} {denom : CoinDenomination}
    (h : Within used mapOfDenomsHeld) (hlt : used denom < mapOfDenomsHeld denom) :
    Within (Function.update used denom (used denom + 1)) mapOfDenomsHeld := by
  intro x hx
  rcases eq_or_ne x denom with rfl | hne
  · rwa [Function.update_self]
  · rw [Function.update_of_ne hne]
    exact h x hx

theorem getNumberOfCoinsUsed_eq (used : DenomMap) : getNumberOfCoinsUsed used = numberOf used := by
  have hfold : ∀ (l : List CoinDenomination) (n : Nat),
      l.foldl (fun n denom => n + used denom) n = n + count used l := by
    intro l
    induction l with
    | nil => simp
    | cons denom l ih =>
      intro n
      rw [List.foldl_cons, ih, count_cons, Nat.add_assoc]
  rw [getNumberOfCoinsUsed, hfold, Nat.zero_add, numberOf, denomsDown, count_reverse]

theorem coin_dvd_worth (used : DenomMap) : COIN ∣ worth used :=
  dvd_total fun denom _ => coin_dvd_toAmount denom

theorem worth_pos_numberOf {used : DenomMap} (h : 0 < worth used) : 0 < numberOf used := by
  by_contra hzero
  have hmax : ∀ denom ∈ denomsDown, denom.toAmount ≤ ZQ_FIVE_THOUSAND.toAmount := by decide
  have hle := total_le_count_mul (u := used) hmax
  have hnone : count used denomsDown = 0 := by rw [numberOf] at hzero; omega
  rw [hnone] at hle
  simp only [Nat.cast_zero, zero_mul] at hle
  exact absurd h (not_lt.mpr hle)

theorem takeCoins_denoms (goOn : CoinDenomination → Int → Bool) (held : DenomMap) (r : Int) :
    Taken toAmount goOn held
      (takeCoins toAmount goOn held zerocoinDenomList.reverse (fun _ => 0, r)).1
      (takeCoins toAmount goOn held zerocoinDenomList.reverse (fun _ => 0, r)).2 denomsDown r :=
  takeCoins_taken denomsDown_chain.nodup fun _ _ => rfl

section Exact

variable {nValueTarget : Int} {mapOfDenomsHeld used : DenomMap}

-- The coins that reach an amount exactly are found by the greedy choice, with the fewest coins.
theorem getSpendCoins_exact (hused : Within used mapOfDenomsHeld)
    (hworth : worth used = nValueTarget) :
    worth (getSpendCoins nValueTarget mapOfDenomsHeld) = nValueTarget ∧
      numberOf (getSpendCoins nValueTarget mapOfDenomsHeld) ≤ numberOf used := by
  have htaken := takeCoins_denoms (fits toAmount) mapOfDenomsHeld nValueTarget
  obtain ⟨hrest, hcount⟩ := htaken.fits_exact denomsDown_chain hused hworth
  refine ⟨?_, hcount⟩
  rw [worth, getSpendCoins, htaken.total_eq, hrest, sub_zero]

theorem getSpendCoins_within : Within (getSpendCoins nValueTarget mapOfDenomsHeld) mapOfDenomsHeld :=
  (takeCoins_denoms (fits toAmount) mapOfDenomsHeld nValueTarget).le_held

end Exact

section GetChange

variable {c : Int}

def changeCount (nChangeAmount : Int) : Nat := getNumberOfCoinsUsed (getChange nChangeAmount)

theorem getChange_taken (c : Int) : ∃ rest,
    Taken toAmount (fits toAmount) (fun _ => c.toNat) (getChange c) rest denomsDown c :=
  ⟨_, takeCoins_denoms (fits toAmount) _ c⟩

theorem worth_getChange_le (h : 0 ≤ c) : worth (getChange c) ≤ c := by
  obtain ⟨rest, htaken⟩ := getChange_taken c
  rw [worth, htaken.total_eq]
  linarith [htaken.fits_nonneg h]

theorem getChange_of_nonpos (h : c ≤ 0) : ∀ denom ∈ denomsDown, getChange c denom = 0 := by
  obtain ⟨rest, htaken⟩ := getChange_taken c
  intro denom hdenom
  have hle := htaken.le_held denom hdenom
  rw [Int.toNat_of_nonpos h] at hle
  exact Nat.eq_zero_of_le_zero hle

theorem changeCount_of_nonpos (h : c ≤ 0) : changeCount c = 0 := by
  rw [changeCount, getNumberOfCoinsUsed_eq, numberOf, count_congr (getChange_of_nonpos h)]
  rfl

theorem changeCount_pos (h : 0 < c) (hcoin : COIN ∣ c) : 0 < changeCount c := by
  obtain ⟨rest, htaken⟩ := getChange_taken c
  rw [changeCount, getNumberOfCoinsUsed_eq]
  refine worth_pos_numberOf ?_
  by_contra hnone
  have hworth : worth (getChange c) = c - rest := htaken.total_eq
  have hzero := zero_of_total denomsDown_chain.pos (u := getChange c) (not_lt.mp hnone)
  have hone : ZQ_ONE ∈ denomsDown := by decide
  -- Not even a coin of 1 fits into the amount.
  have hlt := htaken.fits_rest_lt denomsDown_chain.pos hone (by rw [hzero _ hone]; omega)
  have hle := Int.le_of_dvd h hcoin
  have hamount : ZQ_ONE.toAmount = COIN := rfl
  have hworth0 : worth (getChange c) = 0 := total_of_zero hzero
  linarith

end GetChange

section Minimize

variable {nMaxNumberOfSpends nChangeCount : Nat} {nextToMaxDenom : CoinDenomination}
  {nValueTarget : Int} {mapOfDenomsHeld mapOfDenomsUsed : DenomMap}

-- One coin at most is added, and none only if no coin left is worth more than what is to pay.
theorem fillUp_spec (mapOfDenomsHeld : DenomMap) (denoms : List CoinDenomination)
    (used : DenomMap) {r : Int} (hr : 0 < r) :
    (fillUp mapOfDenomsHeld denoms (used, r) = (used, r) ∧
        ∀ denom ∈ denoms, used denom < mapOfDenomsHeld denom → denom.toAmount ≤ r) ∨
      ∃ denom ∈ denoms, used denom < mapOfDenomsHeld denom ∧ r < denom.toAmount ∧
        fillUp mapOfDenomsHeld denoms (used, r) =
          (Function.update used denom (used denom + 1), r - denom.toAmount) := by
  induction denoms with
  | nil => exact .inl ⟨rfl, by simp⟩
  | cons denom denoms ih =>
    rw [fillUp]
    by_cases htake : r < denom.toAmount ∧ used denom < mapOfDenomsHeld denom
    · rw [if_pos htake, if_pos (by dsimp only; linarith [htake.1])]
      exact .inr ⟨denom, List.mem_cons_self, htake.2, htake.1, rfl⟩
    · rw [if_neg htake, if_neg (by dsimp only; linarith)]
      rcases ih with ⟨heq, hle⟩ | ⟨x, hx, hrest⟩
      · refine .inl ⟨heq, List.forall_mem_cons.mpr ⟨fun hfree => ?_, hle⟩⟩
        exact not_lt.mp fun hlt => htake ⟨hlt, hfree⟩
      · exact .inr ⟨x, List.mem_cons_of_mem _ hx, hrest⟩

theorem cancelCoins_spec (nValue : Int) (used alt : Nat) (AmountUsed : Int) :
    ∃ k, k ≤ used ∧ k ≤ alt ∧
      cancelCoins nValue used alt AmountUsed = (used - k, alt - k, AmountUsed - k * nValue) := by
  fun_induction cancelCoins nValue used alt AmountUsed with
  | case1 AmountUsed used alt ih =>
    obtain ⟨k, hused, halt, heq⟩ := ih
    refine ⟨k + 1, by omega, by omega, ?_⟩
    rw [heq]
    simp only [Prod.mk.injEq]
    refine ⟨by omega, by omega, ?_⟩
    push_cast
    ring
  | case2 AmountUsed used alt _ => exact ⟨0, by simp⟩

-- `m` are the coins that are cancelled.
theorem cancelOverlap_spec {denoms : List CoinDenomination} (hnodup : denoms.Nodup)
    (used alt : DenomMap) (AmountUsed : Int) : ∃ m : DenomMap,
      (∀ x, (cancelOverlap denoms (used, alt, AmountUsed)).1 x + m x = used x) ∧
      (∀ x, m x ≤ alt x) ∧
      (cancelOverlap denoms (used, alt, AmountUsed)).2.2 = AmountUsed - total toAmount m denoms ∧
      ∀ x, x ∉ denoms → m x = 0 := by
  induction denoms generalizing used alt AmountUsed with
  | nil => exact ⟨fun _ => 0, by simp [cancelOverlap]⟩
  | cons denom denoms ih =>
    rw [List.nodup_cons] at hnodup
    obtain ⟨k, hkused, hkalt, hcancel⟩ :=
      cancelCoins_spec denom.toAmount (used denom) (alt denom) AmountUsed
    obtain ⟨m, hm, hle, hamount, hout⟩ := ih hnodup.2 (Function.update used denom (used denom - k))
      (Function.update alt denom (alt denom - k)) (AmountUsed - k * denom.toAmount)
    have hnot := hout denom hnodup.1
    rw [cancelOverlap]
    simp only [hcancel]
    refine ⟨Function.update m denom k, fun x => ?_, fun x => ?_, ?_, fun x hx => ?_⟩
    · rcases eq_or_ne x denom with rfl | hne
      · have hx := hm x
        rw [hnot, Function.update_self] at hx
        rw [Function.update_self]
        omega
      · rw [Function.update_of_ne hne, hm x, Function.update_of_ne hne]
    · rcases eq_or_ne x denom with rfl | hne
      · rwa [Function.update_self]
      · rw [Function.update_of_ne hne]
        have hx := hle x
        rwa [Function.update_of_ne hne] at hx
    · rw [hamount, total_cons, total_update_of_notMem hnodup.1, Function.update_self]
      ring
    · rw [List.mem_cons, not_or] at hx
      rw [Function.update_of_ne hx.1]
      exact hout x hx.2

variable (nextToMaxDenom mapOfDenomsHeld)

theorem coinsBelow_taken (nValueTarget : Int) : Taken toAmount (fun denom r =>
      decide (denom.toInt ≤ nextToMaxDenom.toInt) && decide (denom.toAmount < r)) mapOfDenomsHeld
    (coinsBelow nextToMaxDenom nValueTarget mapOfDenomsHeld).1
    (coinsBelow nextToMaxDenom nValueTarget mapOfDenomsHeld).2 denomsDown nValueTarget :=
  takeCoins_denoms _ mapOfDenomsHeld nValueTarget

theorem coinsBelow_pos (hT : 0 < nValueTarget) :
    0 < (coinsBelow nextToMaxDenom nValueTarget mapOfDenomsHeld).2 :=
  (coinsBelow_taken nextToMaxDenom mapOfDenomsHeld nValueTarget).rest_keeps (fun _ _ hgo => by
    rw [Bool.and_eq_true] at hgo
    exact sub_pos.mpr (of_decide_eq_true hgo.2)) hT

-- None of the coins left is worth more than what is still to pay.
def Short (nextToMaxDenom : CoinDenomination) (nValueTarget : Int) (mapOfDenomsHeld : DenomMap) :
    Prop :=
  ∀ denom ∈ denomsDown,
    (coinsBelow nextToMaxDenom nValueTarget mapOfDenomsHeld).1 denom < mapOfDenomsHeld denom →
      denom.toAmount ≤ (coinsBelow nextToMaxDenom nValueTarget mapOfDenomsHeld).2

theorem fillUp_below (hT : 0 < nValueTarget) :
    let s := fillUp mapOfDenomsHeld zerocoinDenomList
      (coinsBelow nextToMaxDenom nValueTarget mapOfDenomsHeld)
    Within s.1 mapOfDenomsHeld ∧ worth s.1 = nValueTarget - s.2 ∧
      (s.2 < 0 ∨ Short nextToMaxDenom nValueTarget mapOfDenomsHeld) := by
  have htaken := coinsBelow_taken nextToMaxDenom mapOfDenomsHeld nValueTarget
  have hpos := coinsBelow_pos nextToMaxDenom mapOfDenomsHeld hT
  rcases hbelow : coinsBelow nextToMaxDenom nValueTarget mapOfDenomsHeld with ⟨below, r⟩
  rw [hbelow] at htaken hpos
  dsimp only at htaken hpos ⊢
  rcases fillUp_spec mapOfDenomsHeld zerocoinDenomList below hpos with
    ⟨heq, hshort⟩ | ⟨denom, hdenom, hfree, hlt, heq⟩
  · rw [heq]
    refine ⟨htaken.le_held, htaken.total_eq, .inr fun x hx hfree => ?_⟩
    rw [hbelow] at hfree ⊢
    exact hshort x (mem_zerocoinDenomList.mpr hx) hfree
  · rw [mem_zerocoinDenomList] at hdenom
    rw [heq]
    refine ⟨within_update htaken.le_held hfree, ?_, .inl (by dsimp only; linarith)⟩
    rw [worth, total_update denomsDown_chain.nodup hdenom, htaken.total_eq]
    push_cast
    ring

-- The change that is cancelled is no more than what the coins are over the target.
theorem amountToMeet_spec (hT : 0 < nValueTarget) :
    (∃ used, Within used mapOfDenomsHeld ∧
        worth used = amountToMeet nextToMaxDenom nValueTarget mapOfDenomsHeld) ∧
      (nValueTarget ≤ amountToMeet nextToMaxDenom nValueTarget mapOfDenomsHeld ∨
        Short nextToMaxDenom nValueTarget mapOfDenomsHeld) := by
  have hfill := fillUp_below nextToMaxDenom mapOfDenomsHeld hT
  rcases hs : fillUp mapOfDenomsHeld zerocoinDenomList
    (coinsBelow nextToMaxDenom nValueTarget mapOfDenomsHeld) with ⟨filled, r⟩
  rw [hs] at hfill
  obtain ⟨hwithin, hworth, hover⟩ := hfill
  obtain ⟨m, hm, hle, hamount, -⟩ := cancelOverlap_spec (show zerocoinDenomList.Nodup by decide)
    filled (getChange (nValueTarget - r - nValueTarget)) (nValueTarget - r)
  have hmeet : amountToMeet nextToMaxDenom nValueTarget mapOfDenomsHeld =
      nValueTarget - r - worth m := by
    rw [amountToMeet, hs]
    dsimp only
    rw [hamount, worth, denomsDown, total_reverse]
  refine ⟨⟨_, fun x hx => (Nat.le_of_add_right_le (hm x).le).trans (hwithin x hx), ?_⟩, ?_⟩
  · dsimp only at hworth
    rw [worth, ← total_congr fun x _ => hm x, total_add] at hworth
    rw [hmeet, worth, worth]
    linarith
  · rcases hover with hneg | hshort
    · left
      have hchange : worth m ≤ nValueTarget - r - nValueTarget :=
        (total_mono denomsDown_chain.pos fun x _ => hle x).trans
          (worth_getChange_le (by dsimp only at hneg; linarith))
      rw [hmeet]
      linarith
    · exact .inr hshort

variable {nextToMaxDenom mapOfDenomsHeld}

-- Either the change is as before, or it is that of other coins, which are fewer than allowed.
theorem minimizeChange_cases (hT : 0 < nValueTarget) :
    minimizeChange nMaxNumberOfSpends nChangeCount nextToMaxDenom nValueTarget mapOfDenomsHeld
        mapOfDenomsUsed = (nChangeCount, mapOfDenomsUsed) ∨
      ∃ used, Within used mapOfDenomsHeld ∧ numberOf used ≤ nMaxNumberOfSpends ∧
        (nValueTarget ≤ worth used ∨ Short nextToMaxDenom nValueTarget mapOfDenomsHeld) ∧
        minimizeChange nMaxNumberOfSpends nChangeCount nextToMaxDenom nValueTarget mapOfDenomsHeld
          mapOfDenomsUsed = (changeCount (worth used - nValueTarget), used) := by
  obtain ⟨⟨used, hwithin, hworth⟩, hreach⟩ := amountToMeet_spec nextToMaxDenom mapOfDenomsHeld hT
  obtain ⟨hexact, -⟩ := getSpendCoins_exact hwithin hworth
  rw [minimizeChange]
  split
  · rename_i hbetter
    rw [getNumberOfCoinsUsed_eq (getSpendCoins _ _)] at hbetter
    refine .inr ⟨_, getSpendCoins_within, hbetter.2, ?_, ?_⟩
    · rwa [hexact]
    · rw [hexact, changeCount]
  · exact .inl rfl

end Minimize

section Held

variable {mapOfDenomsHeld : DenomMap} {denom : CoinDenomination}

theorem toInt_le_of_find {p : CoinDenomination → Bool} {found : CoinDenomination}
    (h : denomsDown.find? p = some found) (hdenom : denom ∈ denomsDown) (hp : p denom = true) :
    denom.toInt ≤ found.toInt := by
  obtain ⟨-, pre, post, heq, hpre⟩ := List.find?_eq_some_iff_append.mp h
  have hdown := denomsDown_antitone
  rw [heq] at hdenom hdown
  simp only [List.mem_append, List.mem_cons] at hdenom
  rcases hdenom with hmem | rfl | hmem
  · exact absurd hp (by simpa using hpre denom hmem)
  · exact le_rfl
  · exact (List.pairwise_cons.mp (List.pairwise_append.mp hdown).2.1).1 denom hmem

theorem le_getMaxDenomHeld (hdenom : denom ∈ denomsDown) (h : mapOfDenomsHeld denom ≠ 0) :
    denom.toInt ≤ (getMaxDenomHeld mapOfDenomsHeld).toInt := by
  have hp : decide (mapOfDenomsHeld denom ≠ 0) = true := decide_eq_true h
  rw [getMaxDenomHeld]
  cases hfind : zerocoinDenomList.reverse.find? fun coin => mapOfDenomsHeld coin ≠ 0 with
  | none => exact absurd hp (List.find?_eq_none.mp hfind denom hdenom)
  | some found => exact toInt_le_of_find hfind hdenom hp

theorem getNextLowerDenomHeld_lt (hdenom : denom ∈ denomsDown) :
    (getNextLowerDenomHeld denom mapOfDenomsHeld).toInt < denom.toInt := by
  rw [getNextLowerDenomHeld]
  cases hfind : zerocoinDenomList.reverse.find? fun x =>
      x.toInt < denom.toInt && mapOfDenomsHeld x ≠ 0 with
  | none =>
    have hpos : ∀ x ∈ denomsDown, ZQ_ERROR.toInt < x.toInt := by decide
    exact hpos denom hdenom
  | some found =>
    have hfound := List.find?_some hfind
    rw [Bool.and_eq_true] at hfound
    exact of_decide_eq_true hfound.1

end Held

section Settles

variable {nMaxNumberOfSpends nChangeCount : Nat} {fMinimizeChange : Bool}
  {nextToMaxDenom : CoinDenomination} {nValueTarget : Int}
  {mapOfDenomsHeld mapOfDenomsUsed : DenomMap}

-- Coins that are held, with the number of coins of their change.
structure Pays (nValueTarget : Int) (mapOfDenomsHeld : DenomMap) (change : Nat × DenomMap) :
    Prop where
  within : Within change.2 mapOfDenomsHeld
  change_eq : change.1 = changeCount (worth change.2 - nValueTarget)

structure Settles (nMaxNumberOfSpends : Nat) (nValueTarget : Int) (mapOfDenomsHeld : DenomMap)
    (change : Nat × DenomMap) : Prop extends Pays nValueTarget mapOfDenomsHeld change where
  lt_worth : nValueTarget < worth change.2
  few : numberOf change.2 ≤ nMaxNumberOfSpends

theorem Pays.lt_worth_of_change {change : Nat × DenomMap} (h : Pays nValueTarget mapOfDenomsHeld change)
    (hchange : change.1 ≠ 0) : nValueTarget < worth change.2 := by
  by_contra hle
  exact hchange (h.change_eq.trans (changeCount_of_nonpos (by linarith)))

theorem Settles.change_ne_zero {change : Nat × DenomMap}
    (h : Settles nMaxNumberOfSpends nValueTarget mapOfDenomsHeld change)
    (hcoin : COIN ∣ nValueTarget) : change.1 ≠ 0 := by
  rw [h.change_eq]
  exact (changeCount_pos (sub_pos.mpr h.lt_worth) (Int.dvd_sub (coin_dvd_worth _) hcoin)).ne'

theorem minimizeChange_pays (hT : 0 < nValueTarget)
    (h : Pays nValueTarget mapOfDenomsHeld (nChangeCount, mapOfDenomsUsed)) :
    Pays nValueTarget mapOfDenomsHeld (minimizeChange nMaxNumberOfSpends nChangeCount
      nextToMaxDenom nValueTarget mapOfDenomsHeld mapOfDenomsUsed) := by
  rcases minimizeChange_cases hT with heq | ⟨used, hwithin, -, -, heq⟩
  · rw [heq]
    exact h
  · rw [heq]
    exact ⟨hwithin, rfl⟩

-- No coins held come to the target with as few coins as are allowed.
def NoExact (nMaxNumberOfSpends : Nat) (nValueTarget : Int) (mapOfDenomsHeld : DenomMap) : Prop :=
  ∀ used, Within used mapOfDenomsHeld → worth used = nValueTarget →
    nMaxNumberOfSpends < numberOf used

theorem minimizeChange_settles (hT : 0 < nValueTarget)
    (hopen : NoExact nMaxNumberOfSpends nValueTarget mapOfDenomsHeld)
    (hshort : ¬Short nextToMaxDenom nValueTarget mapOfDenomsHeld)
    (h : Settles nMaxNumberOfSpends nValueTarget mapOfDenomsHeld (nChangeCount, mapOfDenomsUsed)) :
    Settles nMaxNumberOfSpends nValueTarget mapOfDenomsHeld (minimizeChange nMaxNumberOfSpends
      nChangeCount nextToMaxDenom nValueTarget mapOfDenomsHeld mapOfDenomsUsed) := by
  rcases minimizeChange_cases hT with heq | ⟨used, hwithin, hfew, hreach, heq⟩
  · rw [heq]
    exact h
  · rw [heq]
    have hle := hreach.resolve_right hshort
    have hne : nValueTarget ≠ worth used := fun hexact =>
      absurd (hopen used hwithin hexact.symm) (not_lt.mpr hfew)
    exact ⟨⟨hwithin, rfl⟩, lt_of_le_of_ne hle hne, hfew⟩

-- A coin worth more than the target is above those taken first, and fills up the rest.
theorem not_short_of_over {denom : CoinDenomination} (hdenom : denom ∈ denomsDown)
    (hheld : mapOfDenomsHeld denom ≠ 0) (hover : nValueTarget < denom.toAmount)
    (hnext : nextToMaxDenom.toInt < denom.toInt) :
    ¬Short nextToMaxDenom nValueTarget mapOfDenomsHeld := by
  intro hshort
  have htaken := coinsBelow_taken nextToMaxDenom mapOfDenomsHeld nValueTarget
  have hfree : (coinsBelow nextToMaxDenom nValueTarget mapOfDenomsHeld).1 denom <
      mapOfDenomsHeld denom := by
    by_contra htaken_all
    obtain ⟨r, hgo⟩ := htaken.guard hdenom (by omega)
    rw [Bool.and_eq_true] at hgo
    exact absurd (of_decide_eq_true hgo.1) (not_le.mpr hnext)
  have hle := hshort denom hdenom hfree
  have hrest := htaken.rest_le denomsDown_chain.pos
  linarith

-- What is left when the run falls short are coins of the smallest value held. One of them
-- makes up the target, and no other coins reach it with fewer.
theorem not_short_of_max {w : DenomMap} (hT : 0 < nValueTarget)
    (hopen : NoExact nMaxNumberOfSpends nValueTarget mapOfDenomsHeld)
    (hw : Within w mapOfDenomsHeld) (hreach : nValueTarget ≤ worth w)
    (hfew : numberOf w ≤ nMaxNumberOfSpends) :
    ¬Short (getMaxDenomHeld mapOfDenomsHeld) nValueTarget mapOfDenomsHeld := by
  intro hshort
  have htaken := coinsBelow_taken (getMaxDenomHeld mapOfDenomsHeld) mapOfDenomsHeld nValueTarget
  have hpos := coinsBelow_pos (getMaxDenomHeld mapOfDenomsHeld) mapOfDenomsHeld hT
  rw [Short] at hshort
  generalize coinsBelow (getMaxDenomHeld mapOfDenomsHeld) nValueTarget mapOfDenomsHeld = s
    at htaken hpos hshort
  have hfree : ∃ denom ∈ denomsDown, s.1 denom < mapOfDenomsHeld denom := by
    by_contra hnone
    have hused : ∀ x ∈ denomsDown, mapOfDenomsHeld x ≤ s.1 x := fun x hx =>
      not_lt.mp fun hlt => hnone ⟨x, hx, hlt⟩
    have hall := total_mono denomsDown_chain.pos fun x hx => (hw x hx).trans (hused x hx)
    rw [htaken.total_eq] at hall
    rw [worth] at hreach
    linarith
  obtain ⟨denom, hdenom, hlt⟩ := hfree
  obtain ⟨hrest, hcut⟩ := htaken.one_short denomsDown_chain hshort (fun x hx hless r hstop => by
    rw [Bool.and_eq_false_iff] at hstop
    rcases hstop with hmax | hle
    · exact absurd (le_getMaxDenomHeld hx (by omega)) (of_decide_eq_false hmax)
    · exact not_lt.mp (of_decide_eq_false hle)) hdenom hlt
  have hwithin := within_update htaken.le_held hlt
  have hworth : worth (Function.update s.1 denom (s.1 denom + 1)) = nValueTarget := by
    rw [worth, total_update denomsDown_chain.nodup hdenom, htaken.total_eq, hrest]
    push_cast
    ring
  have hvalue := denomsDown_chain.pos denom hdenom
  have hfewest := hcut.count_le hvalue hw
    (by rw [worth] at hworth hreach; rw [hworth]; linarith)
  have hmany := hopen _ hwithin hworth
  rw [numberOf] at hmany hfew
  omega

theorem over_of_find {denom : CoinDenomination} (h : zerocoinDenomList.find? (fun denom =>
      nValueTarget < denom.toAmount && mapOfDenomsHeld denom ≠ 0) = some denom) :
    denom ∈ denomsDown ∧ mapOfDenomsHeld denom ≠ 0 ∧ nValueTarget < denom.toAmount := by
  have hover := List.find?_some h
  rw [Bool.and_eq_true] at hover
  exact ⟨mem_zerocoinDenomList.mp (List.mem_of_find?_eq_some h), of_decide_eq_true hover.2,
    of_decide_eq_true hover.1⟩

theorem single_spec {denom : CoinDenomination} (hdenom : denom ∈ denomsDown)
    (hheld : mapOfDenomsHeld denom ≠ 0) :
    Within (Function.update (fun _ => 0) denom 1) mapOfDenomsHeld ∧
      worth (Function.update (fun _ => 0) denom 1) = denom.toAmount ∧
      numberOf (Function.update (fun _ => 0) denom 1) = 1 := by
  refine ⟨within_update (fun _ _ => Nat.zero_le _) (Nat.pos_of_ne_zero hheld), ?_, ?_⟩
  · have hone := total_update (v := toAmount) (u := fun _ => 0) (k := 1) denomsDown_chain.nodup hdenom
    rw [total_of_zero fun _ _ => rfl] at hone
    simpa [worth] using hone
  · have hcases : ∀ x ∈ denomsDown, numberOf (Function.update (fun _ => 0) x 1) = 1 := by decide
    exact hcases denom hdenom

theorem owed_pays {used : DenomMap} {rest : Int}
    (h : Taken toAmount owed mapOfDenomsHeld used rest denomsDown nValueTarget) :
    Pays nValueTarget mapOfDenomsHeld (changeCount (nValueTarget - rest - nValueTarget), used) := by
  refine ⟨h.le_held, ?_⟩
  rw [worth, h.total_eq]

-- The coins from the largest on are the fewest that reach the target.
theorem owed_settles {used w : DenomMap} {rest : Int} (hT : 0 < nValueTarget)
    (hopen : NoExact nMaxNumberOfSpends nValueTarget mapOfDenomsHeld)
    (hw : Within w mapOfDenomsHeld) (hreach : nValueTarget ≤ worth w)
    (hfew : numberOf w ≤ nMaxNumberOfSpends)
    (h : Taken toAmount owed mapOfDenomsHeld used rest denomsDown nValueTarget) :
    Settles nMaxNumberOfSpends nValueTarget mapOfDenomsHeld
      (changeCount (nValueTarget - rest - nValueTarget), used) := by
  have hworth : worth used = nValueTarget - rest := h.total_eq
  rcases h.owed_cut denomsDown_chain hT with ⟨hleft, hall⟩ | ⟨hdone, denom, hdenom, hlast, hcut⟩
  · have hmost : worth w ≤ worth used := total_mono denomsDown_chain.pos fun x hx =>
      (hw x hx).trans (hall x hx).ge
    linarith
  · have hvalue := denomsDown_chain.pos denom hdenom
    have hcount : numberOf used ≤ numberOf w := hcut.count_le hvalue hw (by
      rw [worth] at hworth hreach
      linarith)
    have hover : rest ≠ 0 := fun hzero =>
      absurd (hopen used h.le_held (by rw [hworth, hzero, sub_zero]))
        (not_lt.mpr (hcount.trans hfew))
    exact ⟨owed_pays h, by dsimp only; rw [hworth]; omega, hcount.trans hfew⟩

theorem calculateChange_pays (nMaxNumberOfSpends : Nat) (fMinimizeChange : Bool)
    (mapOfDenomsHeld : DenomMap) (hT : 0 < nValueTarget) : Pays nValueTarget mapOfDenomsHeld
    (calculateChange nMaxNumberOfSpends fMinimizeChange nValueTarget mapOfDenomsHeld) := by
  rw [calculateChange]
  split
  · rename_i denom hfind
    obtain ⟨hdenom, hheld, -⟩ := over_of_find hfind
    obtain ⟨hwithin, hworth, -⟩ := single_spec hdenom hheld
    have hsingle : Pays nValueTarget mapOfDenomsHeld (getNumberOfCoinsUsed (getChange
        (denom.toAmount - nValueTarget)), Function.update (fun _ => 0) denom 1) :=
      ⟨hwithin, by rw [hworth, changeCount]⟩
    dsimp only
    split
    · split
      · exact minimizeChange_pays hT hsingle
      · exact hsingle
    · exact hsingle
  · have howed := owed_pays (takeCoins_denoms owed mapOfDenomsHeld nValueTarget)
    dsimp only
    split
    · exact howed
    · exact minimizeChange_pays hT howed

theorem calculateChange_settles {w : DenomMap} (hT : 0 < nValueTarget)
    (hmax : 1 ≤ nMaxNumberOfSpends)
    (hopen : NoExact nMaxNumberOfSpends nValueTarget mapOfDenomsHeld)
    (hw : Within w mapOfDenomsHeld) (hreach : nValueTarget ≤ worth w)
    (hfew : numberOf w ≤ nMaxNumberOfSpends) :
    Settles nMaxNumberOfSpends nValueTarget mapOfDenomsHeld
      (calculateChange nMaxNumberOfSpends fMinimizeChange nValueTarget mapOfDenomsHeld) := by
  rw [calculateChange]
  split
  · rename_i denom hfind
    obtain ⟨hdenom, hheld, hlt⟩ := over_of_find hfind
    obtain ⟨hwithin, hworth, hone⟩ := single_spec hdenom hheld
    have hsingle : Settles nMaxNumberOfSpends nValueTarget mapOfDenomsHeld (getNumberOfCoinsUsed
        (getChange (denom.toAmount - nValueTarget)), Function.update (fun _ => 0) denom 1) :=
      ⟨⟨hwithin, by rw [hworth, changeCount]⟩, by rw [hworth]; exact hlt, by rw [hone]; exact hmax⟩
    dsimp only
    split
    · split
      · exact minimizeChange_settles hT hopen
          (not_short_of_over hdenom hheld hlt (getNextLowerDenomHeld_lt hdenom)) hsingle
      · exact hsingle
    · exact hsingle
  · have howed := owed_settles hT hopen hw hreach hfew
      (takeCoins_denoms owed mapOfDenomsHeld nValueTarget)
    dsimp only
    split
    · exact howed
    · exact minimizeChange_settles hT hopen (not_short_of_max hT hopen hw hreach hfew) howed

end Settles

end AnkerNode
