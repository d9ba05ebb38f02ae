import AnkerNode.Validation.CheckTransaction

namespace AnkerNode

-- The keys of mapZerocoinSupply are the denominations of zerocoinDenomList; at() throws for ZQ_ERROR,
-- and the value here is never read.
abbrev ZerocoinSupply := CoinDenomination → Int

namespace ZerocoinSupply

open CoinDenomination

def zero : ZerocoinSupply := fun _ => 0

def NonNegative (supply : ZerocoinSupply) : Prop := ∀ d, d ≠ ZQ_ERROR → 0 ≤ supply d

def mint (supply : ZerocoinSupply) (d : CoinDenomination) : ZerocoinSupply :=
  Function.update supply d (supply d + 1)

def spend (supply : ZerocoinSupply) (d : CoinDenomination) : ZerocoinSupply :=
  Function.update supply d (supply d - 1)

def spendAll (supply : ZerocoinSupply) :
    List CoinDenomination → ZerocoinSupply × Except Failure Bool
  | [] => (supply, .ok true)
  | d :: listSpends =>
    if d = ZQ_ERROR then (supply, .error Failure.exception)
    else if supply.spend d d < 0 then (supply.spend d, .ok false)
    else (supply.spend d).spendAll listSpends

theorem spend_self (supply : ZerocoinSupply) (d : CoinDenomination) :
    supply.spend d d = supply d - 1 := by
  simp [spend]

theorem spend_of_ne (supply : ZerocoinSupply) {d e : CoinDenomination} (h : e ≠ d) :
    supply.spend d e = supply e := by
  simp [spend, h]

theorem foldl_mint (listMints : List CoinDenomination) (supply : ZerocoinSupply)
    (d : CoinDenomination) :
    listMints.foldl mint supply d = supply d + listMints.count d := by
  induction listMints generalizing supply with
  | nil => simp
  | cons e listMints ih =>
    rw [List.foldl_cons, ih]
    by_cases h : d = e
    · subst h
      simp only [mint, Function.update_self, List.count_cons_self]
      omega
    · rw [mint, Function.update_of_ne h, List.count_cons_of_ne (Ne.symm h)]

-- the early return leaves the counter that went below zero behind
theorem nonNegative_spendAll_iff {listSpends : List CoinDenomination} {supply : ZerocoinSupply}
    {fOk : Bool} (h : (supply.spendAll listSpends).2 = .ok fOk) :
    (supply.spendAll listSpends).1.NonNegative ↔
      ∀ d, d ≠ ZQ_ERROR → (listSpends.count d : Int) ≤ supply d := by
  induction listSpends generalizing supply with
  | nil => simp [spendAll, NonNegative]
  | cons e listSpends ih =>
    simp only [spendAll] at h ⊢
    split at h
    · simp at h
    · rename_i he
      rw [if_neg he]
      split at h
      · rename_i hneg
        rw [if_pos hneg]
        constructor
        · intro hall
          have hge : 0 ≤ supply.spend e e := hall e he
          omega
        · intro hall
          have hle := hall e he
          rw [spend_self] at hneg
          rw [List.count_cons_self] at hle
          omega
      · rename_i hnonneg
        rw [if_neg hnonneg, ih h]
        refine forall_congr' (fun d => imp_congr_right (fun _ => ?_))
        by_cases hd : d = e
        · subst hd
          rw [spend_self, List.count_cons_self]
          omega
        · rw [spend_of_ne supply hd, List.count_cons_of_ne (Ne.symm hd)]

end ZerocoinSupply

-- the conversion stops at the first output that names no denomination
def publicCoins (lib : ZerocoinLib) : List CTxOut → List PublicCoin
  | [] => []
  | out :: vout =>
    match txOutToPublicCoin lib out with
    | none => []
    | some pubCoin => pubCoin :: publicCoins lib vout

def blockToZerocoinMintList (lib : ZerocoinLib) (block : CBlock) : List CoinDenomination :=
  (publicCoins lib ((block.vtx.filter CTransaction.isZerocoinMint).flatMap fun tx =>
    tx.vout.filter fun out => out.scriptPubKey.isZerocoinMint)).map PublicCoin.denomination

def zerocoinSpendListFromBlock (block : CBlock) : List CoinDenomination :=
  (block.vtx.filter CTransaction.isZerocoinSpend).flatMap fun tx =>
    (tx.vin.filter fun txin => txin.scriptSig.isZerocoinSpend).map fun txin =>
      CoinDenomination.ofInt txin.nSequence.toNat

-- the version and the supply of pprev, and the supply the block's own entry already has
def startingSupply (nVersion : Int) (previous own : ZerocoinSupply) : ZerocoinSupply :=
  if 3 < nVersion then previous else own

def updateZANKSupply (lib : ZerocoinLib) (block : CBlock) (nVersion : Int)
    (previous own : ZerocoinSupply) : ZerocoinSupply × Except Failure Bool :=
  ((blockToZerocoinMintList lib block).foldl ZerocoinSupply.mint
    (startingSupply nVersion previous own)).spendAll (zerocoinSpendListFromBlock block)

def SpendsCovered (lib : ZerocoinLib) (block : CBlock) (supply : ZerocoinSupply) : Prop :=
  ∀ d, d ≠ CoinDenomination.ZQ_ERROR → ((zerocoinSpendListFromBlock block).count d : Int) ≤
    supply d + (blockToZerocoinMintList lib block).count d

theorem nonNegative_updateZANKSupply_iff {lib : ZerocoinLib} {block : CBlock} {nVersion : Int}
    {previous own : ZerocoinSupply} {fOk : Bool}
    (h : (updateZANKSupply lib block nVersion previous own).2 = .ok fOk) :
    (updateZANKSupply lib block nVersion previous own).1.NonNegative ↔
      SpendsCovered lib block (startingSupply nVersion previous own) := by
  rw [updateZANKSupply, ZerocoinSupply.nonNegative_spendAll_iff h, SpendsCovered]
  refine forall_congr' (fun d => imp_congr_right (fun _ => ?_))
  rw [ZerocoinSupply.foldl_mint]

end AnkerNode
