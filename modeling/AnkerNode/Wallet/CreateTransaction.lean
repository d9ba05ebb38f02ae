import AnkerNode.Lib.Loops
import AnkerNode.Script.Standard
import AnkerNode.Wallet.CoinSelection
import Mathlib.Data.List.InsertIdx

namespace AnkerNode

inductive AvailableCoinsType
  | ALL_COINS
  | ONLY_DENOMINATED
  | ONLY_NOT10000IFMN
  | ONLY_NONDENOMINATED_NOT10000IFMN
deriving DecidableEq

structure CFeeRate where
  nSatoshisPerK : Int

-- The product is of the unsigned type of the size.
def CFeeRate.getFee (rate : CFeeRate) (nSize : Nat) : Int :=
  let nFee := rate.nSatoshisPerK * nSize % 2 ^ 64 / 1000
  if nFee = 0 ∧ 0 < rate.nSatoshisPerK then rate.nSatoshisPerK else nFee

def CFeeRate.getFeePerK (rate : CFeeRate) : Int := rate.getFee 1000

def CTxOut.getDustThreshold (txout : CTxOut) (minRelayTxFee : CFeeRate) : Int :=
  if txout.scriptPubKey.isUnspendable then 0
  else 3 * minRelayTxFee.getFee (txout.getSerializeSize + 148)

def CTxOut.isDust (txout : CTxOut) (minRelayTxFee : CFeeRate) : Bool :=
  txout.nValue < txout.getDustThreshold minRelayTxFee

def MAX_FREE_TRANSACTION_CREATE_SIZE : Nat := 1000

def CTransaction.getVirtualTransactionSize (tx : CTransaction) : Nat :=
  (tx.getTransactionCost + WITNESS_SCALE_FACTOR - 1) / WITNESS_SCALE_FACTOR

structure SignatureData where
  scriptSig : CScript
  scriptWitness : List (List UInt8)

def updateTransaction (tx : CTransaction) (nIn : Nat) (data : SignatureData) : CTransaction :=
  let tx := { tx with vin := tx.vin.modify nIn fun txin => { txin with scriptSig := data.scriptSig } }
  if !data.scriptWitness.isEmpty || decide (nIn < tx.vtxinwit.length) then
    let vtxinwit := (tx.vtxinwit ++ List.replicate tx.vin.length []).take tx.vin.length
    { tx with vtxinwit := vtxinwit.set nIn data.scriptWitness }
  else tx

structure CCoinControl where
  destChange : CTxDestination := .CNoDestination
  fSplitBlock : Bool := false
  nSplitBlock : Int := 1

-- What `CreateTransaction` is called with; the amounts are of type `int64_t`.
structure PayRequest where
  vecSend : List (CScript × Int)
  coinControl : Option CCoinControl := none
  coin_type : AvailableCoinsType := .ALL_COINS
  useIX : Bool := false
  nFeePay : Int := 0
  amounts : ∀ s ∈ vecSend, -2 ^ 63 ≤ s.2 ∧ s.2 < 2 ^ 63

-- What a pass of the fee loop asks the wallet and the node for. `completesAsFree` is what the
-- priority of the transaction says.
structure PayWallet where
  selectCoins : Nat → Int → Option (List WalletCoin)
  selects : ∀ nPass nTargetValue setCoins, selectCoins nPass nTargetValue = some setCoins →
    setCoins.Nodup ∧ nTargetValue ≤ (setCoins.map WalletCoin.nValue).sum
  reservedKeyID : Nat → Valtype
  getRandInt : Nat → Nat → Nat
  getRandInt_lt : ∀ nPass nMax, 0 < nMax → getRandInt nPass nMax < nMax
  produceSignature : CTransaction → Nat → WalletCoin → Option SignatureData
  fSendFreeTransactions : Bool
  completesAsFree : CTransaction → List WalletCoin → Bool
  fPayAtLeastCustomFee : Bool
  payTxFee : CFeeRate
  estimateFee : CFeeRate
  minTxFee : CFeeRate
  minRelayTxFee : CFeeRate
  maxTxFee : Int

def PayWallet.getMinimumFee (wallet : PayWallet) (nTxBytes : Nat) : Int :=
  let nFeeNeeded := wallet.payTxFee.getFee nTxBytes
  let nFeeNeeded :=
    if wallet.fPayAtLeastCustomFee ∧ 0 < nFeeNeeded ∧ nFeeNeeded < wallet.payTxFee.getFeePerK then
      wallet.payTxFee.getFeePerK
    else nFeeNeeded
  let nFeeNeeded := if nFeeNeeded = 0 then wallet.estimateFee.getFee nTxBytes else nFeeNeeded
  let nFeeNeeded := if nFeeNeeded = 0 then wallet.minTxFee.getFee nTxBytes else nFeeNeeded
  let nFeeNeeded := max nFeeNeeded (wallet.minRelayTxFee.getFee nTxBytes)
  min nFeeNeeded wallet.maxTxFee

-- `vtxinwit` is not cleared between the passes.
structure PayState where
  nPass : Nat := 0
  nFeeRet : Int
  vtxinwit : List (List (List UInt8)) := []

structure CreatedTransaction where
  tx : CTransaction
  setCoins : List WalletCoin
  nFeeRet : Int

namespace PayRequest

variable (req : PayRequest) (wallet : PayWallet)

def nFeePayAsked : Int := if req.useIX ∧ req.nFeePay < CENT then CENT else req.nFeePay

-- The check looks at the sum before an amount is added to it.
def addAmounts : List (CScript × Int) → Int → Option Int
  | [], nValue => if nValue < 0 then none else some nValue
  | s :: vecSend, nValue => if nValue < 0 then none else addAmounts vecSend (toCAmount (nValue + s.2))

def totalAmount : Option Int := if req.vecSend.isEmpty then none else addAmounts req.vecSend 0

def nSplitBlock : Int := req.coinControl.elim 1 CCoinControl.nSplitBlock

-- The payees get their outputs whole, and dust is turned down.
def paysWhole : Bool := req.coinControl.any fun coinControl => !coinControl.fSplitBlock

def wholeOutputs : List CTxOut := req.vecSend.map fun s => ⟨s.2, s.1⟩

-- The remainder is of an unsigned type, and the sum with it is one again.
def splitAmount (nAmount nSplitBlock : Int) : List Int :=
  (List.range nSplitBlock.toNat).map fun (i : Nat) =>
    if (i : Int) = nSplitBlock - 1 then
      toCAmount ((nAmount.tdiv nSplitBlock + nAmount.tmod nSplitBlock % 2 ^ 64) % 2 ^ 64)
    else nAmount.tdiv nSplitBlock

def splitOutputs : List CTxOut :=
  req.vecSend.flatMap fun s => (splitAmount s.2 req.nSplitBlock).map fun nValue => ⟨nValue, s.1⟩

def payeeOutputs : Except String (List CTxOut) :=
  if req.paysWhole then
    if req.wholeOutputs.any fun txout => txout.isDust wallet.minRelayTxFee then
      .error "Transaction amount too small"
    else .ok req.wholeOutputs
  else .ok req.splitOutputs

def fundsMessage : String :=
  (match req.coin_type with
    | .ALL_COINS => "Insufficient funds."
    | .ONLY_NOT10000IFMN =>
      "Unable to locate enough funds for this transaction that are not equal 4000 ANK."
    | .ONLY_NONDENOMINATED_NOT10000IFMN =>
      "Unable to locate enough Obfuscation non-denominated funds for this transaction that are not equal 4000 ANK."
    | .ONLY_DENOMINATED =>
      "Unable to locate enough Obfuscation denominated funds for this transaction. " ++
        "Obfuscation uses exact denominated amounts to send funds, you might simply need to anonymize some more coins.") ++
  if req.useIX then
    " SwiftX requires inputs with at least 6 confirmations, you might need to wait a few minutes and try again."
  else ""

-- the custom address for the change
def destChange : Option CTxDestination :=
  (req.coinControl.map CCoinControl.destChange).filter fun dest => dest != .CNoDestination

def scriptChange (nPass : Nat) : CScript :=
  getScriptForDestination (req.destChange.getD (.CKeyID (wallet.reservedKeyID nPass)))

def addToFirst (scriptChange : CScript) (nChange : Int) : List CTxOut → Option (List CTxOut)
  | [] => none
  | txout :: vout =>
    if scriptChange = txout.scriptPubKey then
      some ({ txout with nValue := toCAmount (txout.nValue + nChange) } :: vout)
    else (addToFirst scriptChange nChange vout).map (txout :: ·)

-- The change goes to an output of its own, unless it is dust.
def insertChange (nPass : Nat) (nChange nFeeRet : Int) (vout : List CTxOut) : Int × List CTxOut :=
  let newTxOut : CTxOut := ⟨nChange, req.scriptChange wallet nPass⟩
  if newTxOut.isDust wallet.minRelayTxFee then (toCAmount (nFeeRet + nChange), vout)
  else (nFeeRet, vout.insertIdx (wallet.getRandInt nPass (vout.length + 1)) newTxOut)

-- The fee and the outputs once the change is dealt with.
def settleChange (nPass : Nat) (nChange nFeeRet : Int) (vout : List CTxOut) : Int × List CTxOut :=
  if req.coin_type = .ONLY_DENOMINATED then (toCAmount (nFeeRet + nChange), vout)
  else if 0 < nChange then
    match req.destChange.bind fun _ => addToFirst (req.scriptChange wallet nPass) nChange vout with
    | some vout => (nFeeRet, vout)
    | none => req.insertChange wallet nPass nChange nFeeRet vout
  else (nFeeRet, vout)

def unsignedTransaction (setCoins : List WalletCoin) (vout : List CTxOut)
    (vtxinwit : List (List (List UInt8))) : CTransaction where
  hash := 0
  vin := setCoins.map fun coin => ⟨⟨coin.1.tx.hash, UInt32.ofNat coin.2⟩, [], 0xffffffff⟩
  vout := vout
  vtxinwit := vtxinwit

def signFrom (txNewConst : CTransaction) :
    Nat → List WalletCoin → CTransaction → Option CTransaction
  | _, [], txNew => some txNew
  | nIn, coin :: setCoins, txNew =>
    match wallet.produceSignature txNewConst nIn coin with
    | none => none
    | some sigdata => signFrom txNewConst (nIn + 1) setCoins (updateTransaction txNew nIn sigdata)

def nFeeNeeded (nBytes : Nat) : Int := max req.nFeePayAsked (wallet.getMinimumFee nBytes)

-- The end of a pass: the transaction is done, or it needs more fee.
def checkFee (s : PayState) (setCoins : List WalletCoin) (txNew : CTransaction) (nFeeRet : Int) :
    PayState ⊕ Except String CreatedTransaction :=
  if MAX_STANDARD_TX_COST ≤ txNew.getTransactionCost then .inr (.error "Transaction too large")
  else
    let nBytes := txNew.getVirtualTransactionSize
    if wallet.fSendFreeTransactions && decide (nBytes ≤ MAX_FREE_TRANSACTION_CREATE_SIZE) &&
        wallet.completesAsFree txNew setCoins then
      .inr (.ok ⟨txNew, setCoins, nFeeRet⟩)
    else if req.nFeeNeeded wallet nBytes < wallet.minRelayTxFee.getFee nBytes then
      .inr (.error "Transaction too large for fee policy")
    else if req.nFeeNeeded wallet nBytes ≤ nFeeRet then .inr (.ok ⟨txNew, setCoins, nFeeRet⟩)
    else .inl ⟨s.nPass + 1, req.nFeeNeeded wallet nBytes, txNew.vtxinwit⟩

def pass (nValue : Int) (s : PayState) : PayState ⊕ Except String CreatedTransaction :=
  match req.payeeOutputs wallet with
  | .error strFailReason => .inr (.error strFailReason)
  | .ok vout =>
    match wallet.selectCoins s.nPass (toCAmount (nValue + s.nFeeRet)) with
    | none => .inr (.error req.fundsMessage)
    | some setCoins =>
      let nValueIn := (setCoins.map WalletCoin.nValue).sum
      let settled := req.settleChange wallet s.nPass (toCAmount (nValueIn - nValue - s.nFeeRet))
        s.nFeeRet vout
      let txNewConst := unsignedTransaction setCoins settled.2 s.vtxinwit
      match signFrom wallet txNewConst 0 setCoins txNewConst with
      | none => .inr (.error "Signing transaction failed")
      | some txNew => req.checkFee wallet s setCoins txNew settled.1

def startFee : Int := if 0 < req.nFeePayAsked then req.nFeePayAsked else 0

def createTransaction (fuel : Nat) : Option (Except String CreatedTransaction) :=
  match req.totalAmount with
  | none => some (.error "Transaction amounts must be positive")
  | some nValue => WhileLoop.run (req.pass wallet nValue) fuel { nFeeRet := req.startFee }

def Returns (r : Except String CreatedTransaction) : Prop :=
  ∃ fuel, req.createTransaction wallet fuel = some r

end PayRequest

def CTransaction.received (tx : CTransaction) (script : CScript) : Int :=
  ((tx.vout.filter fun txout => txout.scriptPubKey == script).map CTxOut.nValue).sum

def PayRequest.wanted (req : PayRequest) (script : CScript) : Int :=
  ((req.vecSend.filter fun s => s.1 == script).map Prod.snd).sum

def WalletCoin.outpoint (coin : WalletCoin) : COutPoint := ⟨coin.1.tx.hash, UInt32.ofNat coin.2⟩

-- What a payment keeps to.
structure BooksKept (req : PayRequest) (wallet : PayWallet) (created : CreatedTransaction) :
    Prop where
  inputs : created.tx.vin.map CTxIn.prevout = created.setCoins.map WalletCoin.outpoint
  distinct : created.setCoins.Nodup
  balanced : (created.setCoins.map WalletCoin.nValue).sum =
    (created.tx.vout.map CTxOut.nValue).sum + created.nFeeRet
  nonneg : ∀ txout ∈ created.tx.vout, 0 ≤ txout.nValue
  payees : ∃ nPass nChange, 0 ≤ nChange ∧ ∀ script, created.tx.received script =
    req.wanted script + if script = req.scriptChange wallet nPass then nChange else 0
  fee : (wallet.fSendFreeTransactions = true ∧
      created.tx.getVirtualTransactionSize ≤ MAX_FREE_TRANSACTION_CREATE_SIZE ∧
      wallet.completesAsFree created.tx created.setCoins = true) ∨
    req.nFeeNeeded wallet created.tx.getVirtualTransactionSize ≤ created.nFeeRet

-- The loop ends, and a transaction that is made keeps the books.
structure KeepsBooks (req : PayRequest) (wallet : PayWallet) : Prop where
  returns : ∃ r, req.Returns wallet r
  kept : ∀ created, req.Returns wallet (.ok created) → BooksKept req wallet created

-- No sum of the coins, the amounts and the fee leaves the range of an `int64_t`.
structure PayRoom (req : PayRequest) (wallet : PayWallet) : Prop where
  coins : ∀ nPass nTargetValue setCoins, wallet.selectCoins nPass nTargetValue = some setCoins →
    (setCoins.map WalletCoin.nValue).sum < 2 ^ 63
  fee : ∀ nValue, req.totalAmount = some nValue →
    nValue + max req.startFee wallet.maxTxFee < 2 ^ 63

theorem toCAmount_of_range {n : Int} (hlow : -2 ^ 63 ≤ n) (hhigh : n < 2 ^ 63) : toCAmount n = n := by
  rw [toCAmount, Int.bmod_eq_of_le] <;> omega

-- A sum that overflows is negative, so it is not overlooked.
theorem toCAmount_add {m n : Int} (hm : 0 ≤ m ∧ m < 2 ^ 63) (hn : -2 ^ 63 ≤ n ∧ n < 2 ^ 63)
    (h : 0 ≤ toCAmount (m + n)) : toCAmount (m + n) = m + n := by
  by_cases hlt : m + n < 2 ^ 63
  · exact toCAmount_of_range (by omega) hlt
  · have hwrap : toCAmount (m + n) = m + n - 2 ^ 64 := by
      have hperiod := Int.sub_bmod_right (m + n) (2 ^ 64)
      rw [Nat.cast_pow, Nat.cast_ofNat] at hperiod
      rw [toCAmount, ← hperiod]
      exact toCAmount_of_range (by omega) (by omega)
    omega

namespace PayRequest

theorem addAmounts_eq_some {vecSend : List (CScript × Int)} {nValue total : Int}
    (hamounts : ∀ s ∈ vecSend, -2 ^ 63 ≤ s.2 ∧ s.2 < 2 ^ 63) (hlt : nValue < 2 ^ 63)
    (h : addAmounts vecSend nValue = some total) :
    0 ≤ nValue ∧ total = nValue + (vecSend.map Prod.snd).sum ∧ 0 ≤ total ∧ total < 2 ^ 63 := by
  induction vecSend generalizing nValue with
  | nil =>
    rw [addAmounts] at h
    split at h
    · cases h
    · cases h
      exact ⟨by omega, by simp, by omega, hlt⟩
  | cons s vecSend ih =>
    rw [List.forall_mem_cons] at hamounts
    rw [addAmounts] at h
    split at h
    · cases h
    · have hrange : toCAmount (nValue + s.2) < 2 ^ 63 := by
        rw [toCAmount]
        exact Int.bmod_lt (by decide)
      obtain ⟨hpos, htotal, hrest⟩ := ih hamounts.2 hrange h
      rw [toCAmount_add ⟨by omega, hlt⟩ hamounts.1 hpos] at htotal
      refine ⟨by omega, ?_, hrest⟩
      rw [htotal, List.map_cons, List.sum_cons, add_assoc]

theorem totalAmount_eq_some {req : PayRequest} {nValue : Int} (h : req.totalAmount = some nValue) :
    nValue = (req.vecSend.map Prod.snd).sum ∧ 0 ≤ nValue ∧ nValue < 2 ^ 63 := by
  rw [totalAmount] at h
  split at h
  · cases h
  · obtain ⟨-, htotal, hrest⟩ := addAmounts_eq_some req.amounts (by decide) h
    exact ⟨by rw [htotal, zero_add], hrest⟩

section Split

variable {nAmount : Int} {n : Nat}

theorem quotient_add_rest_range (hamount : -2 ^ 63 ≤ nAmount ∧ nAmount < 2 ^ 63) (n : Nat) :
    -2 ^ 63 ≤ nAmount.tdiv (n + 1) + nAmount.tmod (n + 1) ∧
      nAmount.tdiv (n + 1) + nAmount.tmod (n + 1) < 2 ^ 63 := by
  have hsum := Int.mul_tdiv_add_tmod nAmount (n + 1)
  have hn : (0 : Int) ≤ n := Int.natCast_nonneg n
  rcases le_or_gt 0 nAmount with hpos | hneg
  · have hdiv : 0 ≤ nAmount.tdiv (n + 1) := Int.tdiv_nonneg hpos (by omega)
    have hmod : 0 ≤ nAmount.tmod (n + 1) := Int.tmod_nonneg _ hpos
    have hmul : 0 ≤ (n : Int) * nAmount.tdiv (n + 1) := mul_nonneg hn hdiv
    rw [add_mul, one_mul] at hsum
    omega
  · have hdiv : nAmount.tdiv (n + 1) ≤ 0 := by
      have hneg' := Int.tdiv_nonneg (by omega : 0 ≤ -nAmount) (by omega : (0 : Int) ≤ n + 1)
      rw [Int.neg_tdiv] at hneg'
      omega
    have hmod : nAmount.tmod (n + 1) ≤ 0 := by
      have hneg' := Int.tmod_nonneg (n + 1) (by omega : 0 ≤ -nAmount)
      rw [Int.neg_tmod] at hneg'
      omega
    have hmul : (n : Int) * nAmount.tdiv (n + 1) ≤ 0 := mul_nonpos_of_nonneg_of_nonpos hn hdiv
    rw [add_mul, one_mul] at hsum
    omega

theorem splitAmount_succ (hamount : -2 ^ 63 ≤ nAmount ∧ nAmount < 2 ^ 63) (n : Nat) :
    splitAmount nAmount (n + 1) = List.replicate n (nAmount.tdiv (n + 1)) ++
      [nAmount.tdiv (n + 1) + nAmount.tmod (n + 1)] := by
  obtain ⟨hlow, hhigh⟩ := quotient_add_rest_range hamount n
  have hlast : toCAmount ((nAmount.tdiv (n + 1) + nAmount.tmod (n + 1) % 2 ^ 64) % 2 ^ 64) =
      nAmount.tdiv (n + 1) + nAmount.tmod (n + 1) := by
    rw [Int.add_emod_emod, toCAmount]
    have hmod := Int.emod_bmod (nAmount.tdiv (n + 1) + nAmount.tmod (n + 1)) (2 ^ 64)
    rw [Nat.cast_pow, Nat.cast_ofNat] at hmod
    exact hmod.trans (toCAmount_of_range hlow hhigh)
  have hinit : ∀ i ∈ List.range n, (if (i : Int) = (n : Int) + 1 - 1 then
      toCAmount ((nAmount.tdiv (n + 1) + nAmount.tmod (n + 1) % 2 ^ 64) % 2 ^ 64)
      else nAmount.tdiv (n + 1)) = nAmount.tdiv (n + 1) := by
    intro i hi
    rw [List.mem_range] at hi
    rw [if_neg (by omega)]
  rw [splitAmount, show ((n : Int) + 1).toNat = n + 1 by omega, List.range_succ, List.map_append,
    List.map_congr_left hinit, List.map_const', List.length_range, List.map_singleton,
    if_pos (by omega), hlast]

theorem sum_splitAmount (hamount : -2 ^ 63 ≤ nAmount ∧ nAmount < 2 ^ 63) {nSplitBlock : Int}
    (hsplit : 1 ≤ nSplitBlock) : (splitAmount nAmount nSplitBlock).sum = nAmount := by
  obtain ⟨n, rfl⟩ : ∃ n : Nat, nSplitBlock = n + 1 := ⟨(nSplitBlock - 1).toNat, by omega⟩
  have hsum := Int.mul_tdiv_add_tmod nAmount (n + 1)
  rw [splitAmount_succ hamount, List.sum_append, List.sum_replicate, List.sum_singleton, nsmul_eq_mul]
  rw [add_mul, one_mul] at hsum
  omega

theorem splitAmount_nonneg (hamount : 0 ≤ nAmount ∧ nAmount < 2 ^ 63) {nSplitBlock : Int}
    (hsplit : 1 ≤ nSplitBlock) : ∀ nValue ∈ splitAmount nAmount nSplitBlock, 0 ≤ nValue := by
  obtain ⟨n, rfl⟩ : ∃ n : Nat, nSplitBlock = n + 1 := ⟨(nSplitBlock - 1).toNat, by omega⟩
  have hdiv : 0 ≤ nAmount.tdiv (n + 1) := Int.tdiv_nonneg hamount.1 (by omega)
  have hmod : 0 ≤ nAmount.tmod (n + 1) := Int.tmod_nonneg _ hamount.1
  rw [splitAmount_succ ⟨by omega, hamount.2⟩]
  intro nValue hmem
  rcases List.mem_append.mp hmem with hmem | hmem
  · rw [List.eq_of_mem_replicate hmem]
    exact hdiv
  · rw [List.mem_singleton.mp hmem]
    omega

-- The part with the remainder of a negative amount is negative.
theorem exists_neg_splitAmount (hamount : -2 ^ 63 ≤ nAmount ∧ nAmount < 0) {nSplitBlock : Int}
    (hsplit : 1 ≤ nSplitBlock) : ∃ nValue ∈ splitAmount nAmount nSplitBlock, nValue < 0 := by
  by_contra hnone
  have hsum := List.sum_nonneg (l := splitAmount nAmount nSplitBlock) fun nValue hmem =>
    not_lt.mp fun hneg => hnone ⟨nValue, hmem, hneg⟩
  rw [sum_splitAmount ⟨hamount.1, by omega⟩ hsplit] at hsum
  omega

end Split

end PayRequest

-- the sum of the outputs whose scripts have `p`
def sumWhere (p : CScript → Bool) (vout : List CTxOut) : Int :=
  ((vout.filter fun txout => p txout.scriptPubKey).map CTxOut.nValue).sum

section SumWhere

variable {p : CScript → Bool} {vout vout' : List CTxOut}

theorem sumWhere_cons (txout : CTxOut) (vout : List CTxOut) : sumWhere p (txout :: vout) =
    (if p txout.scriptPubKey then txout.nValue else 0) + sumWhere p vout := by
  rw [sumWhere, List.filter_cons]
  split
  · rw [List.map_cons, List.sum_cons]
    rfl
  · exact (zero_add _).symm

theorem sumWhere_append : sumWhere p (vout ++ vout') = sumWhere p vout + sumWhere p vout' := by
  rw [sumWhere, List.filter_append, List.map_append, List.sum_append]
  rfl

theorem sumWhere_perm (h : vout.Perm vout') : sumWhere p vout = sumWhere p vout' :=
  ((h.filter _).map _).sum_eq

theorem sumWhere_true (vout : List CTxOut) :
    sumWhere (fun _ => true) vout = (vout.map CTxOut.nValue).sum := by
  rw [sumWhere, List.filter_true]

theorem sumWhere_outputs (nValues : List Int) (script : CScript) :
    sumWhere p (nValues.map fun nValue => ⟨nValue, script⟩) =
      if p script then nValues.sum else 0 := by
  induction nValues with
  | nil => simp [sumWhere]
  | cons nValue nValues ih =>
    rw [List.map_cons, sumWhere_cons, ih, List.sum_cons]
    split
    · rfl
    · rfl

end SumWhere

namespace PayRequest

variable {req : PayRequest} {wallet : PayWallet}

def wantedWhere (req : PayRequest) (p : CScript → Bool) : Int :=
  ((req.vecSend.filter fun s => p s.1).map Prod.snd).sum

theorem sumWhere_wholeOutputs (p : CScript → Bool) :
    sumWhere p req.wholeOutputs = req.wantedWhere p := by
  rw [sumWhere, wholeOutputs, List.filter_map, List.map_map]
  rfl

theorem sumWhere_splitOutputs (hsplit : 1 ≤ req.nSplitBlock) (p : CScript → Bool) :
    sumWhere p req.splitOutputs = req.wantedWhere p := by
  have hamounts := req.amounts
  rw [splitOutputs, wantedWhere]
  generalize req.vecSend = vecSend at hamounts ⊢
  induction vecSend with
  | nil => rfl
  | cons s vecSend ih =>
    rw [List.forall_mem_cons] at hamounts
    rw [List.flatMap_cons, sumWhere_append, sumWhere_outputs, sum_splitAmount hamounts.1 hsplit,
      ih hamounts.2, List.filter_cons]
    split
    · rw [List.map_cons, List.sum_cons]
    · exact zero_add _

theorem sumWhere_payeeOutputs (hsplit : 1 ≤ req.nSplitBlock) {vout : List CTxOut}
    (h : req.payeeOutputs wallet = .ok vout) (p : CScript → Bool) :
    sumWhere p vout = req.wantedWhere p := by
  rw [payeeOutputs] at h
  split at h
  · split at h
    · cases h
    · cases h
      exact sumWhere_wholeOutputs p
  · cases h
    exact sumWhere_splitOutputs hsplit p

theorem getFee_nonneg (rate : CFeeRate) (nSize : Nat) : 0 ≤ rate.getFee nSize := by
  rw [CFeeRate.getFee]
  split
  · omega
  · have hmod := Int.emod_nonneg (rate.nSatoshisPerK * nSize) (b := 2 ^ 64) (by decide)
    omega

-- No threshold is negative, so a negative amount is dust.
theorem nonneg_of_isDust {txout : CTxOut} {minRelayTxFee : CFeeRate}
    (h : txout.isDust minRelayTxFee = false) : 0 ≤ txout.nValue := by
  have hthreshold : 0 ≤ txout.getDustThreshold minRelayTxFee := by
    rw [CTxOut.getDustThreshold]
    split
    · exact le_rfl
    · have hfee := getFee_nonneg minRelayTxFee (txout.getSerializeSize + 148)
      omega
  rw [CTxOut.isDust, decide_eq_false_iff_not] at h
  omega

theorem payeeOutputs_nonneg (hsplit : 1 ≤ req.nSplitBlock)
    (hamounts : req.paysWhole = true ∨ ∀ s ∈ req.vecSend, 0 ≤ s.2) {vout : List CTxOut}
    (h : req.payeeOutputs wallet = .ok vout) : ∀ txout ∈ vout, 0 ≤ txout.nValue := by
  rw [payeeOutputs] at h
  split at h
  · split at h
    · cases h
    · rename_i hdust
      cases h
      intro txout hmem
      exact nonneg_of_isDust (by simpa using fun h => hdust (List.any_eq_true.mpr ⟨txout, hmem, h⟩))
  · rename_i hwhole
    have hamounts := hamounts.resolve_left hwhole
    cases h
    intro txout hmem
    obtain ⟨s, hs, hmem⟩ := List.mem_flatMap.mp hmem
    obtain ⟨nValue, hvalue, rfl⟩ := List.mem_map.mp hmem
    exact splitAmount_nonneg ⟨hamounts s hs, (req.amounts s hs).2⟩ hsplit nValue hvalue

end PayRequest

end AnkerNode
