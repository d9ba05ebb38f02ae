import Mathlib.Algebra.Order.BigOperators.Group.List
import AnkerNode.Coins.View
import AnkerNode.Lib.Checks
import AnkerNode.Zerocoin.Coin

namespace AnkerNode

open Checks

def REJECT_INVALID : Nat := 0x10

def REJECT_NONSTANDARD : Nat := 0x40

inductive ValidationMode where
  | valid
  | invalid
  | error
deriving DecidableEq, Repr

structure CValidationState where
  mode : ValidationMode := ValidationMode.valid
  nDoS : Nat := 0
  strRejectReason : String := ""
  chRejectCode : Nat := 0
  corruptionPossible : Bool := false
deriving DecidableEq, Repr

namespace CValidationState

def doS (state : CValidationState) (level : Nat) (chRejectCode : Nat := 0)
    (strRejectReason : String := "") (corruption : Bool := false) : CValidationState :=
  let state := { state with
    chRejectCode := chRejectCode
    strRejectReason := strRejectReason
    corruptionPossible := corruption }
  if state.mode = ValidationMode.error then state
  else { state with nDoS := state.nDoS + level, mode := ValidationMode.invalid }

def invalid (state : CValidationState) (chRejectCode : Nat := 0) (strRejectReason : String := "") :
    CValidationState :=
  state.doS 0 chRejectCode strRejectReason

def error (state : CValidationState) (strRejectReason : String) : CValidationState :=
  { state with
    mode := ValidationMode.error
    strRejectReason :=
      if state.mode = ValidationMode.valid then strRejectReason else state.strRejectReason }

end CValidationState

inductive Failure where
  | rejected (state : CValidationState)
  | assertion
  | exception
deriving DecidableEq, Repr

def Failure.doS (level : Nat) (chRejectCode : Nat := 0) (strRejectReason : String := "") :
    Failure :=
  Failure.rejected (CValidationState.doS {} level chRejectCode strRejectReason)

def Failure.addDoS (level : Nat) : Failure → Failure
  | rejected state => rejected (state.doS level)
  | e => e

theorem defaultMaxMoneyOut_lt : 247500000 * COIN < 2 ^ 60 := by decide

structure ChainParams where
  nMaxMoneyOut : Int := 247500000 * COIN
  nMaturity : Int := 50
  nLastPOWBlock : Int := 500
  hashGenesisBlock : UInt256
  nEnforceBlockUpgradeMajority : Nat := 750
  nToCheckBlockUpgradeMajority : Nat := 1000
  nZerocoinStartHeight : Int := 101
  nZerocoinHeaderVersion : Int := 4
  nZerocoinLastOldParams : Int := 2147483646
  nMaxZerocoinSpendsPerTransaction : Int := 7
  isTestNet : Bool := false
  nMaxReorganizationDepth : Int := 100
  maxMoneyOut_lt : nMaxMoneyOut < 2 ^ 60 := by exact defaultMaxMoneyOut_lt

def ChainParams.moneyRange (params : ChainParams) (nValue : Int) : Bool :=
  decide (0 ≤ nValue) && decide (nValue ≤ params.nMaxMoneyOut)

def MAX_BLOCK_BASE_SIZE : Nat := 10000000

def getSizeOfCompactSize (nSize : Nat) : Nat :=
  if nSize < 253 then 1 else if nSize ≤ 0xffff then 3 else if nSize ≤ 0xffffffff then 5 else 9

def CTxIn.getSerializeSize (txin : CTxIn) : Nat :=
  36 + (getSizeOfCompactSize txin.scriptSig.length + txin.scriptSig.length) + 4

def CTxOut.getSerializeSize (txout : CTxOut) : Nat :=
  8 + (getSizeOfCompactSize txout.scriptPubKey.length + txout.scriptPubKey.length)

def CTransaction.getSerializeSize (tx : CTransaction) : Nat :=
  4 + (getSizeOfCompactSize tx.vin.length + (tx.vin.map CTxIn.getSerializeSize).sum) +
    (getSizeOfCompactSize tx.vout.length + (tx.vout.map CTxOut.getSerializeSize).sum) + 4

structure CheckContext where
  params : ChainParams
  lib : ZerocoinLib
  fVerifySignature : Bool
  readAccumulatorValue : UInt32 → Option Int

structure CTransaction.WellFormed (params : ChainParams) (tx : CTransaction) : Prop where
  vin : tx.vin ≠ []
  vout : tx.vout ≠ []
  value : ∀ o ∈ tx.vout, 0 ≤ o.nValue ∧ o.nValue ≤ params.nMaxMoneyOut
  total : params.moneyRange (tx.vout.map CTxOut.nValue).sum = true
  getValueOut : tx.getValueOut = some (tx.vout.map CTxOut.nValue).sum

namespace CheckContext

variable (ctx : CheckContext)

def checkZerocoinMint (txout : CTxOut) : Except Failure Unit :=
  match txOutToPublicCoin ctx.lib txout with
  | none => .error ((Failure.doS 100).addDoS 100)
  | some pubCoin => failIf (!ctx.lib.validate pubCoin) (Failure.doS 100)

structure SpendTotals where
  serials : List Int := []
  nTotalRedeemed : Int := 0
  fValidated : Bool := false
deriving DecidableEq, Repr

def checkSpendProof (newSpend : CoinSpend) : Except Failure Unit :=
  match ctx.readAccumulatorValue newSpend.accumulatorChecksum with
  | none => .error (Failure.doS 100)
  | some bnAccumulatorValue =>
    failIf (!ctx.lib.verify newSpend bnAccumulatorValue) (Failure.doS 100)

def checkSpendInput (hashTxOut : UInt256) (acc : SpendTotals) (txin : CTxIn) :
    Except Failure SpendTotals :=
  if !txin.scriptSig.isZerocoinSpend then .ok acc
  else do
    let newSpend := ctx.lib.txInToZerocoinSpend txin
    failIf (newSpend.denomination == CoinDenomination.ZQ_ERROR) (Failure.doS 100)
    failIf (newSpend.denomination.toInt != txin.nSequence.toNat) (Failure.doS 100)
    failIf (newSpend.txOutHash != hashTxOut) (Failure.doS 100)
    onlyIf ctx.fVerifySignature (ctx.checkSpendProof newSpend)
    failIf (acc.serials.contains newSpend.coinSerialNumber) (Failure.doS 100)
    .ok
      { serials := newSpend.coinSerialNumber :: acc.serials
        nTotalRedeemed := acc.nTotalRedeemed + newSpend.denomination.toAmount
        fValidated := true }

def checkZerocoinSpend (tx : CTransaction) : Except Failure Unit := do
  failIf (decide (2 < tx.vout.length) &&
    decide (2 < (tx.vout.filter fun out => !out.isZerocoinMint).length)) (Failure.doS 100)
  let totals ← tx.vin.foldlM (ctx.checkSpendInput (ctx.lib.hashTxOut tx.vout)) {}
  let nValueOut ← fromOption Failure.exception tx.getValueOut
  failIf (totals.nTotalRedeemed < nValueOut) (Failure.doS 100)
  failIf (!totals.fValidated) (Failure.rejected {})

def checkOutput (fZerocoinActive : Bool) (acc : Int × Int) (txout : CTxOut) :
    Except Failure (Int × Int) := do
  failIf (txout.nValue < 0) (Failure.doS 100 REJECT_INVALID "bad-txns-vout-negative")
  failIf (ctx.params.nMaxMoneyOut < txout.nValue)
    (Failure.doS 100 REJECT_INVALID "bad-txns-vout-toolarge")
  let nValueOut := acc.1 + txout.nValue
  failIf (!ctx.params.moneyRange nValueOut)
    (Failure.doS 100 REJECT_INVALID "bad-txns-txouttotal-toolarge")
  onlyIf (fZerocoinActive && txout.isZerocoinMint)
    (mapError (Failure.addDoS 100) (ctx.checkZerocoinMint txout))
  .ok (nValueOut, acc.2 +
    if fZerocoinActive && txout.scriptPubKey.isZerocoinSpend then 1 else 0)

def checkZerocoin (tx : CTransaction) (nZCSpendCount : Int) : Except Failure Unit := do
  failIf (ctx.params.nMaxZerocoinSpendsPerTransaction < nZCSpendCount) (Failure.doS 100)
  onlyIf tx.isZerocoinSpend do
    failIf (tx.vin.any fun txin => !txin.scriptSig.isZerocoinSpend) (Failure.doS 100)
    mapError (Failure.addDoS 100) (ctx.checkZerocoinSpend tx)

def checkDuplicateInputs : List COutPoint → List CTxIn → Except Failure Unit
  | _, [] => .ok ()
  | vInOutPoints, txin :: vin => do
    failIf (vInOutPoints.contains txin.prevout)
      (Failure.doS 100 REJECT_INVALID "bad-txns-inputs-duplicate")
    checkDuplicateInputs
      (if txin.scriptSig.isZerocoinSpend then vInOutPoints else txin.prevout :: vInOutPoints) vin

def checkShape (tx : CTransaction) (fZerocoinActive : Bool) : Except Failure Unit :=
  if tx.isCoinBase then
    match tx.vin with
    | [] => .ok ()
    | txin :: _ =>
      failIf (decide (txin.scriptSig.length < 2) || decide (150 < txin.scriptSig.length))
        (Failure.doS 100 REJECT_INVALID "bad-cb-length")
  else if fZerocoinActive && tx.isZerocoinSpend then
    failIf (decide (tx.vin.length < 1) ||
      decide (ctx.params.nMaxZerocoinSpendsPerTransaction < tx.vin.length))
      (Failure.doS 10 REJECT_INVALID "bad-zerocoinspend")
  else
    failIf (tx.vin.any fun txin =>
      txin.prevout.isNull && (fZerocoinActive && !txin.scriptSig.isZerocoinSpend))
      (Failure.doS 10 REJECT_INVALID "bad-txns-prevout-null")

def checkTransaction (tx : CTransaction) (fZerocoinActive : Bool) : Except Failure Unit := do
  failIf tx.vin.isEmpty (Failure.doS 10 REJECT_INVALID "bad-txns-vin-empty")
  failIf tx.vout.isEmpty (Failure.doS 10 REJECT_INVALID "bad-txns-vout-empty")
  failIf (decide (MAX_BLOCK_BASE_SIZE < tx.getSerializeSize))
    (Failure.doS 100 REJECT_INVALID "bad-txns-oversize")
  let totals ← tx.vout.foldlM (ctx.checkOutput fZerocoinActive) (0, 0)
  onlyIf fZerocoinActive (ctx.checkZerocoin tx totals.2)
  checkDuplicateInputs [] tx.vin
  ctx.checkShape tx fZerocoinActive

theorem checkDuplicateInputs_eq_ok {seen : List COutPoint} {vin : List CTxIn} :
    checkDuplicateInputs seen vin = .ok () ↔
      (∀ txin ∈ vin, txin.prevout ∉ seen) ∧
        vin.Pairwise fun a b => a.scriptSig.isZerocoinSpend = false → b.prevout ≠ a.prevout := by
  induction vin generalizing seen with
  | nil => simp [checkDuplicateInputs]
  | cons txin vin ih =>
    simp only [checkDuplicateInputs, bind_eq_ok, failIf_eq_ok, List.contains_eq_mem,
      decide_eq_false_iff_not, exists_const, ih, List.mem_cons, List.pairwise_cons,
      forall_eq_or_imp]
    cases hz : txin.scriptSig.isZerocoinSpend with
    | true => simp [and_assoc]
    | false =>
      simp only [Bool.false_eq_true, if_false, List.mem_cons, not_or, forall_const]
      constructor
      · rintro ⟨hs, hall, hp⟩
        exact ⟨⟨hs, fun t ht => (hall t ht).2⟩, fun t ht => (hall t ht).1, hp⟩
      · rintro ⟨⟨hs, hall⟩, hne, hp⟩
        exact ⟨hs, fun t ht => ⟨hne t ht, hall t ht⟩, hp⟩

variable {ctx}

theorem checkTransaction_eq_ok {tx : CTransaction} {fZerocoinActive : Bool}
    (h : ctx.checkTransaction tx fZerocoinActive = .ok ()) :
    tx.vin ≠ [] ∧ tx.vout ≠ [] ∧ tx.getSerializeSize ≤ MAX_BLOCK_BASE_SIZE ∧
      (∃ totals, tx.vout.foldlM (ctx.checkOutput fZerocoinActive) (0, 0) = .ok totals ∧
        (fZerocoinActive = true → ctx.checkZerocoin tx totals.2 = .ok ())) ∧
      checkDuplicateInputs [] tx.vin = .ok () ∧ ctx.checkShape tx fZerocoinActive = .ok () := by
  simp only [checkTransaction, bind_eq_ok, failIf_eq_ok, onlyIf_eq_ok, exists_const,
    List.isEmpty_eq_false_iff, decide_eq_false_iff_not, Nat.not_lt] at h
  obtain ⟨hvin, hvout, hsize, totals, hout, hzc, _, hdup, hshape⟩ := h
  exact ⟨hvin, hvout, hsize, ⟨totals, hout, hzc⟩, hdup, hshape⟩

theorem checkOutput_eq_ok {fZerocoinActive : Bool} {acc acc' : Int × Int} {txout : CTxOut}
    (h : ctx.checkOutput fZerocoinActive acc txout = .ok acc') :
    0 ≤ txout.nValue ∧ txout.nValue ≤ ctx.params.nMaxMoneyOut ∧
      acc'.1 = acc.1 + txout.nValue ∧ acc'.1 ≤ ctx.params.nMaxMoneyOut := by
  simp only [checkOutput, bind_eq_ok, failIf_eq_ok, exists_const, decide_eq_false_iff_not,
    Int.not_lt, ChainParams.moneyRange, Bool.not_eq_false', Bool.and_eq_true, decide_eq_true_eq,
    Except.ok.injEq] at h
  obtain ⟨hneg, hmax, hrange, -, -, rfl⟩ := h
  exact ⟨hneg, hmax, rfl, hrange.2⟩

-- The running sum never leaves MoneyRange, so the bound GetValueOut tests is never reached.
theorem foldlM_checkOutput {fZerocoinActive : Bool} {vout : List CTxOut} {acc totals : Int × Int}
    (h : vout.foldlM (ctx.checkOutput fZerocoinActive) acc = .ok totals) :
    (∀ o ∈ vout, 0 ≤ o.nValue ∧ o.nValue ≤ ctx.params.nMaxMoneyOut) ∧
      (acc.1 ≤ ctx.params.nMaxMoneyOut → totals.1 ≤ ctx.params.nMaxMoneyOut) ∧
      vout.foldlM CTransaction.addValueOut acc.1 = some totals.1 := by
  induction vout generalizing acc with
  | nil =>
    simp only [List.foldlM_nil, pure, Except.pure, Except.ok.injEq] at h
    subst h
    simp
  | cons o vout ih =>
    simp only [List.foldlM_cons, bind_eq_ok] at h
    obtain ⟨acc', ho, hrest⟩ := h
    obtain ⟨hneg, hmax, hsum, hle⟩ := checkOutput_eq_ok ho
    obtain ⟨hall, htotal, hfold⟩ := ih hrest
    have hlt := ctx.params.maxMoneyOut_lt
    have hadd : CTransaction.addValueOut acc.1 o = some acc'.1 := by
      rw [CTransaction.addValueOut, if_neg (by omega), if_neg (by rw [int64Max]; omega), hsum]
    refine ⟨?_, fun _ => htotal hle, ?_⟩
    · intro x hx
      rcases List.mem_cons.mp hx with rfl | hx
      · exact ⟨hneg, hmax⟩
      · exact hall x hx
    · rw [List.foldlM_cons, hadd]
      exact hfold

theorem wellFormed_of_checkTransaction {tx : CTransaction} {fZerocoinActive : Bool}
    (h : ctx.checkTransaction tx fZerocoinActive = .ok ()) : tx.WellFormed ctx.params := by
  obtain ⟨hvin, hvout, -, ⟨totals, hout, -⟩, -, -⟩ := checkTransaction_eq_ok h
  obtain ⟨hvalue, htotal, hfold⟩ := foldlM_checkOutput hout
  obtain ⟨o, ho⟩ := List.exists_mem_of_ne_nil _ hvout
  have hmax : 0 ≤ ctx.params.nMaxMoneyOut := (hvalue o ho).1.trans (hvalue o ho).2
  have hsum : totals.1 = (tx.vout.map CTxOut.nValue).sum := CTransaction.getValueOut_eq_sum hfold
  have hnonneg : 0 ≤ (tx.vout.map CTxOut.nValue).sum := by
    refine List.sum_nonneg ?_
    intro v hv
    obtain ⟨o, ho, rfl⟩ := List.mem_map.mp hv
    exact (hvalue o ho).1
  refine ⟨hvin, hvout, hvalue, ?_, ?_⟩
  · simp only [ChainParams.moneyRange, Bool.and_eq_true, decide_eq_true_eq]
    exact ⟨hnonneg, hsum ▸ htotal hmax⟩
  · exact hfold.trans (congrArg some hsum)

theorem pairwise_of_checkTransaction {tx : CTransaction} {fZerocoinActive : Bool}
    (h : ctx.checkTransaction tx fZerocoinActive = .ok ()) :
    tx.vin.Pairwise fun a b =>
      a.scriptSig.isZerocoinSpend = false → a.prevout ≠ b.prevout := by
  obtain ⟨-, -, -, -, hdup, -⟩ := checkTransaction_eq_ok h
  refine (checkDuplicateInputs_eq_ok.mp hdup).2.imp ?_
  intro a b hab hz heq
  exact hab hz heq.symm

theorem prevouts_nodup_iff {tx : CTransaction} {fZerocoinActive : Bool}
    (h : ctx.checkTransaction tx fZerocoinActive = .ok ()) :
    tx.prevouts.Nodup ↔
      tx.vin.Pairwise fun a b => a.scriptSig.isZerocoinSpend = true → a.prevout ≠ b.prevout := by
  rw [CTransaction.prevouts, List.Nodup, List.pairwise_map]
  constructor
  · intro hnd
    refine hnd.imp ?_
    intro a b hab _
    exact hab
  · intro hz
    refine (hz.and (pairwise_of_checkTransaction h)).imp ?_
    rintro a b ⟨hzc, hord⟩
    cases hs : a.scriptSig.isZerocoinSpend with
    | true => exact hzc hs
    | false => exact hord hs

theorem prevouts_nodup_of_isCoinBase {tx : CTransaction} (h : tx.isCoinBase = true) :
    tx.prevouts.Nodup := by
  simp only [CTransaction.isCoinBase] at h
  split at h
  · rename_i txin hvin
    simp [CTransaction.prevouts, hvin]
  · simp at h

theorem prevouts_nodup_of_updateCoins {view : CCoinsView} {tx : CTransaction} {nHeight : Int}
    {view' : CCoinsView} {txundo : CTxUndo} (hs : tx.spendsCoins = true)
    (h : view.updateCoins tx nHeight = some (view', txundo)) : tx.prevouts.Nodup := by
  obtain ⟨mid, hmid, -⟩ := CCoinsView.updateCoins_eq_some h
  rw [CCoinsView.markInputsSpent, hs] at hmid
  exact (CCoinsView.not_isNull_of_spendInputs hmid).1

theorem checkTransaction_distinct_inputs (ctx : CheckContext) (tx : CTransaction)
    (h : ctx.checkTransaction tx true = .ok ()) (hz : tx.isZerocoinSpend = false) :
    (tx.prevouts.Nodup ↔
      tx.vin.Pairwise fun a b =>
        a.scriptSig.isZerocoinSpend = true → a.prevout ≠ b.prevout) ∧
    ∀ (view : CCoinsView) (nHeight : Int), view.haveInputs tx = true →
      ((∃ r, view.updateCoins tx nHeight = some r) ↔
        tx.vin.Pairwise fun a b =>
          a.scriptSig.isZerocoinSpend = true → a.prevout ≠ b.prevout) := by
  refine ⟨prevouts_nodup_iff h, fun view nHeight hin => ?_⟩
  rw [← prevouts_nodup_iff h]
  refine ⟨?_, fun hnd => CCoinsView.updateCoins_isSome (fun _ => hnd) hin⟩
  rintro ⟨⟨view', txundo⟩, hr⟩
  cases hcb : tx.isCoinBase with
  | true => exact prevouts_nodup_of_isCoinBase hcb
  | false => exact prevouts_nodup_of_updateCoins (by simp [CTransaction.spendsCoins, hcb, hz]) hr

def plainLib : ZerocoinLib where
  txInToZerocoinSpend := fun txin =>
    { coinSerialNumber := txin.nSequence.toNat
      denomination := CoinDenomination.ofInt txin.nSequence.toNat
      txOutHash := 0
      accumulatorChecksum := 0
      version := 1
      spendType := SpendType.SPEND }
  setvch := fun vch => vch.foldr (fun b n => b.toNat + 256 * n) 0
  validate := fun _ => true
  hasValidSignature := fun _ => false
  hasValidSerial := fun _ _ => false
  verify := fun _ _ => false
  hashTxOut := fun _ => 0
  hashSerial := BitVec.ofInt 256
  hashPubCoin := BitVec.ofInt 256

def plainContext : CheckContext where
  params := { hashGenesisBlock := 0 }
  lib := plainLib
  fVerifySignature := true
  readAccumulatorValue := fun _ => none

def twoInputs (scriptSig : CScript) (n m : UInt32) : CTransaction where
  hash := 9
  vin := [⟨⟨5, n⟩, scriptSig, 0xffffffff⟩, ⟨⟨5, m⟩, scriptSig, 0xffffffff⟩]
  vout := [⟨3, [0x51]⟩]

def twoCoins : CCoinsView where
  coins := fun txid =>
    if txid = 5 then some { vout := [⟨2, [0x51]⟩, ⟨2, [0x51]⟩], nHeight := 7, nVersion := 1 } else none
  hashBlock := 1

theorem distinct_inputs_ordinary :
    (twoInputs [] 0 1).prevouts.Nodup ∧
      ∃ r, twoCoins.updateCoins (twoInputs [] 0 1) 8 = some r := by
  have h := checkTransaction_distinct_inputs plainContext (twoInputs [] 0 1)
    (by decide) (by decide)
  exact ⟨h.1.mpr (by decide), (h.2 twoCoins 8 (by decide)).mpr (by decide)⟩

theorem zerocoin_marked_duplicate_inputs :
    plainContext.checkTransaction (twoInputs [OP_ZEROCOINSPEND] 0 0) true = .ok () ∧
      (twoInputs [OP_ZEROCOINSPEND] 0 0).isZerocoinSpend = false ∧
      ¬ (twoInputs [OP_ZEROCOINSPEND] 0 0).prevouts.Nodup ∧
      twoCoins.haveInputs (twoInputs [OP_ZEROCOINSPEND] 0 0) = true ∧
      (twoCoins.updateCoins (twoInputs [OP_ZEROCOINSPEND] 0 0) 8).isNone = true := by
  decide

end CheckContext

end AnkerNode
