import AnkerNode.Lib.Table
import AnkerNode.Script.Script
import AnkerNode.Validation.CheckBlock

namespace AnkerNode

open Checks

def STANDARD_NOT_MANDATORY_VERIFY_FLAGS : Nat := 0x9fde

structure ZerocoinDB where
  spends : UInt256 → Option UInt256
  mints : UInt256 → Option UInt256

structure PrevIndex where
  hash : UInt256
  nHeight : Int
  nMoneySupply : Int
deriving DecidableEq, Repr

structure ConnectIndex where
  hash : UInt256
  hasHash : Bool := true
  nHeight : Int
  pprev : Option PrevIndex
deriving DecidableEq, Repr

structure PaymentContext where
  tip : Option (UInt256 × Int)
  blockHeight : UInt256 → Option Int
  isSynced : Bool
  superblocksActive : Bool
  budgetPaymentCycleBlocks : Int
  isBudgetPaymentBlock : Int → Bool
  exceedsWithDelta : Int → Int → Int → Bool

namespace PaymentContext

def nextHeight (ctx : PaymentContext) (tip : UInt256 × Int) (block : CBlock) : Int :=
  if tip.1 = block.hashPrevBlock then tip.2 + 1
  else
    match ctx.blockHeight block.hashPrevBlock with
    | some nHeight => nHeight + 1
    | none => 0

def isBlockValueValid (ctx : PaymentContext) (block : CBlock) (nExpectedValue nMinted : Int) :
    Bool :=
  match ctx.tip with
  | none => true
  | some tip =>
    let nHeight := ctx.nextHeight tip block
    if !ctx.isSynced then
      if Int.tmod nHeight ctx.budgetPaymentCycleBlocks < 100 then true
      else !ctx.exceedsWithDelta nHeight nMinted nExpectedValue
    else if !ctx.superblocksActive then decide (nMinted ≤ nExpectedValue)
    else if ctx.isBudgetPaymentBlock nHeight then true
    else !ctx.exceedsWithDelta nHeight nMinted nExpectedValue

structure ComparesAmounts (ctx : PaymentContext) : Prop where
  tip : ctx.tip.isSome = true
  synced : ctx.isSynced = true
  noSuperblocks : ctx.superblocksActive = false

theorem isBlockValueValid_iff {ctx : PaymentContext} {block : CBlock} {nExpectedValue nMinted : Int}
    (h : ctx.ComparesAmounts) :
    ctx.isBlockValueValid block nExpectedValue nMinted = true ↔ nMinted ≤ nExpectedValue := by
  obtain ⟨tip, htip⟩ := Option.isSome_iff_exists.mp h.tip
  simp [isBlockValueValid, htip, h.synced, h.noSuperblocks]

end PaymentContext

structure ScriptCheck where
  tx : CTransaction
  nIn : Nat
  txout : CTxOut
  nFlags : Nat
deriving DecidableEq, Repr

structure ConnectContext where
  params : ChainParams
  lib : ZerocoinLib
  checkBlock : CBlock → Except Failure Unit
  fAlreadyChecked : Bool
  fJustCheck : Bool
  totalBlocksEstimate : Int
  nScriptCheckThreads : Nat
  sporkZerocoinMaintenance : Int
  sporkSegwitActivation : Int
  isInitialBlockDownload : Bool
  fVerifyingBlocks : Bool
  fTxIndex : Bool
  isTransactionInChain : UInt256 → Option Int
  zerocoinDB : ZerocoinDB
  getTransactionSigOpCost : CTransaction → CCoinsView → Nat → Nat
  verifyScript : ScriptCheck → Option String
  payments : PaymentContext
  validateAccumulatorCheckpoint : CBlock → Bool
  writeUndo : CBlockUndo → Bool

structure ConnectState where
  view : CCoinsView
  nFees : Int := 0
  nValueIn : Int := 0
  nValueOut : Int := 0
  nSigOpsCost : Nat := 0
  vSpends : List (CoinSpend × UInt256) := []
  vMints : List (PublicCoin × UInt256) := []
  vtxundo : List CTxUndo := []
  vPosTxid : List UInt256 := []
  vChecks : List ScriptCheck := []

namespace ConnectContext

variable (ctx : ConnectContext)

def isSerialInBlockchain (bnSerial : Int) : Bool :=
  match ctx.zerocoinDB.spends (ctx.lib.hashSerial bnSerial) with
  | none => false
  | some txHash => (ctx.isTransactionInChain txHash).isSome

def contextualCheckZerocoinMint (coin : PublicCoin) (nHeight : Int) : Bool :=
  if decide (ctx.params.nZerocoinLastOldParams < nHeight) && !ctx.params.isTestNet then
    (ctx.zerocoinDB.mints (ctx.lib.hashPubCoin coin.value)).isNone
  else true

def hasValidSpendType (tx : CTransaction) (spend : CoinSpend) (nHeight : Int) : Bool :=
  if ctx.params.nZerocoinLastOldParams < nHeight then
    ctx.lib.hasValidSignature spend &&
      spend.spendType == (if tx.isCoinStake then SpendType.STAKE else SpendType.SPEND)
  else true

def contextualCheckZerocoinSpend (tx : CTransaction) (spend : CoinSpend) (nHeight : Int) : Bool :=
  ctx.hasValidSpendType tx spend nHeight && !ctx.isSerialInBlockchain spend.coinSerialNumber &&
    ctx.lib.hasValidSerial (decide (spend.version < PUBKEY_VERSION)) spend

def checkInputValue (view : CCoinsView) (nSpendHeight nValueIn : Int) (txin : CTxIn) :
    Except Failure Int := do
  let coins ← fromOption Failure.assertion (view.accessCoins txin.prevout.hash)
  failIf ((coins.fCoinBase || coins.fCoinStake) &&
      decide (nSpendHeight - coins.nHeight < ctx.params.nMaturity))
    (Failure.rejected (CValidationState.invalid {} REJECT_INVALID
      "bad-txns-premature-spend-of-coinbase"))
  let nValue := (coins.outAt txin.prevout.n.toNat).nValue
  failIf (!ctx.params.moneyRange nValue || !ctx.params.moneyRange (nValueIn + nValue))
    (Failure.doS 100 REJECT_INVALID "bad-txns-inputvalues-outofrange")
  .ok (nValueIn + nValue)

def checkFees (tx : CTransaction) (nValueIn : Int) : Except Failure Unit := do
  let nValueOut ← fromOption Failure.exception tx.getValueOut
  failIf (nValueIn < nValueOut) (Failure.doS 100 REJECT_INVALID "bad-txns-in-belowout")
  failIf (nValueIn - nValueOut < 0) (Failure.doS 100 REJECT_INVALID "bad-txns-fee-negative")
  failIf (!ctx.params.moneyRange (nValueIn - nValueOut))
    (Failure.doS 100 REJECT_INVALID "bad-txns-fee-outofrange")

def scriptFailure (check : ScriptCheck) (scriptError : String) : Failure :=
  if check.nFlags &&& STANDARD_NOT_MANDATORY_VERIFY_FLAGS ≠ 0 ∧
      ctx.verifyScript { check with
        nFlags := check.nFlags - (check.nFlags &&& STANDARD_NOT_MANDATORY_VERIFY_FLAGS) } = none then
    Failure.rejected (CValidationState.invalid {} REJECT_NONSTANDARD
      ("non-mandatory-script-verify-flag (" ++ scriptError ++ ")"))
  else
    Failure.doS 100 REJECT_INVALID ("mandatory-script-verify-flag-failed (" ++ scriptError ++ ")")

def runScriptCheck (check : ScriptCheck) : Except Failure Unit :=
  match ctx.verifyScript check with
  | none => .ok ()
  | some scriptError => .error (ctx.scriptFailure check scriptError)

def runScriptChecks : List ScriptCheck → Except Failure Unit
  | [] => .ok ()
  | check :: checks => do
    ctx.runScriptCheck check
    runScriptChecks checks

def scriptChecksFrom (view : CCoinsView) (tx : CTransaction) (flags : Nat) :
    Nat → List CTxIn → List ScriptCheck
  | _, [] => []
  | i, txin :: vin => ⟨tx, i, view.outAt txin.prevout, flags⟩ ::
      scriptChecksFrom view tx flags (i + 1) vin

def checkInputs (view : CCoinsView) (nSpendHeight : Int) (fScriptChecks : Bool) (flags : Nat)
    (tx : CTransaction) : Except Failure (List ScriptCheck) :=
  if !tx.spendsCoins then .ok []
  else do
    failIf (!view.haveInputs tx) (Failure.rejected (CValidationState.invalid {}))
    let nValueIn ← tx.vin.foldlM (ctx.checkInputValue view nSpendHeight) 0
    onlyIf (!tx.isCoinStake) (ctx.checkFees tx nValueIn)
    let vChecks := if fScriptChecks then scriptChecksFrom view tx flags 0 tx.vin else []
    onlyIf (ctx.nScriptCheckThreads == 0) (ctx.runScriptChecks vChecks)
    .ok (if ctx.nScriptCheckThreads == 0 then [] else vChecks)

def connectSpend (tx : CTransaction) (nHeight : Int) (st : ConnectState) (spend : CoinSpend) :
    Except Failure ConnectState := do
  failIf (!ctx.contextualCheckZerocoinSpend tx spend nHeight) (Failure.doS 100 REJECT_INVALID)
  .ok { st with
    nValueIn := st.nValueIn + spend.denomination.toInt * COIN
    vSpends := st.vSpends ++ [(spend, tx.hash)] }

def connectMint (tx : CTransaction) (nHeight : Int) (st : ConnectState) (out : CTxOut) :
    Except Failure ConnectState := do
  let coin ← fromOption ((Failure.doS 100).addDoS 100) (txOutToPublicCoin ctx.lib out)
  failIf (!ctx.contextualCheckZerocoinMint coin nHeight) (Failure.doS 100)
  .ok { st with vMints := st.vMints ++ [(coin, tx.hash)] }

def connectMints (tx : CTransaction) (nHeight : Int) (st : ConnectState) :
    Except Failure ConnectState :=
  if tx.isZerocoinMint then
    (tx.vout.filter CTxOut.isZerocoinMint).foldlM (ctx.connectMint tx nHeight) st
  else .ok st

def connectZerocoinSpend (tx : CTransaction) (nHeight : Int) (st : ConnectState) :
    Except Failure ConnectState := do
  failIf (match ctx.isTransactionInChain tx.hash with
    | none => false
    | some nHeightTx => !ctx.fVerifyingBlocks || decide (nHeightTx < nHeight))
    (Failure.doS 100 REJECT_INVALID "bad-txns-inputs-missingorspent")
  let st ← (zerocoinSpends ctx.lib tx).foldlM (ctx.connectSpend tx nHeight) st
  ctx.connectMints tx nHeight st

def connectOrdinary (tx : CTransaction) (nHeight nSpendHeight : Int) (fScriptChecks : Bool)
    (flags : Nat) (st : ConnectState) : Except Failure ConnectState := do
  failIf (!st.view.haveInputs tx)
    (Failure.doS 100 REJECT_INVALID "bad-txns-inputs-missingorspent")
  let st ← ctx.connectMints tx nHeight st
  let nIn ← fromOption Failure.assertion (st.view.getValueIn tx)
  let nOut ← fromOption Failure.exception tx.getValueOut
  let nSigOpsCost := st.nSigOpsCost + ctx.getTransactionSigOpCost tx st.view flags
  failIf (decide (MAX_BLOCK_SIGOPS_COST < nSigOpsCost))
    (Failure.doS 100 REJECT_INVALID "bad-blk-sigops")
  let vChecks ← ctx.checkInputs st.view nSpendHeight fScriptChecks flags tx
  .ok { st with
    nFees := st.nFees + (nIn - nOut)
    nValueIn := st.nValueIn + nIn
    nSigOpsCost := nSigOpsCost
    vChecks := st.vChecks ++ vChecks }

def inMaintenance (block : CBlock) : Bool :=
  decide (ctx.sporkZerocoinMaintenance < block.nTime) && !ctx.isInitialBlockDownload

def scriptFlags (block : CBlock) : Nat :=
  SCRIPT_VERIFY_P2SH + SCRIPT_VERIFY_DERSIG +
    if ctx.sporkSegwitActivation < block.nTime then
      SCRIPT_VERIFY_WITNESS + SCRIPT_VERIFY_CHECKLOCKTIMEVERIFY + SCRIPT_VERIFY_CHECKSEQUENCEVERIFY
    else 0

def scriptChecksActive (pindex : ConnectIndex) : Bool :=
  decide (ctx.totalBlocksEstimate ≤ pindex.nHeight)

def connectKind (block : CBlock) (pindex : ConnectIndex) (nSpendHeight : Int) (tx : CTransaction)
    (st : ConnectState) : Except Failure ConnectState :=
  if tx.isZerocoinSpend then ctx.connectZerocoinSpend tx pindex.nHeight st
  else if !tx.isCoinBase then
    ctx.connectOrdinary tx pindex.nHeight nSpendHeight (ctx.scriptChecksActive pindex)
      (ctx.scriptFlags block) st
  else .ok st

def recordOutputs (pindex : ConnectIndex) (first : Bool) (tx : CTransaction) (st : ConnectState) :
    Except Failure ConnectState := do
  let nOut ← fromOption Failure.exception tx.getValueOut
  let updated ← fromOption Failure.assertion (st.view.updateCoins tx pindex.nHeight)
  .ok { st with
    view := updated.1
    nValueOut := st.nValueOut + nOut
    vtxundo := if first then st.vtxundo else st.vtxundo ++ [updated.2]
    vPosTxid := if ctx.fTxIndex then st.vPosTxid ++ [tx.hash] else st.vPosTxid }

def connectTx (block : CBlock) (pindex : ConnectIndex) (nSpendHeight : Int) (first : Bool)
    (tx : CTransaction) (st : ConnectState) : Except Failure ConnectState := do
  failIf (ctx.inMaintenance block && tx.containsZerocoins) (Failure.doS 100)
  let st ← ctx.connectKind block pindex nSpendHeight tx st
  ctx.recordOutputs pindex first tx st

def connectTxs (block : CBlock) (pindex : ConnectIndex) (nSpendHeight : Int) :
    Bool → List CTransaction → ConnectState → Except Failure ConnectState
  | _, [], st => .ok st
  | first, tx :: vtx, st => do
    let st ← ctx.connectTx block pindex nSpendHeight first tx st
    connectTxs block pindex nSpendHeight false vtx st

def enforceBIP30 (pindex : ConnectIndex) : Bool :=
  !pindex.hasHash ||
    !((pindex.nHeight == 91842 && pindex.hash ==
        0x00000000000a4d0a398161ffc163c503763b1f4360639393e0e4c8e300e0caec) ||
      (pindex.nHeight == 91880 && pindex.hash ==
        0x00000000000743f190a18c5577a3c2d2a1f610ae9601ac046a38084ccb7cd721))

def overwrites (view : CCoinsView) (block : CBlock) : Bool :=
  block.vtx.any fun tx => (view.accessCoins tx.hash).any fun coins => !coins.isPruned

def writeCoinSpends (db : ZerocoinDB) (vSpends : List (CoinSpend × UInt256)) : ZerocoinDB :=
  { db with
    spends := Table.writeAll (fun p => ctx.lib.hashSerial p.1.coinSerialNumber) (fun p => some p.2)
      db.spends vSpends }

def writeCoinMints (db : ZerocoinDB) (vMints : List (PublicCoin × UInt256)) : ZerocoinDB :=
  { db with
    mints := Table.writeAll (fun p => ctx.lib.hashPubCoin p.1.value) (fun p => some p.2)
      db.mints vMints }

structure ConnectResult where
  view : CCoinsView
  nMoneySupply : Int
  nMint : Int
  blockundo : CBlockUndo
  zerocoinDB : ZerocoinDB
  vPosTxid : List UInt256

def commit (pindex : ConnectIndex) (pprev : PrevIndex) (st : ConnectState) :
    Except Failure ConnectResult :=
  let nMoneySupply := pprev.nMoneySupply + st.nValueOut - st.nValueIn
  let nMint := nMoneySupply - pprev.nMoneySupply + st.nFees
  if ctx.fJustCheck then
    .ok ⟨st.view, nMoneySupply, nMint, ⟨st.vtxundo⟩, ctx.zerocoinDB, []⟩
  else do
    failIf (!ctx.writeUndo ⟨st.vtxundo⟩)
      (Failure.rejected (CValidationState.error {} "Failed to write undo data"))
    .ok ⟨st.view.setBestBlock pindex.hash, nMoneySupply, nMint, ⟨st.vtxundo⟩,
      ctx.writeCoinMints (ctx.writeCoinSpends ctx.zerocoinDB st.vSpends) st.vMints, st.vPosTxid⟩

def checkBlockValue (getBlockValue : Int → Int) (block : CBlock) (pprev : PrevIndex)
    (st : ConnectState) : Except Failure Unit := do
  let nMint := pprev.nMoneySupply + st.nValueOut - st.nValueIn - pprev.nMoneySupply + st.nFees
  failIf (!ctx.payments.isBlockValueValid block (getBlockValue pprev.nHeight) nMint)
    (Failure.doS 100 REJECT_INVALID "bad-cb-amount")
  failIf (!ctx.validateAccumulatorCheckpoint block)
    (Failure.doS 100 REJECT_INVALID "bad-acc-checkpoint")
  failIf (st.vChecks.any fun check => (ctx.verifyScript check).isSome) (Failure.doS 100)

def checkPhase (block : CBlock) (pindex : ConnectIndex) : Except Failure Unit := do
  failIf (decide (pindex.nHeight ≤ ctx.params.nLastPOWBlock) && block.isProofOfStake)
    (Failure.doS 100 REJECT_INVALID "PoS-early")
  failIf (decide (ctx.params.nLastPOWBlock < pindex.nHeight) && block.isProofOfWork)
    (Failure.doS 100 REJECT_INVALID "PoW-ended")

def connectBlock (getBlockValue : Int → Int) (block : CBlock) (pindex : ConnectIndex)
    (view : CCoinsView) : Except Failure ConnectResult := do
  onlyIf (!ctx.fAlreadyChecked) (ctx.checkBlock block)
  failIf ((pindex.pprev.map PrevIndex.hash).getD 0 != view.hashBlock) Failure.assertion
  if block.hash = ctx.params.hashGenesisBlock then
    .ok ⟨view.setBestBlock pindex.hash, 0, 0, {}, ctx.zerocoinDB, []⟩
  else do
    ctx.checkPhase block pindex
    failIf (enforceBIP30 pindex && overwrites view block)
      (Failure.doS 100 REJECT_INVALID "bad-txns-BIP30")
    let pprev ← fromOption Failure.assertion pindex.pprev
    let st ← ctx.connectTxs block pindex (pprev.nHeight + 1) true block.vtx { view := view }
    ctx.checkBlockValue getBlockValue block pprev st
    ctx.commit pindex pprev st

end ConnectContext

end AnkerNode
