import AnkerNode.Script.Opcodes
import AnkerNode.Validation.CheckTransaction

namespace AnkerNode

open Checks

def WITNESS_SCALE_FACTOR : Nat := 4

def MAX_BLOCK_COST : Nat := 4000000

def MAX_BLOCK_SIGOPS_COST : Nat := 80000

namespace CTransaction

def witIsNull (tx : CTransaction) : Bool := tx.vtxinwit.all fun stack => stack.isEmpty

def witnessSize (stack : List (List UInt8)) : Nat :=
  getSizeOfCompactSize stack.length +
    (stack.map fun item => getSizeOfCompactSize item.length + item.length).sum

-- The wit that a transaction is left with once it was serialized with its witnesses.
def resizedWitness (tx : CTransaction) : List (List (List UInt8)) :=
  if tx.witIsNull then tx.vtxinwit
  else (List.range tx.vin.length).map fun i => tx.vtxinwit[i]?.getD []

def getSerializeSizeWithWitness (tx : CTransaction) : Nat :=
  tx.getSerializeSize +
    if tx.witIsNull then 0
    else 2 + ((List.range tx.vin.length).map fun i => witnessSize (tx.vtxinwit[i]?.getD [])).sum

def isFinal (tx : CTransaction) (nBlockHeight nBlockTime : Int) : Bool :=
  tx.nLockTime == 0 ||
    decide ((tx.nLockTime.toNat : Int) <
      if (tx.nLockTime.toNat : Int) < LOCKTIME_THRESHOLD then nBlockHeight else nBlockTime) ||
    tx.vin.all fun txin => txin.nSequence == 0xffffffff

end CTransaction

namespace CBlock

def headerSize (block : CBlock) : Nat := 80 + if 3 < block.nVersion then 32 else 0

-- SerializeTransaction asserts it of every transaction whose witness hash is asked for
def witnessesFit (block : CBlock) : Bool :=
  block.vtx.tail.all fun tx => decide (tx.vtxinwit.length ≤ tx.vin.length)

def serializeSizeWith (txSize : CTransaction → Nat) (block : CBlock) : Nat :=
  block.headerSize + getSizeOfCompactSize block.vtx.length + (block.vtx.map txSize).sum +
    if block.isProofOfStake then
      getSizeOfCompactSize block.vchBlockSig.length + block.vchBlockSig.length
    else 0

def getSerializeSize (block : CBlock) : Nat := block.serializeSizeWith CTransaction.getSerializeSize

def getBlockCost (block : CBlock) : Nat :=
  block.getSerializeSize * (WITNESS_SCALE_FACTOR - 1) +
    block.serializeSizeWith CTransaction.getSerializeSizeWithWitness

end CBlock

structure ParentIndex where
  nHeight : Int
  nTime : Nat
  versions : List Int
deriving DecidableEq, Repr

-- versions are the block versions from pstart back to the genesis block
def isSuperMajority (params : ChainParams) (minVersion : Int) (versions : List Int) (nRequired : Nat) :
    Bool :=
  decide (nRequired ≤ ((versions.take params.nToCheckBlockUpgradeMajority).filter
    fun nVersion => minVersion ≤ nVersion).length)

structure BlockContext where
  check : CheckContext
  checkProofOfWork : UInt256 → UInt32 → Bool
  adjustedTime : Int
  buildMerkleTree : List CTransaction → UInt256 × Bool
  swiftTxBlockFiltering : Bool
  mapLockedInputs : COutPoint → Option UInt256
  tip : Option (UInt256 × Int)
  blockHeight : UInt256 → Option Int
  isInitialBlockDownload : Bool
  isBlockPayeeValid : CBlock → Int → Bool
  getSigOpCount : CScript → Nat
  sporkSegwitActivation : Int
  blockWitnessMerkleRoot : CBlock → List UInt8
  hash256 : List UInt8 → List UInt8

namespace BlockContext

variable (ctx : BlockContext)

def params : ChainParams := ctx.check.params

def checkBlockHeader (block : CBlock) (fCheckPOW : Bool) : Except CValidationState Unit :=
  failIf (fCheckPOW && !ctx.checkProofOfWork block.hash block.nBits)
    (CValidationState.doS {} 50 REJECT_INVALID "high-hash")

def checkMerkleRoot (block : CBlock) : Except Failure Unit := do
  failIf (block.hashMerkleRoot != (ctx.buildMerkleTree block.vtx).1)
    (Failure.rejected (CValidationState.doS {} 100 REJECT_INVALID "bad-txnmrklroot" true))
  failIf (ctx.buildMerkleTree block.vtx).2
    (Failure.rejected (CValidationState.doS {} 100 REJECT_INVALID "bad-txns-duplicate" true))

def checkCoinBase (block : CBlock) : Except Failure Unit :=
  match block.vtx with
  | [] => .error (Failure.doS 100 REJECT_INVALID "bad-cb-missing")
  | tx :: vtx => do
    failIf (!tx.isCoinBase) (Failure.doS 100 REJECT_INVALID "bad-cb-missing")
    failIf (vtx.any CTransaction.isCoinBase) (Failure.doS 100 REJECT_INVALID "bad-cb-multiple")

def checkCoinStake (block : CBlock) : Except Failure Unit :=
  match block.vtx with
  | coinbase :: coinstake :: vtx => do
    failIf (match coinbase.vout with
      | [out] => !out.isEmpty
      | _ => true) (Failure.doS 100)
    failIf (!coinstake.isCoinStake) (Failure.doS 100)
    failIf (vtx.any CTransaction.isCoinStake) (Failure.doS 100)
  | _ => .error (Failure.doS 100)

def conflictsWithLock (tx : CTransaction) : Bool :=
  !tx.isCoinBase && tx.vin.any fun txin =>
    (ctx.mapLockedInputs txin.prevout).any fun txid => txid != tx.hash

def payeeHeight (tip : UInt256 × Int) (block : CBlock) : Int :=
  if tip.1 = block.hashPrevBlock then tip.2 + 1
  else ((ctx.blockHeight block.hashPrevBlock).map fun nHeight => nHeight + 1).getD 0

def checkPayee (block : CBlock) : Except Failure Unit :=
  match ctx.tip with
  | none => .ok ()
  | some tip =>
    let nHeight := ctx.payeeHeight tip block
    failIf (nHeight != 0 && !ctx.isInitialBlockDownload && !ctx.isBlockPayeeValid block nHeight)
      (Failure.doS 0 REJECT_INVALID "bad-cb-payee")

def getLegacySigOpCount (tx : CTransaction) : Nat :=
  (tx.vin.map fun txin => ctx.getSigOpCount txin.scriptSig).sum +
    (tx.vout.map fun txout => ctx.getSigOpCount txout.scriptPubKey).sum

-- CheckBlock calls CheckBlockHeader with IsProofOfWork and ignores fCheckPOW and fCheckSig
def checkBlock (block : CBlock) (fCheckMerkleRoot : Bool) : Except Failure Unit := do
  mapError (fun state => Failure.rejected (state.doS 100 REJECT_INVALID "bad-header" true))
    (ctx.checkBlockHeader block block.isProofOfWork)
  failIf (ctx.adjustedTime + (if block.isProofOfStake then 180 else 7200) < block.nTime)
    (Failure.rejected (CValidationState.invalid {} REJECT_INVALID "time-too-new"))
  onlyIf fCheckMerkleRoot (ctx.checkMerkleRoot block)
  failIf (block.vtx.isEmpty || decide (MAX_BLOCK_BASE_SIZE < block.vtx.length) ||
      decide (MAX_BLOCK_BASE_SIZE < block.getSerializeSize))
    (Failure.doS 100 REJECT_INVALID "bad-blk-length")
  checkCoinBase block
  onlyIf block.isProofOfStake (checkCoinStake block)
  onlyIf ctx.swiftTxBlockFiltering (failIf (block.vtx.any ctx.conflictsWithLock)
    (Failure.doS 0 REJECT_INVALID "conflicting-tx-ix"))
  ctx.checkPayee block
  failIf (decide (MAX_BLOCK_SIGOPS_COST <
      (block.vtx.map ctx.getLegacySigOpCount).sum * WITNESS_SCALE_FACTOR))
    (Failure.rejected (CValidationState.doS {} 100 REJECT_INVALID "bad-blk-sigops" true))

def checkBlockSerial (vBlockSerials : List Int) (spend : CoinSpend) : Except Failure (List Int) := do
  failIf (vBlockSerials.contains spend.coinSerialNumber) (Failure.doS 100)
  .ok (spend.coinSerialNumber :: vBlockSerials)

def contextualCheckTx (vBlockSerials : List Int) (tx : CTransaction) :
    Except Failure (List Int) := do
  ctx.check.checkTransaction tx true
  if tx.isZerocoinSpend then
    (zerocoinSpends ctx.check.lib tx).foldlM checkBlockSerial vBlockSerials
  else .ok vBlockSerials

def contextualCheckTxs (block : CBlock) (nHeight : Int) : Except Failure Unit :=
  if ctx.params.nZerocoinStartHeight < nHeight then do
    failIf (block.nVersion < ctx.params.nZerocoinHeaderVersion)
      (Failure.doS 50 REJECT_INVALID "block-version")
    let _ ← block.vtx.foldlM ctx.contextualCheckTx []
  else
    failIf (ctx.params.nZerocoinHeaderVersion ≤ block.nVersion)
      (Failure.doS 50 REJECT_INVALID "block-version")

def isFinalTx (tx : CTransaction) (nBlockHeight nBlockTime : Int) : Bool :=
  tx.isFinal (if nBlockHeight = 0 then (ctx.tip.map Prod.snd).getD (-1) else nBlockHeight)
    (if nBlockTime = 0 then ctx.adjustedTime else nBlockTime)

-- vtx[0] and vin[0] are read unchecked
def checkCoinBaseHeight (block : CBlock) (parent : Option ParentIndex) (nHeight : Int) :
    Except Failure Unit :=
  if 2 ≤ block.nVersion ∧ isSuperMajority ctx.params 2 ((parent.map ParentIndex.versions).getD [])
      ctx.params.nEnforceBlockUpgradeMajority = true then
    match block.vtx.head?.bind fun tx => tx.vin.head? with
    | none => .error Failure.assertion
    | some txin => failIf (!(CScript.pushInt64 nHeight).isPrefixOf txin.scriptSig)
        (Failure.doS 100 REJECT_INVALID "bad-cb-height")
  else .ok ()

def isWitnessCommitment (out : CTxOut) : Bool :=
  decide (38 ≤ out.scriptPubKey.length) &&
    out.scriptPubKey.take 6 == [OP_RETURN, 0x24, 0xaa, 0x21, 0xa9, 0xed]

def getWitnessCommitment (tx : CTransaction) : Option CTxOut :=
  (tx.vout.filter isWitnessCommitment).getLast?

def checkWitnessCommitment (block : CBlock) (coinstake : CTransaction) (out : CTxOut) :
    Except Failure Unit := do
  failIf (!block.witnessesFit) Failure.assertion
  match coinstake.resizedWitness with
  | [[nonce]] => do
    failIf (nonce.length != 32) (Failure.rejected
      (CValidationState.doS {} 100 REJECT_INVALID "bad-witness-nonce-size" true))
    failIf (ctx.hash256 (ctx.blockWitnessMerkleRoot block ++ nonce) !=
        (out.scriptPubKey.drop 6).take 32)
      (Failure.rejected (CValidationState.doS {} 100 REJECT_INVALID "bad-witness-merkle-match" true))
  | _ => .error (Failure.rejected
      (CValidationState.doS {} 100 REJECT_INVALID "bad-witness-nonce-size" true))

-- vtx[1] is read unchecked
def haveWitness (block : CBlock) (parent : Option ParentIndex) : Except Failure Bool :=
  if parent.any fun p => decide (ctx.sporkSegwitActivation < p.nTime) then do
    let coinstake ← fromOption Failure.assertion block.vtx[1]?
    match getWitnessCommitment coinstake with
    | none => .ok false
    | some out => do
      ctx.checkWitnessCommitment block coinstake out
      .ok true
  else .ok false

def contextualCheckBlock (block : CBlock) (parent : Option ParentIndex) : Except Failure Unit := do
  let nHeight := (parent.map fun p => p.nHeight + 1).getD 0
  ctx.contextualCheckTxs block nHeight
  failIf (block.vtx.any fun tx => !ctx.isFinalTx tx nHeight block.nTime)
    (Failure.doS 10 REJECT_INVALID "bad-txns-nonfinal")
  ctx.checkCoinBaseHeight block parent nHeight
  let fHaveWitness ← ctx.haveWitness block parent
  failIf (!fHaveWitness && block.vtx.any fun tx => !tx.witIsNull)
    (Failure.rejected (CValidationState.doS {} 100 REJECT_INVALID "unexpected-witness" true))
  failIf (decide (MAX_BLOCK_COST < block.getBlockCost))
    (Failure.doS 100 REJECT_INVALID "bad-blk-cost")

variable {ctx : BlockContext}

theorem contextualCheckBlock_eq_ok {block : CBlock} {parent : Option ParentIndex}
    (h : ctx.contextualCheckBlock block parent = .ok ()) :
    ctx.contextualCheckTxs block ((parent.map fun p => p.nHeight + 1).getD 0) = .ok () := by
  simp only [contextualCheckBlock, bind_eq_ok] at h
  obtain ⟨_, htxs, -⟩ := h
  exact htxs

theorem foldlM_contextualCheckTx {vtx : List CTransaction} {seen serials : List Int}
    (h : vtx.foldlM ctx.contextualCheckTx seen = .ok serials) :
    ∀ tx ∈ vtx, ctx.check.checkTransaction tx true = .ok () := by
  induction vtx generalizing seen with
  | nil => simp
  | cons tx vtx ih =>
    simp only [List.foldlM_cons, bind_eq_ok] at h
    obtain ⟨seen', htx, hrest⟩ := h
    simp only [contextualCheckTx, bind_eq_ok] at htx
    obtain ⟨_, hcheck, -⟩ := htx
    intro x hx
    rcases List.mem_cons.mp hx with rfl | hx
    · exact hcheck
    · exact ih hrest x hx

theorem wellFormed_of_contextualCheckTxs {block : CBlock} {nHeight : Int}
    (hstart : ctx.params.nZerocoinStartHeight < nHeight)
    (h : ctx.contextualCheckTxs block nHeight = .ok ()) :
    ∀ tx ∈ block.vtx, tx.WellFormed ctx.params := by
  rw [contextualCheckTxs, if_pos hstart] at h
  simp only [bind_eq_ok] at h
  obtain ⟨_, -, serials, hfold, -⟩ := h
  intro tx htx
  exact CheckContext.wellFormed_of_checkTransaction (foldlM_contextualCheckTx hfold tx htx)

def overpaid (nVersion : Int) : CBlock where
  hash := 3
  hashPrevBlock := 2
  nVersion := nVersion
  hashMerkleRoot := 1
  vtx := [{ hash := 1, vin := [⟨COutPoint.null, [0x51, 0x51], 0xffffffff⟩], vout := [⟨-1, [0x51]⟩] }]

def syncing (params : ChainParams) : BlockContext where
  check := { CheckContext.plainContext with params := params }
  checkProofOfWork := fun hash _ => decide (hash.toNat < 2 ^ 200)
  adjustedTime := 1000
  buildMerkleTree := fun vtx => ((vtx.map CTransaction.hash).headD 0, false)
  swiftTxBlockFiltering := true
  mapLockedInputs := fun _ => none
  tip := some (2, 49)
  blockHeight := fun _ => none
  isInitialBlockDownload := true
  isBlockPayeeValid := fun _ _ => false
  getSigOpCount := fun script => script.count 0xac
  sporkSegwitActivation := 4070908800
  blockWitnessMerkleRoot := fun _ => []
  hash256 := fun _ => []

theorem headerSize_le (block : CBlock) : block.headerSize ≤ 112 := by
  rw [CBlock.headerSize]
  split <;> decide

theorem checkBlock_overpaid (params : ChainParams) (nVersion : Int) (fCheckMerkleRoot : Bool) :
    (syncing params).checkBlock (overpaid nVersion) fCheckMerkleRoot = .ok () := by
  have hsize : (overpaid nVersion).getSerializeSize = (overpaid nVersion).headerSize + 64 := rfl
  have hheader := headerSize_le (overpaid nVersion)
  have hsigops : ((overpaid nVersion).vtx.map (syncing params).getLegacySigOpCount).sum = 0 := rfl
  have hpow : (syncing params).checkProofOfWork (overpaid nVersion).hash 0 = true := by
    simp [syncing, overpaid]
  simp only [checkBlock, bind_eq_ok]
  refine ⟨(), ?_, (), rfl, (), ?_, (), ?_, (), rfl, (), rfl, (), rfl, (), rfl, ?_⟩
  · rw [mapError_eq_ok, checkBlockHeader, failIf_eq_ok]
    exact (congrArg _ (congrArg _ hpow)).trans (Bool.and_false _)
  · cases fCheckMerkleRoot <;> rfl
  · rw [failIf_eq_ok, hsize]
    have hvtx : (overpaid nVersion).vtx.length = 1 := rfl
    simp only [MAX_BLOCK_BASE_SIZE, Bool.or_eq_false_iff, hvtx]
    exact ⟨⟨rfl, by decide⟩, decide_eq_false (by omega)⟩
  · rw [hsigops]
    decide

def beforeStart (nHeight : Int) : ParentIndex := ⟨nHeight - 1, 900, [1]⟩

theorem contextualCheckBlock_overpaid {params : ChainParams} {nVersion nHeight : Int}
    (hstart : nHeight ≤ params.nZerocoinStartHeight) (hheader : nVersion < params.nZerocoinHeaderVersion)
    (hversion : nVersion < 2) :
    (syncing params).contextualCheckBlock (overpaid nVersion) (some (beforeStart nHeight)) = .ok () := by
  have hcost : (overpaid nVersion).getBlockCost = (overpaid nVersion).headerSize * 4 + 256 := by
    have hbase : (overpaid nVersion).getSerializeSize = (overpaid nVersion).headerSize + 64 := rfl
    have hfull : (overpaid nVersion).serializeSizeWith CTransaction.getSerializeSizeWithWitness =
        (overpaid nVersion).headerSize + 64 := rfl
    rw [CBlock.getBlockCost, hbase, hfull, WITNESS_SCALE_FACTOR]
    omega
  have hsize := headerSize_le (overpaid nVersion)
  simp only [contextualCheckBlock, bind_eq_ok]
  refine ⟨(), ?_, (), rfl, (), ?_, false, ?_, (), rfl, ?_⟩
  · rw [contextualCheckTxs, if_neg, failIf_eq_ok, decide_eq_false_iff_not]
    · exact Int.not_le.mpr hheader
    · simp only [beforeStart, Option.map_some, Option.getD_some]
      have hparams : (syncing params).params = params := rfl
      rw [hparams]
      omega
  · rw [checkCoinBaseHeight, if_neg]
    intro hnot
    exact absurd hnot.1 (Int.not_le.mpr hversion)
  · rfl
  · rw [failIf_eq_ok, decide_eq_false_iff_not, hcost, MAX_BLOCK_COST]
    omega

theorem stored_wellFormed_iff (params : ChainParams) (nHeight : Int) :
    (∀ (ctx : BlockContext) (block : CBlock) (fCheckMerkleRoot : Bool) (parent : ParentIndex),
      ctx.params = params → parent.nHeight + 1 = nHeight →
      ctx.checkBlock block fCheckMerkleRoot = .ok () →
      ctx.contextualCheckBlock block (some parent) = .ok () →
        ∀ tx ∈ block.vtx, tx.WellFormed params) ↔
      params.nZerocoinStartHeight < nHeight := by
  constructor
  · intro hall
    apply Int.not_le.mp
    intro hle
    have hwf := hall (syncing params) (overpaid (min 1 (params.nZerocoinHeaderVersion - 1))) true
      (beforeStart nHeight) rfl (by simp [beforeStart]) (checkBlock_overpaid params _ true)
      (contextualCheckBlock_overpaid hle (by omega) (by omega)) _ (List.mem_singleton_self _)
    exact absurd (hwf.value _ (List.mem_singleton_self _)).1 (by decide)
  · rintro hstart ctx block fCheckMerkleRoot parent rfl rfl - hctx
    exact wellFormed_of_contextualCheckTxs hstart (contextualCheckBlock_eq_ok hctx)

def mainParams : ChainParams := { hashGenesisBlock := 0 }

theorem negative_output_stored :
    (syncing mainParams).checkBlock (overpaid 3) true = .ok () ∧
      (syncing mainParams).contextualCheckBlock (overpaid 3) (some (beforeStart 50)) = .ok () ∧
      (overpaid 3).vtx.map CTransaction.getValueOut = [none] := by
  decide +kernel

end BlockContext

end AnkerNode
