import AnkerNode.Budget.BlockChecks
import AnkerNode.Validation.CheckBlock

namespace AnkerNode

open Checks

-- how a check fails, with the reads beyond the list of transactions told apart
inductive ReadFailure where
  | failed (e : Failure)
  | vtxOutOfRange
deriving DecidableEq, Repr

namespace PaymentNode

variable (node : PaymentNode)

def payeeVerdict (hist : PaymentHistory) (vout : List CTxOut) (nBlockHeight : Int) : Bool :=
  if node.fSuperblocks && node.budget.isBudgetPaymentBlock node.budgetEnv nBlockHeight then
    node.verdict vout nBlockHeight
      (node.budget.isTransactionValid node.budgetEnv hist vout nBlockHeight).2
  else node.checkMasternodePayee vout nBlockHeight

def payeeIndex (nBlockHeight : Int) : Nat :=
  if node.subsidyEnv.nLastPOWBlock < nBlockHeight then 1 else 0

-- `IsBlockPayeeValid`, with its read of the list of transactions
def readPayee (hist : PaymentHistory) (block : CBlock) (nBlockHeight : Int) :
    Except ReadFailure Bool :=
  if !node.budgetEnv.fSynced then .ok true
  else
    match block.vtx[node.payeeIndex nBlockHeight]? with
    | none => .error .vtxOutOfRange
    | some txNew => .ok (node.payeeVerdict hist txNew.vout nBlockHeight)

variable {node} {hist : PaymentHistory} {block : CBlock} {nBlockHeight : Int}

theorem readPayee_eq (h : node.payeeIndex nBlockHeight < block.vtx.length) :
    node.readPayee hist block nBlockHeight =
      .ok (node.isBlockPayeeValid hist block nBlockHeight).2 := by
  have htx : node.txNew block nBlockHeight = block.vtx[node.payeeIndex nBlockHeight].vout := by
    rw [txNew]
    simp only [payeeIndex] at h ⊢
    split at h <;> rename_i hpow
    · simp [hpow, List.getElem?_eq_getElem h]
    · simp [hpow, List.getElem?_eq_getElem h]
  rw [readPayee, isBlockPayeeValid, htx, List.getElem?_eq_getElem h]
  cases node.budgetEnv.fSynced with
  | false => rfl
  | true =>
    simp only [Bool.not_true, Bool.false_eq_true, if_false, payeeVerdict]
    split <;> rfl

theorem avoids_readPayee_iff :
    Avoids .vtxOutOfRange (node.readPayee hist block nBlockHeight) ↔
      (node.budgetEnv.fSynced = true → node.payeeIndex nBlockHeight < block.vtx.length) := by
  rw [readPayee]
  cases node.budgetEnv.fSynced with
  | false => simp [avoids_ok]
  | true =>
    simp only [Bool.not_true, Bool.false_eq_true, if_false, forall_const]
    rcases Nat.lt_or_ge (node.payeeIndex nBlockHeight) block.vtx.length with hin | hout
    · rw [List.getElem?_eq_getElem hin]
      exact iff_of_true avoids_ok hin
    · rw [List.getElem?_eq_none hout]
      exact iff_of_false (by simp [Avoids]) (by omega)

end PaymentNode

namespace BlockContext

variable (ctx : BlockContext) (node : PaymentNode) (hist : PaymentHistory)

-- what `CheckBlock` does before it comes to the payees
def checkBeforePayee (block : CBlock) (fCheckMerkleRoot : Bool) : Except Failure Unit := do
  mapError (fun state => Failure.rejected (state.doS 100 REJECT_INVALID "bad-header" true))
    (ctx.checkBlockHeader block block.isProofOfWork)
  failIf (ctx.adjustedTime + (if block.isProofOfStake then 180 else 7200) < block.nTime)
    (Failure.rejected (CValidationState.invalid {} REJECT_INVALID "time-too-new"))
  onlyIf fCheckMerkleRoot (ctx.checkMerkleRoot block)
  failIf (block.vtx.isEmpty || decide (MAX_BLOCK_BASE_SIZE < block.vtx.length) ||
      decide (MAX_BLOCK_BASE_SIZE < block.getSerializeSize))
    (Failure.doS 100 REJECT_INVALID "bad-blk-length")
  checkCoinBase block
  onlyIf block.isProofOfStake (checkCoinStake block)
  onlyIf ctx.swiftTxBlockFiltering (failIf (block.vtx.any ctx.conflictsWithLock)
    (Failure.doS 0 REJECT_INVALID "conflicting-tx-ix"))

def checkSigOps (block : CBlock) : Except Failure Unit :=
  failIf (decide (MAX_BLOCK_SIGOPS_COST <
      (block.vtx.map ctx.getLegacySigOpCount).sum * WITNESS_SCALE_FACTOR))
    (Failure.rejected (CValidationState.doS {} 100 REJECT_INVALID "bad-blk-sigops" true))

-- the height the payees are looked up at, when they are
def payeeCheckHeight (block : CBlock) : Option Int :=
  ctx.tip.bind fun tip =>
    let nHeight := ctx.payeeHeight tip block
    if nHeight != 0 && !ctx.isInitialBlockDownload then some nHeight else none

def readCheckPayee (block : CBlock) : Except ReadFailure Unit :=
  match ctx.payeeCheckHeight block with
  | none => .ok ()
  | some nHeight => do
    let fValid ← node.readPayee hist block nHeight
    failIf (!fValid) (.failed (Failure.doS 0 REJECT_INVALID "bad-cb-payee"))

def readCheckBlock (block : CBlock) (fCheckMerkleRoot : Bool) : Except ReadFailure Unit := do
  mapError .failed (ctx.checkBeforePayee block fCheckMerkleRoot)
  ctx.readCheckPayee node hist block
  mapError .failed (ctx.checkSigOps block)

def childHeight (parent : Option ParentIndex) : Int := (parent.map fun p => p.nHeight + 1).getD 0

-- what `ContextualCheckBlock` does before it comes to the witness commitment
def checkBeforeCommitment (block : CBlock) (parent : Option ParentIndex) : Except Failure Unit := do
  let nHeight := childHeight parent
  ctx.contextualCheckTxs block nHeight
  failIf (block.vtx.any fun tx => !ctx.isFinalTx tx nHeight block.nTime)
    (Failure.doS 10 REJECT_INVALID "bad-txns-nonfinal")
  ctx.checkCoinBaseHeight block parent nHeight

def looksForCommitment (parent : Option ParentIndex) : Bool :=
  parent.any fun p => decide (ctx.sporkSegwitActivation < p.nTime)

def readHaveWitness (block : CBlock) (parent : Option ParentIndex) : Except ReadFailure Bool :=
  if ctx.looksForCommitment parent then
    match block.vtx[1]? with
    | none => .error .vtxOutOfRange
    | some coinstake =>
      match getWitnessCommitment coinstake with
      | none => .ok false
      | some out => mapError .failed ((ctx.checkWitnessCommitment block coinstake out).map fun _ => true)
  else .ok false

def readContextualCheckBlock (block : CBlock) (parent : Option ParentIndex) :
    Except ReadFailure Unit := do
  mapError .failed (ctx.checkBeforeCommitment block parent)
  let fHaveWitness ← ctx.readHaveWitness block parent
  failIf (!fHaveWitness && block.vtx.any fun tx => !tx.witIsNull) (.failed (Failure.rejected
    (CValidationState.doS {} 100 REJECT_INVALID "unexpected-witness" true)))
  failIf (decide (MAX_BLOCK_COST < block.getBlockCost))
    (.failed (Failure.doS 100 REJECT_INVALID "bad-blk-cost"))

-- A block that gets as far as its payees, at a height above the last block with proof of work.
structure ReadsPayee (block : CBlock) (fCheckMerkleRoot : Bool) : Prop where
  work : block.isProofOfWork = true → ctx.checkProofOfWork block.hash block.nBits = true
  time : block.nTime ≤ ctx.adjustedTime + if block.isProofOfStake then 180 else 7200
  merkleRoot : fCheckMerkleRoot = true →
    ctx.buildMerkleTree block.vtx = (block.hashMerkleRoot, false)
  length : block.vtx.length ≤ MAX_BLOCK_BASE_SIZE
  size : block.getSerializeSize ≤ MAX_BLOCK_BASE_SIZE
  coinBase : checkCoinBase block = .ok ()
  coinStake : block.isProofOfStake = true → checkCoinStake block = .ok ()
  unlocked : ctx.swiftTxBlockFiltering = true → block.vtx.any ctx.conflictsWithLock = false
  synced : node.budgetEnv.fSynced = true
  height : ∃ nHeight, ctx.payeeCheckHeight block = some nHeight ∧
    node.subsidyEnv.nLastPOWBlock < nHeight

-- A block that gets as far as its witness commitment, on a parent above the spork.
structure ReadsCommitment (block : CBlock) (parent : Option ParentIndex) : Prop where
  txs : ctx.contextualCheckTxs block (childHeight parent) = .ok ()
  final : ∀ tx ∈ block.vtx, ctx.isFinalTx tx (childHeight parent) block.nTime = true
  height : ctx.checkCoinBaseHeight block parent (childHeight parent) = .ok ()
  segwit : ctx.looksForCommitment parent = true

variable {ctx node hist} {block : CBlock} {fCheckMerkleRoot : Bool} {parent : Option ParentIndex}

theorem checkBlockHeader_eq_ok {fCheckPOW : Bool} :
    ctx.checkBlockHeader block fCheckPOW = .ok () ↔
      (fCheckPOW = true → ctx.checkProofOfWork block.hash block.nBits = true) := by
  rw [checkBlockHeader, failIf_eq_ok]
  cases fCheckPOW <;> simp

theorem checkMerkleRoot_eq_ok : ctx.checkMerkleRoot block = .ok () ↔
    ctx.buildMerkleTree block.vtx = (block.hashMerkleRoot, false) := by
  rw [checkMerkleRoot, seq_eq_ok]
  simp only [failIf_eq_ok, bne_eq_false_iff_eq, Prod.ext_iff]
  exact and_congr_left fun _ => eq_comm

theorem ne_nil_of_checkCoinBase (h : checkCoinBase block = .ok ()) : block.vtx ≠ [] := by
  intro hnil
  simp [checkCoinBase, hnil] at h

theorem readsPayee_iff : ctx.ReadsPayee node block fCheckMerkleRoot ↔
    ctx.checkBeforePayee block fCheckMerkleRoot = .ok () ∧ node.budgetEnv.fSynced = true ∧
      ∃ nHeight, ctx.payeeCheckHeight block = some nHeight ∧
        node.subsidyEnv.nLastPOWBlock < nHeight := by
  simp only [checkBeforePayee, seq_eq_ok, mapError_eq_ok, checkBlockHeader_eq_ok,
    failIf_eq_ok, onlyIf_eq_ok, checkMerkleRoot_eq_ok, Bool.or_eq_false_iff,
    decide_eq_false_iff_not, not_lt, List.isEmpty_eq_false_iff]
  constructor
  · intro h
    exact ⟨⟨h.work, h.time, h.merkleRoot, ⟨⟨ne_nil_of_checkCoinBase h.coinBase, h.length⟩, h.size⟩,
      h.coinBase, h.coinStake, h.unlocked⟩, h.synced, h.height⟩
  · rintro ⟨⟨hwork, htime, hroot, ⟨⟨-, hlength⟩, hsize⟩, hbase, hstake, hunlocked⟩, hsynced, hheight⟩
    exact ⟨hwork, htime, hroot, hlength, hsize, hbase, hstake, hunlocked, hsynced, hheight⟩

theorem readsCommitment_iff : ctx.ReadsCommitment block parent ↔
    ctx.checkBeforeCommitment block parent = .ok () ∧ ctx.looksForCommitment parent = true := by
  simp only [checkBeforeCommitment, seq_eq_ok, failIf_eq_ok, List.any_eq_false,
    Bool.not_eq_true, Bool.not_eq_false']
  constructor
  · exact fun h => ⟨⟨h.txs, h.final, h.height⟩, h.segwit⟩
  · rintro ⟨⟨htxs, hfinal, hheight⟩, hsegwit⟩
    exact ⟨htxs, hfinal, hheight, hsegwit⟩

theorem checkPayee_eq : ctx.checkPayee block =
    match ctx.payeeCheckHeight block with
    | none => .ok ()
    | some nHeight => failIf (!ctx.isBlockPayeeValid block nHeight)
        (Failure.doS 0 REJECT_INVALID "bad-cb-payee") := by
  rw [checkPayee, payeeCheckHeight]
  cases ctx.tip with
  | none => rfl
  | some tip =>
    simp only [Option.bind_some]
    cases ctx.payeeHeight tip block != 0 && !ctx.isInitialBlockDownload <;> rfl

-- Where the reads are in range, the checks are those of the model without them.
theorem readCheckBlock_eq (h : ∀ nHeight, ctx.payeeCheckHeight block = some nHeight →
      node.payeeIndex nHeight < block.vtx.length) :
    ctx.readCheckBlock node hist block fCheckMerkleRoot = mapError .failed
      (BlockContext.checkBlock
        { ctx with isBlockPayeeValid := fun b nHeight => (node.isBlockPayeeValid hist b nHeight).2 }
        block fCheckMerkleRoot) := by
  have hsplit : ∀ ctx : BlockContext, ctx.checkBlock block fCheckMerkleRoot = (do
      ctx.checkBeforePayee block fCheckMerkleRoot
      ctx.checkPayee block
      ctx.checkSigOps block) := by
    intro ctx
    simp only [checkBlock, checkBeforePayee, checkSigOps, bind_assoc]
  have hpayee : ctx.readCheckPayee node hist block = mapError .failed (BlockContext.checkPayee
      { ctx with isBlockPayeeValid := fun b nHeight => (node.isBlockPayeeValid hist b nHeight).2 }
      block) := by
    rw [checkPayee_eq, readCheckPayee]
    have hheight : payeeCheckHeight { ctx with isBlockPayeeValid := fun b nHeight =>
        (node.isBlockPayeeValid hist b nHeight).2 } block = ctx.payeeCheckHeight block := rfl
    rw [hheight]
    cases hcheck : ctx.payeeCheckHeight block with
    | none => rfl
    | some nHeight =>
      simp only [PaymentNode.readPayee_eq (h nHeight hcheck), mapError_failIf]
      rfl
  rw [hsplit, readCheckBlock, hpayee]
  simp only [mapError_bind]
  rfl

theorem readContextualCheckBlock_eq
    (h : ctx.looksForCommitment parent = true → 1 < block.vtx.length) :
    ctx.readContextualCheckBlock block parent =
      mapError .failed (ctx.contextualCheckBlock block parent) := by
  have hwitness : ctx.readHaveWitness block parent =
      mapError .failed (ctx.haveWitness block parent) := by
    rw [readHaveWitness, haveWitness]
    cases hlooks : ctx.looksForCommitment parent with
    | false =>
      rw [looksForCommitment] at hlooks
      rw [hlooks]
      rfl
    | true =>
      have hlength := h hlooks
      rw [looksForCommitment] at hlooks
      rw [hlooks, List.getElem?_eq_getElem hlength]
      simp only [if_true]
      cases hcommitment : getWitnessCommitment block.vtx[1] with
      | none => simp [fromOption, hcommitment, bind, Except.bind, mapError]
      | some out =>
        simp only [fromOption, hcommitment, bind, Except.bind]
        cases ctx.checkWitnessCommitment block block.vtx[1] out <;> rfl
  simp only [readContextualCheckBlock, contextualCheckBlock, checkBeforeCommitment, childHeight,
    hwitness, mapError_bind, mapError_failIf, bind_assoc]

theorem avoids_checkPayee_iff :
    Avoids .vtxOutOfRange (ctx.readCheckPayee node hist block) ↔
      ∀ nHeight, ctx.payeeCheckHeight block = some nHeight → node.budgetEnv.fSynced = true →
        node.payeeIndex nHeight < block.vtx.length := by
  rw [readCheckPayee]
  cases hcheck : ctx.payeeCheckHeight block with
  | none => simp [avoids_ok]
  | some nHeight =>
    have hverdict : ∀ fValid : Bool, Avoids ReadFailure.vtxOutOfRange
        (failIf (!fValid) (.failed (Failure.doS 0 REJECT_INVALID "bad-cb-payee"))) :=
      fun fValid => avoids_failIf (by simp) _
    simp only [avoids_bind_iff, hverdict, implies_true, and_true, Option.some.injEq,
      forall_eq']
    exact PaymentNode.avoids_readPayee_iff

-- With one transaction the payees are out of range just above the last block with proof of work.
theorem readCheckBlock_avoids_iff (hne : block.vtx ≠ []) :
    Avoids .vtxOutOfRange (ctx.readCheckBlock node hist block fCheckMerkleRoot) ↔
      2 ≤ block.vtx.length ∨ ¬ctx.ReadsPayee node block fCheckMerkleRoot := by
  have hpos := List.length_pos_of_ne_nil hne
  have hbefore : Avoids ReadFailure.vtxOutOfRange
      (mapError .failed (ctx.checkBeforePayee block fCheckMerkleRoot)) :=
    avoids_mapError (by simp) _
  have hafter : Avoids ReadFailure.vtxOutOfRange (mapError .failed (ctx.checkSigOps block)) :=
    avoids_mapError (by simp) _
  simp only [readCheckBlock, avoids_bind_iff, hbefore, hafter, implies_true, and_true, true_and,
    mapError_eq_ok, avoids_checkPayee_iff]
  constructor
  · intro h
    rcases Nat.lt_or_ge block.vtx.length 2 with hshort | hlong
    · refine Or.inr fun hreads => ?_
      obtain ⟨hpassed, hsynced, nHeight, hheight, hpow⟩ := readsPayee_iff.mp hreads
      have hindex := h () hpassed nHeight hheight hsynced
      rw [PaymentNode.payeeIndex, if_pos hpow] at hindex
      omega
    · exact Or.inl hlong
  · intro h u hpassed nHeight hheight hsynced
    rw [PaymentNode.payeeIndex]
    split
    · rename_i hpow
      rcases h with hlong | hnot
      · exact hlong
      · exact absurd (readsPayee_iff.mpr ⟨hpassed, hsynced, nHeight, hheight, hpow⟩) hnot
    · exact hpos

theorem avoids_haveWitness_iff :
    Avoids .vtxOutOfRange (ctx.readHaveWitness block parent) ↔
      (ctx.looksForCommitment parent = true → 2 ≤ block.vtx.length) := by
  rw [readHaveWitness]
  cases ctx.looksForCommitment parent with
  | false => simp [avoids_ok]
  | true =>
    simp only [if_true, forall_const]
    rcases Nat.lt_or_ge 1 block.vtx.length with hlong | hshort
    · simp only [List.getElem?_eq_getElem hlong]
      refine iff_of_true ?_ hlong
      cases getWitnessCommitment block.vtx[1] with
      | none => exact avoids_ok
      | some out => exact avoids_mapError (fun _ => ReadFailure.noConfusion) _
    · rw [List.getElem?_eq_none hshort]
      exact iff_of_false (by simp [Avoids]) (by omega)

theorem readContextualCheckBlock_avoids_iff :
    Avoids .vtxOutOfRange (ctx.readContextualCheckBlock block parent) ↔
      2 ≤ block.vtx.length ∨ ¬ctx.ReadsCommitment block parent := by
  have hbefore : Avoids ReadFailure.vtxOutOfRange
      (mapError .failed (ctx.checkBeforeCommitment block parent)) :=
    avoids_mapError (by simp) _
  have hafter : ∀ cond e, Avoids ReadFailure.vtxOutOfRange (failIf cond (.failed e)) :=
    fun cond e => avoids_failIf (by simp) cond
  simp only [readContextualCheckBlock, avoids_bind_iff, hbefore, hafter, implies_true, and_true,
    true_and, mapError_eq_ok, avoids_haveWitness_iff]
  constructor
  · intro h
    by_cases hlong : 2 ≤ block.vtx.length
    · exact Or.inl hlong
    · refine Or.inr fun hreads => ?_
      obtain ⟨hpassed, hsegwit⟩ := readsCommitment_iff.mp hreads
      exact hlong (h () hpassed hsegwit)
  · intro h u hpassed hsegwit
    exact h.resolve_right (not_not.mpr (readsCommitment_iff.mpr ⟨hpassed, hsegwit⟩))

theorem second_tx_reads_iff (ctx : BlockContext) (node : PaymentNode) (hist : PaymentHistory)
    (block : CBlock) (fCheckMerkleRoot : Bool) (parent : Option ParentIndex) (hne : block.vtx ≠ []) :
    Avoids .vtxOutOfRange (ctx.readCheckBlock node hist block fCheckMerkleRoot) ∧
        Avoids .vtxOutOfRange (ctx.readContextualCheckBlock block parent) ↔
      2 ≤ block.vtx.length ∨
        ¬ctx.ReadsPayee node block fCheckMerkleRoot ∧ ¬ctx.ReadsCommitment block parent := by
  rw [readCheckBlock_avoids_iff hne, readContextualCheckBlock_avoids_iff, or_and_left]

def minedBlock : CBlock where
  hash := 3
  hashPrevBlock := 2
  nVersion := 4
  hashMerkleRoot := 1
  vtx := [{ hash := 1, vin := [⟨COutPoint.null, [0x51, 0x51], 0xffffffff⟩], vout := [⟨5, [0x51]⟩] }]

def caughtUp (tip : Int) : BlockContext :=
  { syncing mainParams with
    tip := some (2, tip)
    isInitialBlockDownload := false
    sporkSegwitActivation := 0 }

theorem second_tx_unread_unsynced :
    Avoids .vtxOutOfRange ((syncing mainParams).readCheckBlock
        { PaymentNode.paidNode with budgetEnv := { CBudgetManager.countEnv 10 with fSynced := false } }
        (fun _ => none) minedBlock true) ∧
      Avoids .vtxOutOfRange
        ((syncing mainParams).readContextualCheckBlock minedBlock (some ⟨599, 900, [4]⟩)) :=
  (second_tx_reads_iff (syncing mainParams) _ _ minedBlock true _ (by decide)).mpr
    (.inr ⟨fun h => absurd h.synced (by decide), fun h => absurd h.segwit (by decide)⟩)

theorem mined_block_reads_second_tx :
    minedBlock.vtx.length = 1 ∧
      (caughtUp 599).readCheckBlock PaymentNode.paidNode (fun _ => none) minedBlock true =
        .error .vtxOutOfRange ∧
      (caughtUp 599).readContextualCheckBlock minedBlock (some ⟨599, 900, [4]⟩) =
        .error .vtxOutOfRange := by
  decide +kernel

end BlockContext

end AnkerNode
