import AnkerNode.Script.SoftFork
import AnkerNode.Script.Verify
import AnkerNode.Validation.CheckBlock
import AnkerNode.Validation.Issuance
import AnkerNode.Validation.ScriptChecks

namespace AnkerNode

open Traced

-- A height or a time that the block is past; zero asks for nothing.
def LockPassed (nLockTime nHeight nTime : Int) : Prop :=
  nLockTime = 0 ∨ (nLockTime < LOCKTIME_THRESHOLD ∧ nLockTime < nHeight) ∨
    (LOCKTIME_THRESHOLD ≤ nLockTime ∧ nLockTime < nTime)

namespace CTransaction

variable {tx : CTransaction} {nIn : Nat} {nLockTime nHeight nTime : Int}

theorem checkLockTime_eq_true : tx.checkLockTime nIn nLockTime = true ↔
    ((tx.nLockTime.toNat : Int) < LOCKTIME_THRESHOLD ↔ nLockTime < LOCKTIME_THRESHOLD) ∧
      nLockTime ≤ tx.nLockTime.toNat ∧
      ∃ txin, tx.vin[nIn]? = some txin ∧ txin.nSequence ≠ CTxIn.SEQUENCE_FINAL := by
  rw [checkLockTime]
  by_cases hunit : (tx.nLockTime.toNat : Int) < LOCKTIME_THRESHOLD ↔ nLockTime < LOCKTIME_THRESHOLD
  · rw [if_neg (by omega)]
    by_cases hlt : (tx.nLockTime.toNat : Int) < nLockTime
    · rw [if_pos hlt]
      exact iff_of_false Bool.false_ne_true fun h => absurd h.2.1 (Int.not_le.mpr hlt)
    · rw [if_neg hlt, Option.any_eq_true]
      simp only [bne_iff_ne, ne_eq, hunit, Int.not_lt.mp hlt, true_and]
  · rw [if_pos (by omega)]
    exact iff_of_false Bool.false_ne_true fun h => hunit h.1

theorem isFinal_cases (h : tx.isFinal nHeight nTime = true) :
    tx.nLockTime = 0 ∨
      (tx.nLockTime.toNat : Int) <
        (if (tx.nLockTime.toNat : Int) < LOCKTIME_THRESHOLD then nHeight else nTime) ∨
      ∀ txin ∈ tx.vin, txin.nSequence = CTxIn.SEQUENCE_FINAL := by
  rw [isFinal, Bool.or_eq_true, Bool.or_eq_true, beq_iff_eq, decide_eq_true_eq,
    List.all_eq_true] at h
  rcases h with (h | h) | h
  · exact .inl h
  · exact .inr (.inl h)
  · exact .inr (.inr fun txin hin => beq_iff_eq.mp (h txin hin))

-- The input that the lock time was compared for is the one that keeps the transaction from being
-- final regardless of it.
theorem lockPassed_of_final (hpos : 0 ≤ nLockTime) (hcheck : tx.checkLockTime nIn nLockTime = true)
    (hfinal : tx.isFinal nHeight nTime = true) : LockPassed nLockTime nHeight nTime := by
  obtain ⟨hunit, hle, txin, hin, hsequence⟩ := checkLockTime_eq_true.mp hcheck
  rcases isFinal_cases hfinal with hzero | hlt | hall
  · rw [hzero] at hle
    exact .inl (Int.le_antisymm hle hpos)
  · by_cases hheight : nLockTime < LOCKTIME_THRESHOLD
    · rw [if_pos (hunit.mpr hheight)] at hlt
      exact .inr (.inl ⟨hheight, Int.lt_of_le_of_lt hle hlt⟩)
    · rw [if_neg fun h => hheight (hunit.mp h)] at hlt
      exact .inr (.inr ⟨Int.not_lt.mp hheight, Int.lt_of_le_of_lt hle hlt⟩)
  · exact absurd (hall txin (List.mem_of_getElem? hin)) hsequence

end CTransaction

namespace BlockContext

variable {ctx : BlockContext} {tx : CTransaction} {nIn : Nat} {nLockTime nHeight nTime : Int}

theorem isFinalTx_of_pos (hheight : 0 < nHeight) (htime : 0 < nTime) :
    ctx.isFinalTx tx nHeight nTime = tx.isFinal nHeight nTime := by
  rw [isFinalTx, if_neg (Int.ne_of_gt hheight), if_neg (Int.ne_of_gt htime)]

theorem absolute_lock_passed (ctx : BlockContext) (tx : CTransaction) (nIn : Nat)
    (hpos : 0 ≤ nLockTime) (hheight : 0 < nHeight) (htime : 0 < nTime)
    (hcheck : tx.checkLockTime nIn nLockTime = true)
    (hfinal : ctx.isFinalTx tx nHeight nTime = true) :
    nLockTime = 0 ∨ (nLockTime < LOCKTIME_THRESHOLD ∧ nLockTime < nHeight) ∨
      (LOCKTIME_THRESHOLD ≤ nLockTime ∧ nLockTime < nTime) := by
  rw [isFinalTx_of_pos hheight htime] at hfinal
  exact CTransaction.lockPassed_of_final hpos hcheck hfinal

def lockedUntil (nLockTime : UInt32) : CTransaction where
  hash := 22
  vin := [⟨⟨6, 0⟩, [], 0⟩]
  vout := [⟨5, [OP_1]⟩]
  nLockTime := nLockTime

theorem absolute_lock_passed_ninety : (90 : Int) = 0 ∨
    ((90 : Int) < LOCKTIME_THRESHOLD ∧ (90 : Int) < 101) ∨
      (LOCKTIME_THRESHOLD ≤ (90 : Int) ∧ (90 : Int) < 2000) :=
  absolute_lock_passed (syncing { hashGenesisBlock := 1 }) (lockedUntil 100) 0
    (by decide) (by decide) (by decide) (by decide) (by decide)

-- Every lock time that a passing script of the input asked for is passed.
theorem lockPassed_of_verifyScript (hashes : ScriptHashes) (checkSig : CheckSigOracle)
    {amount : Int} {flags : Nat} {scriptSig scriptPubKey : CScript} {witness : CScriptWitness}
    {sctx : ScriptContext} (hsctx : sctx = ⟨hashes, tx.signatureChecker nIn checkSig amount⟩)
    (hverify : (sctx.verifyScript flags scriptSig scriptPubKey witness).result.isOk = true)
    (hasked : ScriptEvent.checkLockTime nLockTime ∈
      (sctx.verifyScript flags scriptSig scriptPubKey witness).log)
    (hheight : 0 < nHeight) (htime : 0 < nTime) (hpos : 0 ≤ nLockTime)
    (hfinal : ctx.isFinalTx tx nHeight nTime = true) : LockPassed nLockTime nHeight nTime := by
  have hvouched := sctx.vouched_verifyScript flags scriptSig scriptPubKey witness hverify _ hasked
  have hcheck : tx.checkLockTime nIn nLockTime = true := by
    rw [hsctx] at hvouched
    simpa only [ScriptContext.Accepted, CTransaction.signatureChecker] using hvouched
  rw [isFinalTx_of_pos hheight htime] at hfinal
  exact CTransaction.lockPassed_of_final hpos hcheck hfinal

end BlockContext

end AnkerNode

namespace AnkerNode

open Checks Traced

-- the relative lock that a sequence number encodes is met, or it encodes none in blocks
def RelativeLockMet (nVersion : Int) (nSequence : UInt32) (nCoinHeight nHeight : Int) : Prop :=
  nVersion % 2 ^ 32 < 2 ∨
    nSequence.toNat &&& CTxIn.SEQUENCE_LOCKTIME_DISABLE_FLAG ≠ 0 ∨
    nSequence.toNat &&& CTxIn.SEQUENCE_LOCKTIME_TYPE_FLAG ≠ 0 ∨
    nCoinHeight + (nSequence.toNat &&& CTxIn.SEQUENCE_LOCKTIME_MASK : Nat) ≤ nHeight

section Masks

variable (x : Nat)

theorem land_nLockTimeMask :
    x &&& CTxIn.nLockTimeMask =
      (x &&& CTxIn.SEQUENCE_LOCKTIME_TYPE_FLAG) ||| (x &&& CTxIn.SEQUENCE_LOCKTIME_MASK) :=
  Nat.and_or_distrib_left ..

theorem land_mask_lt : x &&& CTxIn.SEQUENCE_LOCKTIME_MASK < CTxIn.SEQUENCE_LOCKTIME_TYPE_FLAG :=
  Nat.lt_of_le_of_lt Nat.and_le_right (by decide)

variable {x}

theorem land_nLockTimeMask_of_height (h : x &&& CTxIn.SEQUENCE_LOCKTIME_TYPE_FLAG = 0) :
    x &&& CTxIn.nLockTimeMask = x &&& CTxIn.SEQUENCE_LOCKTIME_MASK := by
  rw [land_nLockTimeMask, h, Nat.zero_or]

theorem typeFlag_le_of_time (h : x &&& CTxIn.SEQUENCE_LOCKTIME_TYPE_FLAG ≠ 0) :
    CTxIn.SEQUENCE_LOCKTIME_TYPE_FLAG ≤ x &&& CTxIn.nLockTimeMask := by
  have hflag : x &&& CTxIn.SEQUENCE_LOCKTIME_TYPE_FLAG = CTxIn.SEQUENCE_LOCKTIME_TYPE_FLAG := by
    have hpow : CTxIn.SEQUENCE_LOCKTIME_TYPE_FLAG = 2 ^ 22 := rfl
    rw [hpow, Nat.and_two_pow] at h ⊢
    cases hbit : x.testBit 22 with
    | false => simp [hbit] at h
    | true => simp
  rw [land_nLockTimeMask, hflag]
  exact Nat.left_le_or

end Masks

theorem CTransaction.checkSequence_height {tx : CTransaction} {nIn : Nat} {txin : CTxIn}
    {nSequence : Int} (hin : tx.vin[nIn]? = some txin) (htype : IsHeightLock nSequence) :
    tx.checkSequence nIn nSequence = true ↔
      ¬ tx.nVersion % 2 ^ 32 < 2 ∧
        txin.nSequence.toNat &&& CTxIn.SEQUENCE_LOCKTIME_DISABLE_FLAG = 0 ∧
        txin.nSequence.toNat &&& CTxIn.SEQUENCE_LOCKTIME_TYPE_FLAG = 0 ∧
        heightLock nSequence ≤ txin.nSequence.toNat &&& CTxIn.SEQUENCE_LOCKTIME_MASK := by
  have hmasked : CScriptNum.land nSequence CTxIn.nLockTimeMask = heightLock nSequence :=
    land_nLockTimeMask_of_height htype
  have hlt : heightLock nSequence < CTxIn.SEQUENCE_LOCKTIME_TYPE_FLAG := land_mask_lt _
  simp only [CTransaction.checkSequence, hin, Option.any_some, hmasked]
  by_cases hversion : tx.nVersion % 2 ^ 32 < 2
  · rw [if_pos hversion]
    exact iff_of_false Bool.false_ne_true fun h => h.1 hversion
  · rw [if_neg hversion]
    by_cases hdisabled : txin.nSequence.toNat &&& CTxIn.SEQUENCE_LOCKTIME_DISABLE_FLAG = 0
    · by_cases htime : txin.nSequence.toNat &&& CTxIn.SEQUENCE_LOCKTIME_TYPE_FLAG = 0
      · have hseqlt := land_mask_lt txin.nSequence.toNat
        simp only [hversion, hdisabled, htime, land_nLockTimeMask_of_height htime, hseqlt, hlt]
        simp
      · have hle := typeFlag_le_of_time htime
        simp [hdisabled, htime, Nat.not_lt.mpr hle, Nat.not_le.mpr hlt]
    · simp [hdisabled]

-- a block that both checks accept while its scripts are checked under the upgraded rules
structure PassingBlock (bctx : BlockContext) (ctx : ConnectContext) (hashes : ScriptHashes)
    (checkSig : CheckSigOracle) (getBlockValue : Int → Int) (block : CBlock)
    (parent : Option ParentIndex) (pindex : ConnectIndex) (view : CCoinsView) : Prop where
  height : pindex.nHeight = (parent.map fun p => p.nHeight + 1).getD 0
  spork : bctx.sporkSegwitActivation = ctx.sporkSegwitActivation
  segwit : ctx.sporkSegwitActivation < block.nTime
  scripts : ctx.scriptChecksActive pindex = true
  interpreter : ctx.verifyScript = fun check => check.run hashes checkSig
  contextual : bctx.contextualCheckBlock block parent = .ok ()
  connected : ∃ r, ctx.connectBlock getBlockValue block pindex view = .ok r

-- each height-type operand that the input's script gives to the opcode is met by the age of the
-- output
def LocksEnforced (hashes : ScriptHashes) (checkSig : CheckSigOracle) (check : ScriptCheck)
    (nCoinHeight nHeight : Int) : Prop :=
  ∀ nSequence, ScriptEvent.checkSequence nSequence ∈ (check.evaluation hashes checkSig).log →
    IsHeightLock nSequence → nCoinHeight + (heightLock nSequence : Nat) ≤ nHeight

theorem locksEnforced_of_met {hashes : ScriptHashes} {checkSig : CheckSigOracle}
    {check : ScriptCheck} {txin : CTxIn} {nCoinHeight nHeight : Int}
    (hin : check.tx.vin[check.nIn]? = some txin) (hrun : check.run hashes checkSig = none)
    (hmet : RelativeLockMet check.tx.nVersion txin.nSequence nCoinHeight nHeight) :
    LocksEnforced hashes checkSig check nCoinHeight nHeight := by
  intro nSequence hlog htype
  have haccepted : check.tx.checkSequence check.nIn nSequence = true :=
    ScriptContext.vouched_verifyScript (check.context hashes checkSig) check.nFlags
      check.scriptSig check.txout.scriptPubKey check.witness (ScriptCheck.run_eq_none hrun) _ hlog
  obtain ⟨hversion, hdisabled, htime, hle⟩ :=
    (CTransaction.checkSequence_height hin htype).mp haccepted
  rcases hmet with hmet | hmet | hmet | hmet
  · exact absurd hmet hversion
  · exact absurd hdisabled hmet
  · exact absurd htime hmet
  · omega

namespace PassingBlock

variable {bctx : BlockContext} {ctx : ConnectContext} {hashes : ScriptHashes}
  {checkSig : CheckSigOracle} {getBlockValue : Int → Int} {block : CBlock}
  {parent : Option ParentIndex} {pindex : ConnectIndex} {view : CCoinsView}

theorem locksEnforced
    (h : PassingBlock bctx ctx hashes checkSig getBlockValue block parent pindex view)
    {tx : CTransaction} {nIn : Nat} {txin : CTxIn} {st : ConnectState} {coins : CCoins}
    (hinput : ctx.ConnectedInput block pindex view tx nIn txin st)
    (hmet : RelativeLockMet tx.nVersion txin.nSequence coins.nHeight pindex.nHeight) :
    LocksEnforced hashes checkSig (ctx.inputCheck block tx nIn txin st) coins.nHeight
      pindex.nHeight := by
  obtain ⟨r, hr⟩ := h.connected
  have hrun := ConnectContext.connectBlock_verifies hr h.scripts hinput
  rw [h.interpreter] at hrun
  exact locksEnforced_of_met hinput.input hrun hmet

end PassingBlock

-- `<3 bytes> OP_CHECKSEQUENCEVERIFY OP_1` with the lock that the sequence number encodes
def lockScript (nSequence : UInt32) : CScript :=
  [3, UInt8.ofNat nSequence.toNat, UInt8.ofNat (nSequence.toNat / 256), 0, 0xb2, OP_1]

def lockOperand (nSequence : UInt32) : Nat := nSequence.toNat &&& CTxIn.SEQUENCE_LOCKTIME_MASK

theorem scriptNum_lockScript (nSequence : UInt32) :
    scriptNum [UInt8.ofNat nSequence.toNat, UInt8.ofNat (nSequence.toNat / 256), 0] false 5 =
      .ok (lockOperand nSequence : Int) := by
  have hoperand : lockOperand nSequence =
      nSequence.toNat % 256 + 256 * (nSequence.toNat / 256 % 256) := by
    rw [lockOperand, CTxIn.SEQUENCE_LOCKTIME_MASK, show 65535 = 2 ^ 16 - 1 from rfl,
      Nat.and_two_pow_sub_one_eq_mod]
    omega
  rw [hoperand]
  simp [scriptNum, CScriptNum.ofVch, CScriptNum.setVch, littleEndian, Nat.ofDigits, fromOption]

theorem lockOperand_land (nSequence : UInt32) (mask : Nat) :
    CScriptNum.land (lockOperand nSequence) mask = lockOperand nSequence &&& mask := by
  have hlt : lockOperand nSequence ≤ 65535 := Nat.and_le_right
  have hmod : ((lockOperand nSequence : Int) % 2 ^ 64).toNat = lockOperand nSequence := by omega
  rw [CScriptNum.land, hmod]

theorem isHeightLock_lockOperand (nSequence : UInt32) : IsHeightLock (lockOperand nSequence) := by
  rw [IsHeightLock, lockOperand_land, lockOperand, Nat.and_assoc]
  exact Nat.and_zero _

theorem heightLock_lockOperand (nSequence : UInt32) :
    heightLock (lockOperand nSequence) = lockOperand nSequence := by
  rw [heightLock, lockOperand_land, lockOperand, Nat.and_assoc, Nat.and_self]

namespace ScriptContext

variable {ctx : ScriptContext} {nSequence : UInt32}

def pushedLock (nSequence : UInt32) : Valtype :=
  [UInt8.ofNat nSequence.toNat, UInt8.ofNat (nSequence.toNat / 256), 0]

theorem evalCheckSequenceVerify_lockScript {st : EvalState} {stack : List Valtype}
    (hstack : st.stack = pushedLock nSequence :: stack)
    (hmet : ctx.checker.checkSequence (lockOperand nSequence) = true) :
    ctx.evalCheckSequenceVerify segwitFlags st =
      ⟨[.checkSequence (lockOperand nSequence)], .ok st⟩ := by
  have harg : lockTimeArg segwitFlags st = .ok (lockOperand nSequence : Int) := by
    have hminimal : hasFlag segwitFlags SCRIPT_VERIFY_MINIMALDATA = false := by decide
    simp only [lockTimeArg, hstack, pushedLock, hminimal, scriptNum_lockScript]
    have hpos : ¬ (lockOperand nSequence : Int) < 0 := by omega
    simp [hpos, setErrorIf, failIf, bind, Except.bind]
  have hon : hasFlag segwitFlags SCRIPT_VERIFY_CHECKSEQUENCEVERIFY = true := by decide
  have hdisable : CScriptNum.land (lockOperand nSequence) CTxIn.SEQUENCE_LOCKTIME_DISABLE_FLAG = 0 := by
    rw [lockOperand_land, lockOperand, Nat.and_assoc]
    exact Nat.and_zero _
  simp only [evalCheckSequenceVerify, hon, if_true, harg]
  rw [bind_of_ok rfl, if_neg (not_not_intro hdisable), checkSequence, hmet]
  rfl

theorem instructions_lockScript (nSequence : UInt32) :
    (lockScript nSequence).instructions =
      [some ⟨3, pushedLock nSequence, [0xb2, OP_1]⟩, some ⟨0xb2, [], [OP_1]⟩,
        some ⟨OP_1, [], []⟩] := rfl

theorem evalScript_lockScript
    (hmet : ctx.checker.checkSequence (lockOperand nSequence) = true) :
    ctx.evalScript segwitFlags .SIGVERSION_BASE [] (lockScript nSequence) =
      ⟨[.checkSequence (lockOperand nSequence)], .ok [[1], pushedLock nSequence]⟩ := by
  let st (stack : List Valtype) (nOpCount : Nat) : EvalState :=
    { stack := stack, nOpCount := nOpCount, pbegincodehash := lockScript nSequence }
  have hpush : ctx.step segwitFlags .SIGVERSION_BASE (st [] 0)
      ⟨3, pushedLock nSequence, [0xb2, OP_1]⟩ = ⟨[], .ok (st [pushedLock nSequence] 0)⟩ := rfl
  have hverify : ctx.step segwitFlags .SIGVERSION_BASE (st [pushedLock nSequence] 0)
      ⟨0xb2, [], [OP_1]⟩ =
        ⟨[.checkSequence (lockOperand nSequence)], .ok (st [pushedLock nSequence] 1)⟩ := by
    have hexecute : ctx.execute segwitFlags .SIGVERSION_BASE (st [pushedLock nSequence] 1)
        ⟨0xb2, [], [OP_1]⟩ = _ :=
      evalCheckSequenceVerify_lockScript rfl hmet
    rw [step, bind_of_ok (a := st [pushedLock nSequence] 1) rfl, hexecute]
    rfl
  have hone : ctx.step segwitFlags .SIGVERSION_BASE (st [pushedLock nSequence] 1)
      ⟨OP_1, [], []⟩ = ⟨[], .ok (st [[1], pushedLock nSequence] 1)⟩ := rfl
  have hops : ctx.evalOps segwitFlags .SIGVERSION_BASE (lockScript nSequence).instructions
      (st [] 0) =
        ⟨[.checkSequence (lockOperand nSequence)], .ok (st [[1], pushedLock nSequence] 1)⟩ := by
    rw [instructions_lockScript]
    simp only [evalOps]
    rw [hpush, bind_of_ok rfl, hverify, bind_of_ok rfl, hone]
    rfl
  change (Traced.lift _ >>= fun _ => ctx.evalOps segwitFlags .SIGVERSION_BASE
    (lockScript nSequence).instructions (st [] 0) >>= _) = _
  rw [hops]
  rfl

theorem verifyScript_lockScript
    (hmet : ctx.checker.checkSequence (lockOperand nSequence) = true) :
    ctx.verifyScript segwitFlags [] (lockScript nSequence) [] =
      ⟨[.checkSequence (lockOperand nSequence)], .ok ()⟩ := by
  have hsig : ctx.evalScript segwitFlags .SIGVERSION_BASE [] [] = ⟨[], .ok []⟩ := rfl
  change (Traced.lift _ >>= fun _ => ctx.evalScript segwitFlags .SIGVERSION_BASE [] [] >>=
    fun stackCopy => ctx.evalScript segwitFlags .SIGVERSION_BASE stackCopy (lockScript nSequence) >>=
      _) = _
  rw [hsig, bind_of_ok rfl, bind_of_ok rfl]
  simp only [evalScript_lockScript hmet]
  rfl

end ScriptContext

section Scenario

variable (nVersion : Int) (nSequence : UInt32) (nCoinHeight nHeight : Int)

def lockTx : CTransaction where
  hash := 22
  nVersion := nVersion
  vin := [⟨⟨6, 0⟩, [], nSequence⟩]
  vout := [⟨5, [OP_1]⟩]

def lockBlock : CBlock :=
  { ConnectContext.stakeBlock (2 * COIN) with
    nTime := 2000
    vtx := (ConnectContext.stakeBlock (2 * COIN)).vtx ++ [lockTx nVersion nSequence] }

def lockView : CCoinsView where
  coins := fun txid =>
    if txid = 6 then
      some { vout := [⟨5, lockScript nSequence⟩], nHeight := nCoinHeight, nVersion := 1 }
    else ConnectContext.stakeView.coins txid
  hashBlock := 7

def lockIndex : ConnectIndex where
  hash := 8
  nHeight := nHeight
  pprev := some ⟨7, nHeight - 1, 0⟩

def lockParent : ParentIndex := ⟨nHeight - 1, 900, [4]⟩

def lockParams (nLastPOWBlock nZerocoinStartHeight : Int) : ChainParams :=
  { hashGenesisBlock := 1
    nLastPOWBlock := nLastPOWBlock
    nZerocoinStartHeight := nZerocoinStartHeight }

variable (params : ChainParams) (hashes : ScriptHashes) (checkSig : CheckSigOracle)

def lockChecks : BlockContext :=
  { BlockContext.syncing params with sporkSegwitActivation := 1000 }

def lockConnect : ConnectContext :=
  { ConnectContext.plainConnect with
    params := params
    totalBlocksEstimate := nHeight
    nScriptCheckThreads := 1
    sporkSegwitActivation := 1000
    verifyScript := fun check => check.run hashes checkSig }

variable {nVersion nSequence nHeight} {nLastPOWBlock nZerocoinStartHeight : Int}

theorem contextualCheckBlock_lockBlock (hstart : nZerocoinStartHeight < nHeight) :
    (lockChecks (lockParams nLastPOWBlock nZerocoinStartHeight)).contextualCheckBlock
      (lockBlock nVersion nSequence) (some (lockParent nHeight)) = .ok () := by
  simp only [BlockContext.contextualCheckBlock, bind_eq_ok]
  refine ⟨(), ?_, (), rfl, (), rfl, false, rfl, (), rfl, ?_⟩
  · rw [BlockContext.contextualCheckTxs, if_pos]
    · rfl
    · change nZerocoinStartHeight < nHeight - 1 + 1
      omega
  · have hbase : (lockBlock nVersion nSequence).getSerializeSize = 307 := rfl
    have hfull : (lockBlock nVersion nSequence).serializeSizeWith
        CTransaction.getSerializeSizeWithWitness = 307 := rfl
    rw [failIf_eq_ok, CBlock.getBlockCost, hbase, hfull]
    decide

theorem run_lockCheck (hversion : ¬ nVersion % 2 ^ 32 < 2)
    (hdisabled : nSequence.toNat &&& CTxIn.SEQUENCE_LOCKTIME_DISABLE_FLAG = 0)
    (htime : nSequence.toNat &&& CTxIn.SEQUENCE_LOCKTIME_TYPE_FLAG = 0) :
    ScriptCheck.evaluation hashes checkSig
      ⟨lockTx nVersion nSequence, 0, ⟨5, lockScript nSequence⟩, segwitFlags⟩ =
        ⟨[.checkSequence (lockOperand nSequence)], .ok ()⟩ := by
  refine ScriptContext.verifyScript_lockScript ?_
  have hin : (lockTx nVersion nSequence).vin[0]? = some ⟨⟨6, 0⟩, [], nSequence⟩ := rfl
  refine (CTransaction.checkSequence_height hin (isHeightLock_lockOperand nSequence)).mpr
    ⟨hversion, hdisabled, htime, ?_⟩
  rw [heightLock_lockOperand]
  exact Nat.le_refl _

theorem scriptChecksActive_lockConnect (nHeight : Int) :
    (lockConnect nHeight params hashes checkSig).scriptChecksActive (lockIndex nHeight) = true :=
  decide_eq_true (Int.le_refl nHeight)

theorem connectTxs_lockBlock (nSpendHeight : Int) :
    ∃ st, (lockConnect nHeight (lockParams nLastPOWBlock nZerocoinStartHeight) hashes
        checkSig).connectTxs (lockBlock nVersion nSequence) (lockIndex nHeight) nSpendHeight true
        (lockBlock nVersion nSequence).vtx { view := lockView nSequence nCoinHeight } = .ok st ∧
      st.nValueOut - st.nValueIn + st.nFees = 0 ∧
      st.vChecks = [⟨(ConnectContext.stakeBlock (2 * COIN)).vtx[1], 0, ⟨2 * COIN, [OP_1]⟩, segwitFlags⟩,
        ⟨lockTx nVersion nSequence, 0, ⟨5, lockScript nSequence⟩, segwitFlags⟩] :=
 by
  refine ⟨_, rfl, rfl, ?_⟩
  have hactive := scriptChecksActive_lockConnect
    (lockParams nLastPOWBlock nZerocoinStartHeight) hashes checkSig nHeight
  change (if ConnectContext.scriptChecksActive _ _ = true then _ else _) ++
    (if ConnectContext.scriptChecksActive _ _ = true then _ else _) = _
  rw [if_pos hactive, if_pos hactive]
  rfl

theorem passing_lockBlock (hpow : nLastPOWBlock < nHeight) (hstart : nZerocoinStartHeight < nHeight)
    (hversion : ¬ nVersion % 2 ^ 32 < 2)
    (hdisabled : nSequence.toNat &&& CTxIn.SEQUENCE_LOCKTIME_DISABLE_FLAG = 0)
    (htime : nSequence.toNat &&& CTxIn.SEQUENCE_LOCKTIME_TYPE_FLAG = 0) :
    PassingBlock (lockChecks (lockParams nLastPOWBlock nZerocoinStartHeight))
      (lockConnect nHeight (lockParams nLastPOWBlock nZerocoinStartHeight) hashes checkSig) hashes
      checkSig (fun _ => 0) (lockBlock nVersion nSequence) (some (lockParent nHeight))
      (lockIndex nHeight) (lockView nSequence nCoinHeight) where
  height := by simp [lockIndex, lockParent]
  spork := rfl
  segwit := show (1000 : Int) < 2000 by decide
  scripts := scriptChecksActive_lockConnect _ hashes checkSig nHeight
  interpreter := rfl
  contextual := contextualCheckBlock_lockBlock hstart
  connected := by
    have hlock : ScriptCheck.run hashes checkSig
        ⟨lockTx nVersion nSequence, 0, ⟨5, lockScript nSequence⟩, segwitFlags⟩ = none := by
      rw [ScriptCheck.run, run_lockCheck hashes checkSig hversion hdisabled htime]
    obtain ⟨st, htxs, hvalue, hchecks⟩ := connectTxs_lockBlock nCoinHeight hashes checkSig
      (nHeight - 1 + 1)
    refine ⟨_, (ConnectContext.connectBlock_eq_ok_iff (show (8 : UInt256) ≠ 1 by decide)).mpr
      ⟨⟨7, nHeight - 1, 0⟩, st, ⟨?_, rfl, rfl, ?_, ?_, htxs, rfl, ?_, rfl⟩, ?_⟩⟩
    · intro h
      cases h
    · have hphase : ¬ nHeight ≤ nLastPOWBlock := Int.not_le.mpr hpow
      change (do failIf (decide (nHeight ≤ nLastPOWBlock) && true) _; failIf (_ && false) _) = _
      simp [failIf, hphase, bind, Except.bind]
    · exact fun _ => rfl
    · rw [hchecks]
      change ((none : Option String).isSome || ((ScriptCheck.run hashes checkSig _).isSome || false)) = _
      rw [hlock]
      rfl
    · rw [hvalue]
      rfl

theorem connectedInput_lockBlock :
    ∃ st, (lockConnect nHeight (lockParams nLastPOWBlock nZerocoinStartHeight) hashes
        checkSig).ConnectedInput (lockBlock nVersion nSequence) (lockIndex nHeight)
        (lockView nSequence nCoinHeight) (lockTx nVersion nSequence) 0 ⟨⟨6, 0⟩, [], nSequence⟩ st ∧
      st.view.accessCoins 6 = some
        { vout := [⟨5, lockScript nSequence⟩], nHeight := nCoinHeight, nVersion := 1 } := by
  have hstake (nSpendHeight : Int) : ∃ st,
      (lockConnect nHeight (lockParams nLastPOWBlock nZerocoinStartHeight) hashes
        checkSig).connectTxs (lockBlock nVersion nSequence) (lockIndex nHeight) nSpendHeight true
        (ConnectContext.stakeBlock (2 * COIN)).vtx { view := lockView nSequence nCoinHeight } =
          .ok st ∧
      st.view.accessCoins 6 = some
        { vout := [⟨5, lockScript nSequence⟩], nHeight := nCoinHeight, nVersion := 1 } :=
    ⟨_, rfl, rfl⟩
  obtain ⟨st, htxs, hcoins⟩ := hstake (nHeight - 1 + 1)
  exact ⟨st, ⟨show (8 : UInt256) ≠ 1 by decide, ⟨_, [], _, rfl, rfl, htxs⟩, rfl, rfl⟩, hcoins⟩

theorem inputCheck_lockBlock {st : ConnectState} (hcoins : st.view.accessCoins 6 = some
      { vout := [⟨5, lockScript nSequence⟩], nHeight := nCoinHeight, nVersion := 1 }) :
    (lockConnect nHeight params hashes checkSig).inputCheck (lockBlock nVersion nSequence)
        (lockTx nVersion nSequence) 0 ⟨⟨6, 0⟩, [], nSequence⟩ st =
      ⟨lockTx nVersion nSequence, 0, ⟨5, lockScript nSequence⟩, segwitFlags⟩ := by
  have hcoins' : st.view.coins 6 = some _ := hcoins
  simp only [ConnectContext.inputCheck, CCoinsView.outAt, CCoinsView.modified, hcoins']
  rfl

-- the input of the scenario gives the opcode the lock of its own sequence number
theorem not_locksEnforced_lockBlock (hversion : ¬ nVersion % 2 ^ 32 < 2)
    (hdisabled : nSequence.toNat &&& CTxIn.SEQUENCE_LOCKTIME_DISABLE_FLAG = 0)
    (htime : nSequence.toNat &&& CTxIn.SEQUENCE_LOCKTIME_TYPE_FLAG = 0)
    (hyoung : ¬ nCoinHeight + (lockOperand nSequence : Nat) ≤ nHeight) :
    ¬ LocksEnforced hashes checkSig
      ⟨lockTx nVersion nSequence, 0, ⟨5, lockScript nSequence⟩, segwitFlags⟩ nCoinHeight
      nHeight := by
  intro henforced
  rw [LocksEnforced, run_lockCheck hashes checkSig hversion hdisabled htime] at henforced
  have hle := henforced _ List.mem_cons_self (isHeightLock_lockOperand nSequence)
  rw [heightLock_lockOperand] at hle
  exact hyoung hle

end Scenario

def anySignature : CheckSigOracle := fun _ _ _ _ _ _ _ => true

theorem relativeLocks_enforced_iff (nVersion : Int) (nSequence : UInt32)
    (nCoinHeight nHeight : Int) :
    (∀ (bctx : BlockContext) (ctx : ConnectContext) (hashes : ScriptHashes)
        (checkSig : CheckSigOracle) (getBlockValue : Int → Int) (block : CBlock)
        (parent : Option ParentIndex) (pindex : ConnectIndex) (view : CCoinsView),
        PassingBlock bctx ctx hashes checkSig getBlockValue block parent pindex view →
        pindex.nHeight = nHeight →
      ∀ (tx : CTransaction) (nIn : Nat) (txin : CTxIn) (st : ConnectState) (coins : CCoins),
        ctx.ConnectedInput block pindex view tx nIn txin st →
        tx.nVersion = nVersion → txin.nSequence = nSequence →
        st.view.accessCoins txin.prevout.hash = some coins → coins.nHeight = nCoinHeight →
        LocksEnforced hashes checkSig (ctx.inputCheck block tx nIn txin st) nCoinHeight nHeight) ↔
    RelativeLockMet nVersion nSequence nCoinHeight nHeight := by
  constructor
  · intro hall
    by_contra hmet
    simp only [RelativeLockMet, not_or, not_not] at hmet
    obtain ⟨hversion, hdisabled, htime, hyoung⟩ := hmet
    obtain ⟨st, hinput, hcoins⟩ := connectedInput_lockBlock nCoinHeight plainHashes
      anySignature
    have hbelow : nHeight - 1 < nHeight := by omega
    have hpassing := passing_lockBlock nCoinHeight plainHashes anySignature
      hbelow hbelow hversion hdisabled htime
    have henforced := hall _ _ _ _ _ _ _ _ _ hpassing rfl _ _ _ _ _ hinput rfl rfl hcoins rfl
    rw [inputCheck_lockBlock nCoinHeight _ _ _ hcoins] at henforced
    exact not_locksEnforced_lockBlock nCoinHeight _ _ hversion hdisabled htime hyoung henforced
  · rintro hmet bctx ctx hashes checkSig getBlockValue block parent pindex view hpassing rfl
      tx nIn txin st coins hinput rfl rfl hcoins rfl
    exact hpassing.locksEnforced hinput hmet

-- an output of height 599 that asks for ten blocks is spent at height 600
theorem relativeLock_ignored :
    PassingBlock (lockChecks (lockParams 500 101))
        (lockConnect 600 (lockParams 500 101) plainHashes anySignature) plainHashes anySignature
        (fun _ => 0) (lockBlock 2 10) (some (lockParent 600)) (lockIndex 600) (lockView 10 599) ∧
      ∃ st, (lockConnect 600 (lockParams 500 101) plainHashes anySignature).ConnectedInput
          (lockBlock 2 10) (lockIndex 600) (lockView 10 599) (lockTx 2 10) 0 ⟨⟨6, 0⟩, [], 10⟩ st ∧
        st.view.accessCoins 6 = some
          { vout := [⟨5, lockScript 10⟩], nHeight := 599, nVersion := 1 } ∧
        ¬ LocksEnforced plainHashes anySignature
          ((lockConnect 600 (lockParams 500 101) plainHashes anySignature).inputCheck
            (lockBlock 2 10) (lockTx 2 10) 0 ⟨⟨6, 0⟩, [], 10⟩ st) 599 600 := by
  obtain ⟨st, hinput, hcoins⟩ := connectedInput_lockBlock 599 plainHashes anySignature
  refine ⟨passing_lockBlock 599 plainHashes anySignature (by decide) (by decide) (by decide)
    (by decide) (by decide), st, hinput, hcoins, ?_⟩
  rw [inputCheck_lockBlock 599 _ _ _ hcoins]
  exact not_locksEnforced_lockBlock 599 _ _ (by decide) (by decide) (by decide) (by decide)

end AnkerNode
