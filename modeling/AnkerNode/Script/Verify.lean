import AnkerNode.Script.Interpreter

namespace AnkerNode

open Checks

abbrev CScriptWitness := List Valtype

def assertThat (cond : Bool) : Except ScriptFailure Unit := failIf (!cond) .assertion

def requireTrue : List Valtype → Except ScriptFailure Unit
  | [] => setError .SCRIPT_ERR_EVAL_FALSE
  | top :: _ => setErrorIf (!castToBool top) .SCRIPT_ERR_EVAL_FALSE

-- `vector::resize(1)` of a stack that is not empty keeps the bottom element
def resizeToOne (stack : List Valtype) : List Valtype := stack.drop (stack.length - 1)

namespace ScriptContext

variable (ctx : ScriptContext) (flags : Nat)

def payToPubKeyHash (program : Valtype) : CScript :=
  [OP_DUP, OP_HASH160] ++ CScript.pushData program ++ [OP_EQUALVERIFY, OP_CHECKSIG]

def witnessScript (witness : CScriptWitness) (program : Valtype) :
    Except ScriptFailure (List Valtype × CScript) :=
  if program.length = 32 then
    match witness.reverse with
    | [] => setError .SCRIPT_ERR_WITNESS_PROGRAM_WITNESS_EMPTY
    | scriptPubKey :: stack => do
      setErrorIf (ctx.hashes.sha256 scriptPubKey != program) .SCRIPT_ERR_WITNESS_PROGRAM_MISMATCH
      .ok (stack, scriptPubKey)
  else if program.length = 20 then do
    setErrorIf (witness.length != 2) .SCRIPT_ERR_WITNESS_PROGRAM_MISMATCH
    .ok (witness.reverse, payToPubKeyHash program)
  else setError .SCRIPT_ERR_WITNESS_PROGRAM_WRONG_LENGTH

def verifyWitnessProgram (witness : CScriptWitness) (witversion : Nat) (program : Valtype) :
    Eval Unit :=
  if witversion = 0 then do
    let (stack, scriptPubKey) ← ctx.witnessScript witness program
    setErrorIf (stack.any fun vch => decide (MAX_SCRIPT_ELEMENT_SIZE < vch.length))
      .SCRIPT_ERR_PUSH_SIZE
    let stack ← ctx.evalScript flags .SIGVERSION_WITNESS_V0 stack scriptPubKey
    setErrorIf (stack.length != 1) .SCRIPT_ERR_EVAL_FALSE
    requireTrue stack
  else
    Traced.lift (setErrorIf
      (hasFlag flags SCRIPT_VERIFY_DISCOURAGE_UPGRADABLE_WITNESS_PROGRAM)
      .SCRIPT_ERR_DISCOURAGE_UPGRADABLE_WITNESS_PROGRAM)

def verifyWitness (witness : CScriptWitness) (script : CScript) (malleated : Bool)
    (serror : ScriptError) (stack : List Valtype) (hadWitness : Bool) :
    Eval (List Valtype × Bool) :=
  if hasFlag flags SCRIPT_VERIFY_WITNESS then
    match script.isWitnessProgram with
    | none => pure (stack, hadWitness)
    | some (witnessversion, witnessprogram) => do
      setErrorIf malleated serror
      ctx.verifyWitnessProgram flags witness witnessversion witnessprogram
      pure (resizeToOne stack, true)
  else pure (stack, hadWitness)

def verifyScriptHash (witness : CScriptWitness) (scriptSig scriptPubKey : CScript)
    (stackCopy : List Valtype) (state : List Valtype × Bool) : Eval (List Valtype × Bool) :=
  if hasFlag flags SCRIPT_VERIFY_P2SH ∧ scriptPubKey.isPayToScriptHash then do
    setErrorIf (!scriptSig.isPushOnly) .SCRIPT_ERR_SIG_PUSHONLY
    match stackCopy with
    | [] => Traced.lift (.error .assertion)
    | pubKey2 :: stack => do
      let stack ← ctx.evalScript flags .SIGVERSION_BASE stack pubKey2
      requireTrue stack
      ctx.verifyWitness flags witness pubKey2 (scriptSig != CScript.pushData pubKey2)
        .SCRIPT_ERR_WITNESS_MALLEATED_P2SH stack state.2
  else pure state

def requireCleanStack (stack : List Valtype) : Except ScriptFailure Unit :=
  if hasFlag flags SCRIPT_VERIFY_CLEANSTACK then do
    assertThat (hasFlag flags SCRIPT_VERIFY_P2SH)
    assertThat (hasFlag flags SCRIPT_VERIFY_WITNESS)
    setErrorIf (stack.length != 1) .SCRIPT_ERR_CLEANSTACK
  else .ok ()

def requireExpectedWitness (witness : CScriptWitness) (hadWitness : Bool) :
    Except ScriptFailure Unit :=
  if hasFlag flags SCRIPT_VERIFY_WITNESS then do
    assertThat (hasFlag flags SCRIPT_VERIFY_P2SH)
    setErrorIf (!hadWitness && !witness.isEmpty) .SCRIPT_ERR_WITNESS_UNEXPECTED
  else .ok ()

def verifyScript (scriptSig scriptPubKey : CScript) (witness : CScriptWitness) : Eval Unit := do
  setErrorIf (hasFlag flags SCRIPT_VERIFY_SIGPUSHONLY && !scriptSig.isPushOnly)
    .SCRIPT_ERR_SIG_PUSHONLY
  let stackCopy ← ctx.evalScript flags .SIGVERSION_BASE [] scriptSig
  let stack ← ctx.evalScript flags .SIGVERSION_BASE stackCopy scriptPubKey
  requireTrue stack
  let state ← ctx.verifyWitness flags witness scriptPubKey (!scriptSig.isEmpty)
    .SCRIPT_ERR_WITNESS_MALLEATED stack false
  let state ← ctx.verifyScriptHash flags witness scriptSig scriptPubKey stackCopy state
  requireCleanStack flags state.1
  requireExpectedWitness flags witness state.2

end ScriptContext

def witnessSigOps (witversion : Nat) (witprogram : Valtype) (witness : CScriptWitness) : Nat :=
  if witversion = 0 then
    if witprogram.length = 20 then 1
    else
      match witness.getLast? with
      | some subscript => if witprogram.length = 32 then CScript.getSigOpCount subscript true else 0
      | none => 0
  else 0

def witnessSigOpsOf (script : CScript) (witness : CScriptWitness) : Option Nat :=
  script.isWitnessProgram.map fun (witnessversion, witnessprogram) =>
    witnessSigOps witnessversion witnessprogram witness

def countWitnessSigOps (scriptSig scriptPubKey : CScript) (witness : CScriptWitness)
    (flags : Nat) : Except ScriptFailure Nat :=
  if hasFlag flags SCRIPT_VERIFY_WITNESS then do
    assertThat (hasFlag flags SCRIPT_VERIFY_P2SH)
    match witnessSigOpsOf scriptPubKey witness with
    | some n => .ok n
    | none =>
      if scriptPubKey.isPayToScriptHash ∧ scriptSig.isPushOnly then
        .ok ((witnessSigOpsOf ((CScript.lastPush [] scriptSig.instructions).getD []) witness).getD 0)
      else .ok 0
  else .ok 0

open Checks Traced

namespace CTxIn

def SEQUENCE_FINAL : UInt32 := 0xffffffff

def SEQUENCE_LOCKTIME_TYPE_FLAG : Nat := 4194304

def SEQUENCE_LOCKTIME_MASK : Nat := 65535

def nLockTimeMask : Nat := SEQUENCE_LOCKTIME_TYPE_FLAG ||| SEQUENCE_LOCKTIME_MASK

end CTxIn

-- `CheckSig`: the hash of the transaction signed and the check of the elliptic curve signature
abbrev CheckSigOracle :=
  CTransaction → Nat → Int → Valtype → Valtype → CScript → SigVersion → Bool

namespace CTransaction

variable (txTo : CTransaction) (nIn : Nat)

def checkLockTime (nLockTime : Int) : Bool :=
  let txLockTime : Int := txTo.nLockTime.toNat
  if ¬ (txLockTime < LOCKTIME_THRESHOLD ∧ nLockTime < LOCKTIME_THRESHOLD ∨
      LOCKTIME_THRESHOLD ≤ txLockTime ∧ LOCKTIME_THRESHOLD ≤ nLockTime) then false
  else if txLockTime < nLockTime then false
  else txTo.vin[nIn]?.any fun txin => txin.nSequence != CTxIn.SEQUENCE_FINAL

def checkSequence (nSequence : Int) : Bool :=
  txTo.vin[nIn]?.any fun txin =>
    let txToSequence := txin.nSequence.toNat
    let txToSequenceMasked := txToSequence &&& CTxIn.nLockTimeMask
    let nSequenceMasked := CScriptNum.land nSequence CTxIn.nLockTimeMask
    if txTo.nVersion % 2 ^ 32 < 2 then false
    else if txToSequence &&& CTxIn.SEQUENCE_LOCKTIME_DISABLE_FLAG ≠ 0 then false
    else if ¬ (txToSequenceMasked < CTxIn.SEQUENCE_LOCKTIME_TYPE_FLAG ∧
          nSequenceMasked < CTxIn.SEQUENCE_LOCKTIME_TYPE_FLAG ∨
        CTxIn.SEQUENCE_LOCKTIME_TYPE_FLAG ≤ txToSequenceMasked ∧
          CTxIn.SEQUENCE_LOCKTIME_TYPE_FLAG ≤ nSequenceMasked) then false
    else decide (nSequenceMasked ≤ txToSequenceMasked)

def signatureChecker (checkSig : CheckSigOracle) (amount : Int) : BaseSignatureChecker where
  checkSig := checkSig txTo nIn amount
  checkLockTime := txTo.checkLockTime nIn
  checkSequence := txTo.checkSequence nIn

end CTransaction

-- a height-type operand of `OP_CHECKSEQUENCEVERIFY` and the number of blocks it asks for
def IsHeightLock (nSequence : Int) : Prop :=
  CScriptNum.land nSequence CTxIn.SEQUENCE_LOCKTIME_TYPE_FLAG = 0

def heightLock (nSequence : Int) : Nat := CScriptNum.land nSequence CTxIn.SEQUENCE_LOCKTIME_MASK

namespace ScriptContext

variable (ctx : ScriptContext) (flags : Nat) (sigversion : SigVersion)

-- a lock time that the checker refuses ends the evaluation
def Accepted : ScriptEvent → Prop
  | .checkSig _ _ _ _ => True
  | .checkLockTime nLockTime => ctx.checker.checkLockTime nLockTime = true
  | .checkSequence nSequence => ctx.checker.checkSequence nSequence = true

theorem vouched_checkSig (vchSig vchPubKey : Valtype) (scriptCode : CScript) :
    Vouched ctx.Accepted (ctx.checkSig vchSig vchPubKey scriptCode sigversion) :=
  (vouched_emit trivial).bind fun _ => vouched_pure _

theorem vouched_evalCheckSig (st : EvalState) (verify : Option ScriptError) :
    Vouched ctx.Accepted (ctx.evalCheckSig flags sigversion st verify) := by
  simp only [evalCheckSig]
  split
  · exact (vouched_lift _).bind fun _ => (vouched_checkSig ctx sigversion _ _ _).bind fun _ =>
      vouched_lift _
  · exact vouched_lift _

theorem vouched_multiSigLoop (scriptCode : CScript) (sigs keys : List Valtype) :
    Vouched ctx.Accepted (ctx.multiSigLoop flags sigversion scriptCode sigs keys) := by
  induction keys generalizing sigs with
  | nil => cases sigs <;> exact vouched_pure _
  | cons key keys ih =>
    cases sigs with
    | nil => exact vouched_pure _
    | cons sig sigs =>
      exact (vouched_lift _).bind fun _ => (vouched_checkSig ctx sigversion _ _ _).bind fun fOk =>
        Vouched.ite (vouched_pure _) (ih _)

theorem vouched_evalCheckMultiSig (st : EvalState) (verify : Option ScriptError) :
    Vouched ctx.Accepted (ctx.evalCheckMultiSig flags sigversion st verify) :=
  (vouched_lift _).bind fun _ => (vouched_multiSigLoop ctx flags sigversion _ _ _).bind fun _ =>
    (vouched_lift _).bind fun _ => vouched_lift _

theorem vouched_asked {w : ScriptEvent} {fOk : Bool} {serror : ScriptError} {st : EvalState}
    (h : fOk = true → ctx.Accepted w) :
    Vouched ctx.Accepted (do
      let fOk ← (do Traced.emit w; pure fOk : Eval Bool)
      setErrorIf (!fOk) serror
      pure st : Eval EvalState) := by
  cases fOk with
  | false => exact vouched_of_error (e := .error serror) rfl
  | true =>
    exact ((vouched_emit (h rfl)).bind fun _ => vouched_pure _).bind fun _ =>
      (vouched_lift _).bind fun _ => vouched_pure _

theorem vouched_lockTimes (st : EvalState) :
    Vouched ctx.Accepted (ctx.evalCheckLockTimeVerify flags st) ∧
      Vouched ctx.Accepted (ctx.evalCheckSequenceVerify flags st) := by
  have hnop : Vouched ctx.Accepted (do discourageNop flags; pure st : Eval EvalState) :=
    (vouched_lift _).bind fun _ => vouched_pure _
  refine ⟨Vouched.ite ?_ hnop, Vouched.ite ?_ hnop⟩
  · exact (vouched_lift _).bind fun _ => vouched_asked ctx id
  · exact (vouched_lift _).bind fun _ => Vouched.ite (vouched_pure _) (vouched_asked ctx id)

theorem vouched_evalOpcode (st : EvalState) (next : CScript) (op : Opcode) :
    Vouched ctx.Accepted (ctx.evalOpcode flags sigversion st next op) := by
  cases op with
  | OP_CHECKSIG => exact vouched_evalCheckSig ctx flags sigversion st _
  | OP_CHECKSIGVERIFY => exact vouched_evalCheckSig ctx flags sigversion st _
  | OP_CHECKMULTISIG => exact vouched_evalCheckMultiSig ctx flags sigversion st _
  | OP_CHECKMULTISIGVERIFY => exact vouched_evalCheckMultiSig ctx flags sigversion st _
  | OP_CHECKLOCKTIMEVERIFY => exact (vouched_lockTimes ctx flags st).1
  | OP_CHECKSEQUENCEVERIFY => exact (vouched_lockTimes ctx flags st).2
  | upgradableNop => exact (vouched_lift _).bind fun _ => vouched_pure _
  | smallInt n => exact vouched_pure _
  | OP_NOP => exact vouched_pure _
  | OP_CODESEPARATOR => exact vouched_pure _
  | _ => exact vouched_lift _

theorem vouched_step (st : EvalState) (i : Instruction) :
    Vouched ctx.Accepted (ctx.step flags sigversion st i) := by
  refine (vouched_lift _).bind fun st => Vouched.bind ?_ fun _ =>
    (vouched_lift _).bind fun _ => vouched_pure _
  exact Vouched.ite ((vouched_lift _).bind fun _ => vouched_pure _)
    (Vouched.ite (vouched_evalOpcode ctx flags sigversion st _ _) (vouched_pure _))

theorem vouched_evalOps (ops : List (Option Instruction)) (st : EvalState) :
    Vouched ctx.Accepted (ctx.evalOps flags sigversion ops st) := by
  induction ops generalizing st with
  | nil => exact vouched_pure _
  | cons op ops ih =>
    cases op with
    | none => exact vouched_lift _
    | some i => exact (vouched_step ctx flags sigversion st i).bind ih

theorem vouched_evalScript (stack : List Valtype) (script : CScript) :
    Vouched ctx.Accepted (ctx.evalScript flags sigversion stack script) :=
  (vouched_lift _).bind fun _ => (vouched_evalOps ctx flags sigversion _ _).bind fun _ =>
    (vouched_lift _).bind fun _ => vouched_pure _

theorem vouched_verifyWitness (witness : CScriptWitness) (script : CScript) (malleated : Bool)
    (serror : ScriptError) (stack : List Valtype) (hadWitness : Bool) :
    Vouched ctx.Accepted
      (ctx.verifyWitness flags witness script malleated serror stack hadWitness) := by
  have hprogram (witversion : Nat) (program : Valtype) :
      Vouched ctx.Accepted (ctx.verifyWitnessProgram flags witness witversion program) := by
    refine Vouched.ite ?_ (vouched_lift _)
    exact (vouched_lift _).bind fun _ => (vouched_lift _).bind fun _ =>
      (vouched_evalScript ctx flags _ _ _).bind fun _ => (vouched_lift _).bind fun _ =>
        vouched_lift _
  refine Vouched.ite ?_ (vouched_pure _)
  cases script.isWitnessProgram with
  | none => exact vouched_pure _
  | some program =>
    exact (vouched_lift _).bind fun _ => (hprogram _ _).bind fun _ => vouched_pure _

theorem vouched_verifyScript (scriptSig scriptPubKey : CScript) (witness : CScriptWitness) :
    Vouched ctx.Accepted (ctx.verifyScript flags scriptSig scriptPubKey witness) := by
  refine (vouched_lift _).bind fun _ => (vouched_evalScript ctx flags _ _ _).bind fun stackCopy =>
    (vouched_evalScript ctx flags _ _ _).bind fun _ => (vouched_lift _).bind fun _ =>
      (vouched_verifyWitness ctx flags _ _ _ _ _ _).bind fun state => Vouched.bind ?_ fun _ =>
        (vouched_lift _).bind fun _ => vouched_lift _
  refine Vouched.ite ((vouched_lift _).bind fun _ => ?_) (vouched_pure _)
  cases stackCopy with
  | nil => exact vouched_lift _
  | cons pubKey2 stack =>
    exact (vouched_evalScript ctx flags _ _ _).bind fun _ => (vouched_lift _).bind fun _ =>
      vouched_verifyWitness ctx flags _ _ _ _ _ _

end ScriptContext

end AnkerNode
