import AnkerNode.Script.SignatureEncoding

namespace AnkerNode

open Checks

def MAX_SCRIPT_ELEMENT_SIZE : Nat := 520

def MAX_OPS_PER_SCRIPT : Nat := 201

def MAX_PUBKEYS_PER_MULTISIG : Int := 20

def CTxIn.SEQUENCE_LOCKTIME_DISABLE_FLAG : Nat := 2147483648

def vchBool (b : Bool) : Valtype := if b then [1] else []

def castToBool : Valtype → Bool
  | [] => false
  | [b] => b != 0 && b != 0x80
  | b :: vch => b != 0 || castToBool vch

def checkMinimalPush (data : Valtype) (opcode : UInt8) : Bool :=
  if data.length = 0 then opcode == OP_0
  else if data.length = 1 ∧ 1 ≤ data.headD 0 ∧ data.headD 0 ≤ 16 then
    opcode == OP_1 + (data.headD 0 - 1)
  else if data = [0x81] then opcode == OP_1NEGATE
  else if data.length ≤ 75 then opcode.toNat == data.length
  else if data.length ≤ 255 then opcode == CScript.OP_PUSHDATA1
  else if data.length ≤ 65535 then opcode == CScript.OP_PUSHDATA2
  else true

-- the exception of `CScriptNum` is caught at the end of `EvalScript`
def scriptNum (vch : Valtype) (fRequireMinimal : Bool) (nMaxNumSize : Nat := 4) :
    Except ScriptFailure Int :=
  fromOption (.error .SCRIPT_ERR_UNKNOWN_ERROR) (CScriptNum.ofVch vch fRequireMinimal nMaxNumSize)

def StackOp.apply : StackOp → List Valtype → Option (List Valtype)
  | OP_2DROP, _ :: _ :: s => some s
  | OP_2DUP, x2 :: x1 :: s => some (x2 :: x1 :: x2 :: x1 :: s)
  | OP_3DUP, x3 :: x2 :: x1 :: s => some (x3 :: x2 :: x1 :: x3 :: x2 :: x1 :: s)
  | OP_2OVER, x4 :: x3 :: x2 :: x1 :: s => some (x2 :: x1 :: x4 :: x3 :: x2 :: x1 :: s)
  | OP_2ROT, x6 :: x5 :: x4 :: x3 :: x2 :: x1 :: s =>
    some (x2 :: x1 :: x6 :: x5 :: x4 :: x3 :: s)
  | OP_2SWAP, x4 :: x3 :: x2 :: x1 :: s => some (x2 :: x1 :: x4 :: x3 :: s)
  | OP_IFDUP, x :: s => some (if castToBool x then x :: x :: s else x :: s)
  | OP_DEPTH, s => some (CScriptNum.serialize s.length :: s)
  | OP_DROP, _ :: s => some s
  | OP_DUP, x :: s => some (x :: x :: s)
  | OP_NIP, x2 :: _ :: s => some (x2 :: s)
  | OP_OVER, x2 :: x1 :: s => some (x1 :: x2 :: x1 :: s)
  | OP_ROT, x3 :: x2 :: x1 :: s => some (x1 :: x3 :: x2 :: s)
  | OP_SWAP, x2 :: x1 :: s => some (x1 :: x2 :: s)
  | OP_TUCK, x2 :: x1 :: s => some (x2 :: x1 :: x2 :: s)
  | OP_SIZE, x :: s => some (CScriptNum.serialize x.length :: x :: s)
  | OP_EQUAL, x2 :: x1 :: s => some (vchBool (x1 == x2) :: s)
  | _, _ => none

def UnaryOp.apply : UnaryOp → Int → Int
  | OP_1ADD, bn => bn + 1
  | OP_1SUB, bn => bn - 1
  | OP_NEGATE, bn => -bn
  | OP_ABS, bn => if bn < 0 then -bn else bn
  | OP_NOT, bn => if bn = 0 then 1 else 0
  | OP_0NOTEQUAL, bn => if bn ≠ 0 then 1 else 0

def BinaryOp.apply : BinaryOp → Int → Int → Int
  | OP_ADD, bn1, bn2 => bn1 + bn2
  | OP_SUB, bn1, bn2 => bn1 - bn2
  | OP_BOOLAND, bn1, bn2 => if bn1 ≠ 0 ∧ bn2 ≠ 0 then 1 else 0
  | OP_BOOLOR, bn1, bn2 => if bn1 ≠ 0 ∨ bn2 ≠ 0 then 1 else 0
  | OP_NUMEQUAL, bn1, bn2 => if bn1 = bn2 then 1 else 0
  | OP_NUMNOTEQUAL, bn1, bn2 => if bn1 ≠ bn2 then 1 else 0
  | OP_LESSTHAN, bn1, bn2 => if bn1 < bn2 then 1 else 0
  | OP_GREATERTHAN, bn1, bn2 => if bn2 < bn1 then 1 else 0
  | OP_LESSTHANOREQUAL, bn1, bn2 => if bn1 ≤ bn2 then 1 else 0
  | OP_GREATERTHANOREQUAL, bn1, bn2 => if bn2 ≤ bn1 then 1 else 0
  | OP_MIN, bn1, bn2 => if bn1 < bn2 then bn1 else bn2
  | OP_MAX, bn1, bn2 => if bn2 < bn1 then bn1 else bn2

def HashOp.apply (hashes : ScriptHashes) : HashOp → Valtype → Valtype
  | OP_RIPEMD160 => hashes.ripemd160
  | OP_SHA1 => hashes.sha1
  | OP_SHA256 => hashes.sha256
  | OP_HASH160 => hashes.hash160
  | OP_HASH256 => hashes.hash256

-- The stacks hold their top first, `vfExec` the innermost condition first. `pbegincodehash` is
-- the script from there on.
structure EvalState where
  stack : List Valtype
  altstack : List Valtype := []
  vfExec : List Bool := []
  nOpCount : Nat := 0
  pbegincodehash : CScript
deriving DecidableEq, Repr

namespace EvalState

variable (st : EvalState)

def fExec : Bool := st.vfExec.all id

def push (vch : Valtype) : EvalState := { st with stack := vch :: st.stack }

def answer (stack : List Valtype) (fSuccess : Bool) (verify : Option ScriptError) :
    Except ScriptFailure EvalState :=
  match verify with
  | none => .ok { st with stack := vchBool fSuccess :: stack }
  | some serror => do
    setErrorIf (!fSuccess) serror
    .ok { st with stack := stack }

def openBranch (negated : Bool) : Except ScriptFailure EvalState :=
  if st.fExec then
    match st.stack with
    | [] => setError .SCRIPT_ERR_UNBALANCED_CONDITIONAL
    | vch :: stack =>
      .ok { st with stack := stack, vfExec := (castToBool vch != negated) :: st.vfExec }
  else .ok { st with vfExec := false :: st.vfExec }

def toggleBranch : Except ScriptFailure EvalState :=
  match st.vfExec with
  | [] => setError .SCRIPT_ERR_UNBALANCED_CONDITIONAL
  | b :: vfExec => .ok { st with vfExec := (!b) :: vfExec }

def closeBranch : Except ScriptFailure EvalState :=
  match st.vfExec with
  | [] => setError .SCRIPT_ERR_UNBALANCED_CONDITIONAL
  | _ :: vfExec => .ok { st with vfExec := vfExec }

def verify : Except ScriptFailure EvalState :=
  match st.stack with
  | [] => setError .SCRIPT_ERR_INVALID_STACK_OPERATION
  | vch :: stack => do
    setErrorIf (!castToBool vch) .SCRIPT_ERR_VERIFY
    .ok { st with stack := stack }

def toAltStack : Except ScriptFailure EvalState :=
  match st.stack with
  | [] => setError .SCRIPT_ERR_INVALID_STACK_OPERATION
  | vch :: stack => .ok { st with stack := stack, altstack := vch :: st.altstack }

def fromAltStack : Except ScriptFailure EvalState :=
  match st.altstack with
  | [] => setError .SCRIPT_ERR_INVALID_ALTSTACK_OPERATION
  | vch :: altstack => .ok { st with stack := vch :: st.stack, altstack := altstack }

def stackOp (op : StackOp) : Except ScriptFailure EvalState :=
  match op.apply st.stack with
  | none => setError .SCRIPT_ERR_INVALID_STACK_OPERATION
  | some stack => .ok { st with stack := stack }

def pick (fRequireMinimal roll : Bool) : Except ScriptFailure EvalState :=
  match st.stack with
  | top :: x :: s => do
    let n := CScriptNum.getint (← scriptNum top fRequireMinimal)
    let stack := x :: s
    setErrorIf (decide (n < 0) || decide ((stack.length : Int) ≤ n))
      .SCRIPT_ERR_INVALID_STACK_OPERATION
    .ok { st with
      stack := stack.getD n.toNat [] :: if roll then stack.eraseIdx n.toNat else stack }
  | _ => setError .SCRIPT_ERR_INVALID_STACK_OPERATION

def equalVerify : Except ScriptFailure EvalState :=
  match st.stack with
  | x2 :: x1 :: stack => st.answer stack (x1 == x2) (some .SCRIPT_ERR_EQUALVERIFY)
  | _ => setError .SCRIPT_ERR_INVALID_STACK_OPERATION

def unaryOp (fRequireMinimal : Bool) (op : UnaryOp) : Except ScriptFailure EvalState :=
  match st.stack with
  | [] => setError .SCRIPT_ERR_INVALID_STACK_OPERATION
  | top :: stack => do
    let bn ← scriptNum top fRequireMinimal
    .ok { st with stack := CScriptNum.serialize (op.apply bn) :: stack }

def binaryArgs (fRequireMinimal : Bool) : Except ScriptFailure (Int × Int × List Valtype) :=
  match st.stack with
  | x2 :: x1 :: stack => do
    let bn1 ← scriptNum x1 fRequireMinimal
    let bn2 ← scriptNum x2 fRequireMinimal
    .ok (bn1, bn2, stack)
  | _ => setError .SCRIPT_ERR_INVALID_STACK_OPERATION

def binaryOp (fRequireMinimal : Bool) (op : BinaryOp) : Except ScriptFailure EvalState := do
  let (bn1, bn2, stack) ← st.binaryArgs fRequireMinimal
  .ok { st with stack := CScriptNum.serialize (op.apply bn1 bn2) :: stack }

def numEqualVerify (fRequireMinimal : Bool) : Except ScriptFailure EvalState := do
  let (bn1, bn2, stack) ← st.binaryArgs fRequireMinimal
  st.answer stack (decide (bn1 = bn2)) (some .SCRIPT_ERR_NUMEQUALVERIFY)

def within (fRequireMinimal : Bool) : Except ScriptFailure EvalState :=
  match st.stack with
  | x3 :: x2 :: x1 :: stack => do
    let bn1 ← scriptNum x1 fRequireMinimal
    let bn2 ← scriptNum x2 fRequireMinimal
    let bn3 ← scriptNum x3 fRequireMinimal
    .ok { st with stack := vchBool (decide (bn2 ≤ bn1) && decide (bn1 < bn3)) :: stack }
  | _ => setError .SCRIPT_ERR_INVALID_STACK_OPERATION

def hashOp (hashes : ScriptHashes) (op : HashOp) : Except ScriptFailure EvalState :=
  match st.stack with
  | [] => setError .SCRIPT_ERR_INVALID_STACK_OPERATION
  | vch :: stack => .ok { st with stack := op.apply hashes vch :: stack }

-- the limits tested before an instruction is looked at, executed or not
def permit (i : Instruction) : Except ScriptFailure EvalState := do
  setErrorIf (decide (MAX_SCRIPT_ELEMENT_SIZE < i.data.length)) .SCRIPT_ERR_PUSH_SIZE
  let nOpCount := if OP_16 < i.opcode then st.nOpCount + 1 else st.nOpCount
  setErrorIf (decide (OP_16 < i.opcode) && decide (MAX_OPS_PER_SCRIPT < nOpCount))
    .SCRIPT_ERR_OP_COUNT
  setErrorIf (disabledOpcodes.contains i.opcode) .SCRIPT_ERR_DISABLED_OPCODE
  .ok { st with nOpCount := nOpCount }

end EvalState

structure MultiSigArgs where
  nKeysCount : Nat
  keys : List Valtype
  sigs : List Valtype
  dummy : Valtype
  rest : List Valtype

def multiSigCount (vch : Valtype) (fRequireMinimal : Bool) (limit : Int) (serror : ScriptError) :
    Except ScriptFailure Nat := do
  let n := CScriptNum.getint (← scriptNum vch fRequireMinimal)
  setErrorIf (decide (n < 0) || decide (limit < n)) serror
  .ok n.toNat

def EvalState.multiSigArgs (st : EvalState) (fRequireMinimal : Bool) :
    Except ScriptFailure MultiSigArgs :=
  match st.stack with
  | [] => setError .SCRIPT_ERR_INVALID_STACK_OPERATION
  | top :: below => do
    let nKeysCount ← multiSigCount top fRequireMinimal MAX_PUBKEYS_PER_MULTISIG
      .SCRIPT_ERR_PUBKEY_COUNT
    setErrorIf (decide (MAX_OPS_PER_SCRIPT < st.nOpCount + nKeysCount)) .SCRIPT_ERR_OP_COUNT
    setErrorIf (decide (below.length < nKeysCount + 1)) .SCRIPT_ERR_INVALID_STACK_OPERATION
    let nSigsCount ← multiSigCount (below.getD nKeysCount []) fRequireMinimal nKeysCount
      .SCRIPT_ERR_SIG_COUNT
    let sigs := below.drop (nKeysCount + 1)
    setErrorIf (decide (sigs.length < nSigsCount + 1)) .SCRIPT_ERR_INVALID_STACK_OPERATION
    .ok {
      nKeysCount := nKeysCount
      keys := below.take nKeysCount
      sigs := sigs.take nSigsCount
      dummy := sigs.getD nSigsCount []
      rest := sigs.drop (nSigsCount + 1) }

namespace ScriptContext

variable (ctx : ScriptContext) (flags : Nat) (sigversion : SigVersion)

def checkEncodings (vchSig vchPubKey : Valtype) : Except ScriptFailure Unit := do
  checkSignatureEncoding vchSig flags
  checkPubKeyEncoding vchPubKey flags sigversion

def dropSignatures (scriptCode : CScript) (sigs : List Valtype) : CScript :=
  match sigversion with
  | .SIGVERSION_BASE => sigs.foldl (fun code sig => code.findAndDelete (CScript.pushData sig)) scriptCode
  | .SIGVERSION_WITNESS_V0 => scriptCode

def evalCheckSig (st : EvalState) (verify : Option ScriptError) : Eval EvalState :=
  match st.stack with
  | vchPubKey :: vchSig :: stack => do
    checkEncodings flags sigversion vchSig vchPubKey
    let fSuccess ← ctx.checkSig vchSig vchPubKey
      (dropSignatures sigversion st.pbegincodehash [vchSig]) sigversion
    st.answer stack fSuccess verify
  | _ => Traced.lift (setError .SCRIPT_ERR_INVALID_STACK_OPERATION)

def multiSigLoop (scriptCode : CScript) : List Valtype → List Valtype → Eval Bool
  | [], _ => pure true
  | _ :: _, [] => pure false
  | vchSig :: sigs, vchPubKey :: keys => do
    checkEncodings flags sigversion vchSig vchPubKey
    let fOk ← ctx.checkSig vchSig vchPubKey scriptCode sigversion
    let left := if fOk then sigs else vchSig :: sigs
    if keys.length < left.length then pure false else multiSigLoop scriptCode left keys

def evalCheckMultiSig (st : EvalState) (verify : Option ScriptError) : Eval EvalState := do
  let args ← st.multiSigArgs (hasFlag flags SCRIPT_VERIFY_MINIMALDATA)
  let fSuccess ← ctx.multiSigLoop flags sigversion
    (dropSignatures sigversion st.pbegincodehash args.sigs) args.sigs args.keys
  setErrorIf (hasFlag flags SCRIPT_VERIFY_NULLDUMMY && !args.dummy.isEmpty)
    .SCRIPT_ERR_SIG_NULLDUMMY
  { st with nOpCount := st.nOpCount + args.nKeysCount }.answer args.rest fSuccess verify

-- an opcode of a later upgrade acts as a NOP as long as its own flag is off
def discourageNop : Except ScriptFailure Unit :=
  setErrorIf (hasFlag flags SCRIPT_VERIFY_DISCOURAGE_UPGRADABLE_NOPS)
    .SCRIPT_ERR_DISCOURAGE_UPGRADABLE_NOPS

def lockTimeArg (st : EvalState) : Except ScriptFailure Int :=
  match st.stack with
  | [] => setError .SCRIPT_ERR_INVALID_STACK_OPERATION
  | top :: _ => do
    let n ← scriptNum top (hasFlag flags SCRIPT_VERIFY_MINIMALDATA) 5
    setErrorIf (decide (n < 0)) .SCRIPT_ERR_NEGATIVE_LOCKTIME
    .ok n

def evalCheckLockTimeVerify (st : EvalState) : Eval EvalState :=
  if hasFlag flags SCRIPT_VERIFY_CHECKLOCKTIMEVERIFY then do
    let nLockTime ← lockTimeArg flags st
    let fOk ← ctx.checkLockTime nLockTime
    setErrorIf (!fOk) .SCRIPT_ERR_UNSATISFIED_LOCKTIME
    pure st
  else do
    discourageNop flags
    pure st

def evalCheckSequenceVerify (st : EvalState) : Eval EvalState :=
  if hasFlag flags SCRIPT_VERIFY_CHECKSEQUENCEVERIFY then do
    let nSequence ← lockTimeArg flags st
    if CScriptNum.land nSequence CTxIn.SEQUENCE_LOCKTIME_DISABLE_FLAG ≠ 0 then pure st
    else do
      let fOk ← ctx.checkSequence nSequence
      setErrorIf (!fOk) .SCRIPT_ERR_UNSATISFIED_LOCKTIME
      pure st
  else do
    discourageNop flags
    pure st

def evalOpcode (st : EvalState) (next : CScript) : Opcode → Eval EvalState
  | .smallInt n => pure (st.push (CScriptNum.serialize n))
  | .OP_NOP => pure st
  | .upgradableNop => do
    discourageNop flags
    pure st
  | .OP_CHECKLOCKTIMEVERIFY => ctx.evalCheckLockTimeVerify flags st
  | .OP_CHECKSEQUENCEVERIFY => ctx.evalCheckSequenceVerify flags st
  | .OP_IF => Traced.lift (st.openBranch false)
  | .OP_NOTIF => Traced.lift (st.openBranch true)
  | .OP_ELSE => Traced.lift st.toggleBranch
  | .OP_ENDIF => Traced.lift st.closeBranch
  | .OP_VERIFY => Traced.lift st.verify
  | .OP_RETURN => Traced.lift (setError .SCRIPT_ERR_OP_RETURN)
  | .OP_TOALTSTACK => Traced.lift st.toAltStack
  | .OP_FROMALTSTACK => Traced.lift st.fromAltStack
  | .OP_PICK => Traced.lift (st.pick (hasFlag flags SCRIPT_VERIFY_MINIMALDATA) false)
  | .OP_ROLL => Traced.lift (st.pick (hasFlag flags SCRIPT_VERIFY_MINIMALDATA) true)
  | .OP_EQUALVERIFY => Traced.lift st.equalVerify
  | .stack op => Traced.lift (st.stackOp op)
  | .unary op => Traced.lift (st.unaryOp (hasFlag flags SCRIPT_VERIFY_MINIMALDATA) op)
  | .binary op => Traced.lift (st.binaryOp (hasFlag flags SCRIPT_VERIFY_MINIMALDATA) op)
  | .OP_NUMEQUALVERIFY => Traced.lift (st.numEqualVerify (hasFlag flags SCRIPT_VERIFY_MINIMALDATA))
  | .OP_WITHIN => Traced.lift (st.within (hasFlag flags SCRIPT_VERIFY_MINIMALDATA))
  | .hash op => Traced.lift (st.hashOp ctx.hashes op)
  | .OP_CODESEPARATOR => pure { st with pbegincodehash := next }
  | .OP_CHECKSIG => ctx.evalCheckSig flags sigversion st none
  | .OP_CHECKSIGVERIFY => ctx.evalCheckSig flags sigversion st (some .SCRIPT_ERR_CHECKSIGVERIFY)
  | .OP_CHECKMULTISIG => ctx.evalCheckMultiSig flags sigversion st none
  | .OP_CHECKMULTISIGVERIFY =>
    ctx.evalCheckMultiSig flags sigversion st (some .SCRIPT_ERR_CHECKMULTISIGVERIFY)
  | .invalid => Traced.lift (setError .SCRIPT_ERR_BAD_OPCODE)

def execute (st : EvalState) (i : Instruction) : Eval EvalState :=
  if st.fExec ∧ i.opcode ≤ CScript.OP_PUSHDATA4 then do
    setErrorIf (hasFlag flags SCRIPT_VERIFY_MINIMALDATA && !checkMinimalPush i.data i.opcode)
      .SCRIPT_ERR_MINIMALDATA
    pure (st.push i.data)
  else if st.fExec ∨ (OP_IF ≤ i.opcode ∧ i.opcode ≤ OP_ENDIF) then
    ctx.evalOpcode flags sigversion st i.next (Opcode.ofByte i.opcode)
  else pure st

def step (st : EvalState) (i : Instruction) : Eval EvalState := do
  let st ← st.permit i
  let st ← ctx.execute flags sigversion st i
  setErrorIf (decide (1000 < st.stack.length + st.altstack.length)) .SCRIPT_ERR_STACK_SIZE
  pure st

def evalOps : List (Option Instruction) → EvalState → Eval EvalState
  | [], st => pure st
  | none :: _, _ => Traced.lift (setError .SCRIPT_ERR_BAD_OPCODE)
  | some i :: ops, st => do
    let st ← ctx.step flags sigversion st i
    evalOps ops st

def evalScript (stack : List Valtype) (script : CScript) : Eval (List Valtype) := do
  setErrorIf (decide (10000 < script.length)) .SCRIPT_ERR_SCRIPT_SIZE
  let st ← ctx.evalOps flags sigversion script.instructions
    { stack := stack, pbegincodehash := script }
  setErrorIf (!st.vfExec.isEmpty) .SCRIPT_ERR_UNBALANCED_CONDITIONAL
  pure st.stack

end ScriptContext

end AnkerNode
