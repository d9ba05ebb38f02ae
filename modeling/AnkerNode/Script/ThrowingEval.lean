import AnkerNode.Script.Interpreter

namespace AnkerNode

open Checks

-- The interpreter with its stack accesses written out: what they throw, what is asserted, which
-- iterators they form and how often its loops turn.
namespace Throwing

inductive Thrown
  | scriptnum_error
  | out_of_range
  | popstack
deriving DecidableEq, Repr

inductive Stop
  | returned (failure : ScriptFailure)
  | thrown (e : Thrown)
  | assertion
  | badIterator
  | endless
deriving DecidableEq, Repr

abbrev Exec (α : Type) := Traced ScriptEvent Stop α

section Stack

def setError {α : Type} (serror : ScriptError) : Except Stop α := .error (.returned (.error serror))

def setErrorIf (cond : Bool) (serror : ScriptError) : Except Stop Unit :=
  failIf cond (.returned (.error serror))

def returns {α : Type} (x : Except ScriptFailure α) : Except Stop α := mapError .returned x

def calls {α : Type} (x : Eval α) : Exec α := ⟨x.log, mapError .returned x.result⟩

-- `stack.at(stack.size() + i)`; the index wraps beyond every size unless `i` is negative
def stacktop (stack : List Valtype) (i : Int) : Except Stop Valtype :=
  if i < 0 then fromOption (.thrown .out_of_range) stack[(-i - 1).toNat]?
  else .error (.thrown .out_of_range)

def popstack : List Valtype → Except Stop (List Valtype)
  | [] => .error (.thrown .popstack)
  | _ :: stack => .ok stack

def popTimes : Nat → List Valtype → Except Stop (List Valtype)
  | 0, stack => .ok stack
  | n + 1, stack => do
    let stack ← popstack stack
    popTimes n stack

def swapTop (stack : List Valtype) (i j : Int) : Except Stop (List Valtype) := do
  let a ← stacktop stack i
  let b ← stacktop stack j
  .ok ((stack.set (-i - 1).toNat b).set (-j - 1).toNat a)

-- `stack.erase(stack.end() - first, stack.end() - last)`
def eraseTop (stack : List Valtype) (first last : Nat) : Except Stop (List Valtype) :=
  if stack.length < first then .error .badIterator else .ok (stack.take last ++ stack.drop first)

-- `stack.insert(stack.end() - n, vch)`
def insertTop (stack : List Valtype) (n : Nat) (vch : Valtype) : Except Stop (List Valtype) :=
  if stack.length < n then .error .badIterator else .ok (stack.take n ++ vch :: stack.drop n)

def need (stack : List Valtype) (n : Nat) : Except Stop Unit :=
  setErrorIf (decide (stack.length < n)) .SCRIPT_ERR_INVALID_STACK_OPERATION

def answer (stack : List Valtype) (fSuccess : Bool) (verify : Option ScriptError) :
    Except Stop (List Valtype) :=
  match verify with
  | none => .ok (vchBool fSuccess :: stack)
  | some serror =>
    if fSuccess then popstack (vchBool fSuccess :: stack) else setError serror

end Stack

section Numbers

def int64Min : Int := -2 ^ 63

def int64Max : Int := 2 ^ 63 - 1

def scriptNum (vch : Valtype) (fRequireMinimal : Bool) (nMaxNumSize : Nat := 4) :
    Except Stop Int :=
  fromOption (.thrown .scriptnum_error) (CScriptNum.ofVch vch fRequireMinimal nMaxNumSize)

def negate (bn : Int) : Except Stop Int := if bn = int64Min then .error .assertion else .ok (-bn)

def addAssign (bn rhs : Int) : Except Stop Int :=
  if rhs = 0 ∨ (0 < rhs ∧ bn ≤ int64Max - rhs) ∨ (rhs < 0 ∧ int64Min - rhs ≤ bn) then .ok (bn + rhs)
  else .error .assertion

def subAssign (bn rhs : Int) : Except Stop Int :=
  if rhs = 0 ∨ (0 < rhs ∧ int64Min + rhs ≤ bn) ∨ (rhs < 0 ∧ bn ≤ int64Max + rhs) then .ok (bn - rhs)
  else .error .assertion

def unary : UnaryOp → Int → Except Stop Int
  | .OP_1ADD, bn => addAssign bn 1
  | .OP_1SUB, bn => subAssign bn 1
  | .OP_NEGATE, bn => negate bn
  | .OP_ABS, bn => if bn < 0 then negate bn else .ok bn
  | .OP_NOT, bn => .ok (if bn = 0 then 1 else 0)
  | .OP_0NOTEQUAL, bn => .ok (if bn ≠ 0 then 1 else 0)

end Numbers

section Operations

def stackOp (stack : List Valtype) : StackOp → Except Stop (List Valtype)
  | .OP_2DROP => do
    need stack 2
    let stack ← popstack stack
    popstack stack
  | .OP_2DUP => do
    need stack 2
    let vch1 ← stacktop stack (-2)
    let vch2 ← stacktop stack (-1)
    .ok (vch2 :: vch1 :: stack)
  | .OP_3DUP => do
    need stack 3
    let vch1 ← stacktop stack (-3)
    let vch2 ← stacktop stack (-2)
    let vch3 ← stacktop stack (-1)
    .ok (vch3 :: vch2 :: vch1 :: stack)
  | .OP_2OVER => do
    need stack 4
    let vch1 ← stacktop stack (-4)
    let vch2 ← stacktop stack (-3)
    .ok (vch2 :: vch1 :: stack)
  | .OP_2ROT => do
    need stack 6
    let vch1 ← stacktop stack (-6)
    let vch2 ← stacktop stack (-5)
    let stack ← eraseTop stack 6 4
    .ok (vch2 :: vch1 :: stack)
  | .OP_2SWAP => do
    need stack 4
    let stack ← swapTop stack (-4) (-2)
    swapTop stack (-3) (-1)
  | .OP_IFDUP => do
    need stack 1
    let vch ← stacktop stack (-1)
    .ok (if castToBool vch then vch :: stack else stack)
  | .OP_DEPTH => .ok (CScriptNum.serialize stack.length :: stack)
  | .OP_DROP => do
    need stack 1
    popstack stack
  | .OP_DUP => do
    need stack 1
    let vch ← stacktop stack (-1)
    .ok (vch :: stack)
  | .OP_NIP => do
    need stack 2
    eraseTop stack 2 1
  | .OP_OVER => do
    need stack 2
    let vch ← stacktop stack (-2)
    .ok (vch :: stack)
  | .OP_ROT => do
    need stack 3
    let stack ← swapTop stack (-3) (-2)
    swapTop stack (-2) (-1)
  | .OP_SWAP => do
    need stack 2
    swapTop stack (-2) (-1)
  | .OP_TUCK => do
    need stack 2
    let vch ← stacktop stack (-1)
    insertTop stack 2 vch
  | .OP_SIZE => do
    need stack 1
    let vch ← stacktop stack (-1)
    .ok (CScriptNum.serialize vch.length :: stack)
  | .OP_EQUAL => do
    need stack 2
    let vch1 ← stacktop stack (-2)
    let vch2 ← stacktop stack (-1)
    let stack ← popTimes 2 stack
    .ok (vchBool (vch1 == vch2) :: stack)

def equalVerify (stack : List Valtype) : Except Stop (List Valtype) := do
  need stack 2
  let vch1 ← stacktop stack (-2)
  let vch2 ← stacktop stack (-1)
  let stack ← popTimes 2 stack
  answer stack (vch1 == vch2) (some .SCRIPT_ERR_EQUALVERIFY)

def verify (stack : List Valtype) : Except Stop (List Valtype) := do
  need stack 1
  let vch ← stacktop stack (-1)
  if castToBool vch then popstack stack else setError .SCRIPT_ERR_VERIFY

def pick (stack : List Valtype) (fRequireMinimal roll : Bool) : Except Stop (List Valtype) := do
  need stack 2
  let top ← stacktop stack (-1)
  let bn ← scriptNum top fRequireMinimal
  let n := CScriptNum.getint bn
  let stack ← popstack stack
  setErrorIf (decide (n < 0) || decide ((stack.length : Int) ≤ n))
    .SCRIPT_ERR_INVALID_STACK_OPERATION
  let vch ← stacktop stack (-n - 1)
  let stack ← if roll then eraseTop stack (n + 1).toNat n.toNat else .ok stack
  .ok (vch :: stack)

def unaryOp (stack : List Valtype) (fRequireMinimal : Bool) (op : UnaryOp) :
    Except Stop (List Valtype) := do
  need stack 1
  let top ← stacktop stack (-1)
  let bn ← scriptNum top fRequireMinimal
  let bn ← unary op bn
  let stack ← popstack stack
  .ok (CScriptNum.serialize bn :: stack)

def binaryOp (stack : List Valtype) (fRequireMinimal : Bool) (op : BinaryOp) (verify : Bool) :
    Except Stop (List Valtype) := do
  need stack 2
  let vch1 ← stacktop stack (-2)
  let bn1 ← scriptNum vch1 fRequireMinimal
  let vch2 ← stacktop stack (-1)
  let bn2 ← scriptNum vch2 fRequireMinimal
  let stack ← popTimes 2 stack
  let stack := CScriptNum.serialize (op.apply bn1 bn2) :: stack
  if verify then do
    let top ← stacktop stack (-1)
    if castToBool top then popstack stack else setError .SCRIPT_ERR_NUMEQUALVERIFY
  else .ok stack

def within (stack : List Valtype) (fRequireMinimal : Bool) : Except Stop (List Valtype) := do
  need stack 3
  let vch1 ← stacktop stack (-3)
  let bn1 ← scriptNum vch1 fRequireMinimal
  let vch2 ← stacktop stack (-2)
  let bn2 ← scriptNum vch2 fRequireMinimal
  let vch3 ← stacktop stack (-1)
  let bn3 ← scriptNum vch3 fRequireMinimal
  let stack ← popTimes 3 stack
  .ok (vchBool (decide (bn2 ≤ bn1) && decide (bn1 < bn3)) :: stack)

def hashOp (stack : List Valtype) (hashes : ScriptHashes) (op : HashOp) :
    Except Stop (List Valtype) := do
  need stack 1
  let vch ← stacktop stack (-1)
  let stack ← popstack stack
  .ok (op.apply hashes vch :: stack)

def openBranch (st : EvalState) (negated : Bool) : Except Stop EvalState :=
  if st.fExec then do
    setErrorIf (decide (st.stack.length < 1)) .SCRIPT_ERR_UNBALANCED_CONDITIONAL
    let vch ← stacktop st.stack (-1)
    let stack ← popstack st.stack
    .ok { st with stack := stack, vfExec := (castToBool vch != negated) :: st.vfExec }
  else .ok { st with vfExec := false :: st.vfExec }

def toAltStack (st : EvalState) : Except Stop EvalState := do
  need st.stack 1
  let vch ← stacktop st.stack (-1)
  let stack ← popstack st.stack
  .ok { st with stack := stack, altstack := vch :: st.altstack }

def fromAltStack (st : EvalState) : Except Stop EvalState := do
  setErrorIf (decide (st.altstack.length < 1)) .SCRIPT_ERR_INVALID_ALTSTACK_OPERATION
  let vch ← stacktop st.altstack (-1)
  let altstack ← popstack st.altstack
  .ok { st with stack := vch :: st.stack, altstack := altstack }

def onStack (st : EvalState) (x : Except Stop (List Valtype)) : Exec EvalState :=
  Traced.lift do
    let stack ← x
    .ok { st with stack := stack }

end Operations

section Signatures

variable (ctx : ScriptContext) (flags : Nat) (sigversion : SigVersion)

def evalCheckSig (st : EvalState) (verify : Option ScriptError) : Exec EvalState := do
  need st.stack 2
  let vchSig ← stacktop st.stack (-2)
  let vchPubKey ← stacktop st.stack (-1)
  let scriptCode := ScriptContext.dropSignatures sigversion st.pbegincodehash [vchSig]
  returns (ScriptContext.checkEncodings flags sigversion vchSig vchPubKey)
  let fSuccess ← calls (ctx.checkSig vchSig vchPubKey scriptCode sigversion)
  let stack ← popTimes 2 st.stack
  onStack st (answer stack fSuccess verify)

def multiSigLoop (stack : List Valtype) (scriptCode : CScript) :
    Nat → (isig ikey nSigsCount nKeysCount : Int) → Exec Bool
  | 0, _, _, _, _ => Traced.lift (.error .endless)
  | fuel + 1, isig, ikey, nSigsCount, nKeysCount =>
    if nSigsCount ≤ 0 then pure true
    else do
      let vchSig ← stacktop stack (-isig)
      let vchPubKey ← stacktop stack (-ikey)
      returns (ScriptContext.checkEncodings flags sigversion vchSig vchPubKey)
      let fOk ← calls (ctx.checkSig vchSig vchPubKey scriptCode sigversion)
      let isig := if fOk then isig + 1 else isig
      let nSigsCount := if fOk then nSigsCount - 1 else nSigsCount
      if nKeysCount - 1 < nSigsCount then pure false
      else multiSigLoop stack scriptCode fuel isig (ikey + 1) nSigsCount (nKeysCount - 1)

structure MultiSig where
  nKeysCount : Int
  nSigsCount : Int
  isig : Int
  i : Int

def multiSigArgs (st : EvalState) : Except Stop MultiSig := do
  need st.stack 1
  let top ← stacktop st.stack (-1)
  let bn ← scriptNum top (hasFlag flags SCRIPT_VERIFY_MINIMALDATA)
  let nKeysCount := CScriptNum.getint bn
  setErrorIf (decide (nKeysCount < 0) || decide (MAX_PUBKEYS_PER_MULTISIG < nKeysCount))
    .SCRIPT_ERR_PUBKEY_COUNT
  setErrorIf (decide ((MAX_OPS_PER_SCRIPT : Int) < st.nOpCount + nKeysCount)) .SCRIPT_ERR_OP_COUNT
  let i := 2 + nKeysCount
  setErrorIf (decide ((st.stack.length : Int) < i)) .SCRIPT_ERR_INVALID_STACK_OPERATION
  let top ← stacktop st.stack (-i)
  let bn ← scriptNum top (hasFlag flags SCRIPT_VERIFY_MINIMALDATA)
  let nSigsCount := CScriptNum.getint bn
  setErrorIf (decide (nSigsCount < 0) || decide (nKeysCount < nSigsCount)) .SCRIPT_ERR_SIG_COUNT
  let isig := i + 1
  let i := isig + nSigsCount
  setErrorIf (decide ((st.stack.length : Int) < i)) .SCRIPT_ERR_INVALID_STACK_OPERATION
  .ok { nKeysCount := nKeysCount, nSigsCount := nSigsCount, isig := isig, i := i }

def signaturesFrom (stack : List Valtype) (isig : Int) : Nat → Except Stop (List Valtype)
  | 0 => .ok []
  | n + 1 => do
    let vchSig ← stacktop stack (-isig)
    let sigs ← signaturesFrom stack (isig + 1) n
    .ok (vchSig :: sigs)

def cleanUpMultiSig (stack : List Valtype) (i : Int) (fSuccess : Bool)
    (verify : Option ScriptError) : Except Stop (List Valtype) := do
  let stack ← popTimes (i - 1).toNat stack
  need stack 1
  if hasFlag flags SCRIPT_VERIFY_NULLDUMMY then do
    let dummy ← stacktop stack (-1)
    setErrorIf (!dummy.isEmpty) .SCRIPT_ERR_SIG_NULLDUMMY
    let stack ← popstack stack
    answer stack fSuccess verify
  else do
    let stack ← popstack stack
    answer stack fSuccess verify

def evalCheckMultiSig (st : EvalState) (verify : Option ScriptError) : Exec EvalState := do
  let args ← multiSigArgs flags st
  let sigs ← signaturesFrom st.stack args.isig args.nSigsCount.toNat
  let scriptCode := ScriptContext.dropSignatures sigversion st.pbegincodehash sigs
  let fSuccess ← multiSigLoop ctx flags sigversion st.stack scriptCode (args.nKeysCount.toNat + 1)
    args.isig 2 args.nSigsCount args.nKeysCount
  onStack { st with nOpCount := st.nOpCount + args.nKeysCount.toNat }
    (cleanUpMultiSig flags st.stack args.i fSuccess verify)

end Signatures

section Interpreter

variable (ctx : ScriptContext) (flags : Nat) (sigversion : SigVersion)

def lockTimeArg (st : EvalState) : Except Stop Int := do
  need st.stack 1
  let top ← stacktop st.stack (-1)
  let n ← scriptNum top (hasFlag flags SCRIPT_VERIFY_MINIMALDATA) 5
  setErrorIf (decide (n < 0)) .SCRIPT_ERR_NEGATIVE_LOCKTIME
  .ok n

def evalCheckLockTimeVerify (st : EvalState) : Exec EvalState :=
  if hasFlag flags SCRIPT_VERIFY_CHECKLOCKTIMEVERIFY then do
    let nLockTime ← lockTimeArg flags st
    let fOk ← calls (ctx.checkLockTime nLockTime)
    setErrorIf (!fOk) .SCRIPT_ERR_UNSATISFIED_LOCKTIME
    pure st
  else do
    returns (ScriptContext.discourageNop flags)
    pure st

def evalCheckSequenceVerify (st : EvalState) : Exec EvalState :=
  if hasFlag flags SCRIPT_VERIFY_CHECKSEQUENCEVERIFY then do
    let nSequence ← lockTimeArg flags st
    if CScriptNum.land nSequence CTxIn.SEQUENCE_LOCKTIME_DISABLE_FLAG ≠ 0 then pure st
    else do
      let fOk ← calls (ctx.checkSequence nSequence)
      setErrorIf (!fOk) .SCRIPT_ERR_UNSATISFIED_LOCKTIME
      pure st
  else do
    returns (ScriptContext.discourageNop flags)
    pure st

def evalOpcode (st : EvalState) (next : CScript) : Opcode → Exec EvalState
  | .smallInt n => pure (st.push (CScriptNum.serialize n))
  | .OP_NOP => pure st
  | .upgradableNop => do
    returns (ScriptContext.discourageNop flags)
    pure st
  | .OP_CHECKLOCKTIMEVERIFY => evalCheckLockTimeVerify ctx flags st
  | .OP_CHECKSEQUENCEVERIFY => evalCheckSequenceVerify ctx flags st
  | .OP_IF => Traced.lift (openBranch st false)
  | .OP_NOTIF => Traced.lift (openBranch st true)
  | .OP_ELSE => Traced.lift (returns st.toggleBranch)
  | .OP_ENDIF => Traced.lift (returns st.closeBranch)
  | .OP_VERIFY => onStack st (verify st.stack)
  | .OP_RETURN => Traced.lift (setError .SCRIPT_ERR_OP_RETURN)
  | .OP_TOALTSTACK => Traced.lift (toAltStack st)
  | .OP_FROMALTSTACK => Traced.lift (fromAltStack st)
  | .OP_PICK => onStack st (pick st.stack (hasFlag flags SCRIPT_VERIFY_MINIMALDATA) false)
  | .OP_ROLL => onStack st (pick st.stack (hasFlag flags SCRIPT_VERIFY_MINIMALDATA) true)
  | .OP_EQUALVERIFY => onStack st (equalVerify st.stack)
  | .stack op => onStack st (stackOp st.stack op)
  | .unary op => onStack st (unaryOp st.stack (hasFlag flags SCRIPT_VERIFY_MINIMALDATA) op)
  | .binary op => onStack st (binaryOp st.stack (hasFlag flags SCRIPT_VERIFY_MINIMALDATA) op false)
  | .OP_NUMEQUALVERIFY =>
    onStack st (binaryOp st.stack (hasFlag flags SCRIPT_VERIFY_MINIMALDATA) .OP_NUMEQUAL true)
  | .OP_WITHIN => onStack st (within st.stack (hasFlag flags SCRIPT_VERIFY_MINIMALDATA))
  | .hash op => onStack st (hashOp st.stack ctx.hashes op)
  | .OP_CODESEPARATOR => pure { st with pbegincodehash := next }
  | .OP_CHECKSIG => evalCheckSig ctx flags sigversion st none
  | .OP_CHECKSIGVERIFY =>
    evalCheckSig ctx flags sigversion st (some .SCRIPT_ERR_CHECKSIGVERIFY)
  | .OP_CHECKMULTISIG => evalCheckMultiSig ctx flags sigversion st none
  | .OP_CHECKMULTISIGVERIFY =>
    evalCheckMultiSig ctx flags sigversion st (some .SCRIPT_ERR_CHECKMULTISIGVERIFY)
  | .invalid => Traced.lift (setError .SCRIPT_ERR_BAD_OPCODE)

def execute (st : EvalState) (i : Instruction) : Exec EvalState :=
  if st.fExec ∧ i.opcode ≤ CScript.OP_PUSHDATA4 then do
    setErrorIf (hasFlag flags SCRIPT_VERIFY_MINIMALDATA && !checkMinimalPush i.data i.opcode)
      .SCRIPT_ERR_MINIMALDATA
    pure (st.push i.data)
  else if st.fExec ∨ (OP_IF ≤ i.opcode ∧ i.opcode ≤ OP_ENDIF) then
    evalOpcode ctx flags sigversion st i.next (Opcode.ofByte i.opcode)
  else pure st

def step (st : EvalState) (i : Instruction) : Exec EvalState := do
  let st ← returns (st.permit i)
  let st ← execute ctx flags sigversion st i
  setErrorIf (decide (1000 < st.stack.length + st.altstack.length)) .SCRIPT_ERR_STACK_SIZE
  pure st

-- `while (pc < pend)`
def evalLoop : Nat → CScript → EvalState → Exec EvalState
  | 0, pc, st => if pc.isEmpty then pure st else Traced.lift (.error .endless)
  | fuel + 1, pc, st =>
    if pc.isEmpty then pure st
    else
      match CScript.getOp2 pc with
      | none => Traced.lift (setError .SCRIPT_ERR_BAD_OPCODE)
      | some i => do
        let st ← step ctx flags sigversion st i
        evalLoop fuel i.next st

-- What leaves the function is the returned failure, and what `catch (...)` sees is thrown.
def evalScript (stack : List Valtype) (script : CScript) : Exec (List Valtype) := do
  setErrorIf (decide (10000 < script.length)) .SCRIPT_ERR_SCRIPT_SIZE
  let st ← evalLoop ctx flags sigversion script.length script
    { stack := stack, pbegincodehash := script }
  setErrorIf (!st.vfExec.isEmpty) .SCRIPT_ERR_UNBALANCED_CONDITIONAL
  pure st.stack

end Interpreter

end Throwing

end AnkerNode
