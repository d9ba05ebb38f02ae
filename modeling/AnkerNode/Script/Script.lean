import AnkerNode.Lib.Checks
import AnkerNode.Lib.Traced
import AnkerNode.Script.Opcodes
import Mathlib.Data.Nat.Bitwise

namespace AnkerNode

def DecodeOP_N (opcode : UInt8) : Nat := if opcode = OP_0 then 0 else opcode.toNat - (OP_1.toNat - 1)

structure Instruction where
  opcode : UInt8
  data : Valtype
  next : CScript
deriving DecidableEq, Repr

namespace CScript

def sizeWidth (opcode : UInt8) : Nat :=
  if opcode = OP_PUSHDATA1 then 1 else if opcode = OP_PUSHDATA2 then 2
  else if opcode = OP_PUSHDATA4 then 4 else 0

def readSize (opcode : UInt8) (pc : CScript) : Nat :=
  if opcode < OP_PUSHDATA1 then opcode.toNat else littleEndian (pc.take (sizeWidth opcode))

def getOp2 : CScript → Option Instruction
  | [] => none
  | opcode :: pc =>
    if opcode ≤ OP_PUSHDATA4 then
      if pc.length < sizeWidth opcode then none
      else if (pc.drop (sizeWidth opcode)).length < readSize opcode pc then none
      else some ⟨opcode, (pc.drop (sizeWidth opcode)).take (readSize opcode pc),
        (pc.drop (sizeWidth opcode)).drop (readSize opcode pc)⟩
    else some ⟨opcode, [], pc⟩

-- the instructions a loop over `GetOp` meets, with `none` for a `GetOp` that fails
def readOps : Nat → CScript → List (Option Instruction)
  | 0, _ => []
  | fuel + 1, pc =>
    if pc.isEmpty then []
    else
      match getOp2 pc with
      | none => [none]
      | some i => some i :: readOps fuel i.next

def instructions (s : CScript) : List (Option Instruction) := readOps s.length s

theorem getOp2_next_lt {pc : CScript} {i : Instruction} (h : getOp2 pc = some i) :
    i.next.length < pc.length := by
  cases pc with
  | nil => simp [getOp2] at h
  | cons opcode pc =>
    simp only [getOp2] at h
    split at h
    · split at h
      · simp at h
      · split at h
        · simp at h
        · cases h
          simp only [List.length_drop, List.length_cons]
          omega
    · cases h
      simp

theorem readOps_eq {fuel : Nat} {pc : CScript} (h : pc.length ≤ fuel) :
    readOps fuel pc = instructions pc := by
  suffices ∀ n fuel (pc : CScript), pc.length ≤ n → n ≤ fuel → readOps fuel pc = readOps n pc from
    this pc.length fuel pc (Nat.le_refl _) h
  intro n
  induction n with
  | zero =>
    intro fuel pc hn _
    obtain rfl := List.length_eq_zero_iff.mp (Nat.le_zero.mp hn)
    cases fuel <;> rfl
  | succ n ih =>
    intro fuel pc hn hfuel
    obtain ⟨fuel, rfl⟩ := Nat.exists_eq_add_of_lt (Nat.lt_of_lt_of_le (Nat.succ_pos n) hfuel)
    rw [Nat.zero_add]
    simp only [readOps]
    cases hop : getOp2 pc with
    | none => rfl
    | some i =>
      have hlt := getOp2_next_lt hop
      simp only
      rw [ih fuel i.next (by omega) (by omega)]

theorem instructions_of_getOp2 {pc : CScript} {i : Instruction} (h : getOp2 pc = some i) :
    instructions pc = some i :: instructions i.next := by
  have hlt := getOp2_next_lt h
  cases pc with
  | nil => simp [getOp2] at h
  | cons b pc =>
    rw [instructions, List.length_cons, readOps]
    simp only [List.isEmpty_cons, Bool.false_eq_true, if_false, h]
    rw [readOps_eq]
    simpa using Nat.le_of_lt_succ hlt

theorem instructions_of_bad {b : UInt8} {pc : CScript} (h : getOp2 (b :: pc) = none) :
    instructions (b :: pc) = [none] := by
  rw [instructions, List.length_cons, readOps]
  simp only [List.isEmpty_cons, Bool.false_eq_true, if_false, h]

theorem instructions_length_le (s : CScript) : s.instructions.length ≤ s.length := by
  suffices ∀ n (pc : CScript), (readOps n pc).length ≤ n from this s.length s
  intro n
  induction n with
  | zero => simp [readOps]
  | succ n ih =>
    intro pc
    simp only [readOps]
    split
    · simp
    · split
      · simp
      · simpa using ih _

-- an opcode without data
theorem instructions_cons {b : UInt8} (hb : OP_PUSHDATA4 < b) (pc : CScript) :
    instructions (b :: pc) = some ⟨b, [], pc⟩ :: instructions pc :=
  instructions_of_getOp2 (if_neg (UInt8.not_le.mpr hb))

-- a direct push
theorem instructions_push {b : UInt8} (hb : b < OP_PUSHDATA1) {data : Valtype}
    (hlen : data.length = b.toNat) (pc : CScript) :
    instructions (b :: (data ++ pc)) = some ⟨b, data, pc⟩ :: instructions pc := by
  have hne1 : b ≠ OP_PUSHDATA1 := UInt8.ne_of_lt hb
  have hne2 : b ≠ OP_PUSHDATA2 := UInt8.ne_of_lt (UInt8.lt_trans hb (by decide))
  have hne4 : b ≠ OP_PUSHDATA4 := UInt8.ne_of_lt (UInt8.lt_trans hb (by decide))
  have hle : b ≤ OP_PUSHDATA4 := UInt8.le_of_lt (UInt8.lt_trans hb (by decide))
  refine instructions_of_getOp2 ?_
  simp only [getOp2, sizeWidth, readSize, hle, hb, hne1, hne2, hne4, if_true, if_false,
    List.drop_zero, ← hlen, List.take_left', List.drop_left']
  simp

def sigOpsAt (fAccurate : Bool) (lastOpcode opcode : UInt8) : Nat :=
  if opcode = OP_CHECKSIG ∨ opcode = OP_CHECKSIGVERIFY then 1
  else if opcode = OP_CHECKMULTISIG ∨ opcode = OP_CHECKMULTISIGVERIFY then
    if fAccurate ∧ OP_1 ≤ lastOpcode ∧ lastOpcode ≤ OP_16 then DecodeOP_N lastOpcode else 20
  else 0

def countSigOps (fAccurate : Bool) : UInt8 → List (Option Instruction) → Nat
  | _, [] => 0
  | _, none :: _ => 0
  | lastOpcode, some i :: ops =>
    sigOpsAt fAccurate lastOpcode i.opcode + countSigOps fAccurate i.opcode ops

-- the counter is an `unsigned int`
def getSigOpCount (s : CScript) (fAccurate : Bool) : Nat :=
  countSigOps fAccurate OP_INVALIDOPCODE s.instructions % 2 ^ 32

def isPayToScriptHash (script : CScript) : Bool :=
  script.length == 23 && script[0]? == some OP_HASH160 && script[1]? == some 0x14 &&
    script[22]? == some OP_EQUAL

def isPushOnly (s : CScript) : Bool :=
  s.instructions.all fun op => op.any fun i => decide (i.opcode ≤ OP_16)

def lastPush : Valtype → List (Option Instruction) → Option Valtype
  | data, [] => some data
  | _, none :: _ => none
  | _, some i :: ops => if OP_16 < i.opcode then none else lastPush i.data ops

def getSigOpCountWith (s scriptSig : CScript) : Nat :=
  if !s.isPayToScriptHash then s.getSigOpCount true
  else
    match lastPush [] scriptSig.instructions with
    | none => 0
    | some data => getSigOpCount data true

def isWitnessProgram (s : CScript) : Option (Nat × Valtype) :=
  match s with
  | version :: size :: program =>
    if s.length < 4 ∨ 42 < s.length then none
    else if version ≠ OP_0 ∧ (version < OP_1 ∨ OP_16 < version) then none
    else if size.toNat + 2 = s.length then some (DecodeOP_N version, program)
    else none
  | _ => none

def pushHeader (size : Nat) : List UInt8 :=
  if size < OP_PUSHDATA1.toNat then [UInt8.ofNat size]
  else if size ≤ 0xff then [OP_PUSHDATA1, UInt8.ofNat size]
  else if size ≤ 0xffff then [OP_PUSHDATA2, UInt8.ofNat size, UInt8.ofNat (size / 256)]
  else [OP_PUSHDATA4, UInt8.ofNat size, UInt8.ofNat (size / 256), UInt8.ofNat (size / 65536),
    UInt8.ofNat (size / 16777216)]

def pushData (b : Valtype) : CScript := pushHeader b.length ++ b

def findAndDeleteFrom (b : CScript) : Nat → CScript → CScript
  | 0, pc => pc
  | fuel + 1, pc =>
    if b.isPrefixOf pc then findAndDeleteFrom b fuel (pc.drop b.length)
    else
      match getOp2 pc with
      | none => pc
      | some i => pc.take (pc.length - i.next.length) ++ findAndDeleteFrom b fuel i.next

def findAndDelete (s b : CScript) : CScript :=
  if b.isEmpty then s else findAndDeleteFrom b (s.length + 1) s

end CScript

def SCRIPT_VERIFY_P2SH : Nat := 1

def SCRIPT_VERIFY_STRICTENC : Nat := 2

def SCRIPT_VERIFY_DERSIG : Nat := 4

def SCRIPT_VERIFY_LOW_S : Nat := 8

def SCRIPT_VERIFY_NULLDUMMY : Nat := 16

def SCRIPT_VERIFY_SIGPUSHONLY : Nat := 32

def SCRIPT_VERIFY_MINIMALDATA : Nat := 64

def SCRIPT_VERIFY_DISCOURAGE_UPGRADABLE_NOPS : Nat := 128

def SCRIPT_VERIFY_CLEANSTACK : Nat := 256

def SCRIPT_VERIFY_CHECKLOCKTIMEVERIFY : Nat := 512

def SCRIPT_VERIFY_CHECKSEQUENCEVERIFY : Nat := 1024

def SCRIPT_VERIFY_WITNESS : Nat := 2048

def SCRIPT_VERIFY_DISCOURAGE_UPGRADABLE_WITNESS_PROGRAM : Nat := 4096

def SCRIPT_VERIFY_WITNESS_PUBKEYTYPE : Nat := 32768

def hasFlag (flags flag : Nat) : Bool := flags &&& flag != 0

def FlagsSubset (flags₁ flags₂ : Nat) : Prop := flags₁ &&& flags₂ = flags₁

instance (flags₁ flags₂ : Nat) : Decidable (FlagsSubset flags₁ flags₂) :=
  inferInstanceAs (Decidable (flags₁ &&& flags₂ = flags₁))

theorem hasFlag_mono {flags₁ flags₂ flag : Nat} (h : FlagsSubset flags₁ flags₂)
    (hf : hasFlag flags₁ flag = true) : hasFlag flags₂ flag = true := by
  simp only [hasFlag, bne_iff_ne, ne_eq] at hf ⊢
  intro hzero
  apply hf
  rw [← h, Nat.land_assoc, hzero, Nat.and_zero]

open Checks

inductive ScriptError
  | SCRIPT_ERR_UNKNOWN_ERROR
  | SCRIPT_ERR_EVAL_FALSE
  | SCRIPT_ERR_OP_RETURN
  | SCRIPT_ERR_SCRIPT_SIZE
  | SCRIPT_ERR_PUSH_SIZE
  | SCRIPT_ERR_OP_COUNT
  | SCRIPT_ERR_STACK_SIZE
  | SCRIPT_ERR_SIG_COUNT
  | SCRIPT_ERR_PUBKEY_COUNT
  | SCRIPT_ERR_VERIFY
  | SCRIPT_ERR_EQUALVERIFY
  | SCRIPT_ERR_CHECKMULTISIGVERIFY
  | SCRIPT_ERR_CHECKSIGVERIFY
  | SCRIPT_ERR_NUMEQUALVERIFY
  | SCRIPT_ERR_BAD_OPCODE
  | SCRIPT_ERR_DISABLED_OPCODE
  | SCRIPT_ERR_INVALID_STACK_OPERATION
  | SCRIPT_ERR_INVALID_ALTSTACK_OPERATION
  | SCRIPT_ERR_UNBALANCED_CONDITIONAL
  | SCRIPT_ERR_NEGATIVE_LOCKTIME
  | SCRIPT_ERR_UNSATISFIED_LOCKTIME
  | SCRIPT_ERR_SIG_HASHTYPE
  | SCRIPT_ERR_SIG_DER
  | SCRIPT_ERR_MINIMALDATA
  | SCRIPT_ERR_SIG_PUSHONLY
  | SCRIPT_ERR_SIG_HIGH_S
  | SCRIPT_ERR_SIG_NULLDUMMY
  | SCRIPT_ERR_PUBKEYTYPE
  | SCRIPT_ERR_CLEANSTACK
  | SCRIPT_ERR_DISCOURAGE_UPGRADABLE_NOPS
  | SCRIPT_ERR_DISCOURAGE_UPGRADABLE_WITNESS_PROGRAM
  | SCRIPT_ERR_WITNESS_PROGRAM_WRONG_LENGTH
  | SCRIPT_ERR_WITNESS_PROGRAM_WITNESS_EMPTY
  | SCRIPT_ERR_WITNESS_PROGRAM_MISMATCH
  | SCRIPT_ERR_WITNESS_MALLEATED
  | SCRIPT_ERR_WITNESS_MALLEATED_P2SH
  | SCRIPT_ERR_WITNESS_UNEXPECTED
  | SCRIPT_ERR_WITNESS_PUBKEYTYPE
deriving DecidableEq, Repr

inductive ScriptFailure
  | error (serror : ScriptError)
  | assertion
deriving DecidableEq, Repr

def setError {α : Type} (serror : ScriptError) : Except ScriptFailure α := .error (.error serror)

def setErrorIf (cond : Bool) (serror : ScriptError) : Except ScriptFailure Unit :=
  failIf cond (.error serror)

theorem setErrorIf_eq_ok {cond : Bool} {serror : ScriptError} {u : Unit} :
    setErrorIf cond serror = .ok u ↔ cond = false :=
  failIf_eq_ok

theorem okImplies_setErrorIf {cond₂ cond₁ : Bool} {serror : ScriptError}
    (h : cond₁ = true → cond₂ = true) :
    OkImplies (setErrorIf cond₂ serror) (setErrorIf cond₁ serror) :=
  okImplies_failIf h

inductive SigVersion
  | SIGVERSION_BASE
  | SIGVERSION_WITNESS_V0
deriving DecidableEq, Repr

structure BaseSignatureChecker where
  checkSig : Valtype → Valtype → CScript → SigVersion → Bool
  checkLockTime : Int → Bool
  checkSequence : Int → Bool

-- the calls an evaluation makes to its checker
inductive ScriptEvent
  | checkSig (vchSig vchPubKey : Valtype) (scriptCode : CScript) (sigversion : SigVersion)
  | checkLockTime (nLockTime : Int)
  | checkSequence (nSequence : Int)
deriving DecidableEq, Repr

def ScriptEvent.isCheckSig : ScriptEvent → Bool
  | .checkSig _ _ _ _ => true
  | _ => false

abbrev Eval (α : Type) := Traced ScriptEvent ScriptFailure α

structure ScriptHashes where
  ripemd160 : Valtype → Valtype
  sha1 : Valtype → Valtype
  sha256 : Valtype → Valtype
  hash160 : Valtype → Valtype
  hash256 : Valtype → Valtype

structure ScriptContext where
  hashes : ScriptHashes
  checker : BaseSignatureChecker

namespace ScriptContext

variable (ctx : ScriptContext)

def checkSig (vchSig vchPubKey : Valtype) (scriptCode : CScript) (sigversion : SigVersion) :
    Eval Bool := do
  Traced.emit (.checkSig vchSig vchPubKey scriptCode sigversion)
  pure (ctx.checker.checkSig vchSig vchPubKey scriptCode sigversion)

def checkLockTime (nLockTime : Int) : Eval Bool := do
  Traced.emit (.checkLockTime nLockTime)
  pure (ctx.checker.checkLockTime nLockTime)

def checkSequence (nSequence : Int) : Eval Bool := do
  Traced.emit (.checkSequence nSequence)
  pure (ctx.checker.checkSequence nSequence)

end ScriptContext

end AnkerNode
