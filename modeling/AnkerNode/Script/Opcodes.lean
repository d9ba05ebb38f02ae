import AnkerNode.Primitives.Transaction
import Mathlib.Data.Nat.Digits.Defs

namespace AnkerNode

namespace CScript

def OP_PUSHDATA1 : UInt8 := 0x4c

def OP_PUSHDATA2 : UInt8 := 0x4d

def OP_PUSHDATA4 : UInt8 := 0x4e

def OP_INVALIDOPCODE : UInt8 := 0xff

end CScript

def OP_0 : UInt8 := 0x00

def OP_1NEGATE : UInt8 := 0x4f

def OP_1 : UInt8 := 0x51

def OP_16 : UInt8 := 0x60

def OP_IF : UInt8 := 0x63

def OP_ENDIF : UInt8 := 0x68

def OP_DUP : UInt8 := 0x76

def OP_EQUAL : UInt8 := 0x87

def OP_EQUALVERIFY : UInt8 := 0x88

def OP_HASH160 : UInt8 := 0xa9

def OP_CHECKSIG : UInt8 := 0xac

def OP_CHECKSIGVERIFY : UInt8 := 0xad

def OP_CHECKMULTISIG : UInt8 := 0xae

def OP_CHECKMULTISIGVERIFY : UInt8 := 0xaf

inductive StackOp
  | OP_2DROP | OP_2DUP | OP_3DUP | OP_2OVER | OP_2ROT | OP_2SWAP | OP_IFDUP | OP_DEPTH | OP_DROP
  | OP_DUP | OP_NIP | OP_OVER | OP_ROT | OP_SWAP | OP_TUCK | OP_SIZE | OP_EQUAL
deriving DecidableEq, Repr

inductive UnaryOp
  | OP_1ADD | OP_1SUB | OP_NEGATE | OP_ABS | OP_NOT | OP_0NOTEQUAL
deriving DecidableEq, Repr

inductive BinaryOp
  | OP_ADD | OP_SUB | OP_BOOLAND | OP_BOOLOR | OP_NUMEQUAL | OP_NUMNOTEQUAL | OP_LESSTHAN
  | OP_GREATERTHAN | OP_LESSTHANOREQUAL | OP_GREATERTHANOREQUAL | OP_MIN | OP_MAX
deriving DecidableEq, Repr

inductive HashOp
  | OP_RIPEMD160 | OP_SHA1 | OP_SHA256 | OP_HASH160 | OP_HASH256
deriving DecidableEq, Repr

inductive Opcode
  | smallInt (n : Int)
  | OP_NOP | upgradableNop | OP_CHECKLOCKTIMEVERIFY | OP_CHECKSEQUENCEVERIFY
  | OP_IF | OP_NOTIF | OP_ELSE | OP_ENDIF | OP_VERIFY | OP_RETURN
  | OP_TOALTSTACK | OP_FROMALTSTACK | OP_PICK | OP_ROLL | OP_EQUALVERIFY
  | stack (op : StackOp)
  | unary (op : UnaryOp)
  | binary (op : BinaryOp)
  | OP_NUMEQUALVERIFY | OP_WITHIN
  | hash (op : HashOp)
  | OP_CODESEPARATOR | OP_CHECKSIG | OP_CHECKSIGVERIFY | OP_CHECKMULTISIG | OP_CHECKMULTISIGVERIFY
  | invalid
deriving DecidableEq, Repr

def disabledOpcodes : List UInt8 :=
  [0x7e, 0x7f, 0x80, 0x81, 0x83, 0x84, 0x85, 0x86, 0x8d, 0x8e, 0x95, 0x96, 0x97, 0x98, 0x99]

-- what the opcode switch does with a byte above `OP_PUSHDATA4`
def Opcode.ofByte (b : UInt8) : Opcode :=
  match b.toNat with
  | 0x4f => smallInt (-1)
  | 0x51 => smallInt 1
  | 0x52 => smallInt 2
  | 0x53 => smallInt 3
  | 0x54 => smallInt 4
  | 0x55 => smallInt 5
  | 0x56 => smallInt 6
  | 0x57 => smallInt 7
  | 0x58 => smallInt 8
  | 0x59 => smallInt 9
  | 0x5a => smallInt 10
  | 0x5b => smallInt 11
  | 0x5c => smallInt 12
  | 0x5d => smallInt 13
  | 0x5e => smallInt 14
  | 0x5f => smallInt 15
  | 0x60 => smallInt 16
  | 0x61 => OP_NOP
  | 0x63 => OP_IF
  | 0x64 => OP_NOTIF
  | 0x67 => OP_ELSE
  | 0x68 => OP_ENDIF
  | 0x69 => OP_VERIFY
  | 0x6a => OP_RETURN
  | 0x6b => OP_TOALTSTACK
  | 0x6c => OP_FROMALTSTACK
  | 0x6d => stack .OP_2DROP
  | 0x6e => stack .OP_2DUP
  | 0x6f => stack .OP_3DUP
  | 0x70 => stack .OP_2OVER
  | 0x71 => stack .OP_2ROT
  | 0x72 => stack .OP_2SWAP
  | 0x73 => stack .OP_IFDUP
  | 0x74 => stack .OP_DEPTH
  | 0x75 => stack .OP_DROP
  | 0x76 => stack .OP_DUP
  | 0x77 => stack .OP_NIP
  | 0x78 => stack .OP_OVER
  | 0x79 => OP_PICK
  | 0x7a => OP_ROLL
  | 0x7b => stack .OP_ROT
  | 0x7c => stack .OP_SWAP
  | 0x7d => stack .OP_TUCK
  | 0x82 => stack .OP_SIZE
  | 0x87 => stack .OP_EQUAL
  | 0x88 => OP_EQUALVERIFY
  | 0x8b => unary .OP_1ADD
  | 0x8c => unary .OP_1SUB
  | 0x8f => unary .OP_NEGATE
  | 0x90 => unary .OP_ABS
  | 0x91 => unary .OP_NOT
  | 0x92 => unary .OP_0NOTEQUAL
  | 0x93 => binary .OP_ADD
  | 0x94 => binary .OP_SUB
  | 0x9a => binary .OP_BOOLAND
  | 0x9b => binary .OP_BOOLOR
  | 0x9c => binary .OP_NUMEQUAL
  | 0x9d => OP_NUMEQUALVERIFY
  | 0x9e => binary .OP_NUMNOTEQUAL
  | 0x9f => binary .OP_LESSTHAN
  | 0xa0 => binary .OP_GREATERTHAN
  | 0xa1 => binary .OP_LESSTHANOREQUAL
  | 0xa2 => binary .OP_GREATERTHANOREQUAL
  | 0xa3 => binary .OP_MIN
  | 0xa4 => binary .OP_MAX
  | 0xa5 => OP_WITHIN
  | 0xa6 => hash .OP_RIPEMD160
  | 0xa7 => hash .OP_SHA1
  | 0xa8 => hash .OP_SHA256
  | 0xa9 => hash .OP_HASH160
  | 0xaa => hash .OP_HASH256
  | 0xab => OP_CODESEPARATOR
  | 0xac => OP_CHECKSIG
  | 0xad => OP_CHECKSIGVERIFY
  | 0xae => OP_CHECKMULTISIG
  | 0xaf => OP_CHECKMULTISIGVERIFY
  | 0xb0 => upgradableNop
  | 0xb1 => OP_CHECKLOCKTIMEVERIFY
  | 0xb2 => OP_CHECKSEQUENCEVERIFY
  | 0xb3 => upgradableNop
  | 0xb4 => upgradableNop
  | 0xb5 => upgradableNop
  | 0xb6 => upgradableNop
  | 0xb7 => upgradableNop
  | 0xb8 => upgradableNop
  | 0xb9 => upgradableNop
  | _ => invalid

def LOCKTIME_THRESHOLD : Int := 500000000

abbrev Valtype := List UInt8

def littleEndian (bytes : List UInt8) : Nat := Nat.ofDigits 256 (bytes.map UInt8.toNat)

namespace CScriptNum

def magnitude : Nat → Nat → List UInt8
  | 0, _ => []
  | fuel + 1, n => if n = 0 then [] else UInt8.ofNat (n % 256) :: magnitude fuel (n / 256)

def serialize (value : Int) : List UInt8 :=
  let result := magnitude 8 value.natAbs
  match result.getLast? with
  | none => []
  | some back =>
    if back &&& 0x80 ≠ 0 then result ++ [if value < 0 then 0x80 else 0]
    else if value < 0 then result.dropLast ++ [back ||| 0x80]
    else result

def isMinimal (vch : Valtype) : Bool :=
  match vch.reverse with
  | [] => true
  | back :: rest => back &&& 0x7f != 0 || (rest.headD 0) &&& 0x80 != 0

def setVch (vch : Valtype) : Int :=
  let result : Int := littleEndian vch
  if vch.getLastD 0 &&& 0x80 != 0 then -(result - 0x80 * 256 ^ (vch.length - 1)) else result

def ofVch (vch : Valtype) (fRequireMinimal : Bool) (nMaxNumSize : Nat := 4) : Option Int :=
  if nMaxNumSize < vch.length then none
  else if fRequireMinimal && !isMinimal vch then none
  else some (setVch vch)

-- `operator&` of the `int64_t` value with a non-negative mask
def land (n : Int) (mask : Nat) : Nat := (n % 2 ^ 64).toNat &&& mask

def getint (n : Int) : Int := max (-2147483648) (min n 2147483647)

theorem ofVch_mono {vch : Valtype} {min₂ min₁ : Bool} {size : Nat} {n : Int}
    (hmin : min₁ = true → min₂ = true) (h : ofVch vch min₂ size = some n) :
    ofVch vch min₁ size = some n := by
  simp only [ofVch] at h ⊢
  split at h
  · simp at h
  · rename_i hsize
    rw [if_neg hsize]
    cases min₁ with
    | false => cases min₂ <;> simp_all
    | true => simpa [hmin rfl] using h

end CScriptNum

def CScript.pushInt64 (n : Int) : CScript :=
  if n = -1 ∨ (1 ≤ n ∧ n ≤ 16) then [UInt8.ofNat (n + (OP_1.toNat - 1)).toNat]
  else if n = 0 then [0]
  else UInt8.ofNat (CScriptNum.serialize n).length :: CScriptNum.serialize n

end AnkerNode
