import AnkerNode.Lib.DigitText
import Mathlib.Data.List.DropRight
import Mathlib.Data.List.Nodup

namespace AnkerNode

abbrev UInt256 := BitVec 256

instance : LawfulBEq UInt256 := instLawfulBEq

def UInt256.getHex (x : UInt256) : String := String.ofList (DigitText.hexText 64 x.toNat)

abbrev CScript := List UInt8

def COIN : Int := 100000000

def int64Max : Int := 9223372036854775807

def OP_RETURN : UInt8 := 0x6a

def OP_ZEROCOINMINT : UInt8 := 0xc1

def OP_ZEROCOINSPEND : UInt8 := 0xc2

namespace CScript

def isZerocoinMint (s : CScript) : Bool := s.head? == some OP_ZEROCOINMINT

def isZerocoinSpend (s : CScript) : Bool := s.head? == some OP_ZEROCOINSPEND

def isUnspendable (s : CScript) : Bool := s.head? == some OP_RETURN

end CScript

structure COutPoint where
  hash : UInt256
  n : UInt32
deriving DecidableEq, Repr

def COutPoint.null : COutPoint := ⟨0, 0xffffffff⟩

def COutPoint.isNull (o : COutPoint) : Bool := o.hash == 0 && o.n == 0xffffffff

structure CTxIn where
  prevout : COutPoint
  scriptSig : CScript
  nSequence : UInt32 := 0xffffffff
deriving DecidableEq, Repr

-- `CTxIn()`
def CTxIn.null : CTxIn := ⟨COutPoint.null, [], 0xffffffff⟩

structure CTxOut where
  nValue : Int
  scriptPubKey : CScript
deriving DecidableEq, Repr

namespace CTxOut

def null : CTxOut := ⟨-1, []⟩

def isNull (o : CTxOut) : Bool := o.nValue == -1

def isEmpty (o : CTxOut) : Bool := o.nValue == 0 && o.scriptPubKey.isEmpty

def isZerocoinMint (o : CTxOut) : Bool :=
  !o.scriptPubKey.isEmpty && o.scriptPubKey.isZerocoinMint

@[simp] theorem isNull_null : null.isNull = true := rfl

theorem isNull_iff {o : CTxOut} : o.isNull = true ↔ o.nValue = -1 := by
  simp [isNull]

end CTxOut

structure CTransaction where
  hash : UInt256
  nVersion : Int := 1
  vin : List CTxIn
  vout : List CTxOut
  nLockTime : UInt32 := 0
  vtxinwit : List (List (List UInt8)) := []
deriving DecidableEq, Repr

namespace CTransaction

def prevouts (tx : CTransaction) : List COutPoint := tx.vin.map CTxIn.prevout

def isZerocoinSpend (tx : CTransaction) : Bool :=
  match tx.vin with
  | [] => false
  | txin :: _ => txin.prevout.hash == 0 && txin.scriptSig.isZerocoinSpend

def isZerocoinMint (tx : CTransaction) : Bool :=
  tx.vout.any (fun o => o.scriptPubKey.isZerocoinMint)

def containsZerocoins (tx : CTransaction) : Bool :=
  tx.isZerocoinSpend || tx.isZerocoinMint

def isCoinBase (tx : CTransaction) : Bool :=
  match tx.vin with
  | [txin] => txin.prevout.isNull && !tx.containsZerocoins
  | _ => false

def isCoinStake (tx : CTransaction) : Bool :=
  match tx.vin, tx.vout with
  | txin :: _, o :: _ :: _ => !txin.prevout.isNull && o.isEmpty
  | _, _ => false

def addValueOut (acc : Int) (o : CTxOut) : Option Int :=
  if o.nValue < 0 then none
  else if int64Max < acc + o.nValue then none
  else some (acc + o.nValue)

def getValueOut (tx : CTransaction) : Option Int :=
  tx.vout.foldlM addValueOut 0

def getZerocoinSpent (tx : CTransaction) : Int :=
  if tx.isZerocoinSpend then
    ((tx.vin.filter fun txin => txin.scriptSig.isZerocoinSpend).map
      fun txin => (txin.nSequence.toNat : Int) * COIN).sum
  else 0

def spendsCoins (tx : CTransaction) : Bool :=
  !tx.isCoinBase && !tx.isZerocoinSpend

theorem addValueOut_eq_some {acc v : Int} {o : CTxOut} (h : addValueOut acc o = some v) :
    0 ≤ o.nValue ∧ v = acc + o.nValue := by
  simp only [addValueOut] at h
  split at h
  · simp at h
  · split at h
    · simp at h
    · simp only [Option.some.injEq] at h
      exact ⟨by omega, h.symm⟩

theorem foldlM_addValueOut {vout : List CTxOut} {acc v : Int}
    (h : vout.foldlM addValueOut acc = some v) :
    (∀ o ∈ vout, 0 ≤ o.nValue) ∧ v = acc + (vout.map CTxOut.nValue).sum := by
  induction vout generalizing acc with
  | nil => simpa using h.symm
  | cons o vout ih =>
    simp only [List.foldlM_cons, Option.bind_eq_bind, Option.bind_eq_some_iff] at h
    obtain ⟨acc', hacc, hrest⟩ := h
    obtain ⟨ho, rfl⟩ := addValueOut_eq_some hacc
    obtain ⟨hall, hv⟩ := ih hrest
    refine ⟨?_, by simp only [List.map_cons, List.sum_cons]; omega⟩
    intro x hx
    rcases List.mem_cons.mp hx with rfl | hx
    · exact ho
    · exact hall x hx

theorem nonneg_of_getValueOut {tx : CTransaction} {v : Int} (h : tx.getValueOut = some v) :
    ∀ o ∈ tx.vout, 0 ≤ o.nValue :=
  (foldlM_addValueOut h).1

theorem getValueOut_eq_sum {tx : CTransaction} {v : Int} (h : tx.getValueOut = some v) :
    v = (tx.vout.map CTxOut.nValue).sum := by
  simpa using (foldlM_addValueOut h).2

theorem not_isZerocoinMint_of_isCoinBase {tx : CTransaction} (h : tx.isCoinBase = true) :
    tx.isZerocoinMint = false ∧ tx.isZerocoinSpend = false := by
  simp only [isCoinBase] at h
  split at h
  · simp only [containsZerocoins, Bool.and_eq_true, Bool.not_eq_true', Bool.or_eq_false_iff] at h
    exact ⟨h.2.2, h.2.1⟩
  · simp at h

end CTransaction

structure CBlock where
  hash : UInt256
  hashPrevBlock : UInt256
  nVersion : Int := 4
  hashMerkleRoot : UInt256 := 0
  nTime : Nat := 0
  nBits : UInt32 := 0
  vtx : List CTransaction
  vchBlockSig : List UInt8 := []
deriving DecidableEq, Repr

def CBlock.isProofOfStake (block : CBlock) : Bool :=
  match block.vtx with
  | _ :: tx :: _ => tx.isCoinStake
  | _ => false

def CBlock.isProofOfWork (block : CBlock) : Bool := !block.isProofOfStake

inductive NetworkID where
  | MAIN
  | TESTNET
  | REGTEST
  | UNITTEST
deriving DecidableEq, Repr

namespace NetworkID

def ProofOfWorkLimit (_ : NetworkID) : UInt256 := ~~~(0 : UInt256) >>> 1

def LAST_POW_BLOCK : NetworkID → Int
  | .REGTEST => 999999999
  | _ => 500

def TargetSpacing (_ : NetworkID) : Int := 30

end NetworkID

end AnkerNode
