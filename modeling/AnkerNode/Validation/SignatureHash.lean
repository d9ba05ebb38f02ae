import AnkerNode.Script.CodeSeparators
import AnkerNode.Validation.WitnessCommitment

namespace AnkerNode

open ByteStream

def SIGHASH_ALL : UInt32 := 1

def SIGHASH_NONE : UInt32 := 2

def SIGHASH_SINGLE : UInt32 := 3

def SIGHASH_ANYONECANPAY : UInt32 := 0x80

-- the constant 1, or the hash of some bytes
inductive SigHash
  | one
  | hashed (bytes : List UInt8)
deriving DecidableEq, Repr

structure CTransactionSignatureSerializer where
  txTo : CTransaction
  scriptCode : CScript
  nIn : Nat
  fAnyoneCanPay : Bool
  fHashSingle : Bool
  fHashNone : Bool

namespace CTransactionSignatureSerializer

def init (txTo : CTransaction) (scriptCode : CScript) (nIn : Nat) (nHashType : UInt32) :
    CTransactionSignatureSerializer where
  txTo := txTo
  scriptCode := scriptCode
  nIn := nIn
  fAnyoneCanPay := nHashType &&& SIGHASH_ANYONECANPAY != 0
  fHashSingle := nHashType &&& 0x1f == SIGHASH_SINGLE
  fHashNone := nHashType &&& 0x1f == SIGHASH_NONE

variable (s : CTransactionSignatureSerializer)

def serializeInput (nInput : Nat) : List UInt8 :=
  let nInput := if s.fAnyoneCanPay then s.nIn else nInput
  let txin := s.txTo.vin.getD nInput CTxIn.null
  writeLE 32 txin.prevout.hash.toNat ++ writeLE 4 txin.prevout.n.toNat ++
    (if nInput ≠ s.nIn then serializeBytes [] else s.scriptCode.serializeScriptCode) ++
    (if nInput ≠ s.nIn ∧ (s.fHashSingle || s.fHashNone) then writeLE 4 0
      else writeLE 4 txin.nSequence.toNat)

def serializeOutput (nOutput : Nat) : List UInt8 :=
  if s.fHashSingle ∧ nOutput ≠ s.nIn then CTxOut.null.serialize
  else (s.txTo.vout.getD nOutput CTxOut.null).serialize

def nInputs : Nat := if s.fAnyoneCanPay then 1 else s.txTo.vin.length

def nOutputs : Nat :=
  if s.fHashNone then 0 else if s.fHashSingle then s.nIn + 1 else s.txTo.vout.length

def serialize : List UInt8 :=
  writeLE 4 (s.txTo.nVersion % 2 ^ 32).toNat ++
    (writeCompactSize s.nInputs ++ (List.range s.nInputs).flatMap s.serializeInput) ++
    (writeCompactSize s.nOutputs ++ (List.range s.nOutputs).flatMap s.serializeOutput) ++
    writeLE 4 s.txTo.nLockTime.toNat

end CTransactionSignatureSerializer

-- `SignatureHash` with `SIGVERSION_BASE`
def signatureHash (scriptCode : CScript) (txTo : CTransaction) (nIn : Nat) (nHashType : UInt32) :
    SigHash :=
  if txTo.vin.length ≤ nIn then .one
  else if nHashType &&& 0x1f = SIGHASH_SINGLE ∧ txTo.vout.length ≤ nIn then .one
  else .hashed ((CTransactionSignatureSerializer.init txTo scriptCode nIn nHashType).serialize ++
    writeLE 4 nHashType.toNat)

namespace SignatureHashOld

def blankSequences (nIn : Nat) (vin : List CTxIn) : List CTxIn :=
  vin.mapIdx fun i txin => if i ≠ nIn then { txin with nSequence := 0 } else txin

-- the inputs with the signature of `nIn` replaced and the others blanked out
def blankScripts (scriptCode : CScript) (nIn : Nat) (vin : List CTxIn) : List CTxIn :=
  (vin.map fun txin => { txin with scriptSig := [] }).modify nIn fun txin =>
    { txin with scriptSig := scriptCode }

def nullBefore (nOut : Nat) (vout : List CTxOut) : List CTxOut :=
  vout.mapIdx fun i txout => if i < nOut then CTxOut.null else txout

end SignatureHashOld

-- `SerializeTransaction` with `SERIALIZE_TRANSACTION_NO_WITNESS`; `none` where its assertion fails
def CTransaction.serializeNoWitness (tx : CTransaction) : Option (List UInt8) :=
  if tx.vtxinwit.length ≤ tx.vin.length then some (tx.serialize false) else none

open SignatureHashOld in
def signatureHashOld (scriptCode : CScript) (txTo : CTransaction) (nIn : Nat) (nHashType : UInt32) :
    Option SigHash :=
  if txTo.vin.length ≤ nIn then some .one
  else
    let scriptCode := scriptCode.findAndDelete [OP_CODESEPARATOR]
    let txTmp := { txTo with vin := blankScripts scriptCode nIn txTo.vin }
    if nHashType &&& 0x1f = SIGHASH_SINGLE ∧ txTmp.vout.length ≤ nIn then some .one
    else
      let txTmp :=
        if nHashType &&& 0x1f = SIGHASH_NONE then
          { txTmp with vout := [], vin := blankSequences nIn txTmp.vin }
        else if nHashType &&& 0x1f = SIGHASH_SINGLE then
          { txTmp with
            vout := nullBefore nIn (txTmp.vout.take (nIn + 1)), vin := blankSequences nIn txTmp.vin }
        else txTmp
      let txTmp :=
        if nHashType &&& SIGHASH_ANYONECANPAY ≠ 0 then
          { txTmp with vin := [txTmp.vin.getD nIn CTxIn.null] }
        else txTmp
      txTmp.serializeNoWitness.map fun bytes => .hashed (bytes ++ writeLE 4 nHashType.toNat)

theorem serializeVector_range {α : Type} {w : α → List UInt8} {v : List α} {n : Nat}
    {f : Nat → List UInt8} (hlen : v.length = n) (h : ∀ i (hi : i < v.length), w v[i] = f i) :
    serializeVector w v = writeCompactSize n ++ (List.range n).flatMap f := by
  have hmap : v.map w = (List.range n).map f := by
    refine List.ext_getElem (by simp [hlen]) fun i hi _ => ?_
    rw [List.getElem_map, List.getElem_map, List.getElem_range]
    exact h i (by simpa using hi)
  rw [serializeVector, hlen, List.flatMap_def, List.flatMap_def, hmap]

namespace SignatureHashOld

variable {code : CScript} {nIn : Nat} {vin : List CTxIn}

-- the inputs after the blanking, `fBlank` telling whether sequences are blanked too
def editedVin (code : CScript) (nIn : Nat) (fBlank : Bool) (vin : List CTxIn) : List CTxIn :=
  if fBlank then blankSequences nIn (blankScripts code nIn vin) else blankScripts code nIn vin

theorem length_editedVin (fBlank : Bool) : (editedVin code nIn fBlank vin).length = vin.length := by
  cases fBlank <;> simp [editedVin, blankSequences, blankScripts]

theorem getElem_editedVin {fBlank : Bool} {i : Nat}
    (h : i < (editedVin code nIn fBlank vin).length) (hi : i < vin.length) :
    (editedVin code nIn fBlank vin)[i] =
      ⟨vin[i].prevout, if i = nIn then code else [],
        if i ≠ nIn ∧ fBlank then 0 else vin[i].nSequence⟩ := by
  cases fBlank with
  | false =>
    by_cases hin : nIn = i
    · simp [editedVin, blankScripts, hin]
    · simp [editedVin, blankScripts, hin, Ne.symm hin]
  | true =>
    by_cases hin : nIn = i
    · simp [editedVin, blankSequences, blankScripts, hin]
    · simp [editedVin, blankSequences, blankScripts, hin, Ne.symm hin]

theorem getElem_nullBefore {nOut i : Nat} {vout : List CTxOut}
    (h : i < (nullBefore nOut vout).length) (hi : i < vout.length) :
    (nullBefore nOut vout)[i] = if i < nOut then CTxOut.null else vout[i] := by
  simp [nullBefore]

end SignatureHashOld

namespace CTransactionSignatureSerializer

open SignatureHashOld

variable {s : CTransactionSignatureSerializer}

-- the reference's inputs and outputs before they are serialized
def referenceVin (s : CTransactionSignatureSerializer) : List CTxIn :=
  let vin := editedVin (s.scriptCode.findAndDelete [OP_CODESEPARATOR]) s.nIn
    (s.fHashSingle || s.fHashNone) s.txTo.vin
  if s.fAnyoneCanPay then [vin.getD s.nIn CTxIn.null] else vin

def referenceVout (s : CTransactionSignatureSerializer) : List CTxOut :=
  if s.fHashNone then []
  else if s.fHashSingle then nullBefore s.nIn (s.txTo.vout.take (s.nIn + 1))
  else s.txTo.vout

def reference (s : CTransactionSignatureSerializer) : CTransaction :=
  { s.txTo with vin := s.referenceVin, vout := s.referenceVout }

theorem serializeInput_eq (hparse : CScript.ParsesToEnd s.scriptCode) {i nInput : Nat}
    (hindex : (if s.fAnyoneCanPay then s.nIn else nInput) = i) (hi : i < s.txTo.vin.length)
    (h : i < (editedVin (s.scriptCode.findAndDelete [OP_CODESEPARATOR]) s.nIn
      (s.fHashSingle || s.fHashNone) s.txTo.vin).length) :
    (editedVin (s.scriptCode.findAndDelete [OP_CODESEPARATOR]) s.nIn
      (s.fHashSingle || s.fHashNone) s.txTo.vin)[i].serialize = s.serializeInput nInput := by
  rw [getElem_editedVin h hi, CTxIn.serialize, serializeInput]
  simp only [hindex, List.getD_eq_getElem _ CTxIn.null hi]
  by_cases hin : i = s.nIn
  · simp only [hin, ne_eq, not_true_eq_false, false_and, if_false, if_true]
    rw [CScript.serializeScriptCode_eq hparse, serializeBytes]
  · by_cases hblank : (s.fHashSingle || s.fHashNone) = true
    · simp only [hin, hblank, ne_eq, not_false_eq_true, and_self, if_true, if_false]
      rfl
    · simp only [hin, hblank, ne_eq, not_false_eq_true, and_false, if_true, if_false,
        Bool.false_eq_true]

theorem serializeVector_vin (hparse : CScript.ParsesToEnd s.scriptCode)
    (hin : s.nIn < s.txTo.vin.length) :
    serializeVector CTxIn.serialize s.referenceVin =
      writeCompactSize s.nInputs ++ (List.range s.nInputs).flatMap s.serializeInput := by
  have hlen : ∀ {code : CScript} {fBlank : Bool},
      (editedVin code s.nIn fBlank s.txTo.vin).length = s.txTo.vin.length :=
    length_editedVin _
  rw [referenceVin]
  cases hany : s.fAnyoneCanPay with
  | true =>
    refine serializeVector_range (by simp [nInputs, hany]) fun i hi => ?_
    obtain rfl : i = 0 := by simpa using hi
    simp only [if_true, List.getElem_cons_zero]
    rw [List.getD_eq_getElem _ _ (hlen.symm ▸ hin)]
    exact serializeInput_eq hparse (by rw [hany]; rfl) hin _
  | false =>
    refine serializeVector_range (by simp [nInputs, hany, hlen]) fun i hi => ?_
    exact serializeInput_eq hparse (by rw [hany]; rfl) (hlen ▸ hi) hi

theorem serializeVector_vout (hout : s.fHashSingle = true → s.nIn < s.txTo.vout.length) :
    serializeVector CTxOut.serialize s.referenceVout =
      writeCompactSize s.nOutputs ++ (List.range s.nOutputs).flatMap s.serializeOutput := by
  rw [referenceVout]
  cases hnone : s.fHashNone with
  | true => simp [nOutputs, hnone, serializeVector]
  | false =>
    cases hsingle : s.fHashSingle with
    | false =>
      simp only [Bool.false_eq_true, if_false]
      refine serializeVector_range (by simp [nOutputs, hnone, hsingle]) fun i hi => ?_
      rw [serializeOutput, hsingle, if_neg (by simp), List.getD_eq_getElem _ _ hi]
    | true =>
      have hlen : s.nIn + 1 ≤ s.txTo.vout.length := hout hsingle
      have hnull : (nullBefore s.nIn (s.txTo.vout.take (s.nIn + 1))).length = s.nIn + 1 := by
        simp [nullBefore, hlen]
      simp only [Bool.false_eq_true, if_false, if_true]
      refine serializeVector_range (by simp [nOutputs, hnone, hsingle, hnull]) fun i hi => ?_
      have hi' : i < s.nIn + 1 := hnull ▸ hi
      rw [getElem_nullBefore hi (by simp; omega), List.getElem_take, serializeOutput, hsingle,
        List.getD_eq_getElem _ _ (by omega)]
      by_cases hlast : i = s.nIn
      · rw [if_neg (by omega), if_neg (by simp [hlast])]
      · rw [if_pos (by omega), if_pos ⟨rfl, hlast⟩]

theorem serialize_reference (hparse : CScript.ParsesToEnd s.scriptCode)
    (hin : s.nIn < s.txTo.vin.length)
    (hout : s.fHashSingle = true → s.nIn < s.txTo.vout.length) :
    s.reference.serialize false = s.serialize := by
  have hvin : serializeVector CTxIn.serialize s.reference.vin = _ := serializeVector_vin hparse hin
  have hvout : serializeVector CTxOut.serialize s.reference.vout = _ := serializeVector_vout hout
  rw [CTransaction.serialize, serialize, hvin, hvout]
  simp [reference]

end CTransactionSignatureSerializer

open SignatureHashOld CTransactionSignatureSerializer in
-- The reference serializes these inputs and outputs, with the witness of the whole transaction.
theorem signatureHashOld_edited {scriptCode : CScript} {txTo : CTransaction} {nIn : Nat}
    {nHashType : UInt32} (hin : ¬txTo.vin.length ≤ nIn)
    (hout : ¬(nHashType &&& 0x1f = SIGHASH_SINGLE ∧ txTo.vout.length ≤ nIn)) :
    signatureHashOld scriptCode txTo nIn nHashType =
      (init txTo scriptCode nIn nHashType).reference.serializeNoWitness.map fun bytes =>
        .hashed (bytes ++ writeLE 4 nHashType.toNat) := by
  rw [signatureHashOld, if_neg hin, if_neg hout]
  have hexclusive : SIGHASH_SINGLE ≠ SIGHASH_NONE := by decide
  by_cases hnone : nHashType &&& 0x1f = SIGHASH_NONE
  · by_cases hany : nHashType &&& SIGHASH_ANYONECANPAY = 0 <;>
      simp [init, reference, referenceVin, referenceVout, editedVin, hnone, hany]
  · by_cases hsingle : nHashType &&& 0x1f = SIGHASH_SINGLE
    · by_cases hany : nHashType &&& SIGHASH_ANYONECANPAY = 0 <;>
        simp [init, reference, referenceVin, referenceVout, editedVin, hsingle, hexclusive, hany]
    · by_cases hany : nHashType &&& SIGHASH_ANYONECANPAY = 0 <;>
        simp [init, reference, referenceVin, referenceVout, editedVin, hnone, hsingle, hany]

open CTransactionSignatureSerializer in
theorem signatureHashOld_eq {scriptCode : CScript} (h : scriptCode.ParsesToEnd)
    (txTo : CTransaction) (nIn : Nat) (nHashType : UInt32) :
    signatureHashOld scriptCode txTo nIn nHashType =
      if signatureHash scriptCode txTo nIn nHashType = .one ∨ txTo.vtxinwit.length ≤
          (if nHashType &&& SIGHASH_ANYONECANPAY ≠ 0 then 1 else txTo.vin.length) then
        some (signatureHash scriptCode txTo nIn nHashType)
      else none := by
  by_cases hin : txTo.vin.length ≤ nIn
  · simp [signatureHashOld, signatureHash, hin]
  by_cases hout : nHashType &&& 0x1f = SIGHASH_SINGLE ∧ txTo.vout.length ≤ nIn
  · simp [signatureHashOld, signatureHash, hin, hout]
  have hsingle : (init txTo scriptCode nIn nHashType).fHashSingle = true → nIn < txTo.vout.length := by
    intro hflag
    have hflag : nHashType &&& 0x1f = SIGHASH_SINGLE := by simpa [init] using hflag
    exact Nat.lt_of_not_le fun hle => hout ⟨hflag, hle⟩
  have hinputs : (init txTo scriptCode nIn nHashType).reference.vin.length =
      if nHashType &&& SIGHASH_ANYONECANPAY ≠ 0 then 1 else txTo.vin.length := by
    by_cases hany : nHashType &&& SIGHASH_ANYONECANPAY = 0
    · simp [reference, referenceVin, init, hany, SignatureHashOld.length_editedVin]
    · simp [reference, referenceVin, init, hany]
  have hstream : signatureHash scriptCode txTo nIn nHashType =
      .hashed ((init txTo scriptCode nIn nHashType).serialize ++ writeLE 4 nHashType.toNat) := by
    rw [signatureHash, if_neg hin, if_neg hout]
  rw [signatureHashOld_edited hin hout, CTransaction.serializeNoWitness, hinputs, hstream,
    serialize_reference h (Nat.lt_of_not_le hin) hsingle]
  have hwit : (init txTo scriptCode nIn nHashType).reference.vtxinwit = txTo.vtxinwit := rfl
  simp only [hwit, reduceCtorEq, false_or]
  generalize (if nHashType &&& SIGHASH_ANYONECANPAY ≠ 0 then 1 else txTo.vin.length) = limit
  by_cases hle : txTo.vtxinwit.length ≤ limit <;> simp [hle]

def twoInputs (vtxinwit : List (List (List UInt8))) : CTransaction where
  hash := 0
  vin := [⟨⟨1, 0⟩, [], 5⟩, ⟨⟨1, 1⟩, [0x51], 6⟩]
  vout := [⟨7, [0x51]⟩, ⟨8, []⟩]
  vtxinwit := vtxinwit

theorem signatureHashOld_eq_single :
    signatureHashOld [OP_CODESEPARATOR, OP_CHECKSIG] (twoInputs []) 1 SIGHASH_SINGLE =
      some (signatureHash [OP_CODESEPARATOR, OP_CHECKSIG] (twoInputs []) 1 SIGHASH_SINGLE) := by
  have hparse : CScript.ParsesToEnd [OP_CODESEPARATOR, OP_CHECKSIG] :=
    .cons (i := ⟨OP_CODESEPARATOR, [], [OP_CHECKSIG]⟩) (by decide)
      (.cons (i := ⟨OP_CHECKSIG, [], []⟩) (by decide) .nil)
  rw [signatureHashOld_eq hparse, if_pos (Or.inr (by decide))]

-- a copy cut to one input that keeps the witnesses of two cannot be serialized
theorem signatureHashOld_two_witnesses :
    CScript.ParsesToEnd [] ∧
      (twoInputs [[[1]], [[2]]]).vtxinwit.length = (twoInputs [[[1]], [[2]]]).vin.length ∧
      signatureHashOld [] (twoInputs [[[1]], [[2]]]) 0 (SIGHASH_ALL ||| SIGHASH_ANYONECANPAY) ≠
        some (signatureHash [] (twoInputs [[[1]], [[2]]]) 0
          (SIGHASH_ALL ||| SIGHASH_ANYONECANPAY)) := by
  refine ⟨.nil, rfl, ?_⟩
  have hstops : signatureHashOld [] (twoInputs [[[1]], [[2]]]) 0
      (SIGHASH_ALL ||| SIGHASH_ANYONECANPAY) = none := by decide
  rw [hstops]
  exact nofun

end AnkerNode
