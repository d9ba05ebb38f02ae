import AnkerNode.Coins.Coins
import AnkerNode.Serialize.Compressor

namespace AnkerNode

open ByteStream

def toInt32 (n : Nat) : Int := if n < 2 ^ 31 then n else (n : Int) - 2 ^ 32

def varInt32Code (n : Int) : Nat := if n ≤ 0x7f then (n % 128).toNat else n.toNat

def writeVarInt32 (n : Int) : List UInt8 := writeVarInt 32 (varInt32Code n)

def readVarInt32 : Reader Int := do
  let n ← readVarInt 32
  pure (toInt32 n)

-- a negative number leaves the writing loop after its first digit
def storedVersion (nVersion : Int) : Int := if nVersion < 0 then nVersion % 128 else nVersion

theorem storedVersion_eq_self_iff {n : Int} : storedVersion n = n ↔ 0 ≤ n := by
  simp only [storedVersion]
  split <;> omega

theorem varInt32Code_storedVersion (n : Int) : varInt32Code (storedVersion n) = varInt32Code n := by
  by_cases hn : n < 0
  · simp only [varInt32Code, storedVersion, hn, if_true]
    split <;> split <;> omega
  · simp only [storedVersion, hn, if_false]

theorem writeVarInt32_storedVersion (n : Int) :
    writeVarInt32 (storedVersion n) = writeVarInt32 n := by
  rw [writeVarInt32, writeVarInt32, varInt32Code_storedVersion]

theorem parses_readVarInt32 {n : Int} (hn : n < 2 ^ 31) :
    Parses readVarInt32 (writeVarInt32 n) (storedVersion n) := by
  have hlt : varInt32Code n < 2 ^ 31 := by
    simp only [varInt32Code]
    split <;> omega
  have hcode : toInt32 (varInt32Code n) = storedVersion n := by
    rw [toInt32, if_pos hlt]
    simp only [varInt32Code, storedVersion]
    split <;> split <;> omega
  rw [← hcode]
  exact parses_map toInt32 (parses_readVarInt (by omega) (by omega))

namespace CTxInUndo

def serialize (ops : PubKeyOps) (undo : CTxInUndo) : List UInt8 :=
  writeVarInt 32 ((undo.nHeight * 4 + (if undo.fCoinBase then 2 else 0) +
      (if undo.fCoinStake then 1 else 0)) % 2 ^ 32) ++
    ((if 0 < undo.nHeight then writeVarInt32 undo.nVersion else []) ++
      CTxOutCompressor.serialize ops undo.txout)

def unserializeVersion (nHeight : Nat) : Reader Int :=
  if 0 < nHeight then readVarInt32 else pure 0

def unserialize (ops : PubKeyOps) : Reader CTxInUndo := do
  let nCode ← readVarInt 32
  let nVersion ← unserializeVersion (nCode / 4)
  let txout ← CTxOutCompressor.unserialize ops CTxOut.null
  pure
    { txout := txout
      fCoinBase := nCode / 2 % 2 == 1
      fCoinStake := nCode % 2 == 1
      nHeight := nCode / 4
      nVersion := nVersion }

def readBack (undo : CTxInUndo) : CTxInUndo :=
  { undo with nVersion := if 0 < undo.nHeight then storedVersion undo.nVersion else 0 }

structure Storable (undo : CTxInUndo) : Prop where
  height_lt : undo.nHeight < 2 ^ 30
  version_lt : undo.nVersion < 2 ^ 31
  value_nonneg : 0 ≤ undo.txout.nValue
  value_lt : undo.txout.nValue < 2 ^ 60
  script_lt : undo.txout.scriptPubKey.length < 2 ^ 31

theorem serialize_readBack (ops : PubKeyOps) (undo : CTxInUndo) :
    serialize ops undo.readBack = serialize ops undo := by
  by_cases h : 0 < undo.nHeight
  · simp [serialize, readBack, h, writeVarInt32_storedVersion]
  · simp [serialize, readBack, h]

theorem parses_unserialize_of_output {ops : PubKeyOps} {undo : CTxInUndo}
    (hh : undo.nHeight < 2 ^ 30) (hv : undo.nVersion < 2 ^ 31)
    (ho : Parses (CTxOutCompressor.unserialize ops CTxOut.null)
      (CTxOutCompressor.serialize ops undo.txout) undo.txout) :
    Parses (unserialize ops) (serialize ops undo) undo.readBack := by
  generalize hcode : undo.nHeight * 4 + (if undo.fCoinBase then 2 else 0) +
    (if undo.fCoinStake then 1 else 0) = nCode
  have hlt : nCode < 2 ^ 32 := by
    rw [← hcode]
    split <;> split <;> omega
  have hheight : nCode / 4 = undo.nHeight := by
    rw [← hcode]
    split <;> split <;> omega
  have hbase : (nCode / 2 % 2 == 1) = undo.fCoinBase := by
    rw [← hcode]
    cases undo.fCoinBase <;> cases undo.fCoinStake <;> simp <;> omega
  have hstake : (nCode % 2 == 1) = undo.fCoinStake := by
    rw [← hcode]
    cases undo.fCoinBase <;> cases undo.fCoinStake <;> simp <;> omega
  have hversion : Parses (unserializeVersion (nCode / 4))
      (if 0 < undo.nHeight then writeVarInt32 undo.nVersion else []) undo.readBack.nVersion := by
    rw [hheight, unserializeVersion]
    by_cases hpos : 0 < undo.nHeight
    · simp only [hpos, if_true, readBack]
      exact parses_readVarInt32 hv
    · simp only [hpos, if_false, readBack]
      exact parses_pure 0
  rw [serialize, hcode, Nat.mod_eq_of_lt hlt]
  refine parses_bind (parses_readVarInt (by omega) hlt) (parses_bind hversion ?_)
  have hout := parses_map (fun txout : CTxOut =>
    ({ txout := txout
       fCoinBase := nCode / 2 % 2 == 1
       fCoinStake := nCode % 2 == 1
       nHeight := nCode / 4
       nVersion := undo.readBack.nVersion } : CTxInUndo)) ho
  rw [hbase, hstake, hheight] at hout
  rw [hbase, hstake, hheight]
  exact hout

theorem parses_unserialize {ops : PubKeyOps} {undo : CTxInUndo} (h : Storable undo) :
    Parses (unserialize ops) (serialize ops undo) undo.readBack :=
  parses_unserialize_of_output h.height_lt h.version_lt
    (CTxOutCompressor.parses_unserialize ops CTxOut.null h.value_nonneg h.value_lt h.script_lt)

end CTxInUndo

def serializeVector {α : Type} (w : α → List UInt8) (v : List α) : List UInt8 :=
  writeCompactSize v.length ++ v.flatMap w

def unserializeVector {α : Type} (r : Reader α) : Reader (List α) := do
  let nSize ← readCompactSize MAX_SIZE
  readList r nSize

theorem parses_unserializeVector {α : Type} {r : Reader α} {w : α → List UInt8} {f : α → α}
    {v : List α} (hlen : v.length ≤ MAX_SIZE) (h : ∀ a ∈ v, Parses r (w a) (f a)) :
    Parses (unserializeVector r) (serializeVector w v) (v.map f) := by
  have h64 : v.length < 2 ^ 64 := by
    simp only [MAX_SIZE] at hlen
    omega
  exact parses_bind (parses_readCompactSize hlen h64) (parses_list h)

theorem serializeVector_map {α : Type} {w : α → List UInt8} {f : α → α} (v : List α)
    (h : ∀ a, w (f a) = w a) : serializeVector w (v.map f) = serializeVector w v := by
  simp [serializeVector, List.flatMap_map, h]

structure CTxUndo where
  vprevout : List CTxInUndo := []
deriving DecidableEq, Repr

namespace CTxUndo

def serialize (ops : PubKeyOps) (undo : CTxUndo) : List UInt8 :=
  serializeVector (CTxInUndo.serialize ops) undo.vprevout

def unserialize (ops : PubKeyOps) : Reader CTxUndo := do
  let vprevout ← unserializeVector (CTxInUndo.unserialize ops)
  pure ⟨vprevout⟩

def readBack (undo : CTxUndo) : CTxUndo := ⟨undo.vprevout.map CTxInUndo.readBack⟩

structure Storable (undo : CTxUndo) : Prop where
  length_le : undo.vprevout.length ≤ MAX_SIZE
  inputs : ∀ u ∈ undo.vprevout, u.Storable

theorem parses_unserialize {ops : PubKeyOps} {undo : CTxUndo} (h : Storable undo) :
    Parses (unserialize ops) (serialize ops undo) undo.readBack :=
  parses_map CTxUndo.mk (parses_unserializeVector h.length_le
    (fun u hu => CTxInUndo.parses_unserialize (h.inputs u hu)))

theorem serialize_readBack (ops : PubKeyOps) (undo : CTxUndo) :
    serialize ops undo.readBack = serialize ops undo :=
  serializeVector_map undo.vprevout (CTxInUndo.serialize_readBack ops)

end CTxUndo

structure CBlockUndo where
  vtxundo : List CTxUndo := []
deriving DecidableEq, Repr

namespace CBlockUndo

def serialize (ops : PubKeyOps) (undo : CBlockUndo) : List UInt8 :=
  serializeVector (CTxUndo.serialize ops) undo.vtxundo

def unserialize (ops : PubKeyOps) : Reader CBlockUndo := do
  let vtxundo ← unserializeVector (CTxUndo.unserialize ops)
  pure ⟨vtxundo⟩

def readBack (undo : CBlockUndo) : CBlockUndo := ⟨undo.vtxundo.map CTxUndo.readBack⟩

structure Storable (undo : CBlockUndo) : Prop where
  length_le : undo.vtxundo.length ≤ MAX_SIZE
  txs : ∀ u ∈ undo.vtxundo, u.Storable

theorem parses_unserialize {ops : PubKeyOps} {undo : CBlockUndo} (h : Storable undo) :
    Parses (unserialize ops) (serialize ops undo) undo.readBack :=
  parses_map CBlockUndo.mk (parses_unserializeVector h.length_le
    (fun u hu => CTxUndo.parses_unserialize (h.txs u hu)))

theorem serialize_readBack (ops : PubKeyOps) (undo : CBlockUndo) :
    serialize ops undo.readBack = serialize ops undo :=
  serializeVector_map undo.vtxundo (CTxUndo.serialize_readBack ops)

def writeToDisk (ops : PubKeyOps) (hasher : UInt256 → List UInt8 → UInt256) (undo : CBlockUndo)
    (hashBlock : UInt256) : List UInt8 :=
  serialize ops undo ++ writeLE 32 (hasher hashBlock (serialize ops undo)).toNat

def readFromDisk (ops : PubKeyOps) (hasher : UInt256 → List UInt8 → UInt256) (hashBlock : UInt256) :
    Reader CBlockUndo := do
  let undo ← unserialize ops
  let hashChecksum ← readLE 32
  if hashChecksum = (hasher hashBlock (serialize ops undo)).toNat then pure undo else failure

theorem parses_readFromDisk (ops : PubKeyOps) (hasher : UInt256 → List UInt8 → UInt256)
    (hashBlock : UInt256) {undo : CBlockUndo} (h : Storable undo) :
    Parses (readFromDisk ops hasher hashBlock) (writeToDisk ops hasher undo hashBlock)
      undo.readBack := by
  have hsum : (hasher hashBlock (serialize ops undo)).toNat < 256 ^ 32 := by
    rw [show (256 : Nat) ^ 32 = 2 ^ 256 from by norm_num]
    exact (hasher hashBlock (serialize ops undo)).isLt
  refine parses_bind (parses_unserialize h) ?_
  rw [← List.append_nil (writeLE 32 _)]
  refine parses_bind (parses_readLE 32 _ hsum) ?_
  rw [serialize_readBack, if_pos rfl]
  exact parses_pure undo.readBack

end CBlockUndo

namespace CCoins

def availBits (outs : List CTxOut) : UInt8 :=
  UInt8.ofNat (outs.foldr (fun o n => (if o.isNull then 0 else 1) + 2 * n) 0)

-- The spentness bits of the outputs after the first two, eight to a byte.
def maskBytes (vout : List CTxOut) : List UInt8 :=
  (List.range ((vout.length - 2 + 7) / 8)).map fun b => availBits ((vout.drop (2 + b * 8)).take 8)

def fFirst (c : CCoins) : Bool := !(c.outAt 0).isNull

def fSecond (c : CCoins) : Bool := !(c.outAt 1).isNull

def nMaskCode (c : CCoins) : Nat := (maskBytes c.vout).countP fun b => b != 0

def nCode (c : CCoins) : Nat :=
  (16 * (c.nMaskCode - if c.fFirst || c.fSecond then 0 else 1) +
    (if c.fCoinBase then 1 else 0) + (if c.fCoinStake then 2 else 0) +
    (if c.fFirst then 4 else 0) + (if c.fSecond then 8 else 0)) % 2 ^ 32

def serialize (ops : PubKeyOps) (c : CCoins) : List UInt8 :=
  writeVarInt32 c.nVersion ++ writeVarInt 32 c.nCode ++
    (maskBytes c.vout).rdropWhile (fun b => b == 0) ++
    ((c.vout.filter fun o => !o.isNull).flatMap (CTxOutCompressor.serialize ops)) ++
    writeVarInt32 c.nHeight

def byteBits (b : UInt8) : List Bool := (List.range 8).map fun p => b.toNat / 2 ^ p % 2 == 1

def readMaskFrom : Nat → List UInt8 → Option (List Bool × List UInt8)
  | 0, bs => some ([], bs)
  | _ + 1, [] => none
  | nMaskCode + 1, chAvail :: bs => do
    let (vAvail, rest) ← readMaskFrom (if chAvail = 0 then nMaskCode + 1 else nMaskCode) bs
    some (byteBits chAvail ++ vAvail, rest)

def readMask (nMaskCode : Nat) : Reader (List Bool) := readMaskFrom nMaskCode

def readOutputs (ops : PubKeyOps) : List Bool → Reader (List CTxOut)
  | [] => pure []
  | avail :: vAvail => do
    let txout ← if avail then CTxOutCompressor.unserialize ops CTxOut.null else pure CTxOut.null
    let vout ← readOutputs ops vAvail
    pure (txout :: vout)

def unserialize (ops : PubKeyOps) : Reader CCoins := do
  let nVersion ← readVarInt32
  let nCode ← readVarInt 32
  let vAvail ← readMask (nCode / 16 + if nCode / 4 % 4 = 0 then 1 else 0)
  let vout ← readOutputs ops ((nCode / 4 % 2 == 1) :: (nCode / 8 % 2 == 1) :: vAvail)
  let nHeight ← readVarInt32
  pure (cleanup
    { fCoinBase := nCode % 2 == 1
      fCoinStake := nCode / 2 % 2 == 1
      vout := vout
      nHeight := nHeight
      nVersion := nVersion })

def readRecord (ops : PubKeyOps) (record : List UInt8) : Option CCoins :=
  ((unserialize ops).run record).map Prod.fst

def Stored (ops : PubKeyOps) (c : CCoins) : Prop := readRecord ops (serialize ops c) = some c

instance (ops : PubKeyOps) (c : CCoins) : Decidable (Stored ops c) :=
  inferInstanceAs (Decidable (readRecord ops (serialize ops c) = some c))

end CCoins

end AnkerNode
