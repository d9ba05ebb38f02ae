import AnkerNode.Lib.ByteStream
import AnkerNode.Validation.WitnessCommitment

namespace AnkerNode

open ByteStream

def unserializeBytes : Reader (List UInt8) := do
  let nSize ← readCompactSize MAX_SIZE
  readBytes nSize

def COutPoint.unserialize : Reader COutPoint := do
  let hash ← readLE 32
  let n ← readLE 4
  pure ⟨BitVec.ofNat 256 hash, UInt32.ofNat n⟩

def CTxIn.unserialize : Reader CTxIn := do
  let prevout ← COutPoint.unserialize
  let scriptSig ← unserializeBytes
  let nSequence ← readLE 4
  pure ⟨prevout, scriptSig, UInt32.ofNat nSequence⟩

def CTxOut.unserialize : Reader CTxOut := do
  let nValue ← readLE 8
  let scriptPubKey ← unserializeBytes
  pure ⟨CTxOutCompressor.toInt64 nValue, scriptPubKey⟩

namespace CTransaction

def hashOf (hash256 : List UInt8 → List UInt8) (tx : CTransaction) : UInt256 :=
  BitVec.ofNat 256 ((hash256 (tx.serialize false)).foldr (fun b n => b.toNat + 256 * n) 0)

-- An empty vin is the dummy of the extended format where witnesses are allowed.
def readInputs (fAllowWitness : Bool) : Reader (UInt8 × List CTxIn × List CTxOut) := do
  let vin ← unserializeVector CTxIn.unserialize
  if vin.isEmpty && fAllowWitness then
    let flags ← readByte
    if flags = 0 then pure (flags, vin, [])
    else
      let vin ← unserializeVector CTxIn.unserialize
      let vout ← unserializeVector CTxOut.unserialize
      pure (flags, vin, vout)
  else
    let vout ← unserializeVector CTxOut.unserialize
    pure (0, vin, vout)

def readWitness (fAllowWitness : Bool) (flags : UInt8) (nInputs : Nat) :
    Reader (UInt8 × List (List (List UInt8))) :=
  if flags &&& 1 ≠ 0 ∧ fAllowWitness then do
    let vtxinwit ← readList (unserializeVector unserializeBytes) nInputs
    -- "Superfluous witness record"
    if vtxinwit.all fun stack => stack.isEmpty then failure
    else pure (flags ^^^ 1, vtxinwit)
  else pure (flags, [])

def unserialize (hash256 : List UInt8 → List UInt8) (fAllowWitness : Bool) :
    Reader CTransaction := do
  let nVersion ← readLE 4
  let (flags, vin, vout) ← readInputs fAllowWitness
  let (flags, vtxinwit) ← readWitness fAllowWitness flags vin.length
  -- "Unknown transaction optional data"
  if flags ≠ 0 then failure
  else
    let nLockTime ← readLE 4
    let tx : CTransaction :=
      { hash := 0
        nVersion := toInt32 nVersion
        vin := vin
        vout := vout
        nLockTime := UInt32.ofNat nLockTime
        vtxinwit := vtxinwit }
    pure { tx with hash := tx.hashOf hash256 }

-- a missing witness is an empty one
def scriptWitness (tx : CTransaction) (i : Nat) : List (List UInt8) := tx.vtxinwit.getD i []

-- The ranges of the fields' types, and the sizes that the reader takes.
structure Serializable (tx : CTransaction) : Prop where
  vin_ne_nil : tx.vin ≠ []
  witnesses : tx.vtxinwit.length ≤ tx.vin.length
  version : -2 ^ 31 ≤ tx.nVersion ∧ tx.nVersion < 2 ^ 31
  values : ∀ o ∈ tx.vout, -2 ^ 63 ≤ o.nValue ∧ o.nValue < 2 ^ 63
  vin_size : tx.vin.length ≤ MAX_SIZE
  vout_size : tx.vout.length ≤ MAX_SIZE
  scriptSig_size : ∀ txin ∈ tx.vin, txin.scriptSig.length ≤ MAX_SIZE
  scriptPubKey_size : ∀ o ∈ tx.vout, o.scriptPubKey.length ≤ MAX_SIZE
  stack_size : ∀ stack ∈ tx.vtxinwit, stack.length ≤ MAX_SIZE
  item_size : ∀ stack ∈ tx.vtxinwit, ∀ item ∈ stack, item.length ≤ MAX_SIZE

end CTransaction

section Written

theorem parses_unserializeBytes {bs : List UInt8} (h : bs.length ≤ MAX_SIZE) :
    Parses unserializeBytes (serializeBytes bs) bs := by
  have h64 : bs.length < 2 ^ 64 := by
    rw [MAX_SIZE] at h
    omega
  exact parses_bind (parses_readCompactSize h h64) (parses_readBytes bs)

theorem parses_unserializeVector_self {α : Type} {r : Reader α} {w : α → List UInt8} {v : List α}
    (hlength : v.length ≤ MAX_SIZE) (h : ∀ a ∈ v, Parses r (w a) a) :
    Parses (unserializeVector r) (serializeVector w v) v := by
  have hparses := parses_unserializeVector (f := id) hlength h
  rwa [List.map_id] at hparses

theorem parses_outPoint (prevout : COutPoint) : Parses COutPoint.unserialize
    (writeLE 32 prevout.hash.toNat ++ writeLE 4 prevout.n.toNat) prevout := by
  have hhash : prevout.hash.toNat < 256 ^ 32 := by
    have hlt := prevout.hash.isLt
    norm_num at hlt ⊢
    exact hlt
  have hn := parses_map (fun n => COutPoint.mk (BitVec.ofNat 256 prevout.hash.toNat) (UInt32.ofNat n))
    (parses_readLE 4 prevout.n.toNat prevout.n.toNat_lt)
  rw [BitVec.ofNat_toNat, BitVec.setWidth_eq, UInt32.ofNat_toNat] at hn
  refine parses_bind (parses_readLE 32 _ hhash) ?_
  rw [BitVec.ofNat_toNat, BitVec.setWidth_eq]
  exact hn

theorem parses_txIn {txin : CTxIn} (h : txin.scriptSig.length ≤ MAX_SIZE) :
    Parses CTxIn.unserialize txin.serialize txin := by
  have hlast := parses_map (fun n => CTxIn.mk txin.prevout txin.scriptSig (UInt32.ofNat n))
    (parses_readLE 4 txin.nSequence.toNat txin.nSequence.toNat_lt)
  rw [UInt32.ofNat_toNat] at hlast
  rw [CTxIn.serialize, List.append_assoc]
  exact parses_bind (parses_outPoint txin.prevout) (parses_bind (parses_unserializeBytes h) hlast)

theorem parses_txOut {txout : CTxOut} (hvalue : -2 ^ 63 ≤ txout.nValue ∧ txout.nValue < 2 ^ 63)
    (h : txout.scriptPubKey.length ≤ MAX_SIZE) :
    Parses CTxOut.unserialize txout.serialize txout := by
  have hback : CTxOutCompressor.toInt64 (txout.nValue % 2 ^ 64).toNat = txout.nValue := by
    rw [CTxOutCompressor.toInt64]
    split <;> omega
  have hlast := parses_map (CTxOut.mk txout.nValue) (parses_unserializeBytes h)
  refine parses_bind (parses_readLE 8 _ (by omega)) ?_
  rw [hback]
  exact hlast

theorem toInt32_emod {n : Int} (h : -2 ^ 31 ≤ n ∧ n < 2 ^ 31) : toInt32 (n % 2 ^ 32).toNat = n := by
  rw [toInt32]
  split <;> omega

namespace CTransaction

variable {tx : CTransaction}

theorem hashOf_congr {tx' : CTransaction} (hash256 : List UInt8 → List UInt8)
    (hversion : tx'.nVersion = tx.nVersion) (hvin : tx'.vin = tx.vin) (hvout : tx'.vout = tx.vout)
    (hlock : tx'.nLockTime = tx.nLockTime) : tx'.hashOf hash256 = tx.hashOf hash256 := by
  simp only [hashOf, serialize, Bool.false_and, Bool.false_eq_true, if_false, hversion, hvin, hvout,
    hlock]

theorem Serializable.parses_vin (h : tx.Serializable) :
    Parses (unserializeVector CTxIn.unserialize) (serializeVector CTxIn.serialize tx.vin) tx.vin :=
  parses_unserializeVector_self h.vin_size fun txin htxin => parses_txIn (h.scriptSig_size txin htxin)

theorem Serializable.parses_vout (h : tx.Serializable) :
    Parses (unserializeVector CTxOut.unserialize) (serializeVector CTxOut.serialize tx.vout) tx.vout :=
  parses_unserializeVector_self h.vout_size fun o ho =>
    parses_txOut (h.values o ho) (h.scriptPubKey_size o ho)

theorem Serializable.parses_inputs (h : tx.Serializable) (fWitness fAllowWitness : Bool)
    (hallow : fWitness = true → fAllowWitness = true) :
    Parses (readInputs fAllowWitness)
      ((if fWitness then [0, 1] else []) ++ (serializeVector CTxIn.serialize tx.vin ++
        serializeVector CTxOut.serialize tx.vout))
      (if fWitness then 1 else 0, tx.vin, tx.vout) := by
  cases fWitness with
  | false =>
    have hvin : ¬(tx.vin.isEmpty && fAllowWitness) = true := by simp [h.vin_ne_nil]
    rw [if_neg Bool.false_ne_true, if_neg Bool.false_ne_true, List.nil_append]
    refine parses_bind h.parses_vin ?_
    rw [if_neg hvin]
    exact parses_map (fun vout => ((0 : UInt8), tx.vin, vout)) h.parses_vout
  | true =>
    have hdummy : Parses (unserializeVector CTxIn.unserialize) [0] [] :=
      parses_unserializeVector_self (w := CTxIn.serialize) (v := []) (Nat.zero_le _)
        fun txin htxin => absurd htxin List.not_mem_nil
    have hrest : Parses (do
        let vin ← unserializeVector CTxIn.unserialize
        let vout ← unserializeVector CTxOut.unserialize
        pure ((1 : UInt8), vin, vout)) (serializeVector CTxIn.serialize tx.vin ++
          serializeVector CTxOut.serialize tx.vout) (1, tx.vin, tx.vout) :=
      parses_bind h.parses_vin (parses_map (fun vout => ((1 : UInt8), tx.vin, vout)) h.parses_vout)
    rw [if_pos rfl, if_pos rfl, hallow rfl]
    change Parses _ ([0] ++ ([1] ++ (serializeVector CTxIn.serialize tx.vin ++
      serializeVector CTxOut.serialize tx.vout))) _
    exact parses_bind hdummy (parses_bind (parses_readByte 1) hrest)

theorem Serializable.parses_witness (h : tx.Serializable) (fAllowWitness : Bool) :
    Parses (readWitness fAllowWitness (if fAllowWitness && !tx.witIsNull then 1 else 0) tx.vin.length)
      (if fAllowWitness && !tx.witIsNull then
        tx.resizedWitness.flatMap (serializeVector serializeBytes) else [])
      (0, if fAllowWitness && !tx.witIsNull then tx.resizedWitness else []) := by
  by_cases hwitness : (fAllowWitness && !tx.witIsNull) = true
  · rw [if_pos hwitness, if_pos hwitness, if_pos hwitness, readWitness]
    rw [Bool.and_eq_true, Bool.not_eq_true'] at hwitness
    rw [if_pos ⟨by decide, hwitness.1⟩, ← length_resizedWitness hwitness.2]
    have hitems : ∀ stack ∈ tx.resizedWitness,
        Parses (unserializeVector unserializeBytes) (serializeVector serializeBytes stack) stack := by
      intro stack hstack
      rw [resizedWitness, if_neg (by simp [hwitness.2]), List.mem_map] at hstack
      obtain ⟨i, -, rfl⟩ := hstack
      cases hi : tx.vtxinwit[i]? with
      | none =>
        exact parses_unserializeVector_self (Nat.zero_le _) fun item hitem =>
          absurd hitem List.not_mem_nil
      | some stack =>
        have hmem := List.mem_of_getElem? hi
        exact parses_unserializeVector_self (h.stack_size stack hmem) fun item hitem =>
          parses_unserializeBytes (h.item_size stack hmem item hitem)
    have hread := parses_list (v := id) hitems
    rw [List.map_id] at hread
    have hnull : (tx.resizedWitness.all fun stack => stack.isEmpty) = false := by
      rw [← hwitness.2]
      exact @witIsNull_resize tx { tx with vtxinwit := tx.resizedWitness } h.witnesses rfl
    rw [← List.append_nil (tx.resizedWitness.flatMap _)]
    refine parses_bind hread ?_
    rw [hnull, if_neg Bool.false_ne_true]
    exact parses_pure _
  · rw [if_neg hwitness, if_neg hwitness, if_neg hwitness, readWitness, if_neg (by simp)]
    exact parses_pure _

def readBack (hash256 : List UInt8 → List UInt8) (fAllowWitness : Bool) (tx : CTransaction) :
    CTransaction :=
  { tx with
    hash := tx.hashOf hash256
    vtxinwit := if fAllowWitness && !tx.witIsNull then tx.resizedWitness else [] }

theorem Serializable.parses (h : tx.Serializable) (hash256 : List UInt8 → List UInt8)
    (fAllowWitness : Bool) : Parses (unserialize hash256 fAllowWitness)
      (tx.serialize fAllowWitness) (tx.readBack hash256 fAllowWitness) := by
  have hinputs := h.parses_inputs (fAllowWitness && !tx.witIsNull) fAllowWitness (by simp +contextual)
  have hwitness := h.parses_witness fAllowWitness
  have hlast := parses_map (fun n =>
    let tx' : CTransaction :=
      { hash := 0
        nVersion := tx.nVersion
        vin := tx.vin
        vout := tx.vout
        nLockTime := UInt32.ofNat n
        vtxinwit := if fAllowWitness && !tx.witIsNull then tx.resizedWitness else [] }
    { tx' with hash := tx'.hashOf hash256 }) (parses_readLE 4 _ tx.nLockTime.toNat_lt)
  rw [UInt32.ofNat_toNat] at hlast
  rw [serialize, List.append_assoc, List.append_assoc, List.append_assoc, List.append_assoc]
  refine parses_bind (parses_readLE 4 _ (by omega)) ?_
  rw [← List.append_assoc (serializeVector _ _), ← List.append_assoc (ite _ _ _)]
  refine parses_bind hinputs (parses_bind hwitness ?_)
  rw [toInt32_emod h.version]
  exact hlast

end CTransaction

end Written

section Accepted

theorem exact_unserializeBytes :
    Exact unserializeBytes (fun bs => bs.length ≤ MAX_SIZE) serializeBytes := by
  refine exact_bind (v := fun _ bs => bs) (exact_readCompactSize MAX_SIZE) fun n hn => ?_
  exact (exact_readBytes n).mono fun bs hbs => ⟨⟨by omega, by rw [← hbs]; rfl⟩, rfl⟩

theorem exact_unserializeVector {α : Type} {r : Reader α} {P : α → Prop} {w : α → List UInt8}
    (hr : Exact r P w) : Exact (unserializeVector r) (fun v => ∀ a ∈ v, P a) (serializeVector w) := by
  refine exact_bind (v := fun _ v => v.flatMap w) (exact_readCompactSize MAX_SIZE) fun n _ => ?_
  exact (exact_readList hr n).mono fun v hv => ⟨⟨hv.2, by rw [← hv.1]; rfl⟩, rfl⟩

theorem exact_outPoint : Exact COutPoint.unserialize (fun _ => True)
    (fun prevout => writeLE 32 prevout.hash.toNat ++ writeLE 4 prevout.n.toNat) := by
  refine exact_bind (v := fun _ prevout => writeLE 4 prevout.n.toNat) (exact_readLE 32)
    fun hash hhash => ?_
  refine exact_bind (v := fun _ _ => []) (exact_readLE 4) fun n hn => exact_pure ?_ rfl
  have hn' : (UInt32.ofNat n).toNat = n := UInt32.toNat_ofNat_of_lt' hn
  have hhash' : (BitVec.ofNat 256 hash).toNat = hash := by
    rw [BitVec.toNat_ofNat, Nat.mod_eq_of_lt]
    norm_num at hhash ⊢
    exact hhash
  rw [hn', hhash', List.append_nil]
  exact ⟨⟨trivial, rfl⟩, rfl⟩

theorem exact_txIn : Exact CTxIn.unserialize (fun _ => True) CTxIn.serialize := by
  refine exact_bind (v := fun _ txin => serializeBytes txin.scriptSig ++
    writeLE 4 txin.nSequence.toNat) exact_outPoint fun prevout _ => ?_
  refine exact_bind (v := fun _ txin => writeLE 4 txin.nSequence.toNat) exact_unserializeBytes
    fun scriptSig _ => ?_
  refine exact_bind (v := fun _ _ => []) (exact_readLE 4) fun n hn => exact_pure ?_ rfl
  have hn' : (UInt32.ofNat n).toNat = n := UInt32.toNat_ofNat_of_lt' hn
  rw [hn', List.append_nil, CTxIn.serialize, hn', List.append_assoc]
  exact ⟨⟨⟨trivial, rfl⟩, rfl⟩, rfl⟩

theorem exact_txOut : Exact CTxOut.unserialize (fun _ => True) CTxOut.serialize := by
  refine exact_bind (v := fun _ o => serializeBytes o.scriptPubKey) (exact_readLE 8) fun n hn => ?_
  refine exact_bind (v := fun _ _ => []) exact_unserializeBytes fun scriptPubKey _ =>
    exact_pure ?_ rfl
  have hback : (CTxOutCompressor.toInt64 n % 2 ^ 64).toNat = n := by
    rw [CTxOutCompressor.toInt64]
    split <;> omega
  rw [CTxOut.serialize, hback, List.append_nil]
  exact ⟨⟨trivial, rfl⟩, rfl⟩

theorem toInt32_toNat {n : Nat} (h : n < 2 ^ 32) : (toInt32 n % 2 ^ 32).toNat = n := by
  rw [toInt32]
  split <;> omega

namespace CTransaction

def inputBytes (read : UInt8 × List CTxIn × List CTxOut) : List UInt8 :=
  (if read.1 = 0 then [] else [0, read.1]) ++ (serializeVector CTxIn.serialize read.2.1 ++
    serializeVector CTxOut.serialize read.2.2)

theorem exact_readInputs (fAllowWitness : Bool) : Exact (readInputs fAllowWitness)
    (fun read => read.1 ≠ 0 → fAllowWitness = true) inputBytes := by
  have hvins := exact_unserializeVector exact_txIn
  have hvouts := exact_unserializeVector exact_txOut
  intro bs read rest h
  obtain ⟨vin, afterVin, hvin, hrest⟩ := run_bind_eq_some h
  obtain ⟨-, rfl⟩ := hvins _ _ _ hvin
  clear h hvin
  split at hrest
  · rename_i hempty
    rw [Bool.and_eq_true, List.isEmpty_iff] at hempty
    obtain ⟨rfl, hallow⟩ := hempty
    obtain ⟨flags, afterFlags, hflags, hlists⟩ := run_bind_eq_some hrest
    obtain ⟨-, rfl⟩ := exact_readByte _ _ _ hflags
    clear hrest hflags
    split at hlists
    · -- the zero flag is the count of an empty vout
      rename_i hzero
      obtain ⟨rfl, rfl⟩ := run_pure_eq_some hlists
      rw [hzero]
      exact ⟨fun hne => absurd rfl hne, rfl⟩
    · rename_i hne
      obtain ⟨vin, afterVin, hvin, hafterVin⟩ := run_bind_eq_some hlists
      obtain ⟨vout, afterVout, hvout, hpure⟩ := run_bind_eq_some hafterVin
      obtain ⟨rfl, rfl⟩ := run_pure_eq_some hpure
      obtain ⟨-, rfl⟩ := hvins _ _ _ hvin
      obtain ⟨-, rfl⟩ := hvouts _ _ _ hvout
      refine ⟨fun _ => hallow, ?_⟩
      rw [inputBytes, if_neg hne, List.append_assoc, List.append_assoc]
      rfl
  · obtain ⟨vout, afterVout, hvout, hpure⟩ := run_bind_eq_some hrest
    obtain ⟨rfl, rfl⟩ := run_pure_eq_some hpure
    obtain ⟨-, rfl⟩ := hvouts _ _ _ hvout
    refine ⟨fun hne => absurd rfl hne, ?_⟩
    rw [inputBytes, if_pos rfl, List.nil_append, List.append_assoc]

-- The flag that the written transaction has, and the witness under it.
structure WitnessRead (fAllowWitness : Bool) (flags : UInt8) (nInputs : Nat)
    (vtxinwit : List (List (List UInt8))) : Prop where
  flags_eq : flags = if vtxinwit.all (fun stack => stack.isEmpty) then 0 else 1
  allowed : flags ≠ 0 → fAllowWitness = true
  absent : flags = 0 → vtxinwit = []
  length_eq : flags ≠ 0 → vtxinwit.length = nInputs

theorem exact_readWitness (fAllowWitness : Bool) (flags : UInt8) (nInputs : Nat) :
    Exact (readWitness fAllowWitness flags nInputs)
      (fun read => read.1 = 0 → WitnessRead fAllowWitness flags nInputs read.2)
      (fun read => read.2.flatMap (serializeVector serializeBytes)) := by
  have hwits := exact_readList (exact_unserializeVector exact_unserializeBytes) nInputs
  refine exact_ite (fun hwitness => ?_) fun _ => ?_
  · refine exact_bind (v := fun _ _ => []) hwits fun vtxinwit hwit => ?_
    refine exact_ite (fun _ => exact_failure) fun hall => exact_pure ⟨fun hzero => ?_, ?_⟩ rfl
    · have hflags : flags = 1 := by
        have hxor := congrArg (· ^^^ (1 : UInt8)) hzero
        simpa [UInt8.xor_assoc] using hxor
      refine ⟨?_, fun _ => hwitness.2, fun hzero => absurd (hflags.symm.trans hzero) (by decide),
        fun _ => hwit.1⟩
      rw [if_neg hall, hflags]
    · exact List.append_nil _
  · refine exact_pure (fun hzero => ?_) rfl
    exact ⟨hzero, fun hne => absurd hzero hne, fun _ => rfl, fun hne => absurd hzero hne⟩

theorem resizedWitness_of_length {tx : CTransaction} (h : tx.vtxinwit.length = tx.vin.length) :
    tx.resizedWitness = tx.vtxinwit := by
  rw [resizedWitness]
  split
  · rfl
  · refine List.ext_getElem (by simp [h]) fun i hi hi' => ?_
    simp [List.getElem?_eq_getElem hi']

theorem WitnessRead.serialize_eq {tx : CTransaction} {fAllowWitness : Bool} {flags : UInt8}
    (h : WitnessRead fAllowWitness flags tx.vin.length tx.vtxinwit) :
    tx.serialize fAllowWitness = writeLE 4 (tx.nVersion % 2 ^ 32).toNat ++
      (inputBytes (flags, tx.vin, tx.vout) ++
        (tx.vtxinwit.flatMap (serializeVector serializeBytes) ++ writeLE 4 tx.nLockTime.toNat)) := by
  have hflags : flags = if tx.witIsNull then 0 else 1 := h.flags_eq
  cases hnull : tx.witIsNull with
  | true =>
    rw [hnull, if_pos rfl] at hflags
    rw [serialize, hnull, h.absent hflags, inputBytes, if_pos hflags]
    simp
  | false =>
    rw [hnull, if_neg Bool.false_ne_true] at hflags
    have hne : flags ≠ 0 := by
      rw [hflags]
      decide
    rw [serialize, hnull, h.allowed hne, resizedWitness_of_length (h.length_eq hne), inputBytes,
      if_neg hne, hflags]
    simp

-- the bytes that give a transaction are those that it is written as
theorem exact_unserialize (hash256 : List UInt8 → List UInt8) (fAllowWitness : Bool) :
    Exact (unserialize hash256 fAllowWitness) (fun tx => tx.hash = tx.hashOf hash256)
      (fun tx => tx.serialize fAllowWitness) := by
  intro bs tx rest h
  obtain ⟨n, bs', hn, hfields⟩ := run_bind_eq_some h
  obtain ⟨hversion, rfl⟩ := exact_readLE 4 _ _ _ hn
  clear h hn
  obtain ⟨⟨flags, vin, vout⟩, bs'', hinputs, hafter⟩ := run_bind_eq_some hfields
  obtain ⟨hallow, rfl⟩ := exact_readInputs fAllowWitness _ _ _ hinputs
  clear hfields hinputs
  obtain ⟨⟨flags', vtxinwit⟩, bs''', hwits, hlast⟩ := run_bind_eq_some hafter
  obtain ⟨hwitness, rfl⟩ := exact_readWitness fAllowWitness _ _ _ _ _ hwits
  clear hafter hwits
  dsimp only at hlast hwitness
  split at hlast
  · exact absurd hlast (by simp [failure, StateT.run, StateT.failure])
  · rename_i hzero
    obtain ⟨nLockTime, bs, hlock, hpure⟩ := run_bind_eq_some hlast
    obtain ⟨hlocktime, rfl⟩ := exact_readLE 4 _ _ _ hlock
    obtain ⟨rfl, rfl⟩ := run_pure_eq_some hpure
    refine ⟨hashOf_congr hash256 rfl rfl rfl rfl, ?_⟩
    have hlock' : (UInt32.ofNat nLockTime).toNat = nLockTime := UInt32.toNat_ofNat_of_lt' hlocktime
    have hserialize : ∀ hash : UInt256, CTransaction.serialize fAllowWitness
        ⟨hash, toInt32 n, vin, vout, UInt32.ofNat nLockTime, vtxinwit⟩ = writeLE 4 n ++
          (inputBytes (flags, vin, vout) ++ (vtxinwit.flatMap (serializeVector serializeBytes) ++
            writeLE 4 nLockTime)) := by
      intro hash
      rw [WitnessRead.serialize_eq (hwitness (not_not.mp hzero)), toInt32_toNat hversion, hlock']
    dsimp only
    rw [hserialize]
    simp only [List.append_assoc]

end CTransaction

end Accepted

section RoundTrip

open CTransaction

theorem CTransaction.Serializable.scriptWitness_readBack {tx : CTransaction} (h : tx.Serializable)
    (hash256 : List UInt8 → List UInt8) (i : Nat) :
    (tx.readBack hash256 true).scriptWitness i = tx.scriptWitness i := by
  rw [scriptWitness, scriptWitness, readBack, List.getD_eq_getElem?_getD, List.getD_eq_getElem?_getD]
  cases hnull : tx.witIsNull with
  | true =>
    rw [Bool.not_true, Bool.and_false, if_neg Bool.false_ne_true, List.getElem?_nil,
      Option.getD_none]
    rw [witIsNull, List.all_eq_true] at hnull
    cases hi : tx.vtxinwit[i]? with
    | none => rfl
    | some stack => exact (List.isEmpty_iff.mp (hnull stack (List.mem_of_getElem? hi))).symm
  | false =>
    rw [Bool.not_false, Bool.and_true, if_pos rfl, resizedWitness, hnull, if_neg Bool.false_ne_true,
      List.getElem?_map]
    rcases Nat.lt_or_ge i tx.vin.length with hi | hi
    · rw [List.getElem?_range hi]
      rfl
    · have hwitnesses := h.witnesses
      rw [List.getElem?_eq_none (by simpa using hi), List.getElem?_eq_none (by omega)]
      rfl

theorem transaction_round_trip (hash256 : List UInt8 → List UInt8) :
    (∀ tx : CTransaction, tx.Serializable → ∀ (fAllowWitness : Bool) (rest : List UInt8),
      ∃ tx', (unserialize hash256 fAllowWitness).run (tx.serialize fAllowWitness ++ rest) =
          some (tx', rest) ∧
        tx'.nVersion = tx.nVersion ∧ tx'.vin = tx.vin ∧ tx'.vout = tx.vout ∧
        tx'.nLockTime = tx.nLockTime ∧ tx'.hash = tx'.hashOf hash256 ∧
        ∀ i, tx'.scriptWitness i = if fAllowWitness then tx.scriptWitness i else []) ∧
    ∀ (fAllowWitness : Bool) (bs rest : List UInt8) (tx : CTransaction),
      (unserialize hash256 fAllowWitness).run bs = some (tx, rest) →
      bs = tx.serialize fAllowWitness ++ rest := by
  refine ⟨fun tx h fAllowWitness rest => ?_, fun fAllowWitness bs rest tx h =>
    (exact_unserialize hash256 fAllowWitness bs tx rest h).2⟩
  refine ⟨tx.readBack hash256 fAllowWitness, h.parses hash256 fAllowWitness rest, rfl, rfl, rfl, rfl,
    hashOf_congr hash256 rfl rfl rfl rfl, fun i => ?_⟩
  cases fAllowWitness with
  | true => exact h.scriptWitness_readBack hash256 i
  | false => rfl

def halfWitnessed : CTransaction :=
  { hash := 0
    vin := [⟨⟨1, 0⟩, [], 0xffffffff⟩, ⟨⟨1, 1⟩, [0x51], 0⟩]
    vout := [⟨5, [0x51]⟩]
    nLockTime := 7
    vtxinwit := [[[1], []]] }

theorem halfWitnessed_serializable : halfWitnessed.Serializable where
  vin_ne_nil := by decide
  witnesses := by decide
  version := by decide
  values := by decide
  vin_size := by decide
  vout_size := by decide
  scriptSig_size := by decide
  scriptPubKey_size := by decide
  stack_size := by decide
  item_size := by decide

theorem transaction_round_trip_halfWitnessed : ∃ tx',
    (unserialize id true).run (halfWitnessed.serialize true ++ [0]) = some (tx', [0]) ∧
      tx'.vin = halfWitnessed.vin ∧ tx'.scriptWitness 0 = [[1], []] ∧ tx'.scriptWitness 1 = [] := by
  obtain ⟨tx', hrun, -, hvin, -, -, -, hwitness⟩ :=
    (transaction_round_trip id).1 halfWitnessed halfWitnessed_serializable true [0]
  exact ⟨tx', hrun, hvin, hwitness 0, hwitness 1⟩

end RoundTrip

end AnkerNode
