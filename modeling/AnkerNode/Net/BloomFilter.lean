import AnkerNode.Lib.Bits
import AnkerNode.Lib.ByteStream
import AnkerNode.Lib.Checks
import AnkerNode.Primitives.Transaction
import AnkerNode.Script.Solver

namespace AnkerNode

open ByteStream Checks

namespace Murmur

def ROTL32 (x r : UInt32) : UInt32 := (x <<< r) ||| (x >>> (32 - r))

def scramble (k1 : UInt32) : UInt32 := ROTL32 (k1 * 0xcc9e2d51) 15 * 0x1b873593

-- the four bytes at a time of the body, the first one lowest, then the tail
def body (h1 : UInt32) : List UInt8 → UInt32
  | a :: b :: c :: d :: rest =>
    let k1 := a.toUInt32 ||| (b.toUInt32 <<< 8) ||| (c.toUInt32 <<< 16) ||| (d.toUInt32 <<< 24)
    body (ROTL32 (h1 ^^^ scramble k1) 13 * 5 + 0xe6546b64) rest
  | [a, b, c] => h1 ^^^ scramble ((c.toUInt32 <<< 16) ^^^ (b.toUInt32 <<< 8) ^^^ a.toUInt32)
  | [a, b] => h1 ^^^ scramble ((b.toUInt32 <<< 8) ^^^ a.toUInt32)
  | [a] => h1 ^^^ scramble a.toUInt32
  | [] => h1

def finalize (h1 : UInt32) : UInt32 :=
  let h1 := h1 ^^^ (h1 >>> 16)
  let h1 := h1 * 0x85ebca6b
  let h1 := h1 ^^^ (h1 >>> 13)
  let h1 := h1 * 0xc2b2ae35
  h1 ^^^ (h1 >>> 16)

end Murmur

def murmurHash3 (nHashSeed : UInt32) (vDataToHash : List UInt8) : UInt32 :=
  Murmur.finalize (Murmur.body nHashSeed vDataToHash ^^^ UInt32.ofNat vDataToHash.length)

example : murmurHash3 0 [0x00, 0x11, 0x22, 0x33, 0x44, 0x55, 0x66] = 0xb074502c := by decide

def MAX_BLOOM_FILTER_SIZE : Nat := 36000

def MAX_HASH_FUNCS : UInt32 := 50

def BLOOM_UPDATE_ALL : UInt8 := 1

def BLOOM_UPDATE_P2PUBKEY_ONLY : UInt8 := 2

def BLOOM_UPDATE_MASK : UInt8 := 3

structure CBloomFilter where
  vData : List UInt8 := []
  isFull : Bool := true
  isEmpty : Bool := false
  nHashFuncs : UInt32 := 0
  nTweak : UInt32 := 0
  nFlags : UInt8 := 0
deriving DecidableEq, Repr

inductive BloomFault
  | moduloByZero
  | outOfRange (nIndex : Nat)
deriving DecidableEq, Repr

-- `CDataStream << outpoint`
def COutPoint.stream (o : COutPoint) : List UInt8 := writeLE 32 o.hash.toNat ++ writeLE 4 o.n.toNat

namespace CBloomFilter

variable (f : CBloomFilter)

def hash (nHashNum : UInt32) (vDataToHash : List UInt8) : Except BloomFault Nat :=
  if f.vData.length * 8 = 0 then .error .moduloByZero
  else
    .ok ((murmurHash3 (nHashNum * 0xFBA4C795 + f.nTweak) vDataToHash).toNat % (f.vData.length * 8))

def setIndex (nIndex : Nat) : Except BloomFault CBloomFilter :=
  if nIndex / 8 < f.vData.length then
    .ok { f with vData := BitBytes.setBit f.vData nIndex true }
  else .error (.outOfRange nIndex)

def testIndex (nIndex : Nat) : Except BloomFault Bool :=
  if nIndex / 8 < f.vData.length then .ok (BitBytes.getBit f.vData nIndex)
  else .error (.outOfRange nIndex)

def setHashes (vKey : List UInt8) (f : CBloomFilter) : List Nat → Except BloomFault CBloomFilter
  | [] => .ok f
  | i :: is => do
    let nIndex ← f.hash (UInt32.ofNat i) vKey
    let f ← f.setIndex nIndex
    setHashes vKey f is

def insert (vKey : List UInt8) : Except BloomFault CBloomFilter :=
  if f.isFull then .ok f
  else do
    let f ← setHashes vKey f (List.range f.nHashFuncs.toNat)
    .ok { f with isEmpty := false }

def testHashes (vKey : List UInt8) : List Nat → Except BloomFault Bool
  | [] => .ok true
  | i :: is => do
    let nIndex ← f.hash (UInt32.ofNat i) vKey
    if ← f.testIndex nIndex then testHashes vKey is else .ok false

def contains (vKey : List UInt8) : Except BloomFault Bool :=
  if f.isFull then .ok true
  else if f.isEmpty then .ok false
  else f.testHashes vKey (List.range f.nHashFuncs.toNat)

def isWithinSizeConstraints : Bool :=
  decide (f.vData.length ≤ MAX_BLOOM_FILTER_SIZE) && decide (f.nHashFuncs ≤ MAX_HASH_FUNCS)

def updateEmptyFull : CBloomFilter :=
  { f with
    isFull := f.vData.all fun b => b == 0xff
    isEmpty := f.vData.all fun b => b == 0 }

-- the filter that a `filterload` message leaves
def load (vData : List UInt8) (nHashFuncs nTweak : UInt32) (nFlags : UInt8) :
    Option CBloomFilter :=
  let filter : CBloomFilter :=
    { vData := vData, nHashFuncs := nHashFuncs, nTweak := nTweak, nFlags := nFlags }
  if filter.isWithinSizeConstraints then some filter.updateEmptyFull else none

-- A script is read up to the first `GetOp` that fails.
def containsData : List (Option Instruction) → Except BloomFault Bool
  | some i :: ops => do
    if i.data ≠ [] then
      if ← f.contains i.data then .ok true else containsData ops
    else containsData ops
  | _ => .ok false

def updates (scriptPubKey : CScript) : Bool :=
  if f.nFlags &&& BLOOM_UPDATE_MASK = BLOOM_UPDATE_ALL then true
  else if f.nFlags &&& BLOOM_UPDATE_MASK = BLOOM_UPDATE_P2PUBKEY_ONLY then
    match scriptPubKey.solver with
    | some (type, _) => type == .TX_PUBKEY || type == .TX_MULTISIG
    | none => false
  else false

def scanOutput (hash : UInt256) (state : CBloomFilter × Bool) (it : CTxOut × Nat) :
    Except BloomFault (CBloomFilter × Bool) := do
  if ← state.1.containsData (CScript.instructions it.1.scriptPubKey) then
    if state.1.updates it.1.scriptPubKey then
      let f ← state.1.insert (COutPoint.stream ⟨hash, UInt32.ofNat it.2⟩)
      .ok (f, true)
    else .ok (state.1, true)
  else .ok state

def scanOutputs (hash : UInt256) (state : CBloomFilter × Bool) (vout : List (CTxOut × Nat)) :
    Except BloomFault (CBloomFilter × Bool) :=
  vout.foldlM (scanOutput hash) state

def scanInputs : List CTxIn → Except BloomFault Bool
  | [] => .ok false
  | txin :: vin => do
    if ← f.contains txin.prevout.stream then .ok true
    else if ← f.containsData (CScript.instructions txin.scriptSig) then .ok true
    else scanInputs vin

def isRelevantAndUpdate (tx : CTransaction) : Except BloomFault (CBloomFilter × Bool) :=
  if f.isFull then .ok (f, true)
  else if f.isEmpty then .ok (f, false)
  else do
    let fFound ← f.contains (writeLE 32 tx.hash.toNat)
    let (f, fFound) ← scanOutputs tx.hash (f, fFound) tx.vout.zipIdx
    if fFound then .ok (f, true)
    else
      let fFound ← f.scanInputs tx.vin
      .ok (f, fFound)

end CBloomFilter

inductive BloomOp
  | insert (vKey : List UInt8)
  | contains (vKey : List UInt8)
  | isRelevantAndUpdate (tx : CTransaction)

namespace BloomOp

def apply (f : CBloomFilter) : BloomOp → Except BloomFault CBloomFilter
  | insert vKey => f.insert vKey
  | contains vKey => do
    let _ ← f.contains vKey
    .ok f
  | isRelevantAndUpdate tx => do
    let (f, _) ← f.isRelevantAndUpdate tx
    .ok f

def run (f : CBloomFilter) (ops : List BloomOp) : Except BloomFault CBloomFilter :=
  ops.foldlM apply f

end BloomOp

namespace CBloomFilter

variable {f g h : CBloomFilter} {vKey : List UInt8}

def index (f : CBloomFilter) (vKey : List UInt8) (i : Nat) : Nat :=
  (murmurHash3 (UInt32.ofNat i * 0xFBA4C795 + f.nTweak) vKey).toNat % (f.vData.length * 8)

-- No operation on an empty vector gets past the flag.
def Sound (f : CBloomFilter) : Prop := f.vData = [] → f.isFull = true

def Holds (f : CBloomFilter) (vKey : List UInt8) : Prop :=
  f.isFull = true ∨ f.isEmpty = false ∧
    ∀ i ∈ List.range f.nHashFuncs.toNat, BitBytes.getBit f.vData (f.index vKey i) = true

structure Grows (f g : CBloomFilter) : Prop where
  length : g.vData.length = f.vData.length
  nHashFuncs : g.nHashFuncs = f.nHashFuncs
  nTweak : g.nTweak = f.nTweak
  nFlags : g.nFlags = f.nFlags
  isFull : g.isFull = f.isFull
  isEmpty : f.isEmpty = false → g.isEmpty = false
  bits : ∀ p, BitBytes.getBit f.vData p = true → BitBytes.getBit g.vData p = true

theorem Grows.refl (f : CBloomFilter) : Grows f f :=
  ⟨rfl, rfl, rfl, rfl, rfl, fun h => h, fun _ h => h⟩

theorem Grows.trans (hfg : Grows f g) (hgh : Grows g h) : Grows f h where
  length := hgh.length.trans hfg.length
  nHashFuncs := hgh.nHashFuncs.trans hfg.nHashFuncs
  nTweak := hgh.nTweak.trans hfg.nTweak
  nFlags := hgh.nFlags.trans hfg.nFlags
  isFull := hgh.isFull.trans hfg.isFull
  isEmpty hempty := hgh.isEmpty (hfg.isEmpty hempty)
  bits p hp := hgh.bits p (hfg.bits p hp)

theorem Grows.index (h : Grows f g) (vKey : List UInt8) (i : Nat) :
    g.index vKey i = f.index vKey i := by
  rw [CBloomFilter.index, CBloomFilter.index, h.length, h.nTweak]

theorem Grows.holds (h : Grows f g) (hf : f.Holds vKey) : g.Holds vKey := by
  rcases hf with hfull | ⟨hempty, hbits⟩
  · exact .inl (h.isFull.trans hfull)
  · refine .inr ⟨h.isEmpty hempty, ?_⟩
    rw [h.nHashFuncs]
    intro i hi
    rw [h.index]
    exact h.bits _ (hbits i hi)

theorem Grows.holds_of_bits (h : Grows f g) (hempty : g.isEmpty = false)
    (hbits : ∀ i ∈ List.range f.nHashFuncs.toNat,
      BitBytes.getBit g.vData (f.index vKey i) = true) : g.Holds vKey := by
  refine .inr ⟨hempty, ?_⟩
  rw [h.nHashFuncs]
  intro i hi
  rw [h.index]
  exact hbits i hi

theorem Grows.sound (h : Grows f g) (hf : f.Sound) : g.Sound := by
  intro hnil
  rw [h.isFull]
  apply hf
  rw [← List.length_eq_zero_iff, ← h.length, hnil, List.length_nil]

theorem hash_eq (hdata : f.vData ≠ []) (i : Nat) :
    f.hash (UInt32.ofNat i) vKey = .ok (f.index vKey i) := by
  have hlength : 0 < f.vData.length := List.length_pos_iff.mpr hdata
  rw [hash, if_neg (by omega)]
  rfl

theorem index_lt (hdata : f.vData ≠ []) (vKey : List UInt8) (i : Nat) :
    f.index vKey i / 8 < f.vData.length := by
  have hlength : 0 < f.vData.length := List.length_pos_iff.mpr hdata
  have hlt : f.index vKey i < f.vData.length * 8 := Nat.mod_lt _ (by omega)
  omega

theorem grows_setBit {p : Nat} (hp : p / 8 < f.vData.length) :
    Grows f { f with vData := BitBytes.setBit f.vData p true } := by
  refine ⟨BitBytes.length_setBit _ _ _, rfl, rfl, rfl, rfl, fun h => h, ?_⟩
  intro q hq
  rw [BitBytes.getBit_setBit hp, hq, Bool.true_or]

theorem setHashes_spec (hdata : f.vData ≠ []) (vKey : List UInt8) (is : List Nat) :
    ∃ g, setHashes vKey f is = .ok g ∧ Grows f g ∧
      ∀ i ∈ is, BitBytes.getBit g.vData (f.index vKey i) = true := by
  induction is generalizing f with
  | nil => exact ⟨f, rfl, .refl f, by simp⟩
  | cons i is ih =>
    have hlt := index_lt hdata vKey i
    have hfirst := grows_setBit hlt
    have hset : f.setIndex (f.index vKey i) =
        .ok { f with vData := BitBytes.setBit f.vData (f.index vKey i) true } := if_pos hlt
    have hnext : { f with vData := BitBytes.setBit f.vData (f.index vKey i) true }.vData ≠ [] := by
      rw [← List.length_pos_iff, hfirst.length]
      exact List.length_pos_iff.mpr hdata
    obtain ⟨g, hg, hgrows, hbits⟩ := ih hnext
    refine ⟨g, bind_eq_ok.mpr ⟨_, hash_eq hdata i, bind_eq_ok.mpr ⟨_, hset, hg⟩⟩,
      hfirst.trans hgrows, List.forall_mem_cons.mpr ⟨?_, ?_⟩⟩
    · apply hgrows.bits
      rw [BitBytes.getBit_setBit hlt]
      simp
    · intro j hj
      rw [← hfirst.index]
      exact hbits j hj

theorem insert_spec (hf : f.Sound) (vKey : List UInt8) :
    ∃ g, f.insert vKey = .ok g ∧ Grows f g ∧ g.Holds vKey := by
  cases hfull : f.isFull with
  | true => exact ⟨f, by rw [insert, if_pos hfull], .refl f, .inl hfull⟩
  | false =>
    have hdata : f.vData ≠ [] := fun hnil => by simp [hf hnil] at hfull
    obtain ⟨g, hg, hgrows, hbits⟩ := setHashes_spec hdata vKey
      (List.range f.nHashFuncs.toNat)
    have hlast : Grows g { g with isEmpty := false } :=
      ⟨rfl, rfl, rfl, rfl, rfl, fun _ => rfl, fun _ h => h⟩
    refine ⟨{ g with isEmpty := false }, ?_, hgrows.trans hlast,
      (hgrows.trans hlast).holds_of_bits rfl hbits⟩
    rw [insert, if_neg (by simp [hfull])]
    exact bind_eq_ok.mpr ⟨g, hg, rfl⟩

theorem testHashes_spec (hdata : f.vData ≠ []) (vKey : List UInt8) (is : List Nat) :
    ∃ b, f.testHashes vKey is = .ok b ∧
      (b = true ↔ ∀ i ∈ is, BitBytes.getBit f.vData (f.index vKey i) = true) := by
  induction is with
  | nil => exact ⟨true, rfl, by simp⟩
  | cons i is ih =>
    obtain ⟨b, hb, hiff⟩ := ih
    have htest : f.testIndex (f.index vKey i) =
        .ok (BitBytes.getBit f.vData (f.index vKey i)) := if_pos (index_lt hdata vKey i)
    rw [List.forall_mem_cons, ← hiff]
    cases hbit : BitBytes.getBit f.vData (f.index vKey i) with
    | true =>
      rw [hbit] at htest
      exact ⟨b, bind_eq_ok.mpr ⟨_, hash_eq hdata i, bind_eq_ok.mpr ⟨true, htest, hb⟩⟩, by simp⟩
    | false =>
      rw [hbit] at htest
      exact ⟨false, bind_eq_ok.mpr ⟨_, hash_eq hdata i, bind_eq_ok.mpr ⟨false, htest, rfl⟩⟩,
        by simp⟩

theorem contains_spec (hf : f.Sound) (vKey : List UInt8) :
    ∃ b, f.contains vKey = .ok b ∧ (b = true ↔ f.Holds vKey) := by
  rw [contains, Holds]
  cases hfull : f.isFull with
  | true => exact ⟨true, rfl, by simp⟩
  | false =>
    cases hempty : f.isEmpty with
    | true => exact ⟨false, rfl, by simp⟩
    | false =>
      have hdata : f.vData ≠ [] := fun hnil => by simp [hf hnil] at hfull
      obtain ⟨b, hb, hiff⟩ := testHashes_spec hdata vKey (List.range f.nHashFuncs.toNat)
      exact ⟨b, hb, by simpa using hiff⟩

theorem contains_eq_true (hf : f.Sound) : f.contains vKey = .ok true ↔ f.Holds vKey := by
  obtain ⟨b, hb, hiff⟩ := contains_spec hf vKey
  rw [hb, ← hiff, Except.ok.injEq]

theorem containsData_total (hf : f.Sound) (ops : List (Option Instruction)) :
    ∃ b, f.containsData ops = .ok b := by
  induction ops with
  | nil => exact ⟨false, rfl⟩
  | cons op ops ih =>
    cases op with
    | none => exact ⟨false, rfl⟩
    | some i =>
      obtain ⟨b, hb⟩ := ih
      obtain ⟨c, hc, -⟩ := contains_spec hf i.data
      rw [containsData]
      split
      · refine ⟨if c then true else b, bind_eq_ok.mpr ⟨c, hc, ?_⟩⟩
        cases c with
        | true => rfl
        | false => exact hb
      · exact ⟨b, hb⟩

-- the output is matched by a filter in the state of the scan that comes to it
def MatchesOutput (f : CBloomFilter) (out : CTxOut) : Prop :=
  f.containsData (CScript.instructions out.scriptPubKey) = .ok true ∧
    f.updates out.scriptPubKey = true

theorem scanOutput_spec (hf : f.Sound) (hash : UInt256) (b : Bool) (it : CTxOut × Nat) :
    ∃ g c, scanOutput hash (f, b) it = .ok (g, c) ∧ Grows f g ∧ (b = true → c = true) ∧
      (f.MatchesOutput it.1 → g.Holds (COutPoint.stream ⟨hash, UInt32.ofNat it.2⟩)) := by
  obtain ⟨m, hm⟩ := containsData_total hf (CScript.instructions it.1.scriptPubKey)
  rw [MatchesOutput, hm, Except.ok.injEq]
  cases m with
  | false => exact ⟨f, b, bind_eq_ok.mpr ⟨false, hm, rfl⟩, .refl f, fun h => h, by simp⟩
  | true =>
    cases hupdates : f.updates it.1.scriptPubKey with
    | false =>
      refine ⟨f, true, bind_eq_ok.mpr ⟨true, hm, ?_⟩, .refl f, fun _ => rfl, by simp⟩
      simp only [hupdates]
      rfl
    | true =>
      obtain ⟨g, hg, hgrows, hholds⟩ := insert_spec hf (COutPoint.stream ⟨hash, UInt32.ofNat it.2⟩)
      refine ⟨g, true, bind_eq_ok.mpr ⟨true, hm, ?_⟩, hgrows, fun _ => rfl, fun _ => hholds⟩
      simp only [hupdates, if_true]
      exact bind_eq_ok.mpr ⟨g, hg, rfl⟩

theorem scanOutputs_spec (hf : f.Sound) (hash : UInt256) (b : Bool)
    (vout : List (CTxOut × Nat)) :
    ∃ g c, scanOutputs hash (f, b) vout = .ok (g, c) ∧ Grows f g ∧ (b = true → c = true) := by
  induction vout generalizing f b with
  | nil => exact ⟨f, b, rfl, .refl f, fun h => h⟩
  | cons it vout ih =>
    obtain ⟨g, c, hg, hfirst, hfound, -⟩ := scanOutput_spec hf hash b it
    obtain ⟨h, d, hh, hrest, hmore⟩ := ih (hfirst.sound hf) c
    refine ⟨h, d, ?_, hfirst.trans hrest, fun hb => hmore (hfound hb)⟩
    rw [scanOutputs, List.foldlM_cons]
    exact bind_eq_ok.mpr ⟨(g, c), hg, hh⟩

-- The scan of the outputs of a transaction, from a filter that is neither full nor empty, comes to
-- an output it matches and has to store.
def Matched (f : CBloomFilter) (tx : CTransaction) (i : Nat) : Prop :=
  f.isFull = false ∧ f.isEmpty = false ∧ ∃ before out after g b c,
    tx.vout.zipIdx = before ++ (out, i) :: after ∧
      f.contains (writeLE 32 tx.hash.toNat) = .ok b ∧
      scanOutputs tx.hash (f, b) before = .ok (g, c) ∧ g.MatchesOutput out

theorem scanOutputs_matched {hash : UInt256} {b c : Bool} {before : List (CTxOut × Nat)}
    {out : CTxOut} (hf : f.Sound) (i : Nat) (after : List (CTxOut × Nat))
    (hscan : scanOutputs hash (f, b) before = .ok (g, c)) (hmatch : g.MatchesOutput out) :
    ∃ h d, scanOutputs hash (f, b) (before ++ (out, i) :: after) = .ok (h, d) ∧
      h.Holds (COutPoint.stream ⟨hash, UInt32.ofNat i⟩) := by
  obtain ⟨g', c', hg', hbefore, -⟩ := scanOutputs_spec hf hash b before
  rw [hscan, Except.ok.injEq, Prod.mk.injEq] at hg'
  obtain ⟨rfl, rfl⟩ := hg'
  obtain ⟨k, d, hk, hgrows, -, hholds⟩ :=
    scanOutput_spec (hbefore.sound hf) hash c (out, i)
  obtain ⟨l, e, hl, hafter, -⟩ :=
    scanOutputs_spec (hgrows.sound (hbefore.sound hf)) hash d after
  refine ⟨l, e, ?_, hafter.holds (hholds hmatch)⟩
  rw [scanOutputs, List.foldlM_append]
  refine bind_eq_ok.mpr ⟨(g, c), hscan, ?_⟩
  rw [List.foldlM_cons]
  exact bind_eq_ok.mpr ⟨(k, d), hk, hl⟩

theorem scanInputs_spec (hf : f.Sound) (vin : List CTxIn) :
    ∃ b, f.scanInputs vin = .ok b ∧
      ((∃ txin ∈ vin, f.Holds txin.prevout.stream) → b = true) := by
  induction vin with
  | nil => exact ⟨false, rfl, by simp⟩
  | cons txin vin ih =>
    obtain ⟨b, hb, hfound⟩ := ih
    obtain ⟨c, hc, hholds⟩ := contains_spec hf txin.prevout.stream
    obtain ⟨d, hd⟩ := containsData_total hf (CScript.instructions txin.scriptSig)
    cases c with
    | true => exact ⟨true, bind_eq_ok.mpr ⟨true, hc, rfl⟩, fun _ => rfl⟩
    | false =>
      cases d with
      | true =>
        exact ⟨true, bind_eq_ok.mpr ⟨false, hc, bind_eq_ok.mpr ⟨true, hd, rfl⟩⟩, fun _ => rfl⟩
      | false =>
        refine ⟨b, bind_eq_ok.mpr ⟨false, hc, bind_eq_ok.mpr ⟨false, hd, hb⟩⟩, ?_⟩
        rintro ⟨other, hmem, hother⟩
        rcases List.mem_cons.mp hmem with rfl | hmem
        · exact absurd (hholds.mpr hother) (by simp)
        · exact hfound ⟨other, hmem, hother⟩

theorem isRelevantAndUpdate_spec (hf : f.Sound) (tx : CTransaction) :
    ∃ g b, f.isRelevantAndUpdate tx = .ok (g, b) ∧ Grows f g ∧
      (∀ i, f.Matched tx i → g.Holds (COutPoint.stream ⟨tx.hash, UInt32.ofNat i⟩)) ∧
      ((∃ txin ∈ tx.vin, f.Holds txin.prevout.stream) → b = true) := by
  rw [isRelevantAndUpdate]
  cases hfull : f.isFull with
  | true =>
    refine ⟨f, true, rfl, .refl f, ?_, fun _ => rfl⟩
    intro i hmatched
    exact absurd hfull (by simp [hmatched.1])
  | false =>
    cases hempty : f.isEmpty with
    | true =>
      refine ⟨f, false, rfl, .refl f, ?_, ?_⟩
      · intro i hmatched
        exact absurd hempty (by simp [hmatched.2.1])
      · rintro ⟨txin, -, hholds | ⟨hnonempty, -⟩⟩
        · exact absurd hholds (by simp [hfull])
        · exact absurd hempty (by simp [hnonempty])
    | false =>
      obtain ⟨b, hb, -⟩ := contains_spec hf (writeLE 32 tx.hash.toNat)
      obtain ⟨g, c, hg, hgrows, -⟩ := scanOutputs_spec hf tx.hash b tx.vout.zipIdx
      obtain ⟨d, hd, hspends⟩ := scanInputs_spec (hgrows.sound hf) tx.vin
      refine ⟨g, c || d, ?_, hgrows, ?_, ?_⟩
      · refine bind_eq_ok.mpr ⟨b, hb, bind_eq_ok.mpr ⟨(g, c), hg, ?_⟩⟩
        cases c with
        | true => rfl
        | false => exact bind_eq_ok.mpr ⟨d, hd, rfl⟩
      · rintro i ⟨-, -, before, out, after, k, b', e, hsplit, hb', hscan, hmatch⟩
        obtain rfl : b = b' := Except.ok.inj (hb.symm.trans hb')
        obtain ⟨l, e', hl, hholds⟩ := scanOutputs_matched hf i after hscan hmatch
        rw [← hsplit, hg, Except.ok.injEq, Prod.mk.injEq] at hl
        rw [hl.1]
        exact hholds
      · rintro ⟨txin, hmem, hholds⟩
        rw [hspends ⟨txin, hmem, hgrows.holds hholds⟩, Bool.or_true]

theorem sound_updateEmptyFull (f : CBloomFilter) : f.updateEmptyFull.Sound := by
  intro hnil
  simp [updateEmptyFull] at hnil ⊢
  simp [hnil]

theorem sound_of_load {vData : List UInt8} {nHashFuncs nTweak : UInt32} {nFlags : UInt8}
    (h : load vData nHashFuncs nTweak nFlags = some f) : f.Sound := by
  rw [load] at h
  split at h
  · rw [← Option.some.inj h]
    exact sound_updateEmptyFull _
  · cases h

end CBloomFilter

namespace BloomOp

open CBloomFilter

variable {f g : CBloomFilter}

theorem apply_spec (hf : f.Sound) (op : BloomOp) : ∃ g, apply f op = .ok g ∧ Grows f g := by
  cases op with
  | insert vKey =>
    obtain ⟨g, hg, hgrows, -⟩ := insert_spec hf vKey
    exact ⟨g, hg, hgrows⟩
  | contains vKey =>
    obtain ⟨b, hb, -⟩ := contains_spec hf vKey
    exact ⟨f, bind_eq_ok.mpr ⟨b, hb, rfl⟩, .refl f⟩
  | isRelevantAndUpdate tx =>
    obtain ⟨g, b, hg, hgrows, -⟩ := isRelevantAndUpdate_spec hf tx
    exact ⟨g, bind_eq_ok.mpr ⟨(g, b), hg, rfl⟩, hgrows⟩

theorem run_spec (hf : f.Sound) (ops : List BloomOp) : ∃ g, run f ops = .ok g ∧ Grows f g := by
  induction ops generalizing f with
  | nil => exact ⟨f, rfl, .refl f⟩
  | cons op ops ih =>
    obtain ⟨g, hg, hfirst⟩ := apply_spec hf op
    obtain ⟨h, hh, hrest⟩ := ih (hfirst.sound hf)
    refine ⟨h, ?_, hfirst.trans hrest⟩
    rw [run, List.foldlM_cons]
    exact bind_eq_ok.mpr ⟨g, hg, hh⟩

theorem run_cons {op : BloomOp} {ops : List BloomOp} {h : CBloomFilter} (hg : apply f op = .ok g)
    (hh : run g ops = .ok h) : run f (op :: ops) = .ok h := by
  rw [run, List.foldlM_cons]
  exact bind_eq_ok.mpr ⟨g, hg, hh⟩

-- what one operation stores is there after any others
theorem run_keeps {vKey : List UInt8} {pre : List BloomOp} (hf : f.Sound) (op : BloomOp)
    (post : List BloomOp)
    (hstores : ∀ h, run f pre = .ok h → h.Sound → ∃ k, apply h op = .ok k ∧ k.Holds vKey) :
    ∃ g, run f (pre ++ op :: post) = .ok g ∧ g.Sound ∧ g.Holds vKey := by
  obtain ⟨h, hh, hpre⟩ := run_spec hf pre
  obtain ⟨k, hk, hholds⟩ := hstores h hh (hpre.sound hf)
  obtain ⟨k', hk', hop⟩ := apply_spec (hpre.sound hf) op
  obtain rfl : k = k' := Except.ok.inj (hk.symm.trans hk')
  obtain ⟨g, hg, hpost⟩ := run_spec (hop.sound (hpre.sound hf)) post
  refine ⟨g, ?_, hpost.sound (hop.sound (hpre.sound hf)), hpost.holds hholds⟩
  rw [run, List.foldlM_append]
  exact bind_eq_ok.mpr ⟨h, hh, run_cons hk hg⟩

end BloomOp

theorem bloom_no_false_negatives (vData : List UInt8) (nHashFuncs nTweak : UInt32)
    (nFlags : UInt8) (f : CBloomFilter)
    (hload : CBloomFilter.load vData nHashFuncs nTweak nFlags = some f) (ops : List BloomOp) :
    ∃ g, BloomOp.run f ops = .ok g ∧
      (∀ pre vKey post, ops = pre ++ .insert vKey :: post → g.contains vKey = .ok true) ∧
      (∀ pre tx post h i, ops = pre ++ .isRelevantAndUpdate tx :: post →
        BloomOp.run f pre = .ok h → h.Matched tx i →
        g.contains (COutPoint.stream ⟨tx.hash, UInt32.ofNat i⟩) = .ok true) ∧
      (∀ vKey, ∃ b, g.contains vKey = .ok b) ∧
      ∀ tx, ∃ h b, g.isRelevantAndUpdate tx = .ok (h, b) ∧
        ((∃ txin ∈ tx.vin, g.contains txin.prevout.stream = .ok true) → b = true) := by
  have hf := CBloomFilter.sound_of_load hload
  obtain ⟨g, hg, hgrows⟩ := BloomOp.run_spec hf ops
  have hsound := hgrows.sound hf
  refine ⟨g, hg, ?_, ?_, ?_, ?_⟩
  · intro pre vKey post hops
    subst hops
    obtain ⟨g', hg', -, hholds⟩ := BloomOp.run_keeps hf (.insert vKey) post
      fun h _ hsound => by
        obtain ⟨k, hk, -, hholds⟩ := CBloomFilter.insert_spec hsound vKey
        exact ⟨k, hk, hholds⟩
    obtain rfl : g = g' := Except.ok.inj (hg.symm.trans hg')
    exact (CBloomFilter.contains_eq_true hsound).mpr hholds
  · intro pre tx post h i hops hpre hmatched
    subst hops
    obtain ⟨g', hg', -, hholds⟩ := BloomOp.run_keeps hf (.isRelevantAndUpdate tx) post
      fun h' hh' hsound => by
        obtain rfl : h = h' := Except.ok.inj (hpre.symm.trans hh')
        obtain ⟨k, b, hk, -, hholds, -⟩ := CBloomFilter.isRelevantAndUpdate_spec hsound tx
        exact ⟨k, bind_eq_ok.mpr ⟨(k, b), hk, rfl⟩, hholds i hmatched⟩
    obtain rfl : g = g' := Except.ok.inj (hg.symm.trans hg')
    exact (CBloomFilter.contains_eq_true hsound).mpr hholds
  · intro vKey
    obtain ⟨b, hb, -⟩ := CBloomFilter.contains_spec hsound vKey
    exact ⟨b, hb⟩
  · intro tx
    obtain ⟨h, b, hb, -, -, hspends⟩ := CBloomFilter.isRelevantAndUpdate_spec hsound tx
    refine ⟨h, b, hb, ?_⟩
    rintro ⟨txin, hmem, hcontains⟩
    exact hspends ⟨txin, hmem, (CBloomFilter.contains_eq_true hsound).mp hcontains⟩

def keyFilter : CBloomFilter := ⟨[4], false, false, 1, 0, BLOOM_UPDATE_ALL⟩

def payTx : CTransaction where
  hash := 5
  vin := []
  vout := [⟨COIN, [1, 7]⟩]

def spendTx : CTransaction where
  hash := 6
  vin := [⟨⟨5, 0⟩, [], 0⟩]
  vout := []

theorem run_keyFilter : BloomOp.run ⟨[0], false, true, 1, 0, 1⟩ [.insert [7]] = .ok keyFilter := by
  decide +kernel

theorem matched_payTx : keyFilter.Matched payTx 0 :=
  ⟨rfl, rfl, [], ⟨COIN, [1, 7]⟩, [], keyFilter, false, false, rfl, by decide +kernel, rfl,
    by decide +kernel, rfl⟩

-- A key is inserted, an output with it is matched, and the transaction that spends it is relevant.
theorem bloom_no_false_negatives_spend :
    ∃ g h, BloomOp.run ⟨[0], false, true, 1, 0, 1⟩ [.insert [7], .isRelevantAndUpdate payTx] =
        .ok g ∧ g.contains [7] = .ok true ∧ g.isRelevantAndUpdate spendTx = .ok (h, true) := by
  obtain ⟨g, hg, hkeys, hmatched, -, hspends⟩ := bloom_no_false_negatives [0] 1 0 BLOOM_UPDATE_ALL
    ⟨[0], false, true, 1, 0, 1⟩ rfl [.insert [7], .isRelevantAndUpdate payTx]
  have houtput := hmatched [.insert [7]] payTx [] keyFilter 0 rfl run_keyFilter matched_payTx
  obtain ⟨h, b, hb, hrelevant⟩ := hspends spendTx
  obtain rfl : b = true := hrelevant ⟨⟨⟨5, 0⟩, [], 0⟩, List.mem_cons_self, houtput⟩
  exact ⟨g, h, hg, hkeys [] [7] [.isRelevantAndUpdate payTx] rfl, hb⟩

end AnkerNode
