import AnkerNode.Mempool.SpendIndex
import AnkerNode.Primitives.Uint256
import AnkerNode.Validation.ConnectBlock

namespace AnkerNode

open Checks

-- `-blockmaxcost`, `-blockmaxsize`, `-blockprioritysize` and `-blockminsize`, where given
structure BlockArgs where
  blockmaxcost : Option Int := none
  blockmaxsize : Option Int := none
  blockprioritysize : Option Int := none
  blockminsize : Option Int := none

namespace BlockArgs

def MAX_BLOCK_SERIALIZED_SIZE : Nat := 10000000

variable (args : BlockArgs)

def nBlockMaxCost : Nat :=
  max 4000 (min (MAX_BLOCK_COST - 4000)
    (match args.blockmaxcost, args.blockmaxsize with
    | some cost, _ => uint32 cost
    | none, some size => uint32 (uint32 size * WITNESS_SCALE_FACTOR)
    | none, none => 3000000))

def nBlockMaxSize : Nat :=
  max 1000 (min (MAX_BLOCK_SERIALIZED_SIZE - 1000)
    (match args.blockmaxcost, args.blockmaxsize with
    | _, some size => uint32 size
    | some _, none => MAX_BLOCK_SERIALIZED_SIZE
    | none, none => 9050000))

def nBlockPrioritySize : Nat := min args.nBlockMaxSize (uint32 (args.blockprioritysize.getD 90000))

def nBlockMinSize : Nat := min args.nBlockMaxSize (uint32 (args.blockminsize.getD 0))

end BlockArgs

def extractVersionFromSerial (bnSerial : Int) : Nat :=
  if bnSerial.natAbs % 2 ^ 256 / 2 ^ 252 = 0xf then PUBKEY_VERSION else 1

-- The node that makes a block, with a priority and a fee rate for each transaction of the pool.
structure MinerContext (P F : Type) where
  connect : ConnectContext
  args : BlockArgs
  pool : CTxMemPool
  view : CCoinsView
  nHeight : Int
  adjustedTime : Int
  fIncludeWitness : Bool
  sigOpCost : UInt256 → Nat
  dPriority : UInt256 → P
  feeRate : UInt256 → F
  allowFree : P → Bool
  belowMinRelayFee : F → Bool
  -- a positive delta of the priority or of the fee
  prioritised : UInt256 → Bool
  legacySigOpCount : CTransaction → Nat

structure COrphan where
  ptx : CTransaction
  setDependsOn : Finset UInt256 := ∅

-- What the first loop leaves; orphans are found by their address.
structure Collection where
  nBlockSigOpsCost : Nat := 400
  vTxSigOpsCost : List Int := [-1]
  vecPriority : List CTransaction := []
  vOrphan : List (Nat × COrphan) := []
  mapDependers : UInt256 → List Nat := fun _ => []
  nextOrphan : Nat := 0

namespace Collection

variable (c : Collection)

def orphanFor (tx : CTransaction) : Option Nat → Collection × Nat
  | some porphan => (c, porphan)
  | none =>
    ({ c with vOrphan := c.vOrphan ++ [(c.nextOrphan, { ptx := tx })], nextOrphan := c.nextOrphan + 1 },
      c.nextOrphan)

def dependOn (hash : UInt256) (porphan : Nat) : Collection :=
  { c with
    mapDependers := Function.update c.mapDependers hash (c.mapDependers hash ++ [porphan])
    vOrphan := c.vOrphan.map fun o =>
      if o.1 = porphan then (o.1, { o.2 with setDependsOn := insert hash o.2.setDependsOn }) else o }

end Collection

namespace MinerContext

variable {P F : Type} (ctx : MinerContext P F)

def haveCoins (hash : UInt256) : Bool := (ctx.view.unspent hash).isSome

-- `none` for missing inputs, else the orphan that was made, if any
def collectInputs (tx : CTransaction) :
    List CTxIn → Collection → Option Nat → Collection × Option (Option Nat)
  | [], c, porphan => (c, some porphan)
  | txin :: vin, c, porphan =>
    if tx.isZerocoinSpend || ctx.haveCoins txin.prevout.hash then collectInputs tx vin c porphan
    else if !ctx.pool.mapTx.contains txin.prevout.hash then
      -- what depends on the orphan keeps its address
      (if porphan.isSome then { c with vOrphan := c.vOrphan.dropLast } else c, none)
    else
      let (c, id) := c.orphanFor tx porphan
      collectInputs tx vin (c.dependOn txin.prevout.hash id) (some id)

def skips (tx : CTransaction) : Bool :=
  tx.isCoinBase || tx.isCoinStake || !tx.isFinal ctx.nHeight ctx.adjustedTime ||
    decide (ctx.connect.sporkZerocoinMaintenance < ctx.adjustedTime) && tx.containsZerocoins

def collectTx (c : Collection) (tx : CTransaction) : Option Collection :=
  if ctx.skips tx then some c
  else if MAX_BLOCK_SIGOPS_COST ≤ c.nBlockSigOpsCost + ctx.sigOpCost tx.hash then some c
  else
    let c := { c with
      nBlockSigOpsCost := c.nBlockSigOpsCost + ctx.sigOpCost tx.hash
      vTxSigOpsCost := c.vTxSigOpsCost ++ [(ctx.sigOpCost tx.hash : Int)] }
    match ctx.collectInputs tx tx.vin c none with
    | (c, none) => some c
    | (c, some porphan) =>
      -- `GetValueOut` throws
      tx.getValueOut.map fun _ =>
        if porphan.isSome then c else { c with vecPriority := c.vecPriority ++ [tx] }

def poolTxs : List CTransaction := ctx.pool.mapTx.toList.map fun it => it.2.tx

def collect : Option Collection := ctx.poolTxs.foldlM ctx.collectTx {}

end MinerContext

structure Selection where
  vecPriority : List CTransaction
  vOrphan : List (Nat × COrphan)
  mapDependers : UInt256 → List Nat
  fSortedByFee : Bool
  view : CCoinsView
  nBlockSize : Nat := 1000
  nBlockCost : Nat := 4000
  vBlockSerials : List Int := []
  vTxSerials : List Int := []
  vtx : List CTransaction := []
  vTxFees : List Int := []

namespace MinerContext

variable {P F : Type} [LinearOrder P] [LinearOrder F] (ctx : MinerContext P F)

-- `TxPriorityCompare`
def comparer (byFee : Bool) (a b : CTransaction) : Bool :=
  if byFee then
    if ctx.feeRate a.hash = ctx.feeRate b.hash then ctx.dPriority a.hash < ctx.dPriority b.hash
    else ctx.feeRate a.hash < ctx.feeRate b.hash
  else
    if ctx.dPriority a.hash = ctx.dPriority b.hash then ctx.feeRate a.hash < ctx.feeRate b.hash
    else ctx.dPriority a.hash < ctx.dPriority b.hash

-- a front of the heap: ties are broken in any way
def IsFront (s : Selection) (tx : CTransaction) : Prop :=
  tx ∈ s.vecPriority ∧ ∀ other ∈ s.vecPriority, ctx.comparer s.fSortedByFee tx other = false

def txSize (tx : CTransaction) : Nat := tx.getSerializeSizeWithWitness

def txCost (tx : CTransaction) : Nat := txSize tx * WITNESS_SCALE_FACTOR

def isFree (s : Selection) (tx : CTransaction) : Bool :=
  !tx.isZerocoinSpend && s.fSortedByFee && !ctx.prioritised tx.hash &&
    ctx.belowMinRelayFee (ctx.feeRate tx.hash) &&
      decide (ctx.args.nBlockMinSize ≤ s.nBlockCost + txCost tx)

def prioritiseByFee (s : Selection) (tx : CTransaction) : Selection :=
  if !s.fSortedByFee && (decide (ctx.args.nBlockPrioritySize ≤ s.nBlockSize + txSize tx) ||
      !ctx.allowFree (ctx.dPriority tx.hash)) then { s with fSortedByFee := true }
  else s

-- The serials of the inputs, up to a double one; those before it stay in the list.
def checkSerials (vBlockSerials : List Int) : List CoinSpend → List Int → List Int × Bool
  | [], vTxSerials => (vTxSerials, false)
  | spend :: spends, vTxSerials =>
    if !ctx.connect.lib.hasValidSerial
          (decide (extractVersionFromSerial spend.coinSerialNumber < PUBKEY_VERSION)) spend ||
        vBlockSerials.contains spend.coinSerialNumber || vTxSerials.contains spend.coinSerialNumber then
      (vTxSerials, true)
    else checkSerials vBlockSerials spends (vTxSerials ++ [spend.coinSerialNumber])

def checkInputs (view : CCoinsView) (tx : CTransaction) : Bool :=
  (ConnectContext.checkInputs { ctx.connect with nScriptCheckThreads := 0 } view ctx.nHeight true
    SCRIPT_VERIFY_P2SH tx).isOk

-- A dependent transaction without a parent left goes to the heap; a dangling address ends the run.
def releaseOrphan (hash : UInt256) (s : Selection) (porphan : Nat) : Option Selection :=
  (s.vOrphan.find? fun o => o.1 == porphan).map fun (_, orphan) =>
    if orphan.setDependsOn = ∅ then s
    else
      let left := orphan.setDependsOn.erase hash
      { s with
        vOrphan := s.vOrphan.map fun o =>
          if o.1 = porphan then (o.1, { o.2 with setDependsOn := left }) else o
        vecPriority := if left = ∅ then s.vecPriority ++ [orphan.ptx] else s.vecPriority }

-- `none` where the value of the inputs or of the outputs, or the update of the coins, fails
def place (s : Selection) (tx : CTransaction) : Option (Selection × Bool) := do
  let nValueIn ← s.view.getValueIn tx
  let nValueOut ← tx.getValueOut
  if !ctx.checkInputs s.view tx then some (s, false)
  else do
    let (view, _) ← s.view.updateCoins tx ctx.nHeight
    let placed := { s with
      view := view
      vtx := s.vtx ++ [tx]
      vTxFees := s.vTxFees ++ [nValueIn - nValueOut]
      nBlockCost := s.nBlockCost + txCost tx
      nBlockSize := s.nBlockSize + txSize tx
      vBlockSerials := s.vBlockSerials ++ s.vTxSerials }
    ((placed.mapDependers tx.hash).foldlM (releaseOrphan tx.hash) placed).map fun s => (s, true)

def placeSpend (s : Selection) (tx : CTransaction) : Option (Selection × Bool) :=
  if !tx.isZerocoinSpend then ctx.place s tx
  else if (ctx.connect.isTransactionInChain tx.hash).isSome then some (s, false)
  else
    let (vTxSerials, fDoubleSerial) :=
      ctx.checkSerials s.vBlockSerials (zerocoinSpends ctx.connect.lib tx) s.vTxSerials
    if fDoubleSerial then some ({ s with vTxSerials := vTxSerials }, false)
    else ctx.place { s with vTxSerials := vTxSerials } tx

-- What the second loop does with the front of the heap, and whether it places it.
def select (s : Selection) (tx : CTransaction) : Option (Selection × Bool) :=
  let s := { s with vecPriority := s.vecPriority.erase tx }
  if !ctx.fIncludeWitness && !tx.witIsNull then some (s, false)
  else if ctx.args.nBlockMaxCost ≤ s.nBlockCost + txCost tx then some (s, false)
  else if ctx.isFree s tx then some (s, false)
  else
    let s := ctx.prioritiseByFee s tx
    if !s.view.haveInputs tx then some (s, false) else ctx.placeSpend s tx

inductive Selects : Selection → List (CTransaction × Bool) → Selection → Prop
  | refl (s : Selection) : Selects s [] s
  | step {s s' s'' : Selection} {tx : CTransaction} {fPlaced : Bool}
      {taken : List (CTransaction × Bool)} (hrun : Selects s taken s') (hfront : ctx.IsFront s' tx)
      (hselect : ctx.select s' tx = some (s'', fPlaced)) :
      Selects s (taken ++ [(tx, fPlaced)]) s''

def start (c : Collection) : Selection where
  vecPriority := c.vecPriority
  vOrphan := c.vOrphan
  mapDependers := c.mapDependers
  fSortedByFee := decide (ctx.args.nBlockPrioritySize = 0)
  view := ctx.view

end MinerContext

structure CBlockTemplate where
  vtx : List CTransaction
  vTxFees : List Int
  vTxSigOpsCost : List Int

namespace MinerContext

variable {P F : Type} [LinearOrder P] [LinearOrder F] (ctx : MinerContext P F)

-- `coinstake` is the transaction that the wallet made for a proof of stake block.
def template (coinbase : CTransaction) (coinstake : Option CTransaction) (c : Collection)
    (s : Selection) : CBlockTemplate where
  vtx := coinbase :: (coinstake.toList ++ s.vtx)
  vTxFees := (if coinstake.isNone then -s.vTxFees.sum else -1) :: s.vTxFees
  vTxSigOpsCost := c.vTxSigOpsCost.set 0 (WITNESS_SCALE_FACTOR * ctx.legacySigOpCount coinbase)

-- The runs of `CreateNewBlock` that come to a template, with what they took from the heap.
def CreatesBlock (coinbase : CTransaction) (coinstake : Option CTransaction)
    (taken : List (CTransaction × Bool)) (t : CBlockTemplate) : Prop :=
  ∃ c s, ctx.collect = some c ∧ ctx.Selects (ctx.start c) taken s ∧ s.vecPriority = [] ∧
    t = ctx.template coinbase coinstake c s

end MinerContext

end AnkerNode
