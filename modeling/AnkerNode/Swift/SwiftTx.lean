import AnkerNode.Coins.View
import AnkerNode.Lib.Table
import Std.Data.TreeMap.Lemmas

namespace AnkerNode

def SWIFTTX_SIGNATURES_REQUIRED : Int := 6

def SWIFTTX_SIGNATURES_TOTAL : Int := 10

namespace CScript

def sizeBytes (opcode : UInt8) : Nat :=
  if opcode < OP_PUSHDATA1 then 0
  else if opcode = OP_PUSHDATA1 then 1
  else if opcode = OP_PUSHDATA2 then 2
  else 4

-- The opcode read at `opcode :: script` and the position after it. A push that runs past the
-- end yields `OP_INVALIDOPCODE` and leaves its data unread.
def getOp (opcode : UInt8) (script : CScript) : UInt8 × CScript :=
  if OP_PUSHDATA4 < opcode then (opcode, script)
  else if script.length < sizeBytes opcode then (OP_INVALIDOPCODE, script)
  else
    let nSize :=
      if opcode < OP_PUSHDATA1 then opcode.toNat
      else (script.take (sizeBytes opcode)).foldr (fun b n => b.toNat + 256 * n) 0
    let script := script.drop (sizeBytes opcode)
    if script.length < nSize then (OP_INVALIDOPCODE, script)
    else (opcode, script.drop nSize)

def matchesOps : List (Option UInt8) → CScript → Bool
  | _, [] => true
  | [], _ :: _ => false
  | expected :: ops, b :: script =>
    (expected == none || expected == some (getOp b script).1) && matchesOps ops (getOp b script).2

def isNormalPaymentScript (script : CScript) : Bool :=
  script.length == 25 &&
    matchesOps [some OP_DUP, some OP_HASH160, none, some OP_EQUALVERIFY, some OP_CHECKSIG] script

end CScript

structure CConsensusVote where
  vinMasternode : CTxIn
  txHash : UInt256
  nBlockHeight : Int
  vchMasterNodeSignature : List UInt8 := []
deriving DecidableEq, Repr

def CConsensusVote.getHash (vote : CConsensusVote) : UInt256 :=
  vote.vinMasternode.prevout.hash + BitVec.ofNat 256 vote.vinMasternode.prevout.n.toNat +
    vote.txHash

structure CTransactionLock where
  nBlockHeight : Int
  txHash : UInt256
  vecConsensusVotes : List CConsensusVote := []
  nExpiration : Int
  nTimeout : Int
deriving DecidableEq, Repr

namespace CTransactionLock

def addSignature (lock : CTransactionLock) (cv : CConsensusVote) : CTransactionLock :=
  { lock with vecConsensusVotes := lock.vecConsensusVotes ++ [cv] }

def countSignatures (lock : CTransactionLock) : Int :=
  if lock.nBlockHeight = 0 then -1
  else lock.vecConsensusVotes.countP fun v => v.nBlockHeight == lock.nBlockHeight

theorem countSignatures_addSignature (lock : CTransactionLock) (cv : CConsensusVote) :
    lock.countSignatures ≤ (lock.addSignature cv).countSignatures := by
  simp only [countSignatures, addSignature]
  by_cases h0 : lock.nBlockHeight = 0
  · simp [h0]
  · simp only [h0, if_false, List.countP_append]
    omega

end CTransactionLock

structure SwiftEnv where
  fEnabled : Bool
  nTime : Int
  hasTip : Bool
  nTipHeight : Int
  nSporkMaxValue : Int
  getTransaction : UInt256 → Option CTransaction
  view : CCoinsView
  acceptToMemoryPool : CTransaction → Bool
  fMasterNode : Bool
  activeMasternode : CTxIn
  getMasternodeRank : CTxIn → Int → Int
  sign : CConsensusVote → Option (List UInt8)
  signatureValid : CConsensusVote → Bool

structure SwiftState where
  mapTxLockReq : UInt256 → Option CTransaction := fun _ => none
  mapTxLockReqRejected : UInt256 → Option CTransaction := fun _ => none
  mapTxLockVote : UInt256 → Option CConsensusVote := fun _ => none
  mapTxLocks : Std.TreeMap UInt256 CTransactionLock := ∅
  mapLockedInputs : COutPoint → Option UInt256 := fun _ => none

namespace SwiftEnv

variable (env : SwiftEnv)

def inputValue (txin : CTxIn) : Int :=
  match env.getTransaction txin.prevout.hash with
  | none => 0
  | some tx2 => (tx2.vout[txin.prevout.n.toNat]?).elim 0 CTxOut.nValue

def isIXTXValid (txCollateral : CTransaction) : Bool :=
  let nValueIn := (txCollateral.vin.map env.inputValue).sum
  let nValueOut := (txCollateral.vout.map CTxOut.nValue).sum
  let missingTx := txCollateral.vin.any fun i => (env.getTransaction i.prevout.hash).isNone
  if txCollateral.vout.length < 1 then false
  else if txCollateral.nLockTime ≠ 0 then false
  else if env.nSporkMaxValue * COIN < nValueOut then false
  else if missingTx then true
  else !decide (nValueIn - nValueOut < COIN / 100)

def getInputAge (txin : CTxIn) : Int :=
  match env.view.accessCoins txin.prevout.hash with
  | none => -1
  | some coins => if coins.nHeight < 0 then 0 else env.nTipHeight + 1 - coins.nHeight

-- The inputs are read from the last to the first and the age of the last one read remains.
def txAge (tx : CTransaction) : Option Int :=
  tx.vin.reverse.foldlM
    (fun _ i => if env.getInputAge i < 5 then none else some (env.getInputAge i)) 0

def newLock (txHash : UInt256) (nBlockHeight : Int) : CTransactionLock where
  nBlockHeight := nBlockHeight
  txHash := txHash
  nExpiration := env.nTime + 60 * 60
  nTimeout := env.nTime + 60 * 5

end SwiftEnv

namespace SwiftState

variable (s : SwiftState) (env : SwiftEnv)

def createNewLock (tx : CTransaction) : SwiftState × Int :=
  match env.txAge tx with
  | none => (s, 0)
  | some nTxAge =>
    let nBlockHeight := env.nTipHeight - nTxAge + 4
    let lock :=
      match s.mapTxLocks[tx.hash]? with
      | none => env.newLock tx.hash nBlockHeight
      | some lock => { lock with nBlockHeight := nBlockHeight }
    ({ s with mapTxLocks := s.mapTxLocks.insert tx.hash lock }, nBlockHeight)

def doConsensusVote (tx : CTransaction) (nBlockHeight : Int) : SwiftState :=
  let n := env.getMasternodeRank env.activeMasternode nBlockHeight
  let ctx : CConsensusVote :=
    { vinMasternode := env.activeMasternode, txHash := tx.hash, nBlockHeight := nBlockHeight }
  if !env.fMasterNode || n == -1 || decide (SWIFTTX_SIGNATURES_TOTAL < n) then s
  else
    match env.sign ctx with
    | none => s
    | some signature =>
      let ctx := { ctx with vchMasterNodeSignature := signature }
      if !env.signatureValid ctx then s
      else { s with mapTxLockVote := Function.update s.mapTxLockVote ctx.getHash (some ctx) }

def conflictingLock (tx : CTransaction) : Option UInt256 :=
  tx.vin.findSome? fun txin => (s.mapLockedInputs txin.prevout).filter fun h => h != tx.hash

def expire (txHash : UInt256) : SwiftState :=
  match s.mapTxLocks[txHash]? with
  | none => s
  | some lock =>
    { s with mapTxLocks := s.mapTxLocks.insert txHash { lock with nExpiration := env.nTime } }

def checkForConflictingLocks (tx : CTransaction) : SwiftState × Bool :=
  match s.conflictingLock tx with
  | none => (s, false)
  | some other => ((s.expire env tx.hash).expire env other, true)

def lockInput (txHash : UInt256) (m : COutPoint → Option UInt256) (txin : CTxIn) :
    COutPoint → Option UInt256 :=
  if (m txin.prevout).isSome then m else Function.update m txin.prevout (some txHash)

def lockInputs (txHash : UInt256) (vin : List CTxIn) : SwiftState :=
  { s with mapLockedInputs := vin.foldl (lockInput txHash) s.mapLockedInputs }

-- `std::map::insert`: a key that is present keeps its value.
def insertNew {K V : Type} [DecidableEq K] (m : K → Option V) (k : K) (v : V) : K → Option V :=
  if (m k).isSome then m else Function.update m k (some v)

def requestLock (tx : CTransaction) : SwiftState :=
  { s with mapTxLockReq := insertNew s.mapTxLockReq tx.hash tx }

def rejectLock (tx : CTransaction) : SwiftState :=
  { s with mapTxLockReqRejected := insertNew s.mapTxLockReqRejected tx.hash tx }

def countSignatures (txHash : UInt256) : Option Int :=
  (s.mapTxLocks[txHash]?).map CTransactionLock.countSignatures

def isComplete (txHash : UInt256) : Bool :=
  (s.countSignatures txHash).any fun n => decide (SWIFTTX_SIGNATURES_REQUIRED ≤ n)

-- The tests that stand before `CreateNewLock` in the handling of a lock request.
def isNewRequest (tx : CTransaction) : Bool :=
  env.fEnabled && (s.mapTxLockReq tx.hash).isNone && (s.mapTxLockReqRejected tx.hash).isNone &&
    env.isIXTXValid tx &&
    tx.vout.all fun o => o.scriptPubKey.isNormalPaymentScript || o.scriptPubKey.isUnspendable

-- `AcceptToMemoryPool`, of which the test against `mapLockedInputs` is spelt out.
def acceptToMemoryPool (tx : CTransaction) : Bool :=
  (s.conflictingLock tx).isNone && env.acceptToMemoryPool tx

def resolveConflicts (tx : CTransaction) : SwiftState :=
  if s.isComplete tx.hash then
    match s.checkForConflictingLocks env tx with
    | (s, true) => s
    | (s, false) => s.requestLock tx
  else s

def processIX (tx : CTransaction) : SwiftState :=
  if !s.isNewRequest env tx then s
  else
    match s.createNewLock env tx with
    | (s, nBlockHeight) =>
      if s.acceptToMemoryPool env tx then (s.doConsensusVote env tx nBlockHeight).requestLock tx
      else ((s.rejectLock tx).lockInputs tx.hash tx.vin).resolveConflicts env tx

def emptyTx : CTransaction where
  hash := 0
  vin := []
  vout := []

-- `mapTxLockReq[txHash]` stores an empty transaction when there is none.
def touchRequest (txHash : UInt256) : SwiftState :=
  { s with mapTxLockReq := insertNew s.mapTxLockReq txHash emptyTx }

def completeLock (txHash : UInt256) : SwiftState :=
  let s := s.touchRequest txHash
  let tx := (s.mapTxLockReq txHash).getD emptyTx
  match s.checkForConflictingLocks env tx with
  | (s, true) => s
  | (s, false) => s.lockInputs txHash tx.vin

def processConsensusVote (ctx : CConsensusVote) : SwiftState :=
  let n := env.getMasternodeRank ctx.vinMasternode ctx.nBlockHeight
  if n == -1 || decide (SWIFTTX_SIGNATURES_TOTAL < n) || !env.signatureValid ctx then s
  else
    let lock := (s.mapTxLocks[ctx.txHash]?).getD (env.newLock ctx.txHash 0)
    let s := { s with mapTxLocks := s.mapTxLocks.insert ctx.txHash (lock.addSignature ctx) }
    if s.isComplete ctx.txHash then s.completeLock env ctx.txHash else s

def processTXLVote (ctx : CConsensusVote) : SwiftState :=
  if !env.fEnabled || (s.mapTxLockVote ctx.getHash).isSome then s
  else
    { s with mapTxLockVote := Function.update s.mapTxLockVote ctx.getHash (some ctx) }
      |>.processConsensusVote env ctx

def unlockTx (lock : CTransactionLock) : SwiftState :=
  match s.mapTxLockReq lock.txHash with
  | none => s
  | some tx =>
    { s with
      mapLockedInputs := Table.writeAll CTxIn.prevout (fun _ => none) s.mapLockedInputs tx.vin
      mapTxLockReq := Function.update s.mapTxLockReq lock.txHash none
      mapTxLockReqRejected := Function.update s.mapTxLockReqRejected lock.txHash none
      mapTxLockVote := Table.writeAll CConsensusVote.getHash (fun _ => none) s.mapTxLockVote
        lock.vecConsensusVotes }

def cleanLock (s : SwiftState) (it : UInt256 × CTransactionLock) : SwiftState :=
  if it.2.nExpiration < env.nTime then
    let s := s.unlockTx it.2
    { s with mapTxLocks := s.mapTxLocks.erase it.1 }
  else s

def cleanTransactionLocksList : SwiftState :=
  if !env.hasTip then s else s.mapTxLocks.toList.foldl (cleanLock env) s

end SwiftState

end AnkerNode
