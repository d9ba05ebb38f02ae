import AnkerNode.Chain.BlockTree
import AnkerNode.Lib.Best
import AnkerNode.Lib.Loops

namespace AnkerNode

def BLOCK_VALID_TREE : Nat := 2

def BLOCK_VALID_TRANSACTIONS : Nat := 3

def BLOCK_VALID_CHAIN : Nat := 4

def BLOCK_VALID_SCRIPTS : Nat := 5

-- nStatus, with the validity level of BLOCK_VALID_MASK apart from the single bits
structure BlockStatus where
  nValid : Nat := 0
  haveData : Bool := false
  haveUndo : Bool := false
  failedValid : Bool := false
  failedChild : Bool := false
  optWitness : Bool := false
deriving DecidableEq, Repr

namespace BlockStatus

def failed (st : BlockStatus) : Bool := st.failedValid || st.failedChild

def isValid (st : BlockStatus) (nUpTo : Nat) : Bool := !st.failed && decide (nUpTo ≤ st.nValid)

def raiseValidity (st : BlockStatus) (nUpTo : Nat) : BlockStatus :=
  if st.failed then st
  else if st.nValid < nUpTo then { st with nValid := nUpTo }
  else st

def clearFailed (st : BlockStatus) : BlockStatus :=
  { st with failedValid := false, failedChild := false }

end BlockStatus

structure BlockInfo where
  nTx : Nat := 0
  nChainTx : Nat := 0
  nStatus : BlockStatus := {}
  nSequenceId : Nat := 0
deriving DecidableEq, Repr

structure BlockIndex where
  tree : BlockTree
  info : Nat → BlockInfo
  setBlockIndexCandidates : List Nat
  mapBlocksUnlinked : List (Nat × Nat)
  vChain : List Nat
  nBlockSequenceId : Nat
  pindexBestInvalid : Option Nat
  pindexBestHeader : Option Nat

namespace BlockIndex

variable (s : BlockIndex)

def status (i : Nat) : BlockStatus := (s.info i).nStatus

def modifyInfo (i : Nat) (f : BlockInfo → BlockInfo) : BlockIndex :=
  { s with info := Function.update s.info i (f (s.info i)) }

def modifyStatus (i : Nat) (f : BlockStatus → BlockStatus) : BlockIndex :=
  s.modifyInfo i fun e => { e with nStatus := f e.nStatus }

-- CBlockIndexWorkComparator; between equal keys the earlier entry stands for the lower address
def worse (a b : Nat) : Bool :=
  decide (s.tree.nChainWork a < s.tree.nChainWork b) ||
    (s.tree.nChainWork a == s.tree.nChainWork b &&
      (decide ((s.info b).nSequenceId < (s.info a).nSequenceId) ||
        ((s.info a).nSequenceId == (s.info b).nSequenceId && decide (b < a))))

def tip : Option Nat := s.vChain.getLast?

def contains (i : Nat) : Bool := s.vChain[s.tree.height i]? == some i

-- SetTip: the entries that differ from the chain are filled in from the new tip down.
def setTip (i : Nat) : BlockIndex :=
  let fresh := (s.tree.branch i).takeWhile fun a => !s.contains a
  { s with vChain := s.vChain.take (s.tree.height i + 1 - fresh.length) ++ fresh.reverse }

def findFork (i : Nat) : Option Nat :=
  let from? := if s.vChain.length ≤ s.tree.height i then s.tree.getAncestor i (s.vChain.length - 1)
    else some i
  from?.bind fun a => (s.tree.branch a).find? s.contains

def insertCandidate (i : Nat) : BlockIndex :=
  { s with setBlockIndexCandidates := s.setBlockIndexCandidates.insert i }

def eraseCandidate (i : Nat) : BlockIndex :=
  { s with setBlockIndexCandidates := s.setBlockIndexCandidates.filter fun c => c != i }

def invalidChainFound (i : Nat) : BlockIndex :=
  { s with pindexBestInvalid :=
      if s.pindexBestInvalid.all fun b => decide (s.tree.nChainWork b < s.tree.nChainWork i) then
        some i
      else s.pindexBestInvalid }

def addToBlockIndex (block : BlockTree.Header) : BlockIndex :=
  match s.tree.lookup block.hash with
  | some _ => s
  | none =>
    let i := s.tree.size
    let tree := s.tree.insert block (s.tree.lookup block.hashPrevBlock)
      fun _ h => BlockTree.lookup_lt h
    { s with
      tree := tree
      info := Function.update s.info i
        { nStatus := BlockStatus.raiseValidity {} BLOCK_VALID_TREE }
      pindexBestHeader :=
        if s.pindexBestHeader.all fun b => decide (tree.nChainWork b < tree.nChainWork i) then
          some i
        else s.pindexBestHeader }

def linkEntry (i : Nat) : BlockIndex × List Nat :=
  let nChainTx := (s.tree.parent i).elim 0 fun j => (s.info j).nChainTx
  let linked : BlockIndex :=
    { s.modifyInfo i fun e =>
        { e with nChainTx := nChainTx + e.nTx, nSequenceId := s.nBlockSequenceId } with
      nBlockSequenceId := s.nBlockSequenceId + 1 }
  let s := if linked.tip.all fun t => !linked.worse i t then linked.insertCandidate i else linked
  ({ s with mapBlocksUnlinked := s.mapBlocksUnlinked.filter fun p => p.1 != i },
    (s.mapBlocksUnlinked.filter fun p => p.1 == i).map Prod.snd)

theorem length_filter_bne (xs : List (Nat × Nat)) (i : Nat) :
    (xs.filter fun p => p.1 != i).length + (xs.filter fun p => p.1 == i).length = xs.length := by
  induction xs with
  | nil => rfl
  | cons x xs ih =>
    cases h : x.1 == i with
    | true => simp [bne, h, ← ih]; omega
    | false => simp [bne, h, ← ih]; omega

theorem mapBlocksUnlinked_linkEntry (s : BlockIndex) (i : Nat) :
    (s.linkEntry i).1.mapBlocksUnlinked = s.mapBlocksUnlinked.filter (fun p => p.1 != i) ∧
      (s.linkEntry i).2 = (s.mapBlocksUnlinked.filter fun p => p.1 == i).map Prod.snd := by
  simp only [linkEntry]
  split <;> exact ⟨rfl, rfl⟩

def linking : Worklist BlockIndex Nat where
  step := linkEntry
  size := fun s => s.mapBlocksUnlinked.length
  shrinks := by
    intro s i
    obtain ⟨hmap, hnew⟩ := mapBlocksUnlinked_linkEntry s i
    have hlen := length_filter_bne s.mapBlocksUnlinked i
    rw [hmap, hnew]
    by_cases hnil : s.mapBlocksUnlinked.filter (fun p => p.1 == i) = []
    · rw [hnil] at hlen ⊢
      exact .inr ⟨by simpa using hlen, rfl⟩
    · have hpos := List.length_pos_iff.mpr hnil
      exact .inl (by omega)

def receivedBlockTransactions (i nTx : Nat) : BlockIndex :=
  let s := s.modifyInfo i fun e =>
    { e with
      nTx := nTx
      nChainTx := 0
      nStatus := BlockStatus.raiseValidity { e.nStatus with haveData := true, optWitness := true }
        BLOCK_VALID_TRANSACTIONS }
  if (s.tree.parent i).all fun j => (s.info j).nChainTx != 0 then linking.run [i] s
  else if (s.tree.parent i).any fun j => (s.status j).isValid BLOCK_VALID_TREE then
    { s with mapBlocksUnlinked :=
        s.mapBlocksUnlinked ++ ((s.tree.parent i).map fun j => (j, i)).toList }
  else s

def bestCandidate : Option Nat := Best.best s.worse s.setBlockIndexCandidates

def path (i : Nat) : List Nat := (s.tree.branch i).takeWhile fun a => !s.contains a

def unusable (i : Nat) : Bool := (s.status i).failed || !(s.status i).haveData

def rejectAbove (pindexTest : Nat) (s : BlockIndex) (pindexFailed : Nat) : BlockIndex :=
  let s :=
    if (s.status pindexTest).failed then
      s.modifyStatus pindexFailed fun st => { st with failedChild := true }
    else
      { s with mapBlocksUnlinked :=
          s.mapBlocksUnlinked ++ ((s.tree.parent pindexFailed).map fun j => (j, pindexFailed)).toList }
  s.eraseCandidate pindexFailed

def rejectChain (pindexNew pindexTest : Nat) : BlockIndex :=
  let s := if (s.status pindexTest).failed then s.invalidChainFound pindexNew else s
  let above := (s.tree.branch pindexNew).takeWhile fun a => a != pindexTest
  (above.foldl (rejectAbove pindexTest) s).eraseCandidate pindexTest

def findMostWorkChainFrom : Nat → BlockIndex → BlockIndex × Option Nat
  | 0, s => (s, none)
  | fuel + 1, s =>
    match s.bestCandidate with
    | none => (s, none)
    | some pindexNew =>
      match (s.path pindexNew).find? s.unusable with
      | none => (s, some pindexNew)
      | some pindexTest => findMostWorkChainFrom fuel (s.rejectChain pindexNew pindexTest)

-- Every round removes the best candidate.
def findMostWorkChain : BlockIndex × Option Nat :=
  findMostWorkChainFrom (s.setBlockIndexCandidates.length + 1) s

def pruneBlockIndexCandidates : BlockIndex :=
  { s with setBlockIndexCandidates :=
      s.setBlockIndexCandidates.filter fun c => s.tip.all fun t => !s.worse c t }

-- A block without undo data, the genesis block, is not disconnected.
def disconnectTip : Option BlockIndex :=
  s.tip.bind fun i =>
    if (s.status i).haveUndo then (s.tree.parent i).map fun j => s.setTip j else none

def connected (i : Nat) : BlockIndex :=
  (s.modifyStatus i fun st =>
    BlockStatus.raiseValidity { st with haveUndo := true } BLOCK_VALID_SCRIPTS).setTip i

def invalidBlockFound (i : Nat) : BlockIndex :=
  ((s.modifyStatus i fun st => { st with failedValid := true }).eraseCandidate i).invalidChainFound i

def disconnectTo (pindexFork : Option Nat) : Nat → BlockIndex → BlockIndex × Bool
  | 0, s => (s, true)
  | fuel + 1, s =>
    if s.tip = none ∨ s.tip = pindexFork then (s, true)
    else
      match s.disconnectTip with
      | none => (s, false)
      | some s => disconnectTo pindexFork fuel s

-- Connect the blocks of a batch while they are accepted and the old tip is not surpassed.
def connectBatch (accepts : Nat → Bool) (nOldWork : Option Nat) (pindexLowest : Nat) :
    List Nat → BlockIndex → BlockIndex × Bool
  | [], s => (s, true)
  | pindexConnect :: batch, s =>
    if accepts pindexConnect then
      let s := (s.connected pindexConnect).pruneBlockIndexCandidates
      if nOldWork.all fun w => decide (w < s.tree.nChainWork pindexConnect) then (s, false)
      else connectBatch accepts nOldWork pindexLowest batch s
    else ((s.invalidBlockFound pindexConnect).invalidChainFound pindexLowest, false)

def nextBatch (pindexMostWork nNext : Nat) : List Nat :=
  let nTargetHeight := min (nNext + 31) (s.tree.height pindexMostWork)
  ((s.tree.getAncestor pindexMostWork nTargetHeight).elim [] fun a =>
    (s.tree.branch a).takeWhile fun x => s.tree.height x + 1 != nNext).reverse

-- nNext is one more than the height reached so far.
def connectTo (accepts : Nat → Bool) (nOldWork : Option Nat) (pindexMostWork : Nat) :
    Nat → Nat → BlockIndex → BlockIndex
  | 0, _, s => s
  | fuel + 1, nNext, s =>
    if nNext = s.tree.height pindexMostWork + 1 then s
    else
      let batch := s.nextBatch pindexMostWork nNext
      match connectBatch accepts nOldWork (batch.headD pindexMostWork) batch s with
      | (s, false) => s
      | (s, true) =>
        connectTo accepts nOldWork pindexMostWork fuel
          (min (nNext + 31) (s.tree.height pindexMostWork) + 1) s

def activateBestChainStep (accepts : Nat → Bool) (pindexMostWork : Nat) : BlockIndex :=
  let nOldWork := s.tip.map s.tree.nChainWork
  let pindexFork := s.findFork pindexMostWork
  match disconnectTo pindexFork s.vChain.length s with
  | (s, false) => s
  | (s, true) =>
    connectTo accepts nOldWork pindexMostWork (s.tree.height pindexMostWork + 1)
      (pindexFork.elim 0 fun f => s.tree.height f + 1) s

def activateBestChain (accepts : Nat → Bool) : BlockIndex :=
  match s.findMostWorkChain with
  | (s, none) => s
  | (s, some pindexMostWork) =>
    if s.tip = some pindexMostWork then s else s.activateBestChainStep accepts pindexMostWork

def disconnectAbove (pindex : Nat) : Nat → BlockIndex → BlockIndex × Bool
  | 0, s => (s, true)
  | fuel + 1, s =>
    if !s.contains pindex then (s, true)
    else
      match s.tip with
      | none => (s, true)
      | some pindexWalk =>
        let s := (s.modifyStatus pindexWalk fun st => { st with failedChild := true }).eraseCandidate
          pindexWalk
        match s.disconnectTip with
        | none => (s, false)
        | some s => disconnectAbove pindex fuel s

def reinsertCandidate (s : BlockIndex) (i : Nat) : BlockIndex :=
  if (s.status i).isValid BLOCK_VALID_TRANSACTIONS && (s.info i).nChainTx != 0 &&
      s.tip.all (fun t => !s.worse i t) then
    s.insertCandidate i
  else s

def invalidateBlock (pindex : Nat) : BlockIndex × Bool :=
  let s := (s.modifyStatus pindex fun st => { st with failedValid := true }).eraseCandidate pindex
  match disconnectAbove pindex s.vChain.length s with
  | (s, false) => (s, false)
  | (s, true) => (((List.range s.tree.size).foldl reinsertCandidate s).invalidChainFound pindex, true)

def reconsiderEntry (pindex : Nat) (s : BlockIndex) (i : Nat) : BlockIndex :=
  if !(s.status i).isValid BLOCK_VALID_TRANSACTIONS &&
      s.tree.getAncestor i (s.tree.height pindex) == some pindex then
    let s := s.modifyStatus i BlockStatus.clearFailed
    let s :=
      if (s.status i).isValid BLOCK_VALID_TRANSACTIONS && (s.info i).nChainTx != 0 &&
          s.tip.all (fun t => s.worse t i) then
        s.insertCandidate i
      else s
    if s.pindexBestInvalid = some i then { s with pindexBestInvalid := none } else s
  else s

def reconsiderBlock (pindex : Nat) : BlockIndex :=
  let s := (List.range s.tree.size).foldl (reconsiderEntry pindex) s
  (s.tree.branch pindex).foldl (fun s a => s.modifyStatus a BlockStatus.clearFailed) s

end BlockIndex

end AnkerNode
