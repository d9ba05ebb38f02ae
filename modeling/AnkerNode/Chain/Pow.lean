import AnkerNode.Primitives.Transaction
import AnkerNode.Primitives.Uint256

namespace AnkerNode

-- what the retargeting reads of a `CBlockIndex`
structure PowIndex where
  nTime : UInt32
  nBits : UInt32
deriving DecidableEq, Repr

namespace PowIndex

variable (pindex : PowIndex)

def getBlockTime : Int := pindex.nTime.toNat

def target : UInt256 := UInt256.setCompact pindex.nBits

end PowIndex

-- An index and its ancestors, down to the first block.
abbrev PowChain := List PowIndex

def PowChain.nHeight (chain : PowChain) : Int := chain.length - 1

def PastBlocksMin : Int := 24

def PastBlocksMax : Int := 24

def bnTargetLimit : UInt256 := ~~~(0 : UInt256) >>> 24

-- The retargeting above the last block with proof of work.
def stakeWorkRequired (pindexLast : PowIndex) (ancestors : PowChain) : Option UInt32 := do
  let nTargetSpacing : Int := 30
  let nTargetTimespan : Int := 30
  let nActualSpacing :=
    match ancestors with
    | [] => 0
    | pprev :: _ => pindexLast.getBlockTime - pprev.getBlockTime
  let nActualSpacing := if nActualSpacing < 0 then 1 else nActualSpacing
  let nInterval := nTargetTimespan.tdiv nTargetSpacing
  let bnNew := pindexLast.target.mulWord
    ((nInterval - 1) * nTargetSpacing + nActualSpacing + nActualSpacing)
  let bnNew ← bnNew.divide (UInt256.ofInt64 ((nInterval + 1) * nTargetSpacing))
  let bnNew := if bnNew ≤ 0 ∨ bnTargetLimit < bnNew then bnTargetLimit else bnNew
  return bnNew.getCompact

structure GravityState where
  nActualTimespan : Int := 0
  LastBlockTime : Int := 0
  CountBlocks : Int := 0
  PastDifficultyAverage : UInt256 := 0
  PastDifficultyAveragePrev : UInt256 := 0

namespace GravityState

variable (s : GravityState)

def average (BlockReading : PowIndex) : Option UInt256 :=
  let CountBlocks := s.CountBlocks + 1
  if CountBlocks = 1 then some BlockReading.target
  else
    (s.PastDifficultyAveragePrev.mulWord CountBlocks + BlockReading.target).divide
      (UInt256.ofInt64 (CountBlocks + 1))

def averages (BlockReading : PowIndex) : Option (UInt256 × UInt256) :=
  if s.CountBlocks + 1 ≤ PastBlocksMin then (s.average BlockReading).map fun a => (a, a)
  else some (s.PastDifficultyAverage, s.PastDifficultyAveragePrev)

def counted (BlockReading : PowIndex) (averages : UInt256 × UInt256) : GravityState where
  nActualTimespan :=
    if 0 < s.LastBlockTime then s.nActualTimespan + (s.LastBlockTime - BlockReading.getBlockTime)
    else s.nActualTimespan
  LastBlockTime := BlockReading.getBlockTime
  CountBlocks := s.CountBlocks + 1
  PastDifficultyAverage := averages.1
  PastDifficultyAveragePrev := averages.2

def step (BlockReading : PowIndex) : Option GravityState :=
  (s.averages BlockReading).map (s.counted BlockReading)

-- The loop variable `i` is one more than the blocks counted. The first block is not read.
def loop : PowChain → GravityState → Option GravityState
  | [], s => some s
  | [_], s => some s
  | BlockReading :: pprev :: rest, s =>
    if 0 < PastBlocksMax ∧ PastBlocksMax < s.CountBlocks + 1 then some s
    else (s.step BlockReading).bind (loop (pprev :: rest))

end GravityState

-- The Dark Gravity Wave.
def gravityWorkRequired (net : NetworkID) (chain : PowChain) : Option UInt32 := do
  let s ← GravityState.loop chain {}
  let nTargetTimespan := s.CountBlocks * net.TargetSpacing
  let nActualTimespan :=
    if s.nActualTimespan < nTargetTimespan.tdiv 3 then nTargetTimespan.tdiv 3
    else s.nActualTimespan
  let nActualTimespan :=
    if nTargetTimespan * 3 < nActualTimespan then nTargetTimespan * 3 else nActualTimespan
  let bnNew ← (s.PastDifficultyAverage.mulWord nActualTimespan).divide
    (UInt256.ofInt64 nTargetTimespan)
  let bnNew := if net.ProofOfWorkLimit < bnNew then net.ProofOfWorkLimit else bnNew
  return bnNew.getCompact

def getNextWorkRequired (net : NetworkID) : PowChain → Option UInt32
  | [] => some net.ProofOfWorkLimit.getCompact
  | pindexLast :: ancestors =>
    let nHeight := PowChain.nHeight (pindexLast :: ancestors)
    if nHeight = 0 ∨ nHeight < PastBlocksMin then some net.ProofOfWorkLimit.getCompact
    else if net.LAST_POW_BLOCK < nHeight then stakeWorkRequired pindexLast ancestors
    else gravityWorkRequired net (pindexLast :: ancestors)

end AnkerNode
