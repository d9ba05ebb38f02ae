import AnkerNode.Lib.Bits
import AnkerNode.Lib.Table
import AnkerNode.Zerocoin.Coin

namespace AnkerNode

def zerocoinDenomList : List CoinDenomination :=
  [.ZQ_ONE, .ZQ_FIVE, .ZQ_TEN, .ZQ_FIFTY, .ZQ_ONE_HUNDRED, .ZQ_FIVE_HUNDRED, .ZQ_ONE_THOUSAND,
    .ZQ_FIVE_THOUSAND]

def parseChecksum (nChecksum : UInt256) (denomination : CoinDenomination) : BitVec 32 :=
  Packing.field 32 ((zerocoinDenomList.length - 1) - zerocoinDenomList.idxOf denomination) nChecksum

-- `increment` raises the value to the coin's, in the group of the parameters.
structure ZerocoinParams where
  accumulatorBase : Int
  increment : Int → Int → Int

structure AccumulatorMap where
  params : ZerocoinParams
  value : CoinDenomination → Int

-- The two copies of the checksums, on disk and in memory.
structure AccumulatorTable where
  zerocoinDB : BitVec 32 → Option Int
  mapAccumulatorValues : BitVec 32 → Option Int

namespace AccumulatorMap

def new (params : ZerocoinParams) : AccumulatorMap := ⟨params, fun _ => params.accumulatorBase⟩

def reset (m : AccumulatorMap) : AccumulatorMap := new m.params

def setZerocoinParams (_ : AccumulatorMap) (params : ZerocoinParams) : AccumulatorMap := new params

def setValue (m : AccumulatorMap) (denom : CoinDenomination) (bnValue : Int) : AccumulatorMap :=
  { m with value := Function.update m.value denom bnValue }

-- one denomination after the other, until a checksum is missing
def load (m : AccumulatorMap) (table : AccumulatorTable) (nCheckpoint : UInt256) :
    Option AccumulatorMap :=
  zerocoinDenomList.foldlM (fun m denom =>
    (table.zerocoinDB (parseChecksum nCheckpoint denom)).map (m.setValue denom)) m

def loadValues (m : AccumulatorMap) (checkpoint : List (CoinDenomination × Int)) : AccumulatorMap :=
  checkpoint.foldl (fun m it => m.setValue it.1 it.2) m

def accumulate (m : AccumulatorMap) (pubCoin : PublicCoin) : Option AccumulatorMap :=
  if pubCoin.denomination = .ZQ_ERROR then none
  else some (m.setValue pubCoin.denomination
    (m.params.increment (m.value pubCoin.denomination) pubCoin.value))

def getValue (m : AccumulatorMap) (denom : CoinDenomination) : Int :=
  if denom = .ZQ_ERROR then 0 else m.value denom

def getCheckpoint (getChecksum : Int → BitVec 32) (m : AccumulatorMap) : UInt256 :=
  Packing.pack 256 (zerocoinDenomList.map fun denom => getChecksum (m.value denom))

end AccumulatorMap

namespace AccumulatorTable

def eraseChecksum (table : AccumulatorTable) (nChecksum : BitVec 32) : AccumulatorTable where
  zerocoinDB := Function.update table.zerocoinDB nChecksum none
  mapAccumulatorValues := Function.update table.mapAccumulatorValues nChecksum none

def eraseAccumulatorValues (table : AccumulatorTable) (nCheckpointErase nCheckpointPrevious : UInt256) :
    AccumulatorTable :=
  zerocoinDenomList.foldl (fun table denomination =>
    if parseChecksum nCheckpointErase denomination = parseChecksum nCheckpointPrevious denomination
    then table
    else table.eraseChecksum (parseChecksum nCheckpointErase denomination)) table

-- What the table gives for a checkpoint.
def Loads (getChecksum : Int → BitVec 32) (table : AccumulatorTable) (nCheckpoint : UInt256) : Prop :=
  (∀ denom ∈ zerocoinDenomList, (table.zerocoinDB (parseChecksum nCheckpoint denom)).isSome) ∧
    ∀ m : AccumulatorMap, ∃ m', m.load table nCheckpoint = some m' ∧
      m'.getCheckpoint getChecksum = nCheckpoint

end AccumulatorTable

theorem parseChecksum_getCheckpoint (getChecksum : Int → BitVec 32) (m : AccumulatorMap)
    {denom : CoinDenomination} (h : denom ∈ zerocoinDenomList) :
    parseChecksum (m.getCheckpoint getChecksum) denom = getChecksum (m.value denom) := by
  have hlt : zerocoinDenomList.idxOf denom < 8 := List.idxOf_lt_length_of_mem h
  rw [parseChecksum, AccumulatorMap.getCheckpoint, Packing.field_pack (by simp [zerocoinDenomList])]
  · simp only [List.length_map, List.getElem_map]
    congr 2
    have hidx : zerocoinDenomList.length - 1 -
        (zerocoinDenomList.length - 1 - zerocoinDenomList.idxOf denom) =
          zerocoinDenomList.idxOf denom := by
      simp only [show zerocoinDenomList.length = 8 from rfl]
      omega
    simp only [hidx, List.getElem_idxOf]
  · rw [List.length_map]
    simp only [show zerocoinDenomList.length = 8 from rfl]
    omega

theorem eq_of_parseChecksum_eq {nCheckpoint nCheckpoint' : UInt256}
    (h : ∀ denom ∈ zerocoinDenomList,
      parseChecksum nCheckpoint denom = parseChecksum nCheckpoint' denom) :
    nCheckpoint = nCheckpoint' := by
  refine Packing.eq_of_field_eq (w := 32) (m := 8) (by decide) fun k hk => ?_
  have hlt : 7 - k < zerocoinDenomList.length := show 7 - k < 8 by omega
  have hdenom := h zerocoinDenomList[7 - k] (List.getElem_mem hlt)
  have hidx : zerocoinDenomList.idxOf zerocoinDenomList[7 - k] = 7 - k :=
    (show zerocoinDenomList.Nodup by decide).idxOf_getElem _ hlt
  rw [parseChecksum, parseChecksum, hidx] at hdenom
  have hback : zerocoinDenomList.length - 1 - (7 - k) = k := by
    simp only [show zerocoinDenomList.length = 8 from rfl]
    omega
  rwa [hback] at hdenom

@[simp] theorem parseChecksum_zero (denom : CoinDenomination) : parseChecksum 0 denom = 0 := by
  simp [parseChecksum, Packing.field]

namespace AccumulatorMap

variable {table : AccumulatorTable} {nCheckpoint : UInt256} {m m' : AccumulatorMap}

theorem value_of_foldlM {denoms : List CoinDenomination}
    (h : denoms.foldlM (fun m denom =>
      (table.zerocoinDB (parseChecksum nCheckpoint denom)).map (m.setValue denom)) m = some m')
    (denom : CoinDenomination) : if denom ∈ denoms then
        table.zerocoinDB (parseChecksum nCheckpoint denom) = some (m'.value denom)
      else m'.value denom = m.value denom := by
  induction denoms generalizing m with
  | nil =>
    obtain rfl : m = m' := by simpa using h
    simp
  | cons first denoms ih =>
    simp only [List.foldlM_cons, Option.bind_eq_bind, Option.bind_eq_some_iff,
      Option.map_eq_some_iff] at h
    obtain ⟨_, ⟨bnValue, hread, rfl⟩, hrest⟩ := h
    have hd := ih hrest
    by_cases hmem : denom ∈ denoms
    · rw [if_pos hmem] at hd
      rw [if_pos (List.mem_cons_of_mem _ hmem)]
      exact hd
    · rw [if_neg hmem] at hd
      by_cases heq : denom = first
      · subst heq
        rw [if_pos List.mem_cons_self, hd, hread]
        simp [setValue]
      · rw [if_neg (by simp [heq, hmem]), hd]
        simp [setValue, heq]

theorem value_of_load (h : m.load table nCheckpoint = some m') {denom : CoinDenomination}
    (hdenom : denom ∈ zerocoinDenomList) :
    table.zerocoinDB (parseChecksum nCheckpoint denom) = some (m'.value denom) := by
  have hvalue := value_of_foldlM h denom
  rwa [if_pos hdenom] at hvalue

theorem load_isSome (h : ∀ denom ∈ zerocoinDenomList,
      (table.zerocoinDB (parseChecksum nCheckpoint denom)).isSome) (m : AccumulatorMap) :
    ∃ m', m.load table nCheckpoint = some m' := by
  rw [load]
  generalize zerocoinDenomList = denoms at h
  induction denoms generalizing m with
  | nil => exact ⟨m, rfl⟩
  | cons denom denoms ih =>
    obtain ⟨bnValue, hread⟩ := Option.isSome_iff_exists.mp (h denom List.mem_cons_self)
    obtain ⟨m', hrest⟩ := ih (m.setValue denom bnValue) fun d hd => h d (List.mem_cons_of_mem _ hd)
    exact ⟨m', by simp [hread, hrest]⟩

end AccumulatorMap

namespace AccumulatorTable

variable {getChecksum : Int → BitVec 32} {table : AccumulatorTable} {nCheckpoint : UInt256}

theorem loads_iff : table.Loads getChecksum nCheckpoint ↔ ∀ denom ∈ zerocoinDenomList,
    ∃ bnValue, table.zerocoinDB (parseChecksum nCheckpoint denom) = some bnValue ∧
      getChecksum bnValue = parseChecksum nCheckpoint denom := by
  constructor
  · rintro ⟨-, hload⟩ denom hdenom
    obtain ⟨m', hm', hback⟩ := hload ⟨⟨0, fun _ _ => 0⟩, fun _ => 0⟩
    refine ⟨_, AccumulatorMap.value_of_load hm' hdenom, ?_⟩
    rw [← parseChecksum_getCheckpoint getChecksum m' hdenom, hback]
  · intro h
    have hsome : ∀ denom ∈ zerocoinDenomList,
        (table.zerocoinDB (parseChecksum nCheckpoint denom)).isSome := by
      intro denom hdenom
      obtain ⟨bnValue, hread, -⟩ := h denom hdenom
      rw [hread]
      rfl
    refine ⟨hsome, fun m => ?_⟩
    obtain ⟨m', hm'⟩ := AccumulatorMap.load_isSome hsome m
    refine ⟨m', hm', eq_of_parseChecksum_eq fun denom hdenom => ?_⟩
    obtain ⟨bnValue, hread, hsum⟩ := h denom hdenom
    rw [AccumulatorMap.value_of_load hm' hdenom, Option.some.injEq] at hread
    rw [parseChecksum_getCheckpoint getChecksum m' hdenom, hread, hsum]

theorem loads_erased_iff {table' : AccumulatorTable} {E : BitVec 32 → Prop} [DecidablePred E]
    (herase : ∀ nChecksum, table'.zerocoinDB nChecksum =
      if E nChecksum then none else table.zerocoinDB nChecksum)
    (h : table.Loads getChecksum nCheckpoint) : table'.Loads getChecksum nCheckpoint ↔
      ∀ denom ∈ zerocoinDenomList, ¬ E (parseChecksum nCheckpoint denom) := by
  rw [loads_iff] at h ⊢
  refine forall₂_congr fun denom hdenom => ?_
  rw [herase]
  by_cases hE : E (parseChecksum nCheckpoint denom)
  · simp [hE]
  · simpa [hE] using h denom hdenom

theorem zerocoinDB_eraseAll (table : AccumulatorTable) (nChecksums : List (BitVec 32))
    (nChecksum : BitVec 32) : (nChecksums.foldl eraseChecksum table).zerocoinDB nChecksum =
      if nChecksum ∈ nChecksums then none else table.zerocoinDB nChecksum := by
  induction nChecksums generalizing table with
  | nil => rfl
  | cons first nChecksums ih =>
    rw [List.foldl_cons, ih]
    by_cases hrest : nChecksum ∈ nChecksums
    · rw [if_pos hrest, if_pos (List.mem_cons_of_mem _ hrest)]
    · rw [if_neg hrest, eraseChecksum]
      by_cases hkey : nChecksum = first
      · rw [if_pos (hkey ▸ List.mem_cons_self), hkey]
        exact Function.update_self ..
      · rw [if_neg (by simp [hkey, hrest])]
        exact Function.update_of_ne hkey ..

theorem eraseAccumulatorValues_eq (table : AccumulatorTable)
    (nCheckpointErase nCheckpointPrevious : UInt256) :
    table.eraseAccumulatorValues nCheckpointErase nCheckpointPrevious =
      ((zerocoinDenomList.filter fun denom => decide (parseChecksum nCheckpointErase denom ≠
        parseChecksum nCheckpointPrevious denom)).map
          (parseChecksum nCheckpointErase)).foldl eraseChecksum table := by
  rw [List.foldl_map, List.foldl_filter, eraseAccumulatorValues]
  congr 1
  funext table denom
  simp only [decide_eq_true_eq, ne_eq, ite_not]

-- Erasing takes the checksums that the two checkpoints do not share, and no other.
theorem zerocoinDB_eraseAccumulatorValues (table : AccumulatorTable)
    (nCheckpointErase nCheckpointPrevious : UInt256) (nChecksum : BitVec 32) :
    (table.eraseAccumulatorValues nCheckpointErase nCheckpointPrevious).zerocoinDB nChecksum =
      if ∃ denom ∈ zerocoinDenomList, parseChecksum nCheckpointErase denom = nChecksum ∧
          parseChecksum nCheckpointErase denom ≠ parseChecksum nCheckpointPrevious denom then none
      else table.zerocoinDB nChecksum := by
  rw [eraseAccumulatorValues_eq, zerocoinDB_eraseAll]
  refine if_congr ?_ rfl rfl
  simp only [List.mem_map, List.mem_filter, decide_eq_true_eq]
  constructor
  · rintro ⟨denom, ⟨hdenom, hne⟩, hkey⟩
    exact ⟨denom, hdenom, hkey, hne⟩
  · rintro ⟨denom, hdenom, hkey, hne⟩
    exact ⟨denom, ⟨hdenom, hne⟩, hkey⟩

end AccumulatorTable

-- A block of the active chain, with the coins that `BlockToPubcoinList` reads from disk.
structure CheckpointBlock where
  nAccumulatorCheckpoint : UInt256
  listPubcoins : Option (List PublicCoin)
deriving DecidableEq

structure CheckpointState where
  chainActive : List CheckpointBlock
  table : AccumulatorTable

structure AccumulatorContext where
  zerocoinStartHeight : Int
  zerocoinLastOldParams : Int
  oldZerocoinParams : ZerocoinParams
  zerocoinParams : ZerocoinParams
  mapCheckpoints : List (Int × List (CoinDenomination × Int))
  getChecksum : Int → BitVec 32
  -- whether a shutdown is asked for when the block of a height comes up
  shutdownRequested : Int → Bool

namespace CheckpointState

variable (s : CheckpointState)

def height : Int := s.chainActive.length - 1

def blockAt (nHeight : Int) : Option CheckpointBlock :=
  if 0 ≤ nHeight then s.chainActive[nHeight.toNat]? else none

def blocksFrom (nFrom nTo : Int) : List (Int × CheckpointBlock) :=
  if nFrom < 0 then []
  else (List.range (nTo - nFrom).toNat).filterMap fun i =>
    (s.blockAt (nFrom + i)).map fun block => (nFrom + i, block)

end CheckpointState

namespace AccumulatorContext

variable (ctx : AccumulatorContext)

def getZerocoinParams (nHeight : Int) : ZerocoinParams :=
  if ctx.zerocoinLastOldParams < nHeight then ctx.zerocoinParams else ctx.oldZerocoinParams

def addAccumulatorChecksum (nChainHeight : Int) (nChecksum : BitVec 32) (bnValue : Int)
    (table : AccumulatorTable) : AccumulatorTable :=
  if ctx.zerocoinLastOldParams < nChainHeight then
    { zerocoinDB := Function.update table.zerocoinDB nChecksum (some bnValue)
      mapAccumulatorValues :=
        if (table.mapAccumulatorValues nChecksum).isSome then table.mapAccumulatorValues
        else Function.update table.mapAccumulatorValues nChecksum (some bnValue) }
  else table

def databaseChecksums (nChainHeight : Int) (m : AccumulatorMap) (table : AccumulatorTable) :
    AccumulatorTable :=
  zerocoinDenomList.foldl (fun table denom =>
    ctx.addAccumulatorChecksum nChainHeight (ctx.getChecksum (m.getValue denom)) (m.getValue denom)
      table) table

def closestHeight (nHeight : Int) : Int :=
  ctx.mapCheckpoints.foldl (fun nHeightCheckpoint it =>
    if it.1 < nHeight then
      let nHeightCheckpoint := if nHeightCheckpoint = -1 then it.1 else nHeightCheckpoint
      if nHeight - it.1 < nHeightCheckpoint then it.1 else nHeightCheckpoint
    else nHeightCheckpoint) (-1)

def getClosestCheckpoint (nHeight : Int) : List (CoinDenomination × Int) × Int :=
  ((ctx.mapCheckpoints.lookup (ctx.closestHeight nHeight)).getD [], ctx.closestHeight nHeight)

def initializeAccumulators (s : CheckpointState) (nHeight : Int) (m : AccumulatorMap) :
    Option (Int × AccumulatorMap) :=
  if nHeight < ctx.zerocoinStartHeight then none
  else
    let m := if ctx.zerocoinLastOldParams < nHeight then m.setZerocoinParams ctx.zerocoinParams else m
    if ctx.zerocoinLastOldParams < nHeight ∧ nHeight ≤ ctx.zerocoinLastOldParams + 21 then
      let (checkpoint, nHeightCheckpoint) := ctx.getClosestCheckpoint nHeight
      if nHeightCheckpoint < 0 then none else some (nHeightCheckpoint, m.loadValues checkpoint)
    else do
      let pprev ← s.blockAt (nHeight - 1)
      if pprev.nAccumulatorCheckpoint = 0 then some (nHeight, m.reset)
      else (m.load s.table pprev.nAccumulatorCheckpoint).map fun m => (nHeight, m)

def accumulateBlock (found : Nat × AccumulatorMap) (pindex : Int × CheckpointBlock) :
    Option (Nat × AccumulatorMap) :=
  if ctx.shutdownRequested pindex.1 then none
  else if pindex.1 < ctx.zerocoinStartHeight then some found
  else do
    let listPubcoins ← pindex.2.listPubcoins
    let m ← listPubcoins.foldlM AccumulatorMap.accumulate found.2
    some (found.1 + listPubcoins.length, m)

def calculateAccumulatorCheckpoint (s : CheckpointState) (nHeight : Int) (m : AccumulatorMap) :
    Option (UInt256 × AccumulatorMap) :=
  if nHeight ≤ ctx.zerocoinLastOldParams then some (0, m)
  else if nHeight % 10 ≠ 0 then
    (s.blockAt (nHeight - 1)).map fun pprev => (pprev.nAccumulatorCheckpoint, m)
  else do
    let (nHeightCheckpoint, m) ← ctx.initializeAccumulators s nHeight m.reset
    let (nTotalMintsFound, m) ←
      (s.blocksFrom (nHeightCheckpoint - 20) (nHeight - 10)).foldlM ctx.accumulateBlock (0, m)
    if nTotalMintsFound = 0 then
      (s.blockAt (nHeight - 1)).map fun pprev => (pprev.nAccumulatorCheckpoint, m)
    else some (m.getCheckpoint ctx.getChecksum, m)

def validateAccumulatorCheckpoint (fVerifyingBlocks : Bool) (s : CheckpointState) (nHeight : Int)
    (block : CheckpointBlock) (m : AccumulatorMap) : Option AccumulatorMap :=
  if nHeight ≤ ctx.zerocoinLastOldParams ∨ fVerifyingBlocks = true then some m
  else if nHeight % 10 = 0 then do
    let (nCheckpointCalculated, m) ← ctx.calculateAccumulatorCheckpoint s nHeight m
    if nCheckpointCalculated = block.nAccumulatorCheckpoint then some m else none
  else do
    let pprev ← s.blockAt (nHeight - 1)
    if block.nAccumulatorCheckpoint = pprev.nAccumulatorCheckpoint then some m else none

-- What `ConnectBlock` leaves in the table, with the accumulators it checked the block with.
def connectBlock (fVerifyingBlocks : Bool) (s : CheckpointState) (nHeight : Int)
    (block : CheckpointBlock) : Option (AccumulatorMap × AccumulatorTable) :=
  (ctx.validateAccumulatorCheckpoint fVerifyingBlocks s nHeight block
    (AccumulatorMap.new (ctx.getZerocoinParams nHeight))).map fun m =>
      (m, ctx.databaseChecksums s.height m s.table)

end AccumulatorContext

namespace CheckpointState

def disconnectBlock (fVerifyingBlocks : Bool) (s : CheckpointState)
    (pindex pprev : CheckpointBlock) : AccumulatorTable :=
  if !fVerifyingBlocks ∧ pindex.nAccumulatorCheckpoint ≠ pprev.nAccumulatorCheckpoint then
    s.table.eraseAccumulatorValues pindex.nAccumulatorCheckpoint pprev.nAccumulatorCheckpoint
  else s.table

-- The whole checkpoint is looked up in the list, not its checksum.
def listed (nCheckpointPrev nCheckpointDelete : UInt256) : Bool :=
  (zerocoinDenomList.map (parseChecksum nCheckpointPrev)).any fun nChecksum =>
    nChecksum.setWidth 256 == nCheckpointDelete

def eraseCheckpoint (nCheckpointPrev : UInt256) (table : AccumulatorTable) (pindex : CheckpointBlock) :
    AccumulatorTable :=
  zerocoinDenomList.foldl (fun table denom =>
    if listed nCheckpointPrev pindex.nAccumulatorCheckpoint then table
    else table.eraseChecksum (parseChecksum pindex.nAccumulatorCheckpoint denom)) table

-- from the first height on, at least that block
def blocksToErase (s : CheckpointState) (nStartHeight nEndHeight : Int) : List CheckpointBlock :=
  (s.chainActive.drop nStartHeight.toNat).take
    (max 1 (min s.height nEndHeight - nStartHeight + 1).toNat)

def eraseCheckpoints (s : CheckpointState) (nStartHeight nEndHeight : Int) :
    Option (AccumulatorTable × Bool) :=
  if s.height < nStartHeight then some (s.table, false)
  else do
    let _ ← s.blockAt nStartHeight
    let pprev ← s.blockAt (nStartHeight - 1)
    some ((s.blocksToErase nStartHeight nEndHeight).foldl
      (eraseCheckpoint pprev.nAccumulatorCheckpoint) s.table, true)

end CheckpointState

end AnkerNode
