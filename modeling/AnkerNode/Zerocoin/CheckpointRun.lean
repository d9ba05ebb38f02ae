import AnkerNode.Zerocoin.Accumulators
import Mathlib.Data.Set.Function
import Mathlib.Logic.Relation

namespace AnkerNode

open CheckpointState

namespace AccumulatorContext

variable (ctx : AccumulatorContext)

def Loadable (s : CheckpointState) : Prop :=
  ∀ block ∈ s.chainActive, block.nAccumulatorCheckpoint ≠ 0 →
    s.table.Loads ctx.getChecksum block.nAccumulatorCheckpoint

-- the value of the accumulator at a checkpoint, which is the initial one at 0
def StartsAt (table : AccumulatorTable) (nCheckpoint : UInt256) (denom : CoinDenomination)
    (bnValue : Int) : Prop :=
  if nCheckpoint = 0 then bnValue = ctx.zerocoinParams.accumulatorBase
  else table.zerocoinDB (parseChecksum nCheckpoint denom) = some bnValue

-- An accumulator that has moved on holds no value of an earlier block.
def NeverReturns (table : AccumulatorTable) (earlier : List CheckpointBlock)
    (pprev : CheckpointBlock) (m : AccumulatorMap) : Prop :=
  ∀ denom ∈ zerocoinDenomList,
    ctx.StartsAt table pprev.nAccumulatorCheckpoint denom (m.value denom) ∨
      ∀ block ∈ earlier, block.nAccumulatorCheckpoint ≠ 0 → ∀ denom' ∈ zerocoinDenomList,
        table.zerocoinDB (parseChecksum block.nAccumulatorCheckpoint denom') ≠ some (m.value denom)

-- A chain with the accumulators that its checkpoints came from.
def Grown (V : Set Int) (s : CheckpointState) : Prop :=
  ∀ before pprev pindex after, s.chainActive = before ++ pprev :: pindex :: after →
    ctx.zerocoinLastOldParams + 21 < before.length + 1 →
      pindex.nAccumulatorCheckpoint = pprev.nAccumulatorCheckpoint ∨
        ∃ m : AccumulatorMap, (∀ denom ∈ zerocoinDenomList, m.value denom ∈ V) ∧
          pindex.nAccumulatorCheckpoint = m.getCheckpoint ctx.getChecksum ∧
            ctx.NeverReturns s.table (before ++ [pprev]) pprev m

-- The condition under which the last block can be disconnected.
def BaseUnshared (s : CheckpointState) : Prop :=
  ∀ before pprev pindex, s.chainActive = before ++ [pprev, pindex] →
    pprev.nAccumulatorCheckpoint = 0 → ctx.getChecksum ctx.zerocoinParams.accumulatorBase ≠ 0 →
      (∃ denom ∈ zerocoinDenomList, parseChecksum pindex.nAccumulatorCheckpoint denom =
        ctx.getChecksum ctx.zerocoinParams.accumulatorBase) →
          ∀ block ∈ before, block.nAccumulatorCheckpoint ≠ 0 → ∀ denom ∈ zerocoinDenomList,
            parseChecksum block.nAccumulatorCheckpoint denom ≠
              ctx.getChecksum ctx.zerocoinParams.accumulatorBase

-- Calls above the height, with the values that occur in `V`; those made to verify the chain
-- leave it as it is.
inductive Step (V : Set Int) : CheckpointState → CheckpointState → Prop
  | connect {s : CheckpointState} {before : List CheckpointBlock} {pprev block : CheckpointBlock}
      {m : AccumulatorMap} {table : AccumulatorTable} (hchain : s.chainActive = before ++ [pprev])
      (hheight : ctx.zerocoinLastOldParams + 21 < s.chainActive.length)
      (h : ctx.connectBlock false s s.chainActive.length block = some (m, table))
      (hvalues : ∀ denom ∈ zerocoinDenomList, m.value denom ∈ V)
      (hnever : (s.chainActive.length : Int) % 10 = 0 →
        ctx.NeverReturns s.table s.chainActive pprev m) :
      Step V s ⟨s.chainActive ++ [block], table⟩
  | disconnect {s : CheckpointState} {before : List CheckpointBlock}
      {pprev pindex : CheckpointBlock} (hchain : s.chainActive = before ++ [pprev, pindex])
      (hheight : ctx.zerocoinLastOldParams + 21 < before.length + 1) (hbase : ctx.BaseUnshared s) :
      Step V s ⟨before ++ [pprev], s.disconnectBlock false pindex pprev⟩
  | verifyConnect {s : CheckpointState} {nHeight : Int} {block : CheckpointBlock}
      {m : AccumulatorMap} {table : AccumulatorTable}
      (hheight : ctx.zerocoinLastOldParams + 21 < nHeight)
      (h : ctx.connectBlock true s nHeight block = some (m, table))
      (hvalues : ∀ denom ∈ zerocoinDenomList, m.value denom ∈ V) :
      Step V s ⟨s.chainActive, table⟩
  | verifyDisconnect {s : CheckpointState} {pprev pindex : CheckpointBlock} :
      Step V s ⟨s.chainActive, s.disconnectBlock true pindex pprev⟩

-- The condition under which the block before a range stays loadable when it is erased.
def Spared (s : CheckpointState) (nStartHeight nEndHeight : Int) (pprev : CheckpointBlock) : Prop :=
  pprev.nAccumulatorCheckpoint = 0 ∨ s.height < nStartHeight ∨
    ∀ pindex ∈ s.blocksToErase nStartHeight nEndHeight,
      listed pprev.nAccumulatorCheckpoint pindex.nAccumulatorCheckpoint = true ∨
        ∀ denom ∈ zerocoinDenomList, ∀ denom' ∈ zerocoinDenomList,
          parseChecksum pindex.nAccumulatorCheckpoint denom ≠
            parseChecksum pprev.nAccumulatorCheckpoint denom'

-- A checksum that a block adds is new to the chain, or that of the initial value.
def Advancing (chainActive : List CheckpointBlock) : Prop :=
  ∀ before pprev pindex after, chainActive = before ++ pprev :: pindex :: after →
    ctx.zerocoinLastOldParams + 21 < before.length + 1 → ∀ denom ∈ zerocoinDenomList,
      parseChecksum pindex.nAccumulatorCheckpoint denom =
          parseChecksum pprev.nAccumulatorCheckpoint denom ∨
        (pprev.nAccumulatorCheckpoint = 0 ∧ parseChecksum pindex.nAccumulatorCheckpoint denom =
          ctx.getChecksum ctx.zerocoinParams.accumulatorBase) ∨
        ∀ block ∈ before ++ [pprev], block.nAccumulatorCheckpoint ≠ 0 →
          ∀ denom' ∈ zerocoinDenomList, parseChecksum block.nAccumulatorCheckpoint denom' ≠
            parseChecksum pindex.nAccumulatorCheckpoint denom

structure Kept (V : Set Int) (s : CheckpointState) : Prop where
  loadable : ctx.Loadable s
  values : ∀ nChecksum bnValue, s.table.zerocoinDB nChecksum = some bnValue → bnValue ∈ V
  advancing : ctx.Advancing s.chainActive

variable {ctx}

theorem getValue_of_mem {m : AccumulatorMap} {denom : CoinDenomination}
    (h : denom ∈ zerocoinDenomList) : m.getValue denom = m.value denom := by
  rw [AccumulatorMap.getValue, if_neg]
  rintro rfl
  exact absurd h (by decide)

-- Every entry of the table is an old one, or a value under its checksum.
theorem zerocoinDB_databaseChecksums {nChainHeight : Int} {m : AccumulatorMap}
    {table : AccumulatorTable} (nChecksum : BitVec 32) :
    (ctx.databaseChecksums nChainHeight m table).zerocoinDB nChecksum = table.zerocoinDB nChecksum ∨
      ∃ denom ∈ zerocoinDenomList, ctx.getChecksum (m.value denom) = nChecksum ∧
        (ctx.databaseChecksums nChainHeight m table).zerocoinDB nChecksum = some (m.value denom) := by
  rw [databaseChecksums]
  have hvalue : ∀ denom ∈ zerocoinDenomList, m.getValue denom = m.value denom := fun _ =>
    getValue_of_mem
  generalize zerocoinDenomList = denoms at hvalue
  induction denoms generalizing table with
  | nil => exact .inl rfl
  | cons denom denoms ih =>
    rw [List.foldl_cons]
    rcases ih fun d hd => hvalue d (List.mem_cons_of_mem _ hd) with hold | ⟨d, hd, hnew⟩
    · rw [hold, addAccumulatorChecksum, hvalue denom List.mem_cons_self]
      split
      · by_cases hkey : ctx.getChecksum (m.value denom) = nChecksum
        · subst hkey
          exact .inr ⟨denom, List.mem_cons_self, rfl, Function.update_self ..⟩
        · exact .inl (Function.update_of_ne (Ne.symm hkey) _ _)
      · exact .inl rfl
    · exact .inr ⟨d, List.mem_cons_of_mem _ hd, hnew⟩

theorem recorded_databaseChecksums {nChainHeight : Int} {m : AccumulatorMap}
    {table : AccumulatorTable} (hheight : ctx.zerocoinLastOldParams < nChainHeight)
    {denom : CoinDenomination} (hdenom : denom ∈ zerocoinDenomList) :
    ∃ bnValue, (ctx.databaseChecksums nChainHeight m table).zerocoinDB
        (ctx.getChecksum (m.value denom)) = some bnValue ∧
      ctx.getChecksum bnValue = ctx.getChecksum (m.value denom) := by
  rw [← getValue_of_mem hdenom, databaseChecksums]
  generalize zerocoinDenomList = denoms at hdenom
  induction denoms using List.reverseRecOn with
  | nil => simp at hdenom
  | append_singleton denoms d ih =>
    rw [List.foldl_append, List.foldl_cons, List.foldl_nil, addAccumulatorChecksum, if_pos hheight]
    by_cases hkey : ctx.getChecksum (m.getValue denom) = ctx.getChecksum (m.getValue d)
    · refine ⟨m.getValue d, ?_, hkey.symm⟩
      rw [hkey]
      exact Function.update_self ..
    · rcases List.mem_append.mp hdenom with hmem | hmem
      · obtain ⟨bnValue, hread, hsum⟩ := ih hmem
        exact ⟨bnValue, (Function.update_of_ne hkey ..).trans hread, hsum⟩
      · rw [List.mem_singleton.mp hmem] at hkey
        exact absurd rfl hkey

theorem loads_databaseChecksums {nChainHeight : Int} {m : AccumulatorMap} {table : AccumulatorTable}
    {nCheckpoint : UInt256} (h : table.Loads ctx.getChecksum nCheckpoint) :
    (ctx.databaseChecksums nChainHeight m table).Loads ctx.getChecksum nCheckpoint := by
  rw [AccumulatorTable.loads_iff] at h ⊢
  intro denom hdenom
  rcases zerocoinDB_databaseChecksums (parseChecksum nCheckpoint denom) with hold | ⟨d, -, hkey, hnew⟩
  · rw [hold]
    exact h denom hdenom
  · exact ⟨m.value d, hnew, hkey⟩

theorem loads_getCheckpoint {nChainHeight : Int} {m : AccumulatorMap} {table : AccumulatorTable}
    (hheight : ctx.zerocoinLastOldParams < nChainHeight) :
    (ctx.databaseChecksums nChainHeight m table).Loads ctx.getChecksum
      (m.getCheckpoint ctx.getChecksum) := by
  rw [AccumulatorTable.loads_iff]
  intro denom hdenom
  rw [parseChecksum_getCheckpoint _ _ hdenom]
  exact recorded_databaseChecksums hheight hdenom

theorem calculateAccumulatorCheckpoint_cases {s : CheckpointState} {nHeight : Int}
    {m m' : AccumulatorMap} {nCheckpoint : UInt256} {pprev : CheckpointBlock}
    (hheight : ctx.zerocoinLastOldParams < nHeight) (hten : nHeight % 10 = 0)
    (hpprev : s.blockAt (nHeight - 1) = some pprev)
    (h : ctx.calculateAccumulatorCheckpoint s nHeight m = some (nCheckpoint, m')) :
    nCheckpoint = pprev.nAccumulatorCheckpoint ∨ nCheckpoint = m'.getCheckpoint ctx.getChecksum := by
  rw [calculateAccumulatorCheckpoint, if_neg (by omega), if_neg (by omega)] at h
  simp only [Option.bind_eq_bind, Option.bind_eq_some_iff, Prod.exists] at h
  obtain ⟨nHeightCheckpoint, m₁, -, nTotalMintsFound, m₂, -, h⟩ := h
  split at h
  · rw [hpprev, Option.map_some, Option.some.injEq, Prod.mk.injEq] at h
    exact .inl h.1.symm
  · rw [Option.some.injEq, Prod.mk.injEq] at h
    exact .inr (h.2 ▸ h.1.symm)

-- A block has the checkpoint of the one before it, or that of the accumulators.
theorem connectBlock_cases {s : CheckpointState} {nHeight : Int} {block pprev : CheckpointBlock}
    {m : AccumulatorMap} {table : AccumulatorTable}
    (hheight : ctx.zerocoinLastOldParams < nHeight)
    (hpprev : s.blockAt (nHeight - 1) = some pprev)
    (h : ctx.connectBlock false s nHeight block = some (m, table)) :
    table = ctx.databaseChecksums s.height m s.table ∧
      (block.nAccumulatorCheckpoint = pprev.nAccumulatorCheckpoint ∨
        (nHeight % 10 = 0 ∧ block.nAccumulatorCheckpoint = m.getCheckpoint ctx.getChecksum)) := by
  simp only [connectBlock, Option.map_eq_some_iff, Prod.mk.injEq] at h
  obtain ⟨_, h, rfl, rfl⟩ := h
  refine ⟨rfl, ?_⟩
  rw [validateAccumulatorCheckpoint, if_neg (by simp; omega)] at h
  split at h
  · rename_i hten
    simp only [Option.bind_eq_bind, Option.bind_eq_some_iff, Prod.exists] at h
    obtain ⟨nCheckpoint, m', hcalc, h⟩ := h
    split at h
    · rename_i heq
      obtain rfl := Option.some.inj h
      rw [← heq]
      exact (calculateAccumulatorCheckpoint_cases hheight hten hpprev hcalc).imp_right (⟨hten, ·⟩)
    · simp at h
  · simp only [hpprev, Option.bind_eq_bind, Option.bind_some] at h
    split at h
    · rename_i heq
      exact .inl heq
    · simp at h

-- Checksums that differ belong to values that do, and the other way round for those that occur.
theorem checksum_of_neverReturns {V : Set Int} {table : AccumulatorTable}
    {earlier : List CheckpointBlock} {pprev : CheckpointBlock} {m : AccumulatorMap}
    (hinj : Set.InjOn ctx.getChecksum V)
    (htable : ∀ nChecksum bnValue, table.zerocoinDB nChecksum = some bnValue → bnValue ∈ V)
    (hloads : ∀ block ∈ earlier, block.nAccumulatorCheckpoint ≠ 0 →
      table.Loads ctx.getChecksum block.nAccumulatorCheckpoint)
    (hpprev : pprev ∈ earlier) (hvalues : ∀ denom ∈ zerocoinDenomList, m.value denom ∈ V)
    (h : ctx.NeverReturns table earlier pprev m) {denom : CoinDenomination}
    (hdenom : denom ∈ zerocoinDenomList) :
    ctx.getChecksum (m.value denom) = parseChecksum pprev.nAccumulatorCheckpoint denom ∨
      (pprev.nAccumulatorCheckpoint = 0 ∧ ctx.getChecksum (m.value denom) =
        ctx.getChecksum ctx.zerocoinParams.accumulatorBase) ∨
      ∀ block ∈ earlier, block.nAccumulatorCheckpoint ≠ 0 → ∀ denom' ∈ zerocoinDenomList,
        parseChecksum block.nAccumulatorCheckpoint denom' ≠ ctx.getChecksum (m.value denom) := by
  rcases h denom hdenom with hstart | hnew
  · rw [StartsAt] at hstart
    split at hstart
    · rename_i hzero
      exact .inr (.inl ⟨hzero, by rw [hstart]⟩)
    · rename_i hnonzero
      obtain ⟨bnValue, hread, hsum⟩ :=
        AccumulatorTable.loads_iff.mp (hloads pprev hpprev hnonzero) denom hdenom
      rw [hstart, Option.some.injEq] at hread
      exact .inl (hread ▸ hsum)
  · refine .inr (.inr fun block hblock hnonzero denom' hdenom' heq => ?_)
    obtain ⟨bnValue, hread, hsum⟩ :=
      AccumulatorTable.loads_iff.mp (hloads block hblock hnonzero) denom' hdenom'
    have hsame : bnValue = m.value denom :=
      hinj (htable _ _ hread) (hvalues denom hdenom) (hsum.trans heq)
    exact hnew block hblock hnonzero denom' hdenom' (hsame ▸ hread)

-- Where a chain is split, the split of a longer chain is one of it or ends at the new block.
theorem split_append {A : Type} {chain before after : List A} {x p b : A}
    (h : chain ++ [x] = before ++ p :: b :: after) :
    (∃ rest, after = rest ++ [x] ∧ chain = before ++ p :: b :: rest) ∨
      (after = [] ∧ b = x ∧ chain = before ++ [p]) := by
  induction after using List.reverseRecOn with
  | nil =>
    have hsplit : chain ++ [x] = (before ++ [p]) ++ [b] := by rw [h]; simp
    obtain ⟨hchain, hx⟩ := List.append_inj' hsplit rfl
    exact .inr ⟨rfl, (List.singleton_inj.mp hx).symm, hchain⟩
  | append_singleton rest y _ =>
    have hsplit : chain ++ [x] = (before ++ p :: b :: rest) ++ [y] := by rw [h]; simp
    obtain ⟨hchain, hx⟩ := List.append_inj' hsplit rfl
    exact .inl ⟨rest, by rw [List.singleton_inj.mp hx], hchain⟩

theorem blockAt_last {s : CheckpointState} {before : List CheckpointBlock} {pprev : CheckpointBlock}
    (hchain : s.chainActive = before ++ [pprev]) :
    s.blockAt ((s.chainActive.length : Int) - 1) = some pprev := by
  have hlength : (s.chainActive.length : Int) - 1 = before.length := by simp [hchain]
  rw [hlength, blockAt, if_pos (by omega), hchain]
  simp

theorem Kept.tables {V : Set Int} {s : CheckpointState} {nChainHeight : Int} {m : AccumulatorMap}
    (h : ctx.Kept V s) (hvalues : ∀ denom ∈ zerocoinDenomList, m.value denom ∈ V) :
    ctx.Kept V ⟨s.chainActive, ctx.databaseChecksums nChainHeight m s.table⟩ where
  loadable := fun block hblock hnonzero => loads_databaseChecksums (h.loadable block hblock hnonzero)
  values := by
    intro nChecksum bnValue hread
    rcases zerocoinDB_databaseChecksums nChecksum with hold | ⟨denom, hdenom, -, hnew⟩
    · exact h.values nChecksum bnValue (hold ▸ hread)
    · obtain rfl : m.value denom = bnValue := Option.some.inj (hnew.symm.trans hread)
      exact hvalues denom hdenom
  advancing := h.advancing

theorem Kept.connect {V : Set Int} {s : CheckpointState} {before : List CheckpointBlock}
    {pprev block : CheckpointBlock} {m : AccumulatorMap} {table : AccumulatorTable}
    (hinj : Set.InjOn ctx.getChecksum V) (hs : ctx.Kept V s)
    (hchain : s.chainActive = before ++ [pprev])
    (hheight : ctx.zerocoinLastOldParams + 21 < s.chainActive.length)
    (h : ctx.connectBlock false s s.chainActive.length block = some (m, table))
    (hvalues : ∀ denom ∈ zerocoinDenomList, m.value denom ∈ V)
    (hnever : (s.chainActive.length : Int) % 10 = 0 →
      ctx.NeverReturns s.table s.chainActive pprev m) :
    ctx.Kept V ⟨s.chainActive ++ [block], table⟩ := by
  obtain ⟨rfl, hcheckpoint⟩ := connectBlock_cases (by omega) (blockAt_last hchain) h
  have hmem : pprev ∈ s.chainActive := hchain ▸ List.mem_append_right _ (List.mem_singleton_self _)
  have htables : ctx.Kept V ⟨s.chainActive, ctx.databaseChecksums s.height m s.table⟩ :=
    hs.tables hvalues
  refine ⟨?_, htables.values, ?_⟩
  · intro b hb hnonzero
    rcases List.mem_append.mp hb with hold | hnew
    · exact htables.loadable b hold hnonzero
    · rw [List.mem_singleton.mp hnew] at hnonzero ⊢
      rcases hcheckpoint with heq | ⟨-, heq⟩
      · rw [heq] at hnonzero ⊢
        exact htables.loadable pprev hmem hnonzero
      · rw [heq]
        refine loads_getCheckpoint ?_
        rw [CheckpointState.height]
        omega
  · intro before' p b after hsplit hlength denom hdenom
    rcases split_append hsplit with ⟨rest, -, hold⟩ | ⟨-, rfl, hlast⟩
    · exact hs.advancing before' p b rest hold hlength denom hdenom
    · obtain ⟨rfl, hp⟩ := List.append_inj' (hchain.symm.trans hlast) rfl
      obtain rfl := List.singleton_inj.mp hp
      rcases hcheckpoint with heq | ⟨hten, heq⟩
      · exact .inl (by rw [heq])
      · rw [heq, parseChecksum_getCheckpoint _ _ hdenom, ← hlast]
        exact checksum_of_neverReturns hinj hs.values hs.loadable hmem hvalues (hnever hten) hdenom

theorem zerocoinDB_disconnectBlock (s : CheckpointState) (pindex pprev : CheckpointBlock)
    (nChecksum : BitVec 32) : (s.disconnectBlock false pindex pprev).zerocoinDB nChecksum =
      if ∃ denom ∈ zerocoinDenomList, parseChecksum pindex.nAccumulatorCheckpoint denom = nChecksum ∧
          parseChecksum pindex.nAccumulatorCheckpoint denom ≠
            parseChecksum pprev.nAccumulatorCheckpoint denom then none
      else s.table.zerocoinDB nChecksum := by
  rw [disconnectBlock]
  split
  · exact AccumulatorTable.zerocoinDB_eraseAccumulatorValues ..
  · rename_i hsame
    have heq : pindex.nAccumulatorCheckpoint = pprev.nAccumulatorCheckpoint := by simpa using hsame
    rw [heq, if_neg]
    rintro ⟨denom, -, -, hne⟩
    exact hne rfl

-- The checksums that go are those of no block that stays, but for the one of the initial value.
theorem Kept.disconnect_iff {V : Set Int} {s : CheckpointState} {before : List CheckpointBlock}
    {pprev pindex : CheckpointBlock} (hs : ctx.Kept V s)
    (hchain : s.chainActive = before ++ [pprev, pindex])
    (hheight : ctx.zerocoinLastOldParams + 21 < before.length + 1) :
    ctx.Loadable ⟨before ++ [pprev], s.disconnectBlock false pindex pprev⟩ ↔ ctx.BaseUnshared s := by
  have hold : ∀ block ∈ before ++ [pprev], block ∈ s.chainActive := by
    intro block hblock
    rw [hchain, List.append_cons]
    exact List.mem_append_left _ hblock
  have hiff : ∀ block ∈ before ++ [pprev], block.nAccumulatorCheckpoint ≠ 0 → _ :=
    fun block hblock hnonzero => AccumulatorTable.loads_erased_iff
      (zerocoinDB_disconnectBlock s pindex pprev) (hs.loadable block (hold block hblock) hnonzero)
  constructor
  · intro hloadable before' pprev' pindex' hsplit hzero hsum hshared block hblock hnonzero denom' hdenom'
    obtain ⟨rfl, hlast⟩ := List.append_inj' (hchain.symm.trans hsplit) rfl
    obtain ⟨rfl, rfl⟩ : pprev = pprev' ∧ pindex = pindex' := by simpa using hlast
    obtain ⟨denom, hdenom, hbase⟩ := hshared
    intro heq
    have hmem : block ∈ before ++ [pprev] := List.mem_append_left _ hblock
    refine (hiff block hmem hnonzero).mp (hloadable block hmem hnonzero) denom' hdenom' ?_
    refine ⟨denom, hdenom, hbase.trans heq.symm, ?_⟩
    rw [hbase, hzero, parseChecksum_zero]
    exact hsum
  · intro hunshared block hblock hnonzero
    refine (hiff block hblock hnonzero).mpr ?_
    rintro denom' hdenom' ⟨denom, hdenom, hkey, hne⟩
    rcases hs.advancing before pprev pindex [] hchain hheight denom hdenom with
      hsame | ⟨hzero, hbase⟩ | hnew
    · exact hne hsame
    · rw [hzero, parseChecksum_zero, hbase] at hne
      rcases List.mem_append.mp hblock with hmem | hmem
      · exact hunshared before pprev pindex hchain hzero hne ⟨denom, hdenom, hbase⟩ block hmem
          hnonzero denom' hdenom' (hkey.symm.trans hbase)
      · rw [List.mem_singleton.mp hmem] at hnonzero
        exact hnonzero hzero
    · exact hnew block hblock hnonzero denom' hdenom' hkey.symm

theorem Kept.disconnect {V : Set Int} {s : CheckpointState} {before : List CheckpointBlock}
    {pprev pindex : CheckpointBlock} (hs : ctx.Kept V s)
    (hchain : s.chainActive = before ++ [pprev, pindex])
    (hheight : ctx.zerocoinLastOldParams + 21 < before.length + 1) (hbase : ctx.BaseUnshared s) :
    ctx.Kept V ⟨before ++ [pprev], s.disconnectBlock false pindex pprev⟩ where
  loadable := (hs.disconnect_iff hchain hheight).mpr hbase
  values := by
    intro nChecksum bnValue hread
    rw [zerocoinDB_disconnectBlock] at hread
    split at hread
    · simp at hread
    · exact hs.values nChecksum bnValue hread
  advancing := by
    intro before' p b after hsplit
    have hstays : before ++ [pprev] = before' ++ p :: b :: after := hsplit
    refine hs.advancing before' p b (after ++ [pindex]) ?_
    rw [hchain, List.append_cons, hstays]
    simp

theorem Kept.step {V : Set Int} {s s' : CheckpointState} (hinj : Set.InjOn ctx.getChecksum V)
    (hs : ctx.Kept V s) (h : ctx.Step V s s') : ctx.Kept V s' := by
  cases h with
  | connect hchain hheight h hvalues hnever => exact hs.connect hinj hchain hheight h hvalues hnever
  | disconnect hchain hheight hbase => exact hs.disconnect hchain hheight hbase
  | verifyConnect _ h hvalues =>
    simp only [connectBlock, Option.map_eq_some_iff, Prod.mk.injEq] at h
    obtain ⟨_, -, rfl, rfl⟩ := h
    exact hs.tables hvalues
  | verifyDisconnect =>
    rw [disconnectBlock, if_neg (by simp)]
    exact hs

theorem Kept.run {V : Set Int} {s s' : CheckpointState} (hinj : Set.InjOn ctx.getChecksum V)
    (hs : ctx.Kept V s) (h : Relation.ReflTransGen (ctx.Step V) s s') : ctx.Kept V s' := by
  induction h with
  | refl => exact hs
  | tail _ hstep ih => exact ih.step hinj hstep

theorem kept_start {V : Set Int} {s : CheckpointState} (hinj : Set.InjOn ctx.getChecksum V)
    (hloadable : ctx.Loadable s)
    (hvalues : ∀ nChecksum bnValue, s.table.zerocoinDB nChecksum = some bnValue → bnValue ∈ V)
    (hgrown : ctx.Grown V s) : ctx.Kept V s where
  loadable := hloadable
  values := hvalues
  advancing := by
    intro before pprev pindex after hsplit hlength denom hdenom
    rcases hgrown before pprev pindex after hsplit hlength with heq | ⟨m, hm, heq, hnever⟩
    · exact .inl (by rw [heq])
    · rw [heq, parseChecksum_getCheckpoint _ _ hdenom]
      refine checksum_of_neverReturns hinj hvalues ?_ (by simp) hm hnever hdenom
      intro block hblock
      refine hloadable block ?_
      rw [hsplit, List.append_cons]
      exact List.mem_append_left _ hblock

theorem foldl_eraseCheckpoint (nCheckpointPrev : UInt256) (blocks : List CheckpointBlock)
    (table : AccumulatorTable) :
    blocks.foldl (eraseCheckpoint nCheckpointPrev) table =
      (blocks.flatMap fun pindex =>
        if listed nCheckpointPrev pindex.nAccumulatorCheckpoint then []
        else zerocoinDenomList.map (parseChecksum pindex.nAccumulatorCheckpoint)).foldl
          AccumulatorTable.eraseChecksum table := by
  rw [List.foldl_flatMap]
  congr 1
  funext table pindex
  rw [eraseCheckpoint]
  split
  · rw [List.foldl_nil]
    exact List.foldl_fixed zerocoinDenomList
  · rw [List.foldl_map]

theorem eraseCheckpoints_spares_iff {s : CheckpointState} {nStartHeight nEndHeight : Int}
    {table : AccumulatorTable} {ok : Bool} {pprev : CheckpointBlock}
    (h : s.eraseCheckpoints nStartHeight nEndHeight = some (table, ok))
    (hpprev : s.blockAt (nStartHeight - 1) = some pprev)
    (hloads : pprev.nAccumulatorCheckpoint ≠ 0 →
      s.table.Loads ctx.getChecksum pprev.nAccumulatorCheckpoint) :
    (pprev.nAccumulatorCheckpoint ≠ 0 → table.Loads ctx.getChecksum pprev.nAccumulatorCheckpoint) ↔
      Spared s nStartHeight nEndHeight pprev := by
  rw [eraseCheckpoints] at h
  by_cases hzero : pprev.nAccumulatorCheckpoint = 0
  · simp [Spared, hzero]
  by_cases hheight : s.height < nStartHeight
  · rw [if_pos hheight, Option.some.injEq, Prod.mk.injEq] at h
    simp only [Spared, hzero, hheight, ne_eq, not_false_eq_true, true_or, or_true, iff_true]
    exact fun _ => h.1 ▸ hloads hzero
  · rw [if_neg hheight] at h
    simp only [hpprev, Option.bind_eq_bind, Option.bind_some, Option.bind_eq_some_iff,
      Option.some.injEq, Prod.mk.injEq] at h
    obtain ⟨_, -, rfl, -⟩ := h
    rw [foldl_eraseCheckpoint, forall_prop_of_true hzero,
      AccumulatorTable.loads_erased_iff (AccumulatorTable.zerocoinDB_eraseAll _ _) (hloads hzero)]
    simp only [Spared, hzero, hheight, false_or, List.mem_flatMap, not_exists, not_and]
    constructor
    · intro hkept pindex hmem
      by_cases hlisted :
          listed pprev.nAccumulatorCheckpoint pindex.nAccumulatorCheckpoint = true
      · exact .inl hlisted
      · refine .inr fun denom hdenom denom' hdenom' heq => ?_
        refine hkept denom' hdenom' pindex hmem ?_
        rw [if_neg hlisted, ← heq]
        exact List.mem_map_of_mem hdenom
    · intro hspared denom' hdenom' pindex hmem herased
      rcases hspared pindex hmem with hlisted | hne
      · simp [hlisted] at herased
      · split at herased
        · simp at herased
        · obtain ⟨denom, hdenom, heq⟩ := List.mem_map.mp herased
          exact hne denom hdenom denom' hdenom' heq

theorem accumulator_checkpoints_loadable_iff {V : Set Int} {s s' : CheckpointState}
    (hinj : Set.InjOn ctx.getChecksum V) (hloadable : ctx.Loadable s)
    (hvalues : ∀ nChecksum bnValue, s.table.zerocoinDB nChecksum = some bnValue → bnValue ∈ V)
    (hgrown : ctx.Grown V s) (hrun : Relation.ReflTransGen (ctx.Step V) s s') :
    ctx.Loadable s' ∧
      (∀ before pprev pindex, s'.chainActive = before ++ [pprev, pindex] →
        ctx.zerocoinLastOldParams + 21 < before.length + 1 →
          (ctx.Loadable ⟨before ++ [pprev], s'.disconnectBlock false pindex pprev⟩ ↔
            ctx.BaseUnshared s')) ∧
      ∀ nStartHeight nEndHeight table ok pprev,
        s'.eraseCheckpoints nStartHeight nEndHeight = some (table, ok) →
          s'.blockAt (nStartHeight - 1) = some pprev →
            ((pprev.nAccumulatorCheckpoint ≠ 0 →
                table.Loads ctx.getChecksum pprev.nAccumulatorCheckpoint) ↔
              Spared s' nStartHeight nEndHeight pprev) := by
  have hkept := (kept_start hinj hloadable hvalues hgrown).run hinj hrun
  refine ⟨hkept.loadable, fun _ _ _ hchain hheight => hkept.disconnect_iff hchain hheight, ?_⟩
  intro nStartHeight nEndHeight table ok pprev h hpprev
  refine eraseCheckpoints_spares_iff h hpprev fun hnonzero => hkept.loadable pprev ?_ hnonzero
  rw [blockAt] at hpprev
  split at hpprev
  · exact List.mem_of_getElem? hpprev
  · simp at hpprev

-- A chain in which one coin was minted, ten blocks before the first checkpoint.
def mintedParams : ZerocoinParams := ⟨3, fun bnValue coin => bnValue * coin % 1000003⟩

def mintedContext : AccumulatorContext where
  zerocoinStartHeight := 1
  zerocoinLastOldParams := 0
  oldZerocoinParams := mintedParams
  zerocoinParams := mintedParams
  mapCheckpoints := []
  getChecksum := BitVec.ofInt 32
  shutdownRequested := fun _ => false

def mintedChain : CheckpointState where
  chainActive := List.replicate 15 ⟨0, some []⟩ ++ ⟨0, some [⟨7, .ZQ_ONE⟩]⟩ ::
    List.replicate 14 ⟨0, some []⟩
  table := ⟨fun _ => none, fun _ => none⟩

def mintedCheckpoint : UInt256 :=
  Packing.pack 256 ((21 : BitVec 32) :: List.replicate 7 3)

def withCheckpoint (s : CheckpointState) : CheckpointState where
  chainActive := s.chainActive ++ [⟨mintedCheckpoint, some []⟩]
  table := ((mintedContext.connectBlock false s s.chainActive.length
    ⟨mintedCheckpoint, some []⟩).map Prod.snd).getD s.table

theorem step_withCheckpoint {s : CheckpointState} (before : List CheckpointBlock)
    (pprev : CheckpointBlock) (hchain : s.chainActive = before ++ [pprev])
    (hheight : 21 < s.chainActive.length)
    (hvalues : ∃ values, (mintedContext.connectBlock false s s.chainActive.length
      ⟨mintedCheckpoint, some []⟩).map (fun r => zerocoinDenomList.map r.1.value) = some values ∧
        ∀ bnValue ∈ values, bnValue = 3 ∨ bnValue = 21)
    (hzero : (s.chainActive.length : Int) % 10 = 0 →
      ∀ block ∈ s.chainActive, block.nAccumulatorCheckpoint = 0) :
    mintedContext.Step {3, 21} s (withCheckpoint s) := by
  obtain ⟨values, hmap, hall⟩ := hvalues
  obtain ⟨⟨m, table⟩, hconnect, rfl⟩ := Option.map_eq_some_iff.mp hmap
  have hnext : withCheckpoint s = ⟨s.chainActive ++ [⟨mintedCheckpoint, some []⟩], table⟩ := by
    simp only [withCheckpoint, hconnect, Option.map_some, Option.getD_some]
  rw [hnext]
  refine .connect hchain ?_ hconnect ?_ ?_
  · show (0 : Int) + 21 < s.chainActive.length
    omega
  · exact fun denom hdenom => hall _ (List.mem_map_of_mem hdenom)
  · intro hten denom _
    exact .inr fun block hblock hnonzero => absurd (hzero hten block hblock) hnonzero

def mintedTip : CheckpointState := withCheckpoint (withCheckpoint mintedChain)

theorem mintedTip_reached :
    Relation.ReflTransGen (mintedContext.Step {3, 21}) mintedChain mintedTip := by
  have hfirst : mintedContext.Step {3, 21} mintedChain (withCheckpoint mintedChain) :=
    step_withCheckpoint mintedChain.chainActive.dropLast ⟨0, some []⟩ (by decide +kernel)
      (by decide +kernel) ⟨_, rfl, by decide +kernel⟩ (by decide +kernel)
  exact .tail (.single hfirst) (step_withCheckpoint mintedChain.chainActive
    ⟨mintedCheckpoint, some []⟩ rfl (by decide +kernel) ⟨_, rfl, by decide +kernel⟩
      (by decide +kernel))

theorem mintedChain_zero : ∀ block ∈ mintedChain.chainActive, block.nAccumulatorCheckpoint = 0 := by
  decide +kernel

theorem mintedChain_loadable : mintedContext.Loadable mintedChain :=
  fun block hblock hnonzero => absurd (mintedChain_zero block hblock) hnonzero

theorem mintedChain_grown : mintedContext.Grown {3, 21} mintedChain := by
  intro before pprev pindex after hsplit _
  refine .inl ?_
  rw [mintedChain_zero pindex (by rw [hsplit]; simp), mintedChain_zero pprev (by rw [hsplit]; simp)]

-- The block that is erased has the checkpoint of the one before it.
theorem erased_checkpoint_unloadable : mintedContext.Loadable mintedChain ∧
    Relation.ReflTransGen (mintedContext.Step {3, 21}) mintedChain mintedTip ∧
      ∃ table pprev, mintedTip.eraseCheckpoints 31 31 = some (table, true) ∧
        mintedTip.blockAt 30 = some pprev ∧ pprev.nAccumulatorCheckpoint ≠ 0 ∧
          ¬ table.Loads mintedContext.getChecksum pprev.nAccumulatorCheckpoint := by
  have herase : (mintedTip.eraseCheckpoints 31 31).map (fun r => (r.2, r.1.zerocoinDB 21)) =
      some (true, none) := by
    decide +kernel
  obtain ⟨⟨table, ok⟩, hcall, hresult⟩ := Option.map_eq_some_iff.mp herase
  obtain ⟨rfl, hgone⟩ := Prod.mk.inj hresult
  refine ⟨mintedChain_loadable, mintedTip_reached, table, ⟨mintedCheckpoint, some []⟩, hcall,
    by decide +kernel, by decide +kernel, fun hloads => ?_⟩
  have hsome : (table.zerocoinDB (parseChecksum mintedCheckpoint .ZQ_ONE)).isSome :=
    hloads.1 .ZQ_ONE (by decide)
  have hkey : parseChecksum mintedCheckpoint .ZQ_ONE = 21 := by decide +kernel
  have hnone : table.zerocoinDB 21 = none := hgone
  rw [hkey, hnone] at hsome
  exact absurd hsome (by decide)

theorem minted_checkpoint_loadable : mintedContext.Loadable mintedTip ∧
    ∀ nStartHeight nEndHeight table ok pprev,
      mintedTip.eraseCheckpoints nStartHeight nEndHeight = some (table, ok) →
        mintedTip.blockAt (nStartHeight - 1) = some pprev →
          ((pprev.nAccumulatorCheckpoint ≠ 0 →
              table.Loads mintedContext.getChecksum pprev.nAccumulatorCheckpoint) ↔
            Spared mintedTip nStartHeight nEndHeight pprev) := by
  have hinj : Set.InjOn mintedContext.getChecksum {3, 21} := by
    rintro a (rfl | rfl) b (rfl | rfl) h
    · rfl
    · exact absurd h (by decide)
    · exact absurd h (by decide)
    · rfl
  have h := accumulator_checkpoints_loadable_iff hinj mintedChain_loadable
    (fun _ _ hread => absurd hread (by simp [mintedChain])) mintedChain_grown mintedTip_reached
  exact ⟨h.1, h.2.2⟩

end AccumulatorContext

end AnkerNode
