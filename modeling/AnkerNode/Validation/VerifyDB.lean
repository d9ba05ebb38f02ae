import AnkerNode.Validation.StakeIndex

namespace AnkerNode

open Checks

structure VerifyEnv where
  mempool : UInt256 → Bool
  connect : ConnectContext
  disconnect : DisconnectContext
  getBlockValue : Int → Int
  readBlockFromDisk : UInt256 → Bool
  checkBlock : CBlock → Except Failure Unit
  undoFile : UInt256 → Option (List UInt8)
  cacheFits : Nat → Bool
  shutdownRequested : Nat → Bool

-- A block and its parent; undone holds the blocks disconnected so far, the deepest one first.
structure VerifyState where
  stores : ChainState
  coins : CCoinsView
  undone : List (ActiveBlock × ActiveBlock) := []
  atState : Bool := true
  fFailure : Bool := false

namespace ChainState

variable (net : Network) (env : VerifyEnv)

def checkUndo (a b : ActiveBlock) : Except Failure Unit :=
  match env.undoFile a.block.hash with
  | none => .ok ()
  | some file => failIf (((CBlockUndo.readFromDisk env.disconnect.ops env.disconnect.hasher
      b.block.hash).run file).isNone) (Failure.rejected {})

def undoBlock (a b : ActiveBlock) (st : VerifyState) : Except Failure VerifyState := do
  let d ← { env.disconnect with lib := net.lib : DisconnectContext }.disconnectBlock a.block
    (blockIndex (some b) a.block a.nHeight) (prevIndex b) (env.undoFile a.block.hash) st.coins
    st.stores.zerocoinDB
  .ok { st with
    stores := { st.stores with
      zerocoinDB := d.zerocoinDB
      mapStakeSpent := st.stores.mapStakeSpent.disconnect a.block }
    coins := d.view
    undone := (a, b) :: st.undone
    fFailure := st.fFailure || !d.fClean }

def visitBlock (nCheckLevel : Int) (n : Nat) (a b : ActiveBlock) (st : VerifyState) :
    Except Failure VerifyState := do
  failIf (!env.readBlockFromDisk a.block.hash) (Failure.rejected {})
  onlyIf (decide (1 ≤ nCheckLevel)) (env.checkBlock a.block)
  onlyIf (decide (2 ≤ nCheckLevel)) (checkUndo env a b)
  if decide (3 ≤ nCheckLevel) && st.atState && env.cacheFits n then undoBlock net env a b st
  else .ok { st with atState := false }

def walkBack (nCheckLevel bound : Int) :
    Nat → List ActiveBlock → VerifyState → Except Failure (VerifyState × Bool)
  | n, a :: b :: chain, st =>
    if a.nHeight < bound then .ok (st, false)
    else do
      let st ← visitBlock net env nCheckLevel n a b st
      if env.shutdownRequested n then .ok (st, true)
      else walkBack nCheckLevel bound (n + 1) (b :: chain) st
  | _, _, st => .ok (st, false)

def reconnect : List (ActiveBlock × ActiveBlock) → ChainState → CCoinsView →
    Except Failure ChainState
  | [], s, _ => .ok s
  | (a, b) :: undone, s, coins => do
    failIf (!env.readBlockFromDisk a.block.hash) (Failure.rejected {})
    let (s, r) ← s.connectBlock net env.mempool
      { env.connect with fAlreadyChecked := false, checkBlock := env.checkBlock } env.getBlockValue
      (some b) a.block a.nHeight coins
    reconnect undone s r.view

def checkBound (nCheckDepth : Int) (s : ChainState) : Int :=
  s.height - min (if nCheckDepth ≤ 0 then 1000000000 else nCheckDepth) s.height

def checkLevel (nCheckLevel : Int) : Int := max 0 (min 4 nCheckLevel)

-- the tables after the call, whose own cache over coinsview is dropped
def verifyDB (coinsview : CCoinsView) (nCheckLevel nCheckDepth : Int) (s : ChainState) :
    Except Failure ChainState :=
  match s.chain with
  | _ :: _ :: _ => do
    let (st, stopped) ← walkBack net env (checkLevel nCheckLevel) (checkBound nCheckDepth s) 0
      s.chain { stores := s, coins := coinsview }
    if stopped then .ok st.stores
    else do
      failIf st.fFailure (Failure.rejected {})
      if 4 ≤ checkLevel nCheckLevel then reconnect net env st.undone st.stores st.coins
      else .ok st.stores
  | _ => .ok s

variable {net : Network} {env : VerifyEnv}

def blockTxs (blocks : List ActiveBlock) : List CTransaction := blocks.flatMap fun a => a.block.vtx

def blockInputs (blocks : List ActiveBlock) : List COutPoint :=
  blocks.flatMap fun a => a.block.ordinaryInputs

def forget (lib : ZerocoinLib) (blocks : List ActiveBlock) (s : ChainState) : ChainState :=
  { s with
    zerocoinDB :=
      { spends := fun k => if k ∈ spendKeys lib (blockTxs blocks) then none else s.zerocoinDB.spends k
        mints := fun k => if k ∈ mintKeys lib (blockTxs blocks) then none else s.zerocoinDB.mints k }
    mapStakeSpent := fun o => if o ∈ blockInputs blocks then none else s.mapStakeSpent o }

theorem forget_nil (lib : ZerocoinLib) (s : ChainState) : s.forget lib [] = s := by
  simp [forget, blockTxs, blockInputs, spendKeys, mintKeys]

theorem spendKeys_append (lib : ZerocoinLib) (vtx vtx' : List CTransaction) :
    spendKeys lib (vtx ++ vtx') = spendKeys lib vtx ++ spendKeys lib vtx' := by
  simp [spendKeys]

theorem mintKeys_append (lib : ZerocoinLib) (vtx vtx' : List CTransaction) :
    mintKeys lib (vtx ++ vtx') = mintKeys lib vtx ++ mintKeys lib vtx' := by
  simp [mintKeys]

theorem forget_forget (lib : ZerocoinLib) (blocks blocks' : List ActiveBlock) (s : ChainState) :
    (s.forget lib blocks).forget lib blocks' = s.forget lib (blocks ++ blocks') := by
  simp only [forget, blockTxs, blockInputs, List.flatMap_append, spendKeys_append, mintKeys_append,
    List.mem_append, ChainState.mk.injEq, ZerocoinDB.mk.injEq, true_and]
  refine ⟨⟨?_, ?_⟩, ?_, trivial⟩
  · funext k
    exact Table.forget_forget _
  · funext k
    exact Table.forget_forget _
  · funext o
    exact Table.forget_forget _

theorem undoBlock_eq_ok {a b : ActiveBlock} {st st' : VerifyState}
    (h : undoBlock net env a b st = .ok st') :
    st'.stores = st.stores.forget net.lib [a] ∧ st'.undone = (a, b) :: st.undone ∧
      st'.atState = st.atState := by
  simp only [undoBlock, bind_eq_ok, Except.ok.injEq] at h
  obtain ⟨d, hd, rfl⟩ := h
  refine ⟨?_, rfl, rfl⟩
  have hdb := DisconnectContext.undoZerocoinTxs_forgets
    (DisconnectContext.zerocoinDB_of_disconnectBlock hd)
  simp only [forget, blockTxs, blockInputs, List.flatMap_cons, List.flatMap_nil, List.append_nil,
    ChainState.mk.injEq, true_and, and_true]
  refine ⟨hdb, ?_⟩
  funext o
  rw [StakeIndex.disconnect, StakeIndex.foldl_erase]
  simp only [List.mem_reverse]

-- how far the walk disconnects: down to the bound, until the cache is full or the node shuts down
def undonePairs (env : VerifyEnv) (bound : Int) : Nat → List ActiveBlock →
    List (ActiveBlock × ActiveBlock)
  | n, a :: b :: chain =>
    if a.nHeight < bound ∨ env.cacheFits n = false then []
    else (a, b) :: if env.shutdownRequested n then [] else undonePairs env bound (n + 1) (b :: chain)
  | _, _ => []

def interrupted (env : VerifyEnv) (bound : Int) : Nat → List ActiveBlock → Bool
  | n, a :: b :: chain =>
    decide (bound ≤ a.nHeight) && (env.shutdownRequested n || interrupted env bound (n + 1) (b :: chain))
  | _, _ => false

theorem visitBlock_eq_ok {nCheckLevel : Int} {n : Nat} {a b : ActiveBlock} {st st' : VerifyState}
    (h : visitBlock net env nCheckLevel n a b st = .ok st') :
    if 3 ≤ nCheckLevel ∧ st.atState = true ∧ env.cacheFits n = true then
      undoBlock net env a b st = .ok st'
    else st' = { st with atState := false } := by
  simp only [visitBlock, bind_eq_ok] at h
  obtain ⟨-, -, -, -, -, -, h⟩ := h
  split at h
  · rename_i hcond
    simp only [Bool.and_eq_true, decide_eq_true_eq, and_assoc] at hcond
    rwa [if_pos hcond]
  · rename_i hcond
    simp only [Bool.and_eq_true, decide_eq_true_eq, and_assoc] at hcond
    rw [if_neg hcond]
    exact (Except.ok.inj h).symm

theorem walkBack_stays {nCheckLevel bound : Int} {chain : List ActiveBlock} {n : Nat}
    {st st' : VerifyState} {stopped : Bool} (hst : nCheckLevel < 3 ∨ st.atState = false)
    (h : walkBack net env nCheckLevel bound n chain st = .ok (st', stopped)) :
    st'.stores = st.stores ∧ st'.undone = st.undone ∧ stopped = interrupted env bound n chain := by
  fun_induction interrupted env bound n chain generalizing st with
  | case1 n a b chain ih =>
    rw [walkBack] at h
    split at h
    · rename_i hlt
      simp only [Except.ok.injEq, Prod.mk.injEq] at h
      obtain ⟨rfl, rfl⟩ := h
      simp [Int.not_le.mpr hlt]
    · rename_i hle
      simp only [bind_eq_ok] at h
      obtain ⟨mid, hmid, h⟩ := h
      have hvisit := visitBlock_eq_ok hmid
      have hno : ¬ (3 ≤ nCheckLevel ∧ st.atState = true ∧ env.cacheFits n = true) := by
        rintro ⟨h3, hat, -⟩
        rcases hst with hst | hst
        · omega
        · simp [hst] at hat
      rw [if_neg hno] at hvisit
      subst hvisit
      simp only [Int.not_lt.mp hle, decide_true, Bool.true_and]
      split at h
      · rename_i hstop
        simp only [Except.ok.injEq, Prod.mk.injEq] at h
        obtain ⟨rfl, rfl⟩ := h
        simp [hstop]
      · rename_i hstop
        obtain ⟨hs, hu, hi⟩ := ih (.inr rfl) h
        exact ⟨hs, hu, by simp [hstop, hi]⟩
  | case2 n chain hshape =>
    rw [walkBack] at h
    · simp only [Except.ok.injEq, Prod.mk.injEq] at h
      obtain ⟨rfl, rfl⟩ := h
      exact ⟨rfl, rfl, rfl⟩
    · exact hshape

theorem walkBack_undoes {nCheckLevel bound : Int} {chain : List ActiveBlock} {n : Nat}
    {st st' : VerifyState} {stopped : Bool} (hlevel : 3 ≤ nCheckLevel) (hst : st.atState = true)
    (h : walkBack net env nCheckLevel bound n chain st = .ok (st', stopped)) :
    st'.stores = st.stores.forget net.lib ((undonePairs env bound n chain).map Prod.fst) ∧
      st'.undone = (undonePairs env bound n chain).reverse ++ st.undone ∧
      stopped = interrupted env bound n chain := by
  fun_induction interrupted env bound n chain generalizing st with
  | case1 n a b chain ih =>
    rw [walkBack] at h
    rw [undonePairs]
    split at h
    · rename_i hlt
      simp only [Except.ok.injEq, Prod.mk.injEq] at h
      obtain ⟨rfl, rfl⟩ := h
      simp [hlt, Int.not_le.mpr hlt, forget_nil]
    · rename_i hle
      simp only [bind_eq_ok] at h
      obtain ⟨mid, hmid, h⟩ := h
      have hvisit := visitBlock_eq_ok hmid
      cases hfits : env.cacheFits n with
      | false =>
        simp only [hlevel, hst, hfits, Bool.false_eq_true, and_false, if_false] at hvisit
        subst hvisit
        simp only [or_true, if_true, List.map_nil, List.reverse_nil, List.nil_append, forget_nil,
          Int.not_lt.mp hle, decide_true, Bool.true_and]
        split at h
        · rename_i hstop
          simp only [Except.ok.injEq, Prod.mk.injEq] at h
          obtain ⟨rfl, rfl⟩ := h
          simp [hstop]
        · rename_i hstop
          obtain ⟨hs, hu, hi⟩ := walkBack_stays (.inr rfl) h
          exact ⟨hs, hu, by simp [hstop, hi]⟩
      | true =>
        simp only [hlevel, hst, hfits, and_self, if_true] at hvisit
        obtain ⟨hs, hu, hat⟩ := undoBlock_eq_ok hvisit
        simp only [hle, Bool.true_eq_false, or_self, if_false, Int.not_lt.mp hle, decide_true,
          Bool.true_and]
        split at h
        · rename_i hstop
          simp only [Except.ok.injEq, Prod.mk.injEq] at h
          obtain ⟨rfl, rfl⟩ := h
          simp only [hstop, if_true, List.map_cons, List.map_nil, List.reverse_cons, List.reverse_nil,
            List.nil_append, List.singleton_append, Bool.true_or]
          exact ⟨hs, hu, trivial⟩
        · rename_i hstop
          obtain ⟨hs', hu', hi⟩ := ih (hat.trans hst) h
          simp only [hstop, Bool.false_eq_true, if_false, List.map_cons, List.reverse_cons,
            List.append_assoc, List.singleton_append, Bool.false_or]
          refine ⟨?_, ?_, hi⟩
          · rw [hs', hs, forget_forget]
            rfl
          · rw [hu', hu]
  | case2 n chain hshape =>
    rw [walkBack] at h
    · simp only [Except.ok.injEq, Prod.mk.injEq] at h
      obtain ⟨rfl, rfl⟩ := h
      rw [undonePairs]
      · simp [forget_nil]
      · exact hshape
    · exact hshape

def stakeEntry (params : ChainParams) (o : COutPoint) (blocks : List ActiveBlock)
    (entry : Option Int) : Option Int :=
  blocks.foldl (fun entry a =>
    (if o ∈ a.block.ordinaryInputs then entry.orElse (fun _ => some a.nHeight) else entry).filter
      fun h => decide (a.nHeight - params.nMaxReorganizationDepth ≤ h)) entry

structure Reconnects (net : Network) (blocks : List ActiveBlock) (s s' : ChainState) : Prop where
  spends : s'.zerocoinDB.spends = Table.writeAll Prod.fst (fun p => some p.2) s.zerocoinDB.spends
    (spendRecords net.lib (blockTxs blocks))
  mints : s'.zerocoinDB.mints = Table.writeAll Prod.fst (fun p => some p.2) s.zerocoinDB.mints
    (mintRecords net.lib (blockTxs blocks))
  stake : ∀ o, s'.mapStakeSpent o = stakeEntry net.params o blocks (s.mapStakeSpent o)

theorem reconnect_eq_ok {pairs : List (ActiveBlock × ActiveBlock)} {s s' : ChainState}
    {coins : CCoinsView} (hgenesis : ∀ p ∈ pairs, p.1.block.hash ≠ net.params.hashGenesisBlock)
    (h : reconnect net env pairs s coins = .ok s') :
    Reconnects net (pairs.map Prod.fst) s s' := by
  induction pairs generalizing s coins with
  | nil =>
    obtain rfl := Except.ok.inj h
    exact ⟨rfl, rfl, fun _ => rfl⟩
  | cons p pairs ih =>
    obtain ⟨a, b⟩ := p
    simp only [reconnect, bind_eq_ok] at h
    obtain ⟨-, -, ⟨mid, r⟩, hmid, hrest⟩ := h
    have hne : a.block.hash ≠ net.params.hashGenesisBlock := hgenesis (a, b) (by simp)
    obtain ⟨hr, ⟨heq, -⟩ | ⟨-, -, -, rfl⟩⟩ := connectBlock_cases hmid
    · exact absurd heq hne
    · have hdb := ConnectContext.zerocoinDB_of_connectBlock rfl hne hr
      obtain ⟨hs, hm, hstake⟩ := ih (fun q hq => hgenesis q (by simp [hq])) hrest
      refine ⟨?_, ?_, ?_⟩
      · rw [hs]
        change Table.writeAll _ _ r.zerocoinDB.spends _ = _
        rw [hdb]
        simp only [context, List.map_cons, blockTxs, List.flatMap_cons, spendRecords,
          List.flatMap_append, Table.writeAll_append]
      · rw [hm]
        change Table.writeAll _ _ r.zerocoinDB.mints _ = _
        rw [hdb]
        simp only [context, List.map_cons, blockTxs, List.flatMap_cons, mintRecords,
          List.flatMap_append, Table.writeAll_append]
      · intro o
        rw [hstake]
        change stakeEntry _ _ _ (StakeIndex.connect net.params s.mapStakeSpent a.block a.nHeight o) = _
        rw [StakeIndex.connect_apply]
        rfl

def Unrecorded (net : Network) (s : ChainState) (blocks : List ActiveBlock) : Prop :=
  (∀ k ∈ spendKeys net.lib (blockTxs blocks), s.zerocoinDB.spends k = none) ∧
    (∀ k ∈ mintKeys net.lib (blockTxs blocks), s.zerocoinDB.mints k = none) ∧
    ∀ o ∈ blockInputs blocks, s.mapStakeSpent o = none

-- each serial and each mint of the blocks is recorded under the last of their transactions that
-- has it, and mapStakeSpent has the heights of the blocks and nothing that is out of the window
def RecordedLast (net : Network) (s : ChainState) (blocks : List ActiveBlock) : Prop :=
  (∀ k ∈ spendKeys net.lib (blockTxs blocks), s.zerocoinDB.spends k =
    (Table.lastWrite Prod.fst (spendRecords net.lib (blockTxs blocks)) k).map Prod.snd) ∧
    (∀ k ∈ mintKeys net.lib (blockTxs blocks), s.zerocoinDB.mints k =
      (Table.lastWrite Prod.fst (mintRecords net.lib (blockTxs blocks)) k).map Prod.snd) ∧
    ∀ o, s.mapStakeSpent o = stakeEntry net.params o blocks
      (if o ∈ blockInputs blocks then none else s.mapStakeSpent o)

theorem forget_eq_iff (s : ChainState) (blocks : List ActiveBlock) :
    ((s.forget net.lib blocks).zerocoinDB = s.zerocoinDB ∧
      (s.forget net.lib blocks).mapStakeSpent = s.mapStakeSpent) ↔ Unrecorded net s blocks := by
  cases hdb : s.zerocoinDB with
  | mk spends mints =>
    simp only [forget, hdb, ZerocoinDB.mk.injEq, Table.forget_eq_iff, Unrecorded, and_assoc]

theorem forget_reverse (lib : ZerocoinLib) (blocks : List ActiveBlock) (s : ChainState) :
    s.forget lib blocks.reverse = s.forget lib blocks := by
  have hspends : ∀ k, k ∈ spendKeys lib (blockTxs blocks.reverse) ↔
      k ∈ spendKeys lib (blockTxs blocks) := by
    intro k
    simp only [spendKeys, blockTxs, List.mem_flatMap, List.mem_reverse]
  have hmints : ∀ k, k ∈ mintKeys lib (blockTxs blocks.reverse) ↔
      k ∈ mintKeys lib (blockTxs blocks) := by
    intro k
    simp only [mintKeys, blockTxs, List.mem_flatMap, List.mem_reverse]
  have hinputs : ∀ o, o ∈ blockInputs blocks.reverse ↔ o ∈ blockInputs blocks := by
    intro o
    simp only [blockInputs, List.mem_flatMap, List.mem_reverse]
  simp only [forget, hspends, hmints, hinputs]

theorem reconnects_eq_iff {blocks : List ActiveBlock} {s s' : ChainState}
    (h : Reconnects net blocks (s.forget net.lib blocks) s') :
    (s'.zerocoinDB = s.zerocoinDB ∧ s'.mapStakeSpent = s.mapStakeSpent) ↔
      RecordedLast net s blocks := by
  have hspends := h.spends
  have hmints := h.mints
  cases hdb : s.zerocoinDB with
  | mk spends mints =>
    cases hdb' : s'.zerocoinDB with
    | mk spends' mints' =>
      simp only [forget, hdb, hdb', ← map_fst_spendRecords, ← map_fst_mintRecords] at hspends hmints
      simp only [hspends, hmints, ZerocoinDB.mk.injEq, Table.rewrite_eq_iff, RecordedLast, hdb,
        ← map_fst_spendRecords, ← map_fst_mintRecords, and_assoc]
      refine and_congr_right (fun _ => and_congr_right (fun _ => ?_))
      rw [funext_iff]
      refine forall_congr' (fun o => ?_)
      rw [h.stake o, eq_comm]
      rfl

theorem mem_dropLast_of_mem_undonePairs {bound : Int} {n : Nat} {chain : List ActiveBlock}
    {p : ActiveBlock × ActiveBlock} (h : p ∈ undonePairs env bound n chain) :
    p.1 ∈ chain.dropLast := by
  fun_induction undonePairs env bound n chain with
  | case1 => simp at h
  | case2 n a b chain _ ih =>
    rw [List.dropLast_cons_cons]
    rcases List.mem_cons.mp h with rfl | h
    · simp
    · split at h
      · simp at h
      · exact List.mem_cons_of_mem a (ih h)
  | case3 => simp at h

def undoneBlocks (env : VerifyEnv) (nCheckDepth : Int) (s : ChainState) : List ActiveBlock :=
  ((undonePairs env (checkBound nCheckDepth s) 0 s.chain).map Prod.fst).reverse

def Untouched (net : Network) (env : VerifyEnv) (nCheckLevel nCheckDepth : Int) (s : ChainState) :
    Prop :=
  if nCheckLevel < 3 then True
  else if 4 ≤ nCheckLevel ∧ interrupted env (checkBound nCheckDepth s) 0 s.chain = false then
    RecordedLast net s (undoneBlocks env nCheckDepth s)
  else Unrecorded net s (undoneBlocks env nCheckDepth s)

theorem untouched_of_undoneBlocks_nil {nCheckLevel nCheckDepth : Int} {s : ChainState}
    (h : undoneBlocks env nCheckDepth s = []) : Untouched net env nCheckLevel nCheckDepth s := by
  rw [Untouched, h]
  split
  · trivial
  · split
    · refine ⟨by simp [blockTxs, spendKeys], by simp [blockTxs, mintKeys], ?_⟩
      intro o
      simp [blockInputs, stakeEntry]
    · exact ⟨by simp [blockTxs, spendKeys], by simp [blockTxs, mintKeys], by simp [blockInputs]⟩

theorem verifyDB_eq_ok {coinsview : CCoinsView} {nCheckLevel nCheckDepth : Int} {s s' : ChainState}
    (hgenesis : ∀ a ∈ s.chain.dropLast, a.block.hash ≠ net.params.hashGenesisBlock)
    (h : s.verifyDB net env coinsview nCheckLevel nCheckDepth = .ok s') :
    if nCheckLevel < 3 ∨ s.chain.length < 2 then s' = s
    else if 4 ≤ nCheckLevel ∧ interrupted env (checkBound nCheckDepth s) 0 s.chain = false then
      Reconnects net (undoneBlocks env nCheckDepth s)
        (s.forget net.lib (undoneBlocks env nCheckDepth s)) s'
    else s' = s.forget net.lib (undoneBlocks env nCheckDepth s) := by
  have hlevel3 : checkLevel nCheckLevel < 3 ↔ nCheckLevel < 3 := by
    rw [checkLevel]
    omega
  have hlevel4 : 4 ≤ checkLevel nCheckLevel ↔ 4 ≤ nCheckLevel := by
    rw [checkLevel]
    omega
  rw [verifyDB] at h
  split at h
  · rename_i x y rest hchain
    have hlength : ¬ s.chain.length < 2 := by simp [hchain]
    simp only [bind_eq_ok] at h
    obtain ⟨⟨st, stopped⟩, hwalk, h⟩ := h
    simp only [hlevel4] at h
    by_cases hlow : nCheckLevel < 3
    · rw [if_pos (.inl hlow)]
      obtain ⟨hs, -, -⟩ := walkBack_stays (.inl (hlevel3.mpr hlow)) hwalk
      split at h
      · rw [← Except.ok.inj h, hs]
      · rw [if_neg (by omega), bind_eq_ok] at h
        obtain ⟨-, -, h⟩ := h
        rw [← Except.ok.inj h, hs]
    · obtain ⟨hs, hu, rfl⟩ := walkBack_undoes (by omega) rfl hwalk
      rw [if_neg (by simp [hlow, hlength]), undoneBlocks, forget_reverse, ← hs]
      split at h
      · rename_i hstop
        rw [if_neg (by simp [hstop])]
        exact (Except.ok.inj h).symm
      · rename_i hstop
        simp only [bind_eq_ok] at h
        obtain ⟨-, -, h⟩ := h
        split at h
        · rename_i hfour
          rw [if_pos ⟨hfour, by simpa using hstop⟩]
          have hpairs : ∀ p ∈ st.undone, p.1.block.hash ≠ net.params.hashGenesisBlock := by
            intro p hp
            rw [hu, List.append_nil, List.mem_reverse] at hp
            exact hgenesis p.1 (mem_dropLast_of_mem_undonePairs hp)
          have hrec := reconnect_eq_ok hpairs h
          rw [hu, List.append_nil, List.map_reverse] at hrec
          exact hrec
        · rename_i hfour
          rw [if_neg (by simp [hfour])]
          exact (Except.ok.inj h).symm
  · rename_i hshape
    have hlength : s.chain.length < 2 := by
      match hc : s.chain with
      | [] => simp
      | [_] => simp
      | x :: y :: rest => exact absurd hc (hshape x y rest)
    rw [if_pos (.inr hlength)]
    exact (Except.ok.inj h).symm

theorem undoneBlocks_of_short {nCheckDepth : Int} {s : ChainState} (h : s.chain.length < 2) :
    undoneBlocks env nCheckDepth s = [] := by
  rw [undoneBlocks]
  match hc : s.chain with
  | [] => rfl
  | [_] => rfl
  | x :: y :: rest =>
    simp only [hc, List.length_cons] at h
    omega

def verifyEnv (undo : CBlockUndo) : VerifyEnv where
  mempool := fun _ => false
  connect := { ConnectContext.plainConnect with fVerifyingBlocks := true }
  disconnect := DisconnectContext.plainDisconnect
  getBlockValue := fun _ => 0
  readBlockFromDisk := fun _ => true
  checkBlock := fun _ => .ok ()
  undoFile := fun _ => some (CBlockUndo.writeToDisk DisconnectContext.plainDisconnect.ops
    DisconnectContext.plainDisconnect.hasher undo 1)
  cacheFits := fun _ => true
  shutdownRequested := fun _ => false

def oneEmpty : ChainState where
  chain := [⟨emptyBlock 1, 1, 0⟩, ⟨genesisBlock, 0, 0⟩]
  view := ⟨fun _ => none, 2⟩

def stakeUndo : CBlockUndo := ⟨[⟨[]⟩, ⟨[⟨⟨COIN, [0x51]⟩, false, false, 1, 1⟩]⟩]⟩

end ChainState

end AnkerNode
