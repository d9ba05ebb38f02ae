import AnkerNode.Chain.IndexRun
import AnkerNode.Chain.LoadIndex
import Mathlib.Data.Finset.Erase
import Mathlib.Data.Finset.Insert
import Mathlib.Data.Finset.Lattice.Basic
import Mathlib.Logic.Relation

namespace AnkerNode

namespace BlockIndex

open RankedForest

-- What the node does to the index between two flushes, with the entries that it puts into
-- setDirtyBlockIndex.
inductive Op : BlockIndex → BlockIndex → Finset Nat → Prop
  | addToBlockIndex (s : BlockIndex) (block : BlockTree.Header)
      (hknown : s.tree.lookup block.hash ≠ none ∨ s.tree.lookup block.hashPrevBlock ≠ none)
      (hhash : block.hash ≠ 0) :
      Op s (s.addToBlockIndex block)
        (if (s.tree.lookup block.hash).isSome then ∅ else {s.tree.size})
  | receivedBlockTransactions (s : BlockIndex) (i nTx : Nat) (h : s.Receivable i nTx) :
      Op s (s.receivedBlockTransactions i nTx) {i}
  | connectTip (s : BlockIndex) (i t : Nat) (htip : s.tip = some t)
      (hp : s.tree.parent i = some t) (hok : s.unusable i = false) :
      Op s (s.connected i).pruneBlockIndexCandidates
        (if (s.status i).haveUndo && (s.status i).isValid BLOCK_VALID_SCRIPTS then ∅ else {i})
  | disconnectTip (s s' : BlockIndex) (h : s.disconnectTip = some s') : Op s s' ∅
  | invalidBlockFound (s : BlockIndex) (i : Nat) (hi : i < s.tree.size) :
      Op s (s.invalidBlockFound i) {i}
  -- FAILED_CHILD is set here and the entries are not put into the set
  | findMostWorkChain (s : BlockIndex) : Op s s.findMostWorkChain.1 ∅
  -- the three parts of InvalidateBlock
  | failBlock (s : BlockIndex) (i : Nat) (hi : i < s.tree.size) :
      Op s ((s.modifyStatus i fun st => { st with failedValid := true }).eraseCandidate i) {i}
  | failTip (s : BlockIndex) (pindex t : Nat) (htip : s.tip = some t)
      (hon : s.contains pindex = true) (hfailed : (s.status pindex).failedValid = true) :
      Op s ((s.modifyStatus t fun st => { st with failedChild := true }).eraseCandidate t) {t}
  | reinsertCandidates (s : BlockIndex) (pindex : Nat) :
      Op s (((List.range s.tree.size).foldl reinsertCandidate s).invalidChainFound pindex) ∅

-- what an entry has reached does not go back
structure Advances (st st' : BlockStatus) : Prop where
  nValid : st.nValid ≤ st'.nValid
  haveData : st.haveData = true → st'.haveData = true
  haveUndo : st.haveUndo = true → st'.haveUndo = true

structure Fades (st st' : BlockStatus) : Prop where
  eq : st' = { st with failedChild := st'.failedChild }
  failedChild : st.failedChild = true → st'.failedChild = true

structure Grows (s s' : BlockIndex) : Prop where
  size : s.tree.size ≤ s'.tree.size
  hash : ∀ k < s.tree.size, s'.tree.hash k = s.tree.hash k
  parent : ∀ k < s.tree.size, s'.tree.parent k = s.tree.parent k
  height : ∀ k < s.tree.size, s'.tree.height k = s.tree.height k
  nChainWork : ∀ k < s.tree.size, s'.tree.nChainWork k = s.tree.nChainWork k
  status : ∀ k < s.tree.size, Advances (s.status k) (s'.status k)

structure Marks (marked : Finset Nat) (s s' : BlockIndex) : Prop where
  grows : Grows s s'
  fresh : ∀ k < s'.tree.size, s.tree.size ≤ k → k ∈ marked
  lt : ∀ k ∈ marked, k < s'.tree.size
  clean : ∀ k < s.tree.size, k ∉ marked →
    (s'.info k).nTx = (s.info k).nTx ∧ Fades (s.status k) (s'.status k)

section Relations

variable {s s' s'' : BlockIndex} {st st' st'' : BlockStatus} {k i : Nat}

theorem Advances.refl (st : BlockStatus) : Advances st st := ⟨Nat.le_refl _, id, id⟩

theorem Advances.trans (h : Advances st st') (h' : Advances st' st'') : Advances st st'' :=
  ⟨h.nValid.trans h'.nValid, fun hd => h'.haveData (h.haveData hd),
    fun hu => h'.haveUndo (h.haveUndo hu)⟩

theorem Fades.refl (st : BlockStatus) : Fades st st := ⟨rfl, id⟩

theorem Fades.trans (h : Fades st st') (h' : Fades st' st'') : Fades st st'' where
  eq := by
    rw [h'.eq, h.eq]
  failedChild := fun hf => h'.failedChild (h.failedChild hf)

theorem Fades.advances (h : Fades st st') : Advances st st' := by
  rw [h.eq]
  exact ⟨Nat.le_refl _, id, id⟩

theorem Grows.refl (s : BlockIndex) : Grows s s :=
  ⟨Nat.le_refl _, fun _ _ => rfl, fun _ _ => rfl, fun _ _ => rfl, fun _ _ => rfl,
    fun _ _ => .refl _⟩

theorem Grows.trans (h : Grows s s') (h' : Grows s' s'') : Grows s s'' where
  size := h.size.trans h'.size
  hash := fun k hk => (h'.hash k (hk.trans_le h.size)).trans (h.hash k hk)
  parent := fun k hk => (h'.parent k (hk.trans_le h.size)).trans (h.parent k hk)
  height := fun k hk => (h'.height k (hk.trans_le h.size)).trans (h.height k hk)
  nChainWork := fun k hk => (h'.nChainWork k (hk.trans_le h.size)).trans (h.nChainWork k hk)
  status := fun k hk => (h.status k hk).trans (h'.status k (hk.trans_le h.size))

theorem Grows.of_tree (htree : s'.tree = s.tree)
    (hstatus : ∀ k, Advances (s.status k) (s'.status k)) : Grows s s' where
  size := by rw [htree]
  hash := fun k _ => by rw [htree]
  parent := fun k _ => by rw [htree]
  height := fun k _ => by rw [htree]
  nChainWork := fun k _ => by rw [htree]
  status := fun k _ => hstatus k

theorem Grows.branch (h : Grows s s') (hk : k < s.tree.size) :
    s'.tree.branch k = s.tree.branch k := by
  refine branch_congr fun a ha => ?_
  exact h.parent a (by omega)

theorem Grows.anchored (h : Grows s s') (ha : s.Anchored k) : s'.Anchored k where
  lt := ha.lt.trans_le h.size
  complete := by
    intro a hmem
    rw [h.branch ha.lt] at hmem
    exact (h.status a (mem_branch_lt hmem ha.lt)).haveData (ha.complete a hmem)
  connected := by
    intro a hmem ha0
    rw [h.branch ha.lt] at hmem
    have hstatus := h.status a (mem_branch_lt hmem ha.lt)
    obtain ⟨hvalid, hundo⟩ := ha.connected a hmem ha0
    exact ⟨hvalid.trans hstatus.nValid, hstatus.haveUndo hundo⟩

-- A record changes only in the number of transactions and the status.
theorem Grows.diskBlockIndex (h : Grows s s') (hk : k < s.tree.size) : s'.diskBlockIndex k =
    { s.diskBlockIndex k with nTx := (s'.info k).nTx, nStatus := s'.status k } := by
  simp only [BlockIndex.diskBlockIndex, h.hash k hk, h.parent k hk, h.height k hk,
    h.nChainWork k hk]
  cases hp : s.tree.parent k with
  | none => simp
  | some j =>
    have hj := parent_lt_size hp
    simp only [Option.elim_some, h.hash j hj, h.nChainWork j hj]

theorem Marks.records {marked : Finset Nat} {r : CDiskBlockIndex} (h : Marks marked s s')
    (hk : k ∉ marked) (hr : s.Records k r) : s'.Records k r := by
  obtain ⟨hnTx, hstatus⟩ := h.clean k hr.lt hk
  refine ⟨hr.lt.trans_le h.grows.size, ?_, fun hf => hstatus.failedChild (hr.failedChild hf)⟩
  rw [h.grows.diskBlockIndex hr.lt, hnTx, hr.eq, ← hr.nTx, hstatus.eq, hr.nStatus]

-- a step that changes the entries at most by marking them FAILED_CHILD
structure Fading (s s' : BlockIndex) : Prop where
  tree : s'.tree = s.tree
  nTx : ∀ k, (s'.info k).nTx = (s.info k).nTx
  status : ∀ k, Fades (s.status k) (s'.status k)

theorem Fading.refl (s : BlockIndex) : Fading s s := ⟨rfl, fun _ => rfl, fun _ => .refl _⟩

theorem Fading.trans (h : Fading s s') (h' : Fading s' s'') : Fading s s'' :=
  ⟨h'.tree.trans h.tree, fun k => (h'.nTx k).trans (h.nTx k),
    fun k => (h.status k).trans (h'.status k)⟩

theorem Fading.marks (h : Fading s s') : Marks ∅ s s' where
  grows := .of_tree h.tree fun k => (h.status k).advances
  fresh := fun k hk hge => absurd (h.tree ▸ hk) (Nat.not_lt.mpr hge)
  lt := by simp
  clean := fun k _ _ => ⟨h.nTx k, h.status k⟩

-- a step that changes one entry
theorem Marks.of_entry (htree : s'.tree = s.tree) (hi : i < s.tree.size)
    (hself : Advances (s.status i) (s'.status i)) (hother : ∀ k, k ≠ i →
      (s'.info k).nTx = (s.info k).nTx ∧ s'.status k = s.status k) : Marks {i} s s' := by
  refine ⟨.of_tree htree fun k => ?_, fun k hk hge => ?_, ?_, fun k _ hk => ?_⟩
  · by_cases hk : k = i
    · rw [hk]
      exact hself
    · rw [(hother k hk).2]
      exact .refl _
  · exact absurd (htree ▸ hk) (Nat.not_lt.mpr hge)
  · intro k hk
    rw [Finset.mem_singleton.mp hk, htree]
    exact hi
  · obtain ⟨hnTx, hstatus⟩ := hother k fun heq => hk (Finset.mem_singleton.mpr heq)
    rw [hstatus]
    exact ⟨hnTx, .refl _⟩

end Relations

section Ops

variable {s s' : BlockIndex} {t floor i nTx : Nat}

theorem nTx_modifyStatus (s : BlockIndex) (i k : Nat) (f : BlockStatus → BlockStatus) :
    ((s.modifyStatus i f).info k).nTx = (s.info k).nTx := by
  rw [info_modifyStatus]

theorem marks_addToBlockIndex (block : BlockTree.Header) : Marks
    (if (s.tree.lookup block.hash).isSome then ∅ else {s.tree.size}) s (s.addToBlockIndex block) := by
  cases hself : s.tree.lookup block.hash with
  | some j =>
    have heq : s.addToBlockIndex block = s := by rw [addToBlockIndex, hself]
    rw [heq]
    exact (Fading.refl s).marks
  | none =>
    have hsize : (s.addToBlockIndex block).tree.size = s.tree.size + 1 := by
      rw [addToBlockIndex, hself]
      rfl
    have hinfo : ∀ k < s.tree.size, (s.addToBlockIndex block).info k = s.info k := by
      intro k hk
      rw [addToBlockIndex, hself]
      exact Function.update_of_ne (Nat.ne_of_lt hk) ..
    have hstatus : ∀ k < s.tree.size, (s.addToBlockIndex block).status k = s.status k := by
      intro k hk
      rw [status, hinfo k hk]
      rfl
    have htree : ∃ prev hprev, (s.addToBlockIndex block).tree = s.tree.insert block prev hprev := by
      rw [addToBlockIndex, hself]
      exact ⟨_, _, rfl⟩
    obtain ⟨prev, hprev, htree⟩ := htree
    refine ⟨⟨by omega, ?_, ?_, ?_, ?_, fun k hk => ?_⟩, fun k hk hge => ?_, ?_, fun k hk _ => ?_⟩
    · rw [htree]
      exact fun k hk => Function.update_of_ne (Nat.ne_of_lt hk) ..
    · rw [htree]
      exact fun k hk => Function.update_of_ne (Nat.ne_of_lt hk) ..
    · rw [htree]
      exact fun k hk => Function.update_of_ne (Nat.ne_of_lt hk) ..
    · rw [htree]
      exact fun k hk => Function.update_of_ne (Nat.ne_of_lt hk) ..
    · rw [hstatus k hk]
      exact .refl _
    · simp only [Option.isSome_none, Bool.false_eq_true, if_false, Finset.mem_singleton]
      omega
    · simp [hsize]
    · rw [hinfo k hk, hstatus k hk]
      exact ⟨rfl, .refl _⟩

-- ReceivedBlockTransactions changes the statuses of no entries but its own.
theorem receivedBlockTransactions_frame (hs : s.Linked []) (hr : s.Receivable i nTx) :
    (s.receivedBlockTransactions i nTx).tree = s.tree ∧
      ∀ k, ((s.receivedBlockTransactions i nTx).info k).nTx = ((s.received i nTx).info k).nTx ∧
        (s.receivedBlockTransactions i nTx).status k = (s.received i nTx).status k := by
  cases hp : s.tree.parent i with
  | none =>
    have hzero := hr.nChainTx hs
    rw [hs.root i hr.lt hp] at hzero
    exact absurd hzero hs.genesis.2
  | some j =>
    rw [receivedBlockTransactions_eq hp]
    split
    · refine linking.run_invariant (fun _ s' => s'.tree = s.tree ∧
        ∀ k, (s'.info k).nTx = ((s.received i nTx).info k).nTx ∧
          s'.status k = (s.received i nTx).status k) ?_ [i] _ ⟨rfl, fun _ => ⟨rfl, rfl⟩⟩
      rintro k queue s' ⟨htree, hkeep⟩
      refine ⟨(tree_linkEntry s' k).trans htree, fun a => ⟨?_, ?_⟩⟩
      · exact (nTx_linkEntry k a).trans (hkeep a).1
      · exact (status_linkEntry k a).trans (hkeep a).2
    · split
      · exact ⟨rfl, fun _ => ⟨rfl, rfl⟩⟩
      · exact ⟨rfl, fun _ => ⟨rfl, rfl⟩⟩

theorem marks_receivedBlockTransactions (hs : s.Linked []) (hr : s.Receivable i nTx) :
    Marks {i} s (s.receivedBlockTransactions i nTx) := by
  obtain ⟨htree, hkeep⟩ := receivedBlockTransactions_frame hs hr
  refine .of_entry htree hr.lt ?_ fun k hk => ?_
  · rw [(hkeep i).2, hr.status_self hs]
    exact ⟨(hr.nValid hs).le, fun _ => rfl, id⟩
  · rw [(hkeep k).1, (hkeep k).2, info_received_of_ne hk, status_received_of_ne hk]
    exact ⟨rfl, rfl⟩

theorem marks_connected (hi : i < s.tree.size) (hok : (s.status i).failed = false) : Marks
    (if (s.status i).haveUndo && (s.status i).isValid BLOCK_VALID_SCRIPTS then ∅ else {i}) s
      (s.connected i).pruneBlockIndexCandidates := by
  have hself : (s.connected i).pruneBlockIndexCandidates.status i =
      { s.status i with haveUndo := true, nValid := max (s.status i).nValid BLOCK_VALID_SCRIPTS } :=
    status_connected_self hok
  have hother : ∀ k, k ≠ i → (s.connected i).pruneBlockIndexCandidates.status k = s.status k :=
    fun k hk => status_connected_of_ne hk
  have hnTx : ∀ k, ((s.connected i).pruneBlockIndexCandidates.info k).nTx = (s.info k).nTx := by
    intro k
    have hinfo : (s.connected i).pruneBlockIndexCandidates.info k = (s.connected i).info k := rfl
    rw [hinfo, info_connected]
  split
  · rename_i hdone
    simp only [Bool.and_eq_true, BlockStatus.isValid, decide_eq_true_eq] at hdone
    -- nothing changes for a block that has been connected before
    have hfading : Fading s (s.connected i).pruneBlockIndexCandidates := by
      refine ⟨rfl, hnTx, fun k => ?_⟩
      by_cases hk : k = i
      · rw [hk, hself, Nat.max_eq_left hdone.2.2, ← hdone.1]
        exact .refl _
      · rw [hother k hk]
        exact .refl _
    exact hfading.marks
  · refine .of_entry rfl hi ?_ fun k hk => ⟨hnTx k, hother k hk⟩
    rw [hself]
    exact ⟨Nat.le_max_left _ _, id, fun _ => rfl⟩

-- one entry is marked as failed, in one way or the other
theorem marks_failed (f : BlockStatus → BlockStatus) (hi : i < s.tree.size)
    (hf : ∀ st, (f st).nValid = st.nValid ∧ (f st).haveData = st.haveData ∧
      (f st).haveUndo = st.haveUndo) (htree : s'.tree = s.tree)
    (hinfo : s'.info = (s.modifyStatus i f).info) : Marks {i} s s' := by
  have hstatus : ∀ k, s'.status k = (s.modifyStatus i f).status k := fun k => by
    rw [status, hinfo]
    rfl
  refine .of_entry htree hi ?_ fun k hk => ⟨?_, ?_⟩
  · rw [hstatus, status_modifyStatus_self]
    obtain ⟨hvalid, hdata, hundo⟩ := hf (s.status i)
    exact ⟨hvalid.ge, fun h => hdata.trans h, fun h => hundo.trans h⟩
  · rw [hinfo]
    exact nTx_modifyStatus s i k f
  · rw [hstatus, status_modifyStatus_of_ne s f hk]

theorem fading_rejectAbove (pindexTest k : Nat) (s : BlockIndex) :
    Fading s (rejectAbove pindexTest s k) := by
  dsimp only [rejectAbove]
  split
  · refine ⟨rfl, fun a => ?_, fun a => ?_⟩
    · exact nTx_modifyStatus s k a fun st => { st with failedChild := true }
    · rw [status_eraseCandidate]
      by_cases ha : a = k
      · subst ha
        rw [status_modifyStatus_self]
        exact ⟨rfl, fun _ => rfl⟩
      · rw [status_modifyStatus_of_ne s _ ha]
        exact .refl _
  · exact ⟨rfl, fun _ => rfl, fun _ => .refl _⟩

theorem fading_foldl_rejectAbove (pindexTest : Nat) (ks : List Nat) (s : BlockIndex) :
    Fading s (ks.foldl (rejectAbove pindexTest) s) := by
  induction ks generalizing s with
  | nil => exact .refl s
  | cons k ks ih => exact (fading_rejectAbove pindexTest k s).trans (ih _)

theorem fading_eraseCandidate (s : BlockIndex) (i : Nat) : Fading s (s.eraseCandidate i) :=
  ⟨rfl, fun _ => rfl, fun _ => .refl _⟩

theorem fading_invalidChainFound (s : BlockIndex) (i : Nat) : Fading s (s.invalidChainFound i) :=
  ⟨rfl, fun _ => rfl, fun _ => .refl _⟩

theorem fading_rejectChain (s : BlockIndex) (pindexNew pindexTest : Nat) :
    Fading s (s.rejectChain pindexNew pindexTest) := by
  dsimp only [rejectChain]
  refine .trans (.trans ?_ (fading_foldl_rejectAbove pindexTest _ _)) (fading_eraseCandidate _ _)
  split
  · exact fading_invalidChainFound s pindexNew
  · exact .refl s

theorem fading_findMostWorkChainFrom (fuel : Nat) (s : BlockIndex) :
    Fading s (findMostWorkChainFrom fuel s).1 := by
  induction fuel generalizing s with
  | zero => exact .refl s
  | succ fuel ih =>
    rw [findMostWorkChainFrom]
    split
    · exact .refl s
    · split
      · exact .refl s
      · exact (fading_rejectChain s _ _).trans (ih _)

theorem Consistent.disconnected (h : s.Consistent t floor) (hd : s.disconnectTip = some s') :
    ∃ j ∈ s.tree.branch t, s' = s.setTip j := by
  rw [h.disconnectTip_eq, Option.map_eq_some_iff] at hd
  obtain ⟨j, hj, rfl⟩ := hd
  exact ⟨j, parent_mem_branch hj, rfl⟩

theorem Consistent.linked_of_tip (h : s.Consistent t floor) {t' : Nat} (htip : s.tip = some t')
    (hp : s.tree.parent i = some t') (hok : s.unusable i = false) :
    t = t' ∧ (s.status i).failed = false ∧ (s.info i).nChainTx ≠ 0 := by
  have htt : t = t' := Option.some.inj (h.active.tip_eq.symm.trans htip)
  subst htt
  simp only [unusable, Bool.or_eq_false_iff, Bool.not_eq_false'] at hok
  refine ⟨rfl, hok.1, ?_⟩
  have hlink := h.linked.link i (parent_size_lt hp) hok.2 fun j hj => by
    rw [← Option.some.inj (hp.symm.trans hj)]
    exact h.active.tip_linked
  exact hlink.resolve_right List.not_mem_nil

theorem Op.marks {marked : Finset Nat} (hop : Op s s' marked) (h : s.Consistent t floor) :
    Marks marked s s' := by
  cases hop with
  | addToBlockIndex block => exact marks_addToBlockIndex block
  | receivedBlockTransactions i nTx hr => exact marks_receivedBlockTransactions h.linked hr
  | connectTip i t' htip hp hok =>
    exact marks_connected (parent_size_lt hp) (h.linked_of_tip htip hp hok).2.1
  | disconnectTip _ hd =>
    obtain ⟨j, -, rfl⟩ := h.disconnected hd
    exact (Fading.mk rfl (fun _ => rfl) fun _ => .refl _ : Fading s (s.setTip j)).marks
  | invalidBlockFound i hi =>
    exact marks_failed (fun st => { st with failedValid := true }) hi (fun _ => ⟨rfl, rfl, rfl⟩)
      rfl rfl
  | findMostWorkChain => exact (fading_findMostWorkChainFrom _ s).marks
  | failBlock i hi =>
    exact marks_failed (fun st => { st with failedValid := true }) hi (fun _ => ⟨rfl, rfl, rfl⟩)
      rfl rfl
  | failTip pindex t' htip hon hfailed =>
    have htt : t = t' := Option.some.inj (h.active.tip_eq.symm.trans htip)
    exact marks_failed (fun st => { st with failedChild := true }) (htt ▸ h.active.tip_lt)
      (fun _ => ⟨rfl, rfl, rfl⟩) rfl rfl
  | reinsertCandidates pindex =>
    obtain ⟨cs, heq, -⟩ := foldl_reinsertCandidate (List.range s.tree.size) s
    rw [heq]
    exact (Fading.mk rfl (fun _ => rfl) fun _ => .refl _ :
      Fading s ({ s with setBlockIndexCandidates := cs }.invalidChainFound pindex)).marks

theorem Op.consistent {marked : Finset Nat} (hop : Op s s' marked) (h : s.Consistent t floor) :
    ∃ t' floor', s'.Consistent t' floor' := by
  cases hop with
  | addToBlockIndex block hknown => exact ⟨t, floor, h.addToBlockIndex block hknown⟩
  | receivedBlockTransactions i nTx hr => exact ⟨t, floor, h.receivedBlockTransactions hr⟩
  | connectTip i t' htip hp hok =>
    obtain ⟨rfl, hclear, hlinked⟩ := h.linked_of_tip htip hp hok
    exact ⟨i, _, h.connect hp hlinked hclear⟩
  | disconnectTip _ hd =>
    obtain ⟨j, hj, rfl⟩ := h.disconnected hd
    exact ⟨j, floor, h.rewind hj⟩
  | invalidBlockFound i => exact ⟨t, floor, (Taints.invalidBlockFound s i).consistent h⟩
  | findMostWorkChain => exact ⟨t, floor, (findMostWorkChainFrom_spec _ h).1.consistent h⟩
  | failBlock i => exact ⟨t, floor, (Taints.failValid s i).consistent h⟩
  | failTip pindex t' htip hon hfailed =>
    have htt : t = t' := Option.some.inj (h.active.tip_eq.symm.trans htip)
    refine ⟨t, floor, (Taints.failChild ?_).consistent h⟩
    intro hu
    have hclear := hu pindex (htt ▸ h.active.contains_iff.mp hon)
    rw [hfailed] at hclear
    cases hclear
  | reinsertCandidates pindex =>
    exact ⟨t, t, (Taints.invalidChainFound _ pindex).consistent h.reinserted⟩

theorem Grows.nProof (h : Grows s s') {k : Nat} (hk : k < s.tree.size) :
    (s'.diskBlockIndex k).nProof = (s.diskBlockIndex k).nProof := by
  rw [h.diskBlockIndex hk]

theorem Named.of_tree (h : s.Named) (htree : s'.tree = s.tree) : s'.Named := by
  have hproof : ∀ k, (s'.diskBlockIndex k).nProof = (s.diskBlockIndex k).nProof := fun k => by
    rw [BlockIndex.diskBlockIndex, BlockIndex.diskBlockIndex, htree]
  refine ⟨?_, ?_, fun i hi => ?_⟩
  · rw [htree]
    exact h.distinct
  · rw [htree]
    exact h.nonzero
  · rw [hproof]
    exact h.nProof i (htree ▸ hi)

theorem Named.addToBlockIndex (h : s.Named) {block : BlockTree.Header}
    (hknown : s.tree.lookup block.hash ≠ none ∨ s.tree.lookup block.hashPrevBlock ≠ none)
    (hhash : block.hash ≠ 0) : (s.addToBlockIndex block).Named := by
  have hgrows := (marks_addToBlockIndex (s := s) block).grows
  cases hself : s.tree.lookup block.hash with
  | some j =>
    have heq : s.addToBlockIndex block = s := by rw [BlockIndex.addToBlockIndex, hself]
    rwa [heq]
  | none =>
    obtain ⟨j, hprev⟩ := Option.ne_none_iff_exists'.mp (hknown.resolve_left fun hne => hne hself)
    have hj := BlockTree.lookup_lt hprev
    have htree : (s.addToBlockIndex block).tree = (s.inserted block j hj).tree := by
      simp only [BlockIndex.addToBlockIndex, hself, inserted, hprev]
    have hold : ∀ k < s.tree.size, (s.addToBlockIndex block).tree.hash k = s.tree.hash k :=
      hgrows.hash
    have hnew : (s.addToBlockIndex block).tree.hash s.tree.size = block.hash := by
      rw [htree]
      exact Function.update_self ..
    have hfresh : ∀ k < s.tree.size, s.tree.hash k ≠ block.hash := by
      intro k hk heq
      have hlookup := BlockTree.lookup_hash hk fun i hi => h.distinct i hi k hk
      rw [heq, hself] at hlookup
      cases hlookup
    have hsplit : ∀ k < (s.addToBlockIndex block).tree.size, k < s.tree.size ∨ k = s.tree.size := by
      intro k hk
      rw [htree] at hk
      exact lt_or_eq_of_inserted hk
    refine ⟨fun a ha b hb heq => ?_, fun a ha => ?_, fun a ha => ?_⟩
    · rcases hsplit a ha with ha | rfl
      · rcases hsplit b hb with hb | rfl
        · rw [hold a ha, hold b hb] at heq
          exact h.distinct a ha b hb heq
        · rw [hold a ha, hnew] at heq
          exact absurd heq (hfresh a ha)
      · rcases hsplit b hb with hb | rfl
        · rw [hold b hb, hnew] at heq
          exact absurd heq.symm (hfresh b hb)
        · rfl
    · rcases hsplit a ha with ha | rfl
      · rw [hold a ha]
        exact h.nonzero a ha
      · rw [hnew]
        exact hhash
    · rcases hsplit a ha with ha | rfl
      · rw [hgrows.nProof ha]
        exact h.nProof a ha
      · have hwork : (s.addToBlockIndex block).tree.nChainWork s.tree.size =
            s.tree.nChainWork j + block.nProof := by
          rw [htree]
          exact Function.update_self ..
        have hparent : (s.addToBlockIndex block).tree.parent s.tree.size = some j := by
          rw [htree]
          exact parent_inserted_self
        have hproof := block.nProof_pos
        simp only [BlockIndex.diskBlockIndex, hwork, hparent, Option.elim_some,
          hgrows.nChainWork j hj]
        omega

theorem Op.named {marked : Finset Nat} (hop : Op s s' marked) (h : s.Consistent t floor)
    (hn : s.Named) : s'.Named := by
  cases hop with
  | addToBlockIndex block hknown hhash => exact hn.addToBlockIndex hknown hhash
  | receivedBlockTransactions i nTx hr =>
    exact hn.of_tree (receivedBlockTransactions_frame h.linked hr).1
  | connectTip i t' htip hp hok => exact hn.of_tree rfl
  | disconnectTip _ hd =>
    obtain ⟨j, -, rfl⟩ := h.disconnected hd
    exact hn.of_tree rfl
  | invalidBlockFound i => exact hn.of_tree rfl
  | findMostWorkChain => exact hn.of_tree (fading_findMostWorkChainFrom _ s).tree
  | failBlock i => exact hn.of_tree rfl
  | failTip pindex t' => exact hn.of_tree rfl
  | reinsertCandidates pindex =>
    obtain ⟨cs, heq, -⟩ := foldl_reinsertCandidate (List.range s.tree.size) s
    rw [heq]
    exact hn.of_tree rfl

end Ops

end BlockIndex

def writeBlockIndex (records : List CDiskBlockIndex) (r : CDiskBlockIndex) : List CDiskBlockIndex :=
  r :: records.filter fun p => p.hash != r.hash

-- The index with what has been written of it. A crash leaves the records of `disk` and the first
-- few of the `pending` ones, and the batches of coins up to one of them; they are known by their
-- best block, the newest first.
structure ChainNode where
  index : BlockIndex
  setDirtyBlockIndex : Finset Nat
  disk : List CDiskBlockIndex
  pending : List CDiskBlockIndex
  chainstate : List UInt256
  -- between Sync and the batch of the coins
  synced : Bool

namespace ChainNode

def survivors (n : ChainNode) (k : Nat) : List CDiskBlockIndex :=
  (n.pending.take k).foldl writeBlockIndex n.disk

def written (n : ChainNode) : List CDiskBlockIndex := n.pending.foldl writeBlockIndex n.disk

-- FlushStateToDisk goes from record to record; a crash may come between any two steps.
inductive Step : ChainNode → ChainNode → Prop
  | op (n : ChainNode) (s : BlockIndex) (marked : Finset Nat) (h : BlockIndex.Op n.index s marked)
      (hidle : n.synced = false) :
      Step n { n with index := s, setDirtyBlockIndex := n.setDirtyBlockIndex ∪ marked }
  | writeBlockIndex (n : ChainNode) (i : Nat) (hi : i ∈ n.setDirtyBlockIndex)
      (hidle : n.synced = false) :
      Step n { n with
        setDirtyBlockIndex := n.setDirtyBlockIndex.erase i
        pending := n.pending ++ [n.index.diskBlockIndex i] }
  | sync (n : ChainNode) (hdirty : n.setDirtyBlockIndex = ∅) (hidle : n.synced = false) :
      Step n { n with disk := n.written, pending := [], synced := true }
  | flush (n : ChainNode) (t : Nat) (hsynced : n.synced = true) (htip : n.index.tip = some t) :
      Step n { n with chainstate := n.index.tree.hash t :: n.chainstate, synced := false }
  | flushFailed (n : ChainNode) (hsynced : n.synced = true) : Step n { n with synced := false }
  | restart (n : ChainNode) (k b : Nat) (hash : UInt256) (s : BlockIndex)
      (hclean : k = 0 ∨ (n.setDirtyBlockIndex = ∅ ∧ n.pending.length ≤ k))
      (hbest : (n.chainstate.drop b).head? = some hash)
      (hload : BlockIndex.loadBlockIndexDB (n.survivors k) hash = some s) :
      Step n ⟨s, ∅, n.survivors k, [], n.chainstate.drop b, false⟩

-- what InitBlockIndex leaves: the genesis block stored, active and flushed
def start (hash : UInt256) (nProof nTx : Nat) : ChainNode where
  index := BlockIndex.genesisIndex hash nProof nTx
  setDirtyBlockIndex := ∅
  disk := [(BlockIndex.genesisIndex hash nProof nTx).diskBlockIndex 0]
  pending := []
  chainstate := [hash]
  synced := false

def Reachable (n : ChainNode) : Prop :=
  ∃ hash nProof nTx, hash ≠ 0 ∧ 0 < nProof ∧ 0 < nTx ∧
    Relation.ReflTransGen Step (start hash nProof nTx) n

-- A block with all the blocks below it is on disk, and each but the first has been connected.
inductive Backed (records : List CDiskBlockIndex) : UInt256 → Nat → Prop
  | genesis (r : CDiskBlockIndex) (hr : r ∈ records) (hprev : r.hashPrev = 0)
      (hheight : r.nHeight = 0) (hdata : r.nStatus.haveData = true) : Backed records r.hash 0
  | block (r : CDiskBlockIndex) (nHeight : Nat) (hr : r ∈ records)
      (hheight : r.nHeight = nHeight + 1) (hdata : r.nStatus.haveData = true)
      (hundo : r.nStatus.haveUndo = true) (hvalid : BLOCK_VALID_SCRIPTS ≤ r.nStatus.nValid)
      (hprev : Backed records r.hashPrev nHeight) : Backed records r.hash (nHeight + 1)

section Writes

variable {records rs : List CDiskBlockIndex} {r q : CDiskBlockIndex}

theorem mem_writeBlockIndex :
    q ∈ AnkerNode.writeBlockIndex records r ↔ q = r ∨ (q ∈ records ∧ q.hash ≠ r.hash) := by
  simp [AnkerNode.writeBlockIndex]

theorem nodup_writeBlockIndex (h : (records.map CDiskBlockIndex.hash).Nodup) :
    ((AnkerNode.writeBlockIndex records r).map CDiskBlockIndex.hash).Nodup := by
  rw [AnkerNode.writeBlockIndex, List.map_cons, List.nodup_cons]
  refine ⟨?_, h.sublist (List.filter_sublist.map _)⟩
  simp

theorem nodup_writes (h : (records.map CDiskBlockIndex.hash).Nodup) :
    ((rs.foldl AnkerNode.writeBlockIndex records).map CDiskBlockIndex.hash).Nodup := by
  induction rs generalizing records with
  | nil => exact h
  | cons r rs ih => exact ih (nodup_writeBlockIndex h)

theorem mem_of_writes (h : q ∈ rs.foldl AnkerNode.writeBlockIndex records) :
    q ∈ rs ∨ q ∈ records := by
  induction rs generalizing records with
  | nil => exact .inr h
  | cons r rs ih =>
    rcases ih h with hq | hq
    · exact .inl (List.mem_cons_of_mem r hq)
    · exact (mem_writeBlockIndex.mp hq).imp (fun heq => by simp [heq]) And.left

-- No hash is lost.
theorem exists_writes {hash : UInt256} (h : ∃ q ∈ records, q.hash = hash) :
    ∃ q ∈ rs.foldl AnkerNode.writeBlockIndex records, q.hash = hash := by
  induction rs generalizing records with
  | nil => exact h
  | cons r rs ih =>
    refine ih ?_
    obtain ⟨q, hq, hhash⟩ := h
    by_cases heq : q.hash = r.hash
    · exact ⟨r, mem_writeBlockIndex.mpr (.inl rfl), heq.symm.trans hhash⟩
    · exact ⟨q, mem_writeBlockIndex.mpr (.inr ⟨hq, heq⟩), hhash⟩

end Writes

section Sound

open BlockIndex

-- A record written since the last Sync, for an entry of the index `s` that stood at least where
-- it stands in `m`.
structure Stands (m s : BlockIndex) (i : Nat) (r : CDiskBlockIndex) : Prop where
  lt : i < s.tree.size
  hash : r.hash = s.tree.hash i
  hashPrev : r.hashPrev = (s.diskBlockIndex i).hashPrev
  nHeight : r.nHeight = s.tree.height i
  status : i < m.tree.size → Advances (m.status i) r.nStatus

-- what the disk holds: the index `m`, which knows the best block of every batch of coins
structure Base (m : BlockIndex) (disk : List CDiskBlockIndex) (chainstate : List UInt256) :
    Prop where
  consistent : ∃ t floor, m.Consistent t floor
  named : m.Named
  snapshot : m.Snapshot disk
  anchored : ∀ hash ∈ chainstate, ∃ i, m.tree.hash i = hash ∧ m.Anchored i

structure Ahead (m : BlockIndex) (n : ChainNode) : Prop where
  grows : Grows m n.index
  pending : ∀ r ∈ n.pending, ∃ i, Stands m n.index i r
  synced : n.synced = true → m = n.index ∧ n.pending = []

structure Sound (n : ChainNode) : Prop where
  consistent : ∃ t floor, n.index.Consistent t floor
  named : n.index.Named
  dirty_lt : ∀ i ∈ n.setDirtyBlockIndex, i < n.index.tree.size
  clean : ∀ i < n.index.tree.size, i ∉ n.setDirtyBlockIndex → ∃ r ∈ n.written, n.index.Records i r
  base : ∃ m, Base m n.disk n.chainstate ∧ Ahead m n

variable {n n' : ChainNode} {m : BlockIndex}

theorem Base.of_grows {s : BlockIndex} {disk records : List CDiskBlockIndex}
    {chainstate : List UInt256} (h : Base m disk chainstate) (hgrows : Grows m s)
    (hs : ∃ t floor, s.Consistent t floor) (hn : s.Named) (hsnap : s.Snapshot records) :
    Base s records chainstate where
  consistent := hs
  named := hn
  snapshot := hsnap
  anchored := by
    intro hash hmem
    obtain ⟨i, hi, ha⟩ := h.anchored hash hmem
    exact ⟨i, by rw [hgrows.hash i ha.lt, hi], hgrows.anchored ha⟩

theorem Base.mono {disk : List CDiskBlockIndex} {chainstate chainstate' : List UInt256}
    (h : Base m disk chainstate) (hsub : ∀ hash ∈ chainstate', hash ∈ chainstate) :
    Base m disk chainstate' :=
  ⟨h.consistent, h.named, h.snapshot, fun hash hmem => h.anchored hash (hsub hash hmem)⟩

theorem Stands.grows {s s' : BlockIndex} {i : Nat} {r : CDiskBlockIndex} (h : Stands m s i r)
    (hgrows : Grows s s') : Stands m s' i r where
  lt := h.lt.trans_le hgrows.size
  hash := by rw [hgrows.hash i h.lt, h.hash]
  hashPrev := by rw [hgrows.diskBlockIndex h.lt, h.hashPrev]
  nHeight := by rw [hgrows.height i h.lt, h.nHeight]
  status := h.status

theorem stands_diskBlockIndex {s : BlockIndex} {i : Nat} (h : Grows m s) (hi : i < s.tree.size) :
    Stands m s i (s.diskBlockIndex i) :=
  ⟨hi, rfl, rfl, rfl, fun hlt => h.status i hlt⟩

-- a record that a crash can leave
theorem Sound.named_record (h : n.Sound) {r : CDiskBlockIndex} {k : Nat}
    (hr : r ∈ n.survivors k) : ∃ i < n.index.tree.size, n.index.tree.hash i = r.hash := by
  obtain ⟨m, hbase, hahead⟩ := h.base
  rcases mem_of_writes hr with hr | hr
  · obtain ⟨i, hi⟩ := hahead.pending r (List.mem_of_mem_take hr)
    exact ⟨i, hi.lt, hi.hash.symm⟩
  · obtain ⟨i, hi⟩ := hbase.snapshot.sound r hr
    exact ⟨i, hi.lt.trans_le hahead.grows.size, by rw [hahead.grows.hash i hi.lt, hi.hash]⟩

theorem survivors_eq_written {k : Nat} (h : n.pending.length ≤ k) : n.survivors k = n.written := by
  rw [survivors, List.take_of_length_le h, written]

theorem Sound.nodup (h : n.Sound) (k : Nat) :
    ((n.survivors k).map CDiskBlockIndex.hash).Nodup := by
  obtain ⟨m, hbase, -⟩ := h.base
  exact nodup_writes hbase.snapshot.nodup

theorem Sound.snapshot (h : n.Sound) (hdirty : n.setDirtyBlockIndex = ∅) :
    n.index.Snapshot n.written := by
  have hwritten := survivors_eq_written (Nat.le_refl n.pending.length)
  have hclean : ∀ i < n.index.tree.size, ∃ r ∈ n.written, n.index.Records i r := by
    intro i hi
    exact h.clean i hi (by simp [hdirty])
  refine ⟨fun r hr => ?_, hclean, ?_⟩
  · rw [← hwritten] at hr
    obtain ⟨i, hi, hhash⟩ := h.named_record hr
    obtain ⟨q, hq, hiq⟩ := hclean i hi
    rw [hwritten] at hr
    have hnodup := h.nodup n.pending.length
    rw [hwritten] at hnodup
    have heq : q = r := List.inj_on_of_nodup_map hnodup hq hr (hiq.hash.trans hhash)
    exact ⟨i, heq ▸ hiq⟩
  · rw [← hwritten]
    exact h.nodup _

-- What a clean crash leaves is a snapshot, of the index or of what it was at the last Sync.
theorem Sound.crash (h : n.Sound) {k : Nat}
    (hclean : k = 0 ∨ (n.setDirtyBlockIndex = ∅ ∧ n.pending.length ≤ k)) :
    ∃ m, Base m (n.survivors k) n.chainstate := by
  obtain ⟨m, hbase, hahead⟩ := h.base
  rcases hclean with rfl | ⟨hdirty, hlength⟩
  · exact ⟨m, hbase⟩
  · rw [survivors_eq_written hlength]
    exact ⟨n.index, hbase.of_grows hahead.grows h.consistent h.named (h.snapshot hdirty)⟩

theorem Sound.op (h : n.Sound) {s : BlockIndex} {marked : Finset Nat}
    (hop : BlockIndex.Op n.index s marked) (hidle : n.synced = false) :
    Sound { n with index := s, setDirtyBlockIndex := n.setDirtyBlockIndex ∪ marked } := by
  obtain ⟨t, floor, hcons⟩ := h.consistent
  obtain ⟨m, hbase, hahead⟩ := h.base
  have hmarks := hop.marks hcons
  refine ⟨hop.consistent hcons, hop.named hcons h.named, fun i hi => ?_, fun i hi hclean => ?_,
    m, hbase, hahead.grows.trans hmarks.grows, fun r hr => ?_, fun hs => ?_⟩
  · rcases Finset.mem_union.mp hi with hi | hi
    · exact (h.dirty_lt i hi).trans_le hmarks.grows.size
    · exact hmarks.lt i hi
  · simp only [Finset.mem_union, not_or] at hclean
    have hlt : i < n.index.tree.size := by
      by_contra hge
      exact hclean.2 (hmarks.fresh i hi (Nat.le_of_not_lt hge))
    obtain ⟨r, hr, hir⟩ := h.clean i hlt hclean.1
    exact ⟨r, hr, hmarks.records hclean.2 hir⟩
  · obtain ⟨i, hi⟩ := hahead.pending r hr
    exact ⟨i, hi.grows hmarks.grows⟩
  · rw [hidle] at hs
    cases hs

theorem Sound.writeBlockIndex (h : n.Sound) {i : Nat} (hi : i ∈ n.setDirtyBlockIndex)
    (hidle : n.synced = false) : Sound { n with
      setDirtyBlockIndex := n.setDirtyBlockIndex.erase i
      pending := n.pending ++ [n.index.diskBlockIndex i] } := by
  obtain ⟨m, hbase, hahead⟩ := h.base
  have hlt := h.dirty_lt i hi
  have hwritten : ∀ (dirty : Finset Nat) q, q ∈ written { n with
      setDirtyBlockIndex := dirty, pending := n.pending ++ [n.index.diskBlockIndex i] } ↔
        q = n.index.diskBlockIndex i ∨ (q ∈ n.written ∧ q.hash ≠ n.index.tree.hash i) := by
    intro dirty q
    rw [written, List.foldl_append]
    exact mem_writeBlockIndex
  refine ⟨h.consistent, h.named, fun j hj => h.dirty_lt j (Finset.mem_of_mem_erase hj),
    fun j hj hclean => ?_, m, hbase, hahead.grows, fun r hr => ?_, fun hs => ?_⟩
  · by_cases hji : j = i
    · rw [hji]
      exact ⟨_, (hwritten _ _).mpr (.inl rfl), records_self hlt⟩
    · have hdirty : j ∉ n.setDirtyBlockIndex := fun hmem =>
        hclean (Finset.mem_erase.mpr ⟨hji, hmem⟩)
      obtain ⟨r, hr, hjr⟩ := h.clean j hj hdirty
      refine ⟨r, (hwritten _ _).mpr (.inr ⟨hr, fun heq => hji ?_⟩), hjr⟩
      exact h.named.distinct j hj i hlt (hjr.hash.symm.trans heq)
  · rcases List.mem_append.mp hr with hr | hr
    · exact hahead.pending r hr
    · rw [List.mem_singleton.mp hr]
      exact ⟨i, stands_diskBlockIndex hahead.grows hlt⟩
  · rw [hidle] at hs
    cases hs

theorem Sound.sync (h : n.Sound) (hdirty : n.setDirtyBlockIndex = ∅) :
    Sound { n with disk := n.written, pending := [], synced := true } := by
  obtain ⟨m, hbase, hahead⟩ := h.base
  have hsnap := h.snapshot hdirty
  exact ⟨h.consistent, h.named, h.dirty_lt, h.clean, n.index,
    hbase.of_grows hahead.grows h.consistent h.named hsnap, .refl n.index,
    List.forall_mem_nil _, fun _ => ⟨rfl, rfl⟩⟩

theorem anchored_tip {s : BlockIndex} {t floor : Nat} (h : s.Consistent t floor) : s.Anchored t :=
  ⟨h.active.tip_lt, (h.linked.complete_iff h.active.tip_lt).mpr h.active.tip_linked,
    h.active.connected⟩

theorem Sound.flush (h : n.Sound) {t : Nat} (hsynced : n.synced = true)
    (htip : n.index.tip = some t) :
    Sound { n with chainstate := n.index.tree.hash t :: n.chainstate, synced := false } := by
  obtain ⟨m, hbase, hahead⟩ := h.base
  obtain ⟨rfl, hpending⟩ := hahead.synced hsynced
  obtain ⟨t', floor, hcons⟩ := h.consistent
  have htt : t' = t := Option.some.inj (hcons.active.tip_eq.symm.trans htip)
  refine ⟨h.consistent, h.named, h.dirty_lt, h.clean, n.index,
    ⟨hbase.consistent, hbase.named, hbase.snapshot, ?_⟩, hahead.grows, hahead.pending, ?_⟩
  · intro hash hmem
    rcases List.mem_cons.mp hmem with rfl | hmem
    · exact ⟨t, rfl, htt ▸ anchored_tip hcons⟩
    · exact hbase.anchored hash hmem
  · intro hs
    cases hs

theorem Sound.restart (h : n.Sound) {k b : Nat} {hash : UInt256} {s : BlockIndex}
    (hclean : k = 0 ∨ (n.setDirtyBlockIndex = ∅ ∧ n.pending.length ≤ k))
    (hbest : (n.chainstate.drop b).head? = some hash)
    (hload : loadBlockIndexDB (n.survivors k) hash = some s) :
    Sound ⟨s, ∅, n.survivors k, [], n.chainstate.drop b, false⟩ := by
  obtain ⟨m, hbase⟩ := h.crash hclean
  obtain ⟨t, floor, hcons⟩ := hbase.consistent
  obtain ⟨i, rfl, ha⟩ := hbase.anchored hash (List.mem_of_mem_drop (List.mem_of_mem_head? hbest))
  obtain ⟨s', j, hload', hs⟩ := hbase.snapshot.reload hcons hbase.named ha
  obtain rfl : s' = s := Option.some.inj (hload'.symm.trans hload)
  refine ⟨⟨j, j, hs.consistent⟩, hs.mirrors.named_copy, by simp, fun a ha _ => ?_, s',
    ⟨⟨j, j, hs.consistent⟩, hs.mirrors.named_copy, hs.snapshot, ?_⟩, .refl s',
    List.forall_mem_nil _, fun hs => ?_⟩
  · exact hs.snapshot.complete a ha
  · intro hash hmem
    obtain ⟨a, rfl, ha⟩ := hbase.anchored hash (List.mem_of_mem_drop hmem)
    obtain ⟨c, hc⟩ := hs.mirrors.copy a ha.lt
    exact ⟨c, hc.hash, hs.mirrors.anchored hcons.linked hc ha⟩
  · cases hs

theorem Sound.step (h : n.Sound) (hstep : Step n n') : n'.Sound := by
  cases hstep with
  | op s marked hop hidle => exact h.op hop hidle
  | writeBlockIndex i hi hidle => exact h.writeBlockIndex hi hidle
  | sync hdirty => exact h.sync hdirty
  | flush t hsynced htip => exact h.flush hsynced htip
  | flushFailed hsynced =>
    obtain ⟨m, hbase, hahead⟩ := h.base
    refine ⟨h.consistent, h.named, h.dirty_lt, h.clean, m, hbase, hahead.grows, hahead.pending, ?_⟩
    intro hs
    cases hs
  | restart k b hash s hclean hbest hload => exact h.restart hclean hbest hload

theorem sound_start {hash : UInt256} {nProof nTx : Nat} (hhash : hash ≠ 0) (hproof : 0 < nProof)
    (htx : 0 < nTx) : (start hash nProof nTx).Sound := by
  have hcons := genesisIndex_consistent hash nProof nTx htx
  have hlt : ∀ i, i < (genesisIndex hash nProof nTx).tree.size → i = 0 := fun i hi =>
    Nat.lt_one_iff.mp hi
  have hself : (genesisIndex hash nProof nTx).Records 0
      ((genesisIndex hash nProof nTx).diskBlockIndex 0) := records_self Nat.one_pos
  have hnamed : (genesisIndex hash nProof nTx).Named := by
    refine ⟨fun i hi j hj _ => (hlt i hi).trans (hlt j hj).symm, fun _ _ => hhash, fun i hi => ?_⟩
    rw [hlt i hi]
    exact hproof
  have hall : ∀ i < (genesisIndex hash nProof nTx).tree.size, ∃ r ∈ (start hash nProof nTx).disk,
      (genesisIndex hash nProof nTx).Records i r := by
    intro i hi
    rw [hlt i hi]
    exact ⟨_, List.mem_singleton_self _, hself⟩
  have hsnap : (genesisIndex hash nProof nTx).Snapshot (start hash nProof nTx).disk := by
    refine ⟨fun r hr => ⟨0, ?_⟩, hall, List.nodup_singleton _⟩
    rw [List.mem_singleton.mp hr]
    exact hself
  refine ⟨⟨0, 0, hcons⟩, hnamed, by simp [start], fun i hi _ => hall i hi,
    genesisIndex hash nProof nTx, ⟨⟨0, 0, hcons⟩, hnamed, hsnap, ?_⟩, .refl _,
    List.forall_mem_nil _, ?_⟩
  · intro h hmem
    rw [List.mem_singleton.mp hmem]
    exact ⟨0, rfl, anchored_tip hcons⟩
  · intro hs
    cases hs

theorem Reachable.sound (h : n.Reachable) : n.Sound := by
  obtain ⟨hash, nProof, nTx, hhash, hproof, htx, hrun⟩ := h
  induction hrun with
  | refl => exact sound_start hhash hproof htx
  | tail _ hstep ih => exact ih.step hstep

end Sound

section Crash

open BlockIndex RankedForest

variable {n : ChainNode} {m : BlockIndex} {k : Nat}

-- what is left of the record of an entry that the disk holds
theorem exists_survivor {chainstate : List UInt256} (hbase : Base m n.disk chainstate)
    (hahead : Ahead m n) (hn : n.index.Named) {a : Nat} (ha : a < m.tree.size) :
    ∃ r ∈ n.survivors k, r.hash = m.tree.hash a ∧
      r.hashPrev = (m.diskBlockIndex a).hashPrev ∧ r.nHeight = m.tree.height a ∧
        Advances (m.status a) r.nStatus := by
  obtain ⟨d, hd, had⟩ := hbase.snapshot.complete a ha
  obtain ⟨r, hr, hhash⟩ : ∃ r ∈ n.survivors k, r.hash = m.tree.hash a :=
    exists_writes ⟨d, hd, had.hash⟩
  refine ⟨r, hr, hhash, ?_⟩
  rcases mem_of_writes hr with hpending | hdisk
  · obtain ⟨i, hi⟩ := hahead.pending r (List.mem_of_mem_take hpending)
    have ha' := ha.trans_le hahead.grows.size
    obtain rfl : i = a := by
      refine hn.distinct i hi.lt a ha' ?_
      rw [← hi.hash, hhash, hahead.grows.hash a ha]
    refine ⟨?_, ?_, hi.status ha⟩
    · rw [hi.hashPrev, hahead.grows.diskBlockIndex ha]
    · rw [hi.nHeight, hahead.grows.height i ha]
  · obtain ⟨i, hi⟩ := hbase.snapshot.sound r hdisk
    obtain rfl : i = a := hbase.named.distinct i hi.lt a ha (hi.hash.symm.trans hhash)
    refine ⟨by rw [hi.eq], hi.nHeight, ?_⟩
    rw [hi.nStatus]
    exact ⟨Nat.le_refl _, id, id⟩

theorem backed_of_anchored {chainstate : List UInt256} (hbase : Base m n.disk chainstate)
    (hahead : Ahead m n) (hn : n.index.Named) {i : Nat} (ha : m.Anchored i) :
    Backed (n.survivors k) (m.tree.hash i) (m.tree.height i) := by
  obtain ⟨t, floor, hcons⟩ := hbase.consistent
  induction i using m.tree.branch_induction with
  | root i hp =>
    obtain ⟨r, hr, hhash, hprev, hheight, hstatus⟩ := exists_survivor (k := k) hbase hahead hn ha.lt
    rw [m.tree.height_root hp] at hheight ⊢
    rw [← hhash]
    refine .genesis r hr ?_ hheight (hstatus.haveData (ha.complete i (self_mem_branch i)))
    rw [hprev, BlockIndex.diskBlockIndex, hp]
    rfl
  | step i j hp ih =>
    obtain ⟨r, hr, hhash, hprev, hheight, hstatus⟩ := exists_survivor (k := k) hbase hahead hn ha.lt
    have hi0 : i ≠ 0 := by
      rintro rfl
      rw [parent_zero] at hp
      cases hp
    obtain ⟨hvalid, hundo⟩ := ha.connected i (self_mem_branch i) hi0
    have hbelow := ih ⟨parent_lt_size hp, fun a hmem => ha.complete a
      (mem_branch_trans hmem (parent_mem_branch hp)), fun a hmem => ha.connected a
        (mem_branch_trans hmem (parent_mem_branch hp))⟩
    rw [m.tree.height_parent hp] at hheight ⊢
    rw [← hhash]
    refine .block r _ hr hheight (hstatus.haveData (ha.complete i (self_mem_branch i)))
      (hstatus.haveUndo hundo) (hvalid.trans hstatus.nValid) ?_
    rw [hprev, BlockIndex.diskBlockIndex, hp]
    exact hbelow

-- one block above the genesis block, stored and connected
def storedIndex : BlockIndex :=
  ((((genesisIndex 5 1 1).addToBlockIndex ⟨6, 5, 1, Nat.one_pos⟩).received 1 1).linkEntry 1).1

def connectedIndex : BlockIndex := (storedIndex.connected 1).pruneBlockIndexCandidates

-- the node after the first flush, with another index and what has been written of it
def nodeAt (s : BlockIndex) (dirty : Finset Nat) (pending : List CDiskBlockIndex) : ChainNode :=
  ⟨s, dirty, (start 5 1 1).disk, pending, [5], false⟩

-- The record of the new block is written, its coins are not.
def writtenNode : ChainNode := nodeAt connectedIndex ∅ [connectedIndex.diskBlockIndex 1]

theorem step_nodeAt {s s' : BlockIndex} {dirty : Finset Nat} (hop : Op s s' {1})
    (hdirty : dirty ∪ {1} = {1}) : Step (nodeAt s dirty []) (nodeAt s' {1} []) := by
  have hstep := Step.op (nodeAt s dirty []) s' {1} hop rfl
  rwa [show (nodeAt s dirty []).setDirtyBlockIndex ∪ {1} = {1} from hdirty] at hstep

theorem writtenNode_reachable : writtenNode.Reachable := by
  have hadd : Op (genesisIndex 5 1 1) ((genesisIndex 5 1 1).addToBlockIndex ⟨6, 5, 1, Nat.one_pos⟩)
      {1} := by
    have hop := Op.addToBlockIndex (genesisIndex 5 1 1) ⟨6, 5, 1, Nat.one_pos⟩
      (.inr (by decide +kernel)) (by decide)
    rwa [if_neg (by decide +kernel)] at hop
  have hreceive : Op ((genesisIndex 5 1 1).addToBlockIndex ⟨6, 5, 1, Nat.one_pos⟩) storedIndex
      {1} := by
    have hop := Op.receivedBlockTransactions
      ((genesisIndex 5 1 1).addToBlockIndex ⟨6, 5, 1, Nat.one_pos⟩) 1 1
      ⟨by decide +kernel, by decide +kernel, by decide +kernel, fun j hj => by
        rw [← Option.some.inj ((show _ = some 0 by decide +kernel).symm.trans hj)]
        decide +kernel, Nat.one_pos⟩
    rwa [receivedBlockTransactions_leaf (show _ = some 0 by decide +kernel) (by decide +kernel)
      (by decide +kernel)] at hop
  have hconnect : Op storedIndex connectedIndex {1} := by
    have hop := Op.connectTip storedIndex 1 0 (by decide +kernel) (by decide +kernel)
      (by decide +kernel)
    rwa [if_neg (by decide +kernel)] at hop
  have hwrite := Step.writeBlockIndex (nodeAt connectedIndex {1} []) 1 (by decide) rfl
  rw [show (nodeAt connectedIndex {1} []).setDirtyBlockIndex.erase 1 = ∅ by decide] at hwrite
  refine ⟨5, 1, 1, by decide, Nat.one_pos, Nat.one_pos, ?_⟩
  exact (((Relation.ReflTransGen.single (step_nodeAt hadd (by decide))).tail
    (step_nodeAt hreceive (by decide))).tail (step_nodeAt hconnect (by decide))).tail hwrite

end Crash

end ChainNode

end AnkerNode
