import AnkerNode.Chain.Invalidation
import AnkerNode.Chain.Linking

namespace AnkerNode

namespace BlockIndex

open RankedForest

section Insert

variable {s : BlockIndex} {t floor : Nat} {block : BlockTree.Header} {j : Nat}

-- the index with the new header that has the entry `j` as its parent
def inserted (s : BlockIndex) (block : BlockTree.Header) (j : Nat) (hj : j < s.tree.size) :
    BlockIndex :=
  { s with
    tree := s.tree.insert block (some j) (fun _ h => Option.some.inj h ▸ hj)
    info := Function.update s.info s.tree.size
      { nStatus := BlockStatus.raiseValidity {} BLOCK_VALID_TREE } }

variable {hj : j < s.tree.size}

theorem info_inserted_of_ne {k : Nat} (hk : k ≠ s.tree.size) :
    (s.inserted block j hj).info k = s.info k := Function.update_of_ne hk ..

theorem info_inserted_self : (s.inserted block j hj).info s.tree.size =
    { nStatus := { nValid := BLOCK_VALID_TREE } } := Function.update_self ..

theorem status_inserted_of_ne {k : Nat} (hk : k ≠ s.tree.size) :
    (s.inserted block j hj).status k = s.status k := by
  rw [status, info_inserted_of_ne hk]
  rfl

theorem parent_inserted_of_ne {k : Nat} (hk : k ≠ s.tree.size) :
    (s.inserted block j hj).tree.parent k = s.tree.parent k := Function.update_of_ne hk ..

theorem parent_inserted_self : (s.inserted block j hj).tree.parent s.tree.size = some j :=
  Function.update_self ..

theorem size_inserted : (s.inserted block j hj).tree.size = s.tree.size + 1 := rfl

theorem branch_inserted {k : Nat} (hk : k < s.tree.size) :
    (s.inserted block j hj).tree.branch k = s.tree.branch k := by
  have hprev : ∀ m, some j = some m → m < s.tree.size := fun _ h => Option.some.inj h ▸ hj
  exact @BlockTree.branch_insertForest s.tree (some j) hprev k hk

theorem worse_inserted {a b : Nat} (ha : a < s.tree.size) (hb : b < s.tree.size) :
    (s.inserted block j hj).worse a b = s.worse a b := by
  have hwork : ∀ k < s.tree.size,
      (s.inserted block j hj).tree.nChainWork k = s.tree.nChainWork k :=
    fun k hk => Function.update_of_ne (Nat.ne_of_lt hk) ..
  simp only [worse, hwork a ha, hwork b hb, info_inserted_of_ne (Nat.ne_of_lt ha),
    info_inserted_of_ne (Nat.ne_of_lt hb)]

theorem lt_or_eq_of_inserted {k : Nat} (hk : k < (s.inserted block j hj).tree.size) :
    k < s.tree.size ∨ k = s.tree.size := by
  rw [size_inserted] at hk
  omega

theorem untainted_inserted {k : Nat} (hk : k < s.tree.size) :
    (s.inserted block j hj).Untainted k ↔ s.Untainted k := by
  rw [Untainted, branch_inserted hk]
  refine forall₂_congr fun a ha => ?_
  have hlt := mem_branch_lt ha hk
  rw [status_inserted_of_ne (Nat.ne_of_lt hlt)]

-- What `Linked` says of an entry alone.
theorem Linked.entry_inserted (h : s.Linked []) (block : BlockTree.Header) (j : Nat)
    (hj : j < s.tree.size) {k : Nat} (hk : k < (s.inserted block j hj).tree.size) :
    (((s.inserted block j hj).status k).haveData = true ↔
        ((s.inserted block j hj).info k).nTx ≠ 0) ∧
      (BLOCK_VALID_TRANSACTIONS ≤ ((s.inserted block j hj).status k).nValid ↔
        0 < ((s.inserted block j hj).info k).nTx) ∧
      BLOCK_VALID_TREE ≤ ((s.inserted block j hj).status k).nValid ∧
      (((s.inserted block j hj).info k).nChainTx = 0 →
        ((s.inserted block j hj).info k).nSequenceId = 0) := by
  rcases lt_or_eq_of_inserted hk with hlt | rfl
  · rw [status_inserted_of_ne (Nat.ne_of_lt hlt), info_inserted_of_ne (Nat.ne_of_lt hlt)]
    exact ⟨h.haveData k hlt, h.transactions k hlt, h.treeValid k hlt, h.sequence k hlt⟩
  · rw [status, info_inserted_self]
    exact ⟨by simp, by decide, Nat.le_refl _, by simp⟩

theorem Linked.insert (h : s.Linked []) (block : BlockTree.Header) (j : Nat)
    (hj : j < s.tree.size) : (s.inserted block j hj).Linked [] := by
  have hchain : ∀ k, ((s.inserted block j hj).info k).nChainTx ≠ 0 →
      k ≠ s.tree.size ∧ (s.info k).nChainTx ≠ 0 := by
    intro k hne
    have hk : k ≠ s.tree.size := by
      rintro rfl
      rw [info_inserted_self] at hne
      exact hne rfl
    rw [info_inserted_of_ne hk] at hne
    exact ⟨hk, hne⟩
  refine ⟨⟨by rw [size_inserted]; omega, ?_⟩, ?_, ?_, ?_, ?_, ?_, ?_, ?_, by simp, ?_, h.nodup⟩
  · rw [info_inserted_of_ne (Nat.ne_of_lt h.genesis.1)]
    exact h.genesis.2
  · intro k hk hp
    rcases lt_or_eq_of_inserted hk with hlt | rfl
    · rw [parent_inserted_of_ne (Nat.ne_of_lt hlt)] at hp
      exact h.root k hlt hp
    · rw [parent_inserted_self] at hp
      simp at hp
  · exact fun k hk => (h.entry_inserted block j hj hk).1
  · exact fun k hk => (h.entry_inserted block j hj hk).2.1
  · exact fun k hk => (h.entry_inserted block j hj hk).2.2.1
  · exact fun k hk => (h.entry_inserted block j hj hk).2.2.2
  · intro k hk hne
    obtain ⟨hkn, hne⟩ := hchain k hne
    have hlt : k < s.tree.size := (lt_or_eq_of_inserted hk).resolve_right hkn
    obtain ⟨hd, hp⟩ := h.linked k hlt hne
    rw [status_inserted_of_ne hkn, parent_inserted_of_ne hkn]
    refine ⟨hd, fun m hm => ?_⟩
    rw [info_inserted_of_ne (Nat.ne_of_lt (parent_lt_size hm))]
    exact hp m hm
  · intro k hk hd hp
    rcases lt_or_eq_of_inserted hk with hlt | rfl
    · rw [status_inserted_of_ne (Nat.ne_of_lt hlt)] at hd
      rw [parent_inserted_of_ne (Nat.ne_of_lt hlt)] at hp
      rw [info_inserted_of_ne (Nat.ne_of_lt hlt)]
      refine h.link k hlt hd fun m hm => ?_
      exact (hchain m (hp m hm)).2
    · rw [status, info_inserted_self] at hd
      simp at hd
  · intro k m
    rw [show (s.inserted block j hj).mapBlocksUnlinked = s.mapBlocksUnlinked from rfl,
      h.unlinked k m]
    by_cases hk : k = s.tree.size
    · subst hk
      rw [s.tree.parent_size (Nat.le_refl _), status, status, info_inserted_self]
      simp
    · rw [parent_inserted_of_ne hk, status_inserted_of_ne hk, info_inserted_of_ne hk]

theorem Active.insert (h : s.Active t) (block : BlockTree.Header) (j : Nat) (hj : j < s.tree.size) :
    (s.inserted block j hj).Active t := by
  refine ⟨?_, ?_, ?_, ?_, ?_⟩
  · rw [branch_inserted h.tip_lt]
    exact h.vChain
  · rw [size_inserted]
    exact Nat.lt_succ_of_lt h.tip_lt
  · rw [info_inserted_of_ne (Nat.ne_of_lt h.tip_lt)]
    exact h.tip_linked
  · intro a ha ha0
    rw [branch_inserted h.tip_lt] at ha
    rw [status_inserted_of_ne (Nat.ne_of_lt (mem_branch_lt ha h.tip_lt))]
    exact h.connected a ha ha0
  · intro k hk hv
    rcases lt_or_eq_of_inserted hk with hlt | rfl
    · rw [status_inserted_of_ne (Nat.ne_of_lt hlt)] at hv ⊢
      rw [parent_inserted_of_ne (Nat.ne_of_lt hlt)]
      obtain ⟨hs, hp⟩ := h.chainValid k hlt hv
      refine ⟨hs, fun m hm hm0 => ?_⟩
      rw [status_inserted_of_ne (Nat.ne_of_lt (parent_lt_size hm))]
      exact hp m hm hm0
    · rw [status, info_inserted_self] at hv
      have hv : BLOCK_VALID_CHAIN ≤ BLOCK_VALID_TREE := hv
      exact absurd hv (by decide)

theorem Flagged.insert (h : s.Flagged) (block : BlockTree.Header) (j : Nat)
    (hj : j < s.tree.size) : (s.inserted block j hj).Flagged := by
  intro k hk hf
  rcases lt_or_eq_of_inserted hk with hlt | rfl
  · rw [status_inserted_of_ne (Nat.ne_of_lt hlt)] at hf
    rw [untainted_inserted hlt]
    exact h k hlt hf
  · rw [status, info_inserted_self] at hf
    simp [BlockStatus.failed] at hf

theorem Candidates.insert (h : s.Candidates t floor) (ha : s.Active t) (block : BlockTree.Header)
    (j : Nat) (hj : j < s.tree.size) : (s.inserted block j hj).Candidates t floor := by
  refine ⟨?_, ?_, ?_, ?_, ?_⟩
  · rw [size_inserted]
    exact Nat.lt_succ_of_lt h.floor_lt
  · rw [info_inserted_of_ne (Nat.ne_of_lt h.floor_lt)]
    exact h.floor_linked
  · rw [worse_inserted h.floor_lt ha.tip_lt]
    exact h.floor_tip
  · intro k hk
    obtain ⟨hlt, hlinked, hw⟩ := h.sound k hk
    rw [size_inserted, info_inserted_of_ne (Nat.ne_of_lt hlt), worse_inserted hlt ha.tip_lt]
    exact ⟨Nat.lt_succ_of_lt hlt, hlinked, hw⟩
  · intro k hk hlinked hu hw
    rcases lt_or_eq_of_inserted hk with hlt | rfl
    · rw [info_inserted_of_ne (Nat.ne_of_lt hlt)] at hlinked
      rw [worse_inserted hlt h.floor_lt] at hw
      exact h.complete k hlt hlinked ((untainted_inserted hlt).mp hu) hw
    · rw [info_inserted_self] at hlinked
      exact absurd rfl hlinked

theorem Consistent.addToBlockIndex (h : s.Consistent t floor) (block : BlockTree.Header)
    (hknown : s.tree.lookup block.hash ≠ none ∨ s.tree.lookup block.hashPrevBlock ≠ none) :
    (s.addToBlockIndex block).Consistent t floor := by
  rw [BlockIndex.addToBlockIndex]
  cases hself : s.tree.lookup block.hash with
  | some i => exact h
  | none =>
    obtain ⟨j, hprev⟩ := Option.ne_none_iff_exists'.mp (hknown.resolve_left fun hne => hne hself)
    have hj := BlockTree.lookup_lt hprev
    have hins : (s.inserted block j hj).Consistent t floor :=
      ⟨h.linked.insert block j hj, h.active.insert block j hj, h.flagged.insert block j hj,
        h.candidates.insert h.active block j hj⟩
    simp only [hprev]
    exact ⟨hins.linked.congr rfl rfl fun k => .refl _, hins.active.congr rfl rfl fun k => .refl _,
      hins.flagged, hins.candidates.floor_lt, hins.candidates.floor_linked,
      hins.candidates.floor_tip, hins.candidates.sound, hins.candidates.complete⟩

end Insert

section Run

def genesisTree (hash : UInt256) (nProof : Nat) : BlockTree where
  parent := fun _ => none
  height := fun _ => 0
  parent_lt := by simp
  height_parent := by simp
  height_root := by simp
  size := 1
  hash := fun _ => hash
  pskip := fun _ => none
  nChainWork := fun _ => nProof
  parent_size := by simp
  pskip_parent := by simp
  nChainWork_parent := by simp

-- the index InitBlockIndex leaves: the genesis block stored and active
def genesisIndex (hash : UInt256) (nProof nTx : Nat) : BlockIndex where
  tree := genesisTree hash nProof
  info := fun _ =>
    { nTx := nTx
      nChainTx := nTx
      nStatus := { nValid := BLOCK_VALID_TRANSACTIONS, haveData := true, optWitness := true }
      nSequenceId := 1 }
  setBlockIndexCandidates := [0]
  mapBlocksUnlinked := []
  vChain := [0]
  nBlockSequenceId := 2
  pindexBestInvalid := none
  pindexBestHeader := some 0

theorem genesisIndex_consistent (hash : UInt256) (nProof nTx : Nat) (h : 0 < nTx) :
    (genesisIndex hash nProof nTx).Consistent 0 0 := by
  have hroot : (genesisIndex hash nProof nTx).tree.parent 0 = none := rfl
  have hlt : ∀ i, i < (genesisIndex hash nProof nTx).tree.size → i = 0 := fun i hi =>
    Nat.lt_one_iff.mp hi
  have hne : nTx ≠ 0 := Nat.pos_iff_ne_zero.mp h
  refine ⟨?_, ?_, ?_, ?_⟩
  · refine ⟨⟨Nat.one_pos, hne⟩, fun i hi _ => hlt i hi, fun i _ => iff_of_true rfl hne,
      fun i _ => iff_of_true (Nat.le_refl _) h, fun i _ => ?_, fun i _ hz => absurd hz hne,
      fun i _ _ => ⟨rfl, fun _ _ => hne⟩, fun i _ _ _ => .inl hne, by simp, ?_, by
        simp [genesisIndex]⟩
    · change BLOCK_VALID_TREE ≤ BLOCK_VALID_TRANSACTIONS
      decide
    · intro i j
      simp [genesisIndex, genesisTree]
  · refine ⟨?_, Nat.one_pos, hne, ?_, ?_⟩
    · rw [branch_of_none hroot]
      rfl
    · intro a ha ha0
      rw [branch_of_none hroot, List.mem_singleton] at ha
      exact absurd ha ha0
    · intro i _ hv
      have hv : BLOCK_VALID_CHAIN ≤ BLOCK_VALID_TRANSACTIONS := hv
      exact absurd hv (by decide)
  · intro i _ hf
    simp [genesisIndex, status, BlockStatus.failed] at hf
  · refine ⟨Nat.one_pos, hne, not_worse_self 0, ?_, ?_⟩
    · intro i hi
      rw [List.mem_singleton.mp hi]
      exact ⟨Nat.one_pos, hne, not_worse_self 0⟩
    · intro i hi _ _ _
      rw [hlt i hi]
      exact List.mem_singleton.mpr rfl

-- The runs of the block index. The second argument is the best tip since the start or the last
-- InvalidateBlock.
inductive Reachable : BlockIndex → Nat → Prop
  | start (hash : UInt256) (nProof nTx : Nat) : 0 < nTx →
      Reachable (genesisIndex hash nProof nTx) 0
  | addToBlockIndex (s : BlockIndex) (floor : Nat) (block : BlockTree.Header) :
      Reachable s floor →
      s.tree.lookup block.hash ≠ none ∨ s.tree.lookup block.hashPrevBlock ≠ none →
      Reachable (s.addToBlockIndex block) floor
  | receivedBlockTransactions (s : BlockIndex) (floor i nTx : Nat) : Reachable s floor →
      s.Receivable i nTx → Reachable (s.receivedBlockTransactions i nTx) floor
  | activateBestChain (s : BlockIndex) (floor : Nat) (accepts : Nat → Bool) : Reachable s floor →
      Reachable (s.activateBestChain accepts)
        ((s.activateBestChain accepts).tip.elim floor (s.raiseFloor floor))
  | invalidateBlock (s : BlockIndex) (floor i : Nat) : Reachable s floor → i < s.tree.size →
      Reachable (s.invalidateBlock i).1 ((s.invalidateBlock i).1.tip.elim floor id)

variable {s : BlockIndex} {t floor : Nat}

theorem Reachable.consistent (h : Reachable s floor) : ∃ t, s.Consistent t floor := by
  induction h with
  | start hash nProof nTx hpos => exact ⟨0, genesisIndex_consistent hash nProof nTx hpos⟩
  | addToBlockIndex s floor block _ hknown ih =>
    obtain ⟨t, ht⟩ := ih
    exact ⟨t, ht.addToBlockIndex block hknown⟩
  | receivedBlockTransactions s floor i nTx _ hr ih =>
    obtain ⟨t, ht⟩ := ih
    exact ⟨t, ht.receivedBlockTransactions hr⟩
  | activateBestChain s floor accepts _ ih =>
    obtain ⟨t, ht⟩ := ih
    obtain ⟨t', ht'⟩ := ht.activateBestChain accepts
    rw [ht'.active.tip_eq]
    exact ⟨t', ht'⟩
  | invalidateBlock s floor i _ _ ih =>
    obtain ⟨t, ht⟩ := ih
    obtain ⟨t', ht'⟩ := ht.invalidateBlock i
    rw [ht'.active.tip_eq]
    exact ⟨t', ht'⟩

theorem Checked.at_tip (h : s.Checked t floor) (hw : s.worse t floor = false) : s.Checked t t :=
  { h with candidates := fun i hi ht _ hc hu => h.candidates i hi ht (not_worse_trans ht hw) hc hu }

theorem index_checked (h : Reachable s floor) :
    ∃ t, s.Checked t floor ∧ (s.worse t floor = false → s.Checked t t) := by
  obtain ⟨t, ht⟩ := h.consistent
  exact ⟨t, ht.checked, ht.checked.at_tip⟩

-- three entries in a line above the genesis block, which alone is active
def lineIndex : BlockIndex :=
  (((genesisIndex 0 1 1).addToBlockIndex ⟨1, 0, 1, by decide⟩).addToBlockIndex
    ⟨2, 1, 1, by decide⟩).addToBlockIndex ⟨3, 2, 1, by decide⟩

-- Genesis and A1 active; B1 and B2 arrive and B1 turns out to be invalid when it is connected.
def indexA1 : BlockIndex :=
  ((((genesisIndex 0 1 1).addToBlockIndex ⟨1, 0, 1, by decide⟩).received 1 1).linkEntry
    1).1.activateBestChain fun _ => true

def indexB1 : BlockIndex :=
  (((indexA1.addToBlockIndex ⟨2, 0, 1, by decide⟩).received 2 1).linkEntry 2).1

def indexB2 : BlockIndex :=
  (((indexB1.addToBlockIndex ⟨3, 2, 1, by decide⟩).received 3 1).linkEntry 3).1

def failedReorganisation : BlockIndex := indexB2.activateBestChain fun i => i != 2

theorem Reachable.extend {s : BlockIndex} {floor : Nat} (h : Reachable s floor)
    (block : BlockTree.Header) (i j : Nat)
    (hprev : s.tree.lookup block.hashPrevBlock ≠ none)
    (hp : (s.addToBlockIndex block).tree.parent i = some j)
    (hi : i < (s.addToBlockIndex block).tree.size)
    (hstatus : ((s.addToBlockIndex block).status i).haveData = false ∧
      ((s.addToBlockIndex block).status i).failed = false ∧
      ((s.addToBlockIndex block).status j).failed = false)
    (hj : ((s.addToBlockIndex block).info j).nChainTx ≠ 0)
    (hleaf : (((s.addToBlockIndex block).received i 1).linkEntry i).2 = []) :
    Reachable (((s.addToBlockIndex block).received i 1).linkEntry i).1 floor := by
  rw [← receivedBlockTransactions_leaf hp hj hleaf]
  refine .receivedBlockTransactions _ floor i 1 (.addToBlockIndex s floor block h (.inr hprev)) ?_
  refine ⟨hi, hstatus.1, hstatus.2.1, fun k hk => ?_, Nat.one_pos⟩
  rw [← Option.some.inj (hp.symm.trans hk)]
  exact hstatus.2.2

theorem indexA1_reachable : Reachable indexA1 1 := by
  have hA1 := (Reachable.start 0 1 1 Nat.one_pos).extend ⟨1, 0, 1, by decide⟩ 1 0
    (by decide +kernel) (by decide +kernel) (by decide +kernel) (by decide +kernel)
    (by decide +kernel) (by decide +kernel)
  exact .activateBestChain _ 0 (fun _ => true) hA1

theorem failedReorganisation_reachable : Reachable failedReorganisation 1 := by
  have hB1 : Reachable indexB1 1 := indexA1_reachable.extend ⟨2, 0, 1, by decide⟩ 2 0
    (by decide +kernel) (by decide +kernel) (by decide +kernel) (by decide +kernel)
    (by decide +kernel) (by decide +kernel)
  have hB2 : Reachable indexB2 1 := hB1.extend ⟨3, 2, 1, by decide⟩ 3 2
    (by decide +kernel) (by decide +kernel) (by decide +kernel) (by decide +kernel)
    (by decide +kernel) (by decide +kernel)
  have hstep := Reachable.activateBestChain _ 1 (fun i => i != 2) hB2
  have hfloor : (indexB2.activateBestChain fun i => i != 2).tip.elim 1 (indexB2.raiseFloor 1) = 1 := by
    decide +kernel
  rw [hfloor] at hstep
  exact hstep

theorem index_checked_failedReorganisation : ∃ t, failedReorganisation.Checked t 1 ∧
    (failedReorganisation.worse t 1 = false → failedReorganisation.Checked t t) :=
  index_checked failedReorganisation_reachable

-- The old tip A1 has been disconnected and the fork point is no longer a candidate.
theorem failed_reorganisation_not_checked : ∃ (s : BlockIndex) (floor t : Nat),
    Reachable s floor ∧ s.tip = some t ∧ ¬ s.Checked t t := by
  have htip : failedReorganisation.tip = some 0 := by decide +kernel
  have hnot : 0 ∉ failedReorganisation.setBlockIndexCandidates := by decide +kernel
  have hclear : (failedReorganisation.status 0).haveData = true ∧
      (failedReorganisation.status 0).failedValid = false := by decide +kernel
  refine ⟨failedReorganisation, 1, 0, failedReorganisation_reachable, htip, fun h => hnot ?_⟩
  have hroot := h.oneRoot 0 (by decide +kernel)
  have hbranch := branch_of_none (hroot.mpr rfl)
  refine h.candidates 0 (by decide +kernel) (not_worse_self 0) (not_worse_self 0) ?_ ?_
  · intro a ha
    rw [hbranch, List.mem_singleton] at ha
    rw [ha]
    exact hclear.1
  · intro a ha
    rw [hbranch, List.mem_singleton] at ha
    rw [ha]
    exact hclear.2

end Run

end BlockIndex

end AnkerNode
