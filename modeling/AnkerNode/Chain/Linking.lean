import AnkerNode.Chain.IndexInvariant

namespace AnkerNode

namespace BlockIndex

open RankedForest

-- the entry ReceivedBlockTransactions pops from its queue, with its counters set
def linkedInfo (s : BlockIndex) (i : Nat) : BlockInfo :=
  { s.info i with
    nChainTx := ((s.tree.parent i).elim 0 fun j => (s.info j).nChainTx) + (s.info i).nTx
    nSequenceId := s.nBlockSequenceId }

def counted (s : BlockIndex) (i : Nat) : BlockIndex :=
  { s.modifyInfo i (fun _ => s.linkedInfo i) with nBlockSequenceId := s.nBlockSequenceId + 1 }

section LinkEntry

variable {s : BlockIndex} {i t floor : Nat}

theorem linkEntry_frame (s : BlockIndex) (i : Nat) :
    (s.linkEntry i).1.tree = s.tree ∧ (s.linkEntry i).1.vChain = s.vChain ∧
      (s.linkEntry i).1.info = Function.update s.info i (s.linkedInfo i) := by
  simp only [linkEntry]
  split <;> exact ⟨rfl, rfl, rfl⟩

theorem tree_linkEntry (s : BlockIndex) (i : Nat) : (s.linkEntry i).1.tree = s.tree :=
  (linkEntry_frame s i).1

theorem vChain_linkEntry (s : BlockIndex) (i : Nat) : (s.linkEntry i).1.vChain = s.vChain :=
  (linkEntry_frame s i).2.1

theorem info_linkEntry_self (s : BlockIndex) (i : Nat) :
    (s.linkEntry i).1.info i = s.linkedInfo i := by
  rw [(linkEntry_frame s i).2.2, Function.update_self]

theorem info_linkEntry_of_ne {i k : Nat} (h : k ≠ i) : (s.linkEntry i).1.info k = s.info k := by
  rw [(linkEntry_frame s i).2.2, Function.update_of_ne h]

theorem status_linkEntry (i k : Nat) : (s.linkEntry i).1.status k = s.status k := by
  by_cases hk : k = i
  · subst hk
    rw [status, info_linkEntry_self]
    rfl
  · rw [status, info_linkEntry_of_ne hk]
    rfl

theorem mem_candidates_linkEntry (ht : s.tip = some t) (i k : Nat) :
    k ∈ (s.linkEntry i).1.setBlockIndexCandidates ↔ k ∈ s.setBlockIndexCandidates ∨
      (k = i ∧ (s.linkEntry i).1.worse i t = false) := by
  have hworse : (s.linkEntry i).1.worse i t = (s.counted i).worse i t :=
    worse_congr (tree_linkEntry s i) (by rw [(linkEntry_frame s i).2.2]; rfl)
      (by rw [(linkEntry_frame s i).2.2]; rfl)
  have hcand : (s.linkEntry i).1.setBlockIndexCandidates =
      if (s.counted i).tip.all fun t => !(s.counted i).worse i t then
        s.setBlockIndexCandidates.insert i
      else s.setBlockIndexCandidates := by
    simp only [linkEntry]
    split
    · rename_i hins
      exact (if_pos hins).symm
    · rename_i hins
      exact (if_neg hins).symm
  have htip : (s.counted i).tip = some t := ht
  rw [hworse, hcand, htip, Option.all_some]
  cases hw : (s.counted i).worse i t with
  | true => simp
  | false => simp [or_comm]

theorem mem_linkEntry {queue : List Nat} (h : s.Linked (i :: queue)) (m : Nat) :
    m ∈ (s.linkEntry i).2 ↔ s.tree.parent m = some i ∧ (s.status m).haveData = true ∧
      (s.info m).nChainTx = 0 ∧ m ∉ i :: queue := by
  rw [(mapBlocksUnlinked_linkEntry s i).2, ← h.unlinked m i]
  simp

theorem nTx_linkEntry (i k : Nat) : ((s.linkEntry i).1.info k).nTx = (s.info k).nTx := by
  by_cases hk : k = i
  · subst hk
    rw [info_linkEntry_self]
    rfl
  · rw [info_linkEntry_of_ne hk]

theorem Linked.nChainTx_linkEntry {queue : List Nat} (h : s.Linked (i :: queue)) (k : Nat) :
    ((s.linkEntry i).1.info k).nChainTx = 0 ↔ (s.info k).nChainTx = 0 ∧ k ≠ i := by
  by_cases hk : k = i
  · subst hk
    obtain ⟨hi, hdata, -⟩ := h.queued k (by simp)
    have htx := (h.haveData k hi).mp hdata
    rw [info_linkEntry_self, linkedInfo]
    simp [htx]
  · rw [info_linkEntry_of_ne hk]
    simp [hk]

theorem Linked.nChainTx_linkEntry_ne {queue : List Nat} (h : s.Linked (i :: queue)) {k : Nat}
    (hk : (s.info k).nChainTx ≠ 0) : ((s.linkEntry i).1.info k).nChainTx ≠ 0 :=
  fun hz => hk ((h.nChainTx_linkEntry k).mp hz).1

theorem Linked.link_linkEntry {queue : List Nat} (h : s.Linked (i :: queue)) {k : Nat}
    (hk : k < s.tree.size) (hd : (s.status k).haveData = true)
    (hp : ∀ j, s.tree.parent k = some j → ((s.linkEntry i).1.info j).nChainTx ≠ 0) :
    ((s.linkEntry i).1.info k).nChainTx ≠ 0 ∨ k ∈ queue ++ (s.linkEntry i).2 := by
  have hchain := h.nChainTx_linkEntry
  rw [List.mem_append]
  by_cases hki : k = i
  · subst hki
    exact .inl fun hz => ((hchain k).mp hz).2 rfl
  by_cases hz : (s.info k).nChainTx = 0
  · right
    by_cases hq : k ∈ queue
    · exact .inl hq
    -- The parent has been linked just now, or the entry would have been queued before.
    · refine .inr ((mem_linkEntry h k).mpr ⟨?_, hd, hz, by simp [hki, hq]⟩)
      cases hpk : s.tree.parent k with
      | none =>
        rw [h.root k hk hpk] at hz
        exact absurd hz h.genesis.2
      | some j =>
        by_contra hji
        have hj : (s.info j).nChainTx ≠ 0 := by
          intro hzj
          exact hp j hpk ((hchain j).mpr ⟨hzj, fun heq => hji (by rw [heq])⟩)
        have hall : ∀ j', s.tree.parent k = some j' → (s.info j').nChainTx ≠ 0 := by
          intro j' hj'
          rw [← Option.some.inj (hpk.symm.trans hj')]
          exact hj
        rcases h.link k hk hd hall with hne | hmem
        · exact hne hz
        · simp [hki, hq] at hmem
  · exact .inl (h.nChainTx_linkEntry_ne hz)

theorem Linked.nodup_linkEntry {queue : List Nat} (h : s.Linked (i :: queue)) :
    (queue ++ (s.linkEntry i).2).Nodup := by
  refine List.nodup_append.mpr ⟨(List.nodup_cons.mp h.nodup.1).2, ?_, ?_⟩
  · rw [(mapBlocksUnlinked_linkEntry s i).2]
    refine List.Nodup.map_on ?_ (h.nodup.2.filter _)
    rintro ⟨a, b⟩ hab ⟨c, d⟩ hcd hbd
    simp only [List.mem_filter, beq_iff_eq] at hab hcd
    simp only at hbd
    rw [hab.2, hcd.2, hbd]
  · rintro a ha b hb rfl
    exact ((mem_linkEntry h a).mp hb).2.2.2 (by simp [ha])

theorem Linked.linkEntry {i : Nat} {queue : List Nat} (h : s.Linked (i :: queue)) :
    (s.linkEntry i).1.Linked (queue ++ (s.linkEntry i).2) := by
  obtain ⟨-, hdata, -, hparent⟩ := h.queued i (by simp)
  obtain ⟨hunlinked, -⟩ := mapBlocksUnlinked_linkEntry s i
  have hnew := mem_linkEntry h
  have htree := tree_linkEntry s i
  have hchain := h.nChainTx_linkEntry
  refine ⟨?_, ?_, ?_, ?_, ?_, ?_, ?_, ?_, ?_, ?_, ?_⟩
  · rw [htree]
    exact ⟨h.genesis.1, h.nChainTx_linkEntry_ne h.genesis.2⟩
  · rw [htree]
    exact h.root
  · simp only [htree, status_linkEntry, nTx_linkEntry]
    exact h.haveData
  · simp only [htree, status_linkEntry, nTx_linkEntry]
    exact h.transactions
  · simp only [htree, status_linkEntry]
    exact h.treeValid
  · intro k hk hz
    rw [htree] at hk
    obtain ⟨hz, hne⟩ := (hchain k).mp hz
    rw [info_linkEntry_of_ne hne]
    exact h.sequence k hk hz
  · intro k hk hne
    rw [htree] at hk ⊢
    rw [status_linkEntry]
    by_cases hki : k = i
    · subst hki
      exact ⟨hdata, fun j hj => h.nChainTx_linkEntry_ne (hparent j hj)⟩
    · obtain ⟨hd, hp⟩ := h.linked k hk fun hz => hne ((hchain k).mpr ⟨hz, hki⟩)
      exact ⟨hd, fun j hj => h.nChainTx_linkEntry_ne (hp j hj)⟩
  · intro k hk hd hp
    rw [htree] at hk hp
    rw [status_linkEntry] at hd
    exact h.link_linkEntry hk hd hp
  · intro k hk
    rw [htree, status_linkEntry]
    rcases List.mem_append.mp hk with hq | hk
    · obtain ⟨hlt, hd, hz, hp⟩ := h.queued k (by simp [hq])
      have hki : k ≠ i := fun heq => (List.nodup_cons.mp h.nodup.1).1 (heq ▸ hq)
      exact ⟨hlt, hd, (hchain k).mpr ⟨hz, hki⟩, fun j hj => h.nChainTx_linkEntry_ne (hp j hj)⟩
    · obtain ⟨hp, hd, hz, hq⟩ := (hnew k).mp hk
      refine ⟨parent_size_lt hp, hd, (hchain k).mpr ⟨hz, fun heq => hq (by simp [heq])⟩, ?_⟩
      intro j hj hzj
      have hji : j = i := Option.some.inj (hj.symm.trans hp)
      exact ((hchain j).mp hzj).2 hji
  · intro k j
    rw [hunlinked, htree, status_linkEntry, hchain, List.mem_filter, h.unlinked k j,
      List.mem_append, hnew]
    simp only [bne_iff_ne, ne_eq, List.mem_cons, not_or]
    constructor
    · rintro ⟨⟨hp, hd, hz, hki, hq⟩, hji⟩
      refine ⟨hp, hd, ⟨hz, hki⟩, hq, ?_⟩
      rintro ⟨hpi, -⟩
      exact hji (Option.some.inj (hp.symm.trans hpi))
    · rintro ⟨hp, hd, ⟨hz, hki⟩, hq, hnot⟩
      refine ⟨⟨hp, hd, hz, hki, hq⟩, ?_⟩
      rintro rfl
      exact hnot ⟨hp, hd, hz, hki, hq⟩
  · refine ⟨h.nodup_linkEntry, ?_⟩
    rw [hunlinked]
    exact h.nodup.2.filter _

theorem Active.linkEntry {queue : List Nat} (h : s.Linked (i :: queue)) (ha : s.Active t) :
    (s.linkEntry i).1.Active t where
  vChain := by rw [vChain_linkEntry, tree_linkEntry]; exact ha.vChain
  tip_lt := by rw [tree_linkEntry]; exact ha.tip_lt
  tip_linked := by
    rw [info_linkEntry_of_ne]
    · exact ha.tip_linked
    · rintro rfl
      exact ha.tip_linked (h.queued t (by simp)).2.2.1
  connected := by simp only [tree_linkEntry, status_linkEntry]; exact ha.connected
  chainValid := by simp only [tree_linkEntry, status_linkEntry]; exact ha.chainValid

theorem Untainted.of_linkEntry {k : Nat} (h : (s.linkEntry i).1.Untainted k) : s.Untainted k :=
  h.mono (tree_linkEntry s i) fun m hm => by rw [status_linkEntry]; exact hm

theorem Flagged.linkEntry (h : s.Flagged) (i : Nat) : (s.linkEntry i).1.Flagged := by
  intro k hk hf hu
  rw [tree_linkEntry] at hk
  rw [status_linkEntry] at hf
  exact h k hk hf hu.of_linkEntry

-- Linking an entry changes its own sort key only.
theorem worse_linkEntry {a b : Nat} (ha : a ≠ i) (hb : b ≠ i) :
    (s.linkEntry i).1.worse a b = s.worse a b :=
  worse_congr (tree_linkEntry s i) (by rw [info_linkEntry_of_ne ha])
    (by rw [info_linkEntry_of_ne hb])

theorem Candidates.linkEntry {queue : List Nat} (h : s.Linked (i :: queue)) (ha : s.Active t)
    (hc : s.Candidates t floor) : (s.linkEntry i).1.Candidates t floor := by
  obtain ⟨hi, -, hzero, -⟩ := h.queued i (by simp)
  have hne : ∀ k, (s.info k).nChainTx ≠ 0 → k ≠ i := by
    rintro k hk rfl
    exact hk hzero
  have hti := hne t ha.tip_linked
  have hfi := hne floor hc.floor_linked
  have hmem := mem_candidates_linkEntry ha.tip_eq i
  have hself : ((s.linkEntry i).1.info i).nChainTx ≠ 0 := by
    have htx := (h.haveData i hi).mp (h.queued i (by simp)).2.1
    rw [info_linkEntry_self, linkedInfo]
    simp [htx]
  have hfloor : (s.linkEntry i).1.worse floor t = false := by
    rw [worse_linkEntry hfi hti]
    exact hc.floor_tip
  refine ⟨?_, ?_, hfloor, ?_, ?_⟩
  · rw [tree_linkEntry]
    exact hc.floor_lt
  · rw [info_linkEntry_of_ne hfi]
    exact hc.floor_linked
  · intro k hk
    rw [tree_linkEntry]
    rcases (hmem k).mp hk with hk | ⟨rfl, hw⟩
    · obtain ⟨hlt, hlinked, hw⟩ := hc.sound k hk
      have hki := hne k hlinked
      rw [info_linkEntry_of_ne hki, worse_linkEntry hki hti]
      exact ⟨hlt, hlinked, hw⟩
    · exact ⟨hi, hself, hw⟩
  · intro k hk hlinked hu hw
    rw [tree_linkEntry] at hk
    by_cases hki : k = i
    · subst hki
      exact (hmem k).mpr (.inr ⟨rfl, not_worse_trans hw hfloor⟩)
    · rw [info_linkEntry_of_ne hki] at hlinked
      rw [worse_linkEntry hki hfi] at hw
      exact (hmem k).mpr (.inl (hc.complete k hk hlinked hu.of_linkEntry hw))

end LinkEntry

variable {s : BlockIndex} {t floor : Nat}

theorem linking_consistent (queue : List Nat) (h : s.Linked queue) (ha : s.Active t)
    (hf : s.Flagged) (hc : s.Candidates t floor) :
    (linking.run queue s).Consistent t floor := by
  have hrun := linking.run_invariant
    (fun queue s => s.Linked queue ∧ s.Active t ∧ s.Flagged ∧ s.Candidates t floor) ?_ queue s
    ⟨h, ha, hf, hc⟩
  · exact ⟨hrun.1, hrun.2.1, hrun.2.2.1, hrun.2.2.2⟩
  · rintro i queue s ⟨h, ha, hf, hc⟩
    exact ⟨h.linkEntry, .linkEntry h ha, hf.linkEntry i, .linkEntry h ha hc⟩

section Receive

variable {i nTx : Nat}

-- the entry of a block whose transactions have been received, before it is linked
def receivedInfo (s : BlockIndex) (i nTx : Nat) : BlockInfo :=
  { s.info i with
    nTx := nTx
    nChainTx := 0
    nStatus := BlockStatus.raiseValidity { s.status i with haveData := true, optWitness := true }
      BLOCK_VALID_TRANSACTIONS }

def received (s : BlockIndex) (i nTx : Nat) : BlockIndex :=
  s.modifyInfo i fun _ => s.receivedInfo i nTx

-- what AcceptBlock has checked when it calls ReceivedBlockTransactions
structure Receivable (s : BlockIndex) (i nTx : Nat) : Prop where
  lt : i < s.tree.size
  noData : (s.status i).haveData = false
  valid : (s.status i).failed = false
  parentValid : ∀ j, s.tree.parent i = some j → (s.status j).failed = false
  nTx_pos : 0 < nTx

theorem Receivable.nChainTx (hr : s.Receivable i nTx) (h : s.Linked []) :
    (s.info i).nChainTx = 0 := by
  by_contra hne
  have hdata := (h.linked i hr.lt hne).1
  rw [hr.noData] at hdata
  simp at hdata

theorem Receivable.nValid (hr : s.Receivable i nTx) (h : s.Linked []) :
    (s.status i).nValid < BLOCK_VALID_TRANSACTIONS := by
  by_contra hge
  have hpos := (h.transactions i hr.lt).mp (Nat.le_of_not_lt hge)
  have hdata := (h.haveData i hr.lt).mpr (Nat.pos_iff_ne_zero.mp hpos)
  rw [hr.noData] at hdata
  simp at hdata

theorem Receivable.nStatus (hr : s.Receivable i nTx) (h : s.Linked []) :
    (s.receivedInfo i nTx).nStatus = { s.status i with
      haveData := true, optWitness := true, nValid := BLOCK_VALID_TRANSACTIONS } := by
  have hf : BlockStatus.failed { s.status i with haveData := true, optWitness := true } = false :=
    hr.valid
  rw [receivedInfo, BlockStatus.raiseValidity, hf]
  simp [hr.nValid h]

theorem info_received_self : (s.received i nTx).info i = s.receivedInfo i nTx :=
  info_modifyInfo_self s i _

theorem info_received_of_ne {k : Nat} (hk : k ≠ i) : (s.received i nTx).info k = s.info k :=
  info_modifyInfo_of_ne s _ hk

theorem status_received_of_ne {k : Nat} (hk : k ≠ i) : (s.received i nTx).status k = s.status k := by
  rw [status, info_received_of_ne hk]
  rfl

theorem Receivable.status_self (hr : s.Receivable i nTx) (h : s.Linked []) :
    (s.received i nTx).status i = { s.status i with
      haveData := true, optWitness := true, nValid := BLOCK_VALID_TRANSACTIONS } := by
  rw [status, info_received_self]
  exact hr.nStatus h

theorem Receivable.keeps (hr : s.Receivable i nTx) (h : s.Linked []) :
    Keeps s (s.received i nTx) := by
  have hinfo : ∀ k, ((s.received i nTx).info k).nChainTx = (s.info k).nChainTx ∧
      ((s.received i nTx).info k).nSequenceId = (s.info k).nSequenceId ∧
      ((s.received i nTx).status k).failedValid = (s.status k).failedValid ∧
      ((s.received i nTx).status k).failedChild = (s.status k).failedChild := by
    intro k
    by_cases hk : k = i
    · subst hk
      rw [hr.status_self h, info_received_self]
      exact ⟨(hr.nChainTx h).symm, rfl, rfl, rfl⟩
    · rw [status_received_of_ne hk, info_received_of_ne hk]
      exact ⟨rfl, rfl, rfl, rfl⟩
  exact ⟨rfl, fun k => (hinfo k).1, fun k => (hinfo k).2.1, fun k => (hinfo k).2.2.1,
    fun k => (hinfo k).2.2.2⟩

theorem Receivable.active (hr : s.Receivable i nTx) (h : s.Linked []) (ha : s.Active t) :
    (s.received i nTx).Active t := by
  have hbranch : ∀ a ∈ s.tree.branch t, a ≠ i := by
    rintro a hmem rfl
    exact h.linked_of_mem ha.tip_lt ha.tip_linked hmem (hr.nChainTx h)
  refine ⟨ha.vChain, ha.tip_lt, ?_, ?_, ?_⟩
  · rw [(hr.keeps h).nChainTx]
    exact ha.tip_linked
  · intro a hmem ha0
    rw [status_received_of_ne (hbranch a hmem)]
    exact ha.connected a hmem ha0
  · intro k hk hv
    by_cases hki : k = i
    · subst hki
      rw [hr.status_self h] at hv
      have hv : BLOCK_VALID_CHAIN ≤ BLOCK_VALID_TRANSACTIONS := hv
      exact absurd hv (by decide)
    · rw [status_received_of_ne hki] at hv ⊢
      obtain ⟨hs, hp⟩ := ha.chainValid k hk hv
      refine ⟨hs, fun j hj hj0 => ?_⟩
      have hji : j ≠ i := by
        rintro rfl
        have hlow := hr.nValid h
        have hhigh := hp j hj hj0
        rw [BLOCK_VALID_TRANSACTIONS] at hlow
        rw [BLOCK_VALID_SCRIPTS] at hhigh
        omega
      rw [status_received_of_ne hji]
      exact hp j hj hj0

theorem Receivable.haveData_iff (hr : s.Receivable i nTx) (h : s.Linked []) (k : Nat) :
    ((s.received i nTx).status k).haveData = true ↔ (s.status k).haveData = true ∨ k = i := by
  by_cases hki : k = i
  · subst hki
    rw [hr.status_self h]
    simp
  · rw [status_received_of_ne hki]
    simp [hki]

-- What `Linked` says of an entry alone.
theorem Receivable.entry (hr : s.Receivable i nTx) (h : s.Linked []) {k : Nat}
    (hk : k < s.tree.size) :
    (((s.received i nTx).status k).haveData = true ↔ ((s.received i nTx).info k).nTx ≠ 0) ∧
      (BLOCK_VALID_TRANSACTIONS ≤ ((s.received i nTx).status k).nValid ↔
        0 < ((s.received i nTx).info k).nTx) ∧
      BLOCK_VALID_TREE ≤ ((s.received i nTx).status k).nValid := by
  by_cases hki : k = i
  · subst hki
    rw [hr.status_self h, info_received_self]
    refine ⟨iff_of_true rfl (Nat.pos_iff_ne_zero.mp hr.nTx_pos),
      iff_of_true (Nat.le_refl _) hr.nTx_pos, ?_⟩
    change BLOCK_VALID_TREE ≤ BLOCK_VALID_TRANSACTIONS
    decide
  · rw [status_received_of_ne hki, info_received_of_ne hki]
    exact ⟨h.haveData k hk, h.transactions k hk, h.treeValid k hk⟩

theorem Receivable.linked (hr : s.Receivable i nTx) (h : s.Linked []) (queue : List Nat)
    (mapBlocksUnlinked : List (Nat × Nat))
    (hlink : (∀ j, s.tree.parent i = some j → (s.info j).nChainTx ≠ 0) → i ∈ queue)
    (hqueue : ∀ k ∈ queue, k = i ∧ ∀ j, s.tree.parent i = some j → (s.info j).nChainTx ≠ 0)
    (hunlinked : ∀ k j, (j, k) ∈ mapBlocksUnlinked ↔ (j, k) ∈ s.mapBlocksUnlinked ∨
      (k = i ∧ s.tree.parent i = some j ∧ i ∉ queue))
    (hnodup : queue.Nodup ∧ mapBlocksUnlinked.Nodup) :
    Linked { s.received i nTx with mapBlocksUnlinked := mapBlocksUnlinked } queue := by
  have hchain := (hr.keeps h).nChainTx
  have hzero := hr.nChainTx h
  refine ⟨⟨h.genesis.1, ?_⟩, h.root, ?_, ?_, ?_, ?_, ?_, ?_, ?_, ?_, hnodup⟩
  · rw [hchain]
    exact h.genesis.2
  · exact fun k hk => (hr.entry h hk).1
  · exact fun k hk => (hr.entry h hk).2.1
  · exact fun k hk => (hr.entry h hk).2.2
  · intro k hk
    rw [hchain, (hr.keeps h).nSequenceId]
    exact h.sequence k hk
  · intro k hk hne
    have hlinked : (s.info k).nChainTx ≠ 0 := (hchain k).symm.trans_ne hne
    obtain ⟨hd, hp⟩ := h.linked k hk hlinked
    exact ⟨(hr.haveData_iff h k).mpr (.inl hd), fun j hj => (hchain j).trans_ne (hp j hj)⟩
  · intro k hk hd hp
    have hall : ∀ j, s.tree.parent k = some j → (s.info j).nChainTx ≠ 0 :=
      fun j hj => (hchain j).symm.trans_ne (hp j hj)
    rcases (hr.haveData_iff h k).mp hd with hd | rfl
    · rcases h.link k hk hd hall with hne | hmem
      · exact .inl ((hchain k).trans_ne hne)
      · simp at hmem
    · exact .inr (hlink hall)
  · intro k hk
    obtain ⟨rfl, hp⟩ := hqueue k hk
    exact ⟨hr.lt, (hr.haveData_iff h k).mpr (.inr rfl), (hchain k).trans hzero,
      fun j hj => (hchain j).trans_ne (hp j hj)⟩
  · intro k j
    rw [hunlinked, h.unlinked k j]
    change _ ↔ s.tree.parent k = some j ∧ ((s.received i nTx).status k).haveData = true ∧
      ((s.received i nTx).info k).nChainTx = 0 ∧ k ∉ queue
    rw [hr.haveData_iff h, hchain]
    constructor
    · rintro (⟨hp, hd, hz, -⟩ | ⟨rfl, hp, hq⟩)
      · refine ⟨hp, .inl hd, hz, fun hq => ?_⟩
        rw [(hqueue k hq).1, hr.noData] at hd
        simp at hd
      · exact ⟨hp, .inr rfl, hzero, hq⟩
    · rintro ⟨hp, hd | rfl, hz, hq⟩
      · exact .inl ⟨hp, hd, hz, by simp⟩
      · exact .inr ⟨rfl, hp, hq⟩

theorem receivedBlockTransactions_eq {j : Nat} (hp : s.tree.parent i = some j) :
    s.receivedBlockTransactions i nTx =
      if ((s.received i nTx).info j).nChainTx != 0 then linking.run [i] (s.received i nTx)
      else if ((s.received i nTx).status j).isValid BLOCK_VALID_TREE then
        { s.received i nTx with mapBlocksUnlinked := s.mapBlocksUnlinked ++ [(j, i)] }
      else s.received i nTx := by
  simp only [BlockIndex.receivedBlockTransactions, modifyInfo_tree, hp, Option.all_some,
    Option.any_some]
  rfl

theorem Consistent.receivedBlockTransactions (h : s.Consistent t floor)
    (hr : s.Receivable i nTx) : (s.receivedBlockTransactions i nTx).Consistent t floor := by
  have hkeeps := hr.keeps h.linked
  have hzero := hr.nChainTx h.linked
  have hactive := hr.active h.linked h.active
  have hflagged := hkeeps.flagged h.flagged
  have hcand := hkeeps.candidates rfl h.candidates
  cases hp : s.tree.parent i with
  | none =>
    rw [h.linked.root i hr.lt hp] at hzero
    exact absurd hzero h.linked.genesis.2
  | some j =>
    have hparent : (∀ k, s.tree.parent i = some k → (s.info k).nChainTx ≠ 0) ↔
        (s.info j).nChainTx ≠ 0 := by
      simp [hp]
    rw [receivedBlockTransactions_eq hp, hkeeps.nChainTx]
    by_cases hj : (s.info j).nChainTx = 0
    · have hji : j ≠ i := by
        have := s.tree.parent_lt hp
        omega
      have hvalid : ((s.received i nTx).status j).isValid BLOCK_VALID_TREE = true := by
        rw [status_received_of_ne hji, BlockStatus.isValid, hr.parentValid j hp]
        simpa using h.linked.treeValid j (parent_lt_size hp)
      rw [if_neg (by simp [hj]), if_pos hvalid]
      refine ⟨?_, hactive.congr rfl rfl fun k => .refl _, hflagged, hcand.floor_lt,
        hcand.floor_linked, hcand.floor_tip, hcand.sound, hcand.complete⟩
      refine hr.linked h.linked [] _ (fun hall => absurd hj (hparent.mp hall)) (by simp) ?_ ?_
      · intro k m
        simp [hp, and_comm, eq_comm]
      · refine ⟨List.nodup_nil, List.nodup_append.mpr ⟨h.linked.nodup.2, by simp, ?_⟩⟩
        rintro p hmem q hq rfl
        rw [List.mem_singleton.mp hq, h.linked.unlinked, hr.noData] at hmem
        simp at hmem
    · rw [if_pos (by simpa using hj)]
      refine linking_consistent [i] ?_ hactive hflagged hcand
      refine hr.linked h.linked [i] s.mapBlocksUnlinked (fun _ => by simp) ?_ (by simp) ?_
      · intro k hk
        exact ⟨List.mem_singleton.mp hk, hparent.mpr hj⟩
      · exact ⟨List.nodup_singleton i, h.linked.nodup.2⟩

-- A block that links up and for which no child waits.
theorem receivedBlockTransactions_leaf {j : Nat} (hp : s.tree.parent i = some j)
    (hj : (s.info j).nChainTx ≠ 0) (hleaf : ((s.received i nTx).linkEntry i).2 = []) :
    s.receivedBlockTransactions i nTx = ((s.received i nTx).linkEntry i).1 := by
  have hji : j ≠ i := by
    have := s.tree.parent_lt hp
    omega
  have hlinked : ((s.received i nTx).info j).nChainTx ≠ 0 := by
    rw [info_received_of_ne hji]
    exact hj
  rw [receivedBlockTransactions_eq hp, if_pos (by simpa using hlinked), Worklist.run_cons]
  change linking.run ([] ++ ((s.received i nTx).linkEntry i).2) ((s.received i nTx).linkEntry i).1 = _
  rw [hleaf, List.append_nil, Worklist.run_nil]

end Receive

end BlockIndex

end AnkerNode
