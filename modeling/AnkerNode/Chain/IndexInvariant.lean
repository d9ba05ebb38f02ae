import AnkerNode.Chain.BlockIndex

namespace AnkerNode

namespace BlockIndex

open RankedForest

section Order

variable {s : BlockIndex}

theorem worse_iff {a b : Nat} :
    s.worse a b = true ↔ s.tree.nChainWork a < s.tree.nChainWork b ∨
      (s.tree.nChainWork a = s.tree.nChainWork b ∧
        ((s.info b).nSequenceId < (s.info a).nSequenceId ∨
          ((s.info a).nSequenceId = (s.info b).nSequenceId ∧ b < a))) := by
  simp [worse]

theorem worse_eq_false_iff {a b : Nat} :
    s.worse a b = false ↔ ¬ (s.tree.nChainWork a < s.tree.nChainWork b ∨
      (s.tree.nChainWork a = s.tree.nChainWork b ∧
        ((s.info b).nSequenceId < (s.info a).nSequenceId ∨
          ((s.info a).nSequenceId = (s.info b).nSequenceId ∧ b < a)))) := by
  rw [← worse_iff, Bool.not_eq_true]

theorem not_worse_trans {a b c : Nat} (hab : s.worse a b = false) (hbc : s.worse b c = false) :
    s.worse a c = false := by
  rw [worse_eq_false_iff] at hab hbc ⊢
  omega

theorem not_worse_of_worse {a b : Nat} (h : s.worse a b = true) : s.worse b a = false := by
  rw [worse_iff] at h
  rw [worse_eq_false_iff]
  omega

theorem not_worse_self (a : Nat) : s.worse a a = false := by
  rw [worse_eq_false_iff]
  omega

theorem not_worse_of_mem_branch {a i : Nat} (h : a ∈ s.tree.branch i) : s.worse i a = false := by
  by_cases hne : a = i
  · rw [hne]
    exact not_worse_self i
  · have hwork := BlockTree.nChainWork_lt_of_mem_branch h hne
    rw [worse_eq_false_iff]
    omega

theorem worse_congr {s' : BlockIndex} {a b : Nat} (htree : s'.tree = s.tree)
    (ha : (s'.info a).nSequenceId = (s.info a).nSequenceId)
    (hb : (s'.info b).nSequenceId = (s.info b).nSequenceId) : s'.worse a b = s.worse a b := by
  simp only [worse, htree, ha, hb]

end Order

-- no ancestor-or-self is FAILED_VALID
def Untainted (s : BlockIndex) (i : Nat) : Prop :=
  ∀ a ∈ s.tree.branch i, (s.status a).failedValid = false

-- no ancestor-or-self misses its data
def Complete (s : BlockIndex) (i : Nat) : Prop :=
  ∀ a ∈ s.tree.branch i, (s.status a).haveData = true

-- The assertions of CheckBlockIndex, entry by entry, for the active tip `t`. An entry has to be
-- a candidate when it sorts worse neither than the tip nor than `floor`; the source has the tip
-- for `floor`.
structure Checked (s : BlockIndex) (t floor : Nat) : Prop where
  tip : s.tip = some t
  oneRoot : ∀ i < s.tree.size, s.tree.parent i = none ↔ i = 0
  genesis : s.vChain[0]? = some 0
  haveData : ∀ i < s.tree.size, (s.status i).haveData = true ↔ (s.info i).nTx ≠ 0
  transactions : ∀ i < s.tree.size,
    BLOCK_VALID_TRANSACTIONS ≤ (s.status i).nValid ↔ 0 < (s.info i).nTx
  sequence : ∀ i < s.tree.size, (s.info i).nChainTx = 0 → (s.info i).nSequenceId = 0
  linked : ∀ i < s.tree.size, s.Complete i ↔ (s.info i).nChainTx ≠ 0
  height : ∀ i < s.tree.size, s.tree.height i + 1 = (s.tree.branch i).length
  work : ∀ i j, s.tree.parent i = some j → s.tree.nChainWork j ≤ s.tree.nChainWork i
  skip : ∀ i < s.tree.size, 2 ≤ s.tree.height i →
    ∃ k, s.tree.pskip i = some k ∧ s.tree.height k < s.tree.height i
  treeValid : ∀ i < s.tree.size, i ≠ 0 → BLOCK_VALID_TREE ≤ (s.status i).nValid
  chainValid : ∀ i < s.tree.size, BLOCK_VALID_CHAIN ≤ (s.status i).nValid →
    ∀ a ∈ s.tree.branch i, a ≠ 0 → BLOCK_VALID_CHAIN ≤ (s.status a).nValid
  scriptsValid : ∀ i < s.tree.size, BLOCK_VALID_SCRIPTS ≤ (s.status i).nValid →
    ∀ a ∈ s.tree.branch i, a ≠ 0 → BLOCK_VALID_SCRIPTS ≤ (s.status a).nValid
  failed : ∀ i < s.tree.size, s.Untainted i → (s.status i).failed = false
  candidates : ∀ i < s.tree.size, s.worse i t = false → s.worse i floor = false →
    s.Complete i → s.Untainted i → i ∈ s.setBlockIndexCandidates
  notCandidates : ∀ i < s.tree.size, s.worse i t = true ∨ ¬ s.Complete i →
    i ∉ s.setBlockIndexCandidates
  unlinked : ∀ i j, s.tree.parent i = some j → (s.status i).haveData = true → ¬ s.Complete i →
    s.Untainted i → (j, i) ∈ s.mapBlocksUnlinked
  notUnlinked : ∀ i j, s.tree.parent i = some j →
    ¬ ((s.status i).haveData = true ∧ ¬ s.Complete i) → (j, i) ∉ s.mapBlocksUnlinked

end BlockIndex

namespace BlockIndex

open RankedForest

section Updates

variable (s : BlockIndex)

@[simp] theorem modifyInfo_tree (i : Nat) (f : BlockInfo → BlockInfo) :
    (s.modifyInfo i f).tree = s.tree := rfl

theorem info_modifyInfo_self (i : Nat) (f : BlockInfo → BlockInfo) :
    (s.modifyInfo i f).info i = f (s.info i) := Function.update_self ..

theorem info_modifyInfo_of_ne {i k : Nat} (f : BlockInfo → BlockInfo) (h : k ≠ i) :
    (s.modifyInfo i f).info k = s.info k := Function.update_of_ne h ..

theorem status_modifyStatus_self (i : Nat) (f : BlockStatus → BlockStatus) :
    (s.modifyStatus i f).status i = f (s.status i) := by
  rw [status, modifyStatus, info_modifyInfo_self]
  rfl

theorem status_modifyStatus_of_ne {i k : Nat} (f : BlockStatus → BlockStatus) (h : k ≠ i) :
    (s.modifyStatus i f).status k = s.status k := by
  rw [status, modifyStatus, info_modifyInfo_of_ne s _ h]
  rfl

theorem info_modifyStatus (i k : Nat) (f : BlockStatus → BlockStatus) :
    (s.modifyStatus i f).info k = { s.info k with nStatus := (s.modifyStatus i f).status k } := by
  by_cases hk : k = i
  · subst hk
    rw [status_modifyStatus_self, modifyStatus, info_modifyInfo_self]
    rfl
  · rw [status_modifyStatus_of_ne s f hk, modifyStatus, info_modifyInfo_of_ne s _ hk]
    rfl

theorem status_eraseCandidate (i k : Nat) : (s.eraseCandidate i).status k = s.status k := rfl

end Updates

structure SameData (e e' : BlockInfo) : Prop where
  nTx : e'.nTx = e.nTx
  nChainTx : e'.nChainTx = e.nChainTx
  nSequenceId : e'.nSequenceId = e.nSequenceId
  haveData : e'.nStatus.haveData = e.nStatus.haveData
  treeValid : BLOCK_VALID_TREE ≤ e.nStatus.nValid → BLOCK_VALID_TREE ≤ e'.nStatus.nValid
  transactions : BLOCK_VALID_TRANSACTIONS ≤ e'.nStatus.nValid ↔
    BLOCK_VALID_TRANSACTIONS ≤ e.nStatus.nValid

structure SameUpToFlags (e e' : BlockInfo) : Prop where
  nTx : e'.nTx = e.nTx
  nChainTx : e'.nChainTx = e.nChainTx
  nSequenceId : e'.nSequenceId = e.nSequenceId
  haveData : e'.nStatus.haveData = e.nStatus.haveData
  haveUndo : e'.nStatus.haveUndo = e.nStatus.haveUndo
  nValid : e'.nStatus.nValid = e.nStatus.nValid

theorem SameData.refl (e : BlockInfo) : SameData e e := ⟨rfl, rfl, rfl, rfl, id, Iff.rfl⟩

theorem SameUpToFlags.refl (e : BlockInfo) : SameUpToFlags e e := ⟨rfl, rfl, rfl, rfl, rfl, rfl⟩

theorem SameUpToFlags.trans {e e' e'' : BlockInfo} (h : SameUpToFlags e e')
    (h' : SameUpToFlags e' e'') : SameUpToFlags e e'' :=
  ⟨h'.nTx.trans h.nTx, h'.nChainTx.trans h.nChainTx, h'.nSequenceId.trans h.nSequenceId,
    h'.haveData.trans h.haveData, h'.haveUndo.trans h.haveUndo, h'.nValid.trans h.nValid⟩

theorem SameUpToFlags.data {e e' : BlockInfo} (h : SameUpToFlags e e') : SameData e e' :=
  ⟨h.nTx, h.nChainTx, h.nSequenceId, h.haveData, fun hv => by rwa [h.nValid], by rw [h.nValid]⟩

-- What has been received and linked, with `queue` the entries that wait to be linked.
structure Linked (s : BlockIndex) (queue : List Nat) : Prop where
  genesis : 0 < s.tree.size ∧ (s.info 0).nChainTx ≠ 0
  root : ∀ i < s.tree.size, s.tree.parent i = none → i = 0
  haveData : ∀ i < s.tree.size, (s.status i).haveData = true ↔ (s.info i).nTx ≠ 0
  transactions : ∀ i < s.tree.size,
    BLOCK_VALID_TRANSACTIONS ≤ (s.status i).nValid ↔ 0 < (s.info i).nTx
  treeValid : ∀ i < s.tree.size, BLOCK_VALID_TREE ≤ (s.status i).nValid
  sequence : ∀ i < s.tree.size, (s.info i).nChainTx = 0 → (s.info i).nSequenceId = 0
  linked : ∀ i < s.tree.size, (s.info i).nChainTx ≠ 0 →
    (s.status i).haveData = true ∧ ∀ j, s.tree.parent i = some j → (s.info j).nChainTx ≠ 0
  link : ∀ i < s.tree.size, (s.status i).haveData = true →
    (∀ j, s.tree.parent i = some j → (s.info j).nChainTx ≠ 0) →
      (s.info i).nChainTx ≠ 0 ∨ i ∈ queue
  queued : ∀ i ∈ queue, i < s.tree.size ∧ (s.status i).haveData = true ∧
    (s.info i).nChainTx = 0 ∧ ∀ j, s.tree.parent i = some j → (s.info j).nChainTx ≠ 0
  unlinked : ∀ i j, (j, i) ∈ s.mapBlocksUnlinked ↔ s.tree.parent i = some j ∧
    (s.status i).haveData = true ∧ (s.info i).nChainTx = 0 ∧ i ∉ queue
  nodup : queue.Nodup ∧ s.mapBlocksUnlinked.Nodup

-- the active chain, for its tip `t`
structure Active (s : BlockIndex) (t : Nat) : Prop where
  vChain : s.vChain = (s.tree.branch t).reverse
  tip_lt : t < s.tree.size
  tip_linked : (s.info t).nChainTx ≠ 0
  connected : ∀ a ∈ s.tree.branch t, a ≠ 0 →
    BLOCK_VALID_SCRIPTS ≤ (s.status a).nValid ∧ (s.status a).haveUndo = true
  chainValid : ∀ i < s.tree.size, BLOCK_VALID_CHAIN ≤ (s.status i).nValid →
    BLOCK_VALID_SCRIPTS ≤ (s.status i).nValid ∧ ∀ j, s.tree.parent i = some j → j ≠ 0 →
      BLOCK_VALID_SCRIPTS ≤ (s.status j).nValid

def Flagged (s : BlockIndex) : Prop :=
  ∀ i < s.tree.size, (s.status i).failed = true → ¬ s.Untainted i

-- `floor` is an entry the tip does not beat
structure Candidates (s : BlockIndex) (t floor : Nat) : Prop where
  floor_lt : floor < s.tree.size
  floor_linked : (s.info floor).nChainTx ≠ 0
  floor_tip : s.worse floor t = false
  sound : ∀ i ∈ s.setBlockIndexCandidates,
    i < s.tree.size ∧ (s.info i).nChainTx ≠ 0 ∧ s.worse i t = false
  complete : ∀ i < s.tree.size, (s.info i).nChainTx ≠ 0 → s.Untainted i →
    s.worse i floor = false → i ∈ s.setBlockIndexCandidates

structure Consistent (s : BlockIndex) (t floor : Nat) : Prop where
  linked : s.Linked []
  active : s.Active t
  flagged : s.Flagged
  candidates : s.Candidates t floor

section Checks

variable {s : BlockIndex} {t floor : Nat}

theorem parent_size_lt {i j : Nat} (h : s.tree.parent i = some j) : i < s.tree.size := by
  by_contra hlt
  rw [s.tree.parent_size (by omega)] at h
  simp at h

theorem parent_lt_size {i j : Nat} (h : s.tree.parent i = some j) : j < s.tree.size := by
  have hi := parent_size_lt h
  have hj := s.tree.parent_lt h
  omega

theorem mem_branch_lt {a i : Nat} (h : a ∈ s.tree.branch i) (hi : i < s.tree.size) :
    a < s.tree.size := by
  have hle := le_of_mem_branch h
  omega

theorem parent_zero : s.tree.parent 0 = none := by
  cases hp : s.tree.parent 0 with
  | none => rfl
  | some j =>
    have hlt := s.tree.parent_lt hp
    omega

theorem Untainted.of_mem {a i : Nat} (h : s.Untainted i) (ha : a ∈ s.tree.branch i) :
    s.Untainted a := fun b hb => h b (mem_branch_trans hb ha)

theorem Linked.complete_iff (h : s.Linked []) {i : Nat} (hi : i < s.tree.size) :
    s.Complete i ↔ (s.info i).nChainTx ≠ 0 := by
  induction i using s.tree.branch_induction with
  | root i hp =>
    have hroot := h.root i hi hp
    subst hroot
    have hdata := (h.linked 0 hi h.genesis.2).1
    refine iff_of_true ?_ h.genesis.2
    intro a ha
    rw [branch_of_none hp, List.mem_singleton] at ha
    rw [ha]
    exact hdata
  | step i j hp ih =>
    have hj := ih (parent_lt_size hp)
    constructor
    · intro hall
      have hparent : (s.info j).nChainTx ≠ 0 :=
        hj.mp fun a ha => hall a ((mem_branch_of_parent hp).mpr (.inr ha))
      have hlink := h.link i hi (hall i (self_mem_branch i)) fun k hk => by
        rw [hp] at hk
        rw [← Option.some.inj hk]
        exact hparent
      simpa using hlink
    · intro hne a ha
      obtain ⟨hdata, hparent⟩ := h.linked i hi hne
      rcases (mem_branch_of_parent hp).mp ha with rfl | ha
      · exact hdata
      · exact hj.mpr (hparent j hp) a ha

theorem Linked.linked_of_mem (h : s.Linked []) {a i : Nat} (hi : i < s.tree.size)
    (hne : (s.info i).nChainTx ≠ 0) (ha : a ∈ s.tree.branch i) : (s.info a).nChainTx ≠ 0 := by
  rw [← h.complete_iff (mem_branch_lt ha hi)]
  intro b hb
  exact (h.complete_iff hi).mpr hne b (mem_branch_trans hb ha)

theorem zero_mem_branch (h : s.Linked []) {i : Nat} (hi : i < s.tree.size) :
    0 ∈ s.tree.branch i := by
  induction i using s.tree.branch_induction with
  | root i hp =>
    rw [h.root i hi hp]
    exact self_mem_branch 0
  | step i j hp ih => exact (mem_branch_of_parent hp).mpr (.inr (ih (parent_lt_size hp)))

theorem Active.tip_eq (h : s.Active t) : s.tip = some t := by
  rw [tip, h.vChain, List.getLast?_reverse]
  cases hp : s.tree.parent t with
  | none => rw [branch_of_none hp]; rfl
  | some j => rw [branch_of_some hp]; rfl

theorem Active.contains_iff (h : s.Active t) {a : Nat} :
    s.contains a = true ↔ a ∈ s.tree.branch t := by
  rw [contains, h.vChain, getElem?_reverse_branch, beq_iff_eq, mem_branch_iff_ancestorAt]

theorem Active.scripts_branch (h : s.Active t) {a i : Nat} (hi : i < s.tree.size)
    (hv : i ≠ 0 → BLOCK_VALID_SCRIPTS ≤ (s.status i).nValid) (ha : a ∈ s.tree.branch i)
    (ha0 : a ≠ 0) : BLOCK_VALID_SCRIPTS ≤ (s.status a).nValid := by
  induction i using s.tree.branch_induction with
  | root i hp =>
    rw [branch_of_none hp, List.mem_singleton] at ha
    subst ha
    exact hv ha0
  | step i j hp ih =>
    have hi0 : i ≠ 0 := by
      rintro rfl
      rw [parent_zero] at hp
      simp at hp
    have hchain : BLOCK_VALID_CHAIN ≤ (s.status i).nValid :=
      Nat.le_trans (by decide) (hv hi0)
    rcases (mem_branch_of_parent hp).mp ha with rfl | ha
    · exact hv ha0
    · exact ih (parent_lt_size hp) ((h.chainValid i hi hchain).2 j hp) ha

theorem skip_lt {i : Nat} (hh : 2 ≤ s.tree.height i) :
    ∃ k, s.tree.pskip i = some k ∧ s.tree.height k < s.tree.height i := by
  obtain ⟨j, hj⟩ := BlockTree.exists_parent (t := s.tree) (i := i) (by omega)
  have hlt := getSkipHeight_lt (s.tree.height i) (by omega)
  have hparent := s.tree.height_parent hj
  obtain ⟨k, hk, hkh⟩ := exists_ancestor (t := s.tree.toRankedForest) (i := j)
    (h := getSkipHeight (s.tree.height i)) (by omega)
  refine ⟨k, ?_, by omega⟩
  rw [s.tree.pskip_parent hj]
  exact ancestorAt_eq_some.mpr ⟨hk, hkh⟩

theorem Consistent.checked (h : s.Consistent t floor) : s.Checked t floor where
  tip := h.active.tip_eq
  oneRoot := by
    intro i hi
    refine ⟨h.linked.root i hi, ?_⟩
    rintro rfl
    exact parent_zero
  genesis := by
    have h0 := zero_mem_branch h.linked h.active.tip_lt
    rw [h.active.vChain, getElem?_reverse_branch]
    exact ancestorAt_eq_some.mpr ⟨h0, s.tree.height_root parent_zero⟩
  haveData := h.linked.haveData
  transactions := h.linked.transactions
  sequence := h.linked.sequence
  linked := fun i hi => h.linked.complete_iff hi
  height := fun i _ => (length_branch i).symm
  work := fun i j hp => (s.tree.nChainWork_parent hp).le
  skip := fun i _ hh => skip_lt hh
  treeValid := fun i hi _ => h.linked.treeValid i hi
  chainValid := by
    intro i hi hv a ha ha0
    have hscripts := h.active.scripts_branch hi (fun _ => (h.active.chainValid i hi hv).1) ha ha0
    exact Nat.le_trans (by decide) hscripts
  scriptsValid := fun i hi hv a ha ha0 => h.active.scripts_branch hi (fun _ => hv) ha ha0
  failed := by
    intro i hi hu
    cases hf : (s.status i).failed with
    | false => rfl
    | true => exact absurd hu (h.flagged i hi hf)
  candidates := by
    intro i hi _ hfloor hcomplete hu
    exact h.candidates.complete i hi ((h.linked.complete_iff hi).mp hcomplete) hu hfloor
  notCandidates := by
    intro i hi hbad hmem
    obtain ⟨-, hlinked, hnot⟩ := h.candidates.sound i hmem
    rcases hbad with hworse | hcomplete
    · rw [hnot] at hworse
      simp at hworse
    · exact hcomplete ((h.linked.complete_iff hi).mpr hlinked)
  unlinked := by
    intro i j hp hdata hcomplete _
    have hzero : (s.info i).nChainTx = 0 := by
      by_contra hne
      exact hcomplete ((h.linked.complete_iff (parent_size_lt hp)).mpr hne)
    exact (h.linked.unlinked i j).mpr ⟨hp, hdata, hzero, by simp⟩
  notUnlinked := by
    intro i j hp hnot hmem
    obtain ⟨-, hdata, hzero, -⟩ := (h.linked.unlinked i j).mp hmem
    refine hnot ⟨hdata, fun hcomplete => ?_⟩
    exact (h.linked.complete_iff (parent_size_lt hp)).mp hcomplete hzero

end Checks

section Congruence

variable {s s' : BlockIndex} {t floor : Nat}

theorem Linked.congr {queue : List Nat} (h : s.Linked queue) (htree : s'.tree = s.tree)
    (hunlinked : s'.mapBlocksUnlinked = s.mapBlocksUnlinked)
    (hinfo : ∀ i, SameData (s.info i) (s'.info i)) : s'.Linked queue where
  genesis := by rw [htree, (hinfo 0).nChainTx]; exact h.genesis
  root := by rw [htree]; exact h.root
  haveData := by
    intro i hi
    rw [htree] at hi
    rw [status, (hinfo i).haveData, (hinfo i).nTx]
    exact h.haveData i hi
  transactions := by
    intro i hi
    rw [htree] at hi
    rw [status, (hinfo i).transactions, (hinfo i).nTx]
    exact h.transactions i hi
  treeValid := by
    intro i hi
    rw [htree] at hi
    exact (hinfo i).treeValid (h.treeValid i hi)
  sequence := by
    intro i hi
    rw [htree] at hi
    rw [(hinfo i).nChainTx, (hinfo i).nSequenceId]
    exact h.sequence i hi
  linked := by
    intro i hi
    rw [htree] at hi ⊢
    simp only [status, (hinfo _).nChainTx, (hinfo _).haveData]
    exact h.linked i hi
  link := by
    intro i hi
    rw [htree] at hi ⊢
    simp only [status, (hinfo _).nChainTx, (hinfo _).haveData]
    exact h.link i hi
  queued := by
    intro i hi
    rw [htree]
    simp only [status, (hinfo _).nChainTx, (hinfo _).haveData]
    exact h.queued i hi
  unlinked := by
    intro i j
    rw [htree, hunlinked]
    simp only [status, (hinfo _).nChainTx, (hinfo _).haveData]
    exact h.unlinked i j
  nodup := by rw [hunlinked]; exact h.nodup

theorem Active.congr (h : s.Active t) (htree : s'.tree = s.tree) (hchain : s'.vChain = s.vChain)
    (hinfo : ∀ i, SameUpToFlags (s.info i) (s'.info i)) : s'.Active t where
  vChain := by rw [hchain, htree]; exact h.vChain
  tip_lt := by rw [htree]; exact h.tip_lt
  tip_linked := by rw [(hinfo t).nChainTx]; exact h.tip_linked
  connected := by
    rw [htree]
    simp only [status, (hinfo _).nValid, (hinfo _).haveUndo]
    exact h.connected
  chainValid := by
    rw [htree]
    simp only [status, (hinfo _).nValid]
    exact h.chainValid

theorem Untainted.mono {i : Nat} (h : s'.Untainted i) (htree : s'.tree = s.tree)
    (hmono : ∀ k, (s.status k).failedValid = true → (s'.status k).failedValid = true) :
    s.Untainted i := by
  intro a ha
  rw [← htree] at ha
  cases hf : (s.status a).failedValid with
  | false => rfl
  | true =>
    have hclear := h a ha
    rw [hmono a hf] at hclear
    simp at hclear

end Congruence

def raiseFloor (s : BlockIndex) (floor t : Nat) : Nat := if s.worse floor t then t else floor

-- a step that keeps what is linked and what is marked as failed
structure Keeps (s s' : BlockIndex) : Prop where
  tree : s'.tree = s.tree
  nChainTx : ∀ k, (s'.info k).nChainTx = (s.info k).nChainTx
  nSequenceId : ∀ k, (s'.info k).nSequenceId = (s.info k).nSequenceId
  failedValid : ∀ k, (s'.status k).failedValid = (s.status k).failedValid
  failedChild : ∀ k, (s'.status k).failedChild = (s.status k).failedChild

namespace Keeps

variable {s s' s'' : BlockIndex}

theorem trans (h : Keeps s s') (h' : Keeps s' s'') : Keeps s s'' :=
  ⟨h'.tree.trans h.tree, fun k => (h'.nChainTx k).trans (h.nChainTx k),
    fun k => (h'.nSequenceId k).trans (h.nSequenceId k),
    fun k => (h'.failedValid k).trans (h.failedValid k),
    fun k => (h'.failedChild k).trans (h.failedChild k)⟩

theorem worse_eq (h : Keeps s s') (a b : Nat) : s'.worse a b = s.worse a b :=
  worse_congr h.tree (h.nSequenceId a) (h.nSequenceId b)

theorem raiseFloor_eq (h : Keeps s s') (floor t : Nat) :
    s'.raiseFloor floor t = s.raiseFloor floor t := by
  rw [raiseFloor, raiseFloor, h.worse_eq]

theorem failed_eq (h : Keeps s s') (k : Nat) : (s'.status k).failed = (s.status k).failed := by
  rw [BlockStatus.failed, BlockStatus.failed, h.failedValid, h.failedChild]

theorem untainted (h : Keeps s s') {k : Nat} (hk : s'.Untainted k) : s.Untainted k :=
  hk.mono h.tree fun m hm => (h.failedValid m).trans hm

theorem flagged (h : Keeps s s') (hf : s.Flagged) : s'.Flagged := by
  intro k hk hfailed hu
  rw [h.tree] at hk
  rw [h.failed_eq] at hfailed
  exact hf k hk hfailed (h.untainted hu)

theorem candidates (h : Keeps s s') {t floor : Nat}
    (hcand : s'.setBlockIndexCandidates = s.setBlockIndexCandidates) (hc : s.Candidates t floor) :
    s'.Candidates t floor where
  floor_lt := by rw [h.tree]; exact hc.floor_lt
  floor_linked := by rw [h.nChainTx]; exact hc.floor_linked
  floor_tip := by rw [h.worse_eq]; exact hc.floor_tip
  sound := by
    intro i hi
    rw [hcand] at hi
    rw [h.tree, h.nChainTx, h.worse_eq]
    exact hc.sound i hi
  complete := by
    intro i hi hlinked hu hw
    rw [h.tree] at hi
    rw [h.nChainTx] at hlinked
    rw [h.worse_eq] at hw
    rw [hcand]
    exact hc.complete i hi hlinked (h.untainted hu) hw

end Keeps

end BlockIndex

end AnkerNode
