import AnkerNode.Chain.IndexRun

namespace AnkerNode

namespace BlockStatus

@[simp] theorem clearFailed_failed (st : BlockStatus) : st.clearFailed.failed = false := rfl

@[simp] theorem clearFailed_clearFailed (st : BlockStatus) :
    st.clearFailed.clearFailed = st.clearFailed := rfl

theorem clearFailed_of_valid {st : BlockStatus} (h : st.failed = false) : st.clearFailed = st := by
  obtain ⟨hv, hc⟩ := Bool.or_eq_false_iff.mp h
  cases st
  simp_all [clearFailed]

end BlockStatus

namespace BlockIndex

open RankedForest

-- a step that clears the failure flags of exactly the entries in `P`
structure Clears (P : Nat → Prop) (s s' : BlockIndex) : Prop where
  tree : s'.tree = s.tree
  vChain : s'.vChain = s.vChain
  nChainTx : ∀ k, (s'.info k).nChainTx = (s.info k).nChainTx
  nSequenceId : ∀ k, (s'.info k).nSequenceId = (s.info k).nSequenceId
  cleared : ∀ k, P k → s'.status k = (s.status k).clearFailed
  kept : ∀ k, ¬ P k → s'.status k = s.status k

namespace Clears

variable {s s' s'' : BlockIndex} {P Q : Nat → Prop}

theorem refl (s : BlockIndex) : Clears (fun _ => False) s s :=
  ⟨rfl, rfl, fun _ => rfl, fun _ => rfl, fun _ h => h.elim, fun _ _ => rfl⟩

theorem trans (h : Clears P s s') (h' : Clears Q s' s'') : Clears (fun k => P k ∨ Q k) s s'' where
  tree := h'.tree.trans h.tree
  vChain := h'.vChain.trans h.vChain
  nChainTx := fun k => (h'.nChainTx k).trans (h.nChainTx k)
  nSequenceId := fun k => (h'.nSequenceId k).trans (h.nSequenceId k)
  cleared := by
    intro k hk
    by_cases hp : P k
    · by_cases hq : Q k
      · rw [h'.cleared k hq, h.cleared k hp, BlockStatus.clearFailed_clearFailed]
      · rw [h'.kept k hq, h.cleared k hp]
    · rw [h'.cleared k (hk.resolve_left hp), h.kept k hp]
  kept := by
    intro k hk
    rw [not_or] at hk
    rw [h'.kept k hk.2, h.kept k hk.1]

theorem congr (h : Clears P s s') (hPQ : ∀ k, P k ↔ Q k) : Clears Q s s' :=
  ⟨h.tree, h.vChain, h.nChainTx, h.nSequenceId, fun k hk => h.cleared k ((hPQ k).mpr hk),
    fun k hk => h.kept k fun hp => hk ((hPQ k).mp hp)⟩

theorem frame (h : Clears P s s') (htree : s''.tree = s'.tree) (hchain : s''.vChain = s'.vChain)
    (hinfo : s''.info = s'.info) : Clears P s s'' :=
  ⟨htree.trans h.tree, hchain.trans h.vChain, fun k => by rw [hinfo]; exact h.nChainTx k,
    fun k => by rw [hinfo]; exact h.nSequenceId k,
    fun k hk => by rw [status, hinfo]; exact h.cleared k hk,
    fun k hk => by rw [status, hinfo]; exact h.kept k hk⟩

theorem worse_eq (h : Clears P s s') (a b : Nat) : s'.worse a b = s.worse a b :=
  worse_congr h.tree (h.nSequenceId a) (h.nSequenceId b)

theorem tip_eq (h : Clears P s s') : s'.tip = s.tip := by
  rw [tip, tip, h.vChain]

theorem failedValid_iff (h : Clears P s s') (k : Nat) :
    (s'.status k).failedValid = true ↔ (s.status k).failedValid = true ∧ ¬ P k := by
  by_cases hp : P k
  · rw [h.cleared k hp]
    simp [BlockStatus.clearFailed, hp]
  · rw [h.kept k hp]
    simp [hp]

theorem failed_iff (h : Clears P s s') (k : Nat) :
    (s'.status k).failed = true ↔ (s.status k).failed = true ∧ ¬ P k := by
  by_cases hp : P k
  · rw [h.cleared k hp]
    simp [hp]
  · rw [h.kept k hp]
    simp [hp]

theorem haveData_eq (h : Clears P s s') (k : Nat) :
    (s'.status k).haveData = (s.status k).haveData := by
  by_cases hp : P k
  · rw [h.cleared k hp]
    rfl
  · rw [h.kept k hp]

theorem complete_iff (h : Clears P s s') (k : Nat) : s'.Complete k ↔ s.Complete k := by
  simp only [Complete, h.tree, h.haveData_eq]

theorem modifyStatus (s : BlockIndex) (i : Nat) :
    Clears (fun k => k = i) s (s.modifyStatus i BlockStatus.clearFailed) := by
  refine ⟨rfl, rfl, fun k => ?_, fun k => ?_, fun k hk => ?_, fun k hk => ?_⟩
  · rw [info_modifyStatus]
  · rw [info_modifyStatus]
  · rw [hk]
    exact status_modifyStatus_self s i _
  · exact status_modifyStatus_of_ne s _ hk

theorem foldl_modifyStatus (ks : List Nat) (s : BlockIndex) :
    Clears (fun k => k ∈ ks) s
      (ks.foldl (fun s a => s.modifyStatus a BlockStatus.clearFailed) s) ∧
    (ks.foldl (fun s a => s.modifyStatus a BlockStatus.clearFailed) s).setBlockIndexCandidates =
      s.setBlockIndexCandidates := by
  induction ks generalizing s with
  | nil => exact ⟨(refl s).congr (by simp), rfl⟩
  | cons m ks ih =>
    obtain ⟨hrest, hcand⟩ := ih (s.modifyStatus m BlockStatus.clearFailed)
    exact ⟨((modifyStatus s m).trans hrest).congr (by simp), hcand⟩

end Clears

theorem getAncestor_eq_some_iff {s : BlockIndex} {i p : Nat} :
    s.tree.getAncestor i (s.tree.height p) = some p ↔ p ∈ s.tree.branch i := by
  by_cases hle : s.tree.height p ≤ s.tree.height i
  · rw [BlockTree.getAncestor_eq hle, ← mem_branch_iff_ancestorAt]
  · rw [BlockTree.getAncestor, if_pos (by omega)]
    refine iff_of_false (by simp) fun hmem => hle (height_le_of_mem_branch hmem)

-- the entries the first loop of ReconsiderBlock inserts
def Gains (s : BlockIndex) (p k : Nat) : Prop :=
  p ∈ s.tree.branch k ∧ (s.status k).failed = true ∧
    BLOCK_VALID_TRANSACTIONS ≤ (s.status k).nValid ∧ (s.info k).nChainTx ≠ 0 ∧
    ∀ t, s.tip = some t → s.worse t k = true

section FirstLoop

variable {s : BlockIndex} {p : Nat}

theorem gains_iff {m : Nat} (hmem : p ∈ s.tree.branch m)
    (hv : (s.status m).isValid BLOCK_VALID_TRANSACTIONS = false) :
    (((s.modifyStatus m BlockStatus.clearFailed).status m).isValid BLOCK_VALID_TRANSACTIONS &&
      ((s.modifyStatus m BlockStatus.clearFailed).info m).nChainTx != 0 &&
      (s.modifyStatus m BlockStatus.clearFailed).tip.all fun t =>
        (s.modifyStatus m BlockStatus.clearFailed).worse t m) = true ↔ s.Gains p m := by
  have hclear := Clears.modifyStatus s m
  rw [hclear.cleared m rfl, hclear.nChainTx, hclear.tip_eq, BlockStatus.isValid]
  simp only [hclear.worse_eq, BlockStatus.clearFailed_failed, Bool.not_false, Bool.true_and,
    Bool.and_eq_true, decide_eq_true_eq, bne_iff_ne, Option.all_eq_true, Gains]
  have hvalid : BLOCK_VALID_TRANSACTIONS ≤ (s.status m).nValid → (s.status m).failed = true := by
    intro hle
    by_contra hf
    rw [BlockStatus.isValid] at hv
    simp [hf, hle] at hv
  constructor
  · rintro ⟨⟨hle, hlinked⟩, hw⟩
    exact ⟨hmem, hvalid hle, hle, hlinked, hw⟩
  · rintro ⟨-, -, hle, hlinked, hw⟩
    exact ⟨⟨hle, hlinked⟩, hw⟩

theorem reconsiderEntry_spec (s : BlockIndex) (p m : Nat) :
    Clears (fun k => k = m ∧ p ∈ s.tree.branch k) s (reconsiderEntry p s m) ∧
      ∀ k, k ∈ (reconsiderEntry p s m).setBlockIndexCandidates ↔
        k ∈ s.setBlockIndexCandidates ∨ (k = m ∧ s.Gains p k) := by
  rw [reconsiderEntry]
  by_cases hmem : p ∈ s.tree.branch m
  · have hanc : (s.tree.getAncestor m (s.tree.height p) == some p) = true := by
      rw [beq_iff_eq]
      exact getAncestor_eq_some_iff.mpr hmem
    have hclear : Clears (fun k => k = m ∧ p ∈ s.tree.branch k) s
        (s.modifyStatus m BlockStatus.clearFailed) := (Clears.modifyStatus s m).congr fun k =>
      ⟨fun hk => ⟨hk, hk ▸ hmem⟩, fun hk => hk.1⟩
    rw [hanc, Bool.and_true]
    cases hv : (s.status m).isValid BLOCK_VALID_TRANSACTIONS with
    | true =>
      rw [BlockStatus.isValid, Bool.and_eq_true, Bool.not_eq_true', decide_eq_true_eq] at hv
      refine ⟨⟨rfl, rfl, fun _ => rfl, fun _ => rfl, ?_, fun _ _ => rfl⟩, fun k => ?_⟩
      · rintro k ⟨rfl, -⟩
        exact (BlockStatus.clearFailed_of_valid hv.1).symm
      · refine (or_iff_left ?_).symm
        rintro ⟨rfl, -, hf, -⟩
        rw [hv.1] at hf
        simp at hf
    | false =>
      rw [Bool.not_false, if_pos rfl]
      have hgain := gains_iff hmem hv
      constructor
      · refine hclear.frame ?_ ?_ ?_
        all_goals
          simp only
          split <;> split <;> rfl
      · intro k
        simp only
        split
        · rename_i hcond
          have hg := hgain.mp hcond
          have hmemk : k ∈ ((s.modifyStatus m BlockStatus.clearFailed).insertCandidate
              m).setBlockIndexCandidates ↔ k ∈ s.setBlockIndexCandidates ∨ (k = m ∧ s.Gains p k) := by
            simp only [insertCandidate, List.mem_insert_iff]
            constructor
            · rintro (rfl | hk)
              · exact .inr ⟨rfl, hg⟩
              · exact .inl hk
            · rintro (hk | ⟨rfl, -⟩)
              · exact .inr hk
              · exact .inl rfl
          split <;> exact hmemk
        · rename_i hcond
          have hmemk : k ∈ s.setBlockIndexCandidates ↔
              k ∈ s.setBlockIndexCandidates ∨ (k = m ∧ s.Gains p k) := by
            refine (or_iff_left ?_).symm
            rintro ⟨rfl, hg⟩
            exact hcond (hgain.mpr hg)
          split <;> exact hmemk
  · have hanc : (s.tree.getAncestor m (s.tree.height p) == some p) = false := by
      rw [beq_eq_false_iff_ne]
      exact fun heq => hmem (getAncestor_eq_some_iff.mp heq)
    rw [hanc, Bool.and_false, if_neg (by simp)]
    refine ⟨⟨rfl, rfl, fun _ => rfl, fun _ => rfl, ?_, fun _ _ => rfl⟩, fun k => ?_⟩
    · rintro k ⟨rfl, hk⟩
      exact absurd hk hmem
    · refine (or_iff_left ?_).symm
      rintro ⟨rfl, hk, -⟩
      exact absurd hk hmem

theorem foldl_reconsiderEntry (p : Nat) (ks : List Nat) (s : BlockIndex) :
    Clears (fun k => k ∈ ks ∧ p ∈ s.tree.branch k) s (ks.foldl (reconsiderEntry p) s) ∧
      ∀ k, k ∈ (ks.foldl (reconsiderEntry p) s).setBlockIndexCandidates ↔
        k ∈ s.setBlockIndexCandidates ∨ (k ∈ ks ∧ s.Gains p k) := by
  induction ks generalizing s with
  | nil => exact ⟨(Clears.refl s).congr (by simp), by simp⟩
  | cons m ks ih =>
    rw [List.foldl_cons]
    obtain ⟨hstep, hstepc⟩ := reconsiderEntry_spec s p m
    obtain ⟨hrest, hrestc⟩ := ih (reconsiderEntry p s m)
    refine ⟨(hstep.trans hrest).congr fun k => ?_, fun k => ?_⟩
    · rw [hstep.tree, List.mem_cons]
      tauto
    · -- An entry already cleared is not inserted again, and every other one keeps its flags.
      have hgains : k ≠ m → ((reconsiderEntry p s m).Gains p k ↔ s.Gains p k) := by
        intro hk
        have hkept : ¬ (k = m ∧ p ∈ s.tree.branch k) := fun h => hk h.1
        simp only [Gains, hstep.tree, hstep.kept k hkept, hstep.nChainTx, hstep.tip_eq,
          hstep.worse_eq]
      have hself : (reconsiderEntry p s m).Gains p m → s.Gains p m := by
        rintro ⟨hmem, hf, -⟩
        rw [hstep.tree] at hmem
        rw [hstep.cleared m ⟨rfl, hmem⟩] at hf
        simp at hf
      rw [hrestc, hstepc, List.mem_cons]
      by_cases hk : k = m
      · subst hk
        constructor
        · rintro ((hc | ⟨-, hg⟩) | ⟨-, hg⟩)
          · exact .inl hc
          · exact .inr ⟨.inl rfl, hg⟩
          · exact .inr ⟨.inl rfl, hself hg⟩
        · rintro (hc | ⟨-, hg⟩)
          · exact .inl (.inl hc)
          · exact .inl (.inr ⟨rfl, hg⟩)
      · rw [hgains hk]
        simp [hk]

end FirstLoop

-- `p`, one of its ancestors or one of its descendants
def OnLine (s : BlockIndex) (p i : Nat) : Prop := p ∈ s.tree.branch i ∨ i ∈ s.tree.branch p

-- every invalid ancestor-or-self lies on the line of `p`
def Released (s : BlockIndex) (p i : Nat) : Prop :=
  ∀ a ∈ s.tree.branch i, (s.status a).failedValid = true → s.OnLine p a

structure Restored (s : BlockIndex) (t : Nat) : Prop where
  failed : ∀ i < s.tree.size, s.Untainted i → (s.status i).failed = false
  candidates : ∀ i < s.tree.size, s.Complete i → s.Untainted i → s.worse i t = false →
    i ∈ s.setBlockIndexCandidates

-- What has to hold before: an entry that stays flagged stays below an invalid one, and an entry
-- that gets rid of its last invalid ancestor is a candidate already or a flagged descendant of
-- `p` that beats the tip.
structure Reconsiderable (s : BlockIndex) (t p : Nat) : Prop where
  failed : ∀ i < s.tree.size, (s.status i).failed = true → ¬ s.OnLine p i → ¬ s.Released p i
  candidates : ∀ i < s.tree.size, s.Complete i → ¬ s.Untainted i → s.Released p i →
    s.worse i t = false → i ∈ s.setBlockIndexCandidates ∨
      (p ∈ s.tree.branch i ∧ (s.status i).failed = true ∧ s.worse t i = true)

section Reconsider

variable {s : BlockIndex} {t p : Nat}

theorem reconsiderBlock_spec (s : BlockIndex) (p : Nat) :
    Clears (fun k => (k < s.tree.size ∧ p ∈ s.tree.branch k) ∨ k ∈ s.tree.branch p) s
        (s.reconsiderBlock p) ∧
      ∀ k, k ∈ (s.reconsiderBlock p).setBlockIndexCandidates ↔
        k ∈ s.setBlockIndexCandidates ∨ (k < s.tree.size ∧ s.Gains p k) := by
  obtain ⟨hfirst, hfirstc⟩ := foldl_reconsiderEntry p (List.range s.tree.size) s
  obtain ⟨hsecond, hsecondc⟩ := Clears.foldl_modifyStatus
    (((List.range s.tree.size).foldl (reconsiderEntry p) s).tree.branch p)
    ((List.range s.tree.size).foldl (reconsiderEntry p) s)
  rw [reconsiderBlock]
  refine ⟨(hfirst.trans hsecond).congr fun k => ?_, fun k => ?_⟩
  · rw [hfirst.tree, List.mem_range]
  · rw [hsecondc, hfirstc, List.mem_range]

theorem clears_reconsiderBlock (s : BlockIndex) (p : Nat) {k : Nat} (hk : k < s.tree.size) :
    ((k < s.tree.size ∧ p ∈ s.tree.branch k) ∨ k ∈ s.tree.branch p) ↔ s.OnLine p k := by
  simp [OnLine, hk]

theorem untainted_reconsiderBlock {i : Nat} (hi : i < s.tree.size) :
    (s.reconsiderBlock p).Untainted i ↔ s.Released p i := by
  obtain ⟨hclear, -⟩ := reconsiderBlock_spec s p
  rw [Untainted, hclear.tree]
  refine forall₂_congr fun a ha => ?_
  have halt := mem_branch_lt ha hi
  rw [← Bool.not_eq_true, hclear.failedValid_iff, clears_reconsiderBlock s p halt, not_and,
    not_not]

theorem Checked.nValid_of_complete {floor i : Nat} (h : s.Checked t floor) (hi : i < s.tree.size)
    (hc : s.Complete i) : BLOCK_VALID_TRANSACTIONS ≤ (s.status i).nValid := by
  have hdata := hc i (self_mem_branch i)
  exact (h.transactions i hi).mpr (Nat.pos_of_ne_zero ((h.haveData i hi).mp hdata))

theorem reconsiderBlock_restores_iff (h : s.Checked t t) (p : Nat) :
    (s.reconsiderBlock p).Restored t ↔ s.Reconsiderable t p := by
  obtain ⟨hclear, hcand⟩ := reconsiderBlock_spec s p
  constructor
  · intro hr
    refine ⟨fun i hi hf hline hrel => ?_, fun i hi hc _ hrel hw => ?_⟩
    · have hclean := hr.failed i (by rw [hclear.tree]; exact hi)
        ((untainted_reconsiderBlock hi).mpr hrel)
      have hfailed := (hclear.failed_iff i).mpr
        ⟨hf, fun hp => hline ((clears_reconsiderBlock s p hi).mp hp)⟩
      rw [hclean] at hfailed
      simp at hfailed
    · have hmem := hr.candidates i (by rw [hclear.tree]; exact hi) ((hclear.complete_iff i).mpr hc)
        ((untainted_reconsiderBlock hi).mpr hrel) (by rw [hclear.worse_eq]; exact hw)
      rcases (hcand i).mp hmem with hmem | ⟨-, hp, hf, -, -, hbeats⟩
      · exact .inl hmem
      · exact .inr ⟨hp, hf, hbeats t h.tip⟩
  · intro hr
    refine ⟨fun i hi hu => ?_, fun i hi hc hu hw => ?_⟩
    · rw [hclear.tree] at hi
      rw [← Bool.not_eq_true, hclear.failed_iff, clears_reconsiderBlock s p hi]
      rintro ⟨hf, hline⟩
      exact hr.failed i hi hf hline ((untainted_reconsiderBlock hi).mp hu)
    · rw [hclear.tree] at hi
      rw [hclear.complete_iff] at hc
      rw [hclear.worse_eq] at hw
      rw [hcand]
      by_cases hun : s.Untainted i
      · exact .inl (h.candidates i hi hw hw hc hun)
      · rcases hr.candidates i hi hc hun ((untainted_reconsiderBlock hi).mp hu) hw with
          hmem | ⟨hp, hf, hbeats⟩
        · exact .inl hmem
        · refine .inr ⟨hi, hp, hf, h.nValid_of_complete hi hc, (h.linked i hi).mp hc, ?_⟩
          intro t' ht'
          rw [← Option.some.inj (h.tip.symm.trans ht')]
          exact hbeats

def indexA2 : BlockIndex :=
  (((indexA1.addToBlockIndex ⟨2, 1, 1, Nat.one_pos⟩).received 2 1).linkEntry 2).1.activateBestChain
    fun _ => true

def invalidatedA1 : BlockIndex := (indexA2.invalidateBlock 1).1

theorem invalidatedA1_checked : invalidatedA1.Checked 0 0 := by
  have hA2 := indexA1_reachable.extend ⟨2, 1, 1, by decide⟩ 2 1
    (by decide +kernel) (by decide +kernel) (by decide +kernel) (by decide +kernel)
    (by decide +kernel) (by decide +kernel)
  obtain ⟨t, ht⟩ := (Reachable.activateBestChain _ 1 (fun _ => true) hA2).consistent
  obtain ⟨t', ht'⟩ := ht.invalidateBlock 1
  have htip : invalidatedA1.tip = some 0 := by decide +kernel
  have ht0 : t' = 0 := Option.some.inj (ht'.active.tip_eq.symm.trans htip)
  rw [ht0] at ht'
  exact ht'.checked

theorem reconsiderBlock_restores_invalidatedA1 :
    (invalidatedA1.reconsiderBlock 1).Restored 0 ↔ invalidatedA1.Reconsiderable 0 1 :=
  reconsiderBlock_restores_iff invalidatedA1_checked 1

-- ReconsiderBlock(A2) clears A1 and A2 but makes only A2 a candidate.
theorem reconsiderBlock_omits_ancestor : ∃ (s : BlockIndex) (t p : Nat), s.Checked t t ∧
    p < s.tree.size ∧ ¬ (s.reconsiderBlock p).Restored t := by
  refine ⟨invalidatedA1, 0, 2, invalidatedA1_checked, by decide +kernel, fun hr => ?_⟩
  have hnot : 1 ∉ (invalidatedA1.reconsiderBlock 2).setBlockIndexCandidates := by decide +kernel
  refine hnot (hr.candidates 1 (by decide +kernel) ?_ ?_ (by decide +kernel))
  · have hdata : ∀ a ∈ (invalidatedA1.reconsiderBlock 2).tree.branch 1,
        ((invalidatedA1.reconsiderBlock 2).status a).haveData = true := by decide +kernel
    exact hdata
  · have hclear : ∀ a ∈ (invalidatedA1.reconsiderBlock 2).tree.branch 1,
        ((invalidatedA1.reconsiderBlock 2).status a).failedValid = false := by decide +kernel
    exact hclear

end Reconsider

end BlockIndex

end AnkerNode
