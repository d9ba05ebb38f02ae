import AnkerNode.Chain.IndexInvariant

namespace AnkerNode

namespace BlockIndex

open RankedForest

-- A step that marks entries as failed, only ones with an invalid ancestor-or-self, and that
-- removes from the candidates only such entries.
structure Taints (s s' : BlockIndex) : Prop where
  tree : s'.tree = s.tree
  vChain : s'.vChain = s.vChain
  unlinked : s'.mapBlocksUnlinked = s.mapBlocksUnlinked
  info : ∀ k, SameUpToFlags (s.info k) (s'.info k)
  failedValid : ∀ k, (s.status k).failedValid = true → (s'.status k).failedValid = true
  failed : ∀ k, (s'.status k).failed = true → (s.status k).failed = true ∨ ¬ s'.Untainted k
  subset : ∀ k ∈ s'.setBlockIndexCandidates, k ∈ s.setBlockIndexCandidates
  kept : ∀ k ∈ s.setBlockIndexCandidates, s'.Untainted k → k ∈ s'.setBlockIndexCandidates

namespace Taints

variable {s s' s'' : BlockIndex} {t floor : Nat}

theorem refl (s : BlockIndex) : Taints s s :=
  ⟨rfl, rfl, rfl, fun k => .refl (s.info k), fun _ h => h, fun _ h => .inl h, fun _ h => h,
    fun _ h _ => h⟩

theorem untainted (h : Taints s s') {k : Nat} (hk : s'.Untainted k) : s.Untainted k :=
  hk.mono h.tree h.failedValid

theorem trans (h : Taints s s') (h' : Taints s' s'') : Taints s s'' where
  tree := h'.tree.trans h.tree
  vChain := h'.vChain.trans h.vChain
  unlinked := h'.unlinked.trans h.unlinked
  info := fun k => (h.info k).trans (h'.info k)
  failedValid := fun k hk => h'.failedValid k (h.failedValid k hk)
  failed := by
    intro k hk
    rcases h'.failed k hk with hk | hk
    · rcases h.failed k hk with hk | hk
      · exact .inl hk
      · exact .inr fun hu => hk (h'.untainted hu)
    · exact .inr hk
  subset := fun k hk => h.subset k (h'.subset k hk)
  kept := fun k hk hu => h'.kept k (h.kept k hk (h'.untainted hu)) hu

theorem worse_eq (h : Taints s s') (a b : Nat) : s'.worse a b = s.worse a b :=
  worse_congr h.tree (h.info a).nSequenceId (h.info b).nSequenceId

theorem linked (h : Taints s s') (hs : s.Linked []) : s'.Linked [] :=
  hs.congr h.tree h.unlinked fun i => (h.info i).data

theorem active (h : Taints s s') (hs : s.Active t) : s'.Active t := hs.congr h.tree h.vChain h.info

theorem flagged (h : Taints s s') (hs : s.Flagged) : s'.Flagged := by
  intro i hi hf
  rw [h.tree] at hi
  rcases h.failed i hf with hf | hf
  · exact fun hu => hs i hi hf (h.untainted hu)
  · exact hf

theorem candidates (h : Taints s s') (hs : s.Candidates t floor) : s'.Candidates t floor where
  floor_lt := by rw [h.tree]; exact hs.floor_lt
  floor_linked := by rw [(h.info floor).nChainTx]; exact hs.floor_linked
  floor_tip := by rw [h.worse_eq]; exact hs.floor_tip
  sound := by
    intro i hi
    rw [h.tree, (h.info i).nChainTx, h.worse_eq]
    exact hs.sound i (h.subset i hi)
  complete := by
    intro i hi hlinked hu hfloor
    rw [h.tree] at hi
    rw [(h.info i).nChainTx] at hlinked
    rw [h.worse_eq] at hfloor
    exact h.kept i (hs.complete i hi hlinked (h.untainted hu) hfloor) hu

theorem consistent (h : Taints s s') (hs : s.Consistent t floor) : s'.Consistent t floor :=
  ⟨h.linked hs.linked, h.active hs.active, h.flagged hs.flagged, h.candidates hs.candidates⟩

theorem invalidChainFound (s : BlockIndex) (i : Nat) : Taints s (s.invalidChainFound i) :=
  ⟨rfl, rfl, rfl, fun k => .refl (s.info k), fun _ h => h, fun _ h => .inl h, fun _ h => h,
    fun _ h _ => h⟩

theorem eraseCandidate {i : Nat} (hi : ¬ s.Untainted i) : Taints s (s.eraseCandidate i) where
  tree := rfl
  vChain := rfl
  unlinked := rfl
  info := fun k => .refl (s.info k)
  failedValid := fun _ h => h
  failed := fun _ h => .inl h
  subset := fun _ h => (List.mem_filter.mp h).1
  kept := by
    intro k hk hu
    refine List.mem_filter.mpr ⟨hk, ?_⟩
    simp only [bne_iff_ne, ne_eq]
    rintro rfl
    exact hi hu

theorem modifyStatus {i : Nat} {f : BlockStatus → BlockStatus}
    (hinfo : ∀ e : BlockInfo, SameUpToFlags e { e with nStatus := f e.nStatus })
    (hfailed : ∀ st : BlockStatus, st.failedValid = true → (f st).failedValid = true)
    (hi : ¬ (s.modifyStatus i f).Untainted i) : Taints s (s.modifyStatus i f) where
  tree := rfl
  vChain := rfl
  unlinked := rfl
  info := by
    intro k
    by_cases hk : k = i
    · subst hk
      rw [BlockIndex.modifyStatus, info_modifyInfo_self]
      exact hinfo (s.info k)
    · rw [BlockIndex.modifyStatus, info_modifyInfo_of_ne s _ hk]
      exact .refl (s.info k)
  failedValid := by
    intro k hf
    by_cases hk : k = i
    · subst hk
      rw [status_modifyStatus_self]
      exact hfailed _ hf
    · rw [status_modifyStatus_of_ne s f hk]
      exact hf
  failed := by
    intro k hf
    by_cases hk : k = i
    · subst hk
      exact .inr hi
    · rw [status_modifyStatus_of_ne s f hk] at hf
      exact .inl hf
  subset := fun _ h => h
  kept := fun _ h _ => h

theorem failValid (s : BlockIndex) (i : Nat) :
    Taints s ((s.modifyStatus i fun st => { st with failedValid := true }).eraseCandidate i) := by
  have hi : ¬ (s.modifyStatus i fun st => { st with failedValid := true }).Untainted i := by
    intro hu
    have hclear := hu i (self_mem_branch i)
    rw [status_modifyStatus_self] at hclear
    simp at hclear
  exact (modifyStatus (fun e => ⟨rfl, rfl, rfl, rfl, rfl, rfl⟩) (fun _ _ => rfl) hi).trans
    (eraseCandidate hi)

theorem failChild {i : Nat} (hi : ¬ s.Untainted i) :
    Taints s ((s.modifyStatus i fun st => { st with failedChild := true }).eraseCandidate i) := by
  have hmono : ∀ k, (s.status k).failedValid = true →
      ((s.modifyStatus i fun st => { st with failedChild := true }).status k).failedValid = true := by
    intro k hf
    by_cases hk : k = i
    · subst hk
      rw [status_modifyStatus_self]
      exact hf
    · rw [status_modifyStatus_of_ne s _ hk]
      exact hf
  have hi' : ¬ (s.modifyStatus i fun st => { st with failedChild := true }).Untainted i :=
    fun hu => hi (hu.mono rfl hmono)
  have hmark : Taints s (s.modifyStatus i fun st => { st with failedChild := true }) :=
    modifyStatus (fun e => ⟨rfl, rfl, rfl, rfl, rfl, rfl⟩) (fun _ h => h) hi'
  exact hmark.trans (eraseCandidate hi')

theorem invalidBlockFound (s : BlockIndex) (i : Nat) : Taints s (s.invalidBlockFound i) :=
  (failValid s i).trans (invalidChainFound _ i)

end Taints

section MostWork

variable {s : BlockIndex} {t floor : Nat}

theorem failed_rejectAbove {pindexTest k : Nat} (h : (s.status pindexTest).failed = true) :
    ((rejectAbove pindexTest s k).status pindexTest).failed = true := by
  simp only [rejectAbove, h, if_true, status_eraseCandidate]
  by_cases hk : pindexTest = k
  · subst hk
    rw [status_modifyStatus_self]
    simp [BlockStatus.failed]
  · rw [status_modifyStatus_of_ne s _ hk]
    exact h

theorem taints_foldl_rejectAbove (pindexTest : Nat) (ks : List Nat) {s : BlockIndex}
    (h : (s.status pindexTest).failed = true) (hks : ∀ k ∈ ks, ¬ s.Untainted k) :
    Taints s (ks.foldl (rejectAbove pindexTest) s) := by
  induction ks generalizing s with
  | nil => exact .refl s
  | cons k ks ih =>
    have hstep : Taints s (rejectAbove pindexTest s k) := by
      simp only [rejectAbove, h, if_true]
      exact .failChild (hks k (by simp))
    refine hstep.trans (ih (failed_rejectAbove h) ?_)
    intro m hm hu
    exact hks m (by simp [hm]) (hstep.untainted hu)

theorem not_untainted_above {a i : Nat} (ha : a ∈ s.tree.branch i) (h : ¬ s.Untainted a) :
    ¬ s.Untainted i := fun hu => h (hu.of_mem ha)

theorem Consistent.taints_rejectChain (h : s.Consistent t floor) {pindexNew pindexTest : Nat}
    (hnew : pindexNew ∈ s.setBlockIndexCandidates) (htest : pindexTest ∈ s.tree.branch pindexNew)
    (hbad : s.unusable pindexTest = true) : Taints s (s.rejectChain pindexNew pindexTest) := by
  obtain ⟨hlt, hlinked, -⟩ := h.candidates.sound pindexNew hnew
  have htestlt := mem_branch_lt htest hlt
  -- A candidate is linked, so the entry that stops the walk does have its data.
  have hdata := (h.linked.linked pindexTest htestlt (h.linked.linked_of_mem hlt hlinked htest)).1
  have hfailed : (s.status pindexTest).failed = true := by
    simpa [unusable, hdata] using hbad
  have htainted := h.flagged pindexTest htestlt hfailed
  simp only [rejectChain, hfailed, if_true]
  have hfound := Taints.invalidChainFound s pindexNew
  have hfold := taints_foldl_rejectAbove pindexTest
    ((s.tree.branch pindexNew).takeWhile fun a => a != pindexTest)
    (s := s.invalidChainFound pindexNew) hfailed fun k hk hu =>
      not_untainted_above (mem_branch_of_mem_takeWhile htest hk) htainted (hfound.untainted hu)
  refine (hfound.trans hfold).trans (.eraseCandidate fun hu => htainted ?_)
  exact (hfound.trans hfold).untainted hu

theorem bestCandidate_mem {m : Nat} (h : s.bestCandidate = some m) :
    m ∈ s.setBlockIndexCandidates := by
  refine (Best.best_eq_some ?_ ?_ ?_ h).1
  · exact fun a b c => not_worse_trans
  · exact fun a b => not_worse_of_worse
  · exact not_worse_self

theorem findMostWorkChainFrom_spec (fuel : Nat) {s : BlockIndex} (h : s.Consistent t floor) :
    Taints s (findMostWorkChainFrom fuel s).1 ∧
      ∀ m, (findMostWorkChainFrom fuel s).2 = some m →
        m ∈ (findMostWorkChainFrom fuel s).1.setBlockIndexCandidates ∧
        ∀ a ∈ (findMostWorkChainFrom fuel s).1.path m,
          (findMostWorkChainFrom fuel s).1.unusable a = false := by
  induction fuel generalizing s with
  | zero => exact ⟨.refl s, by simp [findMostWorkChainFrom]⟩
  | succ fuel ih =>
    rw [findMostWorkChainFrom]
    cases hbest : s.bestCandidate with
    | none => exact ⟨.refl s, by simp⟩
    | some pindexNew =>
      have hnew := bestCandidate_mem hbest
      simp only
      cases hfind : (s.path pindexNew).find? s.unusable with
      | none =>
        refine ⟨.refl s, fun m hm => ?_⟩
        rw [← Option.some.inj hm]
        refine ⟨hnew, fun a ha => ?_⟩
        simpa using List.find?_eq_none.mp hfind a ha
      | some pindexTest =>
        have htest : pindexTest ∈ s.tree.branch pindexNew :=
          (List.takeWhile_prefix _).subset (List.mem_of_find?_eq_some hfind)
        have hstep := h.taints_rejectChain hnew htest (List.find?_some hfind)
        obtain ⟨htaints, hspec⟩ := ih (hstep.consistent h)
        exact ⟨hstep.trans htaints, hspec⟩

end MostWork

section Rewind

variable {s : BlockIndex} {t floor : Nat}

theorem Active.vChain_setTip (h : s.Active t) (i : Nat) :
    (s.setTip i).vChain = (s.tree.branch i).reverse := by
  simp only [setTip]
  induction i using s.tree.branch_induction with
  | root i hp =>
    by_cases hc : s.contains i = true
    · obtain ⟨pre, hpre⟩ := branch_suffix (h.contains_iff.mp hc)
      simp [h.vChain, hpre, branch_of_none hp, hc, s.tree.height_root hp]
    · simp [branch_of_none hp, hc, s.tree.height_root hp]
  | step i j hp ih =>
    by_cases hc : s.contains i = true
    · obtain ⟨pre, hpre⟩ := branch_suffix (h.contains_iff.mp hc)
      have hlen := length_branch (t := s.tree.toRankedForest) i
      have hfresh : (s.tree.branch i).takeWhile (fun a => !s.contains a) = [] := by
        simp [branch_of_some hp, hc]
      rw [hfresh, h.vChain, hpre, List.reverse_append]
      simp [← hlen]
    · rw [branch_of_some hp, List.takeWhile_cons_of_pos (by simpa using hc), List.reverse_cons,
        List.reverse_cons, List.length_cons, s.tree.height_parent hp, Nat.add_sub_add_right,
        ← List.append_assoc, ih]

-- Moving the tip down the chain only shortens the chain.
theorem Consistent.rewind (h : s.Consistent t floor) {f : Nat} (hf : f ∈ s.tree.branch t) :
    (s.setTip f).Consistent f floor where
  linked := h.linked.congr rfl rfl fun i => .refl (s.info i)
  active :=
    { vChain := h.active.vChain_setTip f
      tip_lt := mem_branch_lt hf h.active.tip_lt
      tip_linked := h.linked.linked_of_mem h.active.tip_lt h.active.tip_linked hf
      connected := fun a ha => h.active.connected a (mem_branch_trans ha hf)
      chainValid := h.active.chainValid }
  flagged := h.flagged
  candidates :=
    { floor_lt := h.candidates.floor_lt
      floor_linked := h.candidates.floor_linked
      floor_tip := not_worse_trans h.candidates.floor_tip (not_worse_of_mem_branch hf)
      sound := by
        intro i hi
        obtain ⟨hlt, hlinked, hnot⟩ := h.candidates.sound i hi
        exact ⟨hlt, hlinked, not_worse_trans hnot (not_worse_of_mem_branch hf)⟩
      complete := h.candidates.complete }

theorem Consistent.disconnectTip_eq (h : s.Consistent t floor) :
    s.disconnectTip = (s.tree.parent t).map fun j => s.setTip j := by
  rw [disconnectTip, h.active.tip_eq, Option.bind_some]
  cases hp : s.tree.parent t with
  | none => simp
  | some j =>
    have ht0 : t ≠ 0 := by
      rintro rfl
      rw [parent_zero] at hp
      simp at hp
    rw [(h.active.connected t (self_mem_branch t) ht0).2]
    rfl

theorem Consistent.disconnectTo_spec {f : Nat} (fuel : Nat) {s : BlockIndex} {t : Nat}
    (h : s.Consistent t floor) (hf : f ∈ s.tree.branch t)
    (hfuel : s.tree.height t - s.tree.height f ≤ fuel) :
    ∃ vChain, disconnectTo (some f) fuel s = ({ s with vChain := vChain }, true) ∧
      Consistent { s with vChain := vChain } f floor := by
  have hstop : t = f → ∃ vChain, (s, true) = (({ s with vChain := vChain } : BlockIndex), true) ∧
      Consistent { s with vChain := vChain } f floor := by
    rintro rfl
    exact ⟨s.vChain, rfl, h⟩
  induction fuel generalizing s t with
  | zero =>
    have hle := height_le_of_mem_branch hf
    exact hstop (eq_of_height_eq hf (by omega)).symm
  | succ fuel ih =>
    rw [disconnectTo, h.active.tip_eq]
    by_cases htf : t = f
    · rw [if_pos (by simp [htf])]
      exact hstop htf
    · rw [if_neg (by simpa using htf), h.disconnectTip_eq]
      cases hp : s.tree.parent t with
      | none =>
        rw [branch_of_none hp, List.mem_singleton] at hf
        exact absurd hf.symm htf
      | some j =>
        have hfj : f ∈ s.tree.branch j := by
          rcases (mem_branch_of_parent hp).mp hf with rfl | hfj
          · exact absurd rfl htf
          · exact hfj
        have hh := s.tree.height_parent hp
        obtain ⟨vChain, heq, hcons⟩ := ih (h.rewind (parent_mem_branch hp)) hfj
          (by change s.tree.height j - s.tree.height f ≤ fuel; omega) (by
            rintro rfl
            exact ⟨_, rfl, h.rewind (parent_mem_branch hp)⟩)
        exact ⟨vChain, heq, hcons⟩

theorem Active.findFork_spec (h : s.Active t) (hlinked : s.Linked []) {i : Nat}
    (hi : i < s.tree.size) : ∃ f, s.findFork i = some f ∧ f ∈ s.tree.branch t ∧
      f ∈ s.tree.branch i ∧ ∀ a ∈ s.tree.branch i, a ∈ s.tree.branch t → a ∈ s.tree.branch f := by
  have hlen : s.vChain.length = s.tree.height t + 1 := by
    rw [h.vChain, List.length_reverse, length_branch]
  -- The walk starts at an ancestor that is not higher than the tip.
  obtain ⟨b, hb, hbi, hbelow⟩ : ∃ b, (if s.vChain.length ≤ s.tree.height i then
      s.tree.getAncestor i (s.vChain.length - 1) else some i) = some b ∧ b ∈ s.tree.branch i ∧
        ∀ a ∈ s.tree.branch i, a ∈ s.tree.branch t → a ∈ s.tree.branch b := by
    by_cases hle : s.vChain.length ≤ s.tree.height i
    · obtain ⟨b, hb, hbh⟩ := exists_ancestor (t := s.tree.toRankedForest) (i := i)
        (h := s.vChain.length - 1) (by omega)
      refine ⟨b, ?_, hb, fun a ha hat => ?_⟩
      · rw [if_pos hle, BlockTree.getAncestor_eq (by omega)]
        exact ancestorAt_eq_some.mpr ⟨hb, hbh⟩
      · rcases branch_total ha hb with hab | hba
        · exact hab
        · have h1 := height_le_of_mem_branch hba
          have h2 := height_le_of_mem_branch hat
          rw [eq_of_height_eq hba (by omega)]
          exact self_mem_branch a
    · exact ⟨i, if_neg hle, self_mem_branch i, fun a ha _ => ha⟩
  have hblt := mem_branch_lt hbi hi
  cases hfind : (s.tree.branch b).find? s.contains with
  | none =>
    have hnone := List.find?_eq_none.mp hfind 0 (zero_mem_branch hlinked hblt)
    exact absurd (h.contains_iff.mpr (zero_mem_branch hlinked h.tip_lt)) hnone
  | some f =>
    have hfb := List.mem_of_find?_eq_some hfind
    refine ⟨f, ?_, h.contains_iff.mp (List.find?_some hfind), mem_branch_trans hfb hbi, ?_⟩
    · rw [findFork, hb, Option.bind_some, hfind]
    · intro a ha hat
      exact mem_branch_of_find? hfind (hbelow a ha hat) (h.contains_iff.mpr hat)

end Rewind

section Advance

variable {s : BlockIndex} {t floor : Nat}

theorem not_worse_raiseFloor (floor t : Nat) : s.worse (s.raiseFloor floor t) t = false := by
  rw [raiseFloor]
  cases hw : s.worse floor t with
  | true => exact not_worse_self t
  | false => exact hw

theorem raiseFloor_not_worse (floor t : Nat) : s.worse (s.raiseFloor floor t) floor = false := by
  rw [raiseFloor]
  cases hw : s.worse floor t with
  | true => exact not_worse_of_worse hw
  | false => exact not_worse_self floor

theorem raiseFloor_raiseFloor {a b : Nat} (hba : s.worse b a = false) :
    s.raiseFloor (s.raiseFloor floor a) b = s.raiseFloor floor b := by
  by_cases hfa : s.worse floor a = true
  · have hfb : s.worse floor b = true := by
      rw [worse_iff] at hfa ⊢
      rw [worse_eq_false_iff] at hba
      omega
    have hab : s.worse a b = false → a = b := by
      intro hab
      rw [worse_eq_false_iff] at hab hba
      omega
    rw [show s.raiseFloor floor a = a from if_pos hfa, show s.raiseFloor floor b = b from if_pos hfb,
      raiseFloor]
    split
    · rfl
    · rename_i hnot
      exact hab (by simpa using hnot)
  · rw [show s.raiseFloor floor a = floor from if_neg hfa]

theorem raiseValidity_of_valid {st : BlockStatus} (h : st.failed = false) :
    BlockStatus.raiseValidity { st with haveUndo := true } BLOCK_VALID_SCRIPTS =
      { st with haveUndo := true, nValid := max st.nValid BLOCK_VALID_SCRIPTS } := by
  have hf : BlockStatus.failed { st with haveUndo := true } = false := h
  rw [BlockStatus.raiseValidity, hf]
  by_cases hlt : st.nValid < BLOCK_VALID_SCRIPTS
  · simp [hlt, Nat.max_eq_right hlt.le]
  · simp [hlt, Nat.max_eq_left (Nat.le_of_not_lt hlt)]

theorem status_connected_self {i : Nat} (hok : (s.status i).failed = false) :
    (s.connected i).status i =
      { s.status i with haveUndo := true, nValid := max (s.status i).nValid BLOCK_VALID_SCRIPTS } := by
  have hself := status_modifyStatus_self s i fun st =>
    BlockStatus.raiseValidity { st with haveUndo := true } BLOCK_VALID_SCRIPTS
  exact hself.trans (raiseValidity_of_valid hok)

theorem status_connected_of_ne {i k : Nat} (hk : k ≠ i) : (s.connected i).status k = s.status k :=
  status_modifyStatus_of_ne s
    (fun st => BlockStatus.raiseValidity { st with haveUndo := true } BLOCK_VALID_SCRIPTS) hk

theorem info_connected (i k : Nat) :
    (s.connected i).info k = { s.info k with nStatus := (s.connected i).status k } :=
  info_modifyStatus s i k fun st =>
    BlockStatus.raiseValidity { st with haveUndo := true } BLOCK_VALID_SCRIPTS

theorem keeps_connected {i : Nat} (hok : (s.status i).failed = false) : Keeps s (s.connected i) := by
  have hstatus : ∀ k, ((s.connected i).status k).failedValid = (s.status k).failedValid ∧
      ((s.connected i).status k).failedChild = (s.status k).failedChild := by
    intro k
    by_cases hk : k = i
    · subst hk
      rw [status_connected_self hok]
      exact ⟨rfl, rfl⟩
    · rw [status_connected_of_ne hk]
      exact ⟨rfl, rfl⟩
  exact ⟨rfl, fun k => by rw [info_connected], fun k => by rw [info_connected],
    fun k => (hstatus k).1, fun k => (hstatus k).2⟩

theorem Linked.connected (h : s.Linked []) {i : Nat} (hi : i < s.tree.size)
    (hlinked : (s.info i).nChainTx ≠ 0) (hok : (s.status i).failed = false) :
    (s.connected i).Linked [] := by
  refine h.congr rfl rfl fun k => ?_
  by_cases hk : k = i
  · subst hk
    have hdata := (h.linked k hi hlinked).1
    have hvalid := (h.transactions k hi).mpr (Nat.pos_of_ne_zero ((h.haveData k hi).mp hdata))
    rw [info_connected, status_connected_self hok]
    refine ⟨rfl, rfl, rfl, rfl, fun hv => Nat.le_trans hv (Nat.le_max_left _ _), ?_⟩
    exact iff_of_true (Nat.le_trans hvalid (Nat.le_max_left _ _)) hvalid
  · rw [info_connected, status_connected_of_ne hk]
    exact .refl (s.info k)

theorem Active.connect (h : s.Active t) {i : Nat} (hp : s.tree.parent i = some t)
    (hlinked : (s.info i).nChainTx ≠ 0) (hok : (s.status i).failed = false) :
    (s.connected i).Active i := by
  have hself : BLOCK_VALID_SCRIPTS ≤ ((s.connected i).status i).nValid ∧
      ((s.connected i).status i).haveUndo = true := by
    rw [status_connected_self hok]
    exact ⟨Nat.le_max_right _ _, rfl⟩
  have hnot : ∀ a ∈ s.tree.branch t, a ≠ i := by
    intro a ha
    have hle := le_of_mem_branch ha
    have hlt := s.tree.parent_lt hp
    omega
  refine ⟨h.vChain_setTip i, parent_size_lt hp, ?_, ?_, ?_⟩
  · rw [(keeps_connected hok).nChainTx]
    exact hlinked
  · intro a ha ha0
    rcases (mem_branch_of_parent hp).mp ha with rfl | hat
    · exact hself
    · rw [status_connected_of_ne (hnot a hat)]
      exact h.connected a hat ha0
  · intro k hk hv
    by_cases hki : k = i
    · subst hki
      refine ⟨hself.1, fun j hj hj0 => ?_⟩
      have hjt : j = t := Option.some.inj (hj.symm.trans hp)
      subst hjt
      rw [status_connected_of_ne (hnot j (self_mem_branch j))]
      exact (h.connected j (self_mem_branch j) hj0).1
    · rw [status_connected_of_ne hki] at hv ⊢
      obtain ⟨hscripts, hparent⟩ := h.chainValid k hk hv
      refine ⟨hscripts, fun j hj hj0 => ?_⟩
      by_cases hji : j = i
      · subst hji
        exact hself.1
      · rw [status_connected_of_ne hji]
        exact hparent j hj hj0

theorem Consistent.connect (h : s.Consistent t floor) {i : Nat} (hp : s.tree.parent i = some t)
    (hlinked : (s.info i).nChainTx ≠ 0) (hok : (s.status i).failed = false) :
    (s.connected i).pruneBlockIndexCandidates.Consistent i (s.raiseFloor floor i) := by
  have hkeeps := keeps_connected hok
  have hi := parent_size_lt hp
  have hactive := h.active.connect hp hlinked hok
  have hmem : ∀ k, k ∈ (s.connected i).pruneBlockIndexCandidates.setBlockIndexCandidates ↔
      k ∈ s.setBlockIndexCandidates ∧ s.worse k i = false := by
    intro k
    simp only [pruneBlockIndexCandidates, hactive.tip_eq, List.mem_filter, Option.all_some,
      Bool.not_eq_true', hkeeps.worse_eq]
    exact Iff.rfl
  have hfloor : s.raiseFloor floor i < s.tree.size ∧
      (s.info (s.raiseFloor floor i)).nChainTx ≠ 0 := by
    rw [raiseFloor]
    split
    · exact ⟨hi, hlinked⟩
    · exact ⟨h.candidates.floor_lt, h.candidates.floor_linked⟩
  refine ⟨?_, ?_, ?_, ?_⟩
  · exact (h.linked.connected hi hlinked hok).congr rfl rfl fun k => .refl _
  · exact hactive.congr rfl rfl fun k => .refl _
  · exact hkeeps.flagged h.flagged
  · refine ⟨hfloor.1, ?_, ?_, ?_, ?_⟩
    · exact (hkeeps.nChainTx _).trans_ne hfloor.2
    · exact (hkeeps.worse_eq _ _).trans (not_worse_raiseFloor floor i)
    · intro k hk
      obtain ⟨hcand, hworse⟩ := (hmem k).mp hk
      obtain ⟨hlt, hlink, -⟩ := h.candidates.sound k hcand
      exact ⟨hlt, (hkeeps.nChainTx k).trans_ne hlink, (hkeeps.worse_eq k i).trans hworse⟩
    · intro k hk hlink hu hw
      have hw' : s.worse k (s.raiseFloor floor i) = false := (hkeeps.worse_eq _ _).symm.trans hw
      have hcand := h.candidates.complete k hk ((hkeeps.nChainTx k).symm.trans_ne hlink)
        (hkeeps.untainted hu) (not_worse_trans hw' (raiseFloor_not_worse floor i))
      exact (hmem k).mpr ⟨hcand, not_worse_trans hw' (not_worse_raiseFloor floor i)⟩

theorem Consistent.raiseFloor_tip (h : s.Consistent t floor) : s.raiseFloor floor t = floor := by
  rw [raiseFloor, h.candidates.floor_tip]
  simp

theorem Consistent.stays (h : s.Consistent t floor) :
    ∃ t', s.Consistent t' (s.raiseFloor floor t') ∧ t ∈ s.tree.branch t' := by
  refine ⟨t, ?_, self_mem_branch t⟩
  rw [h.raiseFloor_tip]
  exact h

end Advance

section Activate

variable {s : BlockIndex} {t floor : Nat} (accepts : Nat → Bool) (nOldWork : Option Nat)

theorem connectBatch_spec (pindexLowest a : Nat) (batch : List Nat) {s : BlockIndex} {t floor : Nat}
    (h : s.Consistent t floor) (hclimbs : s.tree.Climbs t batch a)
    (hbatch : ∀ i ∈ batch, (s.info i).nChainTx ≠ 0 ∧ (s.status i).failed = false) :
    ∃ t', (connectBatch accepts nOldWork pindexLowest batch s).1.Consistent t'
        (s.raiseFloor floor t') ∧ t ∈ s.tree.branch t' ∧
      ((connectBatch accepts nOldWork pindexLowest batch s).2 = true → t' = a ∧
        Keeps s (connectBatch accepts nOldWork pindexLowest batch s).1) := by
  induction batch generalizing s t floor with
  | nil =>
    refine ⟨t, ?_, self_mem_branch t, fun _ => ⟨hclimbs, ?_⟩⟩
    · rw [h.raiseFloor_tip]
      exact h
    · exact ⟨rfl, fun _ => rfl, fun _ => rfl, fun _ => rfl, fun _ => rfl⟩
  | cons i batch ih =>
    obtain ⟨hp, hclimbs⟩ := hclimbs
    obtain ⟨hlinked, hok⟩ := hbatch i (by simp)
    rw [connectBatch]
    cases hacc : accepts i with
    | false =>
      -- The block is marked as invalid and the tip stays where the last accepted block left it.
      refine ⟨t, ?_, self_mem_branch t, by simp⟩
      rw [h.raiseFloor_tip]
      exact ((Taints.invalidBlockFound s i).trans (.invalidChainFound _ _)).consistent h
    | true =>
      have hnext := h.connect hp hlinked hok
      have hkeeps : Keeps s (s.connected i).pruneBlockIndexCandidates :=
        (keeps_connected hok).trans ⟨rfl, fun _ => rfl, fun _ => rfl, fun _ => rfl, fun _ => rfl⟩
      simp only [if_true]
      split
      · exact ⟨i, hnext, parent_mem_branch hp, by simp⟩
      · obtain ⟨t', hcons, hmem, hdone⟩ := ih hnext hclimbs fun k hk => by
          rw [hkeeps.nChainTx, hkeeps.failed_eq]
          exact hbatch k (by simp [hk])
        have hmem : i ∈ s.tree.branch t' := hmem
        rw [hkeeps.raiseFloor_eq, raiseFloor_raiseFloor (not_worse_of_mem_branch hmem)] at hcons
        refine ⟨t', hcons, mem_branch_trans (parent_mem_branch hp) hmem, fun htrue => ?_⟩
        exact ⟨(hdone htrue).1, hkeeps.trans (hdone htrue).2⟩

theorem nextBatch_climbs {pindexMostWork : Nat} (ht : t ∈ s.tree.branch pindexMostWork) :
    ∃ a, s.tree.Climbs t (s.nextBatch pindexMostWork (s.tree.height t + 1)) a ∧
      a ∈ s.tree.branch pindexMostWork ∧ t ∈ s.tree.branch a ∧
      s.tree.height a = min (s.tree.height t + 32) (s.tree.height pindexMostWork) ∧
      ∀ i ∈ s.nextBatch pindexMostWork (s.tree.height t + 1),
        i ∈ s.tree.branch pindexMostWork ∧ i ∉ s.tree.branch t := by
  have hle := height_le_of_mem_branch ht
  obtain ⟨a, ha, hah⟩ := exists_ancestor (t := s.tree.toRankedForest) (i := pindexMostWork)
    (h := min (s.tree.height t + 32) (s.tree.height pindexMostWork)) (Nat.min_le_right _ _)
  have hta : t ∈ s.tree.branch a := by
    rcases branch_total ht ha with h | h
    · exact h
    · have := height_le_of_mem_branch h
      rw [eq_of_height_eq h (by omega)]
      exact self_mem_branch t
  have hanc : s.tree.getAncestor pindexMostWork
      (min (s.tree.height t + 1 + 31) (s.tree.height pindexMostWork)) = some a := by
    rw [BlockTree.getAncestor_eq (Nat.min_le_right _ _)]
    exact ancestorAt_eq_some.mpr ⟨ha, hah⟩
  have hbatch : s.nextBatch pindexMostWork (s.tree.height t + 1) =
      ((s.tree.branch a).takeWhile fun b => b != t).reverse := by
    simp only [nextBatch, hanc, Option.elim_some]
    rw [takeWhile_height hta]
  refine ⟨a, ?_, ha, hta, hah, fun i hi => ?_⟩
  · rw [hbatch]
    exact climbs_takeWhile hta
  · rw [hbatch, List.mem_reverse] at hi
    have hia : i ∈ s.tree.branch a := (List.takeWhile_prefix _).subset hi
    have hit : i ≠ t := by simpa using List.mem_takeWhile_imp hi
    refine ⟨mem_branch_trans hia ha, fun hmem => hit ?_⟩
    exact branch_antisymm hmem (mem_branch_of_mem_takeWhile hta hi)

theorem connectTo_spec (pindexMostWork fuel : Nat) {s : BlockIndex} {t floor : Nat}
    (h : s.Consistent t floor) (ht : t ∈ s.tree.branch pindexMostWork)
    (hpath : ∀ i ∈ s.tree.branch pindexMostWork, i ∉ s.tree.branch t →
      (s.info i).nChainTx ≠ 0 ∧ (s.status i).failed = false) :
    ∃ t', (connectTo accepts nOldWork pindexMostWork fuel (s.tree.height t + 1) s).Consistent t'
      (s.raiseFloor floor t') ∧ t ∈ s.tree.branch t' := by
  induction fuel generalizing s t floor with
  | zero => exact h.stays
  | succ fuel ih =>
    rw [connectTo]
    split
    · exact h.stays
    · obtain ⟨a, hclimbs, ha, hta, hah, hbatch⟩ := nextBatch_climbs ht
      obtain ⟨t', hcons, hmem, hdone⟩ := connectBatch_spec accepts nOldWork
        ((s.nextBatch pindexMostWork (s.tree.height t + 1)).headD pindexMostWork) a _ h hclimbs
        fun i hi => hpath i (hbatch i hi).1 (hbatch i hi).2
      simp only
      split
      · rename_i heq
        rw [heq] at hcons
        exact ⟨t', hcons, hmem⟩
      · rename_i s' heq
        rw [heq] at hcons hdone
        obtain ⟨rfl, hkeeps⟩ := hdone rfl
        have htree := hkeeps.tree
        have hnext : min (s.tree.height t + 1 + 31) (s'.tree.height pindexMostWork) + 1 =
            s'.tree.height t' + 1 := by rw [htree, hah]
        rw [hnext]
        obtain ⟨t'', hfinal, hmem'⟩ := ih hcons (by rw [htree]; exact ha) fun i hi hnot => by
          rw [htree] at hi hnot
          rw [hkeeps.nChainTx, hkeeps.failed_eq]
          exact hpath i hi fun hit => hnot (mem_branch_trans hit hta)
        rw [htree] at hmem'
        rw [hkeeps.raiseFloor_eq, raiseFloor_raiseFloor (not_worse_of_mem_branch hmem')] at hfinal
        exact ⟨t'', hfinal, mem_branch_trans hta hmem'⟩

theorem Consistent.activateBestChainStep (h : s.Consistent t floor) {pindexMostWork : Nat}
    (hcand : pindexMostWork ∈ s.setBlockIndexCandidates)
    (hpath : ∀ a ∈ s.path pindexMostWork, s.unusable a = false) :
    ∃ t', (s.activateBestChainStep accepts pindexMostWork).Consistent t'
      (s.raiseFloor floor t') := by
  obtain ⟨hlt, hlinked, -⟩ := h.candidates.sound pindexMostWork hcand
  obtain ⟨f, hfork, hft, hfm, hbelow⟩ := h.active.findFork_spec h.linked hlt
  have hlen : s.vChain.length = s.tree.height t + 1 := by
    rw [h.active.vChain, List.length_reverse, length_branch]
  obtain ⟨vChain, hdisc, hcons⟩ := Consistent.disconnectTo_spec s.vChain.length h hft (by omega)
  simp only [BlockIndex.activateBestChainStep, hfork, hdisc, Option.elim_some]
  obtain ⟨t', hfinal, -⟩ := connectTo_spec accepts (s.tip.map s.tree.nChainWork) pindexMostWork
    (s.tree.height pindexMostWork + 1) hcons hfm fun i hi hnot => by
      -- What lies above the fork is the path that FindMostWorkChain has checked.
      have hnc : s.contains i = false := by
        rw [← Bool.not_eq_true, h.active.contains_iff]
        exact fun hit => hnot (hbelow i hi hit)
      have hmem : i ∈ s.path pindexMostWork := mem_takeWhile_of_closed
        (fun a b hab hb => h.active.contains_iff.mpr
          (mem_branch_trans hab (h.active.contains_iff.mp hb))) hi hnc
      have huse := hpath i hmem
      rw [unusable, Bool.or_eq_false_iff] at huse
      exact ⟨h.linked.linked_of_mem hlt hlinked hi, huse.1⟩
  exact ⟨t', hfinal⟩

theorem Consistent.activateBestChain (h : s.Consistent t floor) :
    ∃ t', (s.activateBestChain accepts).Consistent t' (s.raiseFloor floor t') := by
  obtain ⟨htaints, hfound⟩ := findMostWorkChainFrom_spec (s.setBlockIndexCandidates.length + 1) h
  rw [BlockIndex.activateBestChain, findMostWorkChain]
  generalize hr : findMostWorkChainFrom (s.setBlockIndexCandidates.length + 1) s = r at htaints hfound
  obtain ⟨s', found⟩ := r
  have hs' : s'.Consistent t floor := htaints.consistent h
  have hfloor : ∀ t', s'.raiseFloor floor t' = s.raiseFloor floor t' := by
    intro t'
    rw [raiseFloor, raiseFloor, htaints.worse_eq]
  have hstay : ∃ t', s'.Consistent t' (s.raiseFloor floor t') := by
    obtain ⟨t', hcons, -⟩ := hs'.stays
    exact ⟨t', hfloor t' ▸ hcons⟩
  cases found with
  | none => exact hstay
  | some pindexMostWork =>
    obtain ⟨hcand, hpath⟩ := hfound pindexMostWork rfl
    simp only
    split
    · exact hstay
    · obtain ⟨t', hcons⟩ := hs'.activateBestChainStep accepts hcand hpath
      exact ⟨t', hfloor t' ▸ hcons⟩

end Activate

end BlockIndex

end AnkerNode
