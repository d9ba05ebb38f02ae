import AnkerNode.Chain.Activation

namespace AnkerNode

namespace BlockIndex

open RankedForest

variable {s : BlockIndex} {t floor : Nat}

theorem disconnectAbove_spec (pindex fuel : Nat) {s : BlockIndex} {t : Nat}
    (h : s.Consistent t floor) (hfailed : (s.status pindex).failedValid = true) :
    ∃ t', (disconnectAbove pindex fuel s).1.Consistent t' floor ∧
      ((disconnectAbove pindex fuel s).2 = false → t' = 0 ∧
        ¬ (disconnectAbove pindex fuel s).1.Untainted 0) := by
  induction fuel generalizing s t with
  | zero => exact ⟨t, h, by simp [disconnectAbove]⟩
  | succ fuel ih =>
    rw [disconnectAbove, h.active.tip_eq]
    cases hc : s.contains pindex with
    | false => exact ⟨t, h, by simp⟩
    | true =>
      have hmem := h.active.contains_iff.mp hc
      have htainted : ¬ s.Untainted t := by
        intro hu
        have hclear := hu pindex hmem
        rw [hfailed] at hclear
        simp at hclear
      have hmark := Taints.failChild htainted
      have hmarked := hmark.consistent h
      simp only [Bool.not_true, Bool.false_eq_true, if_false]
      rw [hmarked.disconnectTip_eq, hmark.tree]
      cases hp : s.tree.parent t with
      | none =>
        have ht0 := h.linked.root t h.active.tip_lt hp
        subst ht0
        exact ⟨0, hmarked, fun _ => ⟨rfl, fun hu => htainted (hmark.untainted hu)⟩⟩
      | some j =>
        have hj : j ∈ ((s.modifyStatus t fun st => { st with failedChild := true }).eraseCandidate
            t).tree.branch t := parent_mem_branch hp
        exact ih (hmarked.rewind hj) (hmark.failedValid pindex hfailed)

def eligible (s : BlockIndex) (i : Nat) : Bool :=
  (s.status i).isValid BLOCK_VALID_TRANSACTIONS && (s.info i).nChainTx != 0 &&
    s.tip.all fun t => !s.worse i t

theorem foldl_reinsertCandidate (ks : List Nat) (s : BlockIndex) :
    ∃ cs, ks.foldl reinsertCandidate s = { s with setBlockIndexCandidates := cs } ∧
      ∀ k, k ∈ cs ↔ k ∈ s.setBlockIndexCandidates ∨ (k ∈ ks ∧ s.eligible k = true) := by
  induction ks generalizing s with
  | nil => exact ⟨s.setBlockIndexCandidates, rfl, by simp⟩
  | cons m ks ih =>
    rw [List.foldl_cons]
    obtain ⟨cs, heq, hmem⟩ := ih (reinsertCandidate s m)
    have hcases : (s.eligible m = true ∧ reinsertCandidate s m = s.insertCandidate m) ∨
        (s.eligible m = false ∧ reinsertCandidate s m = s) := by
      cases hm : s.eligible m with
      | true => exact .inl ⟨rfl, if_pos hm⟩
      | false => exact .inr ⟨rfl, if_neg (Bool.not_eq_true _ ▸ hm)⟩
    rcases hcases with ⟨hm, hstep⟩ | ⟨hm, hstep⟩
    · rw [hstep] at heq hmem ⊢
      refine ⟨cs, heq, fun k => (hmem k).trans ?_⟩
      have hsame : (s.insertCandidate m).eligible k = s.eligible k := rfl
      rw [hsame]
      simp only [insertCandidate, List.mem_insert_iff, List.mem_cons]
      constructor
      · rintro ((rfl | hk) | ⟨hk, he⟩)
        · exact .inr ⟨.inl rfl, hm⟩
        · exact .inl hk
        · exact .inr ⟨.inr hk, he⟩
      · rintro (hk | ⟨rfl | hk, he⟩)
        · exact .inl (.inr hk)
        · exact .inl (.inl rfl)
        · exact .inr ⟨hk, he⟩
    · rw [hstep] at heq hmem ⊢
      refine ⟨cs, heq, fun k => (hmem k).trans ?_⟩
      rw [List.mem_cons]
      constructor
      · rintro (hk | ⟨hk, he⟩)
        · exact .inl hk
        · exact .inr ⟨.inr hk, he⟩
      · rintro (hk | ⟨rfl | hk, he⟩)
        · exact .inl hk
        · rw [hm] at he
          simp at he
        · exact .inr ⟨hk, he⟩

theorem Consistent.eligible_iff (h : s.Consistent t floor) {i : Nat} (hi : i < s.tree.size) :
    s.eligible i = true ↔ (s.status i).failed = false ∧ (s.info i).nChainTx ≠ 0 ∧
      s.worse i t = false := by
  rw [eligible, h.active.tip_eq, BlockStatus.isValid]
  simp only [Option.all_some, Bool.and_eq_true, Bool.not_eq_true', decide_eq_true_eq, bne_iff_ne]
  constructor
  · rintro ⟨⟨⟨hf, -⟩, hl⟩, hw⟩
    exact ⟨hf, hl, hw⟩
  · rintro ⟨hf, hl, hw⟩
    have hdata := (h.linked.linked i hi hl).1
    have htx := (h.linked.transactions i hi).mpr
      (Nat.pos_of_ne_zero ((h.linked.haveData i hi).mp hdata))
    exact ⟨⟨⟨hf, htx⟩, hl⟩, hw⟩

theorem Consistent.reinserted (h : s.Consistent t floor) :
    ((List.range s.tree.size).foldl reinsertCandidate s).Consistent t t := by
  obtain ⟨cs, heq, hmem⟩ := foldl_reinsertCandidate (List.range s.tree.size) s
  rw [heq]
  refine ⟨h.linked.congr rfl rfl fun k => .refl _, h.active.congr rfl rfl fun k => .refl _,
    h.flagged, h.active.tip_lt, h.active.tip_linked, not_worse_self t, ?_, ?_⟩
  · intro k hk
    rcases (hmem k).mp hk with hk | ⟨hk, he⟩
    · exact h.candidates.sound k hk
    · have hlt := List.mem_range.mp hk
      exact ⟨hlt, ((h.eligible_iff hlt).mp he).2⟩
  · intro k hk hlinked hu hw
    have hclear : (s.status k).failed = false := by
      cases hf : (s.status k).failed with
      | false => rfl
      | true => exact absurd hu (h.flagged k hk hf)
    exact (hmem k).mpr
      (.inr ⟨List.mem_range.mpr hk, (h.eligible_iff hk).mpr ⟨hclear, hlinked, hw⟩⟩)

theorem Consistent.invalidateBlock (h : s.Consistent t floor) (pindex : Nat) :
    ∃ t', (s.invalidateBlock pindex).1.Consistent t' t' := by
  have hmark := Taints.failValid s pindex
  have hmarked := hmark.consistent h
  have hfailed : (((s.modifyStatus pindex fun st => { st with failedValid := true }).eraseCandidate
      pindex).status pindex).failedValid = true := by
    rw [status_eraseCandidate, status_modifyStatus_self]
  obtain ⟨t', hcons, hstuck⟩ := disconnectAbove_spec pindex
    ((s.modifyStatus pindex fun st => { st with failedValid := true }).eraseCandidate
      pindex).vChain.length hmarked hfailed
  simp only [BlockIndex.invalidateBlock]
  split
  · rename_i s' heq
    rw [heq] at hcons hstuck
    -- Only the genesis block cannot be disconnected, and then every entry has an invalid ancestor.
    obtain ⟨rfl, htainted⟩ := hstuck rfl
    refine ⟨0, hcons.linked, hcons.active, hcons.flagged, hcons.active.tip_lt,
      hcons.active.tip_linked, not_worse_self 0, hcons.candidates.sound, ?_⟩
    intro k hk _ hu _
    exact absurd (hu.of_mem (zero_mem_branch hcons.linked hk)) htainted
  · rename_i s' heq
    rw [heq] at hcons
    exact ⟨t', (Taints.invalidChainFound _ pindex).consistent hcons.reinserted⟩

end BlockIndex

end AnkerNode
