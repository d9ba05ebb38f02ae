import AnkerNode.Lib.Table
import AnkerNode.Lib.TreeMaps
import AnkerNode.Masternode.PayeeVotes

namespace AnkerNode

namespace CMasternodePayments

-- `std::max(int(mnodeman.size() * 1.25), 1000)`
def nLimit (nSize : Nat) : Int := max (5 * nSize / 4 : Nat) 1000

def isOld (nHeight nLimit : Int) (winner : CMasternodePaymentWinner) : Bool :=
  decide (nLimit < nHeight - winner.nBlockHeight)

def cleanWinner (nHeight nLimit : Int) (s : CMasternodePayments)
    (it : UInt256 × CMasternodePaymentWinner) : CMasternodePayments :=
  if isOld nHeight nLimit it.2 then
    { s with
      mapMasternodePayeeVotes := s.mapMasternodePayeeVotes.erase it.1
      mapMasternodeBlocks := Function.update s.mapMasternodeBlocks it.2.nBlockHeight none }
  else s

-- `none` stands for a chain without a tip and for a lock that was not obtained.
def cleanPaymentList (s : CMasternodePayments) (nTipHeight : Option Int) (nSize : Nat) :
    CMasternodePayments :=
  match nTipHeight with
  | none => s
  | some nHeight =>
    s.mapMasternodePayeeVotes.toList.foldl (cleanWinner nHeight (nLimit nSize)) s

def winnersFor (s : CMasternodePayments) (nBlockHeight : Int) (payee : CScript) : Nat :=
  s.mapMasternodePayeeVotes.toList.countP fun kv =>
    decide (kv.2.nBlockHeight = nBlockHeight ∧ kv.2.payee = payee)

structure InStep (s : CMasternodePayments) : Prop where
  present : ∀ (k : UInt256) (w : CMasternodePaymentWinner),
    s.mapMasternodePayeeVotes[k]? = some w → (s.mapMasternodeBlocks w.nBlockHeight).isSome = true
  distinct : ∀ (nBlockHeight : Int) (payees : CMasternodeBlockPayees),
    s.mapMasternodeBlocks nBlockHeight = some payees →
      (payees.vecPayments.map CMasternodePayee.scriptPubKey).Nodup
  tally : ∀ (nBlockHeight : Int) (payee : CScript),
    s.votesFor nBlockHeight payee = s.winnersFor nBlockHeight payee

variable {hash : WinnerHash} {s : CMasternodePayments} {env : PaymentsEnv}
  {winner : CMasternodePaymentWinner} {nHeight nLimit : Int}

theorem scripts_addPayeeTo (payeeIn : CScript) (nIncrement : Int)
    (vecPayments : List CMasternodePayee) :
    (CMasternodeBlockPayees.addPayeeTo payeeIn nIncrement vecPayments).map
        CMasternodePayee.scriptPubKey =
      if payeeIn ∈ vecPayments.map CMasternodePayee.scriptPubKey then
        vecPayments.map CMasternodePayee.scriptPubKey
      else vecPayments.map CMasternodePayee.scriptPubKey ++ [payeeIn] := by
  induction vecPayments with
  | nil => simp [CMasternodeBlockPayees.addPayeeTo]
  | cons p vecPayments ih =>
    simp only [CMasternodeBlockPayees.addPayeeTo]
    split
    · rename_i heq
      simp [heq]
    · rename_i hne
      rw [List.map_cons, ih]
      split
      · rename_i hmem
        rw [if_pos (by simp [hmem]), List.map_cons]
      · rename_i hmem
        rw [if_neg (by simpa [Ne.symm hne] using hmem)]
        rfl

theorem nodup_addPayeeTo {vecPayments : List CMasternodePayee} (payeeIn : CScript)
    (nIncrement : Int) (h : (vecPayments.map CMasternodePayee.scriptPubKey).Nodup) :
    ((CMasternodeBlockPayees.addPayeeTo payeeIn nIncrement vecPayments).map
      CMasternodePayee.scriptPubKey).Nodup := by
  rw [scripts_addPayeeTo]
  split
  · exact h
  · rename_i hnew
    exact List.nodup_append.mpr ⟨h, by simp, by
      rintro a ha b hb rfl
      exact hnew (by rwa [List.mem_singleton.mp hb] at ha)⟩

theorem winnersFor_storeVote (hnew : s.mapMasternodePayeeVotes[winner.getHash hash]? = none)
    (nBlockHeight : Int) (payee : CScript) :
    (s.storeVote hash winner).winnersFor nBlockHeight payee = s.winnersFor nBlockHeight payee +
      if winner.nBlockHeight = nBlockHeight ∧ winner.payee = payee then 1 else 0 := by
  have htotal : ∀ s : CMasternodePayments, s.winnersFor nBlockHeight payee =
      TreeTotal.total (fun w => if decide (w.nBlockHeight = nBlockHeight ∧ w.payee = payee) then 1
        else 0) s.mapMasternodePayeeVotes := by
    intro s
    rw [TreeTotal.total_indicator]
    rfl
  rw [htotal, htotal, storeVote, TreeTotal.total_insert hnew, Nat.add_comm]
  simp

theorem InStep.storeVote (h : InStep s)
    (hnew : s.mapMasternodePayeeVotes[winner.getHash hash]? = none) :
    InStep (s.storeVote hash winner) := by
  refine ⟨?_, ?_, ?_⟩
  · intro k w hw
    simp only [CMasternodePayments.storeVote, Function.update_apply]
    split
    · rfl
    · rename_i hne
      simp only [CMasternodePayments.storeVote, Std.TreeMap.getElem?_insert] at hw
      split at hw
      · obtain rfl := Option.some.inj hw
        exact absurd rfl hne
      · exact h.present k w hw
  · intro nBlockHeight payees hblock
    simp only [CMasternodePayments.storeVote, Function.update_apply] at hblock
    split at hblock
    · obtain rfl := Option.some.inj hblock
      apply nodup_addPayeeTo
      cases hold : s.mapMasternodeBlocks winner.nBlockHeight with
      | none => exact List.nodup_nil
      | some old => exact h.distinct _ old hold
    · exact h.distinct nBlockHeight payees hblock
  · intro nBlockHeight payee
    rw [votesFor_storeVote, winnersFor_storeVote hnew, h.tally]
    split <;> simp

theorem InStep.addWinningMasternode (h : InStep s) (env : PaymentsEnv)
    (winner : CMasternodePaymentWinner) : InStep (s.addWinningMasternode hash env winner).1 := by
  simp only [CMasternodePayments.addWinningMasternode]
  split
  · exact h
  · split
    · exact h
    · rename_i hunseen
      rw [Std.TreeMap.contains_eq_isSome_getElem?, Option.not_isSome_iff_eq_none] at hunseen
      exact h.storeVote hunseen

theorem votes_foldl_cleanWinner (its : List (UInt256 × CMasternodePaymentWinner))
    (s : CMasternodePayments) :
    (its.foldl (cleanWinner nHeight nLimit) s).mapMasternodePayeeVotes =
      TreeSweep.sweepAll (fun it => isOld nHeight nLimit it.2) s.mapMasternodePayeeVotes its := by
  induction its generalizing s with
  | nil => rfl
  | cons it its ih =>
    rw [List.foldl_cons, ih, cleanWinner, TreeSweep.sweepAll, TreeSweep.sweepAll, List.foldl_cons]
    split <;> rfl

theorem blocks_foldl_cleanWinner (its : List (UInt256 × CMasternodePaymentWinner))
    (s : CMasternodePayments) :
    (its.foldl (cleanWinner nHeight nLimit) s).mapMasternodeBlocks =
      Table.writeAll (fun it => it.2.nBlockHeight) (fun _ => none) s.mapMasternodeBlocks
        (its.filter fun it => isOld nHeight nLimit it.2) := by
  induction its generalizing s with
  | nil => rfl
  | cons it its ih =>
    rw [List.foldl_cons, ih, cleanWinner]
    by_cases hold : isOld nHeight nLimit it.2 = true
    · rw [if_pos hold, List.filter_cons, if_pos hold, Table.writeAll_cons]
    · rw [if_neg hold, List.filter_cons, if_neg hold]

structure Cleaned (nHeight nLimit : Int) (s s' : CMasternodePayments) : Prop where
  votes : s'.mapMasternodePayeeVotes.toList =
    s.mapMasternodePayeeVotes.toList.filter fun it => !isOld nHeight nLimit it.2
  erased : ∀ nBlockHeight, s'.mapMasternodeBlocks nBlockHeight = s.mapMasternodeBlocks nBlockHeight ∨
    (s'.mapMasternodeBlocks nBlockHeight = none ∧ nLimit < nHeight - nBlockHeight)
  gone : ∀ it ∈ s.mapMasternodePayeeVotes.toList, isOld nHeight nLimit it.2 = true →
    s'.mapMasternodeBlocks it.2.nBlockHeight = none

theorem cleaned_foldl (s : CMasternodePayments) (nHeight nLimit : Int) :
    Cleaned nHeight nLimit s
      (s.mapMasternodePayeeVotes.toList.foldl (cleanWinner nHeight nLimit) s) := by
  refine ⟨?_, ?_, ?_⟩
  · rw [votes_foldl_cleanWinner]
    exact TreeSweep.toList_sweep
  · intro nBlockHeight
    rw [blocks_foldl_cleanWinner, Table.writeAll_const]
    split
    · rename_i hmem
      obtain ⟨it, hit, rfl⟩ := List.mem_map.mp hmem
      exact .inr ⟨rfl, by simpa [isOld] using (List.mem_filter.mp hit).2⟩
    · exact .inl rfl
  · intro it hit hold
    rw [blocks_foldl_cleanWinner, Table.writeAll_const, if_pos]
    exact List.mem_map.mpr ⟨it, List.mem_filter.mpr ⟨hit, hold⟩, rfl⟩

namespace Cleaned

variable {s' : CMasternodePayments} {nBlockHeight : Int} {payee : CScript}

theorem winnersFor_old (h : Cleaned nHeight nLimit s s') (hold : nLimit < nHeight - nBlockHeight) :
    s'.winnersFor nBlockHeight payee = 0 := by
  rw [winnersFor, h.votes, List.countP_eq_zero]
  rintro ⟨k, w⟩ hmem
  have hfresh := (List.mem_filter.mp hmem).2
  simp only [decide_eq_true_eq, not_and]
  rintro rfl
  simp [isOld, hold] at hfresh

theorem winnersFor_fresh (h : Cleaned nHeight nLimit s s')
    (hfresh : ¬ nLimit < nHeight - nBlockHeight) :
    s'.winnersFor nBlockHeight payee = s.winnersFor nBlockHeight payee := by
  rw [winnersFor, h.votes, List.countP_filter]
  apply List.countP_congr
  rintro ⟨k, w⟩ -
  simp only [Bool.and_eq_true, decide_eq_true_eq, Bool.not_eq_true', and_iff_left_iff_imp]
  rintro ⟨rfl, -⟩
  simp [isOld, hfresh]

theorem votesFor_of_present (h : Cleaned nHeight nLimit s s')
    (hpresent : (s'.mapMasternodeBlocks nBlockHeight).isSome = true) :
    s'.votesFor nBlockHeight payee = s.votesFor nBlockHeight payee := by
  rcases h.erased nBlockHeight with heq | ⟨hnone, -⟩
  · rw [votesFor, votesFor, heq]
  · simp [hnone] at hpresent

end Cleaned

-- The votes of one height are old together, so the tally of a height goes exactly with its votes.
theorem InStep.cleaned (h : InStep s) {s' : CMasternodePayments}
    (hclean : Cleaned nHeight nLimit s s') : InStep s' := by
  refine ⟨?_, ?_, ?_⟩
  · intro k w hw
    have hmem := Std.TreeMap.mem_toList_iff_getElem?_eq_some.mpr hw
    rw [hclean.votes, List.mem_filter] at hmem
    have hpresent := h.present k w (Std.TreeMap.mem_toList_iff_getElem?_eq_some.mp hmem.1)
    rcases hclean.erased w.nBlockHeight with heq | ⟨-, hold⟩
    · rw [heq]
      exact hpresent
    · simp [isOld, hold] at hmem
  · intro nBlockHeight payees hblock
    rcases hclean.erased nBlockHeight with heq | ⟨hnone, -⟩
    · exact h.distinct nBlockHeight payees (heq ▸ hblock)
    · rw [hnone] at hblock
      simp at hblock
  · intro nBlockHeight payee
    by_cases hold : nLimit < nHeight - nBlockHeight
    · rw [hclean.winnersFor_old hold]
      cases hblock : s'.mapMasternodeBlocks nBlockHeight with
      | none => simp [votesFor, hblock]
      | some payees =>
        rw [hclean.votesFor_of_present (by simp [hblock]), h.tally, winnersFor]
        rw [Int.natCast_inj, List.countP_eq_zero]
        rintro it hit hheight
        simp only [decide_eq_true_eq] at hheight
        have hgone := hclean.gone it hit (by simpa [isOld, hheight.1] using hold)
        rw [hheight.1, hblock] at hgone
        simp at hgone
    · rw [hclean.winnersFor_fresh hold, ← h.tally, votesFor, votesFor]
      rcases hclean.erased nBlockHeight with heq | ⟨-, hlt⟩
      · rw [heq]
      · exact absurd hlt hold

theorem InStep.cleanPaymentList (h : InStep s) (nTipHeight : Option Int) (nSize : Nat) :
    InStep (s.cleanPaymentList nTipHeight nSize) := by
  cases nTipHeight with
  | none => exact h
  | some nHeight => exact h.cleaned (cleaned_foldl s nHeight _)

end CMasternodePayments

inductive PaymentsOp where
  | addWinningMasternode (env : PaymentsEnv) (winner : CMasternodePaymentWinner)
  | cleanPaymentList (nTipHeight : Option Int) (nSize : Nat)

namespace CMasternodePayments

def apply (hash : WinnerHash) (s : CMasternodePayments) : PaymentsOp → CMasternodePayments
  | .addWinningMasternode env winner => (s.addWinningMasternode hash env winner).1
  | .cleanPaymentList nTipHeight nSize => s.cleanPaymentList nTipHeight nSize

theorem InStep.foldl_apply {s : CMasternodePayments} (h : InStep s) (hash : WinnerHash)
    (ops : List PaymentsOp) : InStep (ops.foldl (apply hash) s) := by
  induction ops generalizing s with
  | nil => exact h
  | cons op ops ih =>
    apply ih
    cases op with
    | addWinningMasternode env winner => exact h.addWinningMasternode env winner
    | cleanPaymentList nTipHeight nSize => exact h.cleanPaymentList nTipHeight nSize

theorem payee_tallies_match (hash : WinnerHash) (ops : List PaymentsOp) :
    (∀ (nBlockHeight : Int) (payees : CMasternodeBlockPayees),
      (ops.foldl (apply hash) {}).mapMasternodeBlocks nBlockHeight = some payees →
        (payees.vecPayments.map CMasternodePayee.scriptPubKey).Nodup ∧
        ∀ payee, CMasternodeBlockPayees.votesIn payee payees.vecPayments =
          (ops.foldl (apply hash) {}).mapMasternodePayeeVotes.toList.countP fun kv =>
            decide (kv.2.nBlockHeight = nBlockHeight ∧ kv.2.payee = payee)) ∧
      ∀ (k : UInt256) (winner : CMasternodePaymentWinner),
        (ops.foldl (apply hash) {}).mapMasternodePayeeVotes[k]? = some winner →
          ((ops.foldl (apply hash) {}).mapMasternodeBlocks winner.nBlockHeight).isSome = true := by
  have hstart : InStep {} := ⟨by simp, by simp, fun _ _ => rfl⟩
  have h := hstart.foldl_apply hash ops
  refine ⟨?_, h.present⟩
  intro nBlockHeight payees hblock
  refine ⟨h.distinct nBlockHeight payees hblock, ?_⟩
  intro payee
  have htally := h.tally nBlockHeight payee
  rwa [votesFor, hblock, Option.elim_some] at htally

end CMasternodePayments

end AnkerNode
