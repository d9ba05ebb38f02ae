import AnkerNode.Budget.CleanUp
import AnkerNode.Budget.VoteOrder

namespace AnkerNode

namespace CBudgetManager

variable (hashes : BudgetHashes)

def atProposals (votes : List (BudgetEnv × CBudgetVote)) :
    List (DeskEnv CBudgetProposal CBudgetVote × CBudgetVote) :=
  votes.map fun p => (p.1.proposalDesk hashes, p.2)

def atFinalized (votes : List (BudgetEnv × CFinalizedBudgetVote)) :
    List (DeskEnv CFinalizedBudget CFinalizedBudgetVote × CFinalizedBudgetVote) :=
  votes.map fun p => (p.1.finalizedDesk hashes, p.2)

def mvotes (votes : List (BudgetEnv × CBudgetVote)) : List (BudgetEnv × BudgetStep) :=
  votes.map fun p => (p.1, .message (.mvote p.2))

def fbvotes (votes : List (BudgetEnv × CFinalizedBudgetVote)) : List (BudgetEnv × BudgetStep) :=
  votes.map fun p => (p.1, .message (.fbvote p.2))

variable {hashes} {budget : CBudgetManager}

theorem run_mvotes (votes : List (BudgetEnv × CBudgetVote)) :
    (run hashes budget (mvotes votes)).proposals =
      budget.proposals.deliver hashes.proposalBallot (atProposals hashes votes) := by
  induction votes generalizing budget with
  | nil => rfl
  | cons p votes ih =>
    rw [mvotes, List.map_cons, run, List.foldl_cons]
    exact ih

theorem run_fbvotes (votes : List (BudgetEnv × CFinalizedBudgetVote)) :
    (run hashes budget (fbvotes votes)).finalized =
      budget.finalized.deliver hashes.finalizedBallot (atFinalized hashes votes) := by
  induction votes generalizing budget with
  | nil => rfl
  | cons p votes ih =>
    rw [fbvotes, List.map_cons, run, List.foldl_cons]
    exact ih

theorem processMessage_mprop (env : BudgetEnv) {p : CBudgetProposal} (hbare : p.mapVotes = ∅) :
    (budget.processMessage hashes env (.mprop p)).proposals =
      budget.proposals.announce hashes.proposalBallot (env.proposalDesk hashes) p := by
  have hp : { p with mapVotes := ∅ } = p := by rw [← hbare]
  rw [processMessage, hp, VoteDesk.announce]
  split
  · rename_i d heq
    rw [heq]
  · rename_i d heq
    rw [heq]
    rfl

theorem processMessage_fbs (env : BudgetEnv) {b : CFinalizedBudget} (hbare : b.mapVotes = ∅) :
    (budget.processMessage hashes env (.fbs b)).finalized =
      budget.finalized.announce hashes.finalizedBallot (env.finalizedDesk hashes) b := by
  have hb : { b with mapVotes := ∅ } = b := by rw [← hbare]
  rw [processMessage, hb, VoteDesk.announce]
  split
  · rename_i d heq
    rw [heq]
  · rename_i d heq
    rw [heq]
    rfl

theorem run_mprop (pre : List (BudgetEnv × CBudgetVote)) (env : BudgetEnv) {p : CBudgetProposal}
    (hbare : p.mapVotes = ∅) (post : List (BudgetEnv × CBudgetVote)) :
    (run hashes budget (mvotes pre ++ (env, .message (.mprop p)) :: mvotes post)).proposals =
      ((budget.proposals.deliver hashes.proposalBallot (atProposals hashes pre)).announce
        hashes.proposalBallot (env.proposalDesk hashes) p).deliver hashes.proposalBallot
          (atProposals hashes post) := by
  rw [run, List.foldl_append, List.foldl_cons, ← run_mvotes pre, ← processMessage_mprop env hbare]
  exact run_mvotes post

theorem run_fbs (pre : List (BudgetEnv × CFinalizedBudgetVote)) (env : BudgetEnv)
    {b : CFinalizedBudget} (hbare : b.mapVotes = ∅)
    (post : List (BudgetEnv × CFinalizedBudgetVote)) :
    (run hashes budget (fbvotes pre ++ (env, .message (.fbs b)) :: fbvotes post)).finalized =
      ((budget.finalized.deliver hashes.finalizedBallot (atFinalized hashes pre)).announce
        hashes.finalizedBallot (env.finalizedDesk hashes) b).deliver hashes.finalizedBallot
          (atFinalized hashes post) := by
  rw [run, List.foldl_append, List.foldl_cons, ← run_fbvotes pre, ← processMessage_fbs env hbare]
  exact run_fbvotes post

-- The desks a node can have come to, by messages and clean-ups.
def Reached (hashes : BudgetHashes) (budget : CBudgetManager) : Prop :=
  ∃ steps, budget = run hashes {} steps

theorem votes_stored_iff (hashes : BudgetHashes) (budget : CBudgetManager)
    (hreached : Reached hashes budget) :
    (∀ pre env p post,
      VoteDesk.Arrivals hashes.proposalBallot budget.proposals (atProposals hashes pre)
        (env.proposalDesk hashes) p (atProposals hashes post) →
      (VoteDesk.Stored hashes.proposalBallot (p.getHash hashes.proposal)
          (atProposals hashes (pre ++ post))
          (run hashes budget (mvotes pre ++ (env, .message (.mprop p)) :: mvotes post)).proposals ↔
        VoteDesk.InTime (atProposals hashes pre) (env.proposalDesk hashes)
          (atProposals hashes post))) ∧
    (∀ pre env b post,
      VoteDesk.Arrivals hashes.finalizedBallot budget.finalized (atFinalized hashes pre)
        (env.finalizedDesk hashes) b (atFinalized hashes post) →
      (VoteDesk.Stored hashes.finalizedBallot (b.getHash hashes.finalized)
          (atFinalized hashes (pre ++ post))
          (run hashes budget (fbvotes pre ++ (env, .message (.fbs b)) :: fbvotes post)).finalized ↔
        VoteDesk.InTime (atFinalized hashes pre) (env.finalizedDesk hashes)
          (atFinalized hashes post))) := by
  obtain ⟨steps, rfl⟩ := hreached
  have hkept := kept_run (kept_empty hashes) steps
  constructor
  · intro pre env p post h
    rw [run_mprop pre env h.item.votes post, atProposals, List.map_append]
    exact VoteDesk.stored_iff hkept.proposals h
  · intro pre env b post h
    rw [run_fbs pre env h.item.votes post, atFinalized, List.map_append]
    exact VoteDesk.stored_iff hkept.finalized h

def plainProposal : CBudgetProposal where
  strProposalName := "road"
  strURL := ""
  nBlockStart := 86400
  nBlockEnd := 259200
  address := [0x51]
  nAmount := 10 * COIN
  nFeeTXHash := 1

def yesFrom (h : UInt256) : BudgetEnv × CBudgetVote :=
  (votersEnv [1, 2], ⟨⟨⟨h, 0⟩, [], 0⟩, 8, VOTE_YES, 0, [], true⟩)

theorem goodVote_yesFrom {h : UInt256} (hh : h = 1 ∨ h = 2) :
    (firstHash.proposalBallot).GoodVote (plainProposal.getHash firstHash.proposal)
      ((votersEnv [1, 2]).proposalDesk firstHash, (yesFrom h).2) := by
  rcases hh with rfl | rfl
  · exact ⟨by decide, by decide, rfl, by decide⟩
  · exact ⟨by decide, by decide, rfl, by decide⟩

theorem goodItem_plainProposal :
    (firstHash.proposalBallot).GoodItem ((votersEnv [1, 2]).proposalDesk firstHash)
      plainProposal :=
  ⟨rfl, by decide +kernel, rfl⟩

theorem votes_stored_one_early :
    VoteDesk.Stored firstHash.proposalBallot (plainProposal.getHash firstHash.proposal)
      (atProposals firstHash [yesFrom 1, yesFrom 2])
      (run firstHash {} (mvotes [yesFrom 1] ++
        (votersEnv [1, 2], .message (.mprop plainProposal)) :: mvotes [yesFrom 2])).proposals := by
  refine ((votes_stored_iff firstHash {} ⟨[], rfl⟩).1 [yesFrom 1] (votersEnv [1, 2]) plainProposal
    [yesFrom 2] ?_).mpr ⟨rfl, by decide, by decide, by decide⟩
  refine ⟨goodItem_plainProposal, ?_, by decide, by decide, by decide, by simp, rfl, by simp, ?_⟩
  · simp only [atProposals, List.map_cons, List.map_nil, List.singleton_append,
      List.forall_mem_cons]
    exact ⟨goodVote_yesFrom (.inl rfl), goodVote_yesFrom (.inr rfl), by simp⟩
  · intro p _
    rfl

theorem early_vote_overwritten :
    VoteDesk.Arrivals firstHash.proposalBallot {} (atProposals firstHash [yesFrom 1, yesFrom 2])
        ((votersEnv [1, 2]).proposalDesk firstHash) plainProposal [] ∧
      ¬ VoteDesk.Stored firstHash.proposalBallot (plainProposal.getHash firstHash.proposal)
        (atProposals firstHash [yesFrom 1, yesFrom 2])
        (run firstHash {} (mvotes [yesFrom 1, yesFrom 2] ++
          [(votersEnv [1, 2], .message (.mprop plainProposal))])).proposals := by
  constructor
  · refine ⟨goodItem_plainProposal, ?_, by decide, by decide, by decide, by simp, rfl, by simp, ?_⟩
    · simp only [atProposals, List.map_cons, List.map_nil, List.append_nil, List.forall_mem_cons]
      exact ⟨goodVote_yesFrom (.inl rfl), goodVote_yesFrom (.inr rfl), by simp⟩
    · intro p _
      rfl
  · have hlost : ((run firstHash {} (mvotes [yesFrom 1, yesFrom 2] ++
        [(votersEnv [1, 2], .message (.mprop plainProposal))])).proposals.mapItems[
          (8 : UInt256)]?.all fun p => p.mapVotes[(1 : UInt256)]?.isNone) = true := by
      decide +kernel
    rintro ⟨p, hp, hvotes⟩
    have hfirst := hvotes _ List.mem_cons_self
    rw [Option.all_eq_true] at hlost
    have hnone := hlost p hp
    rw [Option.isNone_iff_eq_none] at hnone
    exact absurd (hnone.symm.trans hfirst) (by simp)

end CBudgetManager

end AnkerNode
