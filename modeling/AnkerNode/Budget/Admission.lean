import AnkerNode.Budget.CleanUp

namespace AnkerNode

namespace VoteDesk

variable {I V : Type} {d : VoteDesk I V} {P : I → Prop}

def Holds (P : I → Prop) (d : VoteDesk I V) : Prop :=
  ∀ (k : UInt256) (i : I), d.mapItems[k]? = some i → P i

theorem holds_insert {mapItems : Std.TreeMap UInt256 I} {k : UInt256} {i : I}
    (h : Holds P d) (hi : P i) (heq : mapItems = d.mapItems.insert k i) :
    Holds P { d with mapItems := mapItems } := by
  subst heq
  intro k' i' hi'
  rcases getElem?_insert_cases hi' with ⟨-, rfl⟩ | hi'
  · exact hi
  · exact h k' i' hi'

section Admission

variable (ballot : Ballot I V) (env : DeskEnv I V)

section Votes

variable (hvotes : ∀ i m, P i → P (ballot.setVotes i m))
include hvotes

theorem holds_update (h : Holds P d) (fFrom : Bool) (vote : V) :
    Holds P (d.update ballot env fFrom vote).1 := by
  rw [update]
  split
  · split
    · exact h
    · exact h
  · rename_i i hitem
    split
    · exact h
    · rename_i i' hadd
      rw [addOrUpdateVote_eq_ok hadd]
      exact holds_insert h (hvotes _ _ (h _ i hitem)) rfl

theorem holds_processVote (h : Holds P d) (vote : V) :
    Holds P (d.processVote ballot env vote) := by
  rw [processVote]
  split
  · exact h
  · split
    · exact h
    · split
      · exact h
      · split
        · exact h
        · apply holds_update ballot env hvotes
          exact h

theorem holds_checkOrphanVotes (h : Holds P d) : Holds P (d.checkOrphanVotes ballot env) := by
  rw [checkOrphanVotes]
  generalize d.mapOrphanVotes.toList = its
  induction its generalizing d with
  | nil => exact h
  | cons it its ih =>
    apply ih
    rcases checkOrphanVote_cases ballot env d it with heq | ⟨i, i', hitem, hadd, heq⟩
    · rwa [heq]
    · rw [heq, addOrUpdateVote_eq_ok hadd]
      exact holds_insert h (hvotes _ _ (h _ i hitem)) rfl

theorem holds_cleanAndRemove (h : Holds P d) (f : Bool) :
    Holds P (d.cleanAndRemove ballot env f) := by
  intro k i hi
  rw [cleanAndRemove_item, Option.map_eq_some_iff] at hi
  obtain ⟨i', hi', rfl⟩ := hi
  exact hvotes _ _ (h k i' hi')

end Votes

variable {env} (hvalid : ∀ i, env.isValid i = true → P i)
include hvalid

theorem holds_addItem (h : Holds P d) (i : I) : Holds P (d.addItem ballot env i) := by
  rw [addItem]
  split
  · exact h
  · rename_i hok
    split
    · exact h
    · exact holds_insert h (hvalid i (by simpa using hok)) rfl

theorem holds_acceptItem (h : Holds P d) (i : I) : Holds P (d.acceptItem ballot env i).1 := by
  rw [acceptItem]
  split
  · exact h
  · split
    · exact h
    · split
      · dsimp only
        split
        · exact h
        · exact h
      · split
        · exact h
        · apply holds_addItem ballot hvalid
          exact h

theorem holds_cleanUp (hvotes : ∀ i m, P i → P (ballot.setVotes i m)) (d : VoteDesk I V) :
    Holds P (d.cleanUp ballot env) := by
  have hchecked : Holds P (d.checkAndRemove ballot env) := by
    intro k i hi
    rcases getElem?_foldl_keepValid_cases hi with hi | ⟨it, -, -, rfl, hok⟩
    · simp at hi
    · exact hvalid _ hok
  have hcleaned := holds_cleanAndRemove ballot env hvotes hchecked false
  rw [cleanUp, acceptImmature]
  generalize ((d.checkAndRemove ballot env).cleanAndRemove ballot env false) = d at hcleaned
  have hfold : ∀ (items : List I) (d : VoteDesk I V), Holds P d →
      Holds P (items.foldl (retry ballot env) d) := by
    intro items
    induction items with
    | nil => exact fun d h => h
    | cons i items ih =>
      intro d h
      apply ih
      rw [retry]
      split
      · exact holds_addItem ballot hvalid h i
      · exact h
  exact hfold _ _ hcleaned

end Admission

end VoteDesk

namespace CBudgetManager

variable {hashes : BudgetHashes} {budget : CBudgetManager} {P : CBudgetProposal → Prop}

-- What every check of a proposal asks for, whatever its votes, is true of every stored proposal.
theorem holds_run (hvotes : ∀ p mapVotes, P p → P { p with mapVotes := mapVotes })
    (hvalid : ∀ (env : BudgetEnv) (p : CBudgetProposal),
      p.isValid env hashes.proposal true = .ok () → P p)
    (h : budget.proposals.Holds P) (steps : List (BudgetEnv × BudgetStep)) :
    (run hashes budget steps).proposals.Holds P := by
  have hok : ∀ (env : BudgetEnv) (p : CBudgetProposal),
      (env.proposalDesk hashes).isValid p = true → P p := by
    intro env p hp
    obtain ⟨u, hu⟩ := Checks.exists_ok_of_isOk hp
    exact hvalid env p hu
  induction steps generalizing budget with
  | nil => exact h
  | cons s steps ih =>
    apply ih
    obtain ⟨env, s⟩ := s
    cases s with
    | message msg =>
      cases msg with
      | mprop p =>
        have haccept := VoteDesk.holds_acceptItem hashes.proposalBallot (hok env) h
          { p with mapVotes := ∅ }
        simp only [step, processMessage]
        split
        · rename_i d heq
          rwa [heq] at haccept
        · rename_i d heq
          rw [heq] at haccept
          exact VoteDesk.holds_checkOrphanVotes hashes.proposalBallot _ hvotes haccept
      | mvote vote => exact VoteDesk.holds_processVote hashes.proposalBallot _ hvotes h vote
      | fbs b =>
        simp only [step, processMessage]
        split
        · exact h
        · exact VoteDesk.holds_checkOrphanVotes hashes.proposalBallot _ hvotes h
      | fbvote vote => exact h
    | newBlock nRand =>
      cases hclean : cleansUp env with
      | false =>
        rw [step, newBlock_idle hclean]
        exact h
      | true =>
        obtain ⟨budget', -, hproposals, -⟩ := newBlock_cleanUp hashes budget hclean nRand
        rw [step, hproposals]
        exact VoteDesk.holds_cleanUp hashes.proposalBallot (hok env) hvotes _

end CBudgetManager

end AnkerNode
