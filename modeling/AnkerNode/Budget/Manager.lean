import AnkerNode.Budget.FinalizedBudget
import AnkerNode.Budget.VoteDesk
import AnkerNode.Lib.Best

namespace AnkerNode

-- the `GetHash` of each kind of object
structure BudgetHashes where
  proposal : ProposalHash
  finalized : BudgetHash
  vote : CTxIn → UInt256 → Int → Int → UInt256
  finalizedVote : CTxIn → UInt256 → Int → UInt256
  outPoint : COutPoint → UInt256

def BudgetHashes.proposalBallot (hashes : BudgetHashes) : Ballot CBudgetProposal CBudgetVote where
  prevout vote := vote.vin.prevout
  target := CBudgetVote.nProposalHash
  nTime := CBudgetVote.nTime
  fValid := CBudgetVote.fValid
  setValid f vote := { vote with fValid := f }
  getHash vote := hashes.vote vote.vin vote.nProposalHash vote.nVote vote.nTime
  getOutHash := hashes.outPoint
  getItemHash p := p.getHash hashes.proposal
  mapVotes := CBudgetProposal.mapVotes
  setVotes p m := { p with mapVotes := m }
  mapVotes_setVotes _ _ := rfl
  getItemHash_setVotes _ _ := rfl
  fValid_setValid _ _ := rfl
  target_setValid _ _ := rfl
  prevout_setValid _ _ := rfl
  getHash_setValid _ _ := rfl
  nTime_setValid _ _ := rfl

def BudgetHashes.finalizedBallot (hashes : BudgetHashes) :
    Ballot CFinalizedBudget CFinalizedBudgetVote where
  prevout vote := vote.vin.prevout
  target := CFinalizedBudgetVote.nBudgetHash
  nTime := CFinalizedBudgetVote.nTime
  fValid := CFinalizedBudgetVote.fValid
  setValid f vote := { vote with fValid := f }
  getHash vote := hashes.finalizedVote vote.vin vote.nBudgetHash vote.nTime
  getOutHash := hashes.outPoint
  getItemHash b := b.getHash hashes.finalized
  mapVotes := CFinalizedBudget.mapVotes
  setVotes b m := { b with mapVotes := m }
  mapVotes_setVotes _ _ := rfl
  getItemHash_setVotes _ _ := rfl
  fValid_setValid _ _ := rfl
  target_setValid _ _ := rfl
  prevout_setValid _ _ := rfl
  getHash_setValid _ _ := rfl
  nTime_setValid _ _ := rfl

namespace BudgetEnv

variable (env : BudgetEnv) (hashes : BudgetHashes)

def fActive : Bool := !env.fLiteMode && env.fBlockchainSynced

-- The clean-up of the immature proposals asks for the collateral of a finalized budget.
def proposalDesk : DeskEnv CBudgetProposal CBudgetVote where
  fActive := env.fActive
  fSynced := env.fSynced
  nTime := env.nTime
  isKnown vote := (env.find vote.vin).isSome
  signatureValid vote := vote.signatureValid env
  isBudgetCollateralValid p :=
    env.isBudgetCollateralValid p.nFeeTXHash (p.getHash hashes.proposal) false
  fMature p := (env.isBudgetCollateralValid p.nFeeTXHash (p.getHash hashes.proposal) true).fValid
  isValid p := (p.isValid env hashes.proposal true).isOk

-- The names of the proposals that a finalized budget pays enter its error texts only.
def finalizedDesk : DeskEnv CFinalizedBudget CFinalizedBudgetVote where
  fActive := env.fActive
  fSynced := env.fSynced
  nTime := env.nTime
  isKnown vote := (env.find vote.vin).isSome
  signatureValid vote := vote.signatureValid env
  isBudgetCollateralValid b :=
    env.isBudgetCollateralValid b.nFeeTXHash (b.getHash hashes.finalized) true
  fMature b := (env.isBudgetCollateralValid b.nFeeTXHash (b.getHash hashes.finalized) true).fValid
  isValid b := (b.isValid env hashes.finalized (fun _ => none) true).isOk

def height : Int := env.nTipHeight.getD (-1)

end BudgetEnv

inductive BudgetMessage where
  | mprop (p : CBudgetProposal)
  | mvote (vote : CBudgetVote)
  | fbs (b : CFinalizedBudget)
  | fbvote (vote : CFinalizedBudgetVote)

inductive BudgetStep where
  | message (msg : BudgetMessage)
  | newBlock (nRand : Int)

structure CBudgetManager where
  proposals : VoteDesk CBudgetProposal CBudgetVote := {}
  finalized : VoteDesk CFinalizedBudget CFinalizedBudgetVote := {}

namespace CBudgetManager

variable (hashes : BudgetHashes) (env : BudgetEnv) (budget : CBudgetManager)

def mapFinalizedBudgets : Std.TreeMap UInt256 CFinalizedBudget := budget.finalized.mapItems

def checkOrphanVotes : CBudgetManager where
  proposals := budget.proposals.checkOrphanVotes hashes.proposalBallot (env.proposalDesk hashes)
  finalized := budget.finalized.checkOrphanVotes hashes.finalizedBallot (env.finalizedDesk hashes)

-- The broadcast of a proposal or of a finalized budget leaves the votes out.
def processMessage : BudgetMessage → CBudgetManager
  | .mprop p =>
    match budget.proposals.acceptItem hashes.proposalBallot (env.proposalDesk hashes)
        { p with mapVotes := ∅ } with
    | (d, false) => { budget with proposals := d }
    | (d, true) => checkOrphanVotes hashes env { budget with proposals := d }
  | .mvote vote =>
    { budget with
      proposals :=
        budget.proposals.processVote hashes.proposalBallot (env.proposalDesk hashes) vote }
  | .fbs b =>
    match budget.finalized.acceptItem hashes.finalizedBallot (env.finalizedDesk hashes)
        { b with mapVotes := ∅ } with
    | (d, false) => { budget with finalized := d }
    | (d, true) => checkOrphanVotes hashes env { budget with finalized := d }
  | .fbvote vote =>
    { budget with
      finalized :=
        budget.finalized.processVote hashes.finalizedBallot (env.finalizedDesk hashes) vote }

def clearSeen : CBudgetManager := ⟨budget.proposals.clearSeen, budget.finalized.clearSeen⟩

def checkAndRemove : CBudgetManager where
  proposals := budget.proposals.checkAndRemove hashes.proposalBallot (env.proposalDesk hashes)
  finalized := budget.finalized.checkAndRemove hashes.finalizedBallot (env.finalizedDesk hashes)

def cleanAndRemove : CBudgetManager where
  proposals := budget.proposals.cleanAndRemove hashes.proposalBallot (env.proposalDesk hashes) false
  finalized :=
    budget.finalized.cleanAndRemove hashes.finalizedBallot (env.finalizedDesk hashes) false

def acceptImmature : CBudgetManager where
  proposals := budget.proposals.acceptImmature hashes.proposalBallot (env.proposalDesk hashes)
  finalized := budget.finalized.acceptImmature hashes.finalizedBallot (env.finalizedDesk hashes)

def cleansUp : Bool := env.fPastBudget && env.height.tmod 14 == 0

def newBlock (nRand : Int) : CBudgetManager :=
  if !cleansUp env then budget
  else
    let budget :=
      if env.fSynced && env.height.tmod 1440 == nRand.tmod 1440 then budget.clearSeen else budget
    acceptImmature hashes env (cleanAndRemove hashes env (checkAndRemove hashes env budget))

def step (budget : CBudgetManager) : BudgetEnv × BudgetStep → CBudgetManager
  | (env, .message msg) => budget.processMessage hashes env msg
  | (env, .newBlock nRand) => budget.newBlock hashes env nRand

def run (steps : List (BudgetEnv × BudgetStep)) : CBudgetManager := steps.foldl (step hashes) budget

structure Kept : Prop where
  proposals : VoteDesk.Kept hashes.proposalBallot budget.proposals
  finalized : VoteDesk.Kept hashes.finalizedBallot budget.finalized

end CBudgetManager

namespace Ballot

variable {I V : Type} (ballot : Ballot I V)

-- Votes handed to `AddOrUpdateVote` one after another, each with the clock at that moment.
def deliverVotes (i : I) (votes : List (Int × V)) : I :=
  votes.foldl (fun i p => (ballot.addOrUpdateVote p.1 i p.2).toOption.getD i) i

-- the votes of one masternode, none of them more than an hour ahead when it comes
structure Timely (prevout : COutPoint) (votes : List (Int × V)) : Prop where
  prevout : ∀ p ∈ votes, ballot.prevout p.2 = prevout
  ahead : ∀ p ∈ votes, ballot.nTime p.2 ≤ p.1 + 60 * 60

variable {ballot} {i : I} {prevout : COutPoint} {votes : List (Int × V)}

theorem checkEarlier_eq_ok {old : Option V} {vote : V} :
    ballot.checkEarlier old vote = .ok () ↔
      ∀ o, old = some o → ballot.nTime o + BUDGET_VOTE_UPDATE_MIN ≤ ballot.nTime vote := by
  cases old with
  | none => simp [checkEarlier]
  | some o =>
    have hmin : BUDGET_VOTE_UPDATE_MIN = 3600 := rfl
    simp only [checkEarlier, Checks.seq_eq_ok, Checks.failIf_eq_ok, decide_eq_false_iff_not,
      Option.some.injEq, forall_eq']
    omega

theorem addOrUpdateVote_of_timely {nTime : Int} {vote : V}
    (hahead : ballot.nTime vote ≤ nTime + 60 * 60) :
    ballot.addOrUpdateVote nTime i vote =
      ballot.checkEarlier (ballot.mapVotes i)[ballot.voterKey vote]? vote >>= fun _ =>
        .ok (ballot.setVotes i ((ballot.mapVotes i).insert (ballot.voterKey vote) vote)) := by
  have hfail : decide (nTime + 60 * 60 < ballot.nTime vote) = false := by
    simpa using hahead
  rw [addOrUpdateVote, hfail]
  rfl

-- One delivery renews the vote stored for its masternode and no other.
theorem mapVotes_addOrUpdateVote {nTime : Int} {vote : V}
    (hahead : ballot.nTime vote ≤ nTime + 60 * 60) (k : UInt256) :
    (ballot.mapVotes ((ballot.addOrUpdateVote nTime i vote).toOption.getD i))[k]? =
      if k = ballot.voterKey vote then
        Best.renew ballot.nTime BUDGET_VOTE_UPDATE_MIN (ballot.mapVotes i)[k]? vote
      else (ballot.mapVotes i)[k]? := by
  rw [addOrUpdateVote_of_timely hahead]
  cases hcheck : ballot.checkEarlier (ballot.mapVotes i)[ballot.voterKey vote]? vote with
  | ok u =>
    have hlater := checkEarlier_eq_ok.mp hcheck
    change (ballot.mapVotes (ballot.setVotes i _))[k]? = _
    rw [ballot.mapVotes_setVotes, Std.TreeMap.getElem?_insert]
    by_cases hk : k = ballot.voterKey vote
    · subst hk
      rw [if_pos (by simp), if_pos rfl]
      cases hold : (ballot.mapVotes i)[ballot.voterKey vote]? with
      | none => rfl
      | some o => rw [Best.renew, if_pos (hlater o hold)]
    · rw [if_neg (by simpa using Ne.symm hk), if_neg hk]
  | error e =>
    change (ballot.mapVotes i)[k]? = _
    by_cases hk : k = ballot.voterKey vote
    · subst hk
      rw [if_pos rfl]
      cases hold : (ballot.mapVotes i)[ballot.voterKey vote]? with
      | none =>
        rw [hold] at hcheck
        simp [checkEarlier] at hcheck
      | some o =>
        rw [Best.renew, if_neg]
        intro hlater
        have hok := checkEarlier_eq_ok.mpr fun o' ho' => by
          rw [← Option.some.inj (hold.symm.trans ho')]
          exact hlater
        rw [hok] at hcheck
        simp at hcheck
    · rw [if_neg hk]

theorem mapVotes_deliverVotes (h : ballot.Timely prevout votes) (k : UInt256) :
    (ballot.mapVotes (ballot.deliverVotes i votes))[k]? =
      if k = ballot.getOutHash prevout then
        (votes.map Prod.snd).foldl (Best.renew ballot.nTime BUDGET_VOTE_UPDATE_MIN)
          (ballot.mapVotes i)[k]?
      else (ballot.mapVotes i)[k]? := by
  induction votes generalizing i with
  | nil => simp [deliverVotes]
  | cons p votes ih =>
    obtain ⟨hprevout, hahead⟩ := h
    rw [List.forall_mem_cons] at hprevout hahead
    have hkey : ballot.voterKey p.2 = ballot.getOutHash prevout := by
      rw [voterKey, hprevout.1]
    have hfirst := mapVotes_addOrUpdateVote (i := i) hahead.1 k
    rw [hkey] at hfirst
    rw [deliverVotes, List.foldl_cons, List.map_cons, List.foldl_cons]
    refine (ih ⟨hprevout.2, hahead.2⟩).trans ?_
    by_cases hk : k = ballot.getOutHash prevout
    · rw [if_pos hk, if_pos hk, hfirst, if_pos hk]
    · rw [if_neg hk, if_neg hk, hfirst, if_neg hk]

-- What the votes of one masternode leave on an item that held none of them.
def NewestStays (ballot : Ballot I V) : Prop :=
  ∀ (i : I) (prevout : COutPoint) (votes : List (Int × V)), ballot.Timely prevout votes →
    Best.Spaced ballot.nTime BUDGET_VOTE_UPDATE_MIN (votes.map Prod.snd) →
    (ballot.mapVotes i)[ballot.getOutHash prevout]? = none →
    (∀ newest ∈ votes.map Prod.snd,
      (∀ vote ∈ votes.map Prod.snd, ballot.nTime vote ≤ ballot.nTime newest) →
        (ballot.mapVotes (ballot.deliverVotes i votes))[ballot.getOutHash prevout]? =
          some newest) ∧
    ∀ k, k ≠ ballot.getOutHash prevout →
      (ballot.mapVotes (ballot.deliverVotes i votes))[k]? = (ballot.mapVotes i)[k]?

theorem newestStays (ballot : Ballot I V) : ballot.NewestStays := by
  intro i prevout votes htimely hspaced hnone
  refine ⟨?_, ?_⟩
  · intro newest hmem hmax
    rw [mapVotes_deliverVotes htimely, if_pos rfl, hnone]
    exact Best.foldl_renew_newest (by decide) hspaced hmem hmax
  · intro k hk
    rw [mapVotes_deliverVotes htimely, if_neg hk]

end Ballot

theorem newest_budget_vote_wins (hashes : BudgetHashes) :
    hashes.proposalBallot.NewestStays ∧ hashes.finalizedBallot.NewestStays :=
  ⟨Ballot.newestStays _, Ballot.newestStays _⟩

def outPointHashes : BudgetHashes where
  proposal _ _ _ _ _ _ := 8
  finalized _ _ _ := 7
  vote vin _ _ _ := vin.prevout.hash
  finalizedVote vin _ _ := vin.prevout.hash
  outPoint o := o.hash

def voteAt (nTime : Int) : CBudgetVote := ⟨⟨⟨1, 0⟩, [], 0⟩, 8, VOTE_YES, nTime, [], true⟩

def finalVoteAt (nTime : Int) : CFinalizedBudgetVote := ⟨⟨⟨1, 0⟩, [], 0⟩, 7, nTime, [], true⟩

-- The newest of two votes comes first, then the older one, then the newest again.
theorem newest_budget_vote_wins_late_first :
    (outPointHashes.proposalBallot.mapVotes
        (outPointHashes.proposalBallot.deliverVotes ⟨"road", "", 0, 144, [0x51], COIN, 1, ∅⟩
          [(9000, voteAt 9000), (9060, voteAt 3000), (9120, voteAt 9000)]))[(1 : UInt256)]? =
      some (voteAt 9000) ∧
    (outPointHashes.finalizedBallot.mapVotes
        (outPointHashes.finalizedBallot.deliverVotes ⟨"main", 144, [], ∅, 1⟩
          [(9000, finalVoteAt 9000), (9060, finalVoteAt 3000), (9120, finalVoteAt 9000)]))[
            (1 : UInt256)]? = some (finalVoteAt 9000) := by
  obtain ⟨hproposal, hfinalized⟩ := newest_budget_vote_wins outPointHashes
  refine ⟨(hproposal _ ⟨1, 0⟩ _ ⟨by decide, by decide⟩ ?_ (by simp [BudgetHashes.proposalBallot])).1
    (voteAt 9000) (by simp) (by decide), (hfinalized _ ⟨1, 0⟩ _ ⟨by decide, by decide⟩ ?_
      (by simp [BudgetHashes.finalizedBallot])).1 (finalVoteAt 9000) (by simp) (by decide)⟩
  · unfold Best.Spaced
    decide
  · unfold Best.Spaced
    decide

end AnkerNode
