import AnkerNode.Masternode.Payments
import AnkerNode.Masternode.Rank

namespace AnkerNode

namespace CMasternodePayments

variable {hash : WinnerHash} {s : CMasternodePayments} {env : PaymentsEnv}
  {winner : CMasternodePaymentWinner} {added : List CMasternodePaymentWinner}

def lastVote (s : CMasternodePayments) (outMasternode : COutPoint) : Option Int :=
  s.mapMasternodesLastVote (lastVoteKey outMasternode)

def recordVote (s : CMasternodePayments) (winner : CMasternodePaymentWinner) :
    CMasternodePayments :=
  { s with
    mapMasternodesLastVote := Function.update s.mapMasternodesLastVote
      (lastVoteKey winner.vinMasternode.prevout) (some winner.nBlockHeight) }

def storeVote (s : CMasternodePayments) (hash : WinnerHash) (winner : CMasternodePaymentWinner) :
    CMasternodePayments :=
  { s with
    mapMasternodePayeeVotes := s.mapMasternodePayeeVotes.insert (winner.getHash hash) winner
    mapMasternodeBlocks := Function.update s.mapMasternodeBlocks winner.nBlockHeight
      (some (((s.mapMasternodeBlocks winner.nBlockHeight).getD
        { nBlockHeight := winner.nBlockHeight }).addPayee winner.payee 1)) }

-- every test of the message except `CanVote`
def Storable (s : CMasternodePayments) (hash : WinnerHash) (env : PaymentsEnv)
    (winner : CMasternodePaymentWinner) : Prop :=
  s.reachesCanVote hash env winner = true ∧ env.signatureValid winner = true ∧
    (env.getBlockHash (winner.nBlockHeight - 100)).isSome = true

theorem unseen_of_reachesCanVote (h : s.reachesCanVote hash env winner = true) :
    s.mapMasternodePayeeVotes[winner.getHash hash]? = none := by
  simp only [reachesCanVote, Bool.and_eq_true, Bool.not_eq_true', Std.TreeMap.contains_eq_isSome_getElem?,
    Option.isSome_eq_false_iff, Option.isNone_iff_eq_none] at h
  exact h.1.1.2

inductive Outcome (hash : WinnerHash) (s : CMasternodePayments) (env : PaymentsEnv)
    (winner : CMasternodePaymentWinner) : CMasternodePayments × Bool → Prop where
  | stopped (h : s.reachesCanVote hash env winner = true →
      s.lastVote winner.vinMasternode.prevout = some winner.nBlockHeight) :
      Outcome hash s env winner (s, false)
  | refused (hreach : s.reachesCanVote hash env winner = true)
      (hlast : s.lastVote winner.vinMasternode.prevout ≠ some winner.nBlockHeight)
      (h : ¬ s.Storable hash env winner) : Outcome hash s env winner (s.recordVote winner, false)
  | stored (hlast : s.lastVote winner.vinMasternode.prevout ≠ some winner.nBlockHeight)
      (h : s.Storable hash env winner) :
      Outcome hash s env winner ((s.recordVote winner).storeVote hash winner, true)

theorem outcome_processMNW (hash : WinnerHash) (s : CMasternodePayments) (env : PaymentsEnv)
    (winner : CMasternodePaymentWinner) :
    Outcome hash s env winner (s.processMNW hash env winner) := by
  simp only [processMNW]
  cases hreach : s.reachesCanVote hash env winner with
  | false => exact .stopped (by simp [hreach])
  | true =>
    simp only [Bool.not_true, Bool.false_eq_true, if_false, canVote]
    by_cases hlast : s.mapMasternodesLastVote (lastVoteKey winner.vinMasternode.prevout) =
        some winner.nBlockHeight
    · rw [if_pos hlast]
      exact .stopped (fun _ => hlast)
    · rw [if_neg hlast]
      cases hsig : env.signatureValid winner with
      | false => exact .refused hreach hlast (by simp [Storable, hsig])
      | true =>
        simp only [Bool.not_true, Bool.false_eq_true, if_false, addWinningMasternode]
        cases hblock : env.getBlockHash (winner.nBlockHeight - 100) with
        | none => exact .refused hreach hlast (by simp [Storable, hblock])
        | some blockHash =>
          have hnew := unseen_of_reachesCanVote hreach
          simp only [Std.TreeMap.contains_eq_isSome_getElem?, hnew, Option.isSome_none,
            Bool.false_eq_true, if_false]
          exact .stored hlast ⟨hreach, hsig, by simp [hblock]⟩

def voter (winner : CMasternodePaymentWinner) : COutPoint × Int :=
  (winner.vinMasternode.prevout, winner.nBlockHeight)

def votesFor (s : CMasternodePayments) (nBlockHeight : Int) (payee : CScript) : Int :=
  (s.mapMasternodeBlocks nBlockHeight).elim 0 fun payees =>
    CMasternodeBlockPayees.votesIn payee payees.vecPayments

theorem votesFor_storeVote (s : CMasternodePayments) (nBlockHeight : Int) (payee : CScript) :
    (s.storeVote hash winner).votesFor nBlockHeight payee = s.votesFor nBlockHeight payee +
      if winner.nBlockHeight = nBlockHeight ∧ winner.payee = payee then 1 else 0 := by
  simp only [votesFor, storeVote, Function.update_apply]
  by_cases hheight : nBlockHeight = winner.nBlockHeight
  · subst hheight
    simp only [if_true, Option.elim_some, CMasternodeBlockPayees.addPayee,
      CMasternodeBlockPayees.votesIn_addPayeeTo, true_and]
    cases s.mapMasternodeBlocks winner.nBlockHeight with
    | none => rfl
    | some payees => rfl
  · simp [hheight, Ne.symm hheight]

inductive Reachable (hash : WinnerHash)
    (Cond : CMasternodePayments → PaymentsEnv → CMasternodePaymentWinner → Prop) :
    List CMasternodePaymentWinner → CMasternodePayments → Prop where
  | start : Reachable hash Cond [] {}
  | mnw {added : List CMasternodePaymentWinner} {s : CMasternodePayments} (env : PaymentsEnv)
      (winner : CMasternodePaymentWinner) (hrun : Reachable hash Cond added s)
      (hcond : Cond s env winner) :
      Reachable hash Cond
        (if (s.processMNW hash env winner).2 then winner :: added else added)
        (s.processMNW hash env winner).1

structure Tallied (hash : WinnerHash) (added : List CMasternodePaymentWinner)
    (s : CMasternodePayments) : Prop where
  stored : ∀ k w, s.mapMasternodePayeeVotes[k]? = some w ↔ w ∈ added ∧ k = w.getHash hash
  tally : ∀ nBlockHeight payee, s.votesFor nBlockHeight payee =
    added.countP fun w => w.nBlockHeight = nBlockHeight ∧ w.payee = payee

theorem Tallied.storeVote (h : Tallied hash added s)
    (hnew : s.mapMasternodePayeeVotes[winner.getHash hash]? = none) :
    Tallied hash (winner :: added) (s.storeVote hash winner) := by
  refine ⟨?_, ?_⟩
  · intro k w
    simp only [CMasternodePayments.storeVote, Std.TreeMap.getElem?_insert, List.mem_cons]
    by_cases hk : winner.getHash hash = k
    · subst hk
      simp only [Std.compare_self, if_true, Option.some.injEq]
      constructor
      · rintro rfl
        exact ⟨.inl rfl, rfl⟩
      · rintro ⟨rfl | hmem, heq⟩
        · rfl
        · have hold := (h.stored _ w).mpr ⟨hmem, heq⟩
          rw [hnew] at hold
          simp at hold
    · rw [if_neg (by simpa using hk), h.stored]
      constructor
      · rintro ⟨hmem, rfl⟩
        exact ⟨.inr hmem, rfl⟩
      · rintro ⟨rfl | hmem, rfl⟩
        · exact absurd rfl hk
        · exact ⟨hmem, rfl⟩
  · intro nBlockHeight payee
    rw [votesFor_storeVote, h.tally, List.countP_cons]
    by_cases hvote : winner.nBlockHeight = nBlockHeight ∧ winner.payee = payee
    · simp [hvote]
    · simp [hvote]

theorem Tallied.processMNW (h : Tallied hash added s) (env : PaymentsEnv)
    (winner : CMasternodePaymentWinner) :
    Tallied hash (if (s.processMNW hash env winner).2 then winner :: added else added)
      (s.processMNW hash env winner).1 := by
  have hout := outcome_processMNW hash s env winner
  generalize s.processMNW hash env winner = result at hout
  cases hout with
  | stopped _ => exact h
  | refused _ _ _ => exact ⟨h.stored, h.tally⟩
  | stored hlast hstorable =>
    have hrecorded : Tallied hash added (s.recordVote winner) := ⟨h.stored, h.tally⟩
    exact hrecorded.storeVote (unseen_of_reachesCanVote hstorable.1)

theorem Reachable.tallied
    {Cond : CMasternodePayments → PaymentsEnv → CMasternodePaymentWinner → Prop}
    (h : Reachable hash Cond added s) : Tallied hash added s := by
  induction h with
  | start => exact ⟨by simp, by simp [votesFor]⟩
  | mnw env winner _ _ ih => exact ih.processMNW env winner

theorem Reachable.add
    {Cond : CMasternodePayments → PaymentsEnv → CMasternodePaymentWinner → Prop}
    (h : Reachable hash Cond added s) (hcond : Cond s env winner)
    (hadd : (s.processMNW hash env winner).2 = true) :
    Reachable hash Cond (winner :: added) (s.processMNW hash env winner).1 := by
  have hnext := h.mnw env winner hcond
  rwa [if_pos hadd] at hnext

-- A masternode that already has a vote for this height last voted for it, and for no other since.
def VotesInTurn (hash : WinnerHash) (s : CMasternodePayments) (env : PaymentsEnv)
    (winner : CMasternodePaymentWinner) : Prop :=
  s.Storable hash env winner →
    (∃ (k : UInt256) (w : CMasternodePaymentWinner), s.mapMasternodePayeeVotes[k]? = some w ∧
      voter w = voter winner) →
      s.lastVote winner.vinMasternode.prevout = some winner.nBlockHeight

theorem Tallied.nodup_processMNW_iff (h : Tallied hash added s) (hnodup : (added.map voter).Nodup)
    (env : PaymentsEnv) (winner : CMasternodePaymentWinner) :
    ((if (s.processMNW hash env winner).2 then winner :: added else added).map voter).Nodup ↔
      VotesInTurn hash s env winner := by
  have hmem : (∃ (k : UInt256) (w : CMasternodePaymentWinner),
      s.mapMasternodePayeeVotes[k]? = some w ∧ voter w = voter winner) ↔
        voter winner ∈ added.map voter := by
    rw [List.mem_map]
    constructor
    · rintro ⟨k, w, hw, heq⟩
      exact ⟨w, ((h.stored k w).mp hw).1, heq⟩
    · rintro ⟨w, hw, heq⟩
      exact ⟨w.getHash hash, w, (h.stored _ w).mpr ⟨hw, rfl⟩, heq⟩
  have hout := outcome_processMNW hash s env winner
  generalize s.processMNW hash env winner = result at hout
  cases hout with
  | stopped hlast =>
    refine iff_of_true hnodup ?_
    intro hstorable _
    exact hlast hstorable.1
  | refused hreach hlast hstorable =>
    refine iff_of_true hnodup ?_
    intro hstorable'
    exact absurd hstorable' hstorable
  | stored hlast hstorable =>
    rw [VotesInTurn, hmem, if_pos rfl, List.map_cons, List.nodup_cons]
    constructor
    · rintro ⟨hfresh, -⟩ _ hin
      exact absurd hin hfresh
    · intro hturn
      exact ⟨fun hin => hlast (hturn hstorable hin), hnodup⟩

theorem one_vote_per_height (hash : WinnerHash) (added : List CMasternodePaymentWinner)
    (s : CMasternodePayments) (h : Reachable hash (VotesInTurn hash) added s) :
    (added.map fun w => (w.vinMasternode.prevout, w.nBlockHeight)).Nodup ∧
      (∀ k w, s.mapMasternodePayeeVotes[k]? = some w ↔ w ∈ added ∧ k = w.getHash hash) ∧
      (∀ nBlockHeight payee, s.votesFor nBlockHeight payee =
        added.countP fun w => w.nBlockHeight = nBlockHeight ∧ w.payee = payee) ∧
      ∀ env winner,
        ((if (s.processMNW hash env winner).2 then winner :: added else added).map fun w =>
          (w.vinMasternode.prevout, w.nBlockHeight)).Nodup ↔ VotesInTurn hash s env winner := by
  have htallied := h.tallied
  have hnodup : (added.map voter).Nodup := by
    induction h with
    | start => exact List.nodup_nil
    | mnw env winner hrun hcond ih =>
      exact (hrun.tallied.nodup_processMNW_iff (ih hrun.tallied) env winner).mpr hcond
  exact ⟨hnodup, htallied.stored, htallied.tally, htallied.nodup_processMNW_iff hnodup⟩

def payingNode : CMasternode where
  vin := ⟨⟨7, 0⟩, [], 0xffffffff⟩
  pubKeyMasternode := [2]
  protocolVersion := 70000

def plainPayments : PaymentsEnv where
  fBlockchainSynced := true
  fLiteMode := false
  nPeerVersion := 70000
  activeProtocol := 70000
  nTipHeight := some 200
  nCountEnabled := 1
  vMasternodes := [payingNode]
  getMasternodeRank := fun _ _ _ => 1
  getBlockHash := fun nBlockHeight => some (BitVec.ofInt 256 nBlockHeight)
  verifyMessage := fun pubKey vchSig _ => pubKey == vchSig

def plainHash : WinnerHash := fun payee nBlockHeight out =>
  BitVec.ofInt 256 (1000 * payee.length + nBlockHeight) + lastVoteKey out

def payeeVote (nBlockHeight : Int) (payee : CScript) (vchSig : List UInt8) :
    CMasternodePaymentWinner where
  vinMasternode := payingNode.vin
  nBlockHeight := nBlockHeight
  payee := payee
  vchSig := vchSig

def process (winner : CMasternodePaymentWinner) (s : CMasternodePayments) : CMasternodePayments :=
  (s.processMNW plainHash plainPayments winner).1

def twoHeights : CMasternodePayments :=
  process (payeeVote 202 [0x51] [2]) (process (payeeVote 201 [0x51] [2]) {})

def threeVotes : CMasternodePayments := process (payeeVote 201 [0x52, 0x51] [2]) twoHeights

theorem reachable_oneHeight : Reachable plainHash (VotesInTurn plainHash)
    [payeeVote 201 [0x51] [2]] (process (payeeVote 201 [0x51] [2]) {}) := by
  refine Reachable.add .start ?_ (by decide +kernel)
  rintro - ⟨k, w, hw, -⟩
  simp at hw

theorem reachable_twoHeights : Reachable plainHash (VotesInTurn plainHash)
    [payeeVote 202 [0x51] [2], payeeVote 201 [0x51] [2]] twoHeights := by
  refine reachable_oneHeight.add ?_ (by decide +kernel)
  refine (reachable_oneHeight.tallied.nodup_processMNW_iff (by decide) _ _).mp ?_
  decide +kernel

theorem one_vote_per_height_two : twoHeights.votesFor 201 [0x51] = 1 := by
  have h := one_vote_per_height _ _ _ reachable_twoHeights
  rw [h.2.2.1]
  decide

theorem returning_masternode_votes_twice :
    Reachable plainHash (fun _ _ _ => True)
      [payeeVote 201 [0x52, 0x51] [2], payeeVote 202 [0x51] [2], payeeVote 201 [0x51] [2]]
      threeVotes ∧
      (payeeVote 201 [0x52, 0x51] [2]).vinMasternode.prevout =
        (payeeVote 201 [0x51] [2]).vinMasternode.prevout ∧
      threeVotes.mapMasternodePayeeVotes[(payeeVote 201 [0x51] [2]).getHash plainHash]? =
        some (payeeVote 201 [0x51] [2]) ∧
      threeVotes.mapMasternodePayeeVotes[(payeeVote 201 [0x52, 0x51] [2]).getHash plainHash]? =
        some (payeeVote 201 [0x52, 0x51] [2]) ∧
      threeVotes.votesFor 201 [0x51] = 1 ∧ threeVotes.votesFor 201 [0x52, 0x51] = 1 := by
  refine ⟨?_, rfl, by decide +kernel, by decide +kernel, by decide +kernel, by decide +kernel⟩
  refine Reachable.add (Reachable.add (Reachable.add .start trivial ?_) trivial ?_) trivial ?_
  · decide +kernel
  · decide +kernel
  · decide +kernel

def processAll (hash : WinnerHash) (s : CMasternodePayments) :
    List (PaymentsEnv × CMasternodePaymentWinner) → List Bool × CMasternodePayments
  | [] => ([], s)
  | (env, winner) :: log =>
    let result := s.processMNW hash env winner
    let rest := processAll hash result.1 log
    (result.2 :: rest.1, rest.2)

structure NoTrace (hash : WinnerHash) (s s' : CMasternodePayments) : Prop where
  votes : s'.mapMasternodePayeeVotes = s.mapMasternodePayeeVotes
  blocks : s'.mapMasternodeBlocks = s.mapMasternodeBlocks
  admits : ∀ outMasternode nBlockHeight,
    (s'.canVote outMasternode nBlockHeight).2 = (s.canVote outMasternode nBlockHeight).2
  later : ∀ log, (s'.processAll hash log).1 = (s.processAll hash log).1 ∧
    (s'.processAll hash log).2.mapMasternodePayeeVotes =
      (s.processAll hash log).2.mapMasternodePayeeVotes ∧
    (s'.processAll hash log).2.mapMasternodeBlocks = (s.processAll hash log).2.mapMasternodeBlocks

theorem forged_vote_noTrace_iff (hash : WinnerHash) (s : CMasternodePayments) (env : PaymentsEnv)
    (winner : CMasternodePaymentWinner) (hforged : env.signatureValid winner = false) :
    NoTrace hash s (s.processMNW hash env winner).1 ↔
      (s.reachesCanVote hash env winner = true →
        s.mapMasternodesLastVote (lastVoteKey winner.vinMasternode.prevout) =
          some winner.nBlockHeight) := by
  have hout := outcome_processMNW hash s env winner
  generalize s.processMNW hash env winner = result at hout
  cases hout with
  | stopped hlast => exact iff_of_true ⟨rfl, rfl, fun _ _ => rfl, fun _ => ⟨rfl, rfl, rfl⟩⟩ hlast
  | refused hreach hlast hstorable =>
    refine iff_of_false ?_ (fun h => hlast (h hreach))
    intro hsame
    have hadmit := hsame.admits winner.vinMasternode.prevout winner.nBlockHeight
    simp only [canVote, recordVote, Function.update_self, if_true] at hadmit
    change s.mapMasternodesLastVote (lastVoteKey winner.vinMasternode.prevout) ≠ _ at hlast
    rw [if_neg hlast] at hadmit
    exact absurd hadmit (by simp)
  | stored hlast hstorable =>
    have hsig := hstorable.2.1
    rw [hforged] at hsig
    exact absurd hsig (by simp)

theorem forged_vote_noTrace_voted :
    NoTrace plainHash twoHeights (process (payeeVote 202 [0x52, 0x51] [3]) twoHeights) := by
  refine (forged_vote_noTrace_iff plainHash twoHeights plainPayments
    (payeeVote 202 [0x52, 0x51] [3]) (by decide)).mpr ?_
  decide +kernel

theorem forged_vote_shuts_out :
    plainPayments.signatureValid (payeeVote 201 [0x51] [3]) = false ∧
      ¬ NoTrace plainHash {} (process (payeeVote 201 [0x51] [3]) {}) ∧
      (processMNW {} plainHash plainPayments (payeeVote 201 [0x51] [2])).2 = true ∧
      ((process (payeeVote 201 [0x51] [3]) {}).processMNW plainHash plainPayments
        (payeeVote 201 [0x51] [2])).2 = false := by
  refine ⟨by decide, ?_, by decide +kernel, by decide +kernel⟩
  intro hsame
  exact absurd (hsame.admits payingNode.vin.prevout 201) (by decide +kernel)

end CMasternodePayments

open Ranking Sorting

-- The payments code runs on the masternode list, the chain and the ranks of one node.
structure PaymentsEnv.OnNode (env : PaymentsEnv) (m : MasternodeMan) (scoreHashes : ScoreHashes) :
    Prop where
  nTipHeight : env.nTipHeight = if m.hashes.chainActive.isEmpty then none else some m.hashes.height
  vMasternodes : env.vMasternodes = m.vMasternodes.map MasternodeEntry.toCMasternode
  getBlockHash : ∀ nBlockHeight, env.getBlockHash nBlockHeight = m.blockHash nBlockHeight
  getMasternodeRank : ∀ vin nBlockHeight minProtocol, ∃ order,
    SortsTo (higher Prod.fst) (m.rankScores scoreHashes nBlockHeight minProtocol true) order ∧
      env.getMasternodeRank vin nBlockHeight minProtocol =
        m.getMasternodeRank nBlockHeight order vin

variable {env : PaymentsEnv} {m : MasternodeMan} {scoreHashes : ScoreHashes} {hash : WinnerHash}
  {s : CMasternodePayments} {winner : CMasternodePaymentWinner}

namespace PaymentsEnv.OnNode

theorem rank_pos_iff (h : env.OnNode m scoreHashes) (vin : CTxIn)
    (nBlockHeight minProtocol : Int) :
    1 ≤ env.getMasternodeRank vin nBlockHeight minProtocol ↔
      ∃ mn ∈ m.vMasternodes, mn.vin.prevout = vin.prevout ∧
        m.Ranks nBlockHeight minProtocol true mn := by
  obtain ⟨order, horder, hrank⟩ := h.getMasternodeRank vin nBlockHeight minProtocol
  rw [hrank, MasternodeMan.getMasternodeRank_eq vin horder]
  have hmem : vin.prevout ∈ order.map MasternodeScore.prevout ↔
      ∃ mn ∈ m.vMasternodes, mn.vin.prevout = vin.prevout ∧
        m.Ranks nBlockHeight minProtocol true mn := by
    rw [(horder.perm.map _).mem_iff, List.mem_map]
    constructor
    · rintro ⟨t, ht, hkey⟩
      obtain ⟨mn, hmn, hranks, rfl⟩ := MasternodeMan.mem_rankScores.mp ht
      exact ⟨mn, hmn, hkey, hranks⟩
    · rintro ⟨mn, hmn, hkey, hranks⟩
      exact ⟨_, MasternodeMan.mem_rankScores.mpr ⟨mn, hmn, hranks, rfl⟩, hkey⟩
  rw [← hmem]
  cases hplace : place MasternodeScore.prevout order vin.prevout with
  | none =>
    have hnot := place_eq_none.mp hplace
    simp [rankNumber, hnot]
  | some i =>
    have hin : vin.prevout ∈ order.map MasternodeScore.prevout := by
      by_contra hnot
      rw [place_eq_none.mpr hnot] at hplace
      simp at hplace
    simp only [rankNumber, hin, iff_true]
    omega

end PaymentsEnv.OnNode

theorem rank_le_of_isValid (h : env.isValid winner = true) :
    env.getMasternodeRank winner.vinMasternode (winner.nBlockHeight - 100) env.activeProtocol ≤
      MNPAYMENTS_SIGNATURES_TOTAL := by
  rw [PaymentsEnv.isValid] at h
  split at h
  · simp at h
  · simp only [Bool.and_eq_true, Bool.not_eq_true', decide_eq_false_iff_not, not_lt] at h
    exact h.2

theorem storable_of_added (h : (s.processMNW hash env winner).2 = true) :
    s.Storable hash env winner := by
  have hout := CMasternodePayments.outcome_processMNW hash s env winner
  generalize s.processMNW hash env winner = result at h hout
  cases hout with
  | stopped _ => simp at h
  | refused _ _ _ => simp at h
  | stored _ hstorable => exact hstorable

theorem payee_voter_top_rank_iff (env : PaymentsEnv) (m : MasternodeMan)
    (scoreHashes : ScoreHashes) (hnode : env.OnNode m scoreHashes) (hash : WinnerHash)
    (s : CMasternodePayments) (winner : CMasternodePaymentWinner)
    (hadded : (s.processMNW hash env winner).2 = true) :
    (1 ≤ env.getMasternodeRank winner.vinMasternode (winner.nBlockHeight - 100)
          env.activeProtocol ∧
        env.getMasternodeRank winner.vinMasternode (winner.nBlockHeight - 100)
          env.activeProtocol ≤ MNPAYMENTS_SIGNATURES_TOTAL) ↔
      ∃ mn ∈ m.vMasternodes, mn.vin.prevout = winner.vinMasternode.prevout ∧
        m.isRanked env.activeProtocol true mn = true := by
  obtain ⟨hreach, -, hblock⟩ := storable_of_added hadded
  simp only [CMasternodePayments.reachesCanVote, Bool.and_eq_true] at hreach
  rw [hnode.getBlockHash] at hblock
  have htop := rank_le_of_isValid hreach.2
  have hpos := hnode.rank_pos_iff winner.vinMasternode (winner.nBlockHeight - 100)
    env.activeProtocol
  simp only [MasternodeMan.Ranks, hblock, true_and] at hpos
  rw [and_iff_left htop]
  exact hpos

def longChain : HashCache where
  chainActive := (List.range 91).reverse.map (BitVec.ofNat 256)

def voterMan (fPaymentEnforcement : Bool) : MasternodeMan where
  hashes := longChain
  checkEnv := { nTime := 0, nAdjustedTime := 0 }
  fPaymentEnforcement := fPaymentEnforcement
  vMasternodes := [MasternodeMan.plainEntry 1]
  outpoints_nodup := by decide

def voterEnv (fPaymentEnforcement : Bool) : PaymentsEnv where
  fBlockchainSynced := true
  fLiteMode := false
  nPeerVersion := 0
  activeProtocol := 0
  nTipHeight := some 90
  nCountEnabled := 1
  vMasternodes := [(MasternodeMan.plainEntry 1).toCMasternode]
  getMasternodeRank vin nBlockHeight minProtocol :=
    (voterMan fPaymentEnforcement).getMasternodeRank nBlockHeight
      ((voterMan fPaymentEnforcement).rankScores (MasternodeMan.plainHashes 0) nBlockHeight
        minProtocol true) vin
  getBlockHash := (voterMan fPaymentEnforcement).blockHash
  verifyMessage _ _ _ := true

theorem onNode_voterEnv (fPaymentEnforcement : Bool) :
    (voterEnv fPaymentEnforcement).OnNode (voterMan fPaymentEnforcement)
      (MasternodeMan.plainHashes 0) := by
  have htip : some 90 = if longChain.chainActive.isEmpty then none else some longChain.height := by
    decide +kernel
  refine ⟨htip, rfl, fun _ => rfl, ?_⟩
  intro vin nBlockHeight minProtocol
  refine ⟨_, sortsTo_self ?_, rfl⟩
  intro a ha b hb
  obtain ⟨mn, hmn, -, rfl⟩ := MasternodeMan.mem_rankScores.mp ha
  obtain ⟨mn', hmn', -, rfl⟩ := MasternodeMan.mem_rankScores.mp hb
  simp only [voterMan, List.mem_singleton] at hmn hmn'
  subst hmn hmn'
  simp [higher]

def voterWinner : CMasternodePaymentWinner where
  vinMasternode := (MasternodeMan.plainEntry 1).vin
  nBlockHeight := 102
  payee := [0x51]

theorem payee_voter_top_rank_mature :
    1 ≤ (voterEnv false).getMasternodeRank voterWinner.vinMasternode 2 0 := by
  refine ((payee_voter_top_rank_iff (voterEnv false) (voterMan false) (MasternodeMan.plainHashes 0)
    (onNode_voterEnv false) (fun _ _ _ => 1) {} voterWinner ?_).mpr
      ⟨MasternodeMan.plainEntry 1, by decide, rfl, ?_⟩).1
  · decide +kernel
  · decide +kernel

-- With payments enforced the voter is too young to have a rank.
theorem payee_voter_unranked :
    (voterEnv true).OnNode (voterMan true) (MasternodeMan.plainHashes 0) ∧
      (CMasternodePayments.processMNW {} (fun _ _ _ => 1) (voterEnv true) voterWinner).2 = true ∧
      (voterEnv true).getMasternodeRank voterWinner.vinMasternode (voterWinner.nBlockHeight - 100)
        (voterEnv true).activeProtocol = -1 :=
  ⟨onNode_voterEnv true, by decide +kernel, by decide +kernel⟩

end AnkerNode
