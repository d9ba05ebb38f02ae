import AnkerNode.Budget.CleanUp

namespace AnkerNode

namespace VoteDesk

variable {I V : Type} {d : VoteDesk I V} {ballot : Ballot I V} {env : DeskEnv I V} {vote : V}

def seeVote (d : VoteDesk I V) (ballot : Ballot I V) (vote : V) : VoteDesk I V :=
  { d with mapSeenVotes := Function.update d.mapSeenVotes (ballot.getHash vote) (some vote) }

-- the vote is taken down before its signature is looked at
def records (d : VoteDesk I V) (ballot : Ballot I V) (env : DeskEnv I V) (vote : V) : Bool :=
  env.fActive && (d.mapSeenVotes (ballot.getHash vote)).isNone && env.isKnown vote

theorem processVote_of_not_records (vote : V)
    (h : d.records ballot env (ballot.setValid true vote) = false) :
    d.processVote ballot env vote = d := by
  simp only [records, Bool.and_eq_false_iff, Option.isNone_eq_false_iff] at h
  rw [processVote]
  rcases h with (h | h) | h
  · simp [h]
  · simp only [h, if_true]
    split_ifs <;> rfl
  · simp only [h, Bool.not_false, if_true]
    split_ifs <;> rfl

theorem processVote_of_records (h : d.records ballot env (ballot.setValid true vote) = true) :
    d.processVote ballot env vote =
      if !env.signatureValid (ballot.setValid true vote) true then
        d.seeVote ballot (ballot.setValid true vote)
      else
        ((d.seeVote ballot (ballot.setValid true vote)).update ballot env true
          (ballot.setValid true vote)).1 := by
  simp only [records, Bool.and_eq_true, Option.isNone_iff_eq_none] at h
  obtain ⟨⟨hactive, hunseen⟩, hknown⟩ := h
  simp only [processVote, hactive, hunseen, hknown, Bool.not_true, Bool.false_eq_true, if_false,
    Option.isSome_none]
  rfl

theorem processVote_forged (h : d.records ballot env (ballot.setValid true vote) = true)
    (hforged : env.signatureValid (ballot.setValid true vote) true = false) :
    d.processVote ballot env vote = d.seeVote ballot (ballot.setValid true vote) := by
  rw [processVote_of_records h, hforged]
  rfl

-- a vote for an item the desk does not have is kept aside while the node is synced
theorem update_orphan {k : UInt256} (hitem : d.mapItems[ballot.target vote]? = none)
    (hsynced : env.fSynced = true) (hk : k = ballot.target vote) :
    (d.update ballot env true vote).1.mapOrphanVotes[k]? = some vote := by
  subst hk
  simp [update, hitem, hsynced]

theorem foldl_keepValid_of_invalid (hinvalid : ∀ i, env.isValid i = false)
    (its : List (UInt256 × I)) (m : Std.TreeMap UInt256 I) :
    its.foldl (keepValid ballot env) m = m := by
  induction its generalizing m with
  | nil => rfl
  | cons it its ih =>
    rw [List.foldl_cons, ih, keepValid, hinvalid]
    rfl

theorem foldl_retry_of_immature (himmature : ∀ i, env.fMature i = false) (items : List I)
    (d : VoteDesk I V) :
    items.foldl (retry ballot env) d = { d with vecImmature := d.vecImmature ++ items } := by
  induction items generalizing d with
  | nil => simp
  | cons i items ih =>
    rw [List.foldl_cons, ih, retry, himmature]
    simp

-- When nothing is valid or mature a clean-up leaves no item, and the votes as they were.
theorem cleanUp_of_invalid (ballot : Ballot I V) (d : VoteDesk I V)
    (hinvalid : ∀ i, env.isValid i = false) (himmature : ∀ i, env.fMature i = false) :
    (∀ k : UInt256, (d.cleanUp ballot env).mapItems[k]? = none) ∧
      (d.cleanUp ballot env).mapSeenVotes = d.mapSeenVotes ∧
      (d.cleanUp ballot env).mapOrphanVotes = d.mapOrphanVotes := by
  have hclean : d.cleanUp ballot env =
      { d with
        mapItems := (∅ : Std.TreeMap UInt256 I).map fun _ i => markVotes ballot env false i
        vecImmature := [] ++ d.vecImmature } := by
    rw [cleanUp, acceptImmature, foldl_retry_of_immature himmature, cleanAndRemove, checkAndRemove,
      foldl_keepValid_of_invalid hinvalid]
  rw [hclean]
  refine ⟨fun k => ?_, rfl, rfl⟩
  simp

-- After such a clean-up a vote with the same hash is dropped where the first one was recorded,
-- and kept aside where it was not.
theorem not_alike_of_recorded (env₁ env₂ : DeskEnv I V) {forged : V} (genuine : V)
    (hunseen : d.mapSeenVotes (ballot.getHash forged) = none)
    (hhash : ballot.getHash genuine = ballot.getHash forged)
    (hinvalid : ∀ i, env₁.isValid i = false) (himmature : ∀ i, env₁.fMature i = false)
    (hactive : env₂.fActive = true) (hsynced : env₂.fSynced = true)
    (hknown : env₂.isKnown (ballot.setValid true genuine) = true)
    (hsigned : env₂.signatureValid (ballot.setValid true genuine) true = true)
    (hnew : d.mapOrphanVotes[ballot.target genuine]? ≠ some (ballot.setValid true genuine)) :
    (((d.seeVote ballot forged).cleanUp ballot env₁).processVote ballot env₂
        genuine).mapOrphanVotes[ballot.target genuine]? ≠
      ((d.cleanUp ballot env₁).processVote ballot env₂
        genuine).mapOrphanVotes[ballot.target genuine]? := by
  intro halike
  obtain ⟨hitems, hseen, horphans⟩ := cleanUp_of_invalid ballot d hinvalid himmature
  obtain ⟨-, hseen', horphans'⟩ :=
    cleanUp_of_invalid ballot (d.seeVote ballot forged) hinvalid himmature
  have hdropped : ((d.seeVote ballot forged).cleanUp ballot env₁).processVote ballot env₂ genuine =
      (d.seeVote ballot forged).cleanUp ballot env₁ := by
    apply processVote_of_not_records genuine
    rw [records, hseen', ballot.getHash_setValid, hhash]
    simp [seeVote]
  have hrecorded : (d.cleanUp ballot env₁).records ballot env₂ (ballot.setValid true genuine) =
      true := by
    rw [records, hseen, ballot.getHash_setValid, hhash, hunseen, hactive, hknown]
    rfl
  have hkept : ((d.cleanUp ballot env₁).processVote ballot env₂ genuine).mapOrphanVotes[
      ballot.target genuine]? = some (ballot.setValid true genuine) := by
    rw [processVote_of_records hrecorded, hsigned]
    exact update_orphan (hitems _) hsynced (ballot.target_setValid true genuine).symm
  rw [hdropped, horphans'] at halike
  exact hnew (halike.trans hkept)

end VoteDesk

namespace BudgetMessage

inductive IsVote : BudgetMessage → Prop where
  | mvote (vote : CBudgetVote) : IsVote (.mvote vote)
  | fbvote (vote : CFinalizedBudgetVote) : IsVote (.fbvote vote)

-- the voter, the target, the choice and the time
def SameIdentity : BudgetMessage → BudgetMessage → Prop
  | mvote a, mvote b => a.vin = b.vin ∧ a.nProposalHash = b.nProposalHash ∧ a.nVote = b.nVote ∧
      a.nTime = b.nTime
  | fbvote a, fbvote b => a.vin = b.vin ∧ a.nBudgetHash = b.nBudgetHash ∧ a.nTime = b.nTime
  | _, _ => False

def Verifies (env : BudgetEnv) : BudgetMessage → Prop
  | mvote vote => vote.signatureValid env true = true
  | fbvote vote => vote.signatureValid env true = true
  | _ => True

end BudgetMessage

namespace CBudgetManager

variable {hashes : BudgetHashes} {env : BudgetEnv} {budget : CBudgetManager}

def records (hashes : BudgetHashes) (budget : CBudgetManager) (env : BudgetEnv) :
    BudgetMessage → Bool
  | .mvote vote => budget.proposals.records hashes.proposalBallot (env.proposalDesk hashes)
      { vote with fValid := true }
  | .fbvote vote => budget.finalized.records hashes.finalizedBallot (env.finalizedDesk hashes)
      { vote with fValid := true }
  | _ => false

structure Alike (budget budget' : CBudgetManager) : Prop where
  proposals : ∀ k : UInt256, budget'.proposals.mapItems[k]? = budget.proposals.mapItems[k]?
  proposalOrphans : ∀ k : UInt256,
    budget'.proposals.mapOrphanVotes[k]? = budget.proposals.mapOrphanVotes[k]?
  finalized : ∀ k : UInt256, budget'.finalized.mapItems[k]? = budget.finalized.mapItems[k]?
  finalizedOrphans : ∀ k : UInt256,
    budget'.finalized.mapOrphanVotes[k]? = budget.finalized.mapOrphanVotes[k]?

-- After any steps, a genuine vote of the same identity does what it does without the first one.
def NoTrace (hashes : BudgetHashes) (budget : CBudgetManager) (env : BudgetEnv)
    (forged : BudgetMessage) : Prop :=
  ∀ (log : List (BudgetEnv × BudgetStep)) (env' : BudgetEnv) (genuine : BudgetMessage),
    forged.SameIdentity genuine → genuine.Verifies env' →
    Alike ((budget.run hashes log).processMessage hashes env' genuine)
      (((budget.processMessage hashes env forged).run hashes log).processMessage hashes env'
        genuine)

-- At a clean-up the collateral of no item is to be found.
def barrenEnv : BudgetEnv where
  nTipHeight := some 14
  isBudgetCollateralValid _ _ _ := { fValid := false }
  fSynced := false

theorem isValid_barrenEnv_proposal (p : CBudgetProposal) :
    (barrenEnv.proposalDesk hashes).isValid p = false := by
  rw [Bool.eq_false_iff]
  intro h
  obtain ⟨u, hu⟩ := Checks.exists_ok_of_isOk h
  simp only [CBudgetProposal.isValid, Checks.bind_eq_ok, Checks.failIf_eq_ok,
    Checks.onlyIf_eq_ok] at hu
  obtain ⟨-, -, -, -, -, -, -, -, -, -, -, hcollateral, -⟩ := hu
  simp [barrenEnv] at hcollateral

theorem isValid_barrenEnv_finalized (b : CFinalizedBudget) :
    (barrenEnv.finalizedDesk hashes).isValid b = false := by
  rw [Bool.eq_false_iff]
  intro h
  obtain ⟨u, hu⟩ := Checks.exists_ok_of_isOk h
  simp only [CFinalizedBudget.isValid, CFinalizedBudget.checkCollateral, Checks.bind_eq_ok,
    Checks.failIf_eq_ok, Checks.onlyIf_eq_ok] at hu
  obtain ⟨-, -, -, -, -, -, -, -, -, -, -, -, -, -, -, hcollateral, -⟩ := hu
  simp [barrenEnv] at hcollateral

theorem run_barrenEnv (hashes : BudgetHashes) (budget : CBudgetManager) :
    budget.run hashes [(barrenEnv, .newBlock 0)] =
      { proposals := budget.proposals.cleanUp hashes.proposalBallot (barrenEnv.proposalDesk hashes)
        finalized :=
          budget.finalized.cleanUp hashes.finalizedBallot (barrenEnv.finalizedDesk hashes) } := by
  have hclean : cleansUp barrenEnv = true := by decide
  simp only [run, List.foldl_cons, List.foldl_nil, step, newBlock, hclean, Bool.not_true,
    Bool.false_eq_true, if_false]
  rfl

-- a synced node that finds every signature right
def trustingEnv (env : BudgetEnv) : BudgetEnv :=
  { env with fSynced := true, verifyMessage := fun _ _ _ => true }

theorem signatureValid_trustingEnv (env : BudgetEnv) (vin : CTxIn) (vchSig : List UInt8)
    (strMessage : String) (f : Bool) :
    (trustingEnv env).signatureValid vin vchSig strMessage f = (env.find vin).isSome := by
  have hfind : (trustingEnv env).find vin = env.find vin := rfl
  rw [BudgetEnv.signatureValid, hfind]
  cases env.find vin with
  | none => rfl
  | some mn =>
    cases f
    · rfl
    · rfl

theorem exists_other_sig (sig : Option (List UInt8)) : ∃ vchSig, sig ≠ some vchSig := by
  cases sig with
  | none => exact ⟨[], by simp⟩
  | some vchSig => exact ⟨0 :: vchSig, by simp⟩

theorem not_noTrace_mvote {vote : CBudgetVote}
    (hrecords : budget.records hashes env (.mvote vote) = true)
    (hforged : ¬(BudgetMessage.mvote vote).Verifies env) :
    ¬NoTrace hashes budget env (.mvote vote) := by
  intro h
  have hrecords' := hrecords
  simp only [records, VoteDesk.records, Bool.and_eq_true, Option.isNone_iff_eq_none] at hrecords'
  obtain ⟨⟨hactive, hunseen⟩, hknown⟩ := hrecords'
  obtain ⟨vchSig, hother⟩ := exists_other_sig
    ((budget.proposals.mapOrphanVotes[vote.nProposalHash]?).map CBudgetVote.vchSig)
  let genuine : CBudgetVote := { vote with vchSig := vchSig }
  have hverifies : (BudgetMessage.mvote genuine).Verifies (trustingEnv env) :=
    (signatureValid_trustingEnv env _ _ _ true).trans hknown
  have halike := (h [(barrenEnv, .newBlock 0)] (trustingEnv env) (.mvote genuine)
    ⟨rfl, rfl, rfl, rfl⟩ hverifies).proposalOrphans vote.nProposalHash
  have hseen : (budget.processMessage hashes env (.mvote vote)).proposals =
      budget.proposals.seeVote hashes.proposalBallot { vote with fValid := true } :=
    VoteDesk.processVote_forged hrecords (Bool.eq_false_iff.mpr hforged)
  rw [run_barrenEnv, run_barrenEnv, hseen] at halike
  refine VoteDesk.not_alike_of_recorded (barrenEnv.proposalDesk hashes)
    ((trustingEnv env).proposalDesk hashes) genuine hunseen rfl isValid_barrenEnv_proposal
    (fun _ => rfl) hactive rfl hknown hverifies ?_ halike
  intro hold
  exact hother (congrArg (Option.map CBudgetVote.vchSig) hold)

theorem not_noTrace_fbvote {vote : CFinalizedBudgetVote}
    (hrecords : budget.records hashes env (.fbvote vote) = true)
    (hforged : ¬(BudgetMessage.fbvote vote).Verifies env) :
    ¬NoTrace hashes budget env (.fbvote vote) := by
  intro h
  have hrecords' := hrecords
  simp only [records, VoteDesk.records, Bool.and_eq_true, Option.isNone_iff_eq_none] at hrecords'
  obtain ⟨⟨hactive, hunseen⟩, hknown⟩ := hrecords'
  obtain ⟨vchSig, hother⟩ := exists_other_sig
    ((budget.finalized.mapOrphanVotes[vote.nBudgetHash]?).map CFinalizedBudgetVote.vchSig)
  let genuine : CFinalizedBudgetVote := { vote with vchSig := vchSig }
  have hverifies : (BudgetMessage.fbvote genuine).Verifies (trustingEnv env) :=
    (signatureValid_trustingEnv env _ _ _ true).trans hknown
  have halike := (h [(barrenEnv, .newBlock 0)] (trustingEnv env) (.fbvote genuine)
    ⟨rfl, rfl, rfl⟩ hverifies).finalizedOrphans vote.nBudgetHash
  have hseen : (budget.processMessage hashes env (.fbvote vote)).finalized =
      budget.finalized.seeVote hashes.finalizedBallot { vote with fValid := true } :=
    VoteDesk.processVote_forged hrecords (Bool.eq_false_iff.mpr hforged)
  rw [run_barrenEnv, run_barrenEnv, hseen] at halike
  refine VoteDesk.not_alike_of_recorded (barrenEnv.finalizedDesk hashes)
    ((trustingEnv env).finalizedDesk hashes) genuine hunseen rfl isValid_barrenEnv_finalized
    (fun _ => rfl) hactive rfl hknown hverifies ?_ halike
  intro hold
  exact hother (congrArg (Option.map CFinalizedBudgetVote.vchSig) hold)

theorem processMessage_of_not_records {msg : BudgetMessage} (hvote : msg.IsVote)
    (h : budget.records hashes env msg = false) : budget.processMessage hashes env msg = budget := by
  cases hvote with
  | mvote vote =>
    exact congrArg (fun d => { budget with proposals := d })
      (VoteDesk.processVote_of_not_records vote h)
  | fbvote vote =>
    exact congrArg (fun d => { budget with finalized := d })
      (VoteDesk.processVote_of_not_records vote h)

theorem forged_budget_vote_noTrace_iff (msg : BudgetMessage) (hvote : msg.IsVote)
    (hforged : ¬msg.Verifies env) :
    NoTrace hashes budget env msg ↔ budget.records hashes env msg = false := by
  constructor
  · intro h
    rw [Bool.eq_false_iff]
    intro hrecords
    cases hvote with
    | mvote vote => exact not_noTrace_mvote hrecords hforged h
    | fbvote vote => exact not_noTrace_fbvote hrecords hforged h
  · intro h log env' genuine _ _
    rw [processMessage_of_not_records hvote h]
    exact ⟨fun _ => rfl, fun _ => rfl, fun _ => rfl, fun _ => rfl⟩

end CBudgetManager

end AnkerNode
