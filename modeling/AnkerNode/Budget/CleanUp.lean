import AnkerNode.Budget.Manager
import AnkerNode.Lib.TreeMaps
import Mathlib.Data.List.Infix
import Mathlib.Data.List.Induction

namespace AnkerNode

namespace VoteDesk

open TreeRebuild

variable {I V : Type} {d : VoteDesk I V} {ballot : Ballot I V} {env : DeskEnv I V}

theorem getElem?_keepValid_cases {m : Std.TreeMap UInt256 I} {k : UInt256} {i : I}
    {it : UInt256 × I} (h : (keepValid ballot env m it)[k]? = some i) :
    m[k]? = some i ∨ (ballot.getItemHash it.2 = k ∧ it.2 = i ∧ env.isValid i = true) := by
  rw [keepValid] at h
  split at h
  · rename_i hvalid
    rw [Std.TreeMap.getElem?_insertIfNew] at h
    split at h
    · rename_i hcond
      obtain rfl := Option.some.inj h
      exact .inr ⟨Std.LawfulEqCmp.eq_of_compare hcond.1, rfl, hvalid⟩
    · exact .inl h
  · exact .inl h

theorem getElem?_foldl_keepValid_cases {its : List (UInt256 × I)} {m : Std.TreeMap UInt256 I}
    {k : UInt256} {i : I} (h : (its.foldl (keepValid ballot env) m)[k]? = some i) :
    m[k]? = some i ∨ ∃ it ∈ its, ballot.getItemHash it.2 = k ∧ it.2 = i ∧ env.isValid i = true := by
  induction its generalizing m with
  | nil => exact .inl h
  | cons it its ih =>
    rcases ih h with h | ⟨it', hit', hfound⟩
    · rcases getElem?_keepValid_cases h with h | hfound
      · exact .inl h
      · exact .inr ⟨it, by simp, hfound⟩
    · exact .inr ⟨it', by simp [hit'], hfound⟩

def keepIfValid (env : DeskEnv I V) (_ : Unit) (it : UInt256 × I) : Unit × Option I :=
  ((), if env.isValid it.2 then some it.2 else none)

-- The valid items fill a map of their own.
theorem foldl_keepValid (its : List (UInt256 × I)) (m : Std.TreeMap UInt256 I) :
    its.foldl (keepValid ballot env) m =
      (its.foldl (rebuildStep ballot.getItemHash (keepIfValid env)) ((), m)).2 := by
  induction its generalizing m with
  | nil => rfl
  | cons it its ih =>
    rw [List.foldl_cons, List.foldl_cons, ih, keepValid, rebuildStep, keepIfValid]
    cases env.isValid it.2 with
    | true => rfl
    | false => rfl

theorem checkAndRemove_item (hkept : Kept ballot d) (k : UInt256) (i : I) :
    (d.checkAndRemove ballot env).mapItems[k]? = some i ↔
      d.mapItems[k]? = some i ∧ env.isValid i = true := by
  have hplace : ∀ it ∈ d.mapItems.toList, ∀ (u : Unit) v,
      (keepIfValid env u it).2 = some v → ballot.getItemHash v = it.1 := by
    intro it hmem u v hv
    rw [keepIfValid] at hv
    split at hv
    · cases hv
      exact hkept.items it.1 it.2 (Std.TreeMap.mem_toList_iff_getElem?_eq_some.mp hmem)
    · cases hv
  have hrebuild : (d.checkAndRemove ballot env).mapItems =
      (rebuild ballot.getItemHash (keepIfValid env) () d.mapItems).2 := foldl_keepValid _ _
  rw [hrebuild]
  cases hk : d.mapItems[k]? with
  | none =>
    rw [getElem?_rebuild_of_none hplace hk]
    simp
  | some item =>
    obtain ⟨s, hs⟩ := getElem?_rebuild_of_some () hplace hk
    rw [hs, keepIfValid]
    simp only [Option.ite_none_right_eq_some, Option.some.injEq]
    exact ⟨fun ⟨hvalid, heq⟩ => ⟨heq, heq ▸ hvalid⟩, fun ⟨heq, hvalid⟩ => ⟨heq ▸ hvalid, heq⟩⟩

theorem kept_checkAndRemove (hkept : Kept ballot d) : Kept ballot (d.checkAndRemove ballot env) := by
  refine ⟨?_, hkept.orphans, hkept.valid, hkept.immature⟩
  intro k i hi
  exact hkept.items k i ((checkAndRemove_item hkept k i).mp hi).1

theorem cleanAndRemove_item (f : Bool) (k : UInt256) :
    (d.cleanAndRemove ballot env f).mapItems[k]? =
      d.mapItems[k]?.map (markVotes ballot env f) := by
  simp only [cleanAndRemove]
  exact Std.TreeMap.getElem?_map ..

theorem kept_cleanAndRemove (hkept : Kept ballot d) (f : Bool) :
    Kept ballot (d.cleanAndRemove ballot env f) := by
  refine ⟨?_, hkept.orphans, hkept.valid, hkept.immature⟩
  intro k i hi
  rw [cleanAndRemove_item, Option.map_eq_some_iff] at hi
  obtain ⟨i', hi', rfl⟩ := hi
  rw [markVotes, ballot.getItemHash_setVotes]
  exact hkept.items k i' hi'

theorem markVotes_vote (f : Bool) (i : I) (h : UInt256) :
    (ballot.mapVotes (markVotes ballot env f i))[h]? =
      (ballot.mapVotes i)[h]?.map fun vote => ballot.setValid (env.signatureValid vote f) vote := by
  rw [markVotes, ballot.mapVotes_setVotes]
  exact Std.TreeMap.getElem?_map ..

theorem effects_foldl_retry {items : List I} (hitems : ∀ i ∈ items, ballot.mapVotes i = ∅)
    (himmature : ∀ i ∈ d.vecImmature, ballot.mapVotes i = ∅) :
    Effects ballot d (items.foldl (retry ballot env) d) := by
  induction items generalizing d with
  | nil => exact .refl
  | cons i items ih =>
    rw [List.forall_mem_cons] at hitems
    rw [List.foldl_cons, retry]
    split
    · refine .trans (effects_addItem hitems.1) (ih hitems.2 ?_)
      rwa [vecImmature_addItem]
    · have happend : ∀ i' ∈ d.vecImmature ++ [i], ballot.mapVotes i' = ∅ := by
        rw [List.forall_mem_append, List.forall_mem_singleton]
        exact ⟨himmature, hitems.1⟩
      exact .trans (.single (.defer _ happend)) (ih hitems.2 happend)

theorem effects_acceptImmature (hkept : Kept ballot d) :
    Effects ballot d (d.acceptImmature ballot env) :=
  .trans (.single (.defer [] (by simp))) (effects_foldl_retry hkept.immature (by simp))

theorem foldl_retry_item {items : List I} {k : UInt256} {i : I} (h : d.mapItems[k]? = some i) :
    (items.foldl (retry ballot env) d).mapItems[k]? = some i := by
  induction items generalizing d with
  | nil => exact h
  | cons i' items ih =>
    rw [List.foldl_cons, retry]
    split
    · exact ih (addItem_item h)
    · exact ih h

theorem foldl_retry_cases {items : List I} (hitems : ∀ i ∈ items, ballot.mapVotes i = ∅)
    {k : UInt256} {i : I} (h : (items.foldl (retry ballot env) d).mapItems[k]? = some i) :
    d.mapItems[k]? = some i ∨ ballot.mapVotes i = ∅ := by
  induction items generalizing d with
  | nil => exact .inl h
  | cons i' items ih =>
    rw [List.forall_mem_cons] at hitems
    rw [List.foldl_cons, retry] at h
    split at h
    · rcases ih hitems.2 h with h | h
      · exact addItem_cases hitems.1 h
      · exact .inr h
    · exact ih (d := { d with vecImmature := d.vecImmature ++ [i'] }) hitems.2 h

def cleanUp (ballot : Ballot I V) (env : DeskEnv I V) (d : VoteDesk I V) : VoteDesk I V :=
  ((d.checkAndRemove ballot env).cleanAndRemove ballot env false).acceptImmature ballot env

theorem kept_cleanUp (hkept : Kept ballot d) : Kept ballot (d.cleanUp ballot env) := by
  have hclean : Kept ballot ((d.checkAndRemove ballot env).cleanAndRemove ballot env false) :=
    kept_cleanAndRemove (kept_checkAndRemove hkept) false
  exact (effects_acceptImmature hclean).kept hclean

theorem cleanUp_vote (hkept : Kept ballot d) {k h : UInt256} {i : I} {vote : V}
    (hi : (d.cleanUp ballot env).mapItems[k]? = some i)
    (hvote : (ballot.mapVotes i)[h]? = some vote) :
    ∃ vote', vote = ballot.setValid (env.signatureValid vote' false) vote' := by
  have hclean : Kept ballot ((d.checkAndRemove ballot env).cleanAndRemove ballot env false) :=
    kept_cleanAndRemove (kept_checkAndRemove hkept) false
  rcases foldl_retry_cases hclean.immature hi with hi | hempty
  · rw [cleanAndRemove_item, Option.map_eq_some_iff] at hi
    obtain ⟨i', -, rfl⟩ := hi
    rw [markVotes_vote, Option.map_eq_some_iff] at hvote
    obtain ⟨vote', -, rfl⟩ := hvote
    exact ⟨vote', rfl⟩
  · rw [hempty] at hvote
    simp at hvote

theorem counted_cleanUp_iff (hkept : Kept ballot d) :
    Counted ballot (d.cleanUp ballot env) ↔
      ∀ (k : UInt256) (i : I), d.mapItems[k]? = some i → env.isValid i = true →
        ∀ (h : UInt256) (vote : V), (ballot.mapVotes i)[h]? = some vote →
          env.signatureValid vote false = true := by
  have hclean : Kept ballot ((d.checkAndRemove ballot env).cleanAndRemove ballot env false) :=
    kept_cleanAndRemove (kept_checkAndRemove hkept) false
  constructor
  · intro hcounted k i hi hvalid h vote hvote
    have hmarked : (d.cleanUp ballot env).mapItems[k]? = some (markVotes ballot env false i) := by
      apply foldl_retry_item
      rw [cleanAndRemove_item, (checkAndRemove_item hkept k i).mpr ⟨hi, hvalid⟩]
      rfl
    have hflag := hcounted k _ hmarked h (ballot.setValid (env.signatureValid vote false) vote)
      (by rw [markVotes_vote, hvote]; rfl)
    rwa [ballot.fValid_setValid] at hflag
  · intro hknown
    refine (effects_acceptImmature hclean).counted ?_
    intro k i hi h vote hvote
    rw [cleanAndRemove_item, Option.map_eq_some_iff] at hi
    obtain ⟨i', hi', rfl⟩ := hi
    rw [checkAndRemove_item hkept] at hi'
    rw [markVotes_vote, Option.map_eq_some_iff] at hvote
    obtain ⟨vote', hvote', rfl⟩ := hvote
    rw [ballot.fValid_setValid]
    exact hknown k i' hi'.1 hi'.2 h vote' hvote'

end VoteDesk

namespace CBudgetManager

variable {hashes : BudgetHashes} {env : BudgetEnv} {budget : CBudgetManager}

theorem effects_processMessage (env : BudgetEnv) (hkept : Kept hashes budget) (msg : BudgetMessage) :
    VoteDesk.Effects hashes.proposalBallot budget.proposals
        (budget.processMessage hashes env msg).proposals ∧
      VoteDesk.Effects hashes.finalizedBallot budget.finalized
        (budget.processMessage hashes env msg).finalized := by
  cases msg with
  | mprop p =>
    have haccept : VoteDesk.Effects hashes.proposalBallot budget.proposals
        (budget.proposals.acceptItem hashes.proposalBallot (env.proposalDesk hashes)
          { p with mapVotes := ∅ }).1 :=
      VoteDesk.effects_acceptItem hkept.proposals rfl
    simp only [processMessage]
    split
    · rename_i d heq
      rw [heq] at haccept
      exact ⟨haccept, .refl⟩
    · rename_i d heq
      rw [heq] at haccept
      exact ⟨.trans haccept (VoteDesk.effects_checkOrphanVotes (haccept.kept hkept.proposals)),
        VoteDesk.effects_checkOrphanVotes hkept.finalized⟩
  | mvote vote => exact ⟨VoteDesk.effects_processVote _ vote, .refl⟩
  | fbs b =>
    have haccept : VoteDesk.Effects hashes.finalizedBallot budget.finalized
        (budget.finalized.acceptItem hashes.finalizedBallot (env.finalizedDesk hashes)
          { b with mapVotes := ∅ }).1 :=
      VoteDesk.effects_acceptItem hkept.finalized rfl
    simp only [processMessage]
    split
    · rename_i d heq
      rw [heq] at haccept
      exact ⟨.refl, haccept⟩
    · rename_i d heq
      rw [heq] at haccept
      exact ⟨VoteDesk.effects_checkOrphanVotes hkept.proposals,
        .trans haccept (VoteDesk.effects_checkOrphanVotes (haccept.kept hkept.finalized))⟩
  | fbvote vote => exact ⟨.refl, VoteDesk.effects_processVote _ vote⟩

theorem newBlock_idle (h : cleansUp env = false) (nRand : Int) :
    budget.newBlock hashes env nRand = budget := by
  simp [newBlock, h]

-- A clean-up follows the clearing of the seen messages, or nothing.
theorem newBlock_cleanUp (hashes : BudgetHashes) (budget : CBudgetManager)
    (h : cleansUp env = true) (nRand : Int) :
    ∃ budget', (budget' = budget ∨ budget' = budget.clearSeen) ∧
      (budget.newBlock hashes env nRand).proposals =
        budget'.proposals.cleanUp hashes.proposalBallot (env.proposalDesk hashes) ∧
      (budget.newBlock hashes env nRand).finalized =
        budget'.finalized.cleanUp hashes.finalizedBallot (env.finalizedDesk hashes) := by
  simp only [newBlock, h, Bool.not_true, Bool.false_eq_true, if_false]
  split
  · exact ⟨budget.clearSeen, .inr rfl, rfl, rfl⟩
  · exact ⟨budget, .inl rfl, rfl, rfl⟩

theorem kept_clearSeen (hkept : Kept hashes budget) : Kept hashes budget.clearSeen :=
  ⟨(VoteDesk.Effect.see _ _).kept hkept.proposals, (VoteDesk.Effect.see _ _).kept hkept.finalized⟩

theorem kept_step (hkept : Kept hashes budget) (s : BudgetEnv × BudgetStep) :
    Kept hashes (step hashes budget s) := by
  obtain ⟨env, s⟩ := s
  cases s with
  | message msg =>
    obtain ⟨hproposals, hfinalized⟩ := effects_processMessage env hkept msg
    exact ⟨hproposals.kept hkept.proposals, hfinalized.kept hkept.finalized⟩
  | newBlock nRand =>
    cases hclean : cleansUp env with
    | false =>
      rw [step, newBlock_idle hclean]
      exact hkept
    | true =>
      obtain ⟨budget', hbudget', hproposals, hfinalized⟩ :=
        newBlock_cleanUp hashes budget hclean nRand
      have hkept' : Kept hashes budget' := by
        rcases hbudget' with rfl | rfl
        · exact hkept
        · exact kept_clearSeen hkept
      refine ⟨?_, ?_⟩
      · rw [step, hproposals]
        exact VoteDesk.kept_cleanUp hkept'.proposals
      · rw [step, hfinalized]
        exact VoteDesk.kept_cleanUp hkept'.finalized

theorem kept_run (hkept : Kept hashes budget) (steps : List (BudgetEnv × BudgetStep)) :
    Kept hashes (run hashes budget steps) := by
  induction steps generalizing budget with
  | nil => exact hkept
  | cons s steps ih => exact ih (kept_step hkept s)

theorem kept_empty (hashes : BudgetHashes) : Kept hashes {} :=
  ⟨VoteDesk.kept_empty _, VoteDesk.kept_empty _⟩

-- The votes that count for a budget are the valid ones.
def Tallied (budget : CBudgetManager) : Prop :=
  ∀ (k : UInt256) (b : CFinalizedBudget), budget.mapFinalizedBudgets[k]? = some b →
    b.getVoteCount = (b.mapVotes.toList.countP fun kv => kv.2.fValid : Nat)

theorem tallied_iff (hashes : BudgetHashes) :
    Tallied budget ↔ VoteDesk.Counted hashes.finalizedBallot budget.finalized := by
  refine forall_congr' fun k => forall_congr' fun b => imp_congr_right fun _ => ?_
  rw [CFinalizedBudget.getVoteCount, ← Std.TreeMap.length_toList, Int.natCast_inj, eq_comm,
    List.countP_eq_length]
  constructor
  · intro hall h vote hvote
    exact hall (h, vote) (Std.TreeMap.mem_toList_iff_getElem?_eq_some.mpr hvote)
  · rintro hall ⟨h, vote⟩ hmem
    exact hall h vote (Std.TreeMap.mem_toList_iff_getElem?_eq_some.mp hmem)

-- Every vote for a budget that a clean-up keeps is of a masternode that is still known.
def VotersKnown (hashes : BudgetHashes) (env : BudgetEnv) (budget : CBudgetManager) : Prop :=
  ∀ (k : UInt256) (b : CFinalizedBudget), budget.mapFinalizedBudgets[k]? = some b →
    (env.finalizedDesk hashes).isValid b = true →
      ∀ (h : UInt256) (vote : CFinalizedBudgetVote), b.mapVotes[h]? = some vote →
        (env.find vote.vin).isSome = true

theorem signatureValid_false (env : BudgetEnv) (vote : CFinalizedBudgetVote) :
    vote.signatureValid env false = (env.find vote.vin).isSome := by
  rw [CFinalizedBudgetVote.signatureValid, BudgetEnv.signatureValid]
  cases env.find vote.vin with
  | none => rfl
  | some pmn => rfl

theorem tallied_cleanUp_iff (hkept : Kept hashes budget) (hclean : cleansUp env = true)
    (nRand : Int) : Tallied (budget.newBlock hashes env nRand) ↔ VotersKnown hashes env budget := by
  obtain ⟨budget', hbudget', -, hfinalized⟩ :=
    newBlock_cleanUp hashes budget hclean nRand
  have hitems : budget'.finalized.mapItems = budget.finalized.mapItems := by
    rcases hbudget' with rfl | rfl
    · rfl
    · rfl
  have hkept' : Kept hashes budget' := by
    rcases hbudget' with rfl | rfl
    · exact hkept
    · exact kept_clearSeen hkept
  rw [tallied_iff hashes, hfinalized, VoteDesk.counted_cleanUp_iff hkept'.finalized,
    hitems]
  refine forall_congr' fun k => forall_congr' fun b => imp_congr_right fun _ =>
    imp_congr_right fun _ => forall_congr' fun h => forall_congr' fun vote =>
      imp_congr_right fun _ => ?_
  rw [← signatureValid_false]
  rfl

-- The flag of every stored vote tells whether its masternode is known.
def FlagsCurrent (env : BudgetEnv) (budget : CBudgetManager) : Prop :=
  ∀ (k : UInt256) (b : CFinalizedBudget), budget.mapFinalizedBudgets[k]? = some b →
    ∀ (h : UInt256) (vote : CFinalizedBudgetVote), b.mapVotes[h]? = some vote →
      vote.fValid = (env.find vote.vin).isSome

theorem flagsCurrent_cleanUp (hkept : Kept hashes budget) (hclean : cleansUp env = true)
    (nRand : Int) : FlagsCurrent env (budget.newBlock hashes env nRand) := by
  obtain ⟨budget', hbudget', -, hfinalized⟩ := newBlock_cleanUp hashes budget hclean nRand
  have hkept' : Kept hashes budget' := by
    rcases hbudget' with rfl | rfl
    · exact hkept
    · exact kept_clearSeen hkept
  intro k b hb h vote hvote
  rw [mapFinalizedBudgets, hfinalized] at hb
  obtain ⟨vote', rfl⟩ := VoteDesk.cleanUp_vote hkept'.finalized hb hvote
  exact signatureValid_false env vote'

theorem tallied_message (hkept : Kept hashes budget) (h : Tallied budget) (msg : BudgetMessage) :
    Tallied (budget.processMessage hashes env msg) := by
  rw [tallied_iff hashes] at h ⊢
  exact (effects_processMessage env hkept msg).2.counted h

theorem run_append (hashes : BudgetHashes) (budget : CBudgetManager)
    (steps : List (BudgetEnv × BudgetStep)) (s : BudgetEnv × BudgetStep) :
    run hashes budget (steps ++ [s]) = step hashes (run hashes budget steps) s := by
  rw [run, List.foldl_append]
  rfl

def firstHash : BudgetHashes where
  proposal _ _ _ _ _ _ := 8
  finalized _ _ _ := 7
  vote vin _ _ _ := vin.prevout.hash
  finalizedVote vin _ _ := vin.prevout.hash
  outPoint o := o.hash

def votersEnv (known : List UInt256) : BudgetEnv where
  nTipHeight := some 86100
  nCountEnabled := known.length
  vMasternodes := known.map fun h => ⟨⟨⟨h, 0⟩, [], 0⟩, [], 0⟩

-- Two masternodes vote for a budget; the second one is gone when the votes are cleaned up.
def leavingRun : List (BudgetEnv × BudgetStep) :=
  [(votersEnv [1, 2], .message (.fbs (CFinalizedBudget.plainBudget [10 * COIN]))),
    (votersEnv [1, 2], .message (.fbvote ⟨⟨⟨1, 0⟩, [], 0⟩, 7, 0, [], true⟩)),
    (votersEnv [1, 2], .message (.fbvote ⟨⟨⟨2, 0⟩, [], 0⟩, 7, 0, [], true⟩)),
    (votersEnv [1], .newBlock 1)]

end CBudgetManager

end AnkerNode
