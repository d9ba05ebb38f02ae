import AnkerNode.Budget.CleanUp
import AnkerNode.Budget.Suggestion
import AnkerNode.Lib.TreeMaps

namespace AnkerNode

-- The entries of the maps with what stands beside the broadcast: `fSynced` of the vote under each
-- key, and `nAlloted`, which no constructor sets.
structure StoredProposal extends CBudgetProposal where
  fSynced : UInt256 → Bool := fun _ => false
  nTime : Int := 0
  fValid : Bool := true
  nAlloted : Option Int := none

structure StoredBudget extends CFinalizedBudget where
  fSynced : UInt256 → Bool := fun _ => false
  nTime : Int := 0
  fValid : Bool := true
  fAutoChecked : Bool := false

-- the copy constructors
def StoredProposal.copy (other : StoredProposal) : StoredProposal :=
  { other with fValid := true, nAlloted := none }

def StoredBudget.copy (other : StoredBudget) : StoredBudget :=
  { other with fValid := true, fAutoChecked := false }

-- `nRand` is the draw for the budget under a key, `collateralTime` the time of the block that a
-- transaction of the active chain stands in, `signVote` the vote of this masternode for a budget.
structure SweepEnv extends BudgetEnv where
  hashes : BudgetHashes
  fMasterNode : Bool := false
  strBudgetMode : String := "auto"
  nRand : UInt256 → Nat := fun _ => 0
  collateralTime : UInt256 → Option Int := fun _ => none
  sort : List CountedProposal → List CountedProposal := id
  scriptText : CScript → String := fun _ => ""
  signVote : UInt256 → Option CFinalizedBudgetVote := fun _ => none

structure BudgetMaps where
  mapProposals : Std.TreeMap UInt256 StoredProposal := ∅
  mapFinalizedBudgets : Std.TreeMap UInt256 StoredBudget := ∅

namespace SweepEnv

variable (env : SweepEnv)

def proposalHash (p : StoredProposal) : UInt256 := p.getHash env.hashes.proposal

def budgetHash (b : StoredBudget) : UInt256 := b.getHash env.hashes.finalized

def validProposal (p : StoredProposal) : Bool :=
  (p.isValid env.toBudgetEnv env.hashes.proposal true).isOk

def validBudget (b : StoredBudget) : Bool :=
  (b.isValid env.toBudgetEnv env.hashes.finalized (fun _ => none) true).isOk

-- the time that `IsBudgetCollateralValid` leaves for a collateral
def collateralTimeOr (nFeeTXHash : UInt256) (nTime : Int) : Int :=
  (env.collateralTime nFeeTXHash).getD nTime

-- `AutoCheck` gets past its first tests.
def autoChecks (key : UInt256) (b : StoredBudget) : Bool :=
  env.nTipHeight.isSome && env.fMasterNode && !b.fAutoChecked && env.nRand key % 4 == 0

def proposalMarks (props : Std.TreeMap UInt256 StoredProposal) : ProposalMarks := fun k =>
  match props[k]? with
  | none => {}
  | some p => { fValid := p.fValid, nTime := p.nTime, nAlloted := p.nAlloted.getD 0 }

-- `vBudgetPorposalsSort` of `GetBudget`, sorted
def countedOrder (props : Std.TreeMap UInt256 StoredProposal) : List CountedProposal :=
  env.sort (CBudgetManager.countedProposals env.hashes env.toBudgetEnv
    { proposals := { mapItems := props.map fun _ p => p.toCBudgetProposal } })

def suggestion (props : Std.TreeMap UInt256 StoredProposal) : Allotment :=
  CBudgetManager.getBudget env.toBudgetEnv (proposalMarks props) (env.countedOrder props)

-- What `GetBudget` leaves of the proposals: the flags of the votes are set anew, and those that
-- pass its first check get an amount.
def afterGetBudget (props : Std.TreeMap UInt256 StoredProposal) :
    Std.TreeMap UInt256 StoredProposal :=
  let nBlockStart := env.nextBlockStart env.height
  let allotted := fun k => (env.countedOrder props).any fun c =>
    c.key == k && env.passesCheck1 (proposalMarks props) nBlockStart c
  props.map fun k p =>
    { p with
      toCBudgetProposal := VoteDesk.markVotes env.hashes.proposalBallot
        (env.proposalDesk env.hashes) false p.toCBudgetProposal
      nAlloted := if allotted k then some ((env.suggestion props).marks k).nAlloted else p.nAlloted }

def matchesSuggestion (payments : List CTxBudgetPayment) (props : List CountedProposal) : Bool :=
  !props.isEmpty && props.length == payments.length && (payments.zip props).all fun (payment, c) =>
    payment.nProposalHash == c.proposal.getHash env.hashes.proposal &&
      env.scriptText payment.payee == env.scriptText c.proposal.address &&
      payment.nAmount == c.proposal.nAmount

-- The budget stands under its own hash, so the vote goes to the budget itself.
def submitVote (b : StoredBudget) : StoredBudget :=
  match env.signVote (env.budgetHash b) with
  | none => b
  | some vote =>
    match env.hashes.finalizedBallot.addOrUpdateVote env.nTime b.toCFinalizedBudget vote with
    | .error _ => b
    | .ok voted =>
      { b with
        toCFinalizedBudget := voted
        fSynced := Function.update b.fSynced (env.hashes.finalizedBallot.voterKey vote) false }

def autoCheck (key : UInt256) (b : StoredBudget) (props : Std.TreeMap UInt256 StoredProposal) :
    StoredBudget × Std.TreeMap UInt256 StoredProposal :=
  if !env.autoChecks key b then (b, props)
  else
    let b := { b with fAutoChecked := true }
    if env.strBudgetMode ≠ "auto" then (b, props)
    else if env.matchesSuggestion b.vecBudgetPayments (env.suggestion props).vBudgetProposalsRet then
      (env.submitVote b, env.afterGetBudget props)
    else (b, env.afterGetBudget props)

-- the loop over the finalized budgets; what it stores is a copy
def keepBudget (props : Std.TreeMap UInt256 StoredProposal) (it : UInt256 × StoredBudget) :
    Std.TreeMap UInt256 StoredProposal × Option StoredBudget :=
  let b := it.2
  if env.validBudget b then
    let b := { b with fValid := true, nTime := env.collateralTimeOr b.nFeeTXHash b.nTime }
    let checked := env.autoCheck it.1 b props
    (checked.2, some checked.1.copy)
  else (props, none)

def keepProposal (_ : Unit) (it : UInt256 × StoredProposal) : Unit × Option StoredProposal :=
  let p := it.2
  if env.validProposal p then
    let p := { p with fValid := true, nTime := env.collateralTimeOr p.nFeeTXHash p.nTime }
    ((), some p.copy)
  else ((), none)

end SweepEnv

open TreeRebuild

def BudgetMaps.checkAndRemove (env : SweepEnv) (maps : BudgetMaps) : BudgetMaps :=
  let budgets := rebuild env.budgetHash env.keepBudget maps.mapProposals maps.mapFinalizedBudgets
  { mapProposals := (rebuild env.proposalHash env.keepProposal () budgets.1).2
    mapFinalizedBudgets := budgets.2 }

-- Every insertion puts an object under its own hash.
structure BudgetMaps.Keyed (hashes : BudgetHashes) (maps : BudgetMaps) : Prop where
  proposals : ∀ (k : UInt256) (p : StoredProposal), maps.mapProposals[k]? = some p →
    p.getHash hashes.proposal = k
  budgets : ∀ (k : UInt256) (b : StoredBudget), maps.mapFinalizedBudgets[k]? = some b →
    b.getHash hashes.finalized = k

-- What is left is what is valid, with every field as it was; a budget that is checked now is marked.
structure OnlyRemoves (env : SweepEnv) (before after : BudgetMaps) : Prop where
  proposals : ∀ k : UInt256,
    after.mapProposals[k]? = before.mapProposals[k]?.filter env.validProposal
  budgets : ∀ k : UInt256, after.mapFinalizedBudgets[k]? =
    (before.mapFinalizedBudgets[k]?.filter env.validBudget).map fun b =>
      { b with fAutoChecked := b.fAutoChecked || env.autoChecks k b }

-- Nothing stands in the valid entries that a copy loses, and nothing writes to them.
structure Untouched (env : SweepEnv) (maps : BudgetMaps) : Prop where
  proposals : ∀ (k : UInt256) (p : StoredProposal), maps.mapProposals[k]? = some p →
    env.validProposal p = true →
    p.nAlloted = none ∧ p.fValid = true ∧ env.collateralTimeOr p.nFeeTXHash p.nTime = p.nTime
  budgets : ∀ (k : UInt256) (b : StoredBudget), maps.mapFinalizedBudgets[k]? = some b →
    env.validBudget b = true →
    b.fAutoChecked = false ∧ env.autoChecks k b = false ∧ b.fValid = true ∧
      env.collateralTimeOr b.nFeeTXHash b.nTime = b.nTime

variable {env : SweepEnv} {maps : BudgetMaps}

theorem budgetHash_submitVote (env : SweepEnv) (b : StoredBudget) :
    env.budgetHash (env.submitVote b) = env.budgetHash b := by
  rw [SweepEnv.submitVote]
  split
  · rfl
  · split
    · rfl
    · rename_i voted h
      obtain ⟨_, -, h⟩ := Checks.bind_eq_ok.mp h
      obtain ⟨_, -, h⟩ := Checks.bind_eq_ok.mp h
      cases h
      rfl

-- An automatic check sets its flag and votes, and nothing else.
theorem autoCheck_keeps {γ : Type} (f : StoredBudget → γ)
    (hflag : ∀ b : StoredBudget, f { b with fAutoChecked := true } = f b)
    (hvote : ∀ b, f (env.submitVote b) = f b) (key : UInt256) (b : StoredBudget)
    (props : Std.TreeMap UInt256 StoredProposal) : f (env.autoCheck key b props).1 = f b := by
  rw [SweepEnv.autoCheck]
  split
  · rfl
  · dsimp only
    split
    · exact hflag b
    · split
      · exact (hvote _).trans (hflag b)
      · exact hflag b

theorem nTime_submitVote (env : SweepEnv) (b : StoredBudget) :
    (env.submitVote b).nTime = b.nTime := by
  rw [SweepEnv.submitVote]
  split
  · rfl
  · split
    · rfl
    · rfl

theorem keepBudget_place (hkeyed : maps.Keyed env.hashes) :
    ∀ it ∈ maps.mapFinalizedBudgets.toList, ∀ props b, (env.keepBudget props it).2 = some b →
      env.budgetHash b = it.1 := by
  intro it hit props b hb
  have hkey := hkeyed.budgets it.1 it.2 (Std.TreeMap.mem_toList_iff_getElem?_eq_some.mp hit)
  rw [SweepEnv.keepBudget] at hb
  split at hb
  · cases hb
    exact (autoCheck_keeps env.budgetHash (fun _ => rfl) (budgetHash_submitVote env) it.1 _
      props).trans hkey
  · cases hb

theorem keepProposal_place (env : SweepEnv) {props : Std.TreeMap UInt256 StoredProposal}
    (hkeyed : ∀ (k : UInt256) (p : StoredProposal), props[k]? = some p → env.proposalHash p = k) :
    ∀ it ∈ props.toList, ∀ s p, (env.keepProposal s it).2 = some p → env.proposalHash p = it.1 := by
  intro it hit s p hp
  have hkey := hkeyed it.1 it.2 (Std.TreeMap.mem_toList_iff_getElem?_eq_some.mp hit)
  rw [SweepEnv.keepProposal] at hp
  split at hp
  · cases hp
    exact hkey
  · cases hp

theorem autoCheck_idle {key : UInt256} {b : StoredBudget} (h : env.autoChecks key b = false)
    (props : Std.TreeMap UInt256 StoredProposal) : env.autoCheck key b props = (b, props) := by
  rw [SweepEnv.autoCheck, h]
  rfl

theorem keepBudget_of_valid {b : StoredBudget} (hvalid : env.validBudget b = true)
    (props : Std.TreeMap UInt256 StoredProposal) (k : UInt256) :
    ∃ b' : StoredBudget, b'.nTime = env.collateralTimeOr b.nFeeTXHash b.nTime ∧
      (env.keepBudget props (k, b)).2 = some b'.copy := by
  refine ⟨(env.autoCheck k
    { b with fValid := true, nTime := env.collateralTimeOr b.nFeeTXHash b.nTime } props).1, ?_, ?_⟩
  · exact autoCheck_keeps StoredBudget.nTime (fun _ => rfl) (nTime_submitVote env) k _ props
  · rw [SweepEnv.keepBudget, if_pos hvalid]

theorem keepBudget_of_idle {b : StoredBudget} {k : UInt256} (hvalid : env.validBudget b = true)
    (hidle : env.autoChecks k b = false) (props : Std.TreeMap UInt256 StoredProposal) :
    env.keepBudget props (k, b) = (props, some { b with
      fValid := true
      nTime := env.collateralTimeOr b.nFeeTXHash b.nTime
      fAutoChecked := false }) := by
  have hcheck := autoCheck_idle (b := { b with
    fValid := true
    nTime := env.collateralTimeOr b.nFeeTXHash b.nTime }) hidle props
  rw [SweepEnv.keepBudget, if_pos hvalid]
  dsimp only
  rw [hcheck]
  rfl

theorem keepBudget_of_invalid {b : StoredBudget} (hinvalid : env.validBudget b = false)
    (props : Std.TreeMap UInt256 StoredProposal) (k : UInt256) :
    env.keepBudget props (k, b) = (props, none) := by
  rw [SweepEnv.keepBudget, if_neg (by simp [hinvalid])]

-- As long as no budget is checked, the first loop leaves the proposals alone.
theorem proposals_of_idle (hidle : ∀ (k : UInt256) (b : StoredBudget),
    maps.mapFinalizedBudgets[k]? = some b → env.validBudget b = true → env.autoChecks k b = false) :
    (rebuild env.budgetHash env.keepBudget maps.mapProposals maps.mapFinalizedBudgets).1 =
      maps.mapProposals := by
  apply rebuild_state_of_still
  rintro ⟨k, b⟩ hmem
  have hk := Std.TreeMap.mem_toList_iff_getElem?_eq_some.mp hmem
  cases hvalid : env.validBudget b with
  | false => rw [keepBudget_of_invalid hvalid]
  | true => rw [keepBudget_of_idle hvalid (hidle k b hk hvalid)]

theorem checkAndRemove_proposal (hkeyed : maps.Keyed env.hashes) (hidle : ∀ (k : UInt256)
    (b : StoredBudget), maps.mapFinalizedBudgets[k]? = some b → env.validBudget b = true →
      env.autoChecks k b = false) (k : UInt256) :
    (maps.checkAndRemove env).mapProposals[k]? =
      (maps.mapProposals[k]?.filter env.validProposal).map fun p =>
        { p with fValid := true, nTime := env.collateralTimeOr p.nFeeTXHash p.nTime, nAlloted := none } := by
  have hplace := keepProposal_place env hkeyed.proposals
  rw [BudgetMaps.checkAndRemove]
  dsimp only
  rw [proposals_of_idle hidle]
  cases hk : maps.mapProposals[k]? with
  | none => rw [getElem?_rebuild_of_none hplace hk, Option.filter_none, Option.map_none]
  | some p =>
    obtain ⟨s, hs⟩ := getElem?_rebuild_of_some () hplace hk
    rw [hs, SweepEnv.keepProposal, Option.filter_some]
    split
    · rfl
    · rfl

theorem untouched_of_onlyRemoves (hkeyed : maps.Keyed env.hashes)
    (h : OnlyRemoves env maps (maps.checkAndRemove env)) : Untouched env maps := by
  have hbudgets : ∀ (k : UInt256) (b : StoredBudget), maps.mapFinalizedBudgets[k]? = some b →
      env.validBudget b = true →
      b.fAutoChecked = false ∧ env.autoChecks k b = false ∧ b.fValid = true ∧
        env.collateralTimeOr b.nFeeTXHash b.nTime = b.nTime := by
    intro k b hk hvalid
    obtain ⟨props, hprops⟩ :=
      getElem?_rebuild_of_some maps.mapProposals (keepBudget_place hkeyed) hk
    obtain ⟨b', htime, hkept⟩ := keepBudget_of_valid hvalid props k
    have hafter : (maps.checkAndRemove env).mapFinalizedBudgets[k]? = some b'.copy :=
      hprops.trans hkept
    rw [h.budgets k, hk, Option.filter_some, if_pos hvalid, Option.map_some] at hafter
    have heq := Option.some.inj hafter
    have hflag : (b.fAutoChecked || env.autoChecks k b) = false :=
      congrArg StoredBudget.fAutoChecked heq
    have hvalidFlag : b.fValid = true := congrArg StoredBudget.fValid heq
    have hnTime := congrArg StoredBudget.nTime heq
    change b.nTime = b'.nTime at hnTime
    rw [Bool.or_eq_false_iff] at hflag
    exact ⟨hflag.1, hflag.2, hvalidFlag, (hnTime.trans htime).symm⟩
  refine ⟨?_, hbudgets⟩
  intro k p hk hvalid
  have hafter := checkAndRemove_proposal hkeyed
    (fun k b hk hvalid => (hbudgets k b hk hvalid).2.1) k
  rw [h.proposals k, hk, Option.filter_some, if_pos hvalid, Option.map_some] at hafter
  have heq := Option.some.inj hafter
  exact ⟨congrArg StoredProposal.nAlloted heq, congrArg StoredProposal.fValid heq,
    (congrArg StoredProposal.nTime heq).symm⟩

theorem onlyRemoves_of_untouched (hkeyed : maps.Keyed env.hashes) (h : Untouched env maps) :
    OnlyRemoves env maps (maps.checkAndRemove env) := by
  have hidle : ∀ (k : UInt256) (b : StoredBudget), maps.mapFinalizedBudgets[k]? = some b →
      env.validBudget b = true → env.autoChecks k b = false :=
    fun k b hk hvalid => (h.budgets k b hk hvalid).2.1
  constructor
  · intro k
    rw [checkAndRemove_proposal hkeyed hidle]
    cases hk : maps.mapProposals[k]? with
    | none => rfl
    | some p =>
      cases hvalid : env.validProposal p with
      | false => rw [Option.filter_some, if_neg (by simp [hvalid]), Option.map_none]
      | true =>
        obtain ⟨halloted, hflag, htime⟩ := h.proposals k p hk hvalid
        rw [Option.filter_some, if_pos hvalid, Option.map_some, htime, ← hflag, ← halloted]
  · intro k
    cases hk : maps.mapFinalizedBudgets[k]? with
    | none => exact getElem?_rebuild_of_none (keepBudget_place hkeyed) hk
    | some b =>
      obtain ⟨props, hprops⟩ :=
        getElem?_rebuild_of_some maps.mapProposals (keepBudget_place hkeyed) hk
      refine Eq.trans hprops ?_
      cases hvalid : env.validBudget b with
      | false =>
        rw [keepBudget_of_invalid hvalid]
        simp [hvalid]
      | true =>
        obtain ⟨hchecked, hcheck, hflag, htime⟩ := h.budgets k b hk hvalid
        rw [keepBudget_of_idle hvalid hcheck, Option.filter_some, if_pos hvalid, Option.map_some,
          hcheck, hchecked, htime, ← hflag]
        rfl

-- Calls one after the other, and how often the budget under `key` is checked by them.
def autoCheckCount (key : UInt256) : List SweepEnv → BudgetMaps → Nat
  | [], _ => 0
  | env :: envs, maps =>
    (if maps.mapFinalizedBudgets[key]?.any fun b => env.validBudget b && env.autoChecks key b then 1
      else 0) + autoCheckCount key envs (maps.checkAndRemove env)

def UntouchedAlong : List SweepEnv → BudgetMaps → Prop
  | [], _ => True
  | env :: envs, maps => Untouched env maps ∧ UntouchedAlong envs (maps.checkAndRemove env)

theorem autoCheckCount_of_untouched {envs : List SweepEnv} (h : UntouchedAlong envs maps)
    (key : UInt256) : autoCheckCount key envs maps ≤ 1 := by
  suffices autoCheckCount key envs maps = 0 by omega
  induction envs generalizing maps with
  | nil => rfl
  | cons env envs ih =>
    obtain ⟨hcall, hrest⟩ := h
    rw [autoCheckCount, ih hrest, if_neg]
    rw [Bool.not_eq_true, ← Bool.not_eq_true, Option.any_eq_true]
    rintro ⟨b, hb, hboth⟩
    rw [Bool.and_eq_true] at hboth
    have hidle := (hcall.budgets key b hb hboth.1).2.1
    rw [hboth.2] at hidle
    cases hidle

theorem only_removes_iff (hkeyed : maps.Keyed env.hashes) :
    (OnlyRemoves env maps (maps.checkAndRemove env) ↔ Untouched env maps) ∧
      ∀ envs : List SweepEnv, UntouchedAlong envs maps → ∀ key, autoCheckCount key envs maps ≤ 1 :=
  ⟨⟨untouched_of_onlyRemoves hkeyed, onlyRemoves_of_untouched hkeyed⟩,
    fun _ => autoCheckCount_of_untouched⟩

-- A masternode with one budget to pay, which it draws at every call.
def drawingEnv : SweepEnv where
  networkID := .MAIN
  nTipHeight := some 86000
  hashes := CBudgetManager.firstHash
  fMasterNode := true

def oneBudget : BudgetMaps where
  mapFinalizedBudgets :=
    (∅ : Std.TreeMap UInt256 StoredBudget).insert 7 ⟨CFinalizedBudget.plainBudget [10 * COIN],
      fun _ => false, 0, true, false⟩

theorem oneBudget_keyed : oneBudget.Keyed CBudgetManager.firstHash := by
  constructor
  · intro k p h
    simp [oneBudget] at h
  · intro k b h
    rw [oneBudget, Std.TreeMap.getElem?_insert] at h
    split at h
    · rename_i hk
      rw [← Std.LawfulEqCmp.eq_of_compare hk, ← Option.some.inj h]
      rfl
    · simp at h

theorem budget_checked_twice :
    ¬ OnlyRemoves drawingEnv oneBudget (oneBudget.checkAndRemove drawingEnv) ∧
      autoCheckCount 7 [drawingEnv, drawingEnv] oneBudget = 2 := by
  constructor
  · intro h
    have hafter := h.budgets 7
    have hflag : ((oneBudget.checkAndRemove drawingEnv).mapFinalizedBudgets[(7 : UInt256)]?.map
        StoredBudget.fAutoChecked) = some false := by decide +kernel
    have hmarked : (((oneBudget.mapFinalizedBudgets[(7 : UInt256)]?.filter
        drawingEnv.validBudget).map fun b =>
          { b with fAutoChecked := b.fAutoChecked || drawingEnv.autoChecks 7 b }).map
        StoredBudget.fAutoChecked) = some true := by decide +kernel
    rw [hafter, hmarked] at hflag
    cases hflag
  · decide +kernel

-- On a node that is no masternode nothing is lost.
theorem only_removes_plain :
    OnlyRemoves { drawingEnv with fMasterNode := false } oneBudget
      (oneBudget.checkAndRemove { drawingEnv with fMasterNode := false }) := by
  refine (only_removes_iff oneBudget_keyed).1.mpr ⟨?_, ?_⟩
  · intro k p h
    simp [oneBudget] at h
  · intro k b h _
    rw [oneBudget, Std.TreeMap.getElem?_insert] at h
    split at h
    · rw [← Option.some.inj h]
      exact ⟨rfl, rfl, rfl, rfl⟩
    · simp at h

end AnkerNode
