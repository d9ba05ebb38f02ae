import AnkerNode.Budget.FinalizedBudget
import Mathlib.Logic.Relation
import Std.Data.TreeMap.Lemmas

namespace AnkerNode

def BUDGET_VOTE_UPDATE_MIN : Int := 60 * 60

-- How votes of one kind refer to the items they are for: proposals or finalized budgets.
structure Ballot (I V : Type) where
  prevout : V → COutPoint
  target : V → UInt256
  nTime : V → Int
  fValid : V → Bool
  setValid : Bool → V → V
  getHash : V → UInt256
  getOutHash : COutPoint → UInt256
  getItemHash : I → UInt256
  mapVotes : I → Std.TreeMap UInt256 V
  setVotes : I → Std.TreeMap UInt256 V → I
  mapVotes_setVotes : ∀ i m, mapVotes (setVotes i m) = m
  getItemHash_setVotes : ∀ i m, getItemHash (setVotes i m) = getItemHash i
  fValid_setValid : ∀ f v, fValid (setValid f v) = f
  target_setValid : ∀ f v, target (setValid f v) = target v
  prevout_setValid : ∀ f v, prevout (setValid f v) = prevout v
  getHash_setValid : ∀ f v, getHash (setValid f v) = getHash v
  nTime_setValid : ∀ f v, nTime (setValid f v) = nTime v

-- What a node consults of itself while it handles a message of one kind.
structure DeskEnv (I V : Type) where
  fActive : Bool
  fSynced : Bool
  nTime : Int
  isKnown : V → Bool
  signatureValid : V → Bool → Bool
  isBudgetCollateralValid : I → CollateralResult
  fMature : I → Bool
  isValid : I → Bool

structure VoteDesk (I V : Type) where
  mapItems : Std.TreeMap UInt256 I := ∅
  mapSeenItems : UInt256 → Bool := fun _ => false
  mapSeenVotes : UInt256 → Option V := fun _ => none
  mapOrphanVotes : Std.TreeMap UInt256 V := ∅
  vecImmature : List I := []

namespace Ballot

variable {I V : Type} (ballot : Ballot I V)

def voterKey (vote : V) : UInt256 := ballot.getOutHash (ballot.prevout vote)

def checkEarlier (old : Option V) (vote : V) : Except String Unit :=
  match old with
  | none => .ok ()
  | some old => do
    Checks.failIf (decide (ballot.nTime vote < ballot.nTime old))
      ("new vote older than existing vote - " ++ (ballot.getHash vote).getHex ++ "\n")
    Checks.failIf (decide (ballot.nTime vote - ballot.nTime old < BUDGET_VOTE_UPDATE_MIN))
      ("time between votes is too soon - " ++ (ballot.getHash vote).getHex ++ " - " ++
        toString (ballot.nTime vote - ballot.nTime old) ++ " sec < " ++
        toString BUDGET_VOTE_UPDATE_MIN ++ " sec\n")

def addOrUpdateVote (nTime : Int) (i : I) (vote : V) : Except String I := do
  ballot.checkEarlier (ballot.mapVotes i)[ballot.voterKey vote]? vote
  Checks.failIf (decide (nTime + 60 * 60 < ballot.nTime vote))
    ("new vote is too far ahead of current time - " ++ (ballot.getHash vote).getHex ++ " - nTime " ++
      toString (ballot.nTime vote) ++ " - Max Time " ++ toString (nTime + 60 * 60) ++ "\n")
  .ok (ballot.setVotes i ((ballot.mapVotes i).insert (ballot.voterKey vote) vote))

end Ballot

namespace VoteDesk

variable {I V : Type} (d : VoteDesk I V) (ballot : Ballot I V) (env : DeskEnv I V)

-- The flag tells whether the vote was stored. `fFrom` is set for a vote that a peer sent.
def update (fFrom : Bool) (vote : V) : VoteDesk I V × Bool :=
  match d.mapItems[ballot.target vote]? with
  | none =>
    if fFrom && env.fSynced then
      ({ d with mapOrphanVotes := d.mapOrphanVotes.insert (ballot.target vote) vote }, false)
    else (d, false)
  | some i =>
    match ballot.addOrUpdateVote env.nTime i vote with
    | .error _ => (d, false)
    | .ok i => ({ d with mapItems := d.mapItems.insert (ballot.target vote) i }, true)

def checkOrphanVote (d : VoteDesk I V) (it : UInt256 × V) : VoteDesk I V :=
  match d.update ballot env false it.2 with
  | (d, true) => { d with mapOrphanVotes := d.mapOrphanVotes.erase it.1 }
  | (d, false) => d

def checkOrphanVotes : VoteDesk I V :=
  d.mapOrphanVotes.toList.foldl (checkOrphanVote ballot env) d

def processVote (vote : V) : VoteDesk I V :=
  let vote := ballot.setValid true vote
  if !env.fActive then d
  else if (d.mapSeenVotes (ballot.getHash vote)).isSome then d
  else if !env.isKnown vote then d
  else
    let d :=
      { d with mapSeenVotes := Function.update d.mapSeenVotes (ballot.getHash vote) (some vote) }
    if !env.signatureValid vote true then d else (d.update ballot env true vote).1

def addItem (i : I) : VoteDesk I V :=
  if !env.isValid i then d
  else if d.mapItems.contains (ballot.getItemHash i) then d
  else { d with mapItems := d.mapItems.insert (ballot.getItemHash i) i }

-- The handling of an announcement up to the check of the orphan votes; the flag tells whether
-- that check is reached.
def acceptItem (i : I) : VoteDesk I V × Bool :=
  if !env.fActive then (d, false)
  else if d.mapSeenItems (ballot.getItemHash i) then (d, false)
  else if !(env.isBudgetCollateralValid i).fValid then
    (if 1 ≤ (env.isBudgetCollateralValid i).nConf then { d with vecImmature := d.vecImmature ++ [i] }
      else d, false)
  else
    let d := { d with mapSeenItems := Function.update d.mapSeenItems (ballot.getItemHash i) true }
    if !env.isValid i then (d, false) else (d.addItem ballot env i, true)

def announce (i : I) : VoteDesk I V :=
  match d.acceptItem ballot env i with
  | (d, false) => d
  | (d, true) => d.checkOrphanVotes ballot env

def clearSeen : VoteDesk I V :=
  { d with mapSeenItems := fun _ => false, mapSeenVotes := fun _ => none }

def keepValid (m : Std.TreeMap UInt256 I) (it : UInt256 × I) : Std.TreeMap UInt256 I :=
  if env.isValid it.2 then m.insertIfNew (ballot.getItemHash it.2) it.2 else m

def checkAndRemove : VoteDesk I V :=
  { d with mapItems := d.mapItems.toList.foldl (keepValid ballot env) ∅ }

def markVotes (fSignatureCheck : Bool) (i : I) : I :=
  ballot.setVotes i ((ballot.mapVotes i).map fun _ vote =>
    ballot.setValid (env.signatureValid vote fSignatureCheck) vote)

def cleanAndRemove (fSignatureCheck : Bool) : VoteDesk I V :=
  { d with mapItems := d.mapItems.map fun _ i => markVotes ballot env fSignatureCheck i }

def retry (d : VoteDesk I V) (i : I) : VoteDesk I V :=
  if env.fMature i then d.addItem ballot env i
  else { d with vecImmature := d.vecImmature ++ [i] }

def acceptImmature : VoteDesk I V :=
  d.vecImmature.foldl (retry ballot env) { d with vecImmature := [] }

def deliver (d : VoteDesk I V) (votes : List (DeskEnv I V × V)) : VoteDesk I V :=
  votes.foldl (fun d p => d.processVote ballot p.1 p.2) d

end VoteDesk

namespace VoteDesk

variable {I V : Type} {d : VoteDesk I V} {ballot : Ballot I V} {env : DeskEnv I V} {i : I}

theorem getElem?_insert_same {W : Type} (t : Std.TreeMap UInt256 W) (k : UInt256) (w : W) :
    (t.insert k w)[k]? = some w := by
  simp

theorem getElem?_insert_ne {W : Type} {t : Std.TreeMap UInt256 W} {k k' : UInt256} {w : W}
    (h : k ≠ k') : (t.insert k w)[k']? = t[k']? := by
  rw [Std.TreeMap.getElem?_insert, if_neg (by simpa using h)]

theorem checkOrphanVote_cases (ballot : Ballot I V) (env : DeskEnv I V) (d : VoteDesk I V)
    (it : UInt256 × V) :
    checkOrphanVote ballot env d it = d ∨ ∃ i i', d.mapItems[ballot.target it.2]? = some i ∧
      ballot.addOrUpdateVote env.nTime i it.2 = .ok i' ∧
      checkOrphanVote ballot env d it =
        { d with
          mapItems := d.mapItems.insert (ballot.target it.2) i'
          mapOrphanVotes := d.mapOrphanVotes.erase it.1 } := by
  simp only [checkOrphanVote, update]
  cases hitem : d.mapItems[ballot.target it.2]? with
  | none => exact .inl (by simp)
  | some i =>
    cases hadd : ballot.addOrUpdateVote env.nTime i it.2 with
    | error e => exact .inl (by simp [hadd])
    | ok i' => exact .inr ⟨i, i', rfl, hadd, by simp [hadd]⟩

-- The smallest changes of a desk while it handles messages and immature items.
inductive Effect (ballot : Ballot I V) (d : VoteDesk I V) : VoteDesk I V → Prop where
  | see (mapSeenItems : UInt256 → Bool) (mapSeenVotes : UInt256 → Option V) :
      Effect ballot d { d with mapSeenItems := mapSeenItems, mapSeenVotes := mapSeenVotes }
  | hold (vote : V) (hvalid : ballot.fValid vote = true) :
      Effect ballot d
        { d with mapOrphanVotes := d.mapOrphanVotes.insert (ballot.target vote) vote }
  | release (k : UInt256) :
      Effect ballot d { d with mapOrphanVotes := d.mapOrphanVotes.erase k }
  | store (k : UInt256) (i : I) (vote : V) (hitem : d.mapItems[k]? = some i)
      (hvalid : ballot.fValid vote = true) :
      Effect ballot d
        { d with
          mapItems := d.mapItems.insert k
            (ballot.setVotes i ((ballot.mapVotes i).insert (ballot.voterKey vote) vote)) }
  | add (i : I) (hempty : ballot.mapVotes i = ∅) :
      Effect ballot d { d with mapItems := d.mapItems.insert (ballot.getItemHash i) i }
  | defer (items : List I) (hempty : ∀ i ∈ items, ballot.mapVotes i = ∅) :
      Effect ballot d { d with vecImmature := items }

abbrev Effects (ballot : Ballot I V) : VoteDesk I V → VoteDesk I V → Prop :=
  Relation.ReflTransGen (Effect ballot)

structure Kept (ballot : Ballot I V) (d : VoteDesk I V) : Prop where
  items : ∀ (k : UInt256) (i : I), d.mapItems[k]? = some i → ballot.getItemHash i = k
  orphans : ∀ (k : UInt256) (vote : V), d.mapOrphanVotes[k]? = some vote → ballot.target vote = k
  valid : ∀ (k : UInt256) (vote : V), d.mapOrphanVotes[k]? = some vote → ballot.fValid vote = true
  immature : ∀ i ∈ d.vecImmature, ballot.mapVotes i = ∅

-- every stored vote is valid
def Counted (ballot : Ballot I V) (d : VoteDesk I V) : Prop :=
  ∀ (k : UInt256) (i : I), d.mapItems[k]? = some i →
    ∀ (h : UInt256) (vote : V), (ballot.mapVotes i)[h]? = some vote → ballot.fValid vote = true

theorem kept_empty (ballot : Ballot I V) : Kept ballot {} := by
  refine ⟨?_, ?_, ?_, ?_⟩ <;> simp

theorem getElem?_insert_cases {W : Type} {t : Std.TreeMap UInt256 W} {k k' : UInt256} {w w' : W}
    (h : (t.insert k w)[k']? = some w') : (k = k' ∧ w = w') ∨ t[k']? = some w' := by
  by_cases hk : k = k'
  · subst hk
    rw [getElem?_insert_same] at h
    exact .inl ⟨rfl, Option.some.inj h⟩
  · exact .inr (getElem?_insert_ne hk ▸ h)

theorem Effect.kept {d' : VoteDesk I V} (heffect : Effect ballot d d') (h : Kept ballot d) :
    Kept ballot d' := by
  cases heffect with
  | see mapSeenItems mapSeenVotes => exact ⟨h.items, h.orphans, h.valid, h.immature⟩
  | hold vote hvalid =>
    refine ⟨h.items, ?_, ?_, h.immature⟩
    · intro k w hw
      rcases getElem?_insert_cases hw with ⟨rfl, rfl⟩ | hw
      · rfl
      · exact h.orphans k w hw
    · intro k w hw
      rcases getElem?_insert_cases hw with ⟨rfl, rfl⟩ | hw
      · exact hvalid
      · exact h.valid k w hw
  | release k =>
    have hsub : ∀ (k' : UInt256) (vote : V), (d.mapOrphanVotes.erase k)[k']? = some vote →
        d.mapOrphanVotes[k']? = some vote := by
      intro k' vote hvote
      rw [Std.TreeMap.getElem?_erase] at hvote
      split at hvote
      · simp at hvote
      · exact hvote
    refine ⟨h.items, ?_, ?_, h.immature⟩
    · intro k' vote hvote
      exact h.orphans k' vote (hsub k' vote hvote)
    · intro k' vote hvote
      exact h.valid k' vote (hsub k' vote hvote)
  | store k i vote hitem hvalid =>
    refine ⟨?_, h.orphans, h.valid, h.immature⟩
    intro k' i' hi'
    rcases getElem?_insert_cases hi' with ⟨rfl, rfl⟩ | hi'
    · rw [ballot.getItemHash_setVotes]
      exact h.items k i hitem
    · exact h.items k' i' hi'
  | add i hempty =>
    refine ⟨?_, h.orphans, h.valid, h.immature⟩
    intro k i' hi'
    rcases getElem?_insert_cases hi' with ⟨rfl, rfl⟩ | hi'
    · rfl
    · exact h.items k i' hi'
  | «defer» items hempty => exact ⟨h.items, h.orphans, h.valid, hempty⟩

theorem Effect.counted {d' : VoteDesk I V} (heffect : Effect ballot d d')
    (h : Counted ballot d) : Counted ballot d' := by
  cases heffect with
  | see mapSeenItems mapSeenVotes => exact h
  | hold vote hvalid => exact h
  | release k => exact h
  | store k i vote hitem hvalid =>
    intro k' i' hi' v w hw
    rcases getElem?_insert_cases hi' with ⟨rfl, rfl⟩ | hi'
    · rw [ballot.mapVotes_setVotes] at hw
      rcases getElem?_insert_cases hw with ⟨rfl, rfl⟩ | hw
      · exact hvalid
      · exact h k i hitem v w hw
    · exact h k' i' hi' v w hw
  | add i hempty =>
    intro k' i' hi' v w hw
    rcases getElem?_insert_cases hi' with ⟨rfl, rfl⟩ | hi'
    · rw [hempty] at hw
      simp at hw
    · exact h k' i' hi' v w hw
  | «defer» items hempty => exact h

theorem Effects.kept {d' : VoteDesk I V} (heffects : Effects ballot d d') (h : Kept ballot d) :
    Kept ballot d' := by
  induction heffects with
  | refl => exact h
  | tail _ heffect ih => exact heffect.kept ih

theorem Effects.counted {d' : VoteDesk I V} (heffects : Effects ballot d d')
    (h : Counted ballot d) : Counted ballot d' := by
  induction heffects with
  | refl => exact h
  | tail _ heffect ih => exact heffect.counted ih

theorem addOrUpdateVote_eq_ok {nTime : Int} {vote : V} {i' : I}
    (h : ballot.addOrUpdateVote nTime i vote = .ok i') :
    i' = ballot.setVotes i ((ballot.mapVotes i).insert (ballot.voterKey vote) vote) := by
  simp only [Ballot.addOrUpdateVote, Checks.bind_eq_ok] at h
  obtain ⟨-, -, -, -, heq⟩ := h
  exact (Except.ok.inj heq).symm

theorem effects_update {fFrom : Bool} {vote : V} (hvalid : ballot.fValid vote = true) :
    Effects ballot d (d.update ballot env fFrom vote).1 := by
  rw [update]
  split
  · split
    · exact .single (.hold vote hvalid)
    · exact .refl
  · rename_i i hitem
    split
    · exact .refl
    · rename_i i' hadd
      rw [addOrUpdateVote_eq_ok hadd]
      exact .single (.store _ i vote hitem hvalid)

theorem effects_processVote (d : VoteDesk I V) (vote : V) :
    Effects ballot d (d.processVote ballot env vote) := by
  have hvalid := ballot.fValid_setValid true vote
  rw [processVote]
  split
  · exact .refl
  · split
    · exact .refl
    · split
      · exact .refl
      · split
        · exact .single (.see _ _)
        · exact .trans (.single (.see d.mapSeenItems _)) (effects_update hvalid)

theorem effects_deliver (d : VoteDesk I V) (votes : List (DeskEnv I V × V)) :
    Effects ballot d (d.deliver ballot votes) := by
  induction votes generalizing d with
  | nil => exact .refl
  | cons p votes ih => exact .trans (effects_processVote d p.2) (ih _)

theorem effects_addItem (hempty : ballot.mapVotes i = ∅) :
    Effects ballot d (d.addItem ballot env i) := by
  rw [addItem]
  split
  · exact .refl
  · split
    · exact .refl
    · exact .single (.add i hempty)

theorem vecImmature_addItem (d : VoteDesk I V) (i : I) :
    (d.addItem ballot env i).vecImmature = d.vecImmature := by
  rw [addItem]
  split
  · rfl
  · split
    · rfl
    · rfl

theorem addItem_item {k : UInt256} {i' : I} (h : d.mapItems[k]? = some i') :
    (d.addItem ballot env i).mapItems[k]? = some i' := by
  rw [addItem]
  split
  · exact h
  · split
    · exact h
    · rename_i hnew
      rw [getElem?_insert_ne, h]
      intro hk
      rw [Std.TreeMap.contains_eq_isSome_getElem?, hk, h] at hnew
      simp at hnew

theorem addItem_cases {k : UInt256} {i' : I} (hempty : ballot.mapVotes i = ∅)
    (h : (d.addItem ballot env i).mapItems[k]? = some i') :
    d.mapItems[k]? = some i' ∨ ballot.mapVotes i' = ∅ := by
  rw [addItem] at h
  split at h
  · exact .inl h
  · split at h
    · exact .inl h
    · rcases getElem?_insert_cases h with ⟨-, rfl⟩ | h
      · exact .inr hempty
      · exact .inl h

theorem effects_acceptItem (hkept : Kept ballot d) (hempty : ballot.mapVotes i = ∅) :
    Effects ballot d (d.acceptItem ballot env i).1 := by
  rw [acceptItem]
  split
  · exact .refl
  · split
    · exact .refl
    · split
      · dsimp only
        split
        · apply Relation.ReflTransGen.single
          apply Effect.defer
          intro i' hi'
          rcases List.mem_append.mp hi' with hi' | hi'
          · exact hkept.immature i' hi'
          · rw [List.mem_singleton.mp hi', hempty]
        · exact .refl
      · split
        · exact .single (.see _ _)
        · exact .trans (.single (.see _ _)) (effects_addItem hempty)

theorem effects_checkOrphanVote {it : UInt256 × V} (hvalid : ballot.fValid it.2 = true) :
    Effects ballot d (checkOrphanVote ballot env d it) := by
  rcases checkOrphanVote_cases ballot env d it with heq | ⟨i, i', hitem, hadd, heq⟩
  · rw [heq]
  · rw [heq, addOrUpdateVote_eq_ok hadd]
    exact .trans (.single (.store _ i it.2 hitem hvalid)) (.single (.release it.1))

theorem effects_checkOrphanVotes (hkept : Kept ballot d) :
    Effects ballot d (d.checkOrphanVotes ballot env) := by
  have hvalid : ∀ it ∈ d.mapOrphanVotes.toList, ballot.fValid it.2 = true := by
    rintro ⟨k, vote⟩ hmem
    exact hkept.valid k vote (Std.TreeMap.mem_toList_iff_getElem?_eq_some.mp hmem)
  have hfold : ∀ (its : List (UInt256 × V)) (d : VoteDesk I V),
      (∀ it ∈ its, ballot.fValid it.2 = true) →
      Effects ballot d (its.foldl (checkOrphanVote ballot env) d) := by
    intro its
    induction its with
    | nil => exact fun d _ => .refl
    | cons it its ih =>
      intro d hits
      rw [List.forall_mem_cons] at hits
      exact .trans (effects_checkOrphanVote hits.1) (ih _ hits.2)
  exact hfold _ d hvalid

end VoteDesk

end AnkerNode
