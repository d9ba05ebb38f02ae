import AnkerNode.Chain.StakeKernel
import AnkerNode.Lib.Rounds

namespace AnkerNode

-- what the modifier is computed from of an entry of mapBlockIndex
structure StakeEntry where
  hash : UInt256
  nHeight : Int
  nTime : Int
  fProofOfStake : Bool
  fGeneratedStakeModifier : Bool
  nStakeModifier : UInt64
deriving DecidableEq, Repr

def StakeEntry.getStakeEntropyBit (e : StakeEntry) : UInt64 := UInt64.ofNat e.hash.toNat &&& 1

-- `hashSelection` is the hash of a proof hash with the modifier before, `stakemodifier` the address
-- that the modifier of the first block is cast from.
structure ModifierRules where
  nModifierUpdateBlock : Int
  hashSelection : UInt256 → UInt64 → UInt256
  stakemodifier : UInt64

-- a chain is listed from an entry down its pprev pointers
def getLastStakeModifier : List StakeEntry → Option (UInt64 × Int)
  | [] => none
  | e :: chain =>
    if e.fGeneratedStakeModifier then some (e.nStakeModifier, e.nTime)
    else getLastStakeModifier chain

namespace ModifierRules

variable (rules : ModifierRules) (mapBlockIndex : UInt256 → Option StakeEntry)

-- A proof-of-stake block is favored over a proof-of-work block by the shift.
def selectionHash (fModifierV2 : Bool) (nStakeModifierPrev : UInt64) (e : StakeEntry) : UInt256 :=
  let hashProof := if fModifierV2 then e.hash else if e.fProofOfStake then 0 else e.hash
  let hashSelection := rules.hashSelection hashProof nStakeModifierPrev
  if e.fProofOfStake then hashSelection >>> 32 else hashSelection

-- `fModifierV2` is unknown until the first run, `best` is the hash with the block selected so far
def selectLoop (mapSelectedBlocks : List UInt256) (nSelectionIntervalStop : Int)
    (nStakeModifierPrev : UInt64) (fModifierV2 : Option Bool) (best : Option (UInt256 × StakeEntry)) :
    List (Int × UInt256) → Option (Option (UInt256 × StakeEntry))
  | [] => some best
  | item :: items =>
    match mapBlockIndex item.2 with
    | none => none
    | some pindex =>
      if best.isSome && decide (nSelectionIntervalStop < pindex.nTime) then some best
      else
        let fV2 := fModifierV2.getD (decide (rules.nModifierUpdateBlock ≤ pindex.nHeight))
        if pindex.hash ∈ mapSelectedBlocks then
          selectLoop mapSelectedBlocks nSelectionIntervalStop nStakeModifierPrev (some fV2) best items
        else
          let hashSelection := rules.selectionHash fV2 nStakeModifierPrev pindex
          match best with
          | none =>
            selectLoop mapSelectedBlocks nSelectionIntervalStop nStakeModifierPrev (some fV2)
              (some (hashSelection, pindex)) items
          | some (hashBest, pindexSelected) =>
            if hashSelection < hashBest then
              selectLoop mapSelectedBlocks nSelectionIntervalStop nStakeModifierPrev (some fV2)
                (some (hashSelection, pindex)) items
            else
              selectLoop mapSelectedBlocks nSelectionIntervalStop nStakeModifierPrev (some fV2)
                (some (hashBest, pindexSelected)) items

def selectBlockFromCandidates (vSortedByTimestamp : List (Int × UInt256))
    (mapSelectedBlocks : List UInt256) (nSelectionIntervalStop : Int)
    (nStakeModifierPrev : UInt64) : Option StakeEntry := do
  let best ← rules.selectLoop mapBlockIndex mapSelectedBlocks nSelectionIntervalStop
    nStakeModifierPrev none none vSortedByTimestamp
  best.map Prod.snd

def selectRounds (vSortedByTimestamp : List (Int × UInt256)) (nStakeModifierPrev : UInt64) :
    Nat → Nat → Int → List UInt256 → UInt64 → Option UInt64
  | 0, _, _, _, nStakeModifierNew => some nStakeModifierNew
  | rounds + 1, nRound, nSelectionIntervalStop, mapSelectedBlocks, nStakeModifierNew => do
    let nSelectionIntervalStop :=
      nSelectionIntervalStop + getStakeModifierSelectionIntervalSection nRound
    let pindex ← rules.selectBlockFromCandidates mapBlockIndex vSortedByTimestamp mapSelectedBlocks
      nSelectionIntervalStop nStakeModifierPrev
    selectRounds vSortedByTimestamp nStakeModifierPrev rounds (nRound + 1) nSelectionIntervalStop
      (pindex.hash :: mapSelectedBlocks)
      (nStakeModifierNew ||| pindex.getStakeEntropyBit <<< UInt64.ofNat nRound)

def earlier (a b : Int × UInt256) : Bool := decide (a.1 < b.1) || (a.1 == b.1 && decide (a.2 ≤ b.2))

def selectionIntervalStart (pindexPrev : StakeEntry) : Int :=
  pindexPrev.nTime.tdiv MODIFIER_INTERVAL * MODIFIER_INTERVAL - getStakeModifierSelectionInterval

def candidates (pindexPrev : StakeEntry) (chain : List StakeEntry) : List StakeEntry :=
  (pindexPrev :: chain).takeWhile fun e => decide (selectionIntervalStart pindexPrev ≤ e.nTime)

def sortedByTimestamp (pindexPrev : StakeEntry) (chain : List StakeEntry) : List (Int × UInt256) :=
  ((candidates pindexPrev chain).map fun e => (e.nTime, e.hash)).reverse.mergeSort earlier

-- The chain is empty for the genesis block, which has no previous one.
def computeNextStakeModifier : List StakeEntry → Option (UInt64 × Bool)
  | [] => some (0, true)
  | pindexPrev :: chain =>
    if pindexPrev.nHeight = 0 then some (rules.stakemodifier, true)
    else do
      let (nStakeModifier, nModifierTime) ← getLastStakeModifier (pindexPrev :: chain)
      if pindexPrev.nTime.tdiv MODIFIER_INTERVAL ≤ nModifierTime.tdiv MODIFIER_INTERVAL then
        some (nStakeModifier, false)
      else
        let vSortedByTimestamp := sortedByTimestamp pindexPrev chain
        let nStakeModifierNew ← rules.selectRounds mapBlockIndex vSortedByTimestamp nStakeModifier
          (min 64 vSortedByTimestamp.length) 0 (selectionIntervalStart pindexPrev) [] 0
        some (nStakeModifierNew, true)

end ModifierRules

def StakeEntry.sortKey (e : StakeEntry) : Int × UInt256 := (e.nTime, e.hash)

def StakeEntry.entropyBit (e : StakeEntry) : Bool := e.hash.getLsbD 0

-- An index of a chain: every entry is found under its hash, at a height of its own.
structure IndexedChain (mapBlockIndex : UInt256 → Option StakeEntry) (chain : List StakeEntry) :
    Prop where
  indexed : ∀ e ∈ chain, mapBlockIndex e.hash = some e
  descending : chain.Pairwise fun a b => b.nHeight < a.nHeight

namespace ModifierRules

variable {rules : ModifierRules} {mapBlockIndex mapBlockIndex' : UInt256 → Option StakeEntry}

def usesV2 (rules : ModifierRules) (order : List StakeEntry) : Bool :=
  order.head?.any fun e => decide (rules.nModifierUpdateBlock ≤ e.nHeight)

-- the interval stop of a round
def stopAt (start : Int) (nRound : Nat) : Int :=
  start + ((List.range (nRound + 1)).map getStakeModifierSelectionIntervalSection).sum

section Select

variable {order : List StakeEntry} {selected : List UInt256} {stop : Int}
  {nStakeModifierPrev : UInt64}

theorem selectLoop_eq_pick (horder : ∀ e ∈ order, mapBlockIndex e.hash = some e) (fV2 : Bool)
    (best : Option (UInt256 × StakeEntry)) :
    rules.selectLoop mapBlockIndex selected stop nStakeModifierPrev (some fV2) best
        (order.map StakeEntry.sortKey) =
      some (Rounds.pick StakeEntry.nTime (rules.selectionHash fV2 nStakeModifierPrev)
        (fun e => decide (e.hash ∈ selected)) stop best order) := by
  induction order generalizing best with
  | nil => rfl
  | cons e order ih =>
    rw [List.forall_mem_cons] at horder
    rw [List.map_cons, selectLoop, Rounds.pick_cons]
    simp only [StakeEntry.sortKey, horder.1, Option.getD_some, decide_eq_true_eq]
    split
    · rfl
    · split
      · exact ih horder.2 best
      · cases best with
        | none => exact ih horder.2 _
        | some b =>
          dsimp only
          split
          · exact ih horder.2 _
          · exact ih horder.2 _

-- The first candidate settles which proof hashes the round uses.
theorem selectLoop_eq (horder : ∀ e ∈ order, mapBlockIndex e.hash = some e) :
    rules.selectLoop mapBlockIndex selected stop nStakeModifierPrev none none
        (order.map StakeEntry.sortKey) =
      some (Rounds.pick StakeEntry.nTime
        (rules.selectionHash (rules.usesV2 order) nStakeModifierPrev)
        (fun e => decide (e.hash ∈ selected)) stop none order) := by
  rw [← selectLoop_eq_pick horder]
  cases order with
  | nil => rfl
  | cons e order =>
    have he := horder e List.mem_cons_self
    simp only [List.map_cons, selectLoop, StakeEntry.sortKey, he, usesV2, Option.getD_none,
      Option.getD_some, List.head?_cons, Option.any_some]

theorem selectBlockFromCandidates_eq (rules : ModifierRules) (stop : Int)
    (nStakeModifierPrev : UInt64) (horder : ∀ e ∈ order, mapBlockIndex e.hash = some e)
    (hsorted : order.Pairwise fun a b => a.nTime ≤ b.nTime)
    (hfresh : ∃ e ∈ order, decide (e.hash ∈ selected) = false) :
    ∃ e, rules.selectBlockFromCandidates mapBlockIndex (order.map StakeEntry.sortKey) selected stop
        nStakeModifierPrev = some e ∧
      Rounds.Picked StakeEntry.nTime (rules.selectionHash (rules.usesV2 order) nStakeModifierPrev)
        (fun e => decide (e.hash ∈ selected)) stop order e := by
  obtain ⟨e, hpick, hpicked⟩ := Rounds.pick_none
    (rules.selectionHash (rules.usesV2 order) nStakeModifierPrev)
    (fun e => decide (e.hash ∈ selected)) stop hsorted hfresh
  refine ⟨e, ?_, hpicked⟩
  rw [selectBlockFromCandidates, selectLoop_eq horder, hpick]
  rfl

end Select

section Bits

theorem testBit_getStakeEntropyBit (e : StakeEntry) (k : Nat) :
    e.getStakeEntropyBit.toNat.testBit k = (decide (k = 0) && e.entropyBit) := by
  rw [StakeEntry.getStakeEntropyBit, UInt64.toNat_and, UInt64.toNat_ofNat', Nat.testBit_and,
    Nat.testBit_mod_two_pow]
  cases k with
  | zero =>
    rw [StakeEntry.entropyBit, ← BitVec.testBit_toNat]
    simp
  | succ k =>
    have hone : Nat.testBit (1 : UInt64).toNat (k + 1) = false := by
      rw [show (1 : UInt64).toNat = 1 from rfl]
      simp [Nat.testBit_add_one]
    rw [hone]
    simp

theorem testBit_addBit (nStakeModifier : UInt64) (e : StakeEntry) {nRound : Nat} (h : nRound < 64)
    (r : Nat) : (nStakeModifier ||| e.getStakeEntropyBit <<< UInt64.ofNat nRound).toNat.testBit r =
      (nStakeModifier.toNat.testBit r || (decide (r = nRound) && e.entropyBit)) := by
  have hshift : (UInt64.ofNat nRound).toNat % 64 = nRound := by
    rw [UInt64.toNat_ofNat']
    omega
  rw [UInt64.toNat_or, UInt64.toNat_shiftLeft, Nat.testBit_or, Nat.testBit_mod_two_pow,
    hshift, Nat.testBit_shiftLeft, testBit_getStakeEntropyBit]
  congr 1
  by_cases hr : r = nRound
  · subst hr
    simp [h]
  · by_cases hge : nRound ≤ r
    · have hpos : r - nRound ≠ 0 := by omega
      simp [hr, hpos]
    · simp [hr, hge]

end Bits

section Run

variable {order chosen : List StakeEntry} {selected : List UInt256} {stop start : Int}
  {nStakeModifierPrev nStakeModifierNew : UInt64}

-- The state after some rounds, told by the blocks chosen in them.
structure Progress (rules : ModifierRules) (order : List StakeEntry) (nStakeModifierPrev : UInt64)
    (start : Int) (chosen : List StakeEntry) (stop : Int) (selected : List UInt256)
    (nStakeModifierNew : UInt64) : Prop where
  choice : Rounds.Chosen StakeEntry.nTime
    (rules.selectionHash (rules.usesV2 order) nStakeModifierPrev) (stopAt start) order chosen
  interval : stop =
    start + ((List.range chosen.length).map getStakeModifierSelectionIntervalSection).sum
  hashes : ∀ e ∈ order, e.hash ∈ selected ↔ e ∈ chosen
  bits : ∀ r, nStakeModifierNew.toNat.testBit r = chosen[r]?.any StakeEntry.entropyBit

theorem progress_nil (rules : ModifierRules) (order : List StakeEntry) (nStakeModifierPrev : UInt64)
    (start : Int) : Progress rules order nStakeModifierPrev start [] start [] 0 := by
  refine ⟨Rounds.chosen_nil, ?_, ?_, ?_⟩
  · simp
  · simp
  · simp

theorem Progress.step (horder : ∀ e ∈ order, mapBlockIndex e.hash = some e) (hnodup : order.Nodup)
    (hsorted : order.Pairwise fun a b => a.nTime ≤ b.nTime)
    (h : Progress rules order nStakeModifierPrev start chosen stop selected nStakeModifierNew)
    (hroom : chosen.length < order.length) (h64 : chosen.length < 64) :
    ∃ e, rules.selectBlockFromCandidates mapBlockIndex (order.map StakeEntry.sortKey) selected
        (stop + getStakeModifierSelectionIntervalSection chosen.length) nStakeModifierPrev = some e ∧
      Progress rules order nStakeModifierPrev start (chosen ++ [e])
        (stop + getStakeModifierSelectionIntervalSection chosen.length) (e.hash :: selected)
        (nStakeModifierNew ||| e.getStakeEntropyBit <<< UInt64.ofNat chosen.length) := by
  have hnext : stop + getStakeModifierSelectionIntervalSection chosen.length =
      stopAt start chosen.length := by
    rw [stopAt, List.range_succ, List.map_append, List.sum_append, h.interval]
    simp [Int.add_assoc]
  have htaken : ∀ e ∈ order, decide (e.hash ∈ selected) = decide (e ∈ chosen) :=
    fun e he => decide_eq_decide.mpr (h.hashes e he)
  obtain ⟨e₀, he₀, hfresh⟩ := Rounds.exists_fresh hnodup hroom
  obtain ⟨e, hselect, hpicked⟩ := selectBlockFromCandidates_eq rules
    (stop + getStakeModifierSelectionIntervalSection chosen.length) nStakeModifierPrev horder hsorted
    ⟨e₀, he₀, (htaken e₀ he₀).trans hfresh⟩
  refine ⟨e, hselect, ?_, ?_, ?_, ?_⟩
  · rw [hnext] at hpicked
    exact h.choice.concat (hpicked.congr htaken)
  · rw [hnext, stopAt, List.length_append, List.length_singleton]
  · intro b hb
    have hsame : b.hash = e.hash ↔ b = e := by
      refine ⟨fun heq => ?_, fun heq => by rw [heq]⟩
      have hbe := horder b hb
      rw [heq, horder e hpicked.mem] at hbe
      exact (Option.some.inj hbe).symm
    rw [List.mem_cons, List.mem_append, List.mem_singleton, h.hashes b hb, hsame, or_comm]
  · intro r
    rw [testBit_addBit nStakeModifierNew e h64, h.bits]
    rcases Nat.lt_trichotomy r chosen.length with hlt | rfl | hgt
    · rw [List.getElem?_append_left hlt]
      simp [Nat.ne_of_lt hlt]
    · rw [List.getElem?_append_right (Nat.le_refl _), List.getElem?_eq_none (Nat.le_refl _)]
      simp
    · rw [List.getElem?_eq_none (by omega), List.getElem?_eq_none (by simp; omega)]
      simp [Nat.ne_of_gt hgt]

theorem Progress.run (horder : ∀ e ∈ order, mapBlockIndex e.hash = some e) (hnodup : order.Nodup)
    (hsorted : order.Pairwise fun a b => a.nTime ≤ b.nTime) (rounds : Nat)
    (h : Progress rules order nStakeModifierPrev start chosen stop selected nStakeModifierNew)
    (hroom : chosen.length + rounds ≤ order.length) (h64 : chosen.length + rounds ≤ 64) :
    ∃ chosen' stop' selected' nStakeModifierNew',
      rules.selectRounds mapBlockIndex (order.map StakeEntry.sortKey) nStakeModifierPrev rounds
          chosen.length stop selected nStakeModifierNew = some nStakeModifierNew' ∧
        chosen'.length = chosen.length + rounds ∧
        Progress rules order nStakeModifierPrev start chosen' stop' selected'
          nStakeModifierNew' := by
  induction rounds generalizing chosen stop selected nStakeModifierNew with
  | zero => exact ⟨chosen, stop, selected, nStakeModifierNew, rfl, rfl, h⟩
  | succ rounds ih =>
    obtain ⟨e, hselect, hnext⟩ := h.step horder hnodup hsorted (by omega) (by omega)
    have hlength : (chosen ++ [e]).length = chosen.length + 1 := by simp
    obtain ⟨chosen', stop', selected', nStakeModifierNew', hrun, hlen, hfinal⟩ :=
      ih hnext (by omega) (by omega)
    refine ⟨chosen', stop', selected', nStakeModifierNew', ?_, by omega, hfinal⟩
    rw [selectRounds, hselect]
    rw [hlength] at hrun
    exact hrun

end Run

section Order

variable {pindexPrev : StakeEntry} {chain : List StakeEntry}

theorem earlier_trans (a b c : Int × UInt256) (hab : earlier a b = true) (hbc : earlier b c = true) :
    earlier a c = true := by
  simp only [earlier, Bool.or_eq_true, Bool.and_eq_true, decide_eq_true_eq, beq_iff_eq] at *
  rcases hab with hab | ⟨hab, hab'⟩
  · rcases hbc with hbc | ⟨hbc, -⟩
    · exact Or.inl (by omega)
    · exact Or.inl (by omega)
  · rcases hbc with hbc | ⟨hbc, hbc'⟩
    · exact Or.inl (by omega)
    · exact Or.inr ⟨by omega, BitVec.le_trans hab' hbc'⟩

theorem earlier_total (a b : Int × UInt256) : (earlier a b || earlier b a) = true := by
  simp only [earlier, Bool.or_eq_true, Bool.and_eq_true, decide_eq_true_eq, beq_iff_eq]
  rcases Int.lt_trichotomy a.1 b.1 with hlt | heq | hgt
  · exact Or.inl (Or.inl hlt)
  · rcases BitVec.le_total a.2 b.2 with hle | hle
    · exact Or.inl (Or.inr ⟨heq, hle⟩)
    · exact Or.inr (Or.inr ⟨heq.symm, hle⟩)
  · exact Or.inr (Or.inl hgt)

theorem time_le_of_earlier {a b : StakeEntry} (h : earlier a.sortKey b.sortKey = true) :
    a.nTime ≤ b.nTime := by
  rw [earlier, Bool.or_eq_true, Bool.and_eq_true, beq_iff_eq] at h
  rcases h with hlt | ⟨heq, -⟩
  · exact Int.le_of_lt (of_decide_eq_true hlt)
  · exact Int.le_of_eq heq

-- The sorted keys are those of the candidates in some order of their times.
theorem exists_order (hindexed : ∀ e ∈ pindexPrev :: chain, mapBlockIndex e.hash = some e) :
    ∃ order : List StakeEntry, order.Perm (candidates pindexPrev chain) ∧
      order.map StakeEntry.sortKey = sortedByTimestamp pindexPrev chain ∧
      order.Pairwise fun a b => earlier a.sortKey b.sortKey = true := by
  have hperm : (sortedByTimestamp pindexPrev chain).Perm
      ((candidates pindexPrev chain).map StakeEntry.sortKey) :=
    (List.mergeSort_perm _ _).trans (List.reverse_perm _)
  have hsub : ∀ e ∈ candidates pindexPrev chain, mapBlockIndex e.hash = some e :=
    fun e he => hindexed e (List.takeWhile_subset _ he)
  have hback : ((candidates pindexPrev chain).map StakeEntry.sortKey).filterMap
      (fun p => mapBlockIndex p.2) = candidates pindexPrev chain := by
    rw [List.filterMap_map]
    have hsome : (candidates pindexPrev chain).filterMap
        ((fun p : Int × UInt256 => mapBlockIndex p.2) ∘ StakeEntry.sortKey) =
        (candidates pindexPrev chain).filterMap some :=
      List.filterMap_congr fun e he => hsub e he
    rw [hsome, List.filterMap_some]
  have hkeys : ∀ p ∈ sortedByTimestamp pindexPrev chain,
      (mapBlockIndex p.2).map StakeEntry.sortKey = some p := by
    intro p hp
    obtain ⟨e, he, rfl⟩ := List.mem_map.mp (hperm.subset hp)
    rw [show (StakeEntry.sortKey e).2 = e.hash from rfl, hsub e he]
    rfl
  have hmap : ((sortedByTimestamp pindexPrev chain).filterMap fun p => mapBlockIndex p.2).map
      StakeEntry.sortKey = sortedByTimestamp pindexPrev chain := by
    rw [List.map_filterMap]
    have hsome : (sortedByTimestamp pindexPrev chain).filterMap
        (fun p => (mapBlockIndex p.2).map StakeEntry.sortKey) =
        (sortedByTimestamp pindexPrev chain).filterMap some :=
      List.filterMap_congr hkeys
    rw [hsome, List.filterMap_some]
  refine ⟨(sortedByTimestamp pindexPrev chain).filterMap fun p => mapBlockIndex p.2, ?_, hmap, ?_⟩
  · have h := hperm.filterMap fun p => mapBlockIndex p.2
    rwa [hback] at h
  · have hsorted : (sortedByTimestamp pindexPrev chain).Pairwise fun a b => earlier a b = true :=
      List.pairwise_mergeSort earlier_trans earlier_total _
    rw [← hmap, List.pairwise_map] at hsorted
    exact hsorted

end Order

section Index

variable {order : List StakeEntry}

-- The index is only asked for the hashes of the candidates.
theorem selectLoop_congr {items : List (Int × UInt256)}
    (h : ∀ item ∈ items, mapBlockIndex item.2 = mapBlockIndex' item.2) (selected : List UInt256)
    (stop : Int) (nStakeModifierPrev : UInt64) (fModifierV2 : Option Bool)
    (best : Option (UInt256 × StakeEntry)) :
    rules.selectLoop mapBlockIndex selected stop nStakeModifierPrev fModifierV2 best items =
      rules.selectLoop mapBlockIndex' selected stop nStakeModifierPrev fModifierV2 best items := by
  induction items generalizing fModifierV2 best with
  | nil => rfl
  | cons item items ih =>
    rw [List.forall_mem_cons] at h
    simp only [selectLoop, h.1, ih h.2]

theorem selectRounds_congr {items : List (Int × UInt256)}
    (h : ∀ item ∈ items, mapBlockIndex item.2 = mapBlockIndex' item.2) (nStakeModifierPrev : UInt64)
    (rounds nRound : Nat) (stop : Int) (selected : List UInt256) (nStakeModifierNew : UInt64) :
    rules.selectRounds mapBlockIndex items nStakeModifierPrev rounds nRound stop selected
        nStakeModifierNew =
      rules.selectRounds mapBlockIndex' items nStakeModifierPrev rounds nRound stop selected
        nStakeModifierNew := by
  induction rounds generalizing nRound stop selected nStakeModifierNew with
  | zero => rfl
  | succ rounds ih =>
    simp only [selectRounds, selectBlockFromCandidates, selectLoop_congr h, ih]

theorem computeNextStakeModifier_congr {chain : List StakeEntry}
    (h : ∀ e ∈ chain, mapBlockIndex e.hash = mapBlockIndex' e.hash) :
    rules.computeNextStakeModifier mapBlockIndex chain =
      rules.computeNextStakeModifier mapBlockIndex' chain := by
  cases chain with
  | nil => rfl
  | cons pindexPrev chain =>
    have hitems : ∀ item ∈ sortedByTimestamp pindexPrev chain,
        mapBlockIndex item.2 = mapBlockIndex' item.2 := by
      intro item hitem
      rw [sortedByTimestamp, List.mem_mergeSort, List.mem_reverse, List.mem_map] at hitem
      obtain ⟨e, he, rfl⟩ := hitem
      exact h e (List.takeWhile_subset _ he)
    simp only [computeNextStakeModifier, selectRounds_congr hitems]

end Index

section Last

theorem getLastStakeModifier_isSome {chain : List StakeEntry}
    (h : ∃ e ∈ chain, e.fGeneratedStakeModifier = true) :
    ∃ nStakeModifier nModifierTime,
      getLastStakeModifier chain = some (nStakeModifier, nModifierTime) := by
  induction chain with
  | nil => simp at h
  | cons e chain ih =>
    rw [getLastStakeModifier]
    by_cases he : e.fGeneratedStakeModifier = true
    · exact ⟨_, _, if_pos he⟩
    · rw [if_neg he]
      obtain ⟨a, ha, hgen⟩ := h
      rcases List.mem_cons.mp ha with rfl | ha
      · exact absurd hgen he
      · exact ih ⟨a, ha, hgen⟩

end Last

end ModifierRules

-- What a generated modifier is made of: its rounds, in order.
structure ModifierSelection (rules : ModifierRules) (pindexPrev : StakeEntry) (chain : List StakeEntry)
    (nStakeModifier : UInt64) (order chosen : List StakeEntry) (nStakeModifierNew : UInt64) :
    Prop where
  candidates : order.Perm (ModifierRules.candidates pindexPrev chain)
  sorted : order.Pairwise fun a b => ModifierRules.earlier a.sortKey b.sortKey = true
  rounds : chosen.length = min 64 (ModifierRules.candidates pindexPrev chain).length
  choice : Rounds.Chosen StakeEntry.nTime
    (rules.selectionHash (rules.usesV2 order) nStakeModifier)
    (ModifierRules.stopAt (ModifierRules.selectionIntervalStart pindexPrev)) order chosen
  bits : ∀ r, nStakeModifierNew.toNat.testBit r = chosen[r]?.any StakeEntry.entropyBit

theorem IndexedChain.nodup_of_perm {mapBlockIndex : UInt256 → Option StakeEntry}
    {pindexPrev : StakeEntry} {chain order : List StakeEntry}
    (hchain : IndexedChain mapBlockIndex (pindexPrev :: chain))
    (hperm : order.Perm (ModifierRules.candidates pindexPrev chain)) : order.Nodup := by
  have hnodup : (pindexPrev :: chain).Nodup := hchain.descending.imp fun hab heq => by
    rw [heq] at hab
    omega
  exact hperm.nodup_iff.mpr (hnodup.sublist (List.takeWhile_sublist _))

-- A modifier that is not old enough is kept; otherwise every round finds a block.
theorem exists_nextStakeModifier (rules : ModifierRules) {mapBlockIndex : UInt256 → Option StakeEntry}
    {pindexPrev : StakeEntry} {chain : List StakeEntry}
    (hchain : IndexedChain mapBlockIndex (pindexPrev :: chain)) (hheight : 1 ≤ pindexPrev.nHeight)
    (hgenerated : ∃ e ∈ pindexPrev :: chain, e.fGeneratedStakeModifier = true) :
    ∃ result, rules.computeNextStakeModifier mapBlockIndex (pindexPrev :: chain) = some result ∧
      (result.2 = true → ∃ nStakeModifier nModifierTime order chosen,
        getLastStakeModifier (pindexPrev :: chain) = some (nStakeModifier, nModifierTime) ∧
          ModifierSelection rules pindexPrev chain nStakeModifier order chosen result.1) := by
  obtain ⟨nStakeModifier, nModifierTime, hlast⟩ :=
    ModifierRules.getLastStakeModifier_isSome hgenerated
  have hgenesis : ¬ pindexPrev.nHeight = 0 := by omega
  have hrun : rules.computeNextStakeModifier mapBlockIndex (pindexPrev :: chain) =
      if pindexPrev.nTime.tdiv MODIFIER_INTERVAL ≤ nModifierTime.tdiv MODIFIER_INTERVAL then
        some (nStakeModifier, false)
      else
        (rules.selectRounds mapBlockIndex (ModifierRules.sortedByTimestamp pindexPrev chain)
          nStakeModifier (min 64 (ModifierRules.sortedByTimestamp pindexPrev chain).length) 0
          (ModifierRules.selectionIntervalStart pindexPrev) [] 0).map fun m => (m, true) := by
    rw [ModifierRules.computeNextStakeModifier, if_neg hgenesis, hlast, Option.map_eq_bind]
    rfl
  by_cases hkept : pindexPrev.nTime.tdiv MODIFIER_INTERVAL ≤ nModifierTime.tdiv MODIFIER_INTERVAL
  · rw [if_pos hkept] at hrun
    exact ⟨_, hrun, fun hfalse => by cases hfalse⟩
  · rw [if_neg hkept] at hrun
    obtain ⟨order, hperm, hkeys, hsorted⟩ :=
      ModifierRules.exists_order hchain.indexed
    have horder : ∀ e ∈ order, mapBlockIndex e.hash = some e :=
      fun e he => hchain.indexed e (List.takeWhile_subset _ (hperm.subset he))
    have htimes : order.Pairwise fun a b => a.nTime ≤ b.nTime :=
      hsorted.imp ModifierRules.time_le_of_earlier
    have hlength : (ModifierRules.sortedByTimestamp pindexPrev chain).length = order.length := by
      rw [← hkeys, List.length_map]
    obtain ⟨chosen, stop, selected, nStakeModifierNew, hrounds, hchosen, hprogress⟩ :=
      (ModifierRules.progress_nil rules order nStakeModifier
        (ModifierRules.selectionIntervalStart pindexPrev)).run horder
        (hchain.nodup_of_perm hperm) htimes (min 64 order.length) (by simp) (by simp)
    rw [hlength, ← hkeys] at hrun
    have hrounds' := hrun.trans (congrArg (Option.map fun m => (m, true)) hrounds)
    refine ⟨(nStakeModifierNew, true), hrounds', fun _ => ⟨nStakeModifier, nModifierTime, order,
      chosen, hlast, hperm, hsorted, ?_, hprogress.choice, hprogress.bits⟩⟩
    rw [hchosen, List.length_nil, Nat.zero_add, hperm.length_eq]

theorem next_stake_modifier_selected (rules : ModifierRules)
    {mapBlockIndex : UInt256 → Option StakeEntry} {pindexPrev : StakeEntry}
    {chain : List StakeEntry} (hchain : IndexedChain mapBlockIndex (pindexPrev :: chain))
    (hheight : 1 ≤ pindexPrev.nHeight)
    (hgenerated : ∃ e ∈ pindexPrev :: chain, e.fGeneratedStakeModifier = true) :
    ∃ nStakeModifierNew fGenerated,
      rules.computeNextStakeModifier mapBlockIndex (pindexPrev :: chain) =
          some (nStakeModifierNew, fGenerated) ∧
        (fGenerated = true → ∃ nStakeModifier nModifierTime order chosen,
          getLastStakeModifier (pindexPrev :: chain) = some (nStakeModifier, nModifierTime) ∧
            ModifierSelection rules pindexPrev chain nStakeModifier order chosen nStakeModifierNew) ∧
        ∀ mapBlockIndex' : UInt256 → Option StakeEntry,
          (∀ e ∈ pindexPrev :: chain, mapBlockIndex' e.hash = some e) →
            rules.computeNextStakeModifier mapBlockIndex' (pindexPrev :: chain) =
              some (nStakeModifierNew, fGenerated) := by
  obtain ⟨result, hrun, hselect⟩ :=
    exists_nextStakeModifier rules hchain hheight hgenerated
  refine ⟨result.1, result.2, hrun, hselect, fun mapBlockIndex' hindexed => ?_⟩
  rw [← hrun]
  refine ModifierRules.computeNextStakeModifier_congr fun e he => ?_
  rw [hindexed e he, hchain.indexed e he]

section Tree

theorem branch_descending (t : RankedForest) (i : Nat) :
    (t.branch i).Pairwise fun a b => t.height b < t.height a := by
  induction i using t.branch_induction with
  | root i hp =>
    rw [RankedForest.branch_of_none hp]
    exact List.pairwise_singleton _ _
  | step i j hp ih =>
    rw [RankedForest.branch_of_some hp, List.pairwise_cons]
    refine ⟨fun a ha => ?_, ih⟩
    have hle := RankedForest.height_le_of_mem_branch ha
    have hheight := t.height_parent hp
    omega

variable (v : KernelView) (isProofOfStake : Nat → Bool)

def KernelView.stakeEntry (i : Nat) : StakeEntry where
  hash := v.index.tree.hash i
  nHeight := v.index.tree.height i
  nTime := v.getBlockTime i
  fProofOfStake := isProofOfStake i
  fGeneratedStakeModifier := v.generatedStakeModifier i
  nStakeModifier := v.nStakeModifier i

-- the branch that pprev leads down from an entry of the tree
theorem indexedChain_branch {i : Nat} (hi : i < v.index.tree.size)
    (hunique : ∀ j < v.index.tree.size, ∀ k < v.index.tree.size,
      v.index.tree.hash j = v.index.tree.hash k → j = k) :
    IndexedChain (fun hash => (v.index.tree.lookup hash).map (v.stakeEntry isProofOfStake))
      ((v.index.tree.branch i).map (v.stakeEntry isProofOfStake)) := by
  refine ⟨?_, ?_⟩
  · intro e he
    obtain ⟨j, hj, rfl⟩ := List.mem_map.mp he
    have hlt : j < v.index.tree.size :=
      Nat.lt_of_le_of_lt (RankedForest.le_of_mem_branch hj) hi
    have hlookup := BlockTree.lookup_hash hlt fun k hk hhash => hunique k hk j hlt hhash
    change (v.index.tree.lookup (v.index.tree.hash j)).map (v.stakeEntry isProofOfStake) = _
    rw [hlookup, Option.map_some]
  · rw [List.pairwise_map]
    refine (branch_descending v.index.tree.toRankedForest i).imp fun h => ?_
    exact Int.ofNat_lt.mpr h

end Tree

def entropyRules : ModifierRules where
  nModifierUpdateBlock := 0
  hashSelection := fun hashProof nStakeModifier => hashProof + BitVec.ofNat 256 nStakeModifier.toNat
  stakemodifier := 7

-- Blocks at heights 0, 1 and 2, the newest first, all of them in the interval.
def entropyChain : List StakeEntry :=
  [⟨5, 2, 130, true, false, 0⟩, ⟨4, 1, 70, false, false, 0⟩, ⟨3, 0, 10, false, true, 9⟩]

def entropyIndex (hash : UInt256) : Option StakeEntry := entropyChain.find? fun e => e.hash == hash

theorem next_stake_modifier_entropy : ∃ order chosen,
    entropyRules.computeNextStakeModifier entropyIndex entropyChain = some (5, true) ∧
      ModifierSelection entropyRules ⟨5, 2, 130, true, false, 0⟩ entropyChain.tail 9 order chosen 5 ∧
      chosen.length = 3 := by
  have hchain : IndexedChain entropyIndex entropyChain := by
    refine ⟨by decide, ?_⟩
    rw [entropyChain]
    decide
  obtain ⟨nStakeModifierNew, fGenerated, hrun, hselect, -⟩ :=
    next_stake_modifier_selected entropyRules hchain (by decide) (by decide)
  have hsorted : ModifierRules.sortedByTimestamp ⟨5, 2, 130, true, false, 0⟩ entropyChain.tail =
      [(10, 3), (70, 4), (130, 5)] := by
    rw [ModifierRules.sortedByTimestamp]
    exact List.mergeSort_of_pairwise (by decide)
  have hresult : entropyRules.computeNextStakeModifier entropyIndex entropyChain =
      some (5, true) := by
    change entropyRules.computeNextStakeModifier entropyIndex
      (⟨5, 2, 130, true, false, 0⟩ :: entropyChain.tail) = _
    rw [ModifierRules.computeNextStakeModifier, hsorted]
    decide +kernel
  rw [show (⟨5, 2, 130, true, false, 0⟩ : StakeEntry) :: _ = entropyChain from rfl, hresult] at hrun
  cases hrun
  obtain ⟨nStakeModifier, nModifierTime, order, chosen, hlast, hselection⟩ := hselect rfl
  have hnine : getLastStakeModifier entropyChain = some (9, 10) := rfl
  rw [show (⟨5, 2, 130, true, false, 0⟩ : StakeEntry) :: _ = entropyChain from rfl, hnine] at hlast
  cases hlast
  refine ⟨order, chosen, hresult, hselection, ?_⟩
  rw [hselection.rounds]
  decide

end AnkerNode
