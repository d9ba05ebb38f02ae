import AnkerNode.Lib.Ranking
import AnkerNode.Masternode.ColdStaking

namespace AnkerNode

namespace CColdStakingList

-- The pointer that `getWinningColdStaker` returns, by the key of the entry it is to.
def winningPointer (list : CColdStakingList) (env : SubsidyEnv) :
    CColdStakingList × Option UInt256 :=
  ((list.getWinningColdStaker env).1, some ((list.onNode env).winningColdStaker.getD 0))

-- calls one after another, each with the clock at that moment
def payTurns (list : CColdStakingList) : List SubsidyEnv → List (Option UInt256)
  | [] => []
  | env :: envs => (list.winningPointer env).2 :: (list.winningPointer env).1.payTurns envs

variable {list : CColdStakingList} {env : SubsidyEnv} {key : UInt256} {clsr : ColdStaker}

theorem entry_winningPointer (list : CColdStakingList) (env : SubsidyEnv) :
    ∃ key, (list.winningPointer env).2 = some key ∧
      (list.winningPointer env).1.entry key = some (list.getWinningColdStaker env).2 := by
  refine ⟨_, rfl, ?_⟩
  rw [winningPointer, getWinningColdStaker]
  cases (list.onNode env).winningColdStaker with
  | none => simp [entry_put]
  | some key => simp [entry_put]

-- Among entries that are all signed in time the scan comes to the one paid longest ago.
theorem foldl_winner_least (nTime : Int) {entries : List (UInt256 × CColdStaking)}
    (best : Option UInt256 × Int)
    (hsig : ∀ it ∈ entries, it.2.sigTime < SubsidyEnv.coldStakingExpiry + nTime) :
    let winner := entries.foldl
      (fun best it =>
        if it.2.payTime < best.2 && it.2.sigTime < SubsidyEnv.coldStakingExpiry + nTime then
          (some it.1, it.2.payTime)
        else best) best
    (winner = best ∨ ∃ it ∈ entries, winner = (some it.1, it.2.payTime)) ∧
      winner.2 ≤ best.2 ∧ ∀ it ∈ entries, winner.2 ≤ it.2.payTime := by
  induction entries generalizing best with
  | nil => simp
  | cons it entries ih =>
    rw [List.forall_mem_cons] at hsig
    simp only [List.foldl_cons, decide_eq_true hsig.1, Bool.and_true]
    split
    · rename_i hless
      rw [decide_eq_true_iff] at hless
      obtain ⟨hfrom, hle, hall⟩ := ih (some it.1, it.2.payTime) hsig.2
      refine ⟨?_, hle.trans hless.le, List.forall_mem_cons.mpr ⟨hle, hall⟩⟩
      rcases hfrom with hfrom | ⟨other, hother, hfrom⟩
      · exact .inr ⟨it, List.mem_cons_self, hfrom⟩
      · exact .inr ⟨other, List.mem_cons_of_mem it hother, hfrom⟩
    · rename_i hless
      rw [decide_eq_true_iff, not_lt] at hless
      obtain ⟨hfrom, hle, hall⟩ := ih best hsig.2
      refine ⟨?_, hle, List.forall_mem_cons.mpr ⟨hle.trans hless, hall⟩⟩
      rcases hfrom with hfrom | ⟨other, hother, hfrom⟩
      · exact .inl hfrom
      · exact .inr ⟨other, List.mem_cons_of_mem it hother, hfrom⟩

def Signed (list : CColdStakingList) (nTime : Int) : Prop :=
  ∀ k clsr, list.entry k = some clsr → clsr.sigTime < SubsidyEnv.coldStakingExpiry + nTime

theorem winner_least (hsigned : list.Signed env.nTime) :
    ∃ winner : Option UInt256 × Int, (list.onNode env).winningColdStaker = winner.1 ∧
      (winner = (none, env.nTime) ∨
        ∃ k clsr, list.entry k = some clsr ∧ winner = (some k, clsr.payTime)) ∧
      ∀ k clsr, list.entry k = some clsr → winner.2 ≤ clsr.payTime := by
  have hsig : ∀ it ∈ (list.onNode env).mapColdStaking.toList,
      it.2.sigTime < SubsidyEnv.coldStakingExpiry + env.nTime := by
    rw [toList_onNode, List.forall_mem_map]
    rintro ⟨k, clsr⟩ hmem
    exact hsigned k clsr (mem_toList.mp hmem)
  obtain ⟨hfrom, -, hall⟩ := foldl_winner_least env.nTime (none, env.nTime) hsig
  refine ⟨_, rfl, ?_, ?_⟩
  · rcases hfrom with hfrom | ⟨it, hit, hfrom⟩
    · exact .inl hfrom
    · rw [toList_onNode] at hit
      obtain ⟨⟨k, clsr⟩, hmem, rfl⟩ := List.mem_map.mp hit
      exact .inr ⟨k, clsr, mem_toList.mp hmem, hfrom⟩
  · intro k clsr hentry
    refine hall (k, clsr.toCColdStaking) ?_
    rw [toList_onNode]
    exact List.mem_map_of_mem (mem_toList.mpr hentry)

-- The entries still to be paid, the one paid longest ago first. All others have been paid since.
structure Queue (list : CColdStakingList) (waiting : List (UInt256 × ColdStaker)) : Prop where
  sorted : waiting.Pairwise fun a b => a.2.payTime < b.2.payTime
  waits : ∀ it ∈ waiting, list.entry it.1 = some it.2
  paid : ∀ k clsr, list.entry k = some clsr →
    (k, clsr) ∈ waiting ∨ ∀ it ∈ waiting, it.2.payTime < clsr.payTime

section Turn

variable {waiting : List (UInt256 × ColdStaker)}

theorem Queue.winner (h : list.Queue ((key, clsr) :: waiting)) (hsigned : list.Signed env.nTime)
    (hpast : clsr.payTime < env.nTime) : (list.onNode env).winningColdStaker = some key := by
  have hentry : list.entry key = some clsr := h.waits (key, clsr) List.mem_cons_self
  obtain ⟨winner, hwinner, hfrom, hall⟩ := winner_least hsigned
  have hleast := hall key clsr hentry
  rcases hfrom with rfl | ⟨k, other, hother, rfl⟩
  · exact absurd hpast (not_lt.mpr hleast)
  · rw [hwinner]
    rcases h.paid k other hother with hwaits | hlater
    · rcases List.mem_cons.mp hwaits with heq | hwaits
      · rw [(Prod.mk.inj heq).1]
      · have hlt := (List.pairwise_cons.mp h.sorted).1 _ hwaits
        exact absurd hlt (not_lt.mpr hleast)
    · exact absurd (hlater _ List.mem_cons_self) (not_lt.mpr hleast)

theorem Queue.winningPointer (h : list.Queue ((key, clsr) :: waiting))
    (hsigned : list.Signed env.nTime) (hpast : clsr.payTime < env.nTime) :
    list.winningPointer env = (list.put key { clsr with payTime := env.nTime }, some key) := by
  have hentry : list.entry key = some clsr := h.waits (key, clsr) List.mem_cons_self
  rw [CColdStakingList.winningPointer, getWinningColdStaker, h.winner hsigned hpast]
  simp [hentry]

theorem Queue.turn {nTime : Int} (h : list.Queue ((key, clsr) :: waiting))
    (hpast : ∀ it ∈ waiting, it.2.payTime < nTime) :
    (list.put key { clsr with payTime := nTime }).Queue waiting := by
  obtain ⟨hfirst, hsorted⟩ := List.pairwise_cons.mp h.sorted
  refine ⟨hsorted, ?_, ?_⟩
  · intro it hit
    rw [entry_put, if_neg]
    · exact h.waits it (List.mem_cons_of_mem _ hit)
    · intro heq
      have hsame := h.waits it (List.mem_cons_of_mem _ hit)
      rw [← heq, h.waits (key, clsr) List.mem_cons_self, Option.some.injEq] at hsame
      exact absurd (hfirst it hit) (by rw [← hsame]; exact lt_irrefl _)
  · intro k other hother
    rw [entry_put] at hother
    split at hother
    · exact .inr (by rw [← Option.some.inj hother]; exact hpast)
    · rename_i hk
      rcases h.paid k other hother with hwaits | hlater
      · rcases List.mem_cons.mp hwaits with heq | hwaits
        · exact absurd (Prod.mk.inj heq).1.symm hk
        · exact .inl hwaits
      · exact .inr fun it hit => hlater it (List.mem_cons_of_mem _ hit)

theorem Signed.put {nTime nTime' payTime : Int} (h : list.Signed nTime)
    (hentry : list.entry key = some clsr) (hlater : nTime ≤ nTime') :
    (list.put key { clsr with payTime := payTime }).Signed nTime' := by
  have hmono : ∀ sigTime, sigTime < SubsidyEnv.coldStakingExpiry + nTime →
      sigTime < SubsidyEnv.coldStakingExpiry + nTime' := by
    intro sigTime hsig
    omega
  intro k other hother
  rw [entry_put] at hother
  split at hother
  · rw [← Option.some.inj hother]
    exact hmono _ (h key clsr hentry)
  · exact hmono _ (h k other hother)

theorem payTurns_of_queue {envs : List SubsidyEnv} (h : list.Queue waiting)
    (hlength : envs.length = waiting.length)
    (hclock : envs.Pairwise fun a b => a.nTime < b.nTime)
    (hpast : ∀ env ∈ envs, ∀ it ∈ waiting, it.2.payTime < env.nTime)
    (hsigned : ∀ env ∈ envs, list.Signed env.nTime) :
    list.payTurns envs = waiting.map fun it => some it.1 := by
  induction waiting generalizing list envs with
  | nil =>
    rw [List.length_eq_zero_iff.mp hlength]
    rfl
  | cons it waiting ih =>
    obtain ⟨key, clsr⟩ := it
    cases envs with
    | nil => simp at hlength
    | cons env envs =>
      rw [List.forall_mem_cons] at hpast hsigned
      obtain ⟨hlater, hclock⟩ := List.pairwise_cons.mp hclock
      have hnow : ∀ it ∈ waiting, it.2.payTime < env.nTime :=
        fun it hit => hpast.1 it (List.mem_cons_of_mem _ hit)
      have hpointer := h.winningPointer hsigned.1 (hpast.1 _ List.mem_cons_self)
      have hentry : list.entry key = some clsr := h.waits (key, clsr) List.mem_cons_self
      rw [payTurns, hpointer, List.map_cons]
      refine congrArg (some key :: ·) (ih (h.turn hnow) (by simpa using hlength) hclock ?_ ?_)
      · exact fun env hmem it hit => hpast.2 env hmem it (List.mem_cons_of_mem _ hit)
      · exact fun env' hmem => hsigned.1.put hentry (hlater env' hmem).le

end Turn

-- every entry in the order in which it was paid last
theorem exists_queue (list : CColdStakingList)
    (hdistinct : ∀ k clsr k' clsr', list.entry k = some clsr → list.entry k' = some clsr' →
      clsr.payTime = clsr'.payTime → k = k') :
    ∃ waiting : List (UInt256 × ColdStaker), waiting.Perm list.mapColdStaking.toList ∧
      list.Queue waiting := by
  obtain ⟨waiting, hsorts, -⟩ :=
    Ranking.exists_stable (fun it : UInt256 × ColdStaker => -it.2.payTime)
      list.mapColdStaking.toList
  have hmem : ∀ it ∈ waiting, list.entry it.1 = some it.2 :=
    fun it hit => mem_toList.mp (hsorts.perm.mem_iff.mp hit)
  have hkeys : waiting.Pairwise fun a b => a.1 ≠ b.1 := by
    refine (List.Perm.pairwise_iff (fun h => Ne.symm h) hsorts.perm).mpr ?_
    exact Std.TreeMap.distinct_keys_toList.imp fun h heq => h (by simp [heq])
  refine ⟨waiting, hsorts.perm, ?_, hmem, ?_⟩
  · refine (List.pairwise_iff_getElem.mpr fun i j hi hj hij => ?_)
    have hle := List.pairwise_iff_getElem.mp hsorts.ordered i j hi hj hij
    have hne := List.pairwise_iff_getElem.mp hkeys i j hi hj hij
    rw [Ranking.higher, decide_eq_false_iff_not] at hle
    refine lt_of_le_of_ne (by omega) fun heq => hne ?_
    exact hdistinct _ _ _ _ (hmem _ (List.getElem_mem hi)) (hmem _ (List.getElem_mem hj)) heq
  · exact fun k clsr hentry => .inl (hsorts.perm.mem_iff.mpr (mem_toList.mpr hentry))

theorem winningPointer_null_iff (list : CColdStakingList) (env : SubsidyEnv) :
    ((∀ k clsr, list.entry k = some clsr → ¬Eligible env.nTime clsr) →
        list.winningPointer env = (list, none)) ↔
      ∃ k clsr, list.entry k = some clsr ∧ Eligible env.nTime clsr := by
  constructor
  · intro h
    by_contra hnone
    have hnull := h fun k clsr hentry heligible => hnone ⟨k, clsr, hentry, heligible⟩
    obtain ⟨key, hkey, -⟩ := entry_winningPointer list env
    rw [hnull] at hkey
    cases hkey
  · rintro ⟨k, clsr, hentry, heligible⟩ hnone
    exact absurd heligible (hnone k clsr hentry)

theorem cold_stakers_paid_in_turn (list : CColdStakingList) (envs : List SubsidyEnv)
    (env : SubsidyEnv) :
    (envs.length = list.mapColdStaking.size →
      envs.Pairwise (fun a b => a.nTime < b.nTime) →
      (∀ k clsr k' clsr', list.entry k = some clsr → list.entry k' = some clsr' →
        clsr.payTime = clsr'.payTime → k = k') →
      (∀ env ∈ envs, ∀ k clsr, list.entry k = some clsr →
        clsr.payTime < env.nTime ∧ clsr.sigTime < SubsidyEnv.coldStakingExpiry + env.nTime) →
      ∃ winners : List (UInt256 × ColdStaker), winners.Perm list.mapColdStaking.toList ∧
        winners.Pairwise (fun a b => a.1 ≠ b.1 ∧ a.2.payTime < b.2.payTime) ∧
        list.payTurns envs = winners.map fun it => some it.1) ∧
    (((∀ k clsr, list.entry k = some clsr → ¬Eligible env.nTime clsr) →
        list.winningPointer env = (list, none)) ↔
      ∃ k clsr, list.entry k = some clsr ∧ Eligible env.nTime clsr) := by
  refine ⟨?_, winningPointer_null_iff list env⟩
  intro hlength hclock hdistinct hentries
  obtain ⟨winners, hperm, hqueue⟩ := exists_queue list hdistinct
  have hpast : ∀ env ∈ envs, ∀ it ∈ winners, it.2.payTime < env.nTime :=
    fun env hmem it hit => (hentries env hmem it.1 it.2 (hqueue.waits it hit)).1
  refine ⟨winners, hperm, ?_, payTurns_of_queue hqueue ?_ hclock hpast ?_⟩
  · refine hqueue.sorted.imp_of_mem fun {a b} ha hb hlt => ⟨fun heq => ?_, hlt⟩
    have hsame := hqueue.waits a ha
    rw [heq, hqueue.waits b hb, Option.some.injEq] at hsame
    exact absurd hlt (by rw [hsame]; exact lt_irrefl _)
  · rw [hlength, hperm.length_eq, Std.TreeMap.length_toList]
  · exact fun env hmem k clsr hentry => (hentries env hmem k clsr hentry).2

def stakerPaid (payTime : Int) : ColdStaker := { vin := CTxIn.null, payTime := payTime }

def clockEnv (nTime : Int) : SubsidyEnv where
  nTime := nTime
  vMasternodes := []
  isEnabled _ := true
  calculateScore _ := 1

def twoStakers : CColdStakingList :=
  ⟨((∅ : Std.TreeMap UInt256 ColdStaker).insert 1 (stakerPaid 30)).insert 2 (stakerPaid 10)⟩

theorem cold_stakers_paid_in_turn_two :
    ∃ winners : List (UInt256 × ColdStaker), winners.Perm twoStakers.mapColdStaking.toList ∧
      winners.Pairwise (fun a b => a.1 ≠ b.1 ∧ a.2.payTime < b.2.payTime) ∧
      twoStakers.payTurns [clockEnv 40, clockEnv 50] = winners.map fun it => some it.1 := by
  have hentries : ∀ k clsr, twoStakers.entry k = some clsr →
      (k, clsr) ∈ [((1 : UInt256), stakerPaid 30), (2, stakerPaid 10)] := by
    intro k clsr hentry
    have hlist : twoStakers.mapColdStaking.toList =
        [((1 : UInt256), stakerPaid 30), (2, stakerPaid 10)] := by decide +kernel
    rw [← hlist]
    exact mem_toList.mpr hentry
  refine (cold_stakers_paid_in_turn twoStakers [clockEnv 40, clockEnv 50] (clockEnv 40)).1
    (by decide +kernel) (by simp [clockEnv]) ?_ ?_
  · intro k clsr k' clsr' hentry hentry' heq
    have hmem := hentries k clsr hentry
    have hmem' := hentries k' clsr' hentry'
    simp only [List.mem_cons, Prod.mk.injEq, List.not_mem_nil, or_false] at hmem hmem'
    rcases hmem with ⟨rfl, rfl⟩ | ⟨rfl, rfl⟩
    · rcases hmem' with ⟨rfl, rfl⟩ | ⟨rfl, rfl⟩
      · rfl
      · cases heq
    · rcases hmem' with ⟨rfl, rfl⟩ | ⟨rfl, rfl⟩
      · cases heq
      · rfl
  · intro env hmem k clsr hentry
    have hfacts : ∀ it ∈ [((1 : UInt256), stakerPaid 30), (2, stakerPaid 10)],
        it.2.payTime < 40 ∧ it.2.sigTime < SubsidyEnv.coldStakingExpiry + 40 := by decide
    have hfact := hfacts _ (hentries k clsr hentry)
    simp only [List.mem_cons, List.not_mem_nil, or_false] at hmem
    rcases hmem with rfl | rfl
    · exact hfact
    · exact ⟨hfact.1.trans (by decide), hfact.2.trans (by decide)⟩

-- Nobody is registered, and a pointer to a new entry is returned.
theorem cold_stakers_never_null :
    ¬((∀ k clsr, ({} : CColdStakingList).entry k = some clsr → ¬Eligible 40 clsr) →
        ({} : CColdStakingList).winningPointer (clockEnv 40) = ({}, none)) ∧
      (({} : CColdStakingList).winningPointer (clockEnv 40)).2 = some 0 ∧
      (({} : CColdStakingList).winningPointer (clockEnv 40)).1.entry 0 = some (blankEntry 40) := by
  have hpointer : (({} : CColdStakingList).winningPointer (clockEnv 40)).2 = some 0 := by
    decide +kernel
  refine ⟨fun h => ?_, hpointer, by decide +kernel⟩
  rw [h fun k clsr hentry => by cases Std.TreeMap.getElem?_emptyc.symm.trans hentry] at hpointer
  cases hpointer

end CColdStakingList

-- what a C++ run is not defined beyond
inductive ColdStakingFault
  | outOfRange (n size : Nat)
  | erased (key : UInt256)
deriving DecidableEq, Repr

namespace CColdStakingList

variable (hashes : ColdStakingHashes) (list : CColdStakingList)

-- the rest of `FindorAdd` once the output has been read
def register (env : ColdStakingEnv) (vin : CTxIn) (sigTime payTime : Int) (out : CTxOut) :
    CColdStakingList :=
  if out.nValue = 1000 * COIN then
    if env.pcoinsTip.haveCoins vin.prevout.hash then
      let clsr := newEntry hashes vin sigTime payTime out.scriptPubKey
      ⟨list.mapColdStaking.insertIfNew (clsr.getHash hashes) clsr⟩
    else list
  else list

-- `FindorAdd` with its read of `vout` checked
def findOrAddChecked (env : ColdStakingEnv) (vin : CTxIn) (sigTime payTime : Int) :
    Except ColdStakingFault CColdStakingList :=
  match list.entryOf vin with
  | some (key, clsr) =>
    .ok (if env.threeMonthsLast < clsr.sigTime then list.deleteHash key
      else list.put key { clsr with payTime := payTime })
  | none =>
    if env.threeMonthsLast < sigTime then .ok list
    else
      match env.getTransaction vin.prevout.hash with
      | none => .ok list
      | some tx =>
        match tx.vout[vin.prevout.n.toNat]? with
        | none => .error (.outOfRange vin.prevout.n.toNat tx.vout.length)
        | some out => .ok (list.register hashes env vin sigTime payTime out)

-- `BOOST_FOREACH` of `CheckOld`: the step to the next entry starts at the entry just read, which
-- must still be there.
def checkOldFrom (nTime : Int) :
    List (UInt256 × ColdStaker) → CColdStakingList → Except ColdStakingFault CColdStakingList
  | [], list => .ok list
  | it :: its, list =>
    let list := if SubsidyEnv.coldStakingExpiry + nTime < it.2.sigTime then list.deleteHash it.1
      else list
    if (list.entry it.1).isSome then checkOldFrom nTime its list else .error (.erased it.1)

def checkOldChecked (nTime : Int) : Except ColdStakingFault CColdStakingList :=
  checkOldFrom nTime list.mapColdStaking.toList list

-- The read of `vout` is not reached, or reached with an index inside.
def ReadsInside (env : ColdStakingEnv) (vin : CTxIn) (sigTime : Int) : Prop :=
  (∃ k clsr, list.entry k = some clsr ∧ clsr.vin = vin) ∨ env.threeMonthsLast < sigTime ∨
    ∀ tx, env.getTransaction vin.prevout.hash = some tx →
      vin.prevout.n.toNat < tx.vout.length

-- One pass comes to its end and leaves the entries signed within the last three months.
def DropsOld (nTime : Int) : Prop :=
  ∃ list', list.checkOldChecked nTime = .ok list' ∧ ∀ k clsr, list'.entry k = some clsr ↔
    list.entry k = some clsr ∧ ¬clsr.sigTime + SubsidyEnv.coldStakingExpiry < nTime

variable {hashes list} {env : ColdStakingEnv} {vin : CTxIn} {sigTime payTime nTime : Int}

theorem findOrAdd_of_checked {list' : CColdStakingList}
    (h : list.findOrAddChecked hashes env vin sigTime payTime = .ok list') :
    list.findOrAdd hashes env vin sigTime payTime = list' := by
  rw [findOrAddChecked] at h
  rw [findOrAdd]
  cases hentry : list.entryOf vin with
  | some it =>
    rw [hentry] at h
    exact Except.ok.inj h
  | none =>
    rw [hentry] at h
    simp only at h ⊢
    rw [add]
    split at h
    · rename_i hfuture
      rw [if_pos hfuture]
      exact Except.ok.inj h
    · rename_i hyoung
      rw [if_neg hyoung, ColdStakingEnv.outputOf]
      cases htx : env.getTransaction vin.prevout.hash with
      | none =>
        rw [htx] at h
        exact Except.ok.inj h
      | some tx =>
        rw [htx] at h
        simp only [Option.map_some] at h ⊢
        cases hout : tx.vout[vin.prevout.n.toNat]? with
        | none =>
          rw [hout] at h
          cases h
        | some out =>
          rw [hout] at h
          exact Except.ok.inj h

theorem findOrAddChecked_ok_iff :
    (∃ list', list.findOrAddChecked hashes env vin sigTime payTime = .ok list') ↔
      list.ReadsInside env vin sigTime := by
  rw [findOrAddChecked, ReadsInside]
  cases hentry : list.entryOf vin with
  | some it =>
    obtain ⟨hmem, hvin⟩ := entryOf_some hentry
    exact iff_of_true ⟨_, rfl⟩ (.inl ⟨it.1, it.2, hmem, hvin⟩)
  | none =>
    have hunknown : ¬∃ k clsr, list.entry k = some clsr ∧ clsr.vin = vin := by
      rintro ⟨k, clsr, hk, hvin⟩
      exact entryOf_none hentry hk hvin
    simp only [hunknown, false_or]
    by_cases hfuture : env.threeMonthsLast < sigTime
    · rw [if_pos hfuture]
      exact iff_of_true ⟨_, rfl⟩ (.inl hfuture)
    · rw [if_neg hfuture]
      simp only [hfuture, false_or]
      cases htx : env.getTransaction vin.prevout.hash with
      | none => exact iff_of_true ⟨_, rfl⟩ (by simp)
      | some tx =>
        simp only [Option.some.injEq, forall_eq']
        cases hout : tx.vout[vin.prevout.n.toNat]? with
        | none =>
          have hle := List.getElem?_eq_none_iff.mp hout
          exact iff_of_false (by simp) (not_lt.mpr hle)
        | some out => exact iff_of_true ⟨_, rfl⟩ (List.getElem?_eq_some_iff.mp hout).1

theorem checkOldFrom_eq_ok {its : List (UInt256 × ColdStaker)} {list' : CColdStakingList}
    (hits : ∀ it ∈ its, list.entry it.1 = some it.2) :
    checkOldFrom nTime its list = .ok list' ↔ list' = list ∧
      ∀ it ∈ its, it.2.sigTime ≤ SubsidyEnv.coldStakingExpiry + nTime := by
  induction its with
  | nil => simp [checkOldFrom, eq_comm]
  | cons it its ih =>
    rw [List.forall_mem_cons] at hits
    rw [checkOldFrom, List.forall_mem_cons]
    by_cases hfuture : SubsidyEnv.coldStakingExpiry + nTime < it.2.sigTime
    · have herased : (list.deleteHash it.1).entry it.1 = none := by
        simp [deleteHash, entry]
      simp [hfuture, herased, not_le.mpr hfuture]
    · simp only [hfuture, if_false, hits.1, Option.isSome_some, if_true, ih hits.2,
        not_lt.mp hfuture, true_and]

theorem checkOldChecked_eq_ok {list' : CColdStakingList} :
    list.checkOldChecked nTime = .ok list' ↔ list' = list ∧
      ∀ k clsr, list.entry k = some clsr → clsr.sigTime ≤ SubsidyEnv.coldStakingExpiry + nTime := by
  rw [checkOldChecked, checkOldFrom_eq_ok fun it hit => mem_toList.mp hit]
  refine and_congr_right fun _ => ⟨?_, ?_⟩
  · exact fun h k clsr hentry => h (k, clsr) (mem_toList.mpr hentry)
  · exact fun h it hit => h it.1 it.2 (mem_toList.mp hit)

theorem dropsOld_iff :
    list.DropsOld nTime ↔ ∀ k clsr, list.entry k = some clsr →
      nTime ≤ clsr.sigTime + SubsidyEnv.coldStakingExpiry ∧
        clsr.sigTime ≤ SubsidyEnv.coldStakingExpiry + nTime := by
  constructor
  · rintro ⟨list', hok, hexact⟩ k clsr hentry
    obtain ⟨rfl, hyoung⟩ := checkOldChecked_eq_ok.mp hok
    exact ⟨not_lt.mp ((hexact k clsr).mp hentry).2, hyoung k clsr hentry⟩
  · intro h
    refine ⟨list, checkOldChecked_eq_ok.mpr ⟨rfl, fun k clsr hentry => (h k clsr hentry).2⟩, ?_⟩
    intro k clsr
    constructor
    · exact fun hentry => ⟨hentry, not_lt.mpr (h k clsr hentry).1⟩
    · exact fun hentry => hentry.1

theorem cold_staking_handled_iff (hashes : ColdStakingHashes) (list : CColdStakingList)
    (env : ColdStakingEnv) (clsr : ColdStaker) (nTime : Int) :
    ((∃ list', list.findOrAddChecked hashes env clsr.vin clsr.sigTime clsr.payTime = .ok list') ∧
        list.DropsOld nTime) ↔
      list.ReadsInside env clsr.vin clsr.sigTime ∧ ∀ k clsr, list.entry k = some clsr →
        nTime ≤ clsr.sigTime + SubsidyEnv.coldStakingExpiry ∧
          clsr.sigTime ≤ SubsidyEnv.coldStakingExpiry + nTime := by
  rw [findOrAddChecked_ok_iff, dropsOld_iff]

def signedAt (sigTime : Int) : CColdStakingList :=
  ⟨(∅ : Std.TreeMap UInt256 ColdStaker).insert 1 { stakerPaid 0 with sigTime := sigTime }⟩

-- An output index past the end, an entry signed in the far future, and one signed long ago.
theorem cold_staking_mishandled :
    ({} : CColdStakingList).findOrAddChecked ColdStakingStep.plainHashes ColdStakingStep.stakeEnv
        (ColdStakingStep.stakeIn 2) 100 100 = .error (.outOfRange 2 2) ∧
      (signedAt 8000000).checkOldChecked 100 = .error (.erased 1) ∧
      (∃ list', (signedAt 100).checkOldChecked 8000000 = .ok list' ∧
        (list'.entry 1).isSome = true) ∧
      ¬(signedAt 100).DropsOld 8000000 := by
  have hentry : (signedAt 100).entry 1 = some { stakerPaid 0 with sigTime := 100 } := by
    simp [signedAt, entry]
  refine ⟨by rfl, by rfl, ⟨signedAt 100, by rfl, by rw [hentry]; rfl⟩, ?_⟩
  intro h
  exact absurd (dropsOld_iff.mp h 1 _ hentry).1 (by decide)

end CColdStakingList

end AnkerNode
