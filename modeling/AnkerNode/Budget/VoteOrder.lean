import AnkerNode.Budget.VoteDesk
import AnkerNode.Lib.TreeMaps
import Mathlib.Data.List.Induction

namespace AnkerNode

structure Ballot.GoodVote {I V : Type} (ballot : Ballot I V) (x : UInt256) (p : DeskEnv I V × V) :
    Prop where
  known : p.1.isKnown (ballot.setValid true p.2) = true
  signed : p.1.signatureValid (ballot.setValid true p.2) true = true
  target : ballot.target p.2 = x
  timely : ballot.nTime p.2 ≤ p.1.nTime + 60 * 60

structure Ballot.GoodItem {I V : Type} (ballot : Ballot I V) (env : DeskEnv I V) (i : I) : Prop where
  collateral : (env.isBudgetCollateralValid i).fValid = true
  valid : env.isValid i = true
  votes : ballot.mapVotes i = ∅

namespace VoteDesk

variable {I V : Type} {d : VoteDesk I V} {ballot : Ballot I V} {env : DeskEnv I V} {x : UInt256}
  {p : DeskEnv I V × V} {votes : List (DeskEnv I V × V)} {i : I}

theorem addOrUpdateVote_new {nTime : Int} {vote : V}
    (hnew : (ballot.mapVotes i)[ballot.voterKey vote]? = none)
    (htimely : ballot.nTime vote ≤ nTime + 60 * 60) :
    ballot.addOrUpdateVote nTime i vote =
      .ok (ballot.setVotes i ((ballot.mapVotes i).insert (ballot.voterKey vote) vote)) := by
  have hahead : decide (nTime + 60 * 60 < ballot.nTime vote) = false := by
    simpa using htimely
  simp only [Ballot.addOrUpdateVote, hnew, Ballot.checkEarlier, hahead]
  rfl

def seen (d : VoteDesk I V) (ballot : Ballot I V) (vote : V) : VoteDesk I V :=
  { d with
    mapSeenVotes := Function.update d.mapSeenVotes (ballot.getHash vote)
      (some (ballot.setValid true vote)) }

theorem processVote_good (hactive : p.1.fActive = true) (hgood : ballot.GoodVote x p)
    (hnew : d.mapSeenVotes (ballot.getHash p.2) = none) :
    d.processVote ballot p.1 p.2 =
      ((d.seen ballot p.2).update ballot p.1 true (ballot.setValid true p.2)).1 := by
  simp only [processVote, hactive, ballot.getHash_setValid, hnew, hgood.known, hgood.signed,
    Bool.not_true, Option.isSome_none, Bool.false_eq_true, if_false]
  rfl

-- A vote for an item that is not known yet: kept as an orphan, in the place of the last one, by a
-- node that is synced, and dropped by one that is not.
theorem processVote_unknown (hactive : p.1.fActive = true) (hgood : ballot.GoodVote x p)
    (hnew : d.mapSeenVotes (ballot.getHash p.2) = none) (hitem : d.mapItems[x]? = none) :
    d.processVote ballot p.1 p.2 =
      if p.1.fSynced then
        { d.seen ballot p.2 with
          mapOrphanVotes := d.mapOrphanVotes.insert x (ballot.setValid true p.2) }
      else d.seen ballot p.2 := by
  have hitem' : (d.seen ballot p.2).mapItems[ballot.target (ballot.setValid true p.2)]? = none := by
    rw [ballot.target_setValid, hgood.target]
    exact hitem
  rw [processVote_good hactive hgood hnew, update, hitem']
  cases p.1.fSynced with
  | false => rfl
  | true =>
    simp only [Bool.and_self, if_true, ballot.target_setValid, hgood.target]
    rfl

theorem processVote_known (hactive : p.1.fActive = true) (hgood : ballot.GoodVote x p)
    (hnew : d.mapSeenVotes (ballot.getHash p.2) = none) (hitem : d.mapItems[x]? = some i)
    (hvoter : (ballot.mapVotes i)[ballot.voterKey p.2]? = none) :
    d.processVote ballot p.1 p.2 =
      { d.seen ballot p.2 with
        mapItems := d.mapItems.insert x (ballot.setVotes i
          ((ballot.mapVotes i).insert (ballot.voterKey p.2) (ballot.setValid true p.2))) } := by
  have hitem' : (d.seen ballot p.2).mapItems[ballot.target (ballot.setValid true p.2)]? = some i := by
    rw [ballot.target_setValid, hgood.target]
    exact hitem
  have hkey : ballot.voterKey (ballot.setValid true p.2) = ballot.voterKey p.2 := by
    rw [Ballot.voterKey, ballot.prevout_setValid, Ballot.voterKey]
  have htimely : ballot.nTime (ballot.setValid true p.2) ≤ p.1.nTime + 60 * 60 := by
    rw [ballot.nTime_setValid]
    exact hgood.timely
  have hadd := addOrUpdateVote_new (hkey ▸ hvoter) htimely
  rw [processVote_good hactive hgood hnew, update, hitem']
  simp only [hadd, hkey, ballot.target_setValid, hgood.target]
  rfl

-- the orphan that stands for the item once the votes have come
def keptOrphan (ballot : Ballot I V) (kept : Option V) (votes : List (DeskEnv I V × V)) : Option V :=
  votes.foldl (fun kept p => if p.1.fSynced then some (ballot.setValid true p.2) else kept) kept

structure Delivered (ballot : Ballot I V) (x : UInt256) (votes : List (DeskEnv I V × V))
    (d d' : VoteDesk I V) : Prop where
  items : d'.mapItems = d.mapItems
  seenItems : d'.mapSeenItems = d.mapSeenItems
  orphan : d'.mapOrphanVotes[x]? = keptOrphan ballot d.mapOrphanVotes[x]? votes
  others : ∀ k, x ≠ k → d'.mapOrphanVotes[k]? = d.mapOrphanVotes[k]?
  seenVotes : ∀ k, k ∉ votes.map (fun p => ballot.getHash p.2) → d'.mapSeenVotes k = d.mapSeenVotes k

theorem mapSeenVotes_seen_of_ne {vote : V} {k : UInt256} (h : k ≠ ballot.getHash vote) :
    (d.seen ballot vote).mapSeenVotes k = d.mapSeenVotes k := by
  simp [seen, Function.update_of_ne h]

theorem delivered_processVote (hactive : p.1.fActive = true) (hgood : ballot.GoodVote x p)
    (hnew : d.mapSeenVotes (ballot.getHash p.2) = none) (hitem : d.mapItems[x]? = none) :
    Delivered ballot x [p] d (d.processVote ballot p.1 p.2) := by
  rw [processVote_unknown hactive hgood hnew hitem]
  cases hsync : p.1.fSynced with
  | false =>
    refine ⟨rfl, rfl, ?_, fun _ _ => rfl, ?_⟩
    · simp [keptOrphan, hsync, seen]
    · intro k hk
      exact mapSeenVotes_seen_of_ne (by simpa using hk)
  | true =>
    refine ⟨rfl, rfl, ?_, ?_, ?_⟩
    · simp [keptOrphan, hsync]
    · intro k hk
      exact getElem?_insert_ne hk
    · intro k hk
      exact mapSeenVotes_seen_of_ne (by simpa using hk)

theorem delivered_deliver (hactive : ∀ p ∈ votes, p.1.fActive = true)
    (hgood : ∀ p ∈ votes, ballot.GoodVote x p)
    (hnodup : (votes.map fun p => ballot.getHash p.2).Nodup)
    (hnew : ∀ p ∈ votes, d.mapSeenVotes (ballot.getHash p.2) = none)
    (hitem : d.mapItems[x]? = none) : Delivered ballot x votes d (d.deliver ballot votes) := by
  induction votes generalizing d with
  | nil => exact ⟨rfl, rfl, rfl, fun _ _ => rfl, fun _ _ => rfl⟩
  | cons p votes ih =>
    rw [List.map_cons, List.nodup_cons] at hnodup
    rw [List.forall_mem_cons] at hactive hgood hnew
    have hfirst := delivered_processVote hactive.1 hgood.1 hnew.1 hitem
    have hrest : ∀ q ∈ votes,
        (d.processVote ballot p.1 p.2).mapSeenVotes (ballot.getHash q.2) = none := by
      intro q hq
      rw [hfirst.seenVotes, hnew.2 q hq]
      rw [List.map_singleton, List.mem_singleton]
      intro heq
      exact hnodup.1 (heq ▸ List.mem_map_of_mem hq)
    have hlast := ih hactive.2 hgood.2 hnodup.2 hrest (hfirst.items ▸ hitem)
    refine ⟨hlast.items.trans hfirst.items, hlast.seenItems.trans hfirst.seenItems, ?_, ?_, ?_⟩
    · rw [deliver, List.foldl_cons]
      exact hlast.orphan.trans (by rw [hfirst.orphan]; rfl)
    · intro k hk
      exact (hlast.others k hk).trans (hfirst.others k hk)
    · intro k hk
      rw [List.map_cons, List.mem_cons, not_or] at hk
      exact (hlast.seenVotes k hk.2).trans (hfirst.seenVotes k (by simpa using hk.1))

theorem checkOrphanVote_other {it : UInt256 × V} (h : ballot.target it.2 ≠ x) :
    (checkOrphanVote ballot env d it).mapItems[x]? = d.mapItems[x]? := by
  rcases checkOrphanVote_cases ballot env d it with heq | ⟨i, i', -, -, heq⟩
  · rw [heq]
  · rw [heq]
    exact getElem?_insert_ne h

theorem foldl_checkOrphanVote_other {its : List (UInt256 × V)}
    (h : ∀ it ∈ its, ballot.target it.2 ≠ x) :
    (its.foldl (checkOrphanVote ballot env) d).mapItems[x]? = d.mapItems[x]? := by
  induction its generalizing d with
  | nil => rfl
  | cons it its ih =>
    rw [List.forall_mem_cons] at h
    rw [List.foldl_cons, ih h.2, checkOrphanVote_other h.1]

theorem mapSeenVotes_checkOrphanVote (d : VoteDesk I V) (it : UInt256 × V) :
    (checkOrphanVote ballot env d it).mapSeenVotes = d.mapSeenVotes := by
  rcases checkOrphanVote_cases ballot env d it with heq | ⟨i, i', -, -, heq⟩
  · rw [heq]
  · rw [heq]

theorem mapSeenVotes_checkOrphanVotes (d : VoteDesk I V) :
    (d.checkOrphanVotes ballot env).mapSeenVotes = d.mapSeenVotes := by
  rw [checkOrphanVotes]
  generalize d.mapOrphanVotes.toList = its
  induction its generalizing d with
  | nil => rfl
  | cons it its ih => rw [List.foldl_cons, ih, mapSeenVotes_checkOrphanVote]

theorem checkOrphanVote_self {k : UInt256} {vote : V} (htarget : ballot.target vote = x)
    (hitem : d.mapItems[x]? = some i)
    (hvoter : (ballot.mapVotes i)[ballot.voterKey vote]? = none)
    (htimely : ballot.nTime vote ≤ env.nTime + 60 * 60) :
    (checkOrphanVote ballot env d (k, vote)).mapItems[x]? =
      some (ballot.setVotes i ((ballot.mapVotes i).insert (ballot.voterKey vote) vote)) := by
  simp only [checkOrphanVote, update, htarget, hitem, addOrUpdateVote_new hvoter htimely]
  exact getElem?_insert_same _ _ _

theorem checkOrphanVotes_item
    (hkeyed : ∀ (k : UInt256) (vote : V), d.mapOrphanVotes[k]? = some vote → ballot.target vote = k)
    (hitem : d.mapItems[x]? = some i)
    (hempty : ballot.mapVotes i = ∅)
    (htimely : ∀ vote, d.mapOrphanVotes[x]? = some vote → ballot.nTime vote ≤ env.nTime + 60 * 60) :
    ∃ i', (d.checkOrphanVotes ballot env).mapItems[x]? = some i' ∧
      ballot.mapVotes i' = d.mapOrphanVotes[x]?.elim ∅ fun vote =>
        (∅ : Std.TreeMap UInt256 V).insert (ballot.voterKey vote) vote := by
  have htargets : ∀ it ∈ d.mapOrphanVotes.toList, ballot.target it.2 = it.1 := by
    rintro ⟨k, vote⟩ hmem
    exact hkeyed k vote (Std.TreeMap.mem_toList_iff_getElem?_eq_some.mp hmem)
  rw [checkOrphanVotes]
  cases horphan : d.mapOrphanVotes[x]? with
  | none =>
    refine ⟨i, ?_, hempty⟩
    rw [foldl_checkOrphanVote_other, hitem]
    rintro ⟨k, vote⟩ hmem heq
    have hk := Std.TreeMap.mem_toList_iff_getElem?_eq_some.mp hmem
    rw [← hkeyed k vote hk, heq, horphan] at hk
    simp at hk
  | some vote =>
    obtain ⟨before, after, hsplit, hbefore, hafter⟩ := TreeSweep.toList_split horphan
    have hbefore' : ∀ it ∈ before, ballot.target it.2 ≠ x := by
      intro it hit heq
      exact hbefore it hit ((htargets it (by simp [hsplit, hit])).symm.trans heq)
    have hafter' : ∀ it ∈ after, ballot.target it.2 ≠ x := by
      intro it hit heq
      exact hafter it hit ((htargets it (by simp [hsplit, hit])).symm.trans heq)
    have hself : (checkOrphanVote ballot env (before.foldl (checkOrphanVote ballot env) d)
        (x, vote)).mapItems[x]? = some (ballot.setVotes i
          ((ballot.mapVotes i).insert (ballot.voterKey vote) vote)) := by
      refine checkOrphanVote_self (hkeyed x vote horphan) ?_ (by simp [hempty]) (htimely vote horphan)
      rw [foldl_checkOrphanVote_other hbefore', hitem]
    refine ⟨ballot.setVotes i ((ballot.mapVotes i).insert (ballot.voterKey vote) vote), ?_, ?_⟩
    · rw [hsplit, List.foldl_append, List.foldl_cons, foldl_checkOrphanVote_other hafter']
      exact hself
    · rw [ballot.mapVotes_setVotes, hempty]
      rfl

theorem announce_good (hactive : env.fActive = true) (hgood : ballot.GoodItem env i)
    (hkey : ballot.getItemHash i = x) (hseen : d.mapSeenItems x = false) (hnone : d.mapItems[x]? = none)
    (hkept : Kept ballot d)
    (htimely : ∀ vote, d.mapOrphanVotes[x]? = some vote → ballot.nTime vote ≤ env.nTime + 60 * 60) :
    (d.announce ballot env i).mapSeenVotes = d.mapSeenVotes ∧
      ∃ i', (d.announce ballot env i).mapItems[x]? = some i' ∧
        ballot.mapVotes i' = d.mapOrphanVotes[x]?.elim ∅ fun vote =>
          (∅ : Std.TreeMap UInt256 V).insert (ballot.voterKey vote) vote := by
  have hfresh : d.mapItems.contains x = false := by
    rw [Std.TreeMap.contains_eq_isSome_getElem?, hnone]
    rfl
  have hannounce : d.announce ballot env i = checkOrphanVotes
      { d with
        mapSeenItems := Function.update d.mapSeenItems x true
        mapItems := d.mapItems.insert x i } ballot env := by
    simp only [announce, acceptItem, hactive, hkey, hseen, hgood.collateral, hgood.valid,
      addItem, hfresh, Bool.not_true, Bool.false_eq_true, if_false]
  rw [hannounce]
  refine ⟨mapSeenVotes_checkOrphanVotes _, ?_⟩
  exact checkOrphanVotes_item hkept.orphans (getElem?_insert_same _ _ _) hgood.votes htimely

def recordVotes (ballot : Ballot I V) (m : Std.TreeMap UInt256 V) (votes : List (DeskEnv I V × V)) :
    Std.TreeMap UInt256 V :=
  votes.foldl (fun m p => m.insert (ballot.voterKey p.2) (ballot.setValid true p.2)) m

theorem deliver_known (hactive : ∀ p ∈ votes, p.1.fActive = true)
    (hgood : ∀ p ∈ votes, ballot.GoodVote x p)
    (hnodup : (votes.map fun p => ballot.getHash p.2).Nodup)
    (hnew : ∀ p ∈ votes, d.mapSeenVotes (ballot.getHash p.2) = none)
    (hvoters : (votes.map fun p => ballot.voterKey p.2).Nodup)
    (hitem : d.mapItems[x]? = some i)
    (hfree : ∀ p ∈ votes, (ballot.mapVotes i)[ballot.voterKey p.2]? = none) :
    ∃ i', (d.deliver ballot votes).mapItems[x]? = some i' ∧
      ballot.mapVotes i' = recordVotes ballot (ballot.mapVotes i) votes := by
  induction votes generalizing d i with
  | nil => exact ⟨i, hitem, rfl⟩
  | cons p votes ih =>
    rw [List.map_cons, List.nodup_cons] at hnodup hvoters
    rw [List.forall_mem_cons] at hactive hgood hnew hfree
    have hstep := processVote_known hactive.1 hgood.1 hnew.1 hitem hfree.1
    have hrest : ∀ q ∈ votes,
        (d.processVote ballot p.1 p.2).mapSeenVotes (ballot.getHash q.2) = none := by
      intro q hq
      rw [hstep]
      refine (mapSeenVotes_seen_of_ne ?_).trans (hnew.2 q hq)
      intro heq
      exact hnodup.1 (heq ▸ List.mem_map_of_mem hq)
    have hitem' : (d.processVote ballot p.1 p.2).mapItems[x]? = some (ballot.setVotes i
        ((ballot.mapVotes i).insert (ballot.voterKey p.2) (ballot.setValid true p.2))) := by
      rw [hstep]
      exact getElem?_insert_same _ _ _
    obtain ⟨i', hi', hvotes⟩ := ih hactive.2 hgood.2 hnodup.2 hrest hvoters.2 hitem' (by
      intro q hq
      rw [ballot.mapVotes_setVotes, getElem?_insert_ne, hfree.2 q hq]
      intro heq
      exact hvoters.1 (heq ▸ List.mem_map_of_mem hq))
    refine ⟨i', hi', ?_⟩
    rw [hvotes, ballot.mapVotes_setVotes]
    rfl

theorem recordVotes_of_not_mem {m : Std.TreeMap UInt256 V} {k : UInt256}
    (h : k ∉ votes.map fun p => ballot.voterKey p.2) : (recordVotes ballot m votes)[k]? = m[k]? := by
  induction votes generalizing m with
  | nil => rfl
  | cons p votes ih =>
    rw [List.map_cons, List.mem_cons, not_or] at h
    exact (ih h.2).trans (getElem?_insert_ne (Ne.symm h.1))

theorem recordVotes_of_mem {m : Std.TreeMap UInt256 V}
    (hvoters : (votes.map fun p => ballot.voterKey p.2).Nodup) (hp : p ∈ votes) :
    (recordVotes ballot m votes)[ballot.voterKey p.2]? = some (ballot.setValid true p.2) := by
  induction votes generalizing m with
  | nil => simp at hp
  | cons q votes ih =>
    rw [List.map_cons, List.nodup_cons] at hvoters
    rcases List.mem_cons.mp hp with rfl | hp
    · exact (recordVotes_of_not_mem hvoters.1).trans (getElem?_insert_same _ _ _)
    · exact ih hvoters.2 hp

theorem keptOrphan_none (hone : votes.length ≤ 1) (hsync : ∀ p ∈ votes, p.1.fSynced = true) :
    ∀ p ∈ votes, keptOrphan ballot none votes = some (ballot.setValid true p.2) := by
  intro p hp
  obtain ⟨q, rfl⟩ : ∃ q, votes = [q] := by
    cases votes with
    | nil => simp at hp
    | cons q rest =>
      cases rest with
      | nil => exact ⟨q, rfl⟩
      | cons r rest => simp at hone
  obtain rfl := List.mem_singleton.mp hp
  simp [keptOrphan, hsync p hp]

theorem keptOrphan_cases (ballot : Ballot I V) (votes : List (DeskEnv I V × V)) :
    keptOrphan ballot none votes = none ∨
      ∃ p ∈ votes, p.1.fSynced = true ∧
        keptOrphan ballot none votes = some (ballot.setValid true p.2) := by
  induction votes using List.reverseRecOn with
  | nil => exact .inl rfl
  | append_singleton votes q ih =>
    have hstep : keptOrphan ballot none (votes ++ [q]) =
        if q.1.fSynced then some (ballot.setValid true q.2) else keptOrphan ballot none votes := by
      simp [keptOrphan]
    cases hsync : q.1.fSynced with
    | true => exact .inr ⟨q, by simp, hsync, by simp [hstep, hsync]⟩
    | false =>
      rcases ih with hnone | ⟨p, hp, hpsync, hkept⟩
      · exact .inl (by simp [hstep, hsync, hnone])
      · exact .inr ⟨p, by simp [hp], hpsync, by simp [hstep, hsync, hkept]⟩

theorem deliver_filter (d : VoteDesk I V) (votes : List (DeskEnv I V × V)) :
    d.deliver ballot (votes.filter fun p => p.1.fActive) = d.deliver ballot votes := by
  induction votes generalizing d with
  | nil => rfl
  | cons p votes ih =>
    cases hactive : p.1.fActive with
    | true =>
      simp only [List.filter_cons, hactive, if_true]
      exact ih (d.processVote ballot p.1 p.2)
    | false =>
      have hidle : d.processVote ballot p.1 p.2 = d := by simp [processVote, hactive]
      simp only [List.filter_cons, hactive, Bool.false_eq_true, if_false, ih]
      simp only [deliver, List.foldl_cons, hidle]

-- Good votes for one item, some before and some after its announcement, at a desk that has seen
-- nothing of it.
structure Arrivals (ballot : Ballot I V) (d : VoteDesk I V) (pre : List (DeskEnv I V × V))
    (env : DeskEnv I V) (i : I) (post : List (DeskEnv I V × V)) : Prop where
  item : ballot.GoodItem env i
  votes : ∀ p ∈ pre ++ post, ballot.GoodVote (ballot.getItemHash i) p
  clock : ∀ p ∈ pre, ballot.nTime p.2 ≤ env.nTime + 60 * 60
  voters : ((pre ++ post).map fun p => ballot.voterKey p.2).Nodup
  hashes : ((pre ++ post).map fun p => ballot.getHash p.2).Nodup
  newItem : d.mapItems[ballot.getItemHash i]? = none
  unseenItem : d.mapSeenItems (ballot.getItemHash i) = false
  noOrphan : d.mapOrphanVotes[ballot.getItemHash i]? = none
  unseenVotes : ∀ p ∈ pre ++ post, d.mapSeenVotes (ballot.getHash p.2) = none

theorem Arrivals.voters_apart {pre post : List (DeskEnv I V × V)} {q : DeskEnv I V × V}
    (h : Arrivals ballot d pre env i post) (hp : p ∈ pre) (hq : q ∈ post) :
    ballot.voterKey p.2 ≠ ballot.voterKey q.2 := by
  have hvoters := h.voters
  rw [List.map_append, List.nodup_append] at hvoters
  exact hvoters.2.2 _ (List.mem_map_of_mem hp) _ (List.mem_map_of_mem hq)

theorem Arrivals.hashes_apart {pre post : List (DeskEnv I V × V)} {q : DeskEnv I V × V}
    (h : Arrivals ballot d pre env i post) (hp : p ∈ pre) (hq : q ∈ post) :
    ballot.getHash p.2 ≠ ballot.getHash q.2 := by
  have hhashes := h.hashes
  rw [List.map_append, List.nodup_append] at hhashes
  exact hhashes.2.2 _ (List.mem_map_of_mem hp) _ (List.mem_map_of_mem hq)

theorem Arrivals.voters_nodup {pre post : List (DeskEnv I V × V)}
    (h : Arrivals ballot d pre env i post) :
    (pre.map fun p => ballot.voterKey p.2).Nodup ∧
      (post.map fun p => ballot.voterKey p.2).Nodup := by
  have hvoters := h.voters
  rw [List.map_append] at hvoters
  exact ⟨hvoters.of_append_left, hvoters.of_append_right⟩

theorem Arrivals.hashes_nodup {pre post : List (DeskEnv I V × V)}
    (h : Arrivals ballot d pre env i post) :
    (pre.map fun p => ballot.getHash p.2).Nodup ∧
      (post.map fun p => ballot.getHash p.2).Nodup := by
  have hhashes := h.hashes
  rw [List.map_append] at hhashes
  exact ⟨hhashes.of_append_left, hhashes.of_append_right⟩

def Stored (ballot : Ballot I V) (x : UInt256) (votes : List (DeskEnv I V × V))
    (d : VoteDesk I V) : Prop :=
  ∃ i, d.mapItems[x]? = some i ∧
    ∀ p ∈ votes, (ballot.mapVotes i)[ballot.voterKey p.2]? = some (ballot.setValid true p.2)

theorem Arrivals.filter {pre post : List (DeskEnv I V × V)} (h : Arrivals ballot d pre env i post) :
    Arrivals ballot d (pre.filter fun p => p.1.fActive) env i
      (post.filter fun p => p.1.fActive) := by
  have hsub : ((pre.filter fun p => p.1.fActive) ++ (post.filter fun p => p.1.fActive)).Sublist
      (pre ++ post) := List.filter_sublist.append List.filter_sublist
  refine ⟨h.item, ?_, ?_, ?_, ?_, h.newItem, h.unseenItem, h.noOrphan, ?_⟩
  · exact fun p hp => h.votes p (hsub.subset hp)
  · exact fun p hp => h.clock p (List.mem_of_mem_filter hp)
  · exact h.voters.sublist (hsub.map _)
  · exact h.hashes.sublist (hsub.map _)
  · exact fun p hp => h.unseenVotes p (hsub.subset hp)

def orphanVotes (ballot : Ballot I V) (kept : Option V) : Std.TreeMap UInt256 V :=
  kept.elim ∅ fun vote => (∅ : Std.TreeMap UInt256 V).insert (ballot.voterKey vote) vote

theorem voterKey_setValid (f : Bool) (vote : V) :
    ballot.voterKey (ballot.setValid f vote) = ballot.voterKey vote := by
  rw [Ballot.voterKey, ballot.prevout_setValid, Ballot.voterKey]

theorem getElem?_orphanVotes {kept : Option V} {k : UInt256} {vote : V}
    (h : (orphanVotes ballot kept)[k]? = some vote) : kept = some vote ∧ ballot.voterKey vote = k := by
  cases kept with
  | none => simp [orphanVotes] at h
  | some w =>
    rcases getElem?_insert_cases h with ⟨rfl, rfl⟩ | h
    · exact ⟨rfl, rfl⟩
    · simp at h

theorem keptOrphan_timely (hclock : ∀ p ∈ votes, ballot.nTime p.2 ≤ env.nTime + 60 * 60) {vote : V}
    (h : keptOrphan ballot none votes = some vote) : ballot.nTime vote ≤ env.nTime + 60 * 60 := by
  rcases keptOrphan_cases ballot votes with hnone | ⟨p, hp, -, hkept⟩
  · simp [hnone] at h
  · rw [hkept] at h
    rw [← Option.some.inj h, ballot.nTime_setValid]
    exact hclock p hp

-- No vote after the announcement is by the voter of the orphan.
theorem Arrivals.free {pre post : List (DeskEnv I V × V)} (h : Arrivals ballot d pre env i post)
    (hp : p ∈ post) :
    (orphanVotes ballot (keptOrphan ballot none pre))[ballot.voterKey p.2]? = none := by
  cases hvote : (orphanVotes ballot (keptOrphan ballot none pre))[ballot.voterKey p.2]? with
  | none => rfl
  | some vote =>
    obtain ⟨hkeep, hkey⟩ := getElem?_orphanVotes hvote
    rcases keptOrphan_cases ballot pre with hnone | ⟨q, hq, -, hq'⟩
    · simp [hnone] at hkeep
    · rw [hq', Option.some.injEq] at hkeep
      rw [← hkeep, voterKey_setValid] at hkey
      exact absurd hkey (h.voters_apart hq hp)

theorem announced {pre post : List (DeskEnv I V × V)} (hkept : Kept ballot d)
    (h : Arrivals ballot d pre env i post) (hactive : env.fActive = true)
    (hpre : ∀ p ∈ pre, p.1.fActive = true) (hpost : ∀ p ∈ post, p.1.fActive = true) :
    ∃ i', (((d.deliver ballot pre).announce ballot env i).deliver ballot post).mapItems[
        ballot.getItemHash i]? = some i' ∧
      ballot.mapVotes i' =
        recordVotes ballot (orphanVotes ballot (keptOrphan ballot none pre)) post := by
  have hsubpre : ∀ p ∈ pre, p ∈ pre ++ post := fun p hp => List.mem_append_left _ hp
  have hsubpost : ∀ p ∈ post, p ∈ pre ++ post := fun p hp => List.mem_append_right _ hp
  have hdel := delivered_deliver (d := d) hpre (fun p hp => h.votes p (hsubpre p hp))
    h.hashes_nodup.1 (fun p hp => h.unseenVotes p (hsubpre p hp)) h.newItem
  have horphan : (d.deliver ballot pre).mapOrphanVotes[ballot.getItemHash i]? =
      keptOrphan ballot none pre := by
    rw [hdel.orphan, h.noOrphan]
  have hkept' : Kept ballot (d.deliver ballot pre) :=
    (effects_deliver d pre).kept hkept
  obtain ⟨hseen, i', hi', hvotes⟩ := announce_good hactive h.item rfl
    (by rw [hdel.seenItems]; exact h.unseenItem) (by rw [hdel.items]; exact h.newItem) hkept'
    (by
      intro vote hvote
      rw [horphan] at hvote
      exact keptOrphan_timely h.clock hvote)
  rw [horphan] at hvotes
  have hnew : ∀ p ∈ post, ((d.deliver ballot pre).announce ballot env i).mapSeenVotes
      (ballot.getHash p.2) = none := by
    intro p hp
    rw [hseen, hdel.seenVotes, h.unseenVotes p (hsubpost p hp)]
    intro hmem
    obtain ⟨q, hq, heq⟩ := List.mem_map.mp hmem
    exact h.hashes_apart hq hp heq
  have hfree : ∀ p ∈ post, (ballot.mapVotes i')[ballot.voterKey p.2]? = none := by
    intro p hp
    rw [hvotes]
    exact h.free hp
  obtain ⟨i'', hi'', hrecord⟩ := deliver_known hpost (fun p hp => h.votes p (hsubpost p hp))
    h.hashes_nodup.2 hnew h.voters_nodup.2 hi' hfree
  refine ⟨i'', hi'', ?_⟩
  rw [hrecord, hvotes]
  rfl

theorem deliver_append (d : VoteDesk I V) (pre post : List (DeskEnv I V × V)) :
    (d.deliver ballot pre).deliver ballot post = d.deliver ballot (pre ++ post) := by
  rw [deliver, deliver, deliver, List.foldl_append]

theorem not_stored_of_idle {pre post : List (DeskEnv I V × V)}
    (h : Arrivals ballot d pre env i post) (hidle : env.fActive = false) :
    ¬ Stored ballot (ballot.getItemHash i) (pre ++ post)
      (((d.deliver ballot pre).announce ballot env i).deliver ballot post) := by
  rintro ⟨i', hi', -⟩
  have hannounce : (d.deliver ballot pre).announce ballot env i = d.deliver ballot pre := by
    simp [announce, acceptItem, hidle]
  rw [hannounce, deliver_append, ← deliver_filter] at hi'
  have hmem : ∀ p ∈ (pre ++ post).filter fun p => p.1.fActive, p ∈ pre ++ post :=
    fun p hp => List.mem_of_mem_filter hp
  have hdel := delivered_deliver (d := d) (fun p hp => (List.mem_filter.mp hp).2)
    (fun p hp => h.votes p (hmem p hp)) (h.hashes.sublist (List.filter_sublist.map _))
    (fun p hp => h.unseenVotes p (hmem p hp)) h.newItem
  rw [hdel.items, h.newItem] at hi'
  simp at hi'

-- What the votes are stored for: the announcement is handled, at most one vote came before it, to
-- a synced node, and no vote came while messages are dropped.
def InTime (pre : List (DeskEnv I V × V)) (env : DeskEnv I V) (post : List (DeskEnv I V × V)) :
    Prop :=
  env.fActive = true ∧ pre.length ≤ 1 ∧ (∀ p ∈ pre, p.1.fSynced = true) ∧
    ∀ p ∈ pre ++ post, p.1.fActive = true

theorem stored_of_inTime {pre post : List (DeskEnv I V × V)} (hkept : Kept ballot d)
    (h : Arrivals ballot d pre env i post) (htime : InTime pre env post) :
    Stored ballot (ballot.getItemHash i) (pre ++ post)
      (((d.deliver ballot pre).announce ballot env i).deliver ballot post) := by
  obtain ⟨hactive, hone, hsync, hall⟩ := htime
  rw [List.forall_mem_append] at hall
  obtain ⟨i', hi', hvotes⟩ := announced hkept h hactive hall.1 hall.2
  refine ⟨i', hi', ?_⟩
  intro p hp
  rw [hvotes]
  rcases List.mem_append.mp hp with hp | hp
  · rw [recordVotes_of_not_mem, keptOrphan_none hone hsync p hp]
    · simp [orphanVotes, voterKey_setValid]
    · intro hmem
      obtain ⟨q, hq, heq⟩ := List.mem_map.mp hmem
      exact h.voters_apart hp hq heq.symm
  · exact recordVotes_of_mem h.voters_nodup.2 hp

theorem length_le_one_of_map {α β : Type} {f : α → β} {xs : List α} {b : β}
    (hnodup : (xs.map f).Nodup) (hall : ∀ x ∈ xs, f x = b) : xs.length ≤ 1 := by
  cases xs with
  | nil => simp
  | cons x xs =>
    cases xs with
    | nil => simp
    | cons y ys =>
      rw [List.map_cons, List.nodup_cons] at hnodup
      refine absurd ?_ hnodup.1
      rw [hall x (by simp), ← hall y (by simp)]
      exact List.mem_map_of_mem (by simp)

theorem length_le_one_of_kept {kept : Option V}
    (hvoters : (votes.map fun p => ballot.voterKey p.2).Nodup)
    (hkept : ∀ p ∈ votes, kept = some (ballot.setValid true p.2)) : votes.length ≤ 1 := by
  cases votes with
  | nil => simp
  | cons q votes =>
    refine length_le_one_of_map hvoters fun p hp => (?_ : _ = ballot.voterKey q.2)
    have heq : ballot.setValid true p.2 = ballot.setValid true q.2 :=
      Option.some.inj ((hkept p hp).symm.trans (hkept q (by simp)))
    rw [← voterKey_setValid true p.2, heq, voterKey_setValid]

-- A stored vote that is not among those recorded after the announcement is the orphan.
theorem orphan_of_lookup {pre post : List (DeskEnv I V × V)} {vote : V}
    (hnot : ballot.voterKey vote ∉ post.map fun p => ballot.voterKey p.2)
    (h : (recordVotes ballot (orphanVotes ballot (keptOrphan ballot none pre)) post)[
      ballot.voterKey vote]? = some (ballot.setValid true vote)) :
    ∃ q ∈ pre, q.1.fSynced = true ∧ ballot.voterKey q.2 = ballot.voterKey vote ∧
      keptOrphan ballot none pre = some (ballot.setValid true q.2) := by
  rw [recordVotes_of_not_mem hnot] at h
  obtain ⟨hkeep, -⟩ := getElem?_orphanVotes h
  rcases keptOrphan_cases ballot pre with hnone | ⟨q, hq, hsync, hq'⟩
  · simp [hnone] at hkeep
  · refine ⟨q, hq, hsync, ?_, hq'⟩
    rw [hq', Option.some.injEq] at hkeep
    rw [← voterKey_setValid true q.2, hkeep, voterKey_setValid]

theorem Arrivals.orphan_of_pre {pre post : List (DeskEnv I V × V)}
    (h : Arrivals ballot d pre env i post) (hp : p ∈ pre)
    (hlookup : (recordVotes ballot (orphanVotes ballot (keptOrphan ballot none
      (pre.filter fun p => p.1.fActive))) (post.filter fun p => p.1.fActive))[
      ballot.voterKey p.2]? = some (ballot.setValid true p.2)) :
    p.1.fActive = true ∧ p.1.fSynced = true ∧
      keptOrphan ballot none (pre.filter fun p => p.1.fActive) =
        some (ballot.setValid true p.2) := by
  have hnot : ballot.voterKey p.2 ∉
      (post.filter fun p => p.1.fActive).map fun p => ballot.voterKey p.2 := by
    intro hmem
    obtain ⟨q, hq, hkey⟩ := List.mem_map.mp hmem
    exact h.voters_apart hp (List.mem_of_mem_filter hq) hkey.symm
  obtain ⟨q, hq, hsync, hkey, hkeep⟩ := orphan_of_lookup hnot hlookup
  rw [List.mem_filter] at hq
  obtain rfl : q = p := List.inj_on_of_nodup_map h.voters_nodup.1 hq.1 hp hkey
  exact ⟨hq.2, hsync, hkeep⟩

theorem Arrivals.active_of_post {pre post : List (DeskEnv I V × V)}
    (h : Arrivals ballot d pre env i post) (hp : p ∈ post)
    (hlookup : (recordVotes ballot (orphanVotes ballot (keptOrphan ballot none
      (pre.filter fun p => p.1.fActive))) (post.filter fun p => p.1.fActive))[
      ballot.voterKey p.2]? = some (ballot.setValid true p.2)) : p.1.fActive = true := by
  cases hactive : p.1.fActive with
  | true => rfl
  | false =>
    have hnot : ballot.voterKey p.2 ∉
        (post.filter fun p => p.1.fActive).map fun p => ballot.voterKey p.2 := by
      intro hmem
      obtain ⟨q, hq, hkey⟩ := List.mem_map.mp hmem
      rw [List.mem_filter] at hq
      obtain rfl : q = p := List.inj_on_of_nodup_map h.voters_nodup.2 hq.1 hp hkey
      simp [hactive] at hq
    obtain ⟨q, hq, -, hkey, -⟩ := orphan_of_lookup hnot hlookup
    exact absurd hkey (h.voters_apart (List.mem_of_mem_filter hq) hp)

theorem inTime_of_stored {pre post : List (DeskEnv I V × V)} (hkept : Kept ballot d)
    (h : Arrivals ballot d pre env i post)
    (hstored : Stored ballot (ballot.getItemHash i) (pre ++ post)
      (((d.deliver ballot pre).announce ballot env i).deliver ballot post)) :
    InTime pre env post := by
  have hactive : env.fActive = true := by
    cases hidle : env.fActive with
    | true => rfl
    | false => exact absurd hstored (not_stored_of_idle h hidle)
  obtain ⟨i', hi', hvotes⟩ := announced hkept h.filter hactive
    (fun p hp => (List.mem_filter.mp hp).2) (fun p hp => (List.mem_filter.mp hp).2)
  rw [deliver_filter, deliver_filter] at hi'
  obtain ⟨i'', hi'', hlookup⟩ := hstored
  obtain rfl : i' = i'' := Option.some.inj (hi'.symm.trans hi'')
  simp only [hvotes] at hlookup
  have hpre : ∀ p ∈ pre, p.1.fActive = true ∧ p.1.fSynced = true ∧
      keptOrphan ballot none (pre.filter fun p => p.1.fActive) =
        some (ballot.setValid true p.2) :=
    fun p hp => h.orphan_of_pre hp (hlookup p (List.mem_append_left _ hp))
  refine ⟨hactive, ?_, fun p hp => (hpre p hp).2.1, ?_⟩
  · exact length_le_one_of_kept h.voters_nodup.1 fun p hp => (hpre p hp).2.2
  · intro p hp
    rcases List.mem_append.mp hp with hp' | hp'
    · exact (hpre p hp').1
    · exact h.active_of_post hp' (hlookup p hp)

theorem stored_iff {pre post : List (DeskEnv I V × V)} (hkept : Kept ballot d)
    (h : Arrivals ballot d pre env i post) :
    Stored ballot (ballot.getItemHash i) (pre ++ post)
      (((d.deliver ballot pre).announce ballot env i).deliver ballot post) ↔ InTime pre env post :=
  ⟨inTime_of_stored hkept h, stored_of_inTime hkept h⟩

end VoteDesk

end AnkerNode
