import AnkerNode.Lib.TreeMaps
import AnkerNode.Net.Orphans

namespace AnkerNode

structure QueuedBlock where
  hash : UInt256
  pindex : Option Nat
  nTime : Int
  nValidatedQueuedBefore : Int
  fValidatedHeaders : Bool
deriving DecidableEq, Repr

-- A position of the list is named by the number its entry got when it was inserted, which stands
-- for the iterator of std::list.
structure CNodeState where
  vBlocksInFlight : List (Nat × QueuedBlock) := []
  nBlocksInFlight : Int := 0
  nStallingSince : Int := 0
deriving DecidableEq, Repr

structure BlockDownload where
  mapNodeState : Std.TreeMap NodeId CNodeState := ∅
  mapBlocksInFlight : Std.TreeMap UInt256 (NodeId × Nat) := ∅
  nQueuedValidatedHeaders : Int := 0
  nextIterator : Nat := 0

namespace BlockDownload

variable (s : BlockDownload)

def initializeNode (nodeid : NodeId) : BlockDownload :=
  if s.mapNodeState.contains nodeid then s
  else { s with mapNodeState := s.mapNodeState.insert nodeid {} }

-- nothing is returned where the source dereferences a null or a dangling pointer
def markBlockAsReceived (hash : UInt256) : Option BlockDownload :=
  match s.mapBlocksInFlight[hash]? with
  | none => some s
  | some (nodeid, it) => do
    let state ← s.mapNodeState[nodeid]?
    let entry ← state.vBlocksInFlight.find? fun p => p.1 == it
    some { s with
      nQueuedValidatedHeaders :=
        s.nQueuedValidatedHeaders - if entry.2.fValidatedHeaders then 1 else 0
      mapNodeState := s.mapNodeState.insert nodeid
        { vBlocksInFlight := state.vBlocksInFlight.eraseP fun p => p.1 == it
          nBlocksInFlight := state.nBlocksInFlight - 1
          nStallingSince := 0 }
      mapBlocksInFlight := s.mapBlocksInFlight.erase hash }

def enqueue (nodeid : NodeId) (state : CNodeState) (newentry : QueuedBlock) : BlockDownload :=
  { nQueuedValidatedHeaders :=
      s.nQueuedValidatedHeaders + if newentry.fValidatedHeaders then 1 else 0
    mapNodeState := s.mapNodeState.insert nodeid
      { state with
        vBlocksInFlight := state.vBlocksInFlight ++ [(s.nextIterator, newentry)]
        nBlocksInFlight := state.nBlocksInFlight + 1 }
    mapBlocksInFlight := s.mapBlocksInFlight.insert newentry.hash (nodeid, s.nextIterator)
    nextIterator := s.nextIterator + 1 }

def markBlockAsInFlight (nodeid : NodeId) (hash : UInt256) (pindex : Option Nat) (nTime : Int) :
    Option BlockDownload := do
  let _ ← s.mapNodeState[nodeid]?
  let s ← s.markBlockAsReceived hash
  let state ← s.mapNodeState[nodeid]?
  some (s.enqueue nodeid state ⟨hash, pindex, nTime, s.nQueuedValidatedHeaders, pindex.isSome⟩)

def finalizeNode (nodeid : NodeId) : Option BlockDownload := do
  let state ← s.mapNodeState[nodeid]?
  some { s with
    mapBlocksInFlight := state.vBlocksInFlight.foldl (fun m p => m.erase p.2.hash)
      s.mapBlocksInFlight
    mapNodeState := s.mapNodeState.erase nodeid }

end BlockDownload

def CNodeState.nValidated (state : CNodeState) : Nat :=
  state.vBlocksInFlight.countP fun p => p.2.fValidatedHeaders

namespace BlockDownload

def nValidated (s : BlockDownload) : Nat := TreeTotal.total CNodeState.nValidated s.mapNodeState

structure Accounted (s : BlockDownload) : Prop where
  listed : ∀ (hash : UInt256) (nodeid : NodeId) (it : Nat),
    s.mapBlocksInFlight[hash]? = some (nodeid, it) → ∃ (state : CNodeState) (entry : QueuedBlock),
      s.mapNodeState[nodeid]? = some state ∧ (it, entry) ∈ state.vBlocksInFlight ∧
        entry.hash = hash
  mapped : ∀ (nodeid : NodeId) (state : CNodeState) (p : Nat × QueuedBlock),
    s.mapNodeState[nodeid]? = some state → p ∈ state.vBlocksInFlight →
      s.mapBlocksInFlight[p.2.hash]? = some (nodeid, p.1)
  nodup : ∀ (nodeid : NodeId) (state : CNodeState), s.mapNodeState[nodeid]? = some state →
    (state.vBlocksInFlight.map Prod.fst).Nodup
  fresh : ∀ (nodeid : NodeId) (state : CNodeState) (p : Nat × QueuedBlock),
    s.mapNodeState[nodeid]? = some state → p ∈ state.vBlocksInFlight → p.1 < s.nextIterator
  length : ∀ (nodeid : NodeId) (state : CNodeState), s.mapNodeState[nodeid]? = some state →
    state.nBlocksInFlight = state.vBlocksInFlight.length

variable {s : BlockDownload}

theorem getElem?_insert_node (nodeid k : NodeId) (state : CNodeState) :
    (s.mapNodeState.insert nodeid state)[k]? =
      if nodeid = k then some state else s.mapNodeState[k]? := by
  simp [Std.TreeMap.getElem?_insert]

theorem getElem?_erase_node (nodeid k : NodeId) :
    (s.mapNodeState.erase nodeid)[k]? = if nodeid = k then none else s.mapNodeState[k]? := by
  simp [Std.TreeMap.getElem?_erase]

theorem forall_insert_node {P : CNodeState → Prop} {nodeid : NodeId} {state : CNodeState}
    (hnew : P state)
    (hold : ∀ (k : NodeId) (st : CNodeState), s.mapNodeState[k]? = some st → P st) :
    ∀ (k : NodeId) (st : CNodeState), (s.mapNodeState.insert nodeid state)[k]? = some st → P st := by
  intro k st hk
  rw [getElem?_insert_node] at hk
  split at hk
  · obtain rfl := Option.some.inj hk
    exact hnew
  · exact hold k st hk

theorem getElem?_of_erase_node {nodeid k : NodeId} {st : CNodeState}
    (h : (s.mapNodeState.erase nodeid)[k]? = some st) : s.mapNodeState[k]? = some st := by
  rw [getElem?_erase_node] at h
  split at h
  · simp at h
  · exact h

theorem getElem?_erase_inFlight (hash k : UInt256) :
    (s.mapBlocksInFlight.erase hash)[k]? = if hash = k then none else s.mapBlocksInFlight[k]? := by
  simp [Std.TreeMap.getElem?_erase]

-- the entry an iterator points at, and the list without it
theorem split_at_iterator {xs : List (Nat × QueuedBlock)} {it : Nat} {entry : QueuedBlock}
    (hnodup : (xs.map Prod.fst).Nodup) (hmem : (it, entry) ∈ xs) :
    ∃ l r, xs = l ++ (it, entry) :: r ∧ (xs.find? fun p => p.1 == it) = some (it, entry) ∧
      (xs.eraseP fun p => p.1 == it) = l ++ r ∧ ∀ p ∈ l ++ r, p.1 ≠ it := by
  obtain ⟨a, l, r, hl, ha, hxs, herase⟩ := List.exists_of_eraseP (p := fun p => p.1 == it) hmem
    (by simp)
  have hit : a.1 = it := by simpa using ha
  rw [hxs] at hnodup
  simp only [List.map_append, List.map_cons, List.nodup_append, List.nodup_cons] at hnodup
  have hothers : ∀ p ∈ l ++ r, p.1 ≠ it := by
    intro p hp
    rcases List.mem_append.mp hp with hp | hp
    · simpa using hl p hp
    · intro heq
      have hin : a.1 ∈ r.map Prod.fst := by
        rw [hit, ← heq]
        exact List.mem_map_of_mem hp
      exact hnodup.2.1.1 hin
  have haeq : a = (it, entry) := by
    rw [hxs] at hmem
    rcases List.mem_append.mp hmem with hp | hp
    · exact absurd rfl (hothers _ (List.mem_append_left r hp))
    · rcases List.mem_cons.mp hp with hp | hp
      · exact hp.symm
      · exact absurd rfl (hothers _ (List.mem_append_right l hp))
  subst haeq
  refine ⟨l, r, hxs, ?_, herase, hothers⟩
  rw [hxs, List.find?_append, List.find?_eq_none.mpr hl, Option.none_or]
  simp

theorem mem_eraseP_iterator {xs : List (Nat × QueuedBlock)} {it : Nat} {entry : QueuedBlock}
    (hnodup : (xs.map Prod.fst).Nodup) (hmem : (it, entry) ∈ xs) {p : Nat × QueuedBlock} :
    (p ∈ xs.eraseP fun q => q.1 == it) ↔ p ∈ xs ∧ p.1 ≠ it := by
  obtain ⟨l, r, hxs, -, herase, hothers⟩ := split_at_iterator hnodup hmem
  rw [herase]
  constructor
  · intro hp
    refine ⟨?_, hothers p hp⟩
    rw [hxs]
    rcases List.mem_append.mp hp with hp | hp
    · exact List.mem_append_left _ hp
    · exact List.mem_append_right l (List.mem_cons_of_mem _ hp)
  · rintro ⟨hp, hne⟩
    rw [hxs] at hp
    rcases List.mem_append.mp hp with hp | hp
    · exact List.mem_append_left r hp
    · rcases List.mem_cons.mp hp with rfl | hp
      · exact absurd rfl hne
      · exact List.mem_append_right l hp

-- what is left once an entry is taken off the list of its peer
def dequeue (s : BlockDownload) (nodeid : NodeId) (state : CNodeState) (it : Nat)
    (entry : QueuedBlock) : BlockDownload :=
  { s with
    nQueuedValidatedHeaders := s.nQueuedValidatedHeaders - if entry.fValidatedHeaders then 1 else 0
    mapNodeState := s.mapNodeState.insert nodeid
      { vBlocksInFlight := state.vBlocksInFlight.eraseP fun p => p.1 == it
        nBlocksInFlight := state.nBlocksInFlight - 1
        nStallingSince := 0 }
    mapBlocksInFlight := s.mapBlocksInFlight.erase entry.hash }

theorem Accounted.dequeue (h : s.Accounted) {nodeid : NodeId} {state : CNodeState} {it : Nat}
    {entry : QueuedBlock} (hstate : s.mapNodeState[nodeid]? = some state)
    (hmem : (it, entry) ∈ state.vBlocksInFlight) :
    (s.dequeue nodeid state it entry).Accounted := by
  have hnodup := h.nodup nodeid state hstate
  refine ⟨?_, ?_, ?_, ?_, ?_⟩
  · intro k n j hk
    simp only [BlockDownload.dequeue, getElem?_erase_inFlight, getElem?_insert_node] at hk ⊢
    split at hk
    · simp at hk
    · rename_i hne
      obtain ⟨state', entry', hstate', hmem', hhash'⟩ := h.listed k n j hk
      by_cases hn : nodeid = n
      · subst hn
        rw [hstate] at hstate'
        obtain rfl := Option.some.inj hstate'
        refine ⟨_, entry', if_pos rfl, (mem_eraseP_iterator hnodup hmem).mpr ⟨hmem', ?_⟩, hhash'⟩
        intro hj
        have heq := List.inj_on_of_nodup_map hnodup hmem' hmem hj
        rw [Prod.mk.injEq] at heq
        rw [heq.2] at hhash'
        exact hne hhash'
      · exact ⟨state', entry', by rw [if_neg hn]; exact hstate', hmem', hhash'⟩
  · intro n state' p hn hp
    simp only [BlockDownload.dequeue, getElem?_erase_inFlight, getElem?_insert_node] at hn ⊢
    have hkeep : s.mapBlocksInFlight[p.2.hash]? = some (n, p.1) ∧ (n = nodeid → p.1 ≠ it) := by
      split at hn
      · rename_i heq
        subst heq
        obtain rfl := Option.some.inj hn
        have hp' := (mem_eraseP_iterator hnodup hmem).mp hp
        exact ⟨h.mapped nodeid state p hstate hp'.1, fun _ => hp'.2⟩
      · rename_i hne
        exact ⟨h.mapped n state' p hn hp, fun heq => absurd heq.symm hne⟩
    rw [if_neg, hkeep.1]
    intro heq
    have hget := h.mapped nodeid state (it, entry) hstate hmem
    rw [heq, hkeep.1, Option.some.injEq, Prod.mk.injEq] at hget
    exact hkeep.2 hget.1 hget.2
  · exact forall_insert_node (hnodup.sublist (List.eraseP_sublist.map _)) h.nodup
  · intro n state' p hn
    refine forall_insert_node (P := fun st => p ∈ st.vBlocksInFlight → p.1 < s.nextIterator) ?_ ?_
      n state' hn
    · intro hp
      exact h.fresh nodeid state p hstate ((mem_eraseP_iterator hnodup hmem).mp hp).1
    · intro k st hk
      exact h.fresh k st p hk
  · refine forall_insert_node ?_ h.length
    have hlen := h.length nodeid state hstate
    obtain ⟨l, r, hxs, -, herase, -⟩ := split_at_iterator hnodup hmem
    rw [herase]
    simp only [hxs, List.length_append, List.length_cons] at hlen ⊢
    omega

theorem Accounted.nValidated_dequeue (h : s.Accounted) {nodeid : NodeId} {state : CNodeState}
    {it : Nat} {entry : QueuedBlock} (hstate : s.mapNodeState[nodeid]? = some state)
    (hmem : (it, entry) ∈ state.vBlocksInFlight) :
    (s.dequeue nodeid state it entry).nQueuedValidatedHeaders -
        (s.dequeue nodeid state it entry).nValidated =
      s.nQueuedValidatedHeaders - s.nValidated := by
  obtain ⟨l, r, hxs, -, herase, -⟩ := split_at_iterator (h.nodup nodeid state hstate) hmem
  simp only [nValidated, BlockDownload.dequeue, herase]
  rw [TreeTotal.total_insert_erase, TreeTotal.total_erase hstate]
  simp only [CNodeState.nValidated, hxs, List.countP_append, List.countP_cons]
  split <;> omega

theorem isSome_dequeue {nodeid : NodeId} {state : CNodeState} {it : Nat} {entry : QueuedBlock}
    (hstate : s.mapNodeState[nodeid]? = some state) (n : NodeId) :
    (s.dequeue nodeid state it entry).mapNodeState[n]?.isSome = s.mapNodeState[n]?.isSome := by
  rw [BlockDownload.dequeue, getElem?_insert_node]
  split
  · rename_i heq
    rw [← heq, hstate]
    rfl
  · rfl

theorem Accounted.markBlockAsReceived (h : s.Accounted) (hash : UInt256) :
    ∃ s', s.markBlockAsReceived hash = some s' ∧ s'.Accounted ∧
      s'.mapBlocksInFlight[hash]? = none ∧
      s'.nQueuedValidatedHeaders - s'.nValidated = s.nQueuedValidatedHeaders - s.nValidated ∧
      ∀ nodeid : NodeId, s'.mapNodeState[nodeid]?.isSome = s.mapNodeState[nodeid]?.isSome := by
  rw [BlockDownload.markBlockAsReceived]
  cases hget : s.mapBlocksInFlight[hash]? with
  | none => exact ⟨s, rfl, h, hget, rfl, fun _ => rfl⟩
  | some p =>
    obtain ⟨nodeid, it⟩ := p
    obtain ⟨state, entry, hstate, hmem, rfl⟩ := h.listed hash nodeid it hget
    obtain ⟨l, r, -, hfind, -, -⟩ := split_at_iterator (h.nodup nodeid state hstate) hmem
    simp only [hstate, hfind, Option.bind_eq_bind, Option.bind_some]
    refine ⟨s.dequeue nodeid state it entry, rfl, h.dequeue hstate hmem, ?_,
      h.nValidated_dequeue hstate hmem, isSome_dequeue hstate⟩
    rw [BlockDownload.dequeue, getElem?_erase_inFlight, if_pos rfl]

theorem getElem?_insert_inFlight (hash k : UInt256) (place : NodeId × Nat) :
    (s.mapBlocksInFlight.insert hash place)[k]? =
      if hash = k then some place else s.mapBlocksInFlight[k]? := by
  simp [Std.TreeMap.getElem?_insert]

theorem Accounted.enqueue (h : s.Accounted) {nodeid : NodeId} {state : CNodeState}
    (newentry : QueuedBlock) (hstate : s.mapNodeState[nodeid]? = some state)
    (hnew : s.mapBlocksInFlight[newentry.hash]? = none) :
    (s.enqueue nodeid state newentry).Accounted := by
  refine ⟨?_, ?_, ?_, ?_, ?_⟩
  · intro k n it hk
    simp only [BlockDownload.enqueue, getElem?_insert_inFlight, getElem?_insert_node] at hk ⊢
    split at hk
    · rename_i heq
      rw [Option.some.injEq, Prod.mk.injEq] at hk
      obtain ⟨rfl, rfl⟩ := hk
      exact ⟨_, newentry, if_pos rfl, by simp, heq⟩
    · obtain ⟨state', entry', hstate', hmem', hhash'⟩ := h.listed k n it hk
      by_cases hn : nodeid = n
      · subst hn
        rw [hstate] at hstate'
        obtain rfl := Option.some.inj hstate'
        exact ⟨_, entry', if_pos rfl, List.mem_append_left _ hmem', hhash'⟩
      · exact ⟨state', entry', by rw [if_neg hn]; exact hstate', hmem', hhash'⟩
  · intro n state' p hn hp
    simp only [BlockDownload.enqueue, getElem?_insert_inFlight, getElem?_insert_node] at hn ⊢
    have hold : ∀ state₀, s.mapNodeState[n]? = some state₀ → p ∈ state₀.vBlocksInFlight →
        (if newentry.hash = p.2.hash then some (nodeid, s.nextIterator)
          else s.mapBlocksInFlight[p.2.hash]?) = some (n, p.1) := by
      intro state₀ hs hp
      have hm := h.mapped n state₀ p hs hp
      rw [if_neg, hm]
      intro heq
      rw [← heq, hnew] at hm
      simp at hm
    split at hn
    · rename_i heq
      subst heq
      obtain rfl := Option.some.inj hn
      rcases List.mem_append.mp hp with hp | hp
      · exact hold state hstate hp
      · rw [List.mem_singleton] at hp
        subst hp
        rw [if_pos rfl]
    · exact hold state' hn hp
  · refine forall_insert_node ?_ h.nodup
    simp only [List.map_append, List.map_cons, List.map_nil]
    refine List.nodup_append.mpr ⟨h.nodup nodeid state hstate, by simp, ?_⟩
    intro a ha b hb
    obtain ⟨p, hp, rfl⟩ := List.mem_map.mp ha
    have hlt := h.fresh nodeid state p hstate hp
    rw [List.mem_singleton.mp hb]
    exact Nat.ne_of_lt hlt
  · intro n state' p hn
    refine forall_insert_node
      (P := fun st => p ∈ st.vBlocksInFlight → p.1 < s.nextIterator + 1) ?_ ?_ n state' hn
    · intro hp
      rcases List.mem_append.mp hp with hp | hp
      · exact Nat.lt_succ_of_lt (h.fresh nodeid state p hstate hp)
      · rw [List.mem_singleton.mp hp]
        exact Nat.lt_succ_self _
    · intro k st hk hp
      exact Nat.lt_succ_of_lt (h.fresh k st p hk hp)
  · refine forall_insert_node ?_ h.length
    have hlen := h.length nodeid state hstate
    simp [hlen]

theorem nValidated_enqueue {nodeid : NodeId} {state : CNodeState} (newentry : QueuedBlock)
    (hstate : s.mapNodeState[nodeid]? = some state) :
    (s.enqueue nodeid state newentry).nQueuedValidatedHeaders -
        (s.enqueue nodeid state newentry).nValidated =
      s.nQueuedValidatedHeaders - s.nValidated := by
  simp only [nValidated, BlockDownload.enqueue]
  rw [TreeTotal.total_insert_erase, TreeTotal.total_erase hstate]
  simp only [CNodeState.nValidated, List.countP_append, List.countP_cons, List.countP_nil]
  split <;> omega

theorem Accounted.markBlockAsInFlight (h : s.Accounted) {nodeid : NodeId} {hash : UInt256}
    {pindex : Option Nat} {nTime : Int} {s' : BlockDownload}
    (hs : s.markBlockAsInFlight nodeid hash pindex nTime = some s') :
    s'.Accounted ∧
      s'.nQueuedValidatedHeaders - s'.nValidated = s.nQueuedValidatedHeaders - s.nValidated := by
  obtain ⟨mid, hmid, hacc, hnone, hcount, -⟩ := h.markBlockAsReceived hash
  simp only [BlockDownload.markBlockAsInFlight, hmid, Option.bind_eq_bind, Option.bind_some,
    Option.bind_eq_some_iff, Option.some.injEq] at hs
  obtain ⟨-, -, state, hstate, rfl⟩ := hs
  exact ⟨hacc.enqueue _ hstate hnone, (nValidated_enqueue _ hstate).trans hcount⟩

theorem getElem?_foldl_erase (xs : List (Nat × QueuedBlock))
    (m : Std.TreeMap UInt256 (NodeId × Nat)) (k : UInt256) :
    (xs.foldl (fun m p => m.erase p.2.hash) m)[k]? =
      if k ∈ xs.map (fun p => p.2.hash) then none else m[k]? := by
  induction xs generalizing m with
  | nil => simp
  | cons p xs ih =>
    rw [List.foldl_cons, ih]
    by_cases hk : p.2.hash = k
    · simp [hk]
    · have hne : k ≠ p.2.hash := fun heq => hk heq.symm
      have herase : (m.erase p.2.hash)[k]? = m[k]? := by
        simp [Std.TreeMap.getElem?_erase, hk]
      simp only [herase, List.map_cons, List.mem_cons, hne, false_or]

theorem Accounted.finalizeNode (h : s.Accounted) {nodeid : NodeId} {state : CNodeState}
    (hstate : s.mapNodeState[nodeid]? = some state) {s' : BlockDownload}
    (hs : s.finalizeNode nodeid = some s') :
    s'.Accounted ∧ s'.nQueuedValidatedHeaders - s'.nValidated =
      s.nQueuedValidatedHeaders - s.nValidated + state.nValidated := by
  simp only [BlockDownload.finalizeNode, hstate, Option.bind_eq_bind, Option.bind_some,
    Option.some.injEq] at hs
  subst hs
  have hkept : ∀ (k : UInt256) (n : NodeId) (it : Nat), nodeid ≠ n →
      s.mapBlocksInFlight[k]? = some (n, it) →
        k ∉ state.vBlocksInFlight.map fun p => p.2.hash := by
    intro k n it hne hk hmem
    obtain ⟨p, hp, rfl⟩ := List.mem_map.mp hmem
    have hm := h.mapped nodeid state p hstate hp
    rw [hk, Option.some.injEq, Prod.mk.injEq] at hm
    exact hne hm.1.symm
  refine ⟨⟨?_, ?_, ?_, ?_, ?_⟩, ?_⟩
  · intro k n it hk
    simp only [getElem?_foldl_erase, getElem?_erase_node] at hk ⊢
    split at hk
    · simp at hk
    · rename_i hnot
      obtain ⟨state', entry', hstate', hmem', hhash'⟩ := h.listed k n it hk
      refine ⟨state', entry', ?_, hmem', hhash'⟩
      rw [if_neg, hstate']
      rintro rfl
      rw [hstate] at hstate'
      obtain rfl := Option.some.inj hstate'
      exact hnot (List.mem_map.mpr ⟨_, hmem', hhash'⟩)
  · intro n state' p hn hp
    simp only [getElem?_foldl_erase, getElem?_erase_node] at hn ⊢
    split at hn
    · simp at hn
    · rename_i hne
      have hm := h.mapped n state' p hn hp
      rw [if_neg (hkept _ n p.1 hne hm), hm]
  · intro n state' hn
    exact h.nodup n state' (getElem?_of_erase_node hn)
  · intro n state' p hn hp
    exact h.fresh n state' p (getElem?_of_erase_node hn) hp
  · intro n state' hn
    exact h.length n state' (getElem?_of_erase_node hn)
  · simp only [nValidated]
    rw [TreeTotal.total_erase hstate]
    omega

theorem Accounted.initializeNode (h : s.Accounted) (nodeid : NodeId) :
    (s.initializeNode nodeid).Accounted ∧
      (s.initializeNode nodeid).nQueuedValidatedHeaders - (s.initializeNode nodeid).nValidated =
        s.nQueuedValidatedHeaders - s.nValidated := by
  rw [BlockDownload.initializeNode]
  split
  · exact ⟨h, rfl⟩
  · rename_i hnew
    have hnone : s.mapNodeState[nodeid]? = none := by
      rw [Std.TreeMap.contains_eq_isSome_getElem?] at hnew
      simpa using hnew
    refine ⟨⟨?_, ?_, ?_, ?_, ?_⟩, ?_⟩
    · intro k n it hk
      obtain ⟨state', entry', hstate', hmem', hhash'⟩ := h.listed k n it hk
      refine ⟨state', entry', ?_, hmem', hhash'⟩
      rw [getElem?_insert_node, if_neg, hstate']
      rintro rfl
      rw [hnone] at hstate'
      simp at hstate'
    · intro n state' p hn hp
      rw [getElem?_insert_node] at hn
      split at hn
      · obtain rfl := Option.some.inj hn
        simp at hp
      · exact h.mapped n state' p hn hp
    · exact forall_insert_node (by simp) h.nodup
    · intro n state' p hn
      refine forall_insert_node (P := fun st => p ∈ st.vBlocksInFlight → p.1 < s.nextIterator)
        (by simp) ?_ n state' hn
      intro k st hk
      exact h.fresh k st p hk
    · exact forall_insert_node (by simp) h.length
    · simp only [nValidated]
      rw [TreeTotal.total_insert hnone]
      simp [CNodeState.nValidated]

-- The runs, with the number of validated headers that were in flight from peers torn down so far.
inductive Reachable : BlockDownload → Nat → Prop
  | start : Reachable {} 0
  | initializeNode (s : BlockDownload) (lost : Nat) (nodeid : NodeId) : Reachable s lost →
      Reachable (s.initializeNode nodeid) lost
  | markBlockAsInFlight (s s' : BlockDownload) (lost : Nat) (nodeid : NodeId) (hash : UInt256)
      (pindex : Option Nat) (nTime : Int) : Reachable s lost →
      s.markBlockAsInFlight nodeid hash pindex nTime = some s' → Reachable s' lost
  | markBlockAsReceived (s s' : BlockDownload) (lost : Nat) (hash : UInt256) : Reachable s lost →
      s.markBlockAsReceived hash = some s' → Reachable s' lost
  | finalizeNode (s s' : BlockDownload) (lost : Nat) (nodeid : NodeId) (state : CNodeState) :
      Reachable s lost → s.mapNodeState[nodeid]? = some state →
      s.finalizeNode nodeid = some s' → Reachable s' (lost + state.nValidated)

theorem accounted_empty : Accounted {} := by
  refine ⟨?_, ?_, ?_, ?_, ?_⟩ <;> simp

theorem Reachable.accounted {lost : Nat} (h : Reachable s lost) :
    s.Accounted ∧ s.nQueuedValidatedHeaders - s.nValidated = lost := by
  induction h with
  | start => exact ⟨accounted_empty, by simp [nValidated]⟩
  | initializeNode s lost nodeid _ ih =>
    obtain ⟨hacc, hcount⟩ := ih.1.initializeNode nodeid
    exact ⟨hacc, hcount.trans ih.2⟩
  | markBlockAsInFlight s s' lost nodeid hash pindex nTime _ hs ih =>
    obtain ⟨hacc, hcount⟩ := ih.1.markBlockAsInFlight hs
    exact ⟨hacc, hcount.trans ih.2⟩
  | markBlockAsReceived s s' lost hash _ hs ih =>
    obtain ⟨s'', hs'', hacc, -, hcount, -⟩ := ih.1.markBlockAsReceived hash
    rw [hs, Option.some.injEq] at hs''
    subst hs''
    exact ⟨hacc, hcount.trans ih.2⟩
  | finalizeNode s s' lost nodeid state _ hstate hs ih =>
    obtain ⟨hacc, hcount⟩ := ih.1.finalizeNode hstate hs
    refine ⟨hacc, ?_⟩
    rw [hcount, ih.2]
    simp

-- the iterator kept in mapBlocksInFlight never dangles
theorem Reachable.markBlockAsReceived_isSome {lost : Nat} (h : Reachable s lost) (hash : UInt256) :
    (s.markBlockAsReceived hash).isSome := by
  obtain ⟨s', hs', -⟩ := h.accounted.1.markBlockAsReceived hash
  rw [hs']
  rfl

theorem download_accounting {lost : Nat} (h : Reachable s lost) :
    (∀ hash : UInt256, hash ∈ s.mapBlocksInFlight →
      ∃! q : NodeId × (Nat × QueuedBlock), q.2.2.hash = hash ∧
        ∃ state : CNodeState, s.mapNodeState[q.1]? = some state ∧ q.2 ∈ state.vBlocksInFlight) ∧
    (∀ (nodeid : NodeId) (state : CNodeState) (p : Nat × QueuedBlock),
      s.mapNodeState[nodeid]? = some state → p ∈ state.vBlocksInFlight →
        s.mapBlocksInFlight[p.2.hash]? = some (nodeid, p.1)) ∧
    (∀ (nodeid : NodeId) (state : CNodeState), s.mapNodeState[nodeid]? = some state →
      state.nBlocksInFlight = state.vBlocksInFlight.length) ∧
    (s.nQueuedValidatedHeaders = s.nValidated ↔ lost = 0) := by
  obtain ⟨hacc, hcount⟩ := h.accounted
  refine ⟨?_, hacc.mapped, hacc.length, ?_⟩
  · intro hash hmem
    obtain ⟨⟨nodeid, it⟩, hget⟩ := Option.isSome_iff_exists.mp
      (Std.TreeMap.mem_iff_isSome_getElem?.mp hmem)
    obtain ⟨state, entry, hstate, hin, hhash⟩ := hacc.listed hash nodeid it hget
    refine ⟨(nodeid, it, entry), ⟨hhash, state, hstate, hin⟩, ?_⟩
    rintro ⟨n, j, e⟩ ⟨hhash', state', hstate', hin'⟩
    have hget' := hacc.mapped n state' (j, e) hstate' hin'
    rw [hhash', hget, Option.some.injEq, Prod.mk.injEq] at hget'
    obtain ⟨rfl, rfl⟩ := hget'
    rw [hstate] at hstate'
    obtain rfl := Option.some.inj hstate'
    obtain ⟨-, -, -, hfind, -⟩ := split_at_iterator (hacc.nodup _ _ hstate) hin
    obtain ⟨-, -, -, hfind', -⟩ := split_at_iterator (hacc.nodup _ _ hstate) hin'
    rw [hfind, Option.some.injEq] at hfind'
    rw [hfind']
  · omega

def fromPeer : Option BlockDownload :=
  (initializeNode {} 1).markBlockAsInFlight 1 7 (some 0) 0

def peerGone : Option BlockDownload := fromPeer.bind fun s => s.finalizeNode 1

theorem reachable_fromPeer : ∃ s, fromPeer = some s ∧ Reachable s 0 := by
  have hsome : fromPeer.isSome := by decide +kernel
  obtain ⟨s, hs⟩ := Option.isSome_iff_exists.mp hsome
  exact ⟨s, hs, .markBlockAsInFlight _ s 0 1 7 (some 0) 0 (.initializeNode _ 0 1 .start) hs⟩

theorem download_accounting_fromPeer :
    ∃ s, fromPeer = some s ∧ s.nValidated = 1 ∧ s.nQueuedValidatedHeaders = s.nValidated := by
  obtain ⟨s, hs, hreach⟩ := reachable_fromPeer
  have hone : fromPeer.map nValidated = some 1 := by decide +kernel
  rw [hs] at hone
  exact ⟨s, hs, by simpa using hone, (download_accounting hreach).2.2.2.mpr rfl⟩

theorem finalizeNode_keeps_counter :
    ∃ s lost, Reachable s lost ∧ s.mapBlocksInFlight.isEmpty ∧ s.nValidated = 0 ∧
      s.nQueuedValidatedHeaders = 1 := by
  obtain ⟨s, hs, hreach⟩ := reachable_fromPeer
  have hgone : peerGone.map (fun s => (s.mapBlocksInFlight.isEmpty, s.nValidated,
      s.nQueuedValidatedHeaders)) = some (true, 0, 1) := by decide +kernel
  obtain ⟨s', hs', hgone⟩ := Option.map_eq_some_iff.mp hgone
  simp only [Prod.mk.injEq] at hgone
  rw [peerGone, hs, Option.bind_some] at hs'
  obtain ⟨state, hstate, -⟩ := Option.bind_eq_some_iff.mp hs'
  exact ⟨s', _, .finalizeNode s s' 0 1 state hreach hstate hs', hgone⟩

end BlockDownload

end AnkerNode
