import AnkerNode.Swift.Run

namespace AnkerNode

inductive SwiftOp where
  | message (msg : SwiftMessage)
  | doConsensusVote (tx : CTransaction) (nBlockHeight : Int)
deriving DecidableEq, Repr

namespace SwiftState

def apply (s : SwiftState) (env : SwiftEnv) : SwiftOp → SwiftState
  | .message msg => s.step env msg
  | .doConsensusVote tx nBlockHeight => s.doConsensusVote env tx nBlockHeight

-- the newest operation stands first
def run : List (SwiftEnv × SwiftOp) → SwiftState
  | [] => {}
  | (env, op) :: log => (run log).apply env op

structure VotesDistinct (P : CConsensusVote → Prop) (s : SwiftState) : Prop where
  keyed : ∀ (h : UInt256) (lock : CTransactionLock), s.mapTxLocks[h]? = some lock →
    ∀ v ∈ lock.vecConsensusVotes, v.txHash = h ∧ P v
  recorded : ∀ (h : UInt256) (lock : CTransactionLock), s.mapTxLocks[h]? = some lock →
    ∀ v ∈ lock.vecConsensusVotes, (s.mapTxLockVote v.getHash).isSome = true
  nodup : ∀ (h : UInt256) (lock : CTransactionLock), s.mapTxLocks[h]? = some lock →
    (lock.vecConsensusVotes.map CConsensusVote.getHash).Nodup
  apart : ∀ (h h' : UInt256) (lock lock' : CTransactionLock), s.mapTxLocks[h]? = some lock →
    s.mapTxLocks[h']? = some lock' → h ≠ h' → ∀ v ∈ lock.vecConsensusVotes,
      ∀ v' ∈ lock'.vecConsensusVotes, v.getHash ≠ v'.getHash

-- Every lock of s' has the votes it has in s, or none.
structure KeepsVotes (s s' : SwiftState) : Prop where
  votes : ∀ (h : UInt256) (lock' : CTransactionLock), s'.mapTxLocks[h]? = some lock' →
    lock'.vecConsensusVotes = [] ∨ ∃ lock : CTransactionLock, s.mapTxLocks[h]? = some lock ∧
      lock'.vecConsensusVotes = lock.vecConsensusVotes
  recorded : ∀ k, (s.mapTxLockVote k).isSome = true → (s'.mapTxLockVote k).isSome = true

variable {P : CConsensusVote → Prop} {s s' s'' : SwiftState}

theorem KeepsVotes.refl (s : SwiftState) : KeepsVotes s s :=
  ⟨fun _ lock hl => .inr ⟨lock, hl, rfl⟩, fun _ h => h⟩

theorem KeepsVotes.trans (h : KeepsVotes s s') (h' : KeepsVotes s' s'') : KeepsVotes s s'' := by
  refine ⟨?_, fun k hk => h'.recorded k (h.recorded k hk)⟩
  intro k lock'' hl''
  rcases h'.votes k lock'' hl'' with hnil | ⟨lock', hl', heq'⟩
  · exact .inl hnil
  · rcases h.votes k lock' hl' with hnil | ⟨lock, hl, heq⟩
    · exact .inl (heq'.trans hnil)
    · exact .inr ⟨lock, hl, heq'.trans heq⟩

theorem VotesDistinct.keeps (h : VotesDistinct P s) (hk : KeepsVotes s s') : VotesDistinct P s' := by
  have hold : ∀ (k : UInt256) (lock' : CTransactionLock), s'.mapTxLocks[k]? = some lock' →
      ∀ v ∈ lock'.vecConsensusVotes, ∃ lock : CTransactionLock, s.mapTxLocks[k]? = some lock ∧
        v ∈ lock.vecConsensusVotes := by
    intro k lock' hl' v hv
    rcases hk.votes k lock' hl' with hnil | ⟨lock, hl, heq⟩
    · simp [hnil] at hv
    · exact ⟨lock, hl, heq ▸ hv⟩
  refine ⟨?_, ?_, ?_, ?_⟩
  · intro k lock' hl' v hv
    obtain ⟨lock, hl, hv⟩ := hold k lock' hl' v hv
    exact h.keyed k lock hl v hv
  · intro k lock' hl' v hv
    obtain ⟨lock, hl, hv⟩ := hold k lock' hl' v hv
    exact hk.recorded _ (h.recorded k lock hl v hv)
  · intro k lock' hl'
    rcases hk.votes k lock' hl' with hnil | ⟨lock, hl, heq⟩
    · simp [hnil]
    · rw [heq]
      exact h.nodup k lock hl
  · intro k k' lock lock' hl hl' hne v hv v' hv'
    obtain ⟨l, hl, hv⟩ := hold k lock hl v hv
    obtain ⟨l', hl', hv'⟩ := hold k' lock' hl' v' hv'
    exact h.apart k k' l l' hl hl' hne v hv v' hv'

theorem getElem?_insert_lock (locks : Std.TreeMap UInt256 CTransactionLock) (k h : UInt256)
    (lock : CTransactionLock) :
    (locks.insert k lock)[h]? = if k = h then some lock else locks[h]? := by
  simp [Std.TreeMap.getElem?_insert]

theorem keepsVotes_insert {k : UInt256} {lock : CTransactionLock}
    (h : lock.vecConsensusVotes = [] ∨ ∃ l : CTransactionLock, s.mapTxLocks[k]? = some l ∧
      lock.vecConsensusVotes = l.vecConsensusVotes) :
    KeepsVotes s { s with mapTxLocks := s.mapTxLocks.insert k lock } := by
  refine ⟨?_, fun _ hk => hk⟩
  intro k' lock' hl'
  rw [getElem?_insert_lock] at hl'
  split at hl'
  · rename_i heq
    subst heq
    obtain rfl := Option.some.inj hl'
    exact h
  · exact .inr ⟨lock', hl', rfl⟩

theorem keepsVotes_createNewLock (s : SwiftState) (env : SwiftEnv) (tx : CTransaction) :
    KeepsVotes s (s.createNewLock env tx).1 := by
  simp only [createNewLock]
  split
  · exact .refl s
  · refine keepsVotes_insert ?_
    cases hl : s.mapTxLocks[tx.hash]? with
    | none => exact .inl rfl
    | some lock => exact .inr ⟨lock, rfl, rfl⟩

theorem keepsVotes_recordVote (s : SwiftState) (k : UInt256) (v : CConsensusVote) :
    KeepsVotes s { s with mapTxLockVote := Function.update s.mapTxLockVote k (some v) } := by
  refine ⟨fun _ lock hl => .inr ⟨lock, hl, rfl⟩, ?_⟩
  intro k' hk'
  simp only [Function.update_apply]
  split
  · rfl
  · exact hk'

theorem keepsVotes_doConsensusVote (s : SwiftState) (env : SwiftEnv) (tx : CTransaction)
    (nBlockHeight : Int) : KeepsVotes s (s.doConsensusVote env tx nBlockHeight) := by
  rcases doConsensusVote_cases s env tx nBlockHeight with heq | ⟨ctx, heq⟩
  · rw [heq]
    exact .refl s
  · rw [heq]
    exact keepsVotes_recordVote s _ ctx

theorem keepsVotes_expire (s : SwiftState) (env : SwiftEnv) (k : UInt256) :
    KeepsVotes s (s.expire env k) := by
  simp only [expire]
  split
  · exact .refl s
  · rename_i lock hl
    exact keepsVotes_insert (.inr ⟨lock, hl, rfl⟩)

theorem keepsVotes_checkForConflictingLocks (s : SwiftState) (env : SwiftEnv) (tx : CTransaction) :
    KeepsVotes s (s.checkForConflictingLocks env tx).1 := by
  simp only [checkForConflictingLocks]
  split
  · exact .refl s
  · rename_i other _
    exact (keepsVotes_expire s env tx.hash).trans (keepsVotes_expire _ env other)

theorem keepsVotes_of_eq (hlocks : s'.mapTxLocks = s.mapTxLocks)
    (hvotes : s'.mapTxLockVote = s.mapTxLockVote) : KeepsVotes s s' := by
  refine ⟨?_, fun k hk => by rw [hvotes]; exact hk⟩
  intro k lock hl
  rw [hlocks] at hl
  exact .inr ⟨lock, hl, rfl⟩

theorem keepsVotes_resolveConflicts (s : SwiftState) (env : SwiftEnv) (tx : CTransaction) :
    KeepsVotes s (s.resolveConflicts env tx) := by
  have hcheck := keepsVotes_checkForConflictingLocks s env tx
  rcases resolveConflicts_cases s env tx with heq | heq | heq
  · rw [heq]
    exact .refl s
  · rw [heq]
    exact hcheck
  · rw [heq]
    exact hcheck.trans (keepsVotes_of_eq rfl rfl)

theorem keepsVotes_completeLock (s : SwiftState) (env : SwiftEnv) (txHash : UInt256) :
    KeepsVotes s (s.completeLock env txHash) := by
  have htouch : KeepsVotes s (s.touchRequest txHash) := keepsVotes_of_eq rfl rfl
  obtain ⟨tx, -, heq⟩ := completeLock_cases s env txHash
  have hcheck := keepsVotes_checkForConflictingLocks (s.touchRequest txHash) env tx
  rcases heq with heq | heq
  · rw [heq]
    exact htouch.trans hcheck
  · rw [heq]
    exact (htouch.trans hcheck).trans (keepsVotes_of_eq rfl rfl)

theorem keepsVotes_processIX (s : SwiftState) (env : SwiftEnv) (tx : CTransaction) :
    KeepsVotes s (s.processIX env tx) := by
  have hlock := keepsVotes_createNewLock s env tx
  simp only [processIX]
  split
  · exact .refl s
  · split
    · exact (hlock.trans (keepsVotes_doConsensusVote _ env tx _)).trans (keepsVotes_of_eq rfl rfl)
    · refine (hlock.trans ?_).trans (keepsVotes_resolveConflicts _ env tx)
      exact keepsVotes_of_eq rfl rfl

def voteAdded (s : SwiftState) (env : SwiftEnv) (ctx : CConsensusVote) : SwiftState :=
  { s with
    mapTxLockVote := Function.update s.mapTxLockVote ctx.getHash (some ctx)
    mapTxLocks := s.mapTxLocks.insert ctx.txHash
      (((s.mapTxLocks[ctx.txHash]?).getD (env.newLock ctx.txHash 0)).addSignature ctx) }

theorem mem_voteAdded {env : SwiftEnv} {ctx v : CConsensusVote} {k : UInt256}
    {lock' : CTransactionLock} (hl' : (s.voteAdded env ctx).mapTxLocks[k]? = some lock')
    (hv : v ∈ lock'.vecConsensusVotes) : (v = ctx ∧ k = ctx.txHash) ∨
      ∃ lock : CTransactionLock, s.mapTxLocks[k]? = some lock ∧ v ∈ lock.vecConsensusVotes := by
  rw [voteAdded, getElem?_insert_lock] at hl'
  split at hl'
  · rename_i heq
    subst heq
    obtain rfl := Option.some.inj hl'
    rcases List.mem_append.mp hv with hv | hv
    · cases hl : s.mapTxLocks[ctx.txHash]? with
      | none => simp [hl, SwiftEnv.newLock] at hv
      | some lock =>
        rw [hl, Option.getD_some] at hv
        exact .inr ⟨lock, rfl, hv⟩
    · exact .inl ⟨List.mem_singleton.mp hv, rfl⟩
  · exact .inr ⟨lock', hl', hv⟩

-- A vote gets into a lock only while its key is not recorded, so the key is new to every lock.
theorem VotesDistinct.addVote (h : VotesDistinct P s) {ctx : CConsensusVote} (env : SwiftEnv)
    (hnew : s.mapTxLockVote ctx.getHash = none) (hP : P ctx) :
    VotesDistinct P (s.voteAdded env ctx) := by
  have hfresh : ∀ (k : UInt256) (lock : CTransactionLock), s.mapTxLocks[k]? = some lock →
      ∀ v ∈ lock.vecConsensusVotes, v.getHash ≠ ctx.getHash := by
    intro k lock hl v hv heq
    have hrec := h.recorded k lock hl v hv
    rw [heq, hnew] at hrec
    simp at hrec
  refine ⟨?_, ?_, ?_, ?_⟩
  · intro k lock' hl' v hv
    rcases mem_voteAdded hl' hv with ⟨rfl, rfl⟩ | ⟨lock, hl, hv⟩
    · exact ⟨rfl, hP⟩
    · exact h.keyed k lock hl v hv
  · intro k lock' hl' v hv
    simp only [voteAdded, Function.update_apply]
    split
    · rfl
    · rename_i hne
      rcases mem_voteAdded hl' hv with ⟨rfl, -⟩ | ⟨lock, hl, hv⟩
      · exact absurd rfl hne
      · exact h.recorded k lock hl v hv
  · intro k lock' hl'
    simp only [voteAdded, getElem?_insert_lock] at hl'
    split at hl'
    · obtain rfl := Option.some.inj hl'
      simp only [CTransactionLock.addSignature, List.map_append, List.map_cons, List.map_nil]
      cases hl : s.mapTxLocks[ctx.txHash]? with
      | none => simp [SwiftEnv.newLock]
      | some lock =>
        rw [Option.getD_some, List.nodup_append]
        refine ⟨h.nodup _ lock hl, by simp, ?_⟩
        intro a ha b hb
        obtain ⟨v, hv, rfl⟩ := List.mem_map.mp ha
        rw [List.mem_singleton.mp hb]
        exact hfresh _ lock hl v hv
    · exact h.nodup k lock' hl'
  · intro k k' lock lock' hl hl' hne v hv v' hv'
    rcases mem_voteAdded hl hv with ⟨rfl, rfl⟩ | ⟨l, hold, hin⟩
    · rcases mem_voteAdded hl' hv' with ⟨-, rfl⟩ | ⟨l', hold', hin'⟩
      · exact absurd rfl hne
      · exact (hfresh k' l' hold' v' hin').symm
    · rcases mem_voteAdded hl' hv' with ⟨rfl, rfl⟩ | ⟨l', hold', hin'⟩
      · exact hfresh k l hold v hin
      · exact h.apart k k' l l' hold hold' hne v hin v' hin'

def Admits (env : SwiftEnv) (ctx : CConsensusVote) : Prop :=
  env.getMasternodeRank ctx.vinMasternode ctx.nBlockHeight ≠ -1 ∧
    env.getMasternodeRank ctx.vinMasternode ctx.nBlockHeight ≤ SWIFTTX_SIGNATURES_TOTAL ∧
    env.signatureValid ctx = true

theorem VotesDistinct.processTXLVote (h : VotesDistinct P s) (env : SwiftEnv) (ctx : CConsensusVote)
    (hP : Admits env ctx → P ctx) : VotesDistinct P (s.processTXLVote env ctx) := by
  simp only [SwiftState.processTXLVote]
  split
  · exact h
  · rename_i hpass
    have hnew : s.mapTxLockVote ctx.getHash = none := by
      simp only [Bool.or_eq_true, not_or, Option.not_isSome_iff_eq_none] at hpass
      exact hpass.2
    simp only [processConsensusVote]
    split
    · exact h.keeps (keepsVotes_recordVote s _ ctx)
    · rename_i hvalid
      simp only [Bool.or_eq_true, beq_iff_eq, decide_eq_true_eq, Bool.not_eq_true', not_or,
        Int.not_lt, Bool.not_eq_false] at hvalid
      have hadd := h.addVote env hnew (hP ⟨hvalid.1.1, hvalid.1.2, hvalid.2⟩)
      split
      · exact hadd.keeps (keepsVotes_completeLock _ env ctx.txHash)
      · exact hadd

theorem mapTxLockVote_unlockTx (s : SwiftState) (lock : CTransactionLock) (k : UInt256)
    (hk : k ∉ lock.vecConsensusVotes.map CConsensusVote.getHash) :
    (s.unlockTx lock).mapTxLockVote k = s.mapTxLockVote k := by
  simp only [unlockTx]
  split
  · rfl
  · exact Table.writeAll_of_not_mem hk

theorem getElem?_cleanLock (env : SwiftEnv) (s : SwiftState) (it : UInt256 × CTransactionLock)
    {k : UInt256} (hk : it.1 ≠ k) :
    (cleanLock env s it).mapTxLocks[k]? = s.mapTxLocks[k]? := by
  simp only [cleanLock]
  split
  · simp [mapTxLocks_unlockTx, Std.TreeMap.getElem?_erase, hk]
  · rfl

theorem VotesDistinct.cleanLock (h : VotesDistinct P s) (env : SwiftEnv)
    {it : UInt256 × CTransactionLock} (hit : s.mapTxLocks[it.1]? = some it.2) :
    VotesDistinct P (SwiftState.cleanLock env s it) := by
  simp only [SwiftState.cleanLock]
  split
  · have hget : ∀ (k : UInt256) (lock : CTransactionLock),
        ((s.unlockTx it.2).mapTxLocks.erase it.1)[k]? = some lock →
        it.1 ≠ k ∧ s.mapTxLocks[k]? = some lock := by
      intro k lock hl
      rw [mapTxLocks_unlockTx, Std.TreeMap.getElem?_erase] at hl
      split at hl
      · simp at hl
      · rename_i hne
        exact ⟨fun heq => hne (by simp [heq]), hl⟩
    refine ⟨?_, ?_, ?_, ?_⟩
    · intro k lock hl
      exact h.keyed k lock (hget k lock hl).2
    · intro k lock hl v hv
      obtain ⟨hne, hold⟩ := hget k lock hl
      change ((s.unlockTx it.2).mapTxLockVote v.getHash).isSome = true
      rw [mapTxLockVote_unlockTx]
      · exact h.recorded k lock hold v hv
      · intro hmem
        obtain ⟨w, hw, heq⟩ := List.mem_map.mp hmem
        exact h.apart it.1 k it.2 lock hit hold hne w hw v hv heq
    · intro k lock hl
      exact h.nodup k lock (hget k lock hl).2
    · intro k k' lock lock' hl hl'
      exact h.apart k k' lock lock' (hget k lock hl).2 (hget k' lock' hl').2
  · exact h

theorem VotesDistinct.foldl_cleanLock (h : VotesDistinct P s) (env : SwiftEnv)
    {its : List (UInt256 × CTransactionLock)} (hits : ∀ it ∈ its, s.mapTxLocks[it.1]? = some it.2)
    (hkeys : its.Pairwise fun a b => a.1 ≠ b.1) :
    VotesDistinct P (its.foldl (SwiftState.cleanLock env) s) := by
  induction its generalizing s with
  | nil => exact h
  | cons it its ih =>
    rw [List.pairwise_cons] at hkeys
    refine ih (h.cleanLock env (hits it (by simp))) ?_ hkeys.2
    intro it' hit'
    rw [getElem?_cleanLock env s it (hkeys.1 it' hit')]
    exact hits it' (by simp [hit'])

theorem VotesDistinct.cleanTransactionLocksList (h : VotesDistinct P s) (env : SwiftEnv) :
    VotesDistinct P (s.cleanTransactionLocksList env) := by
  simp only [SwiftState.cleanTransactionLocksList]
  split
  · exact h
  · refine h.foldl_cleanLock env ?_ ?_
    · rintro ⟨k, lock⟩ hmem
      exact Std.TreeMap.mem_toList_iff_getElem?_eq_some.mp hmem
    · refine (Std.TreeMap.distinct_keys_toList (t := s.mapTxLocks)).imp ?_
      intro a b hab heq
      exact hab (by simp [heq])

def Admitted (log : List (SwiftEnv × SwiftOp)) (v : CConsensusVote) : Prop :=
  ∃ env, (env, SwiftOp.message (.txlvote v)) ∈ log ∧ Admits env v

theorem VotesDistinct.mono {Q : CConsensusVote → Prop} (h : VotesDistinct P s)
    (hPQ : ∀ v, P v → Q v) : VotesDistinct Q s :=
  ⟨fun k lock hl v hv => ⟨(h.keyed k lock hl v hv).1, hPQ v (h.keyed k lock hl v hv).2⟩, h.recorded,
    h.nodup, h.apart⟩

theorem votesDistinct_run (log : List (SwiftEnv × SwiftOp)) :
    VotesDistinct (Admitted log) (run log) := by
  induction log with
  | nil => exact ⟨by simp [run], by simp [run], by simp [run], by simp [run]⟩
  | cons p log ih =>
    obtain ⟨env, op⟩ := p
    have hmore : VotesDistinct (Admitted ((env, op) :: log)) (run log) := by
      refine ih.mono ?_
      rintro v ⟨e, he, hadm⟩
      exact ⟨e, List.mem_cons_of_mem _ he, hadm⟩
    cases op with
    | doConsensusVote tx nBlockHeight => exact hmore.keeps (keepsVotes_doConsensusVote _ env tx _)
    | message msg =>
      cases msg with
      | ix tx => exact hmore.keeps (keepsVotes_processIX _ env tx)
      | txlvote ctx =>
        refine hmore.processTXLVote env ctx ?_
        intro hadm
        exact ⟨env, List.mem_cons_self, hadm⟩
      | cleanTransactionLocksList => exact hmore.cleanTransactionLocksList env

theorem lock_votes_distinct (log : List (SwiftEnv × SwiftOp)) (txHash : UInt256)
    (lock : CTransactionLock) (hlock : (run log).mapTxLocks[txHash]? = some lock) :
    (lock.vecConsensusVotes.map fun v => v.vinMasternode.prevout).Nodup ∧
      (∀ v ∈ lock.vecConsensusVotes, ∃ env, (env, SwiftOp.message (.txlvote v)) ∈ log ∧
        env.getMasternodeRank v.vinMasternode v.nBlockHeight ≠ -1 ∧
        env.getMasternodeRank v.vinMasternode v.nBlockHeight ≤ SWIFTTX_SIGNATURES_TOTAL ∧
        env.signatureValid v = true) ∧
      (0 ≤ lock.countSignatures → ∃ votes : List CConsensusVote,
        votes.Sublist lock.vecConsensusVotes ∧ (votes.length : Int) = lock.countSignatures ∧
        (∀ v ∈ votes, v.nBlockHeight = lock.nBlockHeight) ∧
        (votes.map fun v => v.vinMasternode.prevout).Nodup) := by
  have h := votesDistinct_run log
  have hkeys := h.nodup txHash lock hlock
  have hdistinct : (lock.vecConsensusVotes.map fun v => v.vinMasternode.prevout).Nodup := by
    rw [List.Nodup, List.pairwise_map] at hkeys ⊢
    refine hkeys.imp_of_mem ?_
    intro a b ha hb hne heq
    apply hne
    rw [CConsensusVote.getHash, CConsensusVote.getHash, heq, (h.keyed txHash lock hlock a ha).1,
      (h.keyed txHash lock hlock b hb).1]
  refine ⟨hdistinct, fun v hv => (h.keyed txHash lock hlock v hv).2, ?_⟩
  intro hcount
  have hheight : lock.nBlockHeight ≠ 0 := by
    intro hzero
    simp [CTransactionLock.countSignatures, hzero] at hcount
  refine ⟨lock.vecConsensusVotes.filter fun v => v.nBlockHeight == lock.nBlockHeight,
    List.filter_sublist, ?_, ?_, ?_⟩
  · rw [CTransactionLock.countSignatures, if_neg hheight, List.countP_eq_length_filter]
  · intro v hv
    simpa using (List.mem_filter.mp hv).2
  · exact hdistinct.sublist (List.filter_sublist.map _)

def votedLog : List (SwiftEnv × SwiftOp) :=
  ((List.range 6).map fun n =>
    (plainEnv (some spentCoins), SwiftOp.message (.txlvote (lockVote (n % 4))))) ++
    [(plainEnv (some spentCoins), .message (.ix lockTx))]

theorem lock_votes_distinct_repeated :
    ∃ lock, (run votedLog).mapTxLocks[(9 : UInt256)]? = some lock ∧ lock.countSignatures = 4 ∧
      (lock.vecConsensusVotes.map fun v => v.vinMasternode.prevout).Nodup := by
  have hcount : ((run votedLog).mapTxLocks[(9 : UInt256)]?).map CTransactionLock.countSignatures =
      some 4 := by decide +kernel
  obtain ⟨lock, hlock, hfour⟩ := Option.map_eq_some_iff.mp hcount
  exact ⟨lock, hlock, hfour, (lock_votes_distinct votedLog 9 lock hlock).1⟩

end SwiftState

namespace SwiftState

def processAll (s : SwiftState) (log : List (SwiftEnv × SwiftMessage)) : SwiftState :=
  log.foldl (fun s p => s.step p.1 p.2) s

structure SameLocks (s s' : SwiftState) : Prop where
  locks : s'.mapTxLocks = s.mapTxLocks
  inputs : s'.mapLockedInputs = s.mapLockedInputs
  requests : s'.mapTxLockReq = s.mapTxLockReq

-- Whatever is received in between, a valid vote of the masternode of `ctx` for the transaction of
-- `ctx` has the same effect after `s'` as after `s`.
def CountedAlike (ctx : CConsensusVote) (s s' : SwiftState) : Prop :=
  ∀ (log : List (SwiftEnv × SwiftMessage)) (env : SwiftEnv) (vote : CConsensusVote),
    vote.vinMasternode.prevout = ctx.vinMasternode.prevout → vote.txHash = ctx.txHash →
      Admits env vote →
        SameLocks ((s.processAll log).processTXLVote env vote)
          ((s'.processAll log).processTXLVote env vote)

variable {s : SwiftState} {env : SwiftEnv} {ctx : CConsensusVote}

theorem processConsensusVote_of_not_admits (h : ¬ Admits env ctx) :
    s.processConsensusVote env ctx = s := by
  simp only [processConsensusVote]
  split
  · rfl
  · rename_i hvalid
    simp only [Bool.or_eq_true, beq_iff_eq, decide_eq_true_eq, Bool.not_eq_true', not_or,
      Int.not_lt, Bool.not_eq_false] at hvalid
    exact absurd ⟨hvalid.1.1, hvalid.1.2, hvalid.2⟩ h

def recorded (s : SwiftState) (ctx : CConsensusVote) : SwiftState :=
  { s with mapTxLockVote := Function.update s.mapTxLockVote ctx.getHash (some ctx) }

theorem processTXLVote_of_seen (h : (s.mapTxLockVote ctx.getHash).isSome = true) :
    s.processTXLVote env ctx = s := by
  simp [processTXLVote, h]

theorem processTXLVote_rejected (hrej : ¬ Admits env ctx) (hon : env.fEnabled = true)
    (hnew : s.mapTxLockVote ctx.getHash = none) :
    s.processTXLVote env ctx = s.recorded ctx := by
  simp only [processTXLVote, hon, hnew, Bool.not_true, Option.isSome_none, Bool.or_false,
    Bool.false_eq_true, if_false]
  exact processConsensusVote_of_not_admits hrej

theorem mapTxLocks_expire_votes (s : SwiftState) (env : SwiftEnv) (h k : UInt256) :
    ((s.expire env h).mapTxLocks[k]?).map CTransactionLock.vecConsensusVotes =
      (s.mapTxLocks[k]?).map CTransactionLock.vecConsensusVotes := by
  simp only [expire]
  split
  · rfl
  · rename_i lock hl
    rw [getElem?_insert_lock]
    split
    · rename_i heq
      subst heq
      simp [hl]
    · rfl

theorem votes_completeLock (s : SwiftState) (env : SwiftEnv) (h k : UInt256) :
    ((s.completeLock env h).mapTxLocks[k]?).map CTransactionLock.vecConsensusVotes =
      (s.mapTxLocks[k]?).map CTransactionLock.vecConsensusVotes := by
  have hcheck : ∀ (s : SwiftState) (tx : CTransaction),
      ((s.checkForConflictingLocks env tx).1.mapTxLocks[k]?).map
          CTransactionLock.vecConsensusVotes =
        (s.mapTxLocks[k]?).map CTransactionLock.vecConsensusVotes := by
    intro s tx
    simp only [checkForConflictingLocks]
    split
    · rfl
    · rw [mapTxLocks_expire_votes, mapTxLocks_expire_votes]
  obtain ⟨tx, -, heq⟩ := completeLock_cases s env h
  rcases heq with heq | heq
  · rw [heq]
    exact hcheck (s.touchRequest h) tx
  · rw [heq]
    exact hcheck (s.touchRequest h) tx

theorem votes_processTXLVote_admitted (hadm : Admits env ctx) (hon : env.fEnabled = true)
    (hnew : s.mapTxLockVote ctx.getHash = none) :
    ((s.processTXLVote env ctx).mapTxLocks[ctx.txHash]?).map CTransactionLock.vecConsensusVotes =
      some (((s.mapTxLocks[ctx.txHash]?).elim [] CTransactionLock.vecConsensusVotes) ++ [ctx]) := by
  obtain ⟨hknown, htop, hsig⟩ := hadm
  have hvalid : (env.getMasternodeRank ctx.vinMasternode ctx.nBlockHeight == -1 ||
      decide (SWIFTTX_SIGNATURES_TOTAL < env.getMasternodeRank ctx.vinMasternode ctx.nBlockHeight) ||
      !env.signatureValid ctx) = false := by
    simp [hknown, htop, hsig]
  have hvotes : ((s.voteAdded env ctx).mapTxLocks[ctx.txHash]?).map
      CTransactionLock.vecConsensusVotes =
        some (((s.mapTxLocks[ctx.txHash]?).elim [] CTransactionLock.vecConsensusVotes) ++
          [ctx]) := by
    rw [voteAdded, getElem?_insert_lock, if_pos rfl]
    cases s.mapTxLocks[ctx.txHash]? with
    | none => rfl
    | some lock => rfl
  simp only [processTXLVote, hon, hnew, Bool.not_true, Option.isSome_none, Bool.or_false,
    Bool.false_eq_true, if_false, processConsensusVote, hvalid]
  split
  · rw [votes_completeLock]
    exact hvotes
  · exact hvotes

-- the same vote from a masternode that is known, ranked first and signs rightly
def admitting (env : SwiftEnv) : SwiftEnv :=
  { env with fEnabled := true, getMasternodeRank := fun _ _ => 1, signatureValid := fun _ => true }

theorem admits_admitting (env : SwiftEnv) (ctx : CConsensusVote) : Admits (admitting env) ctx :=
  ⟨by simp [admitting], by simp [admitting, SWIFTTX_SIGNATURES_TOTAL], rfl⟩

theorem not_countedAlike_recorded (hnew : s.mapTxLockVote ctx.getHash = none) (env : SwiftEnv) :
    ¬ CountedAlike ctx s (s.recorded ctx) := by
  intro hsame
  have hlocks := (hsame [] (admitting env) ctx rfl rfl (admits_admitting env ctx)).locks
  have hseen : ((s.recorded ctx).mapTxLockVote ctx.getHash).isSome = true := by
    simp [recorded]
  simp only [processAll, List.foldl_nil] at hlocks
  rw [processTXLVote_of_seen hseen] at hlocks
  have hvotes := votes_processTXLVote_admitted (admits_admitting env ctx) rfl hnew
  rw [← hlocks] at hvotes
  change (s.mapTxLocks[ctx.txHash]?).map _ = _ at hvotes
  cases hl : s.mapTxLocks[ctx.txHash]? with
  | none => simp [hl] at hvotes
  | some lock => simp [hl] at hvotes

theorem rejected_vote_countedAlike_iff (s : SwiftState) (env : SwiftEnv) (ctx : CConsensusVote)
    (hrej : ¬ Admits env ctx) :
    CountedAlike ctx s (s.processTXLVote env ctx) ↔
      (env.fEnabled = true → (s.mapTxLockVote ctx.getHash).isSome = true) := by
  cases hon : env.fEnabled with
  | false =>
    have hsame : s.processTXLVote env ctx = s := by simp [processTXLVote, hon]
    rw [hsame]
    exact iff_of_true (fun _ _ _ _ _ _ => ⟨rfl, rfl, rfl⟩) (by simp)
  | true =>
    cases hkey : s.mapTxLockVote ctx.getHash with
    | some vote =>
      rw [processTXLVote_of_seen (by simp [hkey])]
      exact iff_of_true (fun _ _ _ _ _ _ => ⟨rfl, rfl, rfl⟩) (by simp)
    | none =>
      rw [processTXLVote_rejected hrej hon hkey]
      exact iff_of_false (not_countedAlike_recorded hkey env) (by simp)

def signedEnv : SwiftEnv :=
  { plainEnv (some spentCoins) with
    signatureValid := fun vote => vote.vchMasterNodeSignature == [1] }

def signedVote (signature : List UInt8) : CConsensusVote :=
  { lockVote 0 with vchMasterNodeSignature := signature }

theorem rejected_vote_countedAlike_seen :
    CountedAlike (signedVote [2]) ((votedRun 0).processTXLVote signedEnv (signedVote [1]))
      (((votedRun 0).processTXLVote signedEnv (signedVote [1])).processTXLVote signedEnv
        (signedVote [2])) := by
  refine (rejected_vote_countedAlike_iff _ signedEnv (signedVote [2]) ?_).mpr ?_
  · rintro ⟨-, -, hsig⟩
    exact absurd hsig (by decide)
  · decide +kernel

theorem forged_vote_drops_valid :
    (signedVote [2]).vinMasternode = (signedVote [1]).vinMasternode ∧
      ¬ Admits signedEnv (signedVote [2]) ∧ Admits signedEnv (signedVote [1]) ∧
      ¬ CountedAlike (signedVote [2]) (votedRun 0)
        ((votedRun 0).processTXLVote signedEnv (signedVote [2])) ∧
      ((votedRun 0).processTXLVote signedEnv (signedVote [1])).countSignatures 9 = some 1 ∧
      (((votedRun 0).processTXLVote signedEnv (signedVote [2])).processTXLVote signedEnv
        (signedVote [1])).countSignatures 9 = some 0 := by
  have hforged : ¬ Admits signedEnv (signedVote [2]) := by
    rintro ⟨-, -, hsig⟩
    exact absurd hsig (by decide)
  have hvalid : Admits signedEnv (signedVote [1]) := ⟨by decide, by decide, by decide⟩
  refine ⟨rfl, hforged, hvalid, ?_, by decide +kernel, by decide +kernel⟩
  rw [processTXLVote_rejected hforged rfl (by decide +kernel)]
  exact not_countedAlike_recorded (by decide +kernel) signedEnv

end SwiftState

end AnkerNode
