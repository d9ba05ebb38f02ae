import AnkerNode.Swift.SwiftTx

namespace AnkerNode

namespace SwiftState

-- Every locked input belongs to a complete lock, and to a request that lists it.
structure LocksBacked (s : SwiftState) : Prop where
  keyed : ∀ (h : UInt256) (lock : CTransactionLock), s.mapTxLocks[h]? = some lock → lock.txHash = h
  complete : ∀ o h, s.mapLockedInputs o = some h → s.isComplete h = true
  requested : ∀ o h, s.mapLockedInputs o = some h →
    ∃ tx : CTransaction, s.mapTxLockReq h = some tx ∧ o ∈ tx.prevouts

theorem isComplete_iff {s : SwiftState} {h : UInt256} :
    s.isComplete h = true ↔
      ∃ lock, s.mapTxLocks[h]? = some lock ∧
        SWIFTTX_SIGNATURES_REQUIRED ≤ lock.countSignatures := by
  cases hl : s.mapTxLocks[h]? <;> simp [isComplete, countSignatures, hl]

theorem isComplete_congr {s' : SwiftState} (s : SwiftState) {h : UInt256}
    (heq : s'.mapTxLocks[h]? = s.mapTxLocks[h]?) : s'.isComplete h = s.isComplete h := by
  simp [isComplete, countSignatures, heq]

theorem lockInputs_apply (h : UInt256) (vin : List CTxIn) (m : COutPoint → Option UInt256)
    (o : COutPoint) :
    vin.foldl (lockInput h) m o =
      if (m o).isSome then m o else if o ∈ vin.map CTxIn.prevout then some h else none := by
  induction vin generalizing m with
  | nil => cases hm : m o <;> simp [hm]
  | cons txin vin ih =>
    rw [List.foldl_cons, ih, lockInput]
    by_cases ho : o = txin.prevout
    · subst ho
      cases hm : m txin.prevout <;> simp [hm]
    · have hmem : o ∈ (txin :: vin).map CTxIn.prevout ↔ o ∈ vin.map CTxIn.prevout := by
        simp [ho]
      simp only [hmem]
      split
      · rfl
      · rw [Function.update_of_ne ho]

theorem insertNew_of_some {K V : Type} [DecidableEq K] {m : K → Option V} {k k' : K} {v v' : V}
    (h : m k = some v) : insertNew m k' v' k = some v := by
  simp only [insertNew]
  split
  · exact h
  · rename_i hn
    have hne : k ≠ k' := by
      rintro rfl
      simp [h] at hn
    rw [Function.update_of_ne hne, h]

theorem insertNew_self {K V : Type} [DecidableEq K] {m : K → Option V} {k : K} {v : V}
    (h : m k = none) : insertNew m k v k = some v := by
  simp [insertNew, h]

theorem conflictingLock_eq_none {s : SwiftState} {tx : CTransaction} :
    s.conflictingLock tx = none ↔
      ∀ o ∈ tx.prevouts, ∀ h, s.mapLockedInputs o = some h → h = tx.hash := by
  simp [conflictingLock, CTransaction.prevouts, List.findSome?_eq_none_iff,
    Option.filter_eq_none_iff]

theorem mapTxLocks_unlockTx (s : SwiftState) (lock : CTransactionLock) :
    (s.unlockTx lock).mapTxLocks = s.mapTxLocks := by
  simp only [unlockTx]
  split <;> rfl

theorem doConsensusVote_cases (s : SwiftState) (env : SwiftEnv) (tx : CTransaction)
    (nBlockHeight : Int) :
    s.doConsensusVote env tx nBlockHeight = s ∨ ∃ ctx : CConsensusVote,
      s.doConsensusVote env tx nBlockHeight =
        { s with mapTxLockVote := Function.update s.mapTxLockVote ctx.getHash (some ctx) } := by
  simp only [doConsensusVote]
  split
  · exact .inl rfl
  · split
    · exact .inl rfl
    · split
      · exact .inl rfl
      · exact .inr ⟨_, rfl⟩

theorem resolveConflicts_cases (s : SwiftState) (env : SwiftEnv) (tx : CTransaction) :
    s.resolveConflicts env tx = s ∨
      s.resolveConflicts env tx = (s.checkForConflictingLocks env tx).1 ∨
      s.resolveConflicts env tx = (s.checkForConflictingLocks env tx).1.requestLock tx := by
  simp only [resolveConflicts]
  split
  · split
    · rename_i s1 heq
      exact .inr (.inl (by rw [heq]))
    · rename_i s1 heq
      exact .inr (.inr (by rw [heq]))
  · exact .inl rfl

theorem completeLock_cases (s : SwiftState) (env : SwiftEnv) (txHash : UInt256) :
    ∃ tx, (s.touchRequest txHash).mapTxLockReq txHash = some tx ∧
      (s.completeLock env txHash = ((s.touchRequest txHash).checkForConflictingLocks env tx).1 ∨
        s.completeLock env txHash =
          ((s.touchRequest txHash).checkForConflictingLocks env tx).1.lockInputs txHash tx.vin) := by
  have hreq : ∃ tx, (s.touchRequest txHash).mapTxLockReq txHash = some tx := by
    cases hr : s.mapTxLockReq txHash with
    | none => exact ⟨emptyTx, insertNew_self hr⟩
    | some tx => exact ⟨tx, insertNew_of_some hr⟩
  obtain ⟨tx, htx⟩ := hreq
  refine ⟨tx, htx, ?_⟩
  simp only [completeLock, htx, Option.getD_some]
  split
  · rename_i s1 heq
    exact .inl (by rw [heq])
  · rename_i s1 heq
    exact .inr (by rw [heq])

-- `s'` differs from `s` only in data that `LocksBacked` does not read or reads more of.
structure Extends (s s' : SwiftState) : Prop where
  keyed : (∀ (h : UInt256) (lock : CTransactionLock),
      s.mapTxLocks[h]? = some lock → lock.txHash = h) →
    ∀ (h : UInt256) (lock : CTransactionLock), s'.mapTxLocks[h]? = some lock → lock.txHash = h
  complete : ∀ h, s.isComplete h = true → (∃ tx, s.mapTxLockReq h = some tx) →
    s'.isComplete h = true
  requested : ∀ h tx, s.mapTxLockReq h = some tx → s'.mapTxLockReq h = some tx
  locked : s'.mapLockedInputs = s.mapLockedInputs

theorem LocksBacked.extends {s s' : SwiftState} (hs : s.LocksBacked) (h : Extends s s') :
    s'.LocksBacked := by
  refine ⟨h.keyed hs.keyed, ?_, ?_⟩
  · intro o k hk
    rw [h.locked] at hk
    obtain ⟨tx, htx, -⟩ := hs.requested o k hk
    exact h.complete k (hs.complete o k hk) ⟨tx, htx⟩
  · intro o k hk
    rw [h.locked] at hk
    obtain ⟨tx, htx, ho⟩ := hs.requested o k hk
    exact ⟨tx, h.requested k tx htx, ho⟩

theorem Extends.refl (s : SwiftState) : Extends s s :=
  ⟨fun h => h, fun _ h _ => h, fun _ _ h => h, rfl⟩

theorem Extends.trans {s s' s'' : SwiftState} (h : Extends s s') (h' : Extends s' s'') :
    Extends s s'' := by
  refine ⟨fun hk => h'.keyed (h.keyed hk), ?_, ?_, h'.locked.trans h.locked⟩
  · rintro k hc ⟨tx, htx⟩
    exact h'.complete k (h.complete k hc ⟨tx, htx⟩) ⟨tx, h.requested k tx htx⟩
  · intro k tx htx
    exact h'.requested k tx (h.requested k tx htx)

theorem extends_insert {s : SwiftState} {k : UInt256} {lock : CTransactionLock}
    (hkey : lock.txHash = k)
    (hcount : s.isComplete k = true → (∃ tx, s.mapTxLockReq k = some tx) →
      SWIFTTX_SIGNATURES_REQUIRED ≤ lock.countSignatures) :
    Extends s { s with mapTxLocks := s.mapTxLocks.insert k lock } := by
  refine ⟨?_, ?_, fun _ _ h => h, rfl⟩
  · intro hk h l hl
    rw [Std.TreeMap.getElem?_insert] at hl
    split at hl
    · rename_i heq
      simp only [Option.some.injEq] at hl
      rw [← hl, hkey, Std.LawfulEqOrd.eq_of_compare heq]
    · exact hk h l hl
  · intro h hc hr
    by_cases hkh : k = h
    · subst hkh
      rw [isComplete_iff]
      exact ⟨lock, by simp, hcount hc hr⟩
    · rw [isComplete_congr s]
      · exact hc
      · rw [Std.TreeMap.getElem?_insert, if_neg]
        exact fun heq => hkh (Std.LawfulEqOrd.eq_of_compare heq)

theorem extends_expire {s : SwiftState} (env : SwiftEnv) (k : UInt256)
    (hk : ∀ (h : UInt256) (lock : CTransactionLock), s.mapTxLocks[h]? = some lock → lock.txHash = h) :
    Extends s (s.expire env k) := by
  cases hl : s.mapTxLocks[k]? with
  | none => simpa [expire, hl] using Extends.refl s
  | some lock =>
    simp only [expire, hl]
    refine extends_insert (hk k lock hl) ?_
    intro hc _
    obtain ⟨l, hl', hcount⟩ := isComplete_iff.mp hc
    rw [hl, Option.some.injEq] at hl'
    subst hl'
    exact hcount

theorem extends_checkForConflictingLocks {s : SwiftState} (env : SwiftEnv) (tx : CTransaction)
    (hk : ∀ (h : UInt256) (lock : CTransactionLock), s.mapTxLocks[h]? = some lock → lock.txHash = h) :
    Extends s (s.checkForConflictingLocks env tx).1 := by
  cases hc : s.conflictingLock tx with
  | none => simpa [checkForConflictingLocks, hc] using Extends.refl s
  | some other =>
    simp only [checkForConflictingLocks, hc]
    have h1 := extends_expire env tx.hash hk
    exact h1.trans (extends_expire env other (h1.keyed hk))

-- Only a transaction without a request gets another block height.
theorem extends_createNewLock {s : SwiftState} (env : SwiftEnv) {tx : CTransaction}
    (hk : ∀ (h : UInt256) (lock : CTransactionLock), s.mapTxLocks[h]? = some lock → lock.txHash = h)
    (hnew : s.mapTxLockReq tx.hash = none) : Extends s (s.createNewLock env tx).1 := by
  cases ha : env.txAge tx with
  | none => simpa [createNewLock, ha] using Extends.refl s
  | some nTxAge =>
    simp only [createNewLock, ha]
    refine extends_insert ?_ ?_
    · cases hl : s.mapTxLocks[tx.hash]? with
      | none => rfl
      | some lock => exact hk _ lock hl
    · rintro - ⟨t, ht⟩
      simp [hnew] at ht

theorem extends_doConsensusVote {s : SwiftState} (env : SwiftEnv) (tx : CTransaction)
    (nBlockHeight : Int) : Extends s (s.doConsensusVote env tx nBlockHeight) := by
  rcases doConsensusVote_cases s env tx nBlockHeight with heq | ⟨ctx, heq⟩
  · rw [heq]
    exact Extends.refl s
  · rw [heq]
    exact ⟨fun h => h, fun _ h _ => h, fun _ _ h => h, rfl⟩

theorem extends_insertNew {s : SwiftState} (k : UInt256) (tx : CTransaction) :
    Extends s { s with mapTxLockReq := insertNew s.mapTxLockReq k tx } :=
  ⟨fun h => h, fun _ h _ => h, fun _ _ h => insertNew_of_some h, rfl⟩

theorem extends_rejectLock {s : SwiftState} (tx : CTransaction) : Extends s (s.rejectLock tx) :=
  ⟨fun h => h, fun _ h _ => h, fun _ _ h => h, rfl⟩

theorem LocksBacked.lockInputs {s : SwiftState} (hs : s.LocksBacked) {h : UInt256}
    {vin : List CTxIn}
    (hnew : ∀ o ∈ vin.map CTxIn.prevout, s.mapLockedInputs o = none →
      s.isComplete h = true ∧ ∃ tx : CTransaction, s.mapTxLockReq h = some tx ∧ o ∈ tx.prevouts) :
    (s.lockInputs h vin).LocksBacked := by
  have hcases : ∀ o k, (s.lockInputs h vin).mapLockedInputs o = some k →
      s.mapLockedInputs o = some k ∨
        (k = h ∧ o ∈ vin.map CTxIn.prevout ∧ s.mapLockedInputs o = none) := by
    intro o k hk
    simp only [SwiftState.lockInputs, lockInputs_apply] at hk
    cases hm : s.mapLockedInputs o with
    | some k' => exact .inl (by simpa [hm] using hk)
    | none =>
      simp only [hm, Option.isSome_none, Bool.false_eq_true, if_false] at hk
      split at hk
      · rename_i ho
        exact .inr ⟨(Option.some.inj hk).symm, ho, rfl⟩
      · simp at hk
  refine ⟨hs.keyed, ?_, ?_⟩
  · intro o k hk
    rcases hcases o k hk with hold | ⟨rfl, ho, hnone⟩
    · exact hs.complete o k hold
    · exact (hnew o ho hnone).1
  · intro o k hk
    rcases hcases o k hk with hold | ⟨rfl, ho, hnone⟩
    · exact hs.requested o k hold
    · exact (hnew o ho hnone).2

theorem LocksBacked.completeLock {s : SwiftState} (hs : s.LocksBacked) (env : SwiftEnv)
    {h : UInt256} (hc : s.isComplete h = true) : (s.completeLock env h).LocksBacked := by
  have hins : (s.touchRequest h).LocksBacked := hs.extends (extends_insertNew h emptyTx)
  have hc1 : (s.touchRequest h).isComplete h = true := hc
  obtain ⟨tx, htx, heq⟩ := completeLock_cases s env h
  have hext := extends_checkForConflictingLocks env tx hins.keyed
  rcases heq with heq | heq
  · rw [heq]
    exact hins.extends hext
  · rw [heq]
    refine (hins.extends hext).lockInputs ?_
    intro o ho _
    exact ⟨hext.complete h hc1 ⟨tx, htx⟩, tx, hext.requested h tx htx, ho⟩

theorem LocksBacked.processConsensusVote {s : SwiftState} (hs : s.LocksBacked) (env : SwiftEnv)
    (ctx : CConsensusVote) : (s.processConsensusVote env ctx).LocksBacked := by
  simp only [SwiftState.processConsensusVote]
  split
  · exact hs
  · have hkey : ((s.mapTxLocks[ctx.txHash]?).getD (env.newLock ctx.txHash 0)).txHash
        = ctx.txHash := by
      cases hl : s.mapTxLocks[ctx.txHash]? with
      | none => rfl
      | some lock => exact hs.keyed _ lock hl
    have hcount : s.isComplete ctx.txHash = true →
        (∃ tx, s.mapTxLockReq ctx.txHash = some tx) → SWIFTTX_SIGNATURES_REQUIRED ≤
          (((s.mapTxLocks[ctx.txHash]?).getD (env.newLock ctx.txHash 0)).addSignature
            ctx).countSignatures := by
      intro hc _
      obtain ⟨lock, hl, hcount⟩ := isComplete_iff.mp hc
      rw [hl, Option.getD_some]
      exact hcount.trans (lock.countSignatures_addSignature ctx)
    have hvote := hs.extends (extends_insert (by exact hkey) hcount)
    split
    · rename_i hc
      exact hvote.completeLock env hc
    · exact hvote

end SwiftState

end AnkerNode
