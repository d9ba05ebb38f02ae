import AnkerNode.Swift.LockedInputs

namespace AnkerNode

inductive SwiftMessage where
  | ix (tx : CTransaction)
  | txlvote (ctx : CConsensusVote)
  | cleanTransactionLocksList
deriving DecidableEq, Repr

namespace SwiftState

def step (s : SwiftState) (env : SwiftEnv) : SwiftMessage → SwiftState
  | .ix tx => s.processIX env tx
  | .txlvote ctx => s.processTXLVote env ctx
  | .cleanTransactionLocksList => s.cleanTransactionLocksList env

inductive Reachable (Cond : SwiftState → SwiftEnv → SwiftMessage → Prop) : SwiftState → Prop where
  | start : Reachable Cond {}
  | step {s : SwiftState} (env : SwiftEnv) (msg : SwiftMessage) (h : Reachable Cond s)
      (hcond : Cond s env msg) : Reachable Cond (s.step env msg)

-- A request that reaches the rejecting branch finds its inputs locked, or is complete already
-- and conflicts with no lock.
def RejectsBacked (s : SwiftState) (env : SwiftEnv) : SwiftMessage → Prop
  | .ix tx =>
    s.isNewRequest env tx = true → s.acceptToMemoryPool env tx = false →
      (∀ o ∈ tx.prevouts, (s.mapLockedInputs o).isSome = true) ∨
        ((s.createNewLock env tx).1.isComplete tx.hash = true ∧ s.conflictingLock tx = none)
  | .txlvote _ => True
  | .cleanTransactionLocksList => True

theorem isNewRequest_fresh {s : SwiftState} {env : SwiftEnv} {tx : CTransaction}
    (h : s.isNewRequest env tx = true) : s.mapTxLockReq tx.hash = none := by
  simp only [isNewRequest, Bool.and_eq_true, Option.isNone_iff_eq_none] at h
  exact h.1.1.1.2

theorem LocksBacked.resolveConflicts {s : SwiftState} (hs : s.LocksBacked) (env : SwiftEnv)
    (tx : CTransaction) : (s.resolveConflicts env tx).LocksBacked := by
  have hext := extends_checkForConflictingLocks env tx hs.keyed
  rcases resolveConflicts_cases s env tx with heq | heq | heq
  · rw [heq]
    exact hs
  · rw [heq]
    exact hs.extends hext
  · rw [heq]
    exact (hs.extends hext).extends (extends_insertNew tx.hash tx)

theorem resolveConflicts_lockInputs {s : SwiftState} (env : SwiftEnv) {tx : CTransaction}
    (hc : s.isComplete tx.hash = true) (hn : s.conflictingLock tx = none) :
    (s.lockInputs tx.hash tx.vin).resolveConflicts env tx =
      (s.requestLock tx).lockInputs tx.hash tx.vin := by
  have hnone : (s.lockInputs tx.hash tx.vin).conflictingLock tx = none := by
    rw [conflictingLock_eq_none] at hn ⊢
    intro o ho h hlock
    simp only [lockInputs, lockInputs_apply] at hlock
    cases hm : s.mapLockedInputs o with
    | some k =>
      simp only [hm, Option.isSome_some, if_true, Option.some.injEq] at hlock
      exact hn o ho h (by rw [hm, hlock])
    | none =>
      simp only [hm, Option.isSome_none, Bool.false_eq_true, if_false] at hlock
      split at hlock
      · exact (Option.some.inj hlock).symm
      · simp at hlock
  have hcomplete : (s.lockInputs tx.hash tx.vin).isComplete tx.hash = true := hc
  rw [resolveConflicts, if_pos hcomplete, checkForConflictingLocks, hnone]
  rfl

theorem mapLockedInputs_createNewLock (s : SwiftState) (env : SwiftEnv) (tx : CTransaction) :
    (s.createNewLock env tx).1.mapLockedInputs = s.mapLockedInputs := by
  simp only [createNewLock]
  split <;> rfl

theorem mapTxLockReq_createNewLock (s : SwiftState) (env : SwiftEnv) (tx : CTransaction) :
    (s.createNewLock env tx).1.mapTxLockReq = s.mapTxLockReq := by
  simp only [createNewLock]
  split <;> rfl

theorem conflictingLock_congr {s s' : SwiftState} (h : s'.mapLockedInputs = s.mapLockedInputs)
    (tx : CTransaction) : s'.conflictingLock tx = s.conflictingLock tx := by
  rw [conflictingLock, conflictingLock, h]

theorem LocksBacked.processIX {s : SwiftState} (hs : s.LocksBacked) (env : SwiftEnv)
    (tx : CTransaction) (hcond : s.RejectsBacked env (.ix tx)) :
    (s.processIX env tx).LocksBacked := by
  simp only [SwiftState.processIX]
  cases hnew : s.isNewRequest env tx with
  | false => exact hs
  | true =>
    have hfresh := isNewRequest_fresh hnew
    have hlock := hs.extends (extends_createNewLock env hs.keyed hfresh)
    have hmap := mapLockedInputs_createNewLock s env tx
    have hacc : (s.createNewLock env tx).1.acceptToMemoryPool env tx =
        s.acceptToMemoryPool env tx := by
      rw [acceptToMemoryPool, acceptToMemoryPool, conflictingLock_congr hmap]
    simp only [Bool.not_true, Bool.false_eq_true, if_false, hacc]
    cases ha : s.acceptToMemoryPool env tx with
    | true =>
      exact (hlock.extends (extends_doConsensusVote env tx _)).extends
        (extends_insertNew tx.hash tx)
    | false =>
      have hrej := hlock.extends (extends_rejectLock tx)
      rcases hcond hnew ha with hall | ⟨hc, hn⟩
      · refine LocksBacked.resolveConflicts (hrej.lockInputs ?_) env tx
        intro o ho hnone
        have hsome := hall o ho
        rw [← hmap] at hsome
        rw [show (s.createNewLock env tx).1.mapLockedInputs o = none from hnone] at hsome
        simp at hsome
      · have hn' : ((s.createNewLock env tx).1.rejectLock tx).conflictingLock tx = none := by
          rw [← hn]
          exact conflictingLock_congr hmap tx
        have hreq : insertNew (s.createNewLock env tx).1.mapTxLockReq tx.hash tx tx.hash =
            some tx := by
          apply insertNew_self
          rw [mapTxLockReq_createNewLock, hfresh]
        simp only [Bool.false_eq_true, if_false]
        rw [resolveConflicts_lockInputs env (s := (s.createNewLock env tx).1.rejectLock tx) hc hn']
        refine (hrej.extends (extends_insertNew tx.hash tx)).lockInputs ?_
        intro o ho _
        exact ⟨hc, tx, hreq, ho⟩

theorem LocksBacked.processTXLVote {s : SwiftState} (hs : s.LocksBacked) (env : SwiftEnv)
    (ctx : CConsensusVote) : (s.processTXLVote env ctx).LocksBacked := by
  simp only [SwiftState.processTXLVote]
  split
  · exact hs
  · refine LocksBacked.processConsensusVote (hs.extends ?_) env ctx
    exact ⟨fun h => h, fun _ h _ => h, fun _ _ h => h, rfl⟩

theorem LocksBacked.cleanLock {s : SwiftState} (hs : s.LocksBacked) (env : SwiftEnv)
    {it : UInt256 × CTransactionLock} (hkey : it.2.txHash = it.1) :
    (SwiftState.cleanLock env s it).LocksBacked := by
  obtain ⟨k, lock⟩ := it
  simp only at hkey
  subst hkey
  simp only [SwiftState.cleanLock]
  split
  · -- What stays locked was locked before, by a transaction other than the removed one.
    have hkeep : ∀ o h, (s.unlockTx lock).mapLockedInputs o = some h →
        s.mapLockedInputs o = some h ∧ h ≠ lock.txHash ∧
          (s.unlockTx lock).mapTxLockReq h = s.mapTxLockReq h := by
      intro o h ho
      cases hr : s.mapTxLockReq lock.txHash with
      | none =>
        simp only [unlockTx, hr] at ho ⊢
        refine ⟨ho, ?_, trivial⟩
        rintro rfl
        obtain ⟨tx, htx, -⟩ := hs.requested o _ ho
        simp [hr] at htx
      | some tx =>
        simp only [unlockTx, hr, Table.writeAll_const] at ho ⊢
        split at ho
        · simp at ho
        · rename_i hmem
          have hne : h ≠ lock.txHash := by
            rintro rfl
            obtain ⟨tx', htx', hin⟩ := hs.requested o _ ho
            rw [hr, Option.some.injEq] at htx'
            subst htx'
            exact hmem hin
          exact ⟨ho, hne, Function.update_of_ne hne _ _⟩
    have hget : ∀ h : UInt256, ((s.unlockTx lock).mapTxLocks.erase lock.txHash)[h]? =
        if lock.txHash = h then none else s.mapTxLocks[h]? := by
      intro h
      simp only [mapTxLocks_unlockTx, Std.TreeMap.getElem?_erase, Std.LawfulEqOrd.compare_eq_iff_eq]
    refine ⟨?_, ?_, ?_⟩
    · intro h l hl
      rw [hget] at hl
      split at hl
      · simp at hl
      · exact hs.keyed h l hl
    · intro o h ho
      obtain ⟨hold, hne, -⟩ := hkeep o h ho
      rw [isComplete_congr s]
      · exact hs.complete o h hold
      · rw [hget, if_neg (Ne.symm hne)]
    · intro o h ho
      obtain ⟨hold, -, hreq⟩ := hkeep o h ho
      obtain ⟨tx, htx, hin⟩ := hs.requested o h hold
      exact ⟨tx, hreq.trans htx, hin⟩
  · exact hs

theorem LocksBacked.foldl_cleanLock {s : SwiftState} (hs : s.LocksBacked) (env : SwiftEnv)
    {its : List (UInt256 × CTransactionLock)} (hkeys : ∀ it ∈ its, it.2.txHash = it.1) :
    (its.foldl (SwiftState.cleanLock env) s).LocksBacked := by
  induction its generalizing s with
  | nil => exact hs
  | cons it its ih =>
    rw [List.forall_mem_cons] at hkeys
    exact ih (hs.cleanLock env hkeys.1) hkeys.2

theorem LocksBacked.step {s : SwiftState} (hs : s.LocksBacked) (env : SwiftEnv)
    (msg : SwiftMessage) (hcond : s.RejectsBacked env msg) : (s.step env msg).LocksBacked := by
  cases msg with
  | ix tx => exact hs.processIX env tx hcond
  | txlvote ctx => exact hs.processTXLVote env ctx
  | cleanTransactionLocksList =>
    simp only [SwiftState.step, cleanTransactionLocksList]
    split
    · exact hs
    · refine hs.foldl_cleanLock env ?_
      rintro ⟨k, lock⟩ hmem
      exact hs.keyed k lock (Std.TreeMap.mem_toList_iff_getElem?_eq_some.mp hmem)

theorem locked_inputs_complete (s : SwiftState) (h : Reachable RejectsBacked s) (o : COutPoint)
    (txHash : UInt256) (ho : s.mapLockedInputs o = some txHash) :
    ∃ lock, s.mapTxLocks[txHash]? = some lock ∧
      SWIFTTX_SIGNATURES_REQUIRED ≤ lock.countSignatures := by
  have hs : s.LocksBacked := by
    clear ho
    induction h with
    | start => exact ⟨by simp, by simp, by simp⟩
    | step env msg _ hcond ih => exact ih.step env msg hcond
  exact isComplete_iff.mp (hs.complete o txHash ho)

def lockTx : CTransaction where
  hash := 9
  vin := [⟨⟨5, 0⟩, [], 0xffffffff⟩]
  vout := [⟨COIN, [OP_RETURN]⟩]

def lockVote (n : Nat) : CConsensusVote where
  vinMasternode := ⟨⟨BitVec.ofNat 256 (100 + n), 0⟩, [], 0xffffffff⟩
  txHash := 9
  nBlockHeight := 10

-- A node at height 20 that knows the output `lockTx` spends, or none, and admits to its pool
-- only what spends a known output.
def plainEnv (coins : Option CCoins) : SwiftEnv where
  fEnabled := true
  nTime := 1000
  hasTip := true
  nTipHeight := 20
  nSporkMaxValue := 1000
  getTransaction := fun _ => none
  view := { coins := fun txid => if txid = 5 then coins else none, hashBlock := 1 }
  acceptToMemoryPool := fun _ => coins.isSome
  fMasterNode := false
  activeMasternode := ⟨COutPoint.null, [], 0xffffffff⟩
  getMasternodeRank := fun _ _ => 1
  sign := fun _ => none
  signatureValid := fun _ => true

def spentCoins : CCoins := { vout := [⟨2 * COIN, [0x51]⟩], nHeight := 7, nVersion := 1 }

def votedRun (n : Nat) : SwiftState :=
  (List.range n).foldl (fun s i => s.step (plainEnv (some spentCoins)) (.txlvote (lockVote i)))
    (step {} (plainEnv (some spentCoins)) (.ix lockTx))

theorem reachable_votedRun (n : Nat) : Reachable RejectsBacked (votedRun n) := by
  induction n with
  | zero =>
    refine .step (plainEnv (some spentCoins)) (.ix lockTx) .start ?_
    intro _ hacc
    exact absurd hacc (by decide)
  | succ n ih =>
    rw [votedRun, List.range_succ, List.foldl_append]
    exact .step _ (.txlvote (lockVote n)) ih trivial

theorem locked_inputs_complete_votes :
    (votedRun 6).mapLockedInputs ⟨5, 0⟩ = some 9 ∧
      ∃ lock, (votedRun 6).mapTxLocks[(9 : UInt256)]? = some lock ∧
        SWIFTTX_SIGNATURES_REQUIRED ≤ lock.countSignatures := by
  have hlocked : (votedRun 6).mapLockedInputs ⟨5, 0⟩ = some 9 := by decide +kernel
  exact ⟨hlocked, locked_inputs_complete _ (reachable_votedRun 6) ⟨5, 0⟩ 9 hlocked⟩

theorem rejected_request_locks_input :
    Reachable (fun _ _ _ => True) (step {} (plainEnv none) (.ix lockTx)) ∧
      (step {} (plainEnv none) (.ix lockTx)).mapLockedInputs ⟨5, 0⟩ = some 9 ∧
      ¬ ∃ lock, (step {} (plainEnv none) (.ix lockTx)).mapTxLocks[(9 : UInt256)]? = some lock ∧
        SWIFTTX_SIGNATURES_REQUIRED ≤ lock.countSignatures := by
  refine ⟨.step _ _ .start trivial, by decide +kernel, ?_⟩
  have hnone : (step {} (plainEnv none) (.ix lockTx)).mapTxLocks[(9 : UInt256)]? = none := by
    decide +kernel
  rintro ⟨lock, hl, -⟩
  rw [hnone] at hl
  simp at hl

end SwiftState

end AnkerNode
