import AnkerNode.Swift.Votes

namespace AnkerNode

namespace SwiftState

variable {s : SwiftState}

structure RequestsSound (s : SwiftState) : Prop where
  keyed : ∀ h tx, s.mapTxLockReq h = some tx → tx.hash = h
  consistent : ∀ h tx tx', s.mapTxLockReqRejected h = some tx → s.mapTxLockReq h = some tx' → tx' = tx

-- the vote passes every test and its lock then has the signatures it needs
def completes (s : SwiftState) (env : SwiftEnv) (ctx : CConsensusVote) : Prop :=
  env.fEnabled = true ∧ s.mapTxLockVote ctx.getHash = none ∧ Admits env ctx ∧
    SWIFTTX_SIGNATURES_REQUIRED ≤
      (((s.mapTxLocks[ctx.txHash]?).getD (env.newLock ctx.txHash 0)).addSignature ctx).countSignatures

def RequestKnown (s : SwiftState) (env : SwiftEnv) : SwiftMessage → Prop
  | .txlvote ctx => s.completes env ctx → (s.mapTxLockReq ctx.txHash).isSome = true
  | .ix _ => True
  | .cleanTransactionLocksList => True

structure SameRequests (s s' : SwiftState) : Prop where
  requested : s'.mapTxLockReq = s.mapTxLockReq
  rejected : s'.mapTxLockReqRejected = s.mapTxLockReqRejected

theorem SameRequests.trans {s s' s'' : SwiftState} (h : SameRequests s s')
    (h' : SameRequests s' s'') : SameRequests s s'' :=
  ⟨h'.requested.trans h.requested, h'.rejected.trans h.rejected⟩

theorem sameRequests_expire (s : SwiftState) (env : SwiftEnv) (k : UInt256) :
    SameRequests s (s.expire env k) := by
  simp only [expire]
  split <;> exact ⟨rfl, rfl⟩

theorem sameRequests_checkForConflictingLocks (s : SwiftState) (env : SwiftEnv)
    (tx : CTransaction) : SameRequests s (s.checkForConflictingLocks env tx).1 := by
  simp only [checkForConflictingLocks]
  split
  · exact ⟨rfl, rfl⟩
  · rename_i other _
    exact (sameRequests_expire s env tx.hash).trans (sameRequests_expire _ env other)

theorem sameRequests_createNewLock (s : SwiftState) (env : SwiftEnv) (tx : CTransaction) :
    SameRequests s (s.createNewLock env tx).1 := by
  simp only [createNewLock]
  split <;> exact ⟨rfl, rfl⟩

theorem sameRequests_doConsensusVote (s : SwiftState) (env : SwiftEnv) (tx : CTransaction)
    (nBlockHeight : Int) : SameRequests s (s.doConsensusVote env tx nBlockHeight) := by
  rcases doConsensusVote_cases s env tx nBlockHeight with heq | ⟨ctx, heq⟩
  · rw [heq]
    exact ⟨rfl, rfl⟩
  · rw [heq]
    exact ⟨rfl, rfl⟩

theorem sameRequests_completeLock (s : SwiftState) (env : SwiftEnv) (txHash : UInt256) :
    SameRequests (s.touchRequest txHash) (s.completeLock env txHash) := by
  obtain ⟨tx, -, heq⟩ := completeLock_cases s env txHash
  have hcheck := sameRequests_checkForConflictingLocks (s.touchRequest txHash) env tx
  rcases heq with heq | heq
  · rw [heq]
    exact hcheck
  · rw [heq]
    exact hcheck.trans ⟨rfl, rfl⟩

theorem processTXLVote_cases (s : SwiftState) (env : SwiftEnv) (ctx : CConsensusVote) :
    (s.completes env ctx ∧ SameRequests (s.touchRequest ctx.txHash) (s.processTXLVote env ctx)) ∨
      (¬ s.completes env ctx ∧ SameRequests s (s.processTXLVote env ctx)) := by
  simp only [processTXLVote]
  split
  · rename_i hdrop
    refine .inr ⟨?_, rfl, rfl⟩
    rintro ⟨hen, hnew, -⟩
    simp [hen, hnew] at hdrop
  · rename_i hpass
    simp only [Bool.or_eq_true, Bool.not_eq_true', not_or, Bool.not_eq_false,
      Option.not_isSome_iff_eq_none] at hpass
    simp only [processConsensusVote]
    split
    · rename_i hbad
      refine .inr ⟨?_, rfl, rfl⟩
      rintro ⟨-, -, ⟨hknown, hrank, hsig⟩, -⟩
      simp only [Bool.or_eq_true, beq_iff_eq, decide_eq_true_eq, Bool.not_eq_true'] at hbad
      rcases hbad with (hbad | hbad) | hbad
      · exact hknown hbad
      · omega
      · simp [hsig] at hbad
    · rename_i hvalid
      simp only [Bool.or_eq_true, beq_iff_eq, decide_eq_true_eq, Bool.not_eq_true', not_or,
        Int.not_lt, Bool.not_eq_false] at hvalid
      split
      · rename_i hcomplete
        obtain ⟨lock, hl, hcount⟩ := isComplete_iff.mp hcomplete
        rw [getElem?_insert_lock, if_pos rfl] at hl
        obtain rfl := Option.some.inj hl
        have hsame := sameRequests_completeLock (s.voteAdded env ctx) env ctx.txHash
        exact .inl ⟨⟨hpass.1, hpass.2, ⟨hvalid.1.1, hvalid.1.2, hvalid.2⟩, hcount⟩,
          hsame.requested, hsame.rejected⟩
      · rename_i hcomplete
        refine .inr ⟨?_, rfl, rfl⟩
        rintro ⟨-, -, -, hcount⟩
        refine hcomplete (isComplete_iff.mpr ⟨_, ?_, hcount⟩)
        rw [getElem?_insert_lock, if_pos rfl]

theorem insertNew_eq_self_iff {K V : Type} [DecidableEq K] {m : K → Option V} {k : K} {v : V} :
    insertNew m k v = m ↔ (m k).isSome = true := by
  constructor
  · intro heq
    rw [← heq]
    cases hm : m k with
    | none => simp [insertNew_self hm]
    | some w => simp [insertNew_of_some hm]
  · intro hsome
    rw [insertNew, if_pos hsome]

theorem insertNew_eq_some {K V : Type} [DecidableEq K] {m : K → Option V} {k k' : K} {v w : V}
    (h : insertNew m k v k' = some w) : m k' = some w ∨ (k' = k ∧ w = v) := by
  simp only [insertNew] at h
  split at h
  · exact .inl h
  · by_cases hk : k' = k
    · subst hk
      rw [Function.update_self, Option.some.injEq] at h
      exact .inr ⟨rfl, h.symm⟩
    · rw [Function.update_of_ne hk] at h
      exact .inl h

theorem requests_processTXLVote_iff (s : SwiftState) (env : SwiftEnv) (ctx : CConsensusVote) :
    (s.processTXLVote env ctx).mapTxLockReq = s.mapTxLockReq ↔ s.RequestKnown env (.txlvote ctx) := by
  rcases processTXLVote_cases s env ctx with ⟨hc, hsame⟩ | ⟨hc, hsame⟩
  · rw [hsame.requested]
    change insertNew s.mapTxLockReq ctx.txHash emptyTx = s.mapTxLockReq ↔ _
    rw [insertNew_eq_self_iff]
    simp [RequestKnown, hc]
  · simp [hsame.requested, RequestKnown, hc]

theorem RequestsSound.same {s' : SwiftState} (h : RequestsSound s) (hs : SameRequests s s') :
    RequestsSound s' := by
  refine ⟨?_, ?_⟩
  · rw [hs.requested]
    exact h.keyed
  · rw [hs.requested, hs.rejected]
    exact h.consistent

theorem RequestsSound.requestLock (h : RequestsSound s) {tx : CTransaction}
    (hrejected : ∀ t, s.mapTxLockReqRejected tx.hash = some t → t = tx) :
    RequestsSound (s.requestLock tx) := by
  refine ⟨?_, ?_⟩
  · intro k t ht
    rcases insertNew_eq_some ht with ht | ⟨rfl, rfl⟩
    · exact h.keyed k t ht
    · rfl
  · intro k t t' hrej ht'
    rcases insertNew_eq_some ht' with ht' | ⟨rfl, rfl⟩
    · exact h.consistent k t t' hrej ht'
    · exact (hrejected t hrej).symm

theorem RequestsSound.rejectLock (h : RequestsSound s) {tx : CTransaction}
    (hnew : s.mapTxLockReq tx.hash = none) : RequestsSound (s.rejectLock tx) := by
  refine ⟨h.keyed, ?_⟩
  intro k t t' hrej ht'
  rcases insertNew_eq_some hrej with hrej | ⟨rfl, rfl⟩
  · exact h.consistent k t t' hrej ht'
  · change s.mapTxLockReq t.hash = some t' at ht'
    rw [hnew] at ht'
    simp at ht'

theorem RequestsSound.resolveConflicts (h : RequestsSound s) (env : SwiftEnv) {tx : CTransaction}
    (hrejected : ∀ t, s.mapTxLockReqRejected tx.hash = some t → t = tx) :
    RequestsSound (s.resolveConflicts env tx) := by
  have hcheck := sameRequests_checkForConflictingLocks s env tx
  rcases resolveConflicts_cases s env tx with heq | heq | heq
  · rw [heq]
    exact h
  · rw [heq]
    exact h.same hcheck
  · rw [heq]
    refine (h.same hcheck).requestLock ?_
    rw [hcheck.rejected]
    exact hrejected

theorem RequestsSound.processIX (h : RequestsSound s) (env : SwiftEnv) (tx : CTransaction) :
    RequestsSound (s.processIX env tx) := by
  have hlock := sameRequests_createNewLock s env tx
  simp only [SwiftState.processIX]
  cases hnew : s.isNewRequest env tx with
  | false => exact h
  | true =>
    have hfresh := isNewRequest_fresh hnew
    have hunrejected : s.mapTxLockReqRejected tx.hash = none := by
      simp only [isNewRequest, Bool.and_eq_true, Option.isNone_iff_eq_none] at hnew
      exact hnew.1.1.2
    simp only [Bool.not_true, Bool.false_eq_true, if_false]
    split
    · have hvote := hlock.trans (sameRequests_doConsensusVote _ env tx
        (s.createNewLock env tx).2)
      refine (h.same hvote).requestLock ?_
      intro t ht
      rw [hvote.rejected, hunrejected] at ht
      simp at ht
    · have hreject : RequestsSound ((s.createNewLock env tx).1.rejectLock tx) := by
        refine (h.same hlock).rejectLock ?_
        rw [hlock.requested]
        exact hfresh
      have hlocked : RequestsSound
          (((s.createNewLock env tx).1.rejectLock tx).lockInputs tx.hash tx.vin) :=
        ⟨hreject.keyed, hreject.consistent⟩
      refine hlocked.resolveConflicts env ?_
      intro t ht
      change insertNew (s.createNewLock env tx).1.mapTxLockReqRejected tx.hash tx tx.hash = some t at ht
      rw [insertNew_self (by rw [hlock.rejected]; exact hunrejected), Option.some.injEq] at ht
      exact ht.symm

theorem RequestsSound.cleanLock (h : RequestsSound s) (env : SwiftEnv)
    (it : UInt256 × CTransactionLock) : RequestsSound (SwiftState.cleanLock env s it) := by
  have hunlock : RequestsSound (s.unlockTx it.2) := by
    simp only [unlockTx]
    split
    · exact h
    · refine ⟨?_, ?_⟩
      · intro k t ht
        simp only [Function.update_apply] at ht
        split at ht
        · simp at ht
        · exact h.keyed k t ht
      · intro k t t' hrej ht'
        simp only [Function.update_apply] at hrej ht'
        split at hrej
        · simp at hrej
        · rename_i hne
          rw [if_neg hne] at ht'
          exact h.consistent k t t' hrej ht'
  simp only [SwiftState.cleanLock]
  split
  · exact hunlock.same ⟨rfl, rfl⟩
  · exact h

theorem RequestsSound.step (h : RequestsSound s) (env : SwiftEnv) (msg : SwiftMessage)
    (hcond : s.RequestKnown env msg) : RequestsSound (s.step env msg) := by
  cases msg with
  | ix tx => exact h.processIX env tx
  | txlvote ctx =>
    have hreq := (requests_processTXLVote_iff s env ctx).mpr hcond
    have hrej : (s.processTXLVote env ctx).mapTxLockReqRejected = s.mapTxLockReqRejected := by
      rcases processTXLVote_cases s env ctx with ⟨-, hsame⟩ | ⟨-, hsame⟩
      · exact hsame.rejected
      · exact hsame.rejected
    exact h.same ⟨hreq, hrej⟩
  | cleanTransactionLocksList =>
    simp only [SwiftState.step, cleanTransactionLocksList]
    split
    · exact h
    · generalize s.mapTxLocks.toList = its
      induction its generalizing s with
      | nil => exact h
      | cons it its ih => exact ih (h.cleanLock env it) (by trivial)

theorem requests_keyed (s : SwiftState) (h : Reachable RequestKnown s) :
    (∀ k tx, s.mapTxLockReq k = some tx → tx.hash = k) ∧
      (∀ k tx tx', s.mapTxLockReqRejected k = some tx → s.mapTxLockReq k = some tx' → tx' = tx) ∧
      ∀ env ctx, (s.step env (.txlvote ctx)).mapTxLockReq = s.mapTxLockReq ↔
        s.RequestKnown env (.txlvote ctx) := by
  have hs : RequestsSound s := by
    induction h with
    | start => exact ⟨by simp, by simp⟩
    | step env msg _ hcond ih => exact ih.step env msg hcond
  exact ⟨hs.keyed, hs.consistent, requests_processTXLVote_iff s⟩

theorem requested_votedRun (n : Nat) :
    Reachable RequestKnown (votedRun n) ∧ (votedRun n).mapTxLockReq 9 = some lockTx := by
  induction n with
  | zero =>
    refine ⟨.step (plainEnv (some spentCoins)) (.ix lockTx) .start trivial, ?_⟩
    decide +kernel
  | succ n ih =>
    obtain ⟨hreach, hreq⟩ := ih
    have hknown : (votedRun n).RequestKnown (plainEnv (some spentCoins))
        (.txlvote (lockVote n)) := by
      intro _
      change ((votedRun n).mapTxLockReq 9).isSome = true
      rw [hreq]
      rfl
    rw [votedRun, List.range_succ, List.foldl_append]
    refine ⟨.step _ _ hreach hknown, ?_⟩
    change ((votedRun n).processTXLVote _ _).mapTxLockReq 9 = some lockTx
    rw [(requests_processTXLVote_iff _ _ _).mpr hknown, hreq]

theorem requests_keyed_votes :
    (votedRun 6).mapTxLockReq 9 = some lockTx ∧ lockTx.hash = 9 := by
  obtain ⟨hreach, hreq⟩ := requested_votedRun 6
  exact ⟨hreq, (requests_keyed _ hreach).1 9 lockTx hreq⟩

-- the pool refuses `lockTx` while its inputs are old enough to fix the height of the lock
def refusingEnv : SwiftEnv :=
  { plainEnv (some spentCoins) with acceptToMemoryPool := fun _ => false }

def refusedRun (n : Nat) : SwiftState :=
  (List.range n).foldl (fun s i => s.step refusingEnv (.txlvote (lockVote i)))
    (step {} refusingEnv (.ix lockTx))

theorem reachable_refusedRun (n : Nat) : Reachable (fun _ _ _ => True) (refusedRun n) := by
  induction n with
  | zero => exact .step refusingEnv (.ix lockTx) .start trivial
  | succ n ih =>
    rw [refusedRun, List.range_succ, List.foldl_append]
    exact .step _ (.txlvote (lockVote n)) ih trivial

theorem votes_request_placeholder :
    Reachable (fun _ _ _ => True) (refusedRun 6) ∧
      (refusedRun 6).mapTxLockReqRejected 9 = some lockTx ∧
      (refusedRun 6).mapTxLockReq 9 = some emptyTx ∧ emptyTx.hash ≠ 9 ∧ emptyTx ≠ lockTx := by
  refine ⟨reachable_refusedRun 6, ?_, ?_, by decide, by decide⟩
  · decide +kernel
  · decide +kernel

end SwiftState

end AnkerNode
