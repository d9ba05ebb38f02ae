import AnkerNode.Mempool.SpendIndex
import AnkerNode.Mempool.Supply
import AnkerNode.Validation.ActiveChain
import AnkerNode.Validation.ScriptChecks
import AnkerNode.Zerocoin.Tables

namespace AnkerNode

open Checks

def REJECT_DUPLICATE : Nat := 0x12

def MEMPOOL_HEIGHT : Int := 0x7fffffff

def Failure.restate (level chRejectCode : Nat) (strRejectReason : String) : Failure → Failure
  | rejected state => rejected (state.doS level chRejectCode strRejectReason)
  | e => e

namespace CCoinsView

-- `CCoinsViewMemPool`
def withMempool (base : CCoinsView) (pool : CTxMemPool) : CCoinsView where
  coins := fun txid =>
    match pool.mapTx[txid]? with
    | some entry => some (CCoins.fromTx entry.tx MEMPOOL_HEIGHT)
    | none => base.unspent txid
  hashBlock := base.hashBlock

end CCoinsView

-- What AcceptToMemoryPool reads beside the chain state. `policy` stands for its tests of
-- standardness, of the number of signature operations and of the fee.
structure AcceptContext where
  conn : ConnectContext
  check : CheckContext
  hashes : ScriptHashes
  checkSig : CheckSigOracle
  inMaintenance : Bool
  mapLockedInputs : COutPoint → Option UInt256
  isStandardTx : CTransaction → Except Failure Unit
  policy : CTransaction → CCoinsView → Except Failure Unit
  getTxSize : CTransaction → Nat
  scriptVerifyFlags : Nat

namespace ChainState

variable (net : Network) (ctx : AcceptContext) (s : ChainState)

-- CheckInputs is called without a queue: it runs the scripts itself.
def acceptContext (pool : CTxMemPool) : ConnectContext :=
  s.context net (fun txid => pool.mapTx.contains txid)
    { ctx.conn with
      nScriptCheckThreads := 0
      verifyScript := ScriptCheck.run ctx.hashes ctx.checkSig }

def spendHeight (tx : CTransaction) : Except Failure Int :=
  if tx.spendsCoins then
    fromOption Failure.assertion
      ((s.chain.find? fun a => a.block.hash == s.view.hashBlock).map fun a => a.nHeight + 1)
  else .ok 0

def acceptMint (conn : ConnectContext) (out : CTxOut) : Except Failure Unit := do
  let coin ← fromOption ((Failure.doS 100).addDoS 0) (txOutToPublicCoin conn.lib out)
  failIf (!conn.contextualCheckZerocoinMint coin s.height)
    (Failure.rejected (CValidationState.invalid {}))

def acceptInputs (conn : ConnectContext) (view : CCoinsView) (tx : CTransaction) :
    Except Failure Unit :=
  if tx.isZerocoinSpend then do
    failIf (conn.isTransactionInChain tx.hash).isSome
      (Failure.rejected (CValidationState.invalid {} REJECT_DUPLICATE "bad-txns-inputs-spent"))
    failIf (!(zerocoinSpends conn.lib tx).all fun spend =>
        conn.contextualCheckZerocoinSpend tx spend s.height)
      (Failure.rejected (CValidationState.invalid {} REJECT_INVALID "bad-txns-invalid-zank"))
  else do
    failIf (view.haveCoins tx.hash) (Failure.rejected {})
    failIf (tx.prevouts.any fun o => !view.haveCoins o.hash) (Failure.rejected {})
    onlyIf tx.isZerocoinMint ((tx.vout.filter CTxOut.isZerocoinMint).forM (s.acceptMint conn))
    failIf (!view.haveInputs tx)
      (Failure.rejected (CValidationState.invalid {} REJECT_DUPLICATE "bad-txns-inputs-spent"))

def checkAllInputs (conn : ConnectContext) (view : CCoinsView) (scriptVerifyFlags : Nat)
    (tx : CTransaction) : Except Failure Unit := do
  let nSpendHeight ← s.spendHeight tx
  let _ ← conn.checkInputs view nSpendHeight true scriptVerifyFlags tx
  let _ ← conn.checkInputs view nSpendHeight true SCRIPT_VERIFY_P2SH tx
  .ok ()

def acceptToMemoryPool (pool : CTxMemPool) (tx : CTransaction) : Except Failure CTxMemPool := do
  failIf (ctx.inMaintenance && tx.containsZerocoins) (Failure.doS 10 REJECT_INVALID "bad-tx")
  failIf s.chain.isEmpty Failure.assertion
  mapError (Failure.restate 100 REJECT_INVALID "bad-tx")
    (ctx.check.checkTransaction tx (decide (net.params.nZerocoinStartHeight ≤ s.height)))
  failIf tx.isCoinBase (Failure.doS 100 REJECT_INVALID "coinbase")
  failIf tx.isCoinStake (Failure.doS 100 REJECT_INVALID "coinstake")
  failIf (pool.mapTx.contains tx.hash) (Failure.rejected {})
  failIf (tx.prevouts.any fun o => (ctx.mapLockedInputs o).any fun txid => txid != tx.hash)
    (Failure.doS 0 REJECT_INVALID "tx-lock-conflict")
  failIf (!tx.isZerocoinSpend && tx.prevouts.any fun o => (pool.mapNextTx o).isSome)
    (Failure.rejected {})
  ctx.isStandardTx tx
  s.acceptInputs (s.acceptContext net ctx pool) (s.view.withMempool pool) tx
  ctx.policy tx (s.view.withMempool pool)
  s.checkAllInputs (s.acceptContext net ctx pool) (s.view.withMempool pool)
    ctx.scriptVerifyFlags tx
  .ok (pool.addUnchecked tx.hash ⟨tx, ctx.getTxSize tx⟩)

end ChainState

-- The mempool beside the state that ConnectTip and DisconnectTip move along the chain.
structure TipState where
  mempool : CTxMemPool := {}
  chainstate : ChainState := {}

namespace TipState

variable (net : Network) (t : TipState)

def acceptToMemoryPool (ctx : AcceptContext) (tx : CTransaction) : Except Failure TipState := do
  let mempool ← t.chainstate.acceptToMemoryPool net ctx t.mempool tx
  .ok { t with mempool := mempool }

def connectTip (ctx : ConnectContext) (getBlockValue : Int → Int) (block : CBlock) :
    Except Failure TipState := do
  let chainstate ← t.chainstate.connect net (fun txid => t.mempool.mapTx.contains txid) ctx
    getBlockValue block
  .ok ⟨(t.mempool.removeForBlock block.vtx []).1, chainstate⟩

def afterFailure (ctx : ConnectContext) (block : CBlock) : TipState :=
  let mempool := fun txid => t.mempool.mapTx.contains txid
  { t with chainstate := t.chainstate.afterFailure net mempool ctx block }

def resurrect (ctx : AcceptContext) (s : ChainState) (pool : CTxMemPool) (tx : CTransaction) :
    Except Failure CTxMemPool :=
  if tx.isCoinBase || tx.isCoinStake then .ok (pool.remove tx [] true).1
  else
    match s.acceptToMemoryPool net ctx pool tx with
    | .error (.rejected _) => .ok (pool.remove tx [] true).1
    | r => r

-- chainActive still ends in the block while its transactions are taken up again
def disconnectTip (dis : DisconnectContext) (undoFile : Option (List UInt8))
    (ctx : AcceptContext) : Except Failure TipState :=
  match t.chainstate.chain with
  | [] => .error Failure.assertion
  | a :: chain => do
    let chainstate ← t.chainstate.disconnect net dis undoFile
    let pool ← a.block.vtx.foldlM (resurrect net ctx { chainstate with chain := a :: chain })
      t.mempool
    let pool ← fromOption Failure.assertion
      (pool.removeCoinbaseSpends net.params chainstate.view (UInt32.ofInt a.nHeight))
    .ok ⟨pool, chainstate⟩

end TipState

namespace CCoinsView

variable {base : CCoinsView} {pool : CTxMemPool}

theorem unspent_of_haveCoins {txid : UInt256} (hnew : pool.mapTx[txid]? = none)
    (h : (base.withMempool pool).haveCoins txid = false) : base.unspent txid = none := by
  cases hu : base.unspent txid with
  | none => rfl
  | some coins =>
    have hpruned := (unspent_eq_some.mp hu).2
    simp only [haveCoins, withMempool, hnew, hu, Option.any_some, Bool.not_eq_false',
      List.isEmpty_iff] at h
    rw [CCoins.isPruned, h] at hpruned
    cases hpruned

theorem outAt_withMempool {o : COutPoint} {entry : CTxMemPoolEntry}
    (h : pool.mapTx[o.hash]? = some entry) :
    (base.withMempool pool).outAt o = (CCoins.fromTx entry.tx 0).outAt o.n.toNat := by
  simp only [outAt, modified, withMempool, h, Option.getD_some]
  exact CCoins.outAt_fromTx entry.tx _ _ _

theorem outAt_withMempool_of_absent {o : COutPoint} (hnone : pool.mapTx[o.hash]? = none)
    (h : ((base.withMempool pool).outAt o).isNull = false) :
    base.outAt o = (base.withMempool pool).outAt o := by
  simp only [outAt, modified, withMempool, hnone] at h ⊢
  cases hu : base.unspent o.hash with
  | none =>
    rw [hu] at h
    simp [CCoins.outAt, CCoins.clear] at h
  | some coins =>
    rw [(unspent_eq_some.mp hu).1]

-- where the code finds the input of a loose transaction
theorem supply_of_haveInput (hindex : pool.SpendIndexed) {txin : CTxIn}
    (h : (base.withMempool pool).haveInput txin = true)
    (hscript : ((base.withMempool pool).outAt txin.prevout).scriptPubKey.isUnspendable = false) :
    (∃ r, pool.Pooled r ∧ r.Offers txin.prevout) ∨
      (pool.mapTx[txin.prevout.hash]? = none ∧ base.Spendable txin.prevout) := by
  have hav := haveInput_iff.mp h
  cases he : pool.mapTx[txin.prevout.hash]? with
  | some entry =>
    rw [outAt_withMempool he, ← CCoins.isAvailable_iff] at hav
    exact Or.inl ⟨entry.tx, hindex.pooled_of_get he, hindex.keyed _ entry he, hav⟩
  | none =>
    have hsame := outAt_withMempool_of_absent he hav.1
    rw [← hsame] at hav hscript
    exact Or.inr ⟨rfl, CCoins.isAvailable_iff.mpr hav, hscript⟩

end CCoinsView

namespace ChainState

variable {net : Network} {ctx : AcceptContext} {s : ChainState} {pool pool' : CTxMemPool}
  {tx : CTransaction}

structure Accepted (net : Network) (ctx : AcceptContext) (s : ChainState)
    (pool : CTxMemPool) (tx : CTransaction) (pool' : CTxMemPool) : Prop where
  chain : s.chain ≠ []
  checked : ctx.check.checkTransaction tx (decide (net.params.nZerocoinStartHeight ≤ s.height)) =
    .ok ()
  isCoinBase : tx.isCoinBase = false
  absent : pool.mapTx[tx.hash]? = none
  free : tx.isZerocoinSpend = false → ∀ o ∈ tx.prevouts, pool.mapNextTx o = none
  inputs : s.acceptInputs (s.acceptContext net ctx pool) (s.view.withMempool pool) tx = .ok ()
  scripts : s.checkAllInputs (s.acceptContext net ctx pool) (s.view.withMempool pool)
    ctx.scriptVerifyFlags tx = .ok ()
  pool' : pool' = pool.addUnchecked tx.hash ⟨tx, ctx.getTxSize tx⟩

theorem acceptToMemoryPool_eq_ok (h : s.acceptToMemoryPool net ctx pool tx = .ok pool') :
    Accepted net ctx s pool tx pool' := by
  simp only [acceptToMemoryPool, bind_eq_ok, failIf_eq_ok, mapError_eq_ok, exists_const,
    Except.ok.injEq] at h
  obtain ⟨-, hchain, _, hchecked, hbase, -, hnew, -, hfree, _, -, _, hinputs, _, -, _, hscripts,
    rfl⟩ := h
  refine ⟨?_, hchecked, hbase, ?_, fun hz o ho => ?_, hinputs, hscripts, rfl⟩
  · intro hnil
    rw [hnil] at hchain
    cases hchain
  · by_contra hne
    rw [CTxMemPool.contains_iff.mpr hne] at hnew
    cases hnew
  · simp only [hz, Bool.not_false, Bool.true_and, List.any_eq_false, Option.isSome_iff_ne_none,
      not_not] at hfree
    exact hfree o ho

theorem Accepted.pooled (h : Accepted net ctx s pool tx pool') : pool'.Pooled tx := by
  rw [h.pool']
  exact (@CTxMemPool.pooled_addUnchecked pool ⟨tx, ctx.getTxSize tx⟩ h.absent tx).mpr (Or.inl rfl)

theorem Accepted.haveInputs (h : Accepted net ctx s pool tx pool')
    (hz : tx.isZerocoinSpend = false) :
    (s.view.withMempool pool).haveCoins tx.hash = false ∧
      (s.view.withMempool pool).haveInputs tx = true := by
  have hinputs := h.inputs
  simp only [acceptInputs, hz, Bool.false_eq_true, if_false, bind_eq_ok, failIf_eq_ok,
    exists_const, Bool.not_eq_false'] at hinputs
  obtain ⟨hnew, -, -, -, hin⟩ := hinputs
  exact ⟨hnew, hin⟩

theorem Accepted.not_isUnspendable (h : Accepted net ctx s pool tx pool')
    (hz : tx.isZerocoinSpend = false) {txin : CTxIn} (htxin : txin ∈ tx.vin) :
    ((s.view.withMempool pool).outAt txin.prevout).scriptPubKey.isUnspendable = false := by
  have hs : tx.spendsCoins = true := ConnectContext.spendsCoins_iff.mpr ⟨h.isCoinBase, hz⟩
  have hscripts := h.scripts
  simp only [checkAllInputs, bind_eq_ok] at hscripts
  obtain ⟨nSpendHeight, -, vChecks, hci, -⟩ := hscripts
  obtain ⟨nIn, hget⟩ := List.mem_iff_getElem?.mp htxin
  have hmem : ⟨tx, 0 + nIn, (s.view.withMempool pool).outAt txin.prevout, ctx.scriptVerifyFlags⟩ ∈
      ConnectContext.scriptChecksFrom (s.view.withMempool pool) tx ctx.scriptVerifyFlags 0 tx.vin :=
    ConnectContext.mem_scriptChecksFrom hget
  have hempty : vChecks = [] := by
    simp only [ConnectContext.checkInputs, hs, Bool.not_true, Bool.false_eq_true, if_false,
      bind_eq_ok, Except.ok.injEq] at hci
    obtain ⟨-, -, -, -, -, -, -, -, rfl⟩ := hci
    rfl
  have hrun := ConnectContext.checkInputs_scripts hs hci _ hmem
  rw [hempty] at hrun
  by_contra hu
  rw [Bool.not_eq_false] at hu
  exact ScriptCheck.run_of_isUnspendable ctx.hashes ctx.checkSig hu
    (hrun.resolve_right List.not_mem_nil)

end ChainState

namespace CTxMemPool

variable {Known : CTransaction → Prop} {pool pool' : CTxMemPool} {S : COutPoint → Prop}
  {tx : CTransaction} {net : Network}

theorem Fed.accept {ctx : AcceptContext} {s : ChainState} (h : Fed Known pool S)
    (hK : Committed Known) (hkn : Known tx) (hS : ∀ o, s.view.Spendable o → S o)
    (hown : s.view.Lacks tx.hash → ∀ o, S o → o.hash = tx.hash → tx.Offers o)
    (hfind : tx.isZerocoinSpend = true →
      s.isTransactionInChain net (fun txid => pool.mapTx.contains txid) tx.hash = none →
        s.view.Lacks tx.hash)
    (hacc : s.acceptToMemoryPool net ctx pool tx = .ok pool') : Fed Known pool' S := by
  have ha := ChainState.acceptToMemoryPool_eq_ok hacc
  have hlacks : s.view.Lacks tx.hash := by
    cases hz : tx.isZerocoinSpend with
    | true =>
      have hinputs := ha.inputs
      simp only [ChainState.acceptInputs, hz, if_true, bind_eq_ok, failIf_eq_ok, exists_const,
        Option.isSome_eq_false_iff, Option.isNone_iff_eq_none] at hinputs
      exact hfind hz hinputs.1
    | false =>
      exact CCoinsView.lacks_of_unspent
        (CCoinsView.unspent_of_haveCoins ha.absent (ha.haveInputs hz).1)
  rw [ha.pool']
  refine h.addUnchecked ⟨tx, ctx.getTxSize tx⟩ hkn ha.absent (fun hz => ?_) ha.free
    (fun hz o ho => ?_) (hown hlacks)
  · exact (CheckContext.prevouts_nodup_iff ha.checked).mpr (hK.marked tx hkn hz)
  · obtain ⟨txin, htxin, rfl⟩ := List.mem_map.mp ho
    have hs : tx.spendsCoins = true := ConnectContext.spendsCoins_iff.mpr ⟨ha.isCoinBase, hz⟩
    have hin := (CCoinsView.haveInputs_iff hs).mp (ha.haveInputs hz).2 txin htxin
    exact (CCoinsView.supply_of_haveInput h.index hin (ha.not_isUnspendable hz htxin)).imp_right
      (fun hview => ⟨hview.1, hS _ hview.2⟩)

section Connect

variable {ctx : ConnectContext} {block : CBlock} {pindex : ConnectIndex} {nSpendHeight : Int}
  {first : Bool} {vtx : List CTransaction} {st st' : ConnectState}
  {s : CTxMemPool × List CTransaction}

theorem not_isNull_of_connectedTx
    (h : ConnectContext.ConnectedTx ctx pindex nSpendHeight first tx st st')
    (hs : tx.spendsCoins = true) {o : COutPoint} (ho : o ∈ tx.prevouts) :
    (st.view.outAt o).isNull = false := by
  obtain ⟨txin, htxin, rfl⟩ := List.mem_map.mp ho
  have hin := (CCoinsView.haveInputs_iff hs).mp (h.inputsChecked hs).haveInputs txin htxin
  exact (CCoinsView.haveInput_iff.mp hin).1

-- By induction on the block: the pool is cleared of a transaction as the view takes it in.
theorem Fed.connectTxs (h : Fed Known s.1 st.view.Spendable) (hK : Committed Known)
    (hkn : ∀ tx ∈ vtx, Known tx) (hids : (vtx.map CTransaction.hash).Nodup)
    (hfresh : ∀ tx ∈ vtx, st.view.Lacks tx.hash) (hzero : st.view.Lacks 0)
    (hrun : ctx.connectTxs block pindex nSpendHeight first vtx st = .ok st') :
    Fed Known (vtx.foldl CTxMemPool.removeConnected s).1 st'.view.Spendable ∧
      st'.view.Lacks 0 ∧ InOrder vtx := by
  induction vtx generalizing st first s with
  | nil =>
    simp only [ConnectContext.connectTxs, Except.ok.injEq] at hrun
    rw [← hrun]
    exact ⟨h, hzero, trivial⟩
  | cons tx vtx ih =>
    obtain ⟨mid, hone, hrest⟩ := ConnectContext.connectTxs_cons_eq_ok hrun
    obtain ⟨txundo, hup, -⟩ := hone.updated
    rw [List.forall_mem_cons] at hkn
    rw [List.map_cons, List.nodup_cons] at hids
    have hown := hfresh tx List.mem_cons_self
    have hzero' : mid.view.Lacks 0 := hzero.updateCoins (hK.nonzero tx hkn.1).symm hup
    have hfresh' : ∀ q ∈ vtx, mid.view.Lacks q.hash := by
      intro q hq
      refine (hfresh q (List.mem_cons_of_mem tx hq)).updateCoins ?_ hup
      intro heq
      exact hids.1 (List.mem_map.mpr ⟨q, hq, heq⟩)
    have hstep : Fed Known (CTxMemPool.removeConnected s tx).1 mid.view.Spendable := by
      refine (h.removeConnected hK hkn.1).1.restrict (fun o ho => hzero'.ne_of_spendable ho) ?_
      rintro t - - o - - ⟨hs, hfree⟩
      exact CCoinsView.Spendable.updateCoins hs hfree hown hup
    obtain ⟨hfed, hlacks, horder⟩ := ih hstep hkn.2 hids.2 hfresh' hzero' hrest
    refine ⟨hfed, hlacks, fun hs o ho => ?_, horder⟩
    have hnull := not_isNull_of_connectedTx hone hs ho
    have hne : ∀ txid, st.view.Lacks txid → o.hash ≠ txid := by
      intro txid hl heq
      rw [hl o heq] at hnull
      cases hnull
    exact ⟨hne 0 hzero, fun q hq => hne q.hash (hfresh q hq)⟩

theorem Fed.foldl_removeConnected_idle (h : Fed Known s.1 S) (hK : Committed Known)
    (hkn : ∀ tx ∈ vtx, Known tx) (hidle : ∀ t, ¬ s.1.Pooled t) (hsource : ∀ o, S o → o.hash ≠ 0) :
    Fed Known (vtx.foldl CTxMemPool.removeConnected s).1 S := by
  induction vtx generalizing s with
  | nil => exact h
  | cons tx vtx ih =>
    rw [List.forall_mem_cons] at hkn
    obtain ⟨hfed, hwithin⟩ := h.removeConnected hK hkn.1
    have hidle' : ∀ t, ¬ (CTxMemPool.removeConnected s tx).1.Pooled t :=
      fun t ht => hidle t (hwithin t ht)
    refine ih (hfed.restrict hsource fun t ht => absurd ht (hidle' t)) hkn.2 hidle'

end Connect

section Disconnect

variable {ctx : AcceptContext} {s : ChainState}

-- `txs` is what DisconnectTip has not yet taken up again
def Awaits (view : CCoinsView) (txs : List CTransaction) (o : COutPoint) : Prop :=
  view.Spendable o ∨ ∃ tx ∈ txs, tx.Offers o

theorem Fed.settle {view : CCoinsView} {txs : List CTransaction}
    (h : Fed Known pool (Awaits view (tx :: txs)))
    (hfree : ∀ t, pool.Pooled t → t.isZerocoinSpend = false → ∀ o ∈ t.prevouts,
      pool.mapTx[o.hash]? = none → ¬ tx.Offers o) : Fed Known pool (Awaits view txs) := by
  refine h.restrict (fun o ho => h.source o ?_) fun t ht hz o ho hnone haw => ?_
  · exact ho.imp_right fun ⟨q, hq, hoffers⟩ => ⟨q, List.mem_cons_of_mem tx hq, hoffers⟩
  · rcases haw with hs | ⟨q, hq, hoffers⟩
    · exact Or.inl hs
    · rcases List.mem_cons.mp hq with rfl | hq
      · exact absurd hoffers (hfree t ht hz o ho hnone)
      · exact Or.inr ⟨q, hq, hoffers⟩

theorem Fed.resurrect {txs : List CTransaction} (h : Fed Known pool (Awaits s.view (tx :: txs)))
    (hK : Committed Known) (hkn : ∀ q ∈ tx :: txs, Known q)
    (hlacks : s.view.Lacks tx.hash)
    (hrun : TipState.resurrect net ctx s pool tx = .ok pool') :
    Fed Known pool' (Awaits s.view txs) := by
  have htx := hkn tx List.mem_cons_self
  have hremoved : Fed Known (pool.remove tx [] true).1 (Awaits s.view txs) := by
    obtain ⟨hfed, -, hfree⟩ := h.remove hK htx []
    exact hfed.settle fun t ht hz o ho _ => hfree t ht hz o ho
  rw [TipState.resurrect] at hrun
  split at hrun
  · rw [← Except.ok.inj hrun]
    exact hremoved
  · split at hrun
    · rw [← Except.ok.inj hrun]
      exact hremoved
    · have hacc := ChainState.acceptToMemoryPool_eq_ok hrun
      have hfed : Fed Known pool' (Awaits s.view (tx :: txs)) := by
        refine h.accept hK htx (fun o => Or.inl) (fun _ o haw hown => ?_) (fun _ _ => hlacks) hrun
        rcases haw with hs | ⟨q, hq, hoffers⟩
        · exact absurd hown (hlacks.ne_of_spendable hs)
        · exact hoffers.congr hK (hkn q hq) htx (hown.symm.trans hoffers.1.symm)
      refine hfed.settle fun t _ _ o _ hnone hoffers => ?_
      exact hacc.pooled.get_ne_none (by rw [hoffers.1]; exact hnone)

theorem Fed.foldlM_resurrect {txs : List CTransaction} (h : Fed Known pool (Awaits s.view txs))
    (hK : Committed Known) (hkn : ∀ q ∈ txs, Known q) (hlacks : ∀ q ∈ txs, s.view.Lacks q.hash)
    (hrun : txs.foldlM (TipState.resurrect net ctx s) pool = .ok pool') :
    Fed Known pool' (Awaits s.view []) := by
  induction txs generalizing pool with
  | nil =>
    simp only [List.foldlM_nil, pure, Except.pure, Except.ok.injEq] at hrun
    rw [← hrun]
    exact h
  | cons tx txs ih =>
    simp only [List.foldlM_cons, bind_eq_ok] at hrun
    obtain ⟨mid, hone, hrest⟩ := hrun
    have hstep := h.resurrect hK hkn (hlacks tx List.mem_cons_self) hone
    rw [List.forall_mem_cons] at hkn hlacks
    exact ih hstep hkn.2 hlacks.2 hrest

end Disconnect

end CTxMemPool

namespace ChainState

variable {net : Network} {s s' : ChainState}

theorem disconnect_keeps {dis : DisconnectContext} {undoFile : Option (List UInt8)}
    (h : s.disconnect net dis undoFile = .ok s') :
    ∃ a b chain, s.chain = a :: b :: chain ∧ s'.chain = b :: chain ∧ (InOrder a.block.vtx →
      (∀ o, s.view.Spendable o → s'.view.Spendable o ∨ ∃ tx ∈ a.block.vtx, tx.Offers o) ∧
        (s.view.Lacks 0 → s'.view.Lacks 0) ∧ ∀ tx ∈ a.block.vtx, s'.view.Lacks tx.hash) := by
  simp only [disconnect] at h
  split at h
  · rename_i a b chain hchain
    simp only [bind_eq_ok, failIf_eq_ok, Bool.not_eq_false', exists_const, Except.ok.injEq] at h
    obtain ⟨d, hd, hclean, rfl⟩ := h
    refine ⟨a, b, chain, hchain, rfl, fun horder => ?_⟩
    simp only [DisconnectContext.disconnectBlock, bind_eq_ok, failIf_eq_ok, fromOption_eq_ok,
      exists_const, Except.ok.injEq, decide_eq_false_iff_not, not_not] at hd
    obtain ⟨-, file, -, read, -, hlength, st, htxs, -, rfl⟩ := hd
    have hfst : (a.block.vtx.zip (none :: read.1.vtxundo.map some)).map Prod.fst = a.block.vtx :=
      List.map_fst_zip (by simp [hlength])
    obtain ⟨hundo, -⟩ := DisconnectContext.disconnectTxs_eq_ok_iff.mp htxs
    rw [hclean] at hundo
    have hkeeps := CCoinsView.undoTxs_keeps hundo (by rw [hfst]; exact horder)
    rw [hfst] at hkeeps
    exact hkeeps.2
  · cases h

end ChainState

namespace CTxMemPool

-- What `CTxMemPool::check` asserts of an input.
def inputFound (pool : CTxMemPool) (pcoins : CCoinsView) (o : COutPoint) : Bool :=
  match pool.mapTx[o.hash]? with
  | some entry => entry.tx.vout[o.n.toNat]?.any fun out => !out.isNull
  | none => (pcoins.accessCoins o.hash).any fun coins => coins.isAvailable o.n.toNat

structure Consistent (pool : CTxMemPool) (pcoins : CCoinsView) : Prop where
  index : pool.SpendIndexed
  inputs : ∀ tx, pool.Pooled tx → tx.isZerocoinSpend = false → ∀ o ∈ tx.prevouts,
    pool.inputFound pcoins o = true

variable {Known : CTransaction → Prop} {pool : CTxMemPool} {pcoins : CCoinsView}

theorem Fed.consistent (h : Fed Known pool pcoins.Spendable) : pool.Consistent pcoins := by
  refine ⟨h.index, fun tx htx hz o ho => ?_⟩
  rw [inputFound]
  rcases h.supply tx htx hz o ho with ⟨r, ⟨entry, he, rfl⟩, hoffers⟩ | ⟨hnone, hs⟩
  · obtain ⟨out, hget, hnull, -⟩ :=
      CCoins.getElem?_of_not_isNull_fromTx (CCoins.isAvailable_iff.mp hoffers.2).1
    rw [hoffers.1] at he
    simp [he, hget, hnull]
  · have hcoins := (CCoinsView.unspent_eq_some.mp
      (CCoinsView.unspent_of_outAt hs.not_isNull)).1
    rw [hnone]
    simp only [CCoinsView.accessCoins, hcoins, Option.any_some]
    exact hs.1

theorem Consistent.supplied (h : pool.Consistent pcoins) : pool.Supplied pcoins := by
  intro tx htx hz o ho
  have hfound := h.inputs tx htx hz o ho
  rw [inputFound] at hfound
  cases he : pool.mapTx[o.hash]? with
  | some entry =>
    rw [he] at hfound
    obtain ⟨out, hget, -⟩ := (Option.any_eq_true _ _).mp hfound
    exact Or.inl ⟨entry.tx, h.index.pooled_of_get he, h.index.keyed _ entry he,
      (List.getElem?_eq_some_iff.mp hget).1⟩
  | none =>
    rw [he] at hfound
    obtain ⟨coins, hcoins, hav⟩ := (Option.any_eq_true _ _).mp hfound
    exact Or.inr ⟨rfl, coins, hcoins, hav⟩

end CTxMemPool

inductive TipOp where
  | acceptToMemoryPool (ctx : AcceptContext) (tx : CTransaction)
  | connectTip (ctx : ConnectContext) (getBlockValue : Int → Int) (block : CBlock)
  | disconnectTip (dis : DisconnectContext) (undoFile : Option (List UInt8)) (ctx : AcceptContext)

namespace TipState

inductive Step (net : Network) : TipState → TipOp → TipState → Prop where
  | acceptToMemoryPool {t t' : TipState} {ctx : AcceptContext} {tx : CTransaction}
      (h : t.acceptToMemoryPool net ctx tx = .ok t') : Step net t (.acceptToMemoryPool ctx tx) t'
  | connectTip {t t' : TipState} {ctx : ConnectContext} {getBlockValue : Int → Int}
      {block : CBlock} (hfresh : t.chainstate.Fresh block)
      (h : t.connectTip net ctx getBlockValue block = .ok t') :
      Step net t (.connectTip ctx getBlockValue block) t'
  | connectFails {t : TipState} {ctx : ConnectContext} {getBlockValue : Int → Int}
      {block : CBlock} {e : Failure} (hfresh : t.chainstate.Fresh block)
      (h : t.connectTip net ctx getBlockValue block = .error e) :
      Step net t (.connectTip ctx getBlockValue block) (t.afterFailure net ctx block)
  | disconnectTip {t t' : TipState} {dis : DisconnectContext} {undoFile : Option (List UInt8)}
      {ctx : AcceptContext} (h : t.disconnectTip net dis undoFile ctx = .ok t') :
      Step net t (.disconnectTip dis undoFile ctx) t'

inductive Reachable (net : Network) (Cond : TipState → TipOp → Prop) : TipState → Prop where
  | start (fSanityCheck : Bool) : Reachable net Cond { mempool := { fSanityCheck := fSanityCheck } }
  | step {t t' : TipState} (op : TipOp) (h : Reachable net Cond t) (hcond : Cond t op)
      (hstep : Step net t op t') : Reachable net Cond t'

-- The transactions are `Known`, those of a block have different hashes, BIP30 is enforced on the
-- block, and IsTransactionInChain finds the block of a zerocoin spend that has unspent outputs.
def Regular (net : Network) (Known : CTransaction → Prop) (t : TipState) : TipOp → Prop
  | .acceptToMemoryPool _ tx => Known tx ∧ (tx.isZerocoinSpend = true →
      t.chainstate.isTransactionInChain net (fun txid => t.mempool.mapTx.contains txid) tx.hash =
        none → t.chainstate.view.unspent tx.hash = none)
  | .connectTip _ _ block => (∀ tx ∈ block.vtx, Known tx) ∧
      (block.vtx.map CTransaction.hash).Nodup ∧ ConnectContext.enforceBIP30
        (ChainState.blockIndex t.chainstate.chain.head? block (t.chainstate.height + 1)) = true
  | .disconnectTip _ _ _ => True

structure Sound (net : Network) (Known : CTransaction → Prop) (t : TipState) : Prop where
  fed : t.mempool.Fed Known t.chainstate.view.Spendable
  zero : t.chainstate.view.Lacks 0
  linked : ChainState.Linked net t.chainstate
  known : ∀ a ∈ t.chainstate.chain, ∀ tx ∈ a.block.vtx, Known tx
  inOrder : ∀ a ∈ t.chainstate.chain.dropLast, InOrder a.block.vtx
  idle : t.chainstate.chain = [] → ∀ tx, ¬ t.mempool.Pooled tx

variable {net : Network} {Known : CTransaction → Prop} {t t' : TipState}

theorem Sound.start (net : Network) (Known : CTransaction → Prop) (fSanityCheck : Bool) :
    Sound net Known { mempool := { fSanityCheck := fSanityCheck } } := by
  have hidle : ∀ tx, ¬ CTxMemPool.Pooled { fSanityCheck := fSanityCheck } tx := by
    rintro tx ⟨entry, he, -⟩
    simp at he
  have hlacks : CCoinsView.Lacks ⟨fun _ => none, 0⟩ 0 := fun o _ => rfl
  refine ⟨⟨CTxMemPool.spendIndexed_empty fSanityCheck, fun tx ht => absurd ht (hidle tx),
    fun o ho => hlacks.ne_of_spendable ho, fun tx ht => absurd ht (hidle tx)⟩, hlacks,
    ⟨List.isChain_nil, by simp⟩, by simp, by simp, fun _ => hidle⟩

theorem Sound.acceptToMemoryPool (h : Sound net Known t) (hK : Committed Known)
    {ctx : AcceptContext} {tx : CTransaction}
    (hcond : Regular net Known t (.acceptToMemoryPool ctx tx))
    (hrun : t.acceptToMemoryPool net ctx tx = .ok t') : Sound net Known t' := by
  simp only [TipState.acceptToMemoryPool, bind_eq_ok, Except.ok.injEq] at hrun
  obtain ⟨pool, hacc, rfl⟩ := hrun
  have hchain := (ChainState.acceptToMemoryPool_eq_ok hacc).chain
  refine ⟨?_, h.zero, h.linked, h.known, h.inOrder, fun hnil => absurd hnil hchain⟩
  exact h.fed.accept hK hcond.1 (fun o ho => ho)
    (fun hl o ho hown => absurd hown (hl.ne_of_spendable ho))
    (fun hz hnone => CCoinsView.lacks_of_unspent (hcond.2 hz hnone)) hacc

theorem Sound.connectGenesis (h : Sound net Known t) (hK : Committed Known) {block : CBlock}
    (hkn : ∀ tx ∈ block.vtx, Known tx) {s : ChainState} {a : ActiveBlock}
    (ha : a.block = block) (hnil : t.chainstate.chain = []) (hchain : s.chain = [a])
    (hview : ∀ o, s.view.outAt o = t.chainstate.view.outAt o)
    (hlinked : ChainState.Linked net s) :
    Sound net Known ⟨(t.mempool.removeForBlock block.vtx []).1, s⟩ := by
  have hzero : s.view.Lacks 0 := by
    intro o ho
    rw [hview]
    exact h.zero o ho
  refine ⟨?_, hzero, hlinked, ?_, by simp [hchain], by simp [hchain]⟩
  · refine CTxMemPool.Fed.foldl_removeConnected_idle (s := (t.mempool, [])) ?_ hK hkn
      (h.idle hnil) (fun o ho => hzero.ne_of_spendable ho)
    exact h.fed.restrict (fun o ho => hzero.ne_of_spendable ho)
      fun tx htx => absurd htx (h.idle hnil tx)
  · simp only [hchain, List.mem_singleton, forall_eq]
    rw [ha]
    exact hkn

theorem Sound.connectTip (h : Sound net Known t) (hK : Committed Known) {ctx : ConnectContext}
    {getBlockValue : Int → Int} {block : CBlock} (hfresh : t.chainstate.Fresh block)
    (hcond : Regular net Known t (.connectTip ctx getBlockValue block))
    (hrun : t.connectTip net ctx getBlockValue block = .ok t') : Sound net Known t' := by
  obtain ⟨hkn, hids, hbip30⟩ := hcond
  simp only [TipState.connectTip, bind_eq_ok, Except.ok.injEq] at hrun
  obtain ⟨s, hs, rfl⟩ := hrun
  have hlinked := h.linked.step (.connect hfresh hs)
  obtain ⟨r, hr, ⟨hgenesis, rfl⟩ | ⟨hne, a, chain, fOk, hchain, -, rfl⟩⟩ :=
    ChainState.connect_cases hs
  · have hnil := h.linked.nil_of_genesis hfresh hgenesis
    refine h.connectGenesis hK hkn (a := ⟨block, t.chainstate.height + 1, r.nMoneySupply⟩) rfl hnil
      (by simp [hnil]) (fun o => ?_) hlinked
    have hgenesis' : block.hash = (t.chainstate.context net
        (fun txid => t.mempool.mapTx.contains txid) ctx).params.hashGenesisBlock := hgenesis
    simp only [ConnectContext.connectBlock, bind_eq_ok, if_pos hgenesis', Except.ok.injEq] at hr
    obtain ⟨-, -, -, -, rfl⟩ := hr
    rfl
  · obtain ⟨pprev, st, hc, -⟩ := (ConnectContext.connectBlock_eq_ok_iff hne).mp hr
    obtain ⟨hview, -⟩ := ConnectContext.commit_eq_ok rfl hc.commit
    have hlacks : ∀ tx ∈ block.vtx, t.chainstate.view.Lacks tx.hash := fun tx htx =>
      CCoinsView.lacks_of_unspent
        (ConnectContext.fresh_of_overwrites (hc.bip30 hbip30) tx htx)
    obtain ⟨hfed, hzero, horder⟩ := CTxMemPool.Fed.connectTxs (s := (t.mempool, [])) h.fed hK hkn
      hids hlacks h.zero hc.txs
    have hchain' : (t.chainstate.extended net block r).chain =
        ⟨block, t.chainstate.height + 1, r.nMoneySupply⟩ :: a :: chain := by
      rw [ChainState.extended, hchain]
    have hview' : (t.chainstate.extended net block r).view =
        st.view.setBestBlock block.hash := hview
    have hknown := h.known
    have hinOrder := h.inOrder
    rw [hchain] at hknown hinOrder
    refine ⟨?_, ?_, hlinked, ?_, ?_, ?_⟩
    · rw [hview']
      exact hfed
    · rw [hview']
      exact hzero
    · rw [hchain', List.forall_mem_cons]
      exact ⟨hkn, hknown⟩
    · rw [hchain', List.dropLast_cons_cons, List.forall_mem_cons]
      exact ⟨horder, hinOrder⟩
    · rw [hchain']
      exact fun hnil => absurd hnil (List.cons_ne_nil _ _)

theorem Sound.disconnectTip (h : Sound net Known t) (hK : Committed Known)
    {dis : DisconnectContext} {undoFile : Option (List UInt8)} {ctx : AcceptContext}
    (hrun : t.disconnectTip net dis undoFile ctx = .ok t') : Sound net Known t' := by
  rw [TipState.disconnectTip] at hrun
  split at hrun
  · cases hrun
  · rename_i a rest hchain
    simp only [bind_eq_ok, fromOption_eq_ok, Except.ok.injEq] at hrun
    obtain ⟨s, hs, mid, hmid, pool, hpool, rfl⟩ := hrun
    obtain ⟨a', b, chain, hchain', htail, hkeeps⟩ := ChainState.disconnect_keeps hs
    rw [hchain, List.cons.injEq] at hchain'
    obtain ⟨rfl, rfl⟩ := hchain'
    have hinOrder := h.inOrder
    have hknown := h.known
    rw [hchain, List.dropLast_cons_cons, List.forall_mem_cons] at hinOrder
    rw [hchain, List.forall_mem_cons] at hknown
    obtain ⟨hview, hzero, hlacks⟩ := hkeeps hinOrder.1
    have hzero' := hzero h.zero
    have hstart : t.mempool.Fed Known (CTxMemPool.Awaits s.view a.block.vtx) := by
      refine h.fed.restrict ?_ fun _ _ _ o _ _ ho => hview o ho
      rintro o (ho | ⟨q, hq, hoffers⟩)
      · exact hzero'.ne_of_spendable ho
      · rw [← hoffers.1]
        exact hK.nonzero q (hknown.1 q hq)
    have hdone := (hstart.foldlM_resurrect (s := { s with chain := a :: b :: chain }) hK hknown.1
      hlacks hmid).removeCoinbaseSpends hK hpool
    refine ⟨?_, hzero', h.linked.step (.disconnect hs), ?_, ?_, ?_⟩
    · refine hdone.restrict (fun o ho => hzero'.ne_of_spendable ho) ?_
      rintro tx - - o - - (ho | ⟨q, hq, -⟩)
      · exact ho
      · cases hq
    · rw [htail]
      exact hknown.2
    · rw [htail]
      exact hinOrder.2
    · rw [htail]
      exact fun hnil => absurd hnil (List.cons_ne_nil _ _)

theorem Sound.step (h : Sound net Known t) (hK : Committed Known) {op : TipOp}
    (hcond : Regular net Known t op) (hstep : Step net t op t') : Sound net Known t' := by
  cases hstep with
  | acceptToMemoryPool hrun => exact h.acceptToMemoryPool hK hcond hrun
  | connectTip hfresh hrun => exact h.connectTip hK hfresh hcond hrun
  | @connectFails ctx _ block _ _ _ =>
    exact ChainState.afterFailure_keeps (P := fun s => Sound net Known { t with chainstate := s })
      h _ ctx block fun _ => ⟨h.fed, h.zero, ⟨h.linked.heights, h.linked.genesis⟩, h.known,
        h.inOrder, h.idle⟩
  | disconnectTip hrun => exact h.disconnectTip hK hrun

def tipNet : Network where
  params := { hashGenesisBlock := 1, nMaturity := 0 }
  lib := CheckContext.plainLib
  fTxIndex := false

def tipAccept : AcceptContext where
  conn := ConnectContext.plainConnect
  check := CheckContext.plainContext
  hashes := ⟨id, id, id, id, id⟩
  checkSig := fun _ _ _ _ _ _ _ => true
  inMaintenance := false
  mapLockedInputs := fun _ => none
  isStandardTx := fun _ => .ok ()
  policy := fun _ _ => .ok ()
  getTxSize := CTransaction.getSerializeSize
  scriptVerifyFlags := SCRIPT_VERIFY_P2SH

def generation (n : Nat) : CTransaction where
  hash := BitVec.ofNat 256 (10 + n)
  vin := [⟨COutPoint.null, [0x51, 0x51], 0xffffffff⟩]
  vout := [⟨0, [0x51]⟩]

def loose : CTransaction where
  hash := 20
  vin := [⟨⟨11, 0⟩, [], 0xffffffff⟩]
  vout := [⟨0, [0x51]⟩]

def tipBlock (n : Nat) : CBlock where
  hash := BitVec.ofNat 256 (n + 1)
  hashPrevBlock := BitVec.ofNat 256 n
  nVersion := 3
  vtx := [generation n]

theorem removeForBlock_idle {vtx conflicts : List CTransaction} :
    CTxMemPool.removeForBlock {} vtx conflicts = ({}, conflicts) := by
  have hskip : ∀ (tx : CTransaction) (vin : List CTxIn),
      vin.foldl (CTxMemPool.removeConflict tx) (({} : CTxMemPool), conflicts) =
        ({}, conflicts) := by
    intro tx vin
    induction vin with
    | nil => rfl
    | cons txin vin ih => exact ih
  induction vtx with
  | nil => rfl
  | cons tx vtx ih =>
    have hone : CTxMemPool.removeConnected ({}, conflicts) tx = ({}, conflicts) := by
      rw [CTxMemPool.removeConnected, CTxMemPool.remove_of_absent [] (by simp)]
      exact hskip tx tx.vin
    rw [CTxMemPool.removeForBlock, List.foldl_cons, hone]
    exact ih

def tipChain : Option ChainState :=
  ChainState.connectAll tipNet ConnectContext.plainConnect [tipBlock 0, tipBlock 1] {}

def tipKnown (tx : CTransaction) : Prop := tx ∈ [generation 0, generation 1, loose]

theorem committed_tipKnown : Committed tipKnown := by
  have hall : ∀ a ∈ [generation 0, generation 1, loose], a.hash ≠ 0 ∧
      (∀ b ∈ [generation 0, generation 1, loose], a.hash = b.hash → a.vout = b.vout) ∧
      a.isZerocoinSpend = false ∧
      a.vin.Pairwise fun a b => a.scriptSig.isZerocoinSpend = true → a.prevout ≠ b.prevout := by
    decide +kernel
  refine ⟨fun tx htx => (hall tx htx).1, fun a b ha hb => (hall a ha).2.1 b hb, ?_,
    fun tx htx _ => (hall tx htx).2.2.2⟩
  intro tx htx hz
  rw [(hall tx htx).2.2.1] at hz
  cases hz

theorem enforceBIP30_tipBlock {n : Nat} (hn : n < 2) (prev : Option ActiveBlock) (nHeight : Int) :
    ConnectContext.enforceBIP30 (ChainState.blockIndex prev (tipBlock n) nHeight) = true := by
  obtain rfl | rfl : n = 0 ∨ n = 1 := by omega
  · simp [ConnectContext.enforceBIP30, ChainState.blockIndex, tipBlock]
  · simp [ConnectContext.enforceBIP30, ChainState.blockIndex, tipBlock]

theorem step_tipBlock {s s' : ChainState} {n : Nat} (hlt : n < 2) (hn : tipKnown (generation n))
    (h : Reachable tipNet (Regular tipNet tipKnown) ⟨{}, s⟩) (hfresh : s.Fresh (tipBlock n))
    (hs : s.connect tipNet (fun _ => false) ConnectContext.plainConnect (fun _ => 0) (tipBlock n) =
      .ok s') : Reachable tipNet (Regular tipNet tipKnown) ⟨{}, s'⟩ := by
  refine .step (.connectTip ConnectContext.plainConnect (fun _ => 0) (tipBlock n)) h
    ⟨?_, List.nodup_singleton _, enforceBIP30_tipBlock hlt _ _⟩ (.connectTip hfresh ?_)
  · intro tx htx
    rw [List.mem_singleton.mp htx]
    exact hn
  · have hidle : (fun txid => ({} : CTxMemPool).mapTx.contains txid) = fun _ => false := by
      funext txid
      simp
    simp only [TipState.connectTip, hidle, hs, ok_bind, removeForBlock_idle]

end TipState

end AnkerNode
