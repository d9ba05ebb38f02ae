import AnkerNode.Validation.UndoRun

namespace AnkerNode

open Checks

def spentBy (vtx : List CTransaction) : List COutPoint :=
  vtx.flatMap fun tx => if tx.spendsCoins then tx.prevouts else []

def Emptied (vtx : List CTransaction) (txid : UInt256) (c : CCoins) : Prop :=
  ∀ n, (c.outAt n).isNull = false → ∃ o ∈ spentBy vtx, o.hash = txid ∧ o.n.toNat = n

namespace CCoinsView

variable {final view view' : CCoinsView}

theorem modified_spendInputs {prevouts : List COutPoint} {vprevout : List CTxInUndo}
    (hv : view.Clean) (h : view.spendInputs prevouts = some (view', vprevout)) (txid : UInt256)
    (n : Nat) :
    (view'.modified txid).outAt n = CTxOut.null ∧
        (∃ o ∈ prevouts, o.hash = txid ∧ o.n.toNat = n) ∨
      (view'.modified txid).outAt n = (view.modified txid).outAt n ∧
        ¬ ∃ o ∈ prevouts, o.hash = txid ∧ o.n.toNat = n := by
  induction prevouts generalizing view vprevout with
  | nil =>
    simp only [spendInputs, Option.some.injEq, Prod.mk.injEq] at h
    right
    simp [h.1]
  | cons prevout rest ih =>
    obtain ⟨mid, undo, vrest, hone, hrest, -⟩ := spendInputs_cons_eq_some h
    have hmid := modified_spendInput hv hone txid n
    rcases ih (clean_spendInput hv hone) hrest with ⟨hnull, o, ho, heq⟩ | ⟨heq, hnot⟩
    · exact Or.inl ⟨hnull, o, by simp [ho], heq⟩
    · by_cases hp : prevout.hash = txid ∧ prevout.n.toNat = n
      · exact Or.inl ⟨by rw [heq, hmid, if_pos hp], prevout, by simp, hp⟩
      · refine Or.inr ⟨by rw [heq, hmid, if_neg hp], ?_⟩
        rintro ⟨o, ho, ho'⟩
        rcases List.mem_cons.mp ho with rfl | ho
        · exact hp ho'
        · exact hnot ⟨o, ho, ho'⟩

theorem mem_spentBy_cons {tx : CTransaction} {vtx : List CTransaction} {o : COutPoint} :
    o ∈ spentBy (tx :: vtx) ↔ (tx.spendsCoins = true ∧ o ∈ tx.prevouts) ∨ o ∈ spentBy vtx := by
  cases hs : tx.spendsCoins <;> simp [spentBy, hs]

theorem modified_updateCoins {tx : CTransaction} {nHeight : Int} {txundo : CTxUndo}
    (hv : view.Clean) (h : view.updateCoins tx nHeight = some (view', txundo)) {txid : UInt256}
    (hne : txid ≠ tx.hash) (n : Nat) :
    (view'.modified txid).outAt n = CTxOut.null ∧
        (tx.spendsCoins = true ∧ ∃ o ∈ tx.prevouts, o.hash = txid ∧ o.n.toNat = n) ∨
      (view'.modified txid).outAt n = (view.modified txid).outAt n ∧
        ¬ (tx.spendsCoins = true ∧ ∃ o ∈ tx.prevouts, o.hash = txid ∧ o.n.toNat = n) := by
  obtain ⟨mid, hmid, rfl⟩ := updateCoins_eq_some h
  rw [modified_release_ne hne]
  simp only [markInputsSpent] at hmid
  split at hmid
  · rename_i hs
    rcases modified_spendInputs hv hmid txid n with ⟨hnull, hex⟩ | ⟨heq, hnot⟩
    · exact Or.inl ⟨hnull, hs, hex⟩
    · exact Or.inr ⟨heq, fun h0 => hnot h0.2⟩
  · rename_i hs
    simp only [Option.some.injEq, Prod.mk.injEq] at hmid
    exact Or.inr ⟨by rw [hmid.1], fun h0 => hs h0.1⟩

theorem modified_updateAll {nHeight : Int} {vtx : List CTransaction} {vtxundo : List CTxUndo}
    (hc : Connectable nHeight view vtx) (h : updateAll nHeight view vtx = some (final, vtxundo))
    {txid : UInt256} (hnot : txid ∉ vtx.map CTransaction.hash) (n : Nat) :
    ((final.modified txid).outAt n).isNull = false ↔
      ((view.modified txid).outAt n).isNull = false ∧
        ¬ ∃ o ∈ spentBy vtx, o.hash = txid ∧ o.n.toNat = n := by
  induction vtx generalizing view vtxundo with
  | nil =>
    simp only [updateAll, Option.some.injEq, Prod.mk.injEq] at h
    simp [spentBy, h.1]
  | cons tx vtx ih =>
    obtain ⟨mid, txundo, rest, hone, hrest, -⟩ := updateAll_cons_eq_some h
    simp only [List.map_cons, List.mem_cons, not_or] at hnot
    rw [ih (hc.tail hone) hrest hnot.2]
    rcases modified_updateCoins hc.coins.clean hone hnot.1 n with ⟨hnull, hs, o, ho, heq⟩ | ⟨heq, hno⟩
    · refine iff_of_false (fun h0 => by simp [hnull] at h0) (fun h0 => h0.2 ⟨o, ?_, heq⟩)
      exact mem_spentBy_cons.mpr (Or.inl ⟨hs, ho⟩)
    · rw [heq]
      refine and_congr_right (fun _ => not_congr ⟨?_, ?_⟩)
      · rintro ⟨o, ho, h0⟩
        exact ⟨o, mem_spentBy_cons.mpr (Or.inr ho), h0⟩
      · rintro ⟨o, ho, h0⟩
        rcases mem_spentBy_cons.mp ho with ⟨hs, hp⟩ | ho
        · exact absurd ⟨hs, o, hp, h0⟩ hno
        · exact ⟨o, ho, h0⟩

theorem clean_updateAll {nHeight : Int} {vtx : List CTransaction} {vtxundo : List CTxUndo}
    (hc : Connectable nHeight view vtx) (h : updateAll nHeight view vtx = some (final, vtxundo)) :
    final.Clean := by
  induction vtx generalizing view vtxundo with
  | nil =>
    simp only [updateAll, Option.some.injEq, Prod.mk.injEq] at h
    rw [← h.1]
    exact hc.coins.clean
  | cons tx vtx ih =>
    obtain ⟨mid, txundo, rest, hone, hrest, -⟩ := updateAll_cons_eq_some h
    exact ih (hc.tail hone) hrest

theorem unspent_eq_none_iff (hv : view.Clean) {txid : UInt256} :
    view.unspent txid = none ↔ ∀ n, ((view.modified txid).outAt n).isNull = true := by
  constructor
  · intro h n
    exact CCoins.isNull_outAt_of_isPruned (isPruned_modified h) n
  · intro h
    cases hu : view.unspent txid with
    | none => rfl
    | some c =>
      have hm := modified_of_unspent hu
      have hp := (unspent_eq_some.mp hu).2
      rw [hm] at h
      have hcan := (clean_of_unspent hv hu).2
      rw [(CCoins.isPruned_iff_outAt hcan).mpr (fun n => ?_)] at hp
      · simp at hp
      · by_cases hn : n < c.vout.length
        · have h1 := h n
          rw [CCoins.outAt, List.getD_eq_getElem _ _ hn] at h1 ⊢
          exact hcan _ (List.getElem_mem hn) h1
        · exact CCoins.outAt_null_of_le (by omega)

theorem unspent_updateAll_none_iff {nHeight : Int} {vtx : List CTransaction}
    {vtxundo : List CTxUndo} (hc : Connectable nHeight view vtx)
    (h : updateAll nHeight view vtx = some (final, vtxundo)) {txid : UInt256} {c : CCoins}
    (hu : view.unspent txid = some c) :
    final.unspent txid = none ↔ Emptied vtx txid c := by
  have hnot : txid ∉ vtx.map CTransaction.hash := by
    intro hmem
    obtain ⟨tx, htx, rfl⟩ := List.mem_map.mp hmem
    rw [hc.fresh tx htx] at hu
    simp at hu
  rw [unspent_eq_none_iff (clean_updateAll hc h)]
  refine forall_congr' (fun n => ?_)
  have hiff := modified_updateAll hc h hnot n
  rw [modified_of_unspent hu] at hiff
  constructor
  · intro hnull hsome
    by_contra hno
    rw [hiff.mpr ⟨hsome, hno⟩] at hnull
    simp at hnull
  · intro himp
    by_contra hnn
    obtain ⟨hsome, hno⟩ := hiff.mp (by simpa using hnn)
    exact hno (himp hsome)

theorem unspent_created_none_iff {nHeight : Int} {vtx : List CTransaction}
    {vtxundo : List CTxUndo} (hc : Connectable nHeight view vtx)
    (h : updateAll nHeight view vtx = some (final, vtxundo)) {tx : CTransaction} (htx : tx ∈ vtx) :
    final.unspent tx.hash = none ↔ Emptied vtx tx.hash (CCoins.fromTx tx nHeight) := by
  induction vtx generalizing view vtxundo with
  | nil => simp at htx
  | cons t vtx ih =>
    obtain ⟨mid, txundo, rest, hone, hrest, -⟩ := updateAll_cons_eq_some h
    have hct := hc.tail hone
    have hown : ∀ o, t.spendsCoins = true ∧ o ∈ t.prevouts → o.hash ≠ tx.hash := by
      rintro o ⟨hs, ho⟩ heq
      obtain ⟨mid', hmid', -⟩ := updateCoins_eq_some hone
      rw [markInputsSpent, hs] at hmid'
      exact mem_prevouts_unspent hmid' ho (by rw [heq, hc.fresh tx htx])
    have hsame : Emptied (t :: vtx) tx.hash (CCoins.fromTx tx nHeight) ↔
        Emptied vtx tx.hash (CCoins.fromTx tx nHeight) := by
      refine forall_congr' (fun n => imp_congr_right (fun _ => ⟨?_, ?_⟩))
      · rintro ⟨o, ho, h0⟩
        rcases mem_spentBy_cons.mp ho with hp | ho
        · exact absurd h0.1 (hown o hp)
        · exact ⟨o, ho, h0⟩
      · rintro ⟨o, ho, h0⟩
        exact ⟨o, mem_spentBy_cons.mpr (Or.inr ho), h0⟩
    rw [hsame]
    rcases List.mem_cons.mp htx with rfl | htx
    · obtain ⟨mid', -, hmid'⟩ := updateCoins_eq_some hone
      have hcf := CCoins.clean_fromTx nHeight (hc.nonneg tx (by simp))
      have hself := unspent_release_self mid' tx.hash hcf
      rw [← hmid'] at hself
      by_cases hempty : (CCoins.fromTx tx nHeight).vout = []
      · rw [if_pos hempty] at hself
        refine iff_of_true (unspent_updateAll_none hrest (List.nodup_cons.mp hc.distinct).1 hself) ?_
        intro n hn
        rw [CCoins.outAt_of_vout_eq_nil hempty] at hn
        simp at hn
      · rw [if_neg hempty] at hself
        exact unspent_updateAll_none_iff hct hrest hself
    · exact ih hct hrest htx

theorem storable_undo {prevout : COutPoint} {undo : CTxInUndo} (hv : view.Storable)
    (hval : 0 ≤ (view.outAt prevout).nValue ∧ (view.outAt prevout).nValue < 2 ^ 60)
    (h : view.spendInput prevout = some (view', undo)) : undo.Storable := by
  obtain ⟨c', hc', rfl⟩ := spendInput_eq_some h
  obtain ⟨hnn, htxout, -, -, -, -, -, -, hundo⟩ :=
    CCoins.spend_eq_some (clean_modified hv.clean prevout.hash) hc'
  have hcoins := hv.coins _ _ (unspent_of_outAt hnn)
  have hscript := hcoins.script_lt prevout.n.toNat
  rw [outAt, ← htxout] at hval
  rw [← htxout] at hscript
  split at hundo
  · obtain ⟨hh, -, -, hver⟩ := hundo
    refine ⟨?_, hver ▸ hcoins.version_lt, hval.1, hval.2, hscript⟩
    rw [hh, Int.emod_eq_of_lt (by have := hcoins.height_pos; omega)
      (by have := hcoins.height_lt; omega)]
    have := hcoins.height_lt
    omega
  · refine ⟨?_, ?_, hval.1, hval.2, hscript⟩
    · rw [hundo]
      exact Nat.pow_pos (by omega)
    · rw [hundo]
      exact (by decide : (0 : Int) < 2 ^ 31)

theorem storable_undos {prevouts : List COutPoint} {vprevout : List CTxInUndo}
    (hv : view.Storable)
    (hval : ∀ o ∈ prevouts, 0 ≤ (view.outAt o).nValue ∧ (view.outAt o).nValue < 2 ^ 60)
    (h : view.spendInputs prevouts = some (view', vprevout)) : ∀ u ∈ vprevout, u.Storable := by
  induction prevouts generalizing view vprevout with
  | nil =>
    simp only [spendInputs, Option.some.injEq, Prod.mk.injEq] at h
    simp [← h.2]
  | cons prevout rest ih =>
    have hnd := List.nodup_cons.mp (not_isNull_of_spendInputs h).1
    obtain ⟨mid, undo, vrest, hone, hrest, rfl⟩ := spendInputs_cons_eq_some h
    have hrestS := ih (storable_spendInput hv hone) (by
      intro o ho
      have hne : ¬ (prevout.hash = o.hash ∧ prevout.n.toNat = o.n.toNat) := by
        rintro ⟨hh, hn⟩
        have heq : prevout = o := by
          cases prevout
          cases o
          simp_all [UInt32.toNat_inj]
        exact hnd.1 (heq ▸ ho)
      have hmod := modified_spendInput hv.clean hone o.hash o.n.toNat
      rw [if_neg hne] at hmod
      rw [outAt, hmod]
      exact hval o (by simp [ho])) hrest
    intro u hu
    rcases List.mem_cons.mp hu with rfl | hu
    · exact storable_undo hv (hval prevout (by simp)) hone
    · exact hrestS u hu

end CCoinsView

namespace ConnectContext

variable {ctx : ConnectContext}

theorem foldlM_checkInputValue {view : CCoinsView} {nSpendHeight acc total : Int}
    {vin : List CTxIn} (h : vin.foldlM (ctx.checkInputValue view nSpendHeight) acc = .ok total) :
    ∀ txin ∈ vin, ctx.params.moneyRange (view.outAt txin.prevout).nValue = true := by
  induction vin generalizing acc with
  | nil => simp
  | cons txin vin ih =>
    simp only [List.foldlM_cons, checkInputValue, bind_eq_ok, fromOption_eq_ok, failIf_eq_ok,
      exists_const, Except.ok.injEq, Bool.or_eq_false_iff, Bool.not_eq_false'] at h
    obtain ⟨_, ⟨coins, hcoins, -, ⟨hval, -⟩, rfl⟩, hrest⟩ := h
    intro t ht
    rcases List.mem_cons.mp ht with rfl | ht
    · have hm : view.modified t.prevout.hash = coins := by
        simp [CCoinsView.modified, show view.coins t.prevout.hash = some coins from hcoins]
      rw [CCoinsView.outAt, hm]
      exact hval
    · exact ih hrest t ht

theorem moneyRange_of_checkInputs {view : CCoinsView} {nSpendHeight : Int} {tx : CTransaction}
    (hs : tx.spendsCoins = true) (h : InputsChecked ctx nSpendHeight view tx) :
    ∀ txin ∈ tx.vin, ctx.params.moneyRange (view.outAt txin.prevout).nValue = true := by
  obtain ⟨fScriptChecks, flags, vChecks, hci⟩ := h.checkInputs
  simp only [checkInputs, hs, Bool.not_true, Bool.false_eq_true, if_false, bind_eq_ok] at hci
  obtain ⟨-, -, total, hfold, -⟩ := hci
  exact foldlM_checkInputValue hfold

theorem storable_txundo {pindex : ConnectIndex} {nSpendHeight : Int} {first : Bool}
    {tx : CTransaction} {st st' : ConnectState} {txundo : CTxUndo} (hv : st.view.Storable)
    (htx : tx.Storable) (h : ConnectedTx ctx pindex nSpendHeight first tx st st')
    (hup : st.view.updateCoins tx pindex.nHeight = some (st'.view, txundo)) :
    txundo.Storable := by
  obtain ⟨mid, hmid, -⟩ := CCoinsView.updateCoins_eq_some hup
  simp only [CCoinsView.markInputsSpent] at hmid
  split at hmid
  · rename_i hs
    have hrange := moneyRange_of_checkInputs hs (h.inputsChecked hs)
    refine ⟨?_, CCoinsView.storable_undos hv ?_ hmid⟩
    · rw [CCoinsView.length_spendInputs hmid, CTransaction.prevouts, List.length_map]
      exact htx.inputs_le
    · intro o ho
      obtain ⟨txin, htxin, rfl⟩ := List.mem_map.mp ho
      have hr := hrange txin htxin
      simp only [ChainParams.moneyRange, Bool.and_eq_true, decide_eq_true_eq] at hr
      exact ⟨hr.1, lt_of_le_of_lt hr.2 ctx.params.maxMoneyOut_lt⟩
  · simp only [Option.some.injEq, Prod.mk.injEq] at hmid
    refine ⟨by simp [← hmid.2, MAX_SIZE], by simp [← hmid.2]⟩

theorem updateAll_of_connectTxs {block : CBlock} {pindex : ConnectIndex} {nSpendHeight : Int}
    {first : Bool} {vtx : List CTransaction} {st st' : ConnectState}
    (hh : 0 < pindex.nHeight ∧ pindex.nHeight < 2 ^ 30) (hv : st.view.Storable)
    (htxs : ∀ tx ∈ vtx, tx.Storable)
    (h : ctx.connectTxs block pindex nSpendHeight first vtx st = .ok st') :
    (∀ tx ∈ vtx, ∀ o ∈ tx.vout, 0 ≤ o.nValue) ∧
    ∃ vtxundo, CCoinsView.updateAll pindex.nHeight st.view vtx = some (st'.view, vtxundo) ∧
      vtxundo.length = vtx.length ∧ (∀ u ∈ vtxundo, u.Storable) ∧
      st'.vtxundo = st.vtxundo ++ (if first then vtxundo.tail else vtxundo) := by
  induction vtx generalizing st first with
  | nil =>
    simp only [connectTxs, Except.ok.injEq] at h
    exact ⟨by simp, [], by simp [CCoinsView.updateAll, h], rfl, by simp, by simp [h]⟩
  | cons tx vtx ih =>
    obtain ⟨mid, hone, hrest⟩ := connectTxs_cons_eq_ok h
    obtain ⟨txundo, hup, hundo⟩ := hone.updated
    obtain ⟨nOut, hOut, -, -⟩ := hone.outputs
    have hnonneg := CTransaction.nonneg_of_getValueOut hOut
    have hmid := CCoinsView.storable_updateCoins hv (htxs tx (by simp)) hh hnonneg hup
    obtain ⟨hnn, vtxundo, hall, hlen, hst, hrec⟩ := ih hmid (fun t ht => htxs t (by simp [ht])) hrest
    refine ⟨?_, txundo :: vtxundo, ?_, by simp [hlen], ?_, ?_⟩
    · intro t ht
      rcases List.mem_cons.mp ht with rfl | ht
      · exact hnonneg
      · exact hnn t ht
    · simp [CCoinsView.updateAll, hup, hall]
    · intro u hu
      rcases List.mem_cons.mp hu with rfl | hu
      · exact storable_txundo hv (htxs tx (by simp)) hone hup
      · exact hst u hu
    · rw [hrec, hundo]
      cases first <;> simp

theorem fresh_of_overwrites {view : CCoinsView} {block : CBlock}
    (h : overwrites view block = false) : ∀ tx ∈ block.vtx, view.unspent tx.hash = none := by
  intro tx htx
  simp only [overwrites, List.any_eq_false, CCoinsView.accessCoins] at h
  have h1 := h tx htx
  cases hc : view.coins tx.hash with
  | none => simp [CCoinsView.unspent, hc]
  | some c =>
    simp only [hc, Option.any_some, Bool.not_eq_true, Bool.not_eq_false'] at h1
    simp [CCoinsView.unspent, hc, h1]

end ConnectContext

namespace DisconnectContext

variable {ctx : DisconnectContext}

def undoZerocoinTxs (ctx : DisconnectContext) :
    List CTransaction → ZerocoinDB → Except Failure ZerocoinDB
  | [], db => .ok db
  | tx :: vtx, db => do
    let db ← undoZerocoinTxs ctx vtx db
    ctx.undoZerocoins tx db

theorem disconnectTxs_eq_ok_iff {nHeight : Int} {pairs : List (CTransaction × Option CTxUndo)}
    {st st' : DisconnectState} :
    ctx.disconnectTxs nHeight pairs st = .ok st' ↔
      CCoinsView.undoTxs nHeight pairs (st.view, st.fClean) = .ok (st'.view, st'.fClean) ∧
        ctx.undoZerocoinTxs (pairs.map Prod.fst) st.zerocoinDB = .ok st'.zerocoinDB := by
  induction pairs generalizing st' with
  | nil =>
    cases st
    cases st'
    simp only [disconnectTxs, CCoinsView.undoTxs, undoZerocoinTxs, List.map_nil, Except.ok.injEq,
      DisconnectState.mk.injEq, Prod.mk.injEq]
    tauto
  | cons p pairs ih =>
    obtain ⟨tx, txundo⟩ := p
    simp only [disconnectTxs, disconnectTx, CCoinsView.undoTxs, undoZerocoinTxs, List.map_cons,
      bind_eq_ok, Except.ok.injEq]
    constructor
    · rintro ⟨mid, hmid, db, hdb, acc, hacc, rfl⟩
      obtain ⟨hv, hz⟩ := ih.mp hmid
      exact ⟨⟨_, hv, hacc⟩, _, hz, hdb⟩
    · rintro ⟨⟨acc, hv, hacc⟩, db, hz, hdb⟩
      exact ⟨⟨acc.1, db, acc.2⟩, ih.mpr ⟨hv, hz⟩, _, hdb, _, hacc, rfl⟩

def plainDisconnect : DisconnectContext where
  lib := CheckContext.plainLib
  ops := ⟨fun _ => false, fun _ => none, decompress_of_never⟩
  hasher := fun hashBlock bytes => hashBlock + BitVec.ofNat 256 bytes.length
  eraseAccumulatorValues := true

end DisconnectContext

end AnkerNode
