import AnkerNode.Validation.DisconnectBlock

namespace AnkerNode

open Checks

structure CCoins.Storable (c : CCoins) : Prop where
  height_pos : 0 < c.nHeight
  height_lt : c.nHeight < 2 ^ 30
  version_lt : c.nVersion < 2 ^ 31
  script_lt : ∀ n, (c.outAt n).scriptPubKey.length < 2 ^ 31

structure CTransaction.Storable (tx : CTransaction) : Prop where
  inputs_le : tx.vin.length ≤ MAX_SIZE
  version_lt : tx.nVersion < 2 ^ 31
  script_lt : ∀ o ∈ tx.vout, o.scriptPubKey.length < 2 ^ 31

namespace CCoinsView

variable {final view view' now : CCoinsView}

structure Storable (view : CCoinsView) : Prop where
  clean : view.Clean
  coins : ∀ txid c, view.unspent txid = some c → c.Storable

theorem unspent_spendInput_none {prevout : COutPoint} {undo : CTxInUndo} {txid : UInt256}
    (h : view.spendInput prevout = some (view', undo)) (hn : view.unspent txid = none) :
    view'.unspent txid = none := by
  obtain ⟨hnull, -⟩ := isNull_outAt_spendInput h
  have huns := unspent_of_outAt hnull
  obtain ⟨c, -, rfl⟩ := spendInput_eq_some h
  have hne : txid ≠ prevout.hash := by
    rintro rfl
    rw [hn] at huns
    simp at huns
  rw [unspent_release_ne hne, hn]

theorem unspent_spendInputs_none {prevouts : List COutPoint} {vprevout : List CTxInUndo}
    {txid : UInt256} (h : view.spendInputs prevouts = some (view', vprevout))
    (hn : view.unspent txid = none) : view'.unspent txid = none := by
  induction prevouts generalizing view vprevout with
  | nil =>
    simp only [spendInputs, Option.some.injEq, Prod.mk.injEq] at h
    rw [← h.1]
    exact hn
  | cons prevout rest ih =>
    obtain ⟨mid, undo, vrest, hone, hrest, -⟩ := spendInputs_cons_eq_some h
    exact ih hrest (unspent_spendInput_none hone hn)

theorem storable_spendInput {prevout : COutPoint} {undo : CTxInUndo} (hv : view.Storable)
    (h : view.spendInput prevout = some (view', undo)) : view'.Storable := by
  refine ⟨clean_spendInput hv.clean h, fun txid c hc => ?_⟩
  obtain ⟨d, hd, rfl⟩ := spendInput_eq_some h
  obtain ⟨hnn, -, hclean, -, -, hh, hver, hout, -⟩ :=
    CCoins.spend_eq_some (clean_modified hv.clean prevout.hash) hd
  by_cases ht : txid = prevout.hash
  · subst ht
    have hold := hv.coins _ _ (unspent_of_outAt hnn)
    rw [unspent_release_self _ _ hclean] at hc
    split at hc
    · simp at hc
    · simp only [Option.some.injEq] at hc
      subst hc
      refine ⟨hh ▸ hold.height_pos, hh ▸ hold.height_lt, hver ▸ hold.version_lt, fun n => ?_⟩
      rw [hout]
      split
      · simp [CTxOut.null]
      · exact hold.script_lt n
  · rw [unspent_release_ne ht] at hc
    exact hv.coins txid c hc

theorem storable_spendInputs {prevouts : List COutPoint} {vprevout : List CTxInUndo}
    (hv : view.Storable) (h : view.spendInputs prevouts = some (view', vprevout)) :
    view'.Storable := by
  induction prevouts generalizing view vprevout with
  | nil =>
    simp only [spendInputs, Option.some.injEq, Prod.mk.injEq] at h
    rw [← h.1]
    exact hv
  | cons prevout rest ih =>
    obtain ⟨mid, undo, vrest, hone, hrest, -⟩ := spendInputs_cons_eq_some h
    exact ih (storable_spendInput hv hone) hrest

theorem length_spendInputs {prevouts : List COutPoint} {vprevout : List CTxInUndo}
    (h : view.spendInputs prevouts = some (view', vprevout)) :
    vprevout.length = prevouts.length := by
  induction prevouts generalizing view vprevout with
  | nil =>
    simp only [spendInputs, Option.some.injEq, Prod.mk.injEq] at h
    simp [← h.2]
  | cons prevout rest ih =>
    obtain ⟨mid, undo, vrest, -, hrest, rfl⟩ := spendInputs_cons_eq_some h
    simp [ih hrest]

theorem undone_undoInputs {prevouts : List COutPoint} {vprevout : List CTxInUndo} (fClean : Bool)
    (hv : view.Storable) (h : view.spendInputs prevouts = some (view', vprevout))
    (hlast : ∀ o ∈ prevouts, view'.unspent o.hash = none → final.unspent o.hash = none)
    (hu : Undone final view' now) :
    ∃ now', undoInputs (prevouts.zip (vprevout.map CTxInUndo.readBack)) (now, fClean) =
        (now', fClean) ∧ Undone final view now' := by
  induction prevouts generalizing view vprevout with
  | nil =>
    simp only [spendInputs, Option.some.injEq, Prod.mk.injEq] at h
    obtain ⟨rfl, rfl⟩ := h
    exact ⟨now, rfl, hu⟩
  | cons prevout rest ih =>
    obtain ⟨mid, undo, vrest, hone, hrest, rfl⟩ := spendInputs_cons_eq_some h
    obtain ⟨mid', hmid', humid⟩ := ih (storable_spendInput hv hone) hrest
      (fun o ho => hlast o (by simp [ho]))
    obtain ⟨now', hnow', hunow⟩ := undone_undoInput fClean hv.clean hone
      (fun c hc => ⟨(hv.coins _ c hc).height_pos, (hv.coins _ c hc).height_lt⟩)
      (fun hnone => hlast prevout (by simp) (unspent_spendInputs_none hrest hnone)) humid
    refine ⟨now', ?_, hunow⟩
    rw [List.map_cons, List.zip_cons_cons, undoInputs, List.foldr_cons]
    rw [undoInputs] at hmid'
    rw [hmid', hnow']

def Lost (final : CCoinsView) (nHeight : Int) (tx : CTransaction) : Prop :=
  tx.isCoinStake = true ∧ (CCoins.fromTx tx nHeight).vout ≠ [] ∧ final.unspent tx.hash = none

theorem beq_fromTx_iff {tx : CTransaction} {nHeight : Int} {outs : CCoins}
    (hnonneg : ∀ o ∈ tx.vout, 0 ≤ o.nValue) (hne : (CCoins.fromTx tx nHeight).vout ≠ []) :
    outs.beq (CCoins.fromTx tx nHeight) = true ↔ outs = CCoins.fromTx tx nHeight := by
  have hp : (CCoins.fromTx tx nHeight).isPruned = false := by
    rw [Bool.eq_false_iff]
    exact fun h => hne ((CCoins.isPruned_iff_vout_eq_nil (CCoins.clean_fromTx nHeight hnonneg)).mp h)
  simp [CCoins.beq, hp]

theorem undone_undoOutputs {mid : CCoinsView} {tx : CTransaction} {nHeight : Int} (fClean : Bool)
    (hnonneg : ∀ o ∈ tx.vout, 0 ≤ o.nValue) (hnone : mid.unspent tx.hash = none)
    (hu : Undone final (mid.release tx.hash (CCoins.fromTx tx nHeight)) now) :
    ∃ now' ok, undoOutputs tx nHeight (now, fClean) = (now', fClean && ok) ∧
      Undone final mid now' ∧ (ok = true ↔ ¬ Lost final nHeight tx) := by
  have hcf := CCoins.clean_fromTx nHeight hnonneg
  have hself := unspent_release_self mid tx.hash hcf
  refine ⟨_, _, rfl, ⟨clean_release hu.clean CCoins.clean_clear.2, fun txid => ?_⟩, ?_⟩
  · by_cases ht : txid = tx.hash
    · subst ht
      rw [unspent_release_self _ _ CCoins.clean_clear, hnone]
      rfl
    · rw [unspent_release_ne ht, hu.unspent, unspent_release_ne ht]
  · by_cases hempty : (CCoins.fromTx tx nHeight).vout = []
    · rw [if_pos hempty] at hself
      have hnow : now.unspent tx.hash = none := by
        rw [hu.unspent, hself]
        rfl
      have hp := CCoins.isPruned_clearUnspendable (clean_modified hu.clean tx.hash)
        (isPruned_modified hnow)
      have hpf := (CCoins.isPruned_iff_vout_eq_nil hcf).mpr hempty
      have hpv : ∀ v, ({ (now.modified tx.hash).clearUnspendable with nVersion := v }).isPruned =
          true := fun _ => hp
      refine iff_of_true ?_ (fun hl => hl.2.1 hempty)
      simp only [CCoins.beq, hpf, Bool.and_true]
      split
      · simp [hpv]
      · simp [hp]
    · rw [if_neg hempty] at hself
      have hnow : now.unspent tx.hash =
          some (restored final tx.hash (CCoins.fromTx tx nHeight)) := by
        rw [hu.unspent, hself]
        rfl
      have hcl : (restored final tx.hash (CCoins.fromTx tx nHeight)).clearUnspendable =
          restored final tx.hash (CCoins.fromTx tx nHeight) := by
        refine CCoins.clearUnspendable_of_spendable ?_ (fun n => ?_)
        · simp only [CCoins.Clean, vout_restored]
          exact hcf
        · rw [outAt_restored]
          exact CCoins.not_isUnspendable_fromTx hnonneg n
      rw [modified_of_unspent hnow, hcl, beq_fromTx_iff hnonneg hempty]
      have hstake : (CCoins.fromTx tx nHeight).fCoinStake = tx.isCoinStake := rfl
      cases hfin : final.unspent tx.hash with
      | some d =>
        rw [restored_of_some hfin]
        refine iff_of_true ?_ (fun hl => by simp [hl.2.2] at hfin)
        split <;> rfl
      | none =>
        rw [restored_of_none hfin]
        have hlost : Lost final nHeight tx ↔ tx.isCoinStake = true :=
          ⟨fun hl => hl.1, fun hs => ⟨hs, hempty, hfin⟩⟩
        rw [hlost, Bool.not_eq_true]
        by_cases hneg : (CCoins.fromTx tx nHeight).nVersion < 0
        · rw [if_pos hneg, ← hstake]
          generalize CCoins.fromTx tx nHeight = c
          cases c
          simp [CCoins.lose, eq_comm]
        · rw [if_neg hneg, CCoins.lose_eq_self_iff, hstake]
          exact ⟨fun h => h.1, fun h => ⟨h, by omega⟩⟩

theorem mem_prevouts_unspent {mid : CCoinsView} {tx : CTransaction} {vprevout : List CTxInUndo}
    (h : view.spendInputs tx.prevouts = some (mid, vprevout)) {o : COutPoint}
    (ho : o ∈ tx.prevouts) : view.unspent o.hash ≠ none := by
  have hn := (not_isNull_of_spendInputs h).2 o ho
  rw [unspent_of_outAt hn]
  simp

theorem undone_undoTx {tx : CTransaction} {nHeight : Int} {txundo : CTxUndo}
    {stored : Option CTxUndo} (fClean : Bool) (hv : view.Storable)
    (h : view.updateCoins tx nHeight = some (view', txundo))
    (hstored : tx.spendsCoins = true → stored = some txundo.readBack)
    (hnonneg : ∀ o ∈ tx.vout, 0 ≤ o.nValue) (hfresh : view.unspent tx.hash = none)
    (hlast : ∀ txid, view.unspent txid ≠ none → view'.unspent txid = none →
      final.unspent txid = none)
    (hu : Undone final view' now) :
    ∃ now' ok, undoTx tx nHeight stored (now, fClean) = .ok (now', fClean && ok) ∧
      Undone final view now' ∧ (ok = true ↔ ¬ Lost final nHeight tx) := by
  obtain ⟨mid, hmid, rfl⟩ := updateCoins_eq_some h
  simp only [markInputsSpent] at hmid
  split at hmid
  · rename_i hs
    obtain ⟨mid', ok, hout, humid, hok⟩ := undone_undoOutputs fClean hnonneg
      (unspent_spendInputs_none hmid hfresh) hu
    obtain ⟨now', hin, hunow⟩ := undone_undoInputs (fClean && ok) hv hmid (by
      intro o ho hnone
      have hne := mem_prevouts_unspent hmid ho
      have hhash : o.hash ≠ tx.hash := by
        intro h0
        exact hne (by rw [h0, hfresh])
      refine hlast o.hash hne ?_
      rw [unspent_release_ne hhash, hnone]) humid
    refine ⟨now', ok, ?_, hunow, hok⟩
    have hlen : txundo.readBack.vprevout.length = tx.vin.length := by
      simp [CTxUndo.readBack, length_spendInputs hmid, CTransaction.prevouts]
    simp only [undoTx, hs, if_true, hout, hstored hs, fromOption, failIf, hlen, ne_eq,
      not_true_eq_false, decide_false, Bool.false_eq_true, if_false, bind, Except.bind]
    exact congrArg Except.ok hin
  · rename_i hs
    simp only [Option.some.injEq, Prod.mk.injEq] at hmid
    rw [← hmid.1] at hu
    obtain ⟨now', ok, hout, hunow, hok⟩ := undone_undoOutputs fClean hnonneg hfresh hu
    exact ⟨now', ok, by simp only [undoTx, hs, hout]; rfl, hunow, hok⟩

theorem storable_fromTx {tx : CTransaction} {nHeight : Int} (htx : tx.Storable)
    (hh : 0 < nHeight ∧ nHeight < 2 ^ 30) (hnonneg : ∀ o ∈ tx.vout, 0 ≤ o.nValue) :
    (CCoins.fromTx tx nHeight).Storable := by
  refine ⟨hh.1, hh.2, htx.version_lt, fun n => ?_⟩
  by_cases hnull : ((CCoins.fromTx tx nHeight).outAt n).isNull = true
  · have hcan := (CCoins.clean_fromTx nHeight hnonneg).2
    by_cases hn : n < (CCoins.fromTx tx nHeight).vout.length
    · have heq : (CCoins.fromTx tx nHeight).outAt n = CTxOut.null := by
        rw [CCoins.outAt, List.getD_eq_getElem _ _ hn] at hnull ⊢
        exact hcan _ (List.getElem_mem hn) hnull
      simp [heq, CTxOut.null]
    · simp [CCoins.outAt_null_of_le (Nat.not_lt.mp hn), CTxOut.null]
  · rw [CCoins.outAt_fromTx_of_not_isNull (by simpa using hnull)]
    by_cases hn : n < tx.vout.length
    · rw [List.getD_eq_getElem _ _ hn]
      exact htx.script_lt _ (List.getElem_mem hn)
    · rw [List.getD_eq_default _ _ (by omega)]
      simp [CTxOut.null]

theorem storable_updateCoins {tx : CTransaction} {nHeight : Int} {txundo : CTxUndo}
    (hv : view.Storable) (htx : tx.Storable) (hh : 0 < nHeight ∧ nHeight < 2 ^ 30)
    (hnonneg : ∀ o ∈ tx.vout, 0 ≤ o.nValue)
    (h : view.updateCoins tx nHeight = some (view', txundo)) : view'.Storable := by
  obtain ⟨mid, hmid, rfl⟩ := updateCoins_eq_some h
  have hmidS : mid.Storable := by
    simp only [markInputsSpent] at hmid
    split at hmid
    · exact storable_spendInputs hv hmid
    · simp only [Option.some.injEq, Prod.mk.injEq] at hmid
      rw [← hmid.1]
      exact hv
  have hcf := CCoins.clean_fromTx nHeight hnonneg
  refine ⟨clean_release hmidS.clean hcf.2, fun txid c hc => ?_⟩
  by_cases ht : txid = tx.hash
  · subst ht
    rw [unspent_release_self _ _ hcf] at hc
    split at hc
    · simp at hc
    · simp only [Option.some.injEq] at hc
      rw [← hc]
      exact storable_fromTx htx hh hnonneg
  · rw [unspent_release_ne ht] at hc
    exact hmidS.coins txid c hc

theorem unspent_updateCoins_none {tx : CTransaction} {nHeight : Int} {txundo : CTxUndo}
    {txid : UInt256} (h : view.updateCoins tx nHeight = some (view', txundo))
    (hne : txid ≠ tx.hash) (hn : view.unspent txid = none) : view'.unspent txid = none := by
  obtain ⟨mid, hmid, rfl⟩ := updateCoins_eq_some h
  rw [unspent_release_ne hne]
  simp only [markInputsSpent] at hmid
  split at hmid
  · exact unspent_spendInputs_none hmid hn
  · simp only [Option.some.injEq, Prod.mk.injEq] at hmid
    rw [← hmid.1]
    exact hn

def updateAll (nHeight : Int) (view : CCoinsView) :
    List CTransaction → Option (CCoinsView × List CTxUndo)
  | [] => some (view, [])
  | tx :: vtx => do
    let (view, txundo) ← view.updateCoins tx nHeight
    let (view, vtxundo) ← updateAll nHeight view vtx
    some (view, txundo :: vtxundo)

theorem updateAll_cons_eq_some {nHeight : Int} {tx : CTransaction} {vtx : List CTransaction}
    {vtxundo : List CTxUndo} (h : updateAll nHeight view (tx :: vtx) = some (view', vtxundo)) :
    ∃ mid txundo rest, view.updateCoins tx nHeight = some (mid, txundo) ∧
      updateAll nHeight mid vtx = some (view', rest) ∧ vtxundo = txundo :: rest := by
  simp only [updateAll, Option.bind_eq_bind, Option.bind_eq_some_iff, Prod.exists,
    Option.some.injEq, Prod.mk.injEq] at h
  obtain ⟨mid, txundo, hone, view'', rest, hrest, rfl, rfl⟩ := h
  exact ⟨mid, txundo, rest, hone, hrest, rfl⟩

theorem unspent_updateAll_none {nHeight : Int} {vtx : List CTransaction} {vtxundo : List CTxUndo}
    {txid : UInt256} (h : updateAll nHeight view vtx = some (view', vtxundo))
    (hnot : txid ∉ vtx.map CTransaction.hash) (hn : view.unspent txid = none) :
    view'.unspent txid = none := by
  induction vtx generalizing view vtxundo with
  | nil =>
    simp only [updateAll, Option.some.injEq, Prod.mk.injEq] at h
    rw [← h.1]
    exact hn
  | cons tx vtx ih =>
    obtain ⟨mid, txundo, rest, hone, hrest, -⟩ := updateAll_cons_eq_some h
    simp only [List.map_cons, List.mem_cons, not_or] at hnot
    exact ih hrest hnot.2 (unspent_updateCoins_none hone hnot.1 hn)

def undoTxs (nHeight : Int) :
    List (CTransaction × Option CTxUndo) → CCoinsView × Bool → Except Failure (CCoinsView × Bool)
  | [], acc => .ok acc
  | (tx, txundo) :: rest, acc => do
    let acc ← undoTxs nHeight rest acc
    undoTx tx nHeight txundo acc

def undoPairs : Bool → List CTransaction → List CTxUndo → List (CTransaction × Option CTxUndo)
  | first, tx :: vtx, txundo :: vtxundo =>
    (tx, if first then none else some txundo.readBack) :: undoPairs false vtx vtxundo
  | _, _, _ => []

structure Connectable (nHeight : Int) (view : CCoinsView) (vtx : List CTransaction) : Prop where
  height : 0 < nHeight ∧ nHeight < 2 ^ 30
  coins : view.Storable
  txs : ∀ tx ∈ vtx, tx.Storable
  nonneg : ∀ tx ∈ vtx, ∀ o ∈ tx.vout, 0 ≤ o.nValue
  distinct : (vtx.map CTransaction.hash).Nodup
  fresh : ∀ tx ∈ vtx, view.unspent tx.hash = none

theorem Connectable.tail {nHeight : Int} {tx : CTransaction} {vtx : List CTransaction}
    {txundo : CTxUndo} (hc : Connectable nHeight view (tx :: vtx))
    (h : view.updateCoins tx nHeight = some (view', txundo)) : Connectable nHeight view' vtx := by
  have hd := List.nodup_cons.mp hc.distinct
  exact
    { height := hc.height
      coins := storable_updateCoins hc.coins (hc.txs tx (by simp)) hc.height (hc.nonneg tx (by simp)) h
      txs := fun t ht => hc.txs t (by simp [ht])
      nonneg := fun t ht => hc.nonneg t (by simp [ht])
      distinct := hd.2
      fresh := fun t ht => unspent_updateCoins_none h
        (fun h0 => hd.1 (h0 ▸ List.mem_map_of_mem ht)) (hc.fresh t (by simp [ht])) }

theorem undone_undoTxs {nHeight : Int} {vtx : List CTransaction} {vtxundo : List CTxUndo}
    (first : Bool) {start : CCoinsView} (hc : Connectable nHeight view vtx)
    (h : updateAll nHeight view vtx = some (final, vtxundo))
    (hfirst : first = true → ∀ tx ∈ vtx.head?, tx.spendsCoins = false)
    (hstart : Undone final final start) :
    ∃ now ok, undoTxs nHeight (undoPairs first vtx vtxundo) (start, true) = .ok (now, ok) ∧
      Undone final view now ∧ (ok = true ↔ ∀ tx ∈ vtx, ¬ Lost final nHeight tx) := by
  -- the last transaction is undone first, so the induction follows the connecting order
  induction vtx generalizing view vtxundo first with
  | nil =>
    simp only [updateAll, Option.some.injEq, Prod.mk.injEq] at h
    obtain ⟨rfl, rfl⟩ := h
    exact ⟨start, true, rfl, hstart, by simp⟩
  | cons tx vtx ih =>
    obtain ⟨mid, txundo, rest, hone, hrest, rfl⟩ := updateAll_cons_eq_some h
    have hct := hc.tail hone
    obtain ⟨mid', ok, hmid', humid, hok⟩ := ih false hct hrest (by simp)
    have hstored : tx.spendsCoins = true →
        (if first then none else some txundo.readBack) = some txundo.readBack := by
      intro hs
      cases first with
      | false => rfl
      | true => simp [hfirst rfl tx (by simp)] at hs
    obtain ⟨now, ok', hnow, hunow, hok'⟩ := undone_undoTx ok hc.coins hone hstored
      (hc.nonneg tx (by simp)) (hc.fresh tx (by simp))
      (by
        intro txid hsome hnone
        refine unspent_updateAll_none hrest ?_ hnone
        intro hmem
        obtain ⟨t, ht, rfl⟩ := List.mem_map.mp hmem
        exact hsome (hc.fresh t (by simp [ht]))) humid
    refine ⟨now, ok && ok', ?_, hunow, ?_⟩
    · simp only [undoPairs, undoTxs, hmid', bind, Except.bind]
      exact hnow
    · simp only [Bool.and_eq_true, hok, hok', List.mem_cons, forall_eq_or_imp]
      exact and_comm

end CCoinsView

end AnkerNode
