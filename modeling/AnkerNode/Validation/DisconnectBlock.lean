import AnkerNode.Validation.ConnectSpec

namespace AnkerNode

open Checks

structure DisconnectContext where
  lib : ZerocoinLib
  ops : PubKeyOps
  hasher : UInt256 → List UInt8 → UInt256
  eraseAccumulatorValues : Bool

structure DisconnectState where
  view : CCoinsView
  zerocoinDB : ZerocoinDB
  fClean : Bool

namespace CCoins

def resize (vout : List CTxOut) (size : Nat) : List CTxOut :=
  vout ++ List.replicate (size - vout.length) CTxOut.null

def restoreOutput (c : CCoins) (n : Nat) (txout : CTxOut) : CCoins :=
  { c with vout := (resize c.vout (n + 1)).set n txout }

end CCoins

namespace CCoinsView

def undoInput (out : COutPoint) (undo : CTxInUndo) (acc : CCoinsView × Bool) :
    CCoinsView × Bool :=
  let coins := acc.1.modified out.hash
  let fClean := acc.2 && (if undo.nHeight ≠ 0 then coins.isPruned else !coins.isPruned)
  let coins : CCoins :=
    if undo.nHeight ≠ 0 then
      { CCoins.clear with
        fCoinBase := undo.fCoinBase
        nHeight := undo.nHeight
        nVersion := undo.nVersion }
    else coins
  (acc.1.release out.hash (coins.restoreOutput out.n.toNat undo.txout),
    fClean && !coins.isAvailable out.n.toNat)

def undoInputs (inputs : List (COutPoint × CTxInUndo)) (acc : CCoinsView × Bool) :
    CCoinsView × Bool :=
  inputs.foldr (fun p acc => undoInput p.1 p.2 acc) acc

def undoOutputs (tx : CTransaction) (nHeight : Int) (acc : CCoinsView × Bool) :
    CCoinsView × Bool :=
  let outs := (acc.1.modified tx.hash).clearUnspendable
  let outsBlock := CCoins.fromTx tx nHeight
  let outs := if outsBlock.nVersion < 0 then { outs with nVersion := outsBlock.nVersion } else outs
  (acc.1.release tx.hash CCoins.clear, acc.2 && outs.beq outsBlock)

def undoTx (tx : CTransaction) (nHeight : Int) (txundo : Option CTxUndo)
    (acc : CCoinsView × Bool) : Except Failure (CCoinsView × Bool) :=
  let acc := undoOutputs tx nHeight acc
  if tx.spendsCoins then do
    let txundo ← fromOption Failure.assertion txundo
    failIf (decide (txundo.vprevout.length ≠ tx.vin.length)) (Failure.rejected {})
    .ok (undoInputs (tx.prevouts.zip txundo.vprevout) acc)
  else .ok acc

end CCoinsView

namespace DisconnectContext

variable (ctx : DisconnectContext)

def eraseCoinSpends (tx : CTransaction) (db : ZerocoinDB) : ZerocoinDB :=
  if tx.isZerocoinSpend then
    { db with
      spends := Table.writeAll (fun spend => ctx.lib.hashSerial spend.coinSerialNumber)
        (fun _ => none) db.spends (zerocoinSpends ctx.lib tx) }
  else db

def eraseCoinMint (mints : UInt256 → Option UInt256) (txout : CTxOut) :
    Except Failure (UInt256 → Option UInt256) := do
  let pubCoin ← fromOption (Failure.doS 100) (txOutToPublicCoin ctx.lib txout)
  .ok (Function.update mints (ctx.lib.hashPubCoin pubCoin.value) none)

def eraseCoinMints (tx : CTransaction) (db : ZerocoinDB) : Except Failure ZerocoinDB :=
  if tx.isZerocoinMint then do
    let mints ← (tx.vout.filter CTxOut.isZerocoinMint).foldlM ctx.eraseCoinMint db.mints
    .ok { db with mints := mints }
  else .ok db

def undoZerocoins (tx : CTransaction) (db : ZerocoinDB) : Except Failure ZerocoinDB :=
  if tx.containsZerocoins then ctx.eraseCoinMints tx (ctx.eraseCoinSpends tx db) else .ok db

def disconnectTx (nHeight : Int) (tx : CTransaction) (txundo : Option CTxUndo)
    (st : DisconnectState) : Except Failure DisconnectState := do
  let db ← ctx.undoZerocoins tx st.zerocoinDB
  let acc ← CCoinsView.undoTx tx nHeight txundo (st.view, st.fClean)
  .ok ⟨acc.1, db, acc.2⟩

def disconnectTxs (nHeight : Int) :
    List (CTransaction × Option CTxUndo) → DisconnectState → Except Failure DisconnectState
  | [], st => .ok st
  | (tx, txundo) :: rest, st => do
    let st ← disconnectTxs nHeight rest st
    ctx.disconnectTx nHeight tx txundo st

def disconnectBlock (block : CBlock) (pindex : ConnectIndex) (pprev : PrevIndex)
    (undoFile : Option (List UInt8)) (view : CCoinsView) (db : ZerocoinDB) :
    Except Failure DisconnectState := do
  failIf (pindex.hash != view.hashBlock) Failure.assertion
  let file ← fromOption (Failure.rejected {}) undoFile
  let read ← fromOption (Failure.rejected {})
    ((CBlockUndo.readFromDisk ctx.ops ctx.hasher pprev.hash).run file)
  failIf (decide (read.1.vtxundo.length + 1 ≠ block.vtx.length)) (Failure.rejected {})
  let st ← ctx.disconnectTxs pindex.nHeight
    (block.vtx.zip (none :: read.1.vtxundo.map some)) ⟨view, db, true⟩
  failIf (!ctx.eraseAccumulatorValues) (Failure.rejected {})
  .ok { st with view := st.view.setBestBlock pprev.hash }

end DisconnectContext

open TrimmedList

namespace CCoins

theorem length_resize (vout : List CTxOut) (size : Nat) :
    (resize vout size).length = max vout.length size := by
  simp only [resize, List.length_append, List.length_replicate]
  omega

theorem getD_resize (vout : List CTxOut) (size m : Nat) :
    (resize vout size).getD m CTxOut.null = vout.getD m CTxOut.null := by
  by_cases hm : m < vout.length
  · exact List.getD_append _ _ _ _ hm
  · rw [List.getD_eq_default vout _ (by omega), resize, List.getD_append_right _ _ _ _ (by omega)]
    rw [List.getD_eq_getElem?_getD]
    exact List.getElem?_getD_replicate_default_eq _ _ _

theorem canonicalNulls_resize {vout : List CTxOut} {size : Nat} (h : CanonicalNulls vout) :
    CanonicalNulls (resize vout size) := by
  intro o ho hnull
  rcases List.mem_append.mp ho with ho | ho
  · exact h o ho hnull
  · exact List.eq_of_mem_replicate ho

theorem canonicalNulls_restoreOutput {c : CCoins} {n : Nat} {txout : CTxOut}
    (h : CanonicalNulls c.vout) (hout : txout.isNull = false) :
    CanonicalNulls (c.restoreOutput n txout).vout :=
  canonical_set (canonicalNulls_resize h) (by simp [hout])

theorem outAt_restoreOutput (c : CCoins) (n m : Nat) (txout : CTxOut) :
    (c.restoreOutput n txout).outAt m = if m = n then txout else c.outAt m := by
  have hlen : n < (resize c.vout (n + 1)).length := by
    rw [length_resize]
    omega
  simp only [restoreOutput, outAt, List.getD_eq_getElem?_getD, List.getElem?_set]
  by_cases hm : m = n
  · simp [hm, hlen]
  · have hres := getD_resize c.vout (n + 1) m
    simp only [List.getD_eq_getElem?_getD] at hres
    simp [hm, Ne.symm hm, hres]

def lose (c : CCoins) : CCoins :=
  { c with fCoinStake := false, nVersion := storedVersion c.nVersion }

@[simp] theorem outAt_lose (c : CCoins) (n : Nat) : c.lose.outAt n = c.outAt n := rfl

theorem lose_eq_self_iff {c : CCoins} : c.lose = c ↔ c.fCoinStake = false ∧ 0 ≤ c.nVersion := by
  rw [← storedVersion_eq_self_iff]
  cases c
  simp [lose, eq_comm]

theorem not_isUnspendable_dropUnspendable (o : CTxOut) :
    (dropUnspendable o).scriptPubKey.isUnspendable = false := by
  simp only [dropUnspendable]
  split
  · rfl
  · simp_all

theorem clean_fromTx {tx : CTransaction} (nHeight : Int) (h : ∀ o ∈ tx.vout, 0 ≤ o.nValue) :
    (fromTx tx nHeight).Clean :=
  clean_clearUnspendable (canonicalNulls_of_nonneg h)

theorem not_isUnspendable_fromTx {tx : CTransaction} {nHeight : Int}
    (h : ∀ o ∈ tx.vout, 0 ≤ o.nValue) (n : Nat) :
    ((fromTx tx nHeight).outAt n).scriptPubKey.isUnspendable = false := by
  rw [fromTx, outAt_clearUnspendable (canonicalNulls_of_nonneg h)]
  exact not_isUnspendable_dropUnspendable _

theorem isPruned_clearUnspendable {c : CCoins} (h : Clean c) (hp : c.isPruned = true) :
    c.clearUnspendable.isPruned = true := by
  have hv := (isPruned_iff_vout_eq_nil h).mp hp
  simp [clearUnspendable, cleanup, isPruned, hv]

end CCoins

namespace CCoinsView

variable {final view view' now : CCoinsView}

def restored (final : CCoinsView) (txid : UInt256) (c : CCoins) : CCoins :=
  if (final.unspent txid).isNone then c.lose else c

theorem restored_of_none {txid : UInt256} {c : CCoins} (h : final.unspent txid = none) :
    restored final txid c = c.lose := by
  simp [restored, h]

theorem restored_of_some {txid : UInt256} {c d : CCoins} (h : final.unspent txid = some d) :
    restored final txid c = c := by
  simp [restored, h]

@[simp] theorem outAt_restored (final : CCoinsView) (txid : UInt256) (c : CCoins) (n : Nat) :
    (restored final txid c).outAt n = c.outAt n := by
  simp only [restored]
  split <;> rfl

@[simp] theorem vout_restored (final : CCoinsView) (txid : UInt256) (c : CCoins) :
    (restored final txid c).vout = c.vout := by
  simp only [restored]
  split <;> rfl

structure Undone (final view now : CCoinsView) : Prop where
  clean : now.Clean
  unspent : ∀ txid, now.unspent txid = (view.unspent txid).map (restored final txid)

theorem undone_refl (h : final.Clean) : Undone final final final := by
  refine ⟨h, fun txid => ?_⟩
  cases hf : final.unspent txid with
  | none => rfl
  | some c => simp [restored_of_some hf]

theorem clean_of_unspent {txid : UInt256} {c : CCoins} (hv : view.Clean)
    (h : view.unspent txid = some c) : c.Clean :=
  hv.coins txid c (unspent_eq_some.mp h).1

theorem undone_release {txid : UInt256} {c d : CCoins} (hu : Undone final view' now)
    (hv : ∀ t, t ≠ txid → view'.unspent t = view.unspent t) (hview : view.unspent txid = some c)
    (hcan : CCoins.CanonicalNulls d.vout) (hne : c.vout ≠ [])
    (hd : d.cleanup = restored final txid c) : Undone final view (now.release txid d) := by
  refine ⟨clean_release hu.clean hcan, fun t => ?_⟩
  by_cases ht : t = txid
  · subst ht
    have hcd : d.cleanup.Clean := CCoins.clean_cleanup hcan
    have hrel : now.release t d = now.release t d.cleanup := by
      simp only [release, CCoins.cleanup_of_clean hcd]
    rw [hrel, unspent_release_self now t hcd, hd, hview, vout_restored, if_neg hne]
    rfl
  · rw [unspent_release_ne ht, hu.unspent t, hv t ht]

theorem undone_undoInput_last {prevout : COutPoint} {undo : CTxInUndo} {c : CCoins} {fClean : Bool}
    (hclean : c.Clean) (huns : view.unspent prevout.hash = some c)
    (hheight : 0 < c.nHeight ∧ c.nHeight < 2 ^ 30)
    (hother : ∀ t, t ≠ prevout.hash → view'.unspent t = view.unspent t)
    (hempty : view'.unspent prevout.hash = none) (hfin : final.unspent prevout.hash = none)
    (hne : c.vout ≠ []) (htxout : undo.txout = c.outAt prevout.n.toNat)
    (hnull : undo.txout.isNull = false)
    (honly : ∀ m, m ≠ prevout.n.toNat → c.outAt m = CTxOut.null)
    (hnHeight : undo.nHeight = (c.nHeight % 2 ^ 32).toNat) (hbase : undo.fCoinBase = c.fCoinBase)
    (hversion : undo.nVersion = c.nVersion) (hu : Undone final view' now) :
    ∃ now', undoInput prevout undo.readBack (now, fClean) = (now', fClean) ∧
      Undone final view now' := by
  have hnow : now.unspent prevout.hash = none := by
    rw [hu.unspent, hempty]
    rfl
  have hpruned := isPruned_modified hnow
  have hcoerce : undo.nHeight = c.nHeight.toNat := by
    rw [hnHeight, Int.emod_eq_of_lt (by omega) (by omega)]
  have hpos : 0 < undo.nHeight := by omega
  have hne0 : undo.readBack.nHeight ≠ 0 := Nat.pos_iff_ne_zero.mp hpos
  have hcan := CCoins.canonicalNulls_restoreOutput (n := prevout.n.toNat)
    (c := { CCoins.clear with
      fCoinBase := undo.readBack.fCoinBase
      nHeight := undo.readBack.nHeight
      nVersion := undo.readBack.nVersion }) CCoins.clean_clear.2 hnull
  refine ⟨_, ?_, undone_release hu hother huns hcan hne ?_⟩
  · simp only [undoInput, hne0, ne_eq, not_false_eq_true, if_true, hpruned, Bool.and_true]
    simp [CCoins.isAvailable, CCoins.clear, CTxInUndo.readBack]
  · rw [restored_of_none hfin]
    refine CCoins.ext_of_outAt (CCoins.clean_cleanup hcan) ⟨hclean.1, hclean.2⟩ hbase rfl ?_ ?_ ?_
    · change (undo.nHeight : Int) = c.nHeight
      omega
    · change undo.readBack.nVersion = storedVersion c.nVersion
      simp [CTxInUndo.readBack, hpos, hversion]
    · intro m
      rw [CCoins.outAt_cleanup hcan, CCoins.outAt_restoreOutput, CCoins.outAt_lose]
      by_cases hm : m = prevout.n.toNat
      · rw [if_pos hm, hm]
        exact htxout
      · rw [if_neg hm, honly m hm]
        rfl

theorem undone_undoInput_more {prevout : COutPoint} {undo : CTxInUndo} {c c' : CCoins}
    {fClean : Bool} (hclean : c.Clean) (hclean' : c'.Clean)
    (huns : view.unspent prevout.hash = some c) (huns' : view'.unspent prevout.hash = some c')
    (hother : ∀ t, t ≠ prevout.hash → view'.unspent t = view.unspent t)
    (hne : c.vout ≠ []) (htxout : undo.txout = c.outAt prevout.n.toNat)
    (hnull : undo.txout.isNull = false) (hnHeight : undo.nHeight = 0)
    (hmeta : { c' with vout := c.vout } = c)
    (hout : ∀ m, c'.outAt m = if m = prevout.n.toNat then CTxOut.null else c.outAt m)
    (hu : Undone final view' now) :
    ∃ now', undoInput prevout undo.readBack (now, fClean) = (now', fClean) ∧
      Undone final view now' := by
  have hnow : now.unspent prevout.hash = some (restored final prevout.hash c') := by
    rw [hu.unspent, huns']
    rfl
  have hmod := modified_of_unspent hnow
  have hpr := (unspent_eq_some.mp hnow).2
  have hav : (restored final prevout.hash c').isAvailable prevout.n.toNat = false := by
    rw [Bool.eq_false_iff]
    intro hav
    have h1 := (CCoins.isAvailable_iff.mp hav).1
    rw [outAt_restored, hout, if_pos rfl] at h1
    simp at h1
  have hcanC : CCoins.CanonicalNulls (restored final prevout.hash c').vout := by
    rw [vout_restored]
    exact hclean'.2
  have hcan := CCoins.canonicalNulls_restoreOutput hcanC hnull (n := prevout.n.toNat)
  have hzero : undo.readBack.nHeight = 0 := hnHeight
  refine ⟨_, ?_, undone_release hu hother huns hcan hne ?_⟩
  · simp only [undoInput, hmod, hzero, ne_eq, not_true_eq_false, if_false, hpr, Bool.not_false,
      Bool.and_true, hav]
    rfl
  · have hmetaR : { restored final prevout.hash c' with vout := c.vout } =
        restored final prevout.hash c := by
      rw [← hmeta]
      simp only [restored]
      split <;> rfl
    have hcleanR : (restored final prevout.hash c).Clean := by
      simp only [CCoins.Clean, vout_restored]
      exact hclean
    have hfields := CCoins.mk.inj hmetaR
    refine CCoins.ext_of_outAt (CCoins.clean_cleanup hcan) hcleanR hfields.1 hfields.2.1
      hfields.2.2.2.1 hfields.2.2.2.2 ?_
    intro m
    rw [CCoins.outAt_cleanup hcan, CCoins.outAt_restoreOutput, outAt_restored, outAt_restored, hout]
    by_cases hm : m = prevout.n.toNat
    · rw [if_pos hm, hm]
      exact htxout
    · rw [if_neg hm, if_neg hm]

theorem undone_undoInput {prevout : COutPoint} {undo : CTxInUndo} (fClean : Bool)
    (hview : view.Clean) (hspend : view.spendInput prevout = some (view', undo))
    (hheight : ∀ c, view.unspent prevout.hash = some c → 0 < c.nHeight ∧ c.nHeight < 2 ^ 30)
    (hlast : view'.unspent prevout.hash = none → final.unspent prevout.hash = none)
    (hu : Undone final view' now) :
    ∃ now', undoInput prevout undo.readBack (now, fClean) = (now', fClean) ∧
      Undone final view now' := by
  obtain ⟨c', hc', rfl⟩ := spendInput_eq_some hspend
  have hcm := clean_modified hview prevout.hash
  obtain ⟨hnn, htxout, hclean', hcb, hcs, hh, hver, hout, hundo⟩ := CCoins.spend_eq_some hcm hc'
  have huns : view.unspent prevout.hash = some (view.modified prevout.hash) :=
    unspent_of_outAt hnn
  generalize view.modified prevout.hash = c at *
  have hne : c.vout ≠ [] := List.ne_nil_of_length_pos
    (Nat.zero_lt_of_lt (CCoins.lt_length_of_outAt hnn))
  have hother : ∀ t, t ≠ prevout.hash →
      (view.release prevout.hash c').unspent t = view.unspent t := fun t ht => unspent_release_ne ht
  have hself := unspent_release_self view prevout.hash hclean'
  have hnull : undo.txout.isNull = false := by
    rw [htxout]
    exact hnn
  by_cases hempty : c'.vout = []
  · rw [if_pos hempty] at hself hundo
    obtain ⟨huh, hucb, -, huv⟩ := hundo
    have honly : ∀ m, m ≠ prevout.n.toNat → c.outAt m = CTxOut.null := by
      intro m hm
      have h1 := hout m
      rw [if_neg hm, CCoins.outAt_of_vout_eq_nil hempty] at h1
      exact h1.symm
    exact undone_undoInput_last hcm huns (hheight c huns) hother hself (hlast hself) hne htxout hnull
      honly huh hucb huv hu
  · rw [if_neg hempty] at hself hundo
    have hmeta : { c' with vout := c.vout } = c := by
      cases c
      cases c'
      simp_all
    exact undone_undoInput_more hcm hclean' huns hself hother hne htxout hnull (by rw [hundo]) hmeta
      hout hu

end CCoinsView

end AnkerNode
