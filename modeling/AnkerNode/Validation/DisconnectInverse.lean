import AnkerNode.Zerocoin.Tables

namespace AnkerNode

open Checks

namespace CCoinsView

theorem undone_setBestBlock {final : CCoinsView} (h : final.Clean) (hashBlock : UInt256) :
    Undone final final (final.setBestBlock hashBlock) :=
  ⟨⟨h.coins⟩, (undone_refl h).unspent⟩

theorem zip_eq_undoPairs {vtx : List CTransaction} {vtxundo : List CTxUndo}
    (h : vtxundo.length = vtx.length) :
    vtx.zip ((vtxundo.map CTxUndo.readBack).map some) = undoPairs false vtx vtxundo := by
  induction vtx generalizing vtxundo with
  | nil => simp [undoPairs]
  | cons tx vtx ih =>
    cases vtxundo with
    | nil => simp at h
    | cons u us =>
      have hlen : us.length = vtx.length := by simpa using h
      have hrest := ih hlen
      simp only [List.map_cons, List.zip_cons_cons, undoPairs]
      rw [hrest]
      rfl

theorem undone_iff_same {final view now : CCoinsView} (hu : Undone final view now) :
    (∀ txid, now.unspent txid = view.unspent txid) ↔
      ∀ txid c, view.unspent txid = some c → final.unspent txid = none →
        c.fCoinStake = false ∧ 0 ≤ c.nVersion := by
  constructor
  · intro hsame txid c hc hnone
    have h1 := hsame txid
    rw [hu.unspent, hc, Option.map_some, restored_of_none hnone, Option.some.injEq] at h1
    exact CCoins.lose_eq_self_iff.mp h1
  · intro hcond txid
    rw [hu.unspent]
    cases hc : view.unspent txid with
    | none => rfl
    | some c =>
      cases hf : final.unspent txid with
      | some d => rw [Option.map_some, restored_of_some hf]
      | none =>
        rw [Option.map_some, restored_of_none hf, CCoins.lose_eq_self_iff.mpr (hcond txid c hc hf)]

end CCoinsView

namespace DisconnectContext

theorem spendsCoins_of_isCoinBase {tx : CTransaction} (h : tx.isCoinBase = true) :
    tx.spendsCoins = false := by
  simp [CTransaction.spendsCoins, h]

theorem disconnectBlock_eq_ok {dis : DisconnectContext} {block : CBlock} {pindex : ConnectIndex}
    {view now : CCoinsView} {db db' : ZerocoinDB} {undo : CBlockUndo} {ok : Bool}
    (pprev : PrevIndex) (rest : List UInt8) (herase : dis.eraseAccumulatorValues = true)
    (hundo : undo.Storable) (hlen : undo.vtxundo.length + 1 = block.vtx.length)
    (hview : CCoinsView.undoTxs pindex.nHeight
      (block.vtx.zip (none :: (undo.vtxundo.map CTxUndo.readBack).map some))
      (view.setBestBlock pindex.hash, true) = .ok (now, ok))
    (hdb : dis.undoZerocoinTxs block.vtx db = .ok db') :
    dis.disconnectBlock block pindex pprev
      (some (CBlockUndo.writeToDisk dis.ops dis.hasher undo pprev.hash ++ rest))
      (view.setBestBlock pindex.hash) db = .ok ⟨now.setBestBlock pprev.hash, db', ok⟩ := by
  have hread := CBlockUndo.parses_readFromDisk dis.ops dis.hasher pprev.hash hundo rest
  have hlen' : undo.readBack.vtxundo.length + 1 = block.vtx.length := by
    simpa [CBlockUndo.readBack] using hlen
  have htxs : dis.disconnectTxs pindex.nHeight
      (block.vtx.zip (none :: undo.readBack.vtxundo.map some))
      ⟨view.setBestBlock pindex.hash, db, true⟩ = .ok ⟨now, db', ok⟩ := by
    refine disconnectTxs_eq_ok_iff.mpr ⟨hview, ?_⟩
    rw [List.map_fst_zip (by simp; omega)]
    exact hdb
  simp only [disconnectBlock, bind_eq_ok, failIf_eq_ok, fromOption_eq_ok, exists_const, herase,
    Except.ok.injEq]
  exact ⟨by simp [CCoinsView.setBestBlock], _, rfl, _, hread, by simp [hlen'], _, htxs, rfl, rfl⟩

-- The undo data on disk has no entry for the coinbase.
theorem zip_tail_eq_undoPairs {cb : CTransaction} {vtx : List CTransaction}
    {vtxundo : List CTxUndo} (hlen : vtxundo.length = (cb :: vtx).length) :
    (cb :: vtx).zip (none :: (vtxundo.tail.map CTxUndo.readBack).map some) =
      CCoinsView.undoPairs true (cb :: vtx) vtxundo := by
  cases vtxundo with
  | nil => simp at hlen
  | cons u us =>
    rw [List.tail_cons, List.zip_cons_cons, CCoinsView.undoPairs, if_pos rfl,
      CCoinsView.zip_eq_undoPairs (by simpa using hlen)]

theorem disconnectBlock_restores_iff (conn : ConnectContext) (dis : DisconnectContext)
    (block : CBlock) (pindex : ConnectIndex) (pprev : PrevIndex) (view : CCoinsView)
    (st : ConnectState) (db : ZerocoinDB) (rest : List UInt8) (hlib : dis.lib = conn.lib)
    (herase : dis.eraseAccumulatorValues = true)
    (hcoinbase : ∃ cb vtx, block.vtx = cb :: vtx ∧ cb.isCoinBase = true)
    (hsize : block.vtx.length ≤ MAX_SIZE) (htxs : ∀ tx ∈ block.vtx, tx.Storable)
    (hheight : 0 < pindex.nHeight ∧ pindex.nHeight < 2 ^ 30) (hview : view.Storable)
    (hids : (block.vtx.map CTransaction.hash).Nodup)
    (hbip30 : ConnectContext.overwrites view block = false)
    (hloop : conn.connectTxs block pindex (pprev.nHeight + 1) true block.vtx { view := view } =
      .ok st) :
    (∃ d, dis.disconnectBlock block pindex pprev
        (some (CBlockUndo.writeToDisk dis.ops dis.hasher ⟨st.vtxundo⟩ pprev.hash ++ rest))
        (st.view.setBestBlock pindex.hash) db = .ok d ∧ d.fClean = true ∧
      (∀ txid, d.view.unspent txid = view.unspent txid) ∧ d.view.hashBlock = pprev.hash) ↔
    (∀ txid c, view.unspent txid = some c → Emptied block.vtx txid c →
      c.fCoinStake = false ∧ 0 ≤ c.nVersion) ∧
    ∀ tx ∈ block.vtx, tx.isCoinStake = true → (CCoins.fromTx tx pindex.nHeight).vout ≠ [] →
      ¬ Emptied block.vtx tx.hash (CCoins.fromTx tx pindex.nHeight) := by
  obtain ⟨cb, vtx, hvtx, hcb⟩ := hcoinbase
  obtain ⟨hnonneg, vtxundo, hall, hlen, hstor, hrec⟩ :=
    ConnectContext.updateAll_of_connectTxs hheight hview htxs hloop
  simp only [if_true, List.nil_append] at hrec
  have hc : CCoinsView.Connectable pindex.nHeight view block.vtx :=
    ⟨hheight, hview, htxs, hnonneg, hids, ConnectContext.fresh_of_overwrites hbip30⟩
  have hfinal := CCoinsView.clean_updateAll hc hall
  obtain ⟨now, ok, hundo, hu, hok⟩ := CCoinsView.undone_undoTxs true hc hall
    (by
      intro _ tx htx
      rw [hvtx, List.head?_cons, Option.mem_some] at htx
      rw [← htx]
      exact spendsCoins_of_isCoinBase hcb)
    (CCoinsView.undone_setBestBlock hfinal pindex.hash)
  have hpairs : block.vtx.zip (none :: (st.vtxundo.map CTxUndo.readBack).map some) =
      CCoinsView.undoPairs true block.vtx vtxundo := by
    rw [hrec, hvtx]
    exact zip_tail_eq_undoPairs (hvtx ▸ hlen)
  have hlenUndo : st.vtxundo.length + 1 = block.vtx.length := by
    rw [hrec, List.length_tail, hlen, hvtx]
    simp
  have hundoS : CBlockUndo.Storable ⟨st.vtxundo⟩ := by
    refine ⟨by change st.vtxundo.length ≤ MAX_SIZE; omega, fun u hmem => hstor u ?_⟩
    change u ∈ st.vtxundo at hmem
    rw [hrec] at hmem
    exact List.mem_of_mem_tail hmem
  have hconv : ∀ tx ∈ block.vtx, MintsConvert dis.lib tx := by
    intro tx htx out ho
    obtain ⟨coin, hcoin, -⟩ := (ConnectContext.connectTxs_checked hloop tx htx).2 out ho
    exact ⟨coin, by rw [hlib, hcoin]⟩
  obtain ⟨db', hdb, -, -⟩ := undoZerocoinTxs_eq_ok db hconv
  have hresult := disconnectBlock_eq_ok pprev rest herase hundoS hlenUndo
    (by rw [hpairs]; exact hundo) hdb
  have hsame : (∀ txid, (now.setBestBlock pprev.hash).unspent txid = view.unspent txid) ↔
      ∀ txid c, view.unspent txid = some c → Emptied block.vtx txid c →
        c.fCoinStake = false ∧ 0 ≤ c.nVersion := by
    rw [show (∀ txid, (now.setBestBlock pprev.hash).unspent txid = view.unspent txid) ↔
      ∀ txid, now.unspent txid = view.unspent txid from Iff.rfl, CCoinsView.undone_iff_same hu]
    refine forall_congr' (fun txid => forall_congr' (fun c => imp_congr_right (fun huns => ?_)))
    rw [CCoinsView.unspent_updateAll_none_iff hc hall huns]
  have hclean : ok = true ↔ ∀ tx ∈ block.vtx, tx.isCoinStake = true →
      (CCoins.fromTx tx pindex.nHeight).vout ≠ [] →
      ¬ Emptied block.vtx tx.hash (CCoins.fromTx tx pindex.nHeight) := by
    rw [hok]
    refine forall_congr' (fun tx => imp_congr_right (fun htx => ?_))
    rw [CCoinsView.Lost, CCoinsView.unspent_created_none_iff hc hall htx]
    tauto
  rw [← hsame, ← hclean]
  constructor
  · rintro ⟨d, hd, hcl, hs, -⟩
    rw [hresult, Except.ok.injEq] at hd
    subst hd
    exact ⟨hs, hcl⟩
  · rintro ⟨hs, hcl⟩
    exact ⟨_, hresult, hcl, hs, rfl⟩

def spendIndex : ConnectIndex where
  hash := 8
  nHeight := 600
  pprev := some ⟨7, 599, 0⟩

def oneCoin (fCoinStake : Bool) : CCoins where
  fCoinStake := fCoinStake
  vout := [⟨2 * COIN, [0x51]⟩]
  nHeight := 100
  nVersion := 1

def oneCoinView (fCoinStake : Bool) : CCoinsView where
  coins := fun txid => if txid = 5 then some (oneCoin fCoinStake) else none
  hashBlock := 7

def spendBlock : CBlock where
  hash := 8
  hashPrevBlock := 7
  vtx :=
    [{ hash := 20, vin := [⟨COutPoint.null, [0x02, 0x58], 0xffffffff⟩], vout := [⟨0, []⟩] },
     { hash := 21, vin := [⟨⟨5, 0⟩, [], 0xffffffff⟩], vout := [⟨COIN, [0x51]⟩] }]

theorem oneCoinView_unspent {fCoinStake : Bool} {txid : UInt256} {c : CCoins}
    (h : (oneCoinView fCoinStake).unspent txid = some c) : txid = 5 ∧ c = oneCoin fCoinStake := by
  obtain ⟨hc, -⟩ := CCoinsView.unspent_eq_some.mp h
  simp only [oneCoinView] at hc
  split at hc
  · rename_i ht
    simp only [Option.some.injEq] at hc
    exact ⟨ht, hc.symm⟩
  · simp at hc

theorem storable_oneCoin (fCoinStake : Bool) : (oneCoin fCoinStake).Storable := by
  refine ⟨by simp [oneCoin], by simp [oneCoin], by simp [oneCoin], fun n => ?_⟩
  rcases n with _ | n <;> simp [oneCoin, CCoins.outAt, CTxOut.null]

theorem storable_oneCoinView (fCoinStake : Bool) : (oneCoinView fCoinStake).Storable := by
  refine ⟨⟨fun txid c hc => ?_⟩, fun txid c hc => ?_⟩
  · simp only [oneCoinView] at hc
    split at hc
    · simp only [Option.some.injEq] at hc
      subst hc
      exact ⟨rfl, by
        simp [CCoins.CanonicalNulls, TrimmedList.Canonical, oneCoin, CTxOut.isNull, COIN]⟩
    · simp at hc
  · rw [(oneCoinView_unspent hc).2]
    exact storable_oneCoin fCoinStake

theorem storable_spendBlock : ∀ tx ∈ spendBlock.vtx, tx.Storable := by
  intro tx htx
  simp only [spendBlock, List.mem_cons, List.not_mem_nil, or_false] at htx
  rcases htx with rfl | rfl
  · exact ⟨by simp [MAX_SIZE], by simp, by simp⟩
  · exact ⟨by simp [MAX_SIZE], by simp, by simp⟩

theorem disconnectBlock_restores_spendBlock :
    ∃ st d, ConnectContext.plainConnect.connectTxs spendBlock spendIndex 600 true spendBlock.vtx
        { view := oneCoinView false } = .ok st ∧
      plainDisconnect.disconnectBlock spendBlock spendIndex ⟨7, 599, 0⟩
        (some (CBlockUndo.writeToDisk plainDisconnect.ops plainDisconnect.hasher ⟨st.vtxundo⟩ 7 ++
          [])) (st.view.setBestBlock 8) ⟨fun _ => none, fun _ => none⟩ = .ok d ∧
      d.fClean = true ∧
      (∀ txid, d.view.unspent txid = (oneCoinView false).unspent txid) ∧ d.view.hashBlock = 7 := by
  have hok : (ConnectContext.plainConnect.connectTxs spendBlock spendIndex 600 true spendBlock.vtx
      { view := oneCoinView false }).isOk = true := by decide +kernel
  obtain ⟨st, hst⟩ := exists_ok_of_isOk hok
  obtain ⟨d, hd⟩ := (disconnectBlock_restores_iff ConnectContext.plainConnect plainDisconnect
    spendBlock spendIndex ⟨7, 599, 0⟩ (oneCoinView false) st ⟨fun _ => none, fun _ => none⟩ [] rfl rfl
    ⟨_, _, rfl, by decide⟩ (by decide) storable_spendBlock (by decide) (storable_oneCoinView false)
    (by decide) (by decide) hst).mpr ⟨by
      intro txid c hc _
      rw [(oneCoinView_unspent hc).2]
      decide, by
      intro tx htx hstake
      simp only [spendBlock, List.mem_cons, List.not_mem_nil, or_false] at htx
      rcases htx with rfl | rfl <;> simp [CTransaction.isCoinStake] at hstake⟩
  exact ⟨st, d, hst, hd⟩

theorem coinstake_flag_lost :
    (do
      let st ← ConnectContext.plainConnect.connectTxs spendBlock spendIndex 600 true spendBlock.vtx
        { view := oneCoinView true }
      let d ← plainDisconnect.disconnectBlock spendBlock spendIndex ⟨7, 599, 0⟩
        (some (CBlockUndo.writeToDisk plainDisconnect.ops plainDisconnect.hasher ⟨st.vtxundo⟩ 7))
        (st.view.setBestBlock 8) ⟨fun _ => none, fun _ => none⟩
      .ok (d.fClean, (d.view.unspent 5).map CCoins.fCoinStake)) = .ok (true, some false) ∧
      ((oneCoinView true).unspent 5).map CCoins.fCoinStake = some true := by
  decide +kernel

end DisconnectContext

end AnkerNode
