import AnkerNode.Validation.DisconnectSpec

namespace AnkerNode

open Checks

def spendKeys (lib : ZerocoinLib) (vtx : List CTransaction) : List UInt256 :=
  vtx.flatMap fun tx =>
    if tx.isZerocoinSpend then
      (zerocoinSpends lib tx).map fun spend => lib.hashSerial spend.coinSerialNumber
    else []

def mintKeys (lib : ZerocoinLib) (vtx : List CTransaction) : List UInt256 :=
  vtx.flatMap fun tx =>
    ((ConnectContext.mintOutputs tx).filterMap (txOutToPublicCoin lib)).map fun coin =>
      lib.hashPubCoin coin.value

-- the entries a block's transactions leave, in the order they are written
def spendRecords (lib : ZerocoinLib) (vtx : List CTransaction) : List (UInt256 × UInt256) :=
  vtx.flatMap fun tx =>
    if tx.isZerocoinSpend then
      (zerocoinSpends lib tx).map fun spend => (lib.hashSerial spend.coinSerialNumber, tx.hash)
    else []

def mintRecords (lib : ZerocoinLib) (vtx : List CTransaction) : List (UInt256 × UInt256) :=
  vtx.flatMap fun tx =>
    ((ConnectContext.mintOutputs tx).filterMap (txOutToPublicCoin lib)).map fun coin =>
      (lib.hashPubCoin coin.value, tx.hash)

theorem map_fst_spendRecords (lib : ZerocoinLib) (vtx : List CTransaction) :
    (spendRecords lib vtx).map Prod.fst = spendKeys lib vtx := by
  rw [spendRecords, List.map_flatMap, spendKeys]
  refine List.flatMap_congr (fun tx _ => ?_)
  split <;> simp

theorem map_fst_mintRecords (lib : ZerocoinLib) (vtx : List CTransaction) :
    (mintRecords lib vtx).map Prod.fst = mintKeys lib vtx := by
  rw [mintRecords, List.map_flatMap, mintKeys]
  refine List.flatMap_congr (fun tx _ => ?_)
  simp

namespace ConnectContext

variable {ctx : ConnectContext}

theorem commit_eq_ok {pindex : ConnectIndex} {pprev : PrevIndex} {st : ConnectState}
    {r : ConnectResult} (hj : ctx.fJustCheck = false) (h : ctx.commit pindex pprev st = .ok r) :
    r.view = st.view.setBestBlock pindex.hash ∧ r.blockundo = ⟨st.vtxundo⟩ ∧
      r.vPosTxid = st.vPosTxid ∧
      r.zerocoinDB =
        ctx.writeCoinMints (ctx.writeCoinSpends ctx.zerocoinDB st.vSpends) st.vMints := by
  simp only [commit, hj, Bool.false_eq_true, if_false, bind_eq_ok, Except.ok.injEq] at h
  obtain ⟨-, -, rfl⟩ := h
  exact ⟨rfl, rfl, rfl, rfl⟩

theorem spendRecords_eq_map (vtx : List CTransaction) :
    spendRecords ctx.lib vtx = (vtx.flatMap ctx.recordedSpends).map fun p =>
      (ctx.lib.hashSerial p.1.coinSerialNumber, p.2) := by
  rw [List.map_flatMap, spendRecords]
  refine List.flatMap_congr (fun tx _ => ?_)
  simp only [recordedSpends]
  split <;> simp

theorem mintRecords_eq_map (vtx : List CTransaction) :
    mintRecords ctx.lib vtx = (vtx.flatMap ctx.recordedMints).map fun p =>
      (ctx.lib.hashPubCoin p.1.value, p.2) := by
  rw [List.map_flatMap, mintRecords]
  refine List.flatMap_congr (fun tx _ => ?_)
  simp [recordedMints, mintCoins]

theorem zerocoinDB_of_connectBlock {getBlockValue : Int → Int} {block : CBlock}
    {pindex : ConnectIndex} {view : CCoinsView} {r : ConnectResult} (hj : ctx.fJustCheck = false)
    (hg : block.hash ≠ ctx.params.hashGenesisBlock)
    (h : ctx.connectBlock getBlockValue block pindex view = .ok r) :
    r.zerocoinDB =
      { spends := Table.writeAll Prod.fst (fun p => some p.2) ctx.zerocoinDB.spends
          (spendRecords ctx.lib block.vtx)
        mints := Table.writeAll Prod.fst (fun p => some p.2) ctx.zerocoinDB.mints
          (mintRecords ctx.lib block.vtx) } := by
  obtain ⟨pprev, st, hc, -⟩ := (connectBlock_eq_ok_iff hg).mp h
  obtain ⟨-, -, -, hdb⟩ := commit_eq_ok hj hc.commit
  obtain ⟨hs, hm, -⟩ := connectTxs_recorded hc.txs
  simp only [List.nil_append] at hs hm
  rw [hdb, hs, hm, spendRecords_eq_map, mintRecords_eq_map, Table.writeAll_map, Table.writeAll_map]
  rfl

structure Records (lib : ZerocoinLib) (vtx : List CTransaction) (db db' : ZerocoinDB) : Prop where
  spends : ∀ k, k ∉ spendKeys lib vtx → db'.spends k = db.spends k
  mints : ∀ k, k ∉ mintKeys lib vtx → db'.mints k = db.mints k

theorem connectBlock_records {getBlockValue : Int → Int} {block : CBlock} {pindex : ConnectIndex}
    {view : CCoinsView} {r : ConnectResult} (hj : ctx.fJustCheck = false)
    (hg : block.hash ≠ ctx.params.hashGenesisBlock)
    (h : ctx.connectBlock getBlockValue block pindex view = .ok r) :
    Records ctx.lib block.vtx ctx.zerocoinDB r.zerocoinDB := by
  rw [zerocoinDB_of_connectBlock hj hg h]
  refine ⟨fun k hk => ?_, fun k hk => ?_⟩
  · rw [← map_fst_spendRecords] at hk
    exact Table.writeAll_of_not_mem hk
  · rw [← map_fst_mintRecords] at hk
    exact Table.writeAll_of_not_mem hk

end ConnectContext

namespace DisconnectContext

variable {ctx : DisconnectContext}

def MintsConvert (lib : ZerocoinLib) (tx : CTransaction) : Prop :=
  ∀ out ∈ ConnectContext.mintOutputs tx, ∃ coin, txOutToPublicCoin lib out = some coin

theorem foldlM_eraseCoinMint {outs : List CTxOut} {mints : UInt256 → Option UInt256}
    (h : ∀ out ∈ outs, ∃ coin, txOutToPublicCoin ctx.lib out = some coin) :
    outs.foldlM ctx.eraseCoinMint mints =
      .ok (Table.writeAll (fun coin : PublicCoin => ctx.lib.hashPubCoin coin.value) (fun _ => none)
        mints (outs.filterMap (txOutToPublicCoin ctx.lib))) := by
  induction outs generalizing mints with
  | nil => rfl
  | cons out outs ih =>
    obtain ⟨coin, hcoin⟩ := h out (by simp)
    rw [List.foldlM_cons, eraseCoinMint, hcoin, List.filterMap_cons_some hcoin]
    exact ih (fun o ho => h o (by simp [ho]))

theorem spends_eraseCoinSpends (tx : CTransaction) (db : ZerocoinDB) (k : UInt256) :
    (ctx.eraseCoinSpends tx db).spends k =
      if k ∈ spendKeys ctx.lib [tx] then none else db.spends k := by
  simp only [eraseCoinSpends, spendKeys, List.flatMap_cons, List.flatMap_nil, List.append_nil]
  split
  · exact Table.writeAll_const none
  · simp

theorem mints_eraseCoinSpends (tx : CTransaction) (db : ZerocoinDB) :
    (ctx.eraseCoinSpends tx db).mints = db.mints := by
  simp only [eraseCoinSpends]
  split <;> rfl

theorem eraseCoinMints_eq_ok {tx : CTransaction} (db : ZerocoinDB) (h : MintsConvert ctx.lib tx) :
    ∃ db', ctx.eraseCoinMints tx db = .ok db' ∧ db'.spends = db.spends ∧
      ∀ k, db'.mints k = if k ∈ mintKeys ctx.lib [tx] then none else db.mints k := by
  simp only [MintsConvert, ConnectContext.mintOutputs] at h
  simp only [eraseCoinMints, mintKeys, ConnectContext.mintOutputs, List.flatMap_cons,
    List.flatMap_nil, List.append_nil]
  split
  · rename_i hm
    rw [if_pos hm] at h
    rw [foldlM_eraseCoinMint h]
    exact ⟨_, rfl, rfl, fun k => Table.writeAll_const none⟩
  · exact ⟨db, rfl, rfl, fun k => by simp⟩

theorem keys_eq_nil (lib : ZerocoinLib) {tx : CTransaction} (h : tx.containsZerocoins = false) :
    spendKeys lib [tx] = [] ∧ mintKeys lib [tx] = [] := by
  simp only [CTransaction.containsZerocoins, Bool.or_eq_false_iff] at h
  simp [spendKeys, mintKeys, ConnectContext.mintOutputs, h.1, h.2]

theorem undoZerocoins_eq_ok {tx : CTransaction} (db : ZerocoinDB) (h : MintsConvert ctx.lib tx) :
    ∃ db', ctx.undoZerocoins tx db = .ok db' ∧
      (∀ k, db'.spends k = if k ∈ spendKeys ctx.lib [tx] then none else db.spends k) ∧
      ∀ k, db'.mints k = if k ∈ mintKeys ctx.lib [tx] then none else db.mints k := by
  simp only [undoZerocoins]
  split
  · obtain ⟨db', hdb, hs, hm⟩ := eraseCoinMints_eq_ok (ctx.eraseCoinSpends tx db) h
    refine ⟨db', hdb, fun k => ?_, fun k => ?_⟩
    · rw [hs]
      exact spends_eraseCoinSpends tx db k
    · rw [hm, mints_eraseCoinSpends]
  · rename_i hz
    have hfalse : tx.containsZerocoins = false := by simpa using hz
    obtain ⟨hs, hm⟩ := keys_eq_nil ctx.lib hfalse
    exact ⟨db, rfl, fun k => by simp [hs], fun k => by simp [hm]⟩

theorem spendKeys_cons (lib : ZerocoinLib) (tx : CTransaction) (vtx : List CTransaction) :
    spendKeys lib (tx :: vtx) = spendKeys lib [tx] ++ spendKeys lib vtx := by
  simp [spendKeys]

theorem mintKeys_cons (lib : ZerocoinLib) (tx : CTransaction) (vtx : List CTransaction) :
    mintKeys lib (tx :: vtx) = mintKeys lib [tx] ++ mintKeys lib vtx := by
  simp [mintKeys]

theorem undoZerocoinTxs_eq_ok {vtx : List CTransaction} (db : ZerocoinDB)
    (h : ∀ tx ∈ vtx, MintsConvert ctx.lib tx) :
    ∃ db', ctx.undoZerocoinTxs vtx db = .ok db' ∧
      (∀ k, db'.spends k = if k ∈ spendKeys ctx.lib vtx then none else db.spends k) ∧
      ∀ k, db'.mints k = if k ∈ mintKeys ctx.lib vtx then none else db.mints k := by
  induction vtx with
  | nil => exact ⟨db, rfl, by simp [spendKeys], by simp [mintKeys]⟩
  | cons tx vtx ih =>
    obtain ⟨mid, hmid, hms, hmm⟩ := ih (fun t ht => h t (by simp [ht]))
    obtain ⟨db', hdb, hs, hm⟩ := undoZerocoins_eq_ok mid (h tx (by simp))
    refine ⟨db', by rw [undoZerocoinTxs, hmid]; exact hdb, fun k => ?_, fun k => ?_⟩
    · rw [hs, hms, spendKeys_cons ctx.lib tx vtx]
      by_cases h1 : k ∈ spendKeys ctx.lib [tx] <;> simp only [h1, List.mem_append, true_or,
        false_or, if_true, if_false]
    · rw [hm, hmm, mintKeys_cons ctx.lib tx vtx]
      by_cases h1 : k ∈ mintKeys ctx.lib [tx] <;> simp only [h1, List.mem_append, true_or,
        false_or, if_true, if_false]

theorem converts_of_foldlM_eraseCoinMint {outs : List CTxOut} {mints mints' : UInt256 → Option UInt256}
    (h : outs.foldlM ctx.eraseCoinMint mints = .ok mints') :
    ∀ out ∈ outs, ∃ coin, txOutToPublicCoin ctx.lib out = some coin := by
  induction outs generalizing mints with
  | nil => simp
  | cons out outs ih =>
    simp only [List.foldlM_cons, eraseCoinMint, bind_eq_ok, fromOption_eq_ok] at h
    obtain ⟨mid, ⟨coin, hcoin, -⟩, hrest⟩ := h
    intro o ho
    rcases List.mem_cons.mp ho with rfl | ho
    · exact ⟨coin, hcoin⟩
    · exact ih hrest o ho

theorem mintsConvert_of_undoZerocoins {tx : CTransaction} {db db' : ZerocoinDB}
    (h : ctx.undoZerocoins tx db = .ok db') : MintsConvert ctx.lib tx := by
  intro out hout
  simp only [ConnectContext.mintOutputs] at hout
  split at hout
  · rename_i hmint
    have hz : tx.containsZerocoins = true := by simp [CTransaction.containsZerocoins, hmint]
    simp only [undoZerocoins, hz, if_true, eraseCoinMints, hmint, bind_eq_ok] at h
    obtain ⟨mints, hfold, -⟩ := h
    exact converts_of_foldlM_eraseCoinMint hfold out hout
  · simp at hout

theorem mintsConvert_of_undoZerocoinTxs {vtx : List CTransaction} {db db' : ZerocoinDB}
    (h : ctx.undoZerocoinTxs vtx db = .ok db') : ∀ tx ∈ vtx, MintsConvert ctx.lib tx := by
  induction vtx generalizing db' with
  | nil => simp
  | cons tx vtx ih =>
    simp only [undoZerocoinTxs, bind_eq_ok] at h
    obtain ⟨mid, hmid, hlast⟩ := h
    intro t ht
    rcases List.mem_cons.mp ht with rfl | ht
    · exact mintsConvert_of_undoZerocoins hlast
    · exact ih hmid t ht

theorem undoZerocoinTxs_forgets {vtx : List CTransaction} {db db' : ZerocoinDB}
    (h : ctx.undoZerocoinTxs vtx db = .ok db') :
    db' = { spends := fun k => if k ∈ spendKeys ctx.lib vtx then none else db.spends k
            mints := fun k => if k ∈ mintKeys ctx.lib vtx then none else db.mints k } := by
  obtain ⟨db'', hdb, hs, hm⟩ := undoZerocoinTxs_eq_ok db (mintsConvert_of_undoZerocoinTxs h)
  rw [h, Except.ok.injEq] at hdb
  subst hdb
  cases db'
  simp only [ZerocoinDB.mk.injEq]
  exact ⟨funext hs, funext hm⟩

theorem zerocoinDB_of_disconnectBlock {block : CBlock} {pindex : ConnectIndex} {pprev : PrevIndex}
    {undoFile : Option (List UInt8)} {view : CCoinsView} {db : ZerocoinDB} {d : DisconnectState}
    (h : ctx.disconnectBlock block pindex pprev undoFile view db = .ok d) :
    ctx.undoZerocoinTxs block.vtx db = .ok d.zerocoinDB := by
  simp only [disconnectBlock, bind_eq_ok, failIf_eq_ok, fromOption_eq_ok, exists_const,
    Except.ok.injEq, decide_eq_false_iff_not, ne_eq, not_not] at h
  obtain ⟨-, file, -, read, -, hlen, st, hst, -, rfl⟩ := h
  have hz := (disconnectTxs_eq_ok_iff.mp hst).2
  rw [List.map_fst_zip (by simp; omega)] at hz
  exact hz

theorem zerocoin_tables_restored_iff (conn : ConnectContext) (dis : DisconnectContext)
    (getBlockValue : Int → Int) (block : CBlock) (pindex : ConnectIndex) (view : CCoinsView)
    (r : ConnectContext.ConnectResult) (hlib : dis.lib = conn.lib)
    (hrecords : conn.fJustCheck = false) (hgenesis : block.hash ≠ conn.params.hashGenesisBlock)
    (h : conn.connectBlock getBlockValue block pindex view = .ok r) :
    ∃ db, dis.undoZerocoinTxs block.vtx r.zerocoinDB = .ok db ∧
      (∀ pprev undoFile view' d,
        dis.disconnectBlock block pindex pprev undoFile view' r.zerocoinDB = .ok d →
          d.zerocoinDB = db) ∧
      (db.spends = conn.zerocoinDB.spends ↔
        ∀ k ∈ spendKeys conn.lib block.vtx, conn.zerocoinDB.spends k = none) ∧
      (db.mints = conn.zerocoinDB.mints ↔
        ∀ k ∈ mintKeys conn.lib block.vtx, conn.zerocoinDB.mints k = none) ∧
      (∀ k, k ∉ spendKeys conn.lib block.vtx → db.spends k = conn.zerocoinDB.spends k) ∧
      (∀ k, k ∉ mintKeys conn.lib block.vtx → db.mints k = conn.zerocoinDB.mints k) ∧
      (conn.params.nZerocoinLastOldParams < pindex.nHeight → conn.params.isTestNet = false →
        db.mints = conn.zerocoinDB.mints) := by
  obtain ⟨pprev, st, hc, -⟩ := (ConnectContext.connectBlock_eq_ok_iff hgenesis).mp h
  have hchecked := ConnectContext.connectTxs_checked hc.txs
  have hconv : ∀ tx ∈ block.vtx, MintsConvert dis.lib tx := by
    intro tx htx out ho
    obtain ⟨coin, hcoin, -⟩ := (hchecked tx htx).2 out ho
    exact ⟨coin, by rw [hlib, hcoin]⟩
  have hrec := ConnectContext.connectBlock_records hrecords hgenesis h
  obtain ⟨db, hdb, hs, hm⟩ := undoZerocoinTxs_eq_ok r.zerocoinDB hconv
  rw [hlib] at hs hm
  have hother : ∀ k, k ∉ spendKeys conn.lib block.vtx →
      db.spends k = conn.zerocoinDB.spends k := by
    intro k hk
    rw [hs, if_neg hk, hrec.spends k hk]
  have hotherM : ∀ k, k ∉ mintKeys conn.lib block.vtx → db.mints k = conn.zerocoinDB.mints k := by
    intro k hk
    rw [hm, if_neg hk, hrec.mints k hk]
  have hmints : db.mints = conn.zerocoinDB.mints ↔
      ∀ k ∈ mintKeys conn.lib block.vtx, conn.zerocoinDB.mints k = none := by
    constructor
    · intro heq k hk
      rw [← heq, hm, if_pos hk]
    · intro hnone
      funext k
      by_cases hk : k ∈ mintKeys conn.lib block.vtx
      · rw [hm, if_pos hk, hnone k hk]
      · exact hotherM k hk
  refine ⟨db, hdb, ?_, ?_, hmints, hother, hotherM, ?_⟩
  · intro pprev' undoFile view' d hd
    have hz := zerocoinDB_of_disconnectBlock hd
    rw [hdb, Except.ok.injEq] at hz
    exact hz.symm
  · constructor
    · intro heq k hk
      rw [← heq, hs, if_pos hk]
    · intro hnone
      funext k
      by_cases hk : k ∈ spendKeys conn.lib block.vtx
      · rw [hs, if_pos hk, hnone k hk]
      · exact hother k hk
  · intro hheight htest
    rw [hmints]
    intro k hk
    obtain ⟨tx, htx, hk⟩ := List.mem_flatMap.mp hk
    obtain ⟨coin, hcoin, rfl⟩ := List.mem_map.mp hk
    obtain ⟨out, hout, hconvert⟩ := List.mem_filterMap.mp hcoin
    obtain ⟨coin', hcoin', hctx⟩ := (hchecked tx htx).2 out hout
    rw [hconvert, Option.some.injEq] at hcoin'
    subst hcoin'
    simpa [ConnectContext.contextualCheckZerocoinMint, hheight, htest] using hctx

def mintBlock : CBlock where
  hash := 8
  hashPrevBlock := 7
  vtx :=
    [{ hash := 20, vin := [⟨COutPoint.null, [0x02, 0x58], 0xffffffff⟩], vout := [⟨0, []⟩] },
     { hash := 21
       vin := [⟨⟨5, 0⟩, [], 0xffffffff⟩]
       vout := [⟨COIN, [OP_ZEROCOINMINT, 0, 0, 0, 0, 0, 1, 2, 3]⟩] }]

def mintView : CCoinsView where
  coins := fun txid =>
    if txid = 5 then some { vout := [⟨COIN, [0x51]⟩], nHeight := 100, nVersion := 1 } else none
  hashBlock := 7

def mintIndex : ConnectIndex where
  hash := 8
  nHeight := 400
  pprev := some ⟨7, 399, 0⟩

def mintConnect (mints : UInt256 → Option UInt256) : ConnectContext :=
  { ConnectContext.plainConnect with zerocoinDB := ⟨fun _ => none, mints⟩ }

theorem zerocoin_tables_restored_mintBlock :
    ∃ r db, (mintConnect fun _ => none).connectBlock (fun _ => 0) mintBlock mintIndex mintView =
        .ok r ∧
      plainDisconnect.undoZerocoinTxs mintBlock.vtx r.zerocoinDB = .ok db ∧
      db.spends = (fun _ => none) ∧ db.mints = fun _ => none := by
  have hok : ((mintConnect fun _ => none).connectBlock (fun _ => 0) mintBlock mintIndex
      mintView).isOk = true := by decide +kernel
  obtain ⟨r, hr⟩ := exists_ok_of_isOk hok
  obtain ⟨db, hdb, -, hs, hm, -⟩ := zerocoin_tables_restored_iff (mintConnect fun _ => none)
    plainDisconnect (fun _ => 0) mintBlock mintIndex mintView r rfl rfl (by decide) hr
  exact ⟨r, db, hr, hdb, hs.mpr (fun _ _ => rfl), hm.mpr (fun _ _ => rfl)⟩

theorem known_mint_lost :
    (do
      let r ← (mintConnect fun _ => some 9).connectBlock (fun _ => 0) mintBlock mintIndex mintView
      let d ← plainDisconnect.disconnectBlock mintBlock mintIndex ⟨7, 399, 0⟩
        (some (CBlockUndo.writeToDisk plainDisconnect.ops plainDisconnect.hasher
          r.blockundo 7)) r.view r.zerocoinDB
      .ok (d.fClean, d.zerocoinDB.mints (CheckContext.plainLib.hashPubCoin 197121))) = .ok (true, none) ∧
      (mintConnect fun _ => some 9).zerocoinDB.mints (CheckContext.plainLib.hashPubCoin 197121) =
        some 9 := by
  decide +kernel

end DisconnectContext

end AnkerNode
