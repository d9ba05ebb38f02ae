import AnkerNode.Validation.ConnectBlock

namespace AnkerNode

open Checks

namespace ConnectContext

variable {ctx : ConnectContext}

def mintOutputs (tx : CTransaction) : List CTxOut :=
  if tx.isZerocoinMint then tx.vout.filter CTxOut.isZerocoinMint else []

def mintCoins (ctx : ConnectContext) (tx : CTransaction) : List PublicCoin :=
  (mintOutputs tx).filterMap (txOutToPublicCoin ctx.lib)

def recordedSpends (ctx : ConnectContext) (tx : CTransaction) : List (CoinSpend × UInt256) :=
  if tx.isZerocoinSpend then (zerocoinSpends ctx.lib tx).map fun spend => (spend, tx.hash) else []

def recordedMints (ctx : ConnectContext) (tx : CTransaction) : List (PublicCoin × UInt256) :=
  (ctx.mintCoins tx).map fun coin => (coin, tx.hash)

def valueIn (ctx : ConnectContext) (view : CCoinsView) (tx : CTransaction) : Int :=
  if tx.isZerocoinSpend then
    ((zerocoinSpends ctx.lib tx).map fun spend => spend.denomination.toInt * COIN).sum
  else if tx.isCoinBase then 0
  else (tx.vin.map fun txin => (view.outAt txin.prevout).nValue).sum

theorem foldlM_connectMint {tx : CTransaction} {nHeight : Int} {outs : List CTxOut}
    {st st' : ConnectState} (h : outs.foldlM (ctx.connectMint tx nHeight) st = .ok st') :
    st' = { st with
      vMints := st.vMints ++ (outs.filterMap (txOutToPublicCoin ctx.lib)).map fun coin =>
        (coin, tx.hash) } ∧
    ∀ out ∈ outs, ∃ coin, txOutToPublicCoin ctx.lib out = some coin ∧
      ctx.contextualCheckZerocoinMint coin nHeight = true := by
  induction outs generalizing st with
  | nil =>
    simp only [List.foldlM_nil, pure, Except.pure, Except.ok.injEq] at h
    simp [h]
  | cons out outs ih =>
    simp only [List.foldlM_cons, connectMint, bind_eq_ok, fromOption_eq_ok, failIf_eq_ok,
      Bool.not_eq_false', exists_const, Except.ok.injEq] at h
    obtain ⟨st1, ⟨coin, hcoin, hctx, rfl⟩, hrest⟩ := h
    obtain ⟨hst, hall⟩ := ih hrest
    refine ⟨by simp [hst, hcoin], ?_⟩
    intro o ho
    rcases List.mem_cons.mp ho with rfl | ho
    · exact ⟨coin, hcoin, hctx⟩
    · exact hall o ho

theorem connectMints_eq_ok {tx : CTransaction} {nHeight : Int} {st st' : ConnectState}
    (h : ctx.connectMints tx nHeight st = .ok st') :
    st' = { st with vMints := st.vMints ++ ctx.recordedMints tx } ∧
    ∀ out ∈ mintOutputs tx, ∃ coin, txOutToPublicCoin ctx.lib out = some coin ∧
      ctx.contextualCheckZerocoinMint coin nHeight = true := by
  simp only [connectMints] at h
  simp only [recordedMints, mintCoins, mintOutputs]
  split at h
  · rename_i hm
    simpa only [hm, if_true] using foldlM_connectMint h
  · rename_i hm
    simp only [Except.ok.injEq] at h
    simp [hm, h]

theorem foldlM_connectSpend {tx : CTransaction} {nHeight : Int} {spends : List CoinSpend}
    {st st' : ConnectState} (h : spends.foldlM (ctx.connectSpend tx nHeight) st = .ok st') :
    st' = { st with
      nValueIn := st.nValueIn + (spends.map fun spend => spend.denomination.toInt * COIN).sum
      vSpends := st.vSpends ++ spends.map fun spend => (spend, tx.hash) } ∧
    ∀ spend ∈ spends, ctx.contextualCheckZerocoinSpend tx spend nHeight = true := by
  induction spends generalizing st with
  | nil =>
    simp only [List.foldlM_nil, pure, Except.pure, Except.ok.injEq] at h
    simp [h]
  | cons spend spends ih =>
    simp only [List.foldlM_cons, connectSpend, bind_eq_ok, failIf_eq_ok, Bool.not_eq_false',
      exists_const, Except.ok.injEq] at h
    obtain ⟨st1, ⟨hctx, rfl⟩, hrest⟩ := h
    obtain ⟨hst, hall⟩ := ih hrest
    refine ⟨by simp [hst, add_assoc], ?_⟩
    intro s hs
    rcases List.mem_cons.mp hs with rfl | hs
    · exact hctx
    · exact hall s hs

structure SpendChecked (ctx : ConnectContext) (nHeight : Int) (tx : CTransaction) : Prop where
  notInChain : ∀ nHeightTx, ctx.isTransactionInChain tx.hash = some nHeightTx →
    ctx.fVerifyingBlocks = true ∧ nHeight ≤ nHeightTx
  spends : ∀ spend ∈ zerocoinSpends ctx.lib tx,
    ctx.contextualCheckZerocoinSpend tx spend nHeight = true

structure InputsChecked (ctx : ConnectContext) (nSpendHeight : Int) (view : CCoinsView)
    (tx : CTransaction) : Prop where
  haveInputs : view.haveInputs tx = true
  checkInputs : ∃ fScriptChecks flags vChecks,
    ctx.checkInputs view nSpendHeight fScriptChecks flags tx = .ok vChecks

structure ConnectedTx (ctx : ConnectContext) (pindex : ConnectIndex) (nSpendHeight : Int)
    (first : Bool) (tx : CTransaction) (st st' : ConnectState) : Prop where
  spendChecked : tx.isZerocoinSpend = true → SpendChecked ctx pindex.nHeight tx
  inputsChecked : tx.spendsCoins = true → InputsChecked ctx nSpendHeight st.view tx
  mintsChecked : ∀ out ∈ mintOutputs tx, ∃ coin, txOutToPublicCoin ctx.lib out = some coin ∧
    ctx.contextualCheckZerocoinMint coin pindex.nHeight = true
  outputs : ∃ nOut, tx.getValueOut = some nOut ∧ st'.nValueOut = st.nValueOut + nOut ∧
    st'.nFees = st.nFees + if tx.spendsCoins then ctx.valueIn st.view tx - nOut else 0
  updated : ∃ txundo, st.view.updateCoins tx pindex.nHeight = some (st'.view, txundo) ∧
    st'.vtxundo = if first then st.vtxundo else st.vtxundo ++ [txundo]
  nValueIn : st'.nValueIn = st.nValueIn + ctx.valueIn st.view tx
  vSpends : st'.vSpends = st.vSpends ++ ctx.recordedSpends tx
  vMints : st'.vMints = st.vMints ++ ctx.recordedMints tx
  vPosTxid : st'.vPosTxid = if ctx.fTxIndex then st.vPosTxid ++ [tx.hash] else st.vPosTxid

theorem connectZerocoinSpend_eq_ok {tx : CTransaction} {nHeight : Int} {st st' : ConnectState}
    (h : ctx.connectZerocoinSpend tx nHeight st = .ok st') :
    SpendChecked ctx nHeight tx ∧
    (∀ out ∈ mintOutputs tx, ∃ coin, txOutToPublicCoin ctx.lib out = some coin ∧
      ctx.contextualCheckZerocoinMint coin nHeight = true) ∧
    st' = { st with
      nValueIn := st.nValueIn +
        ((zerocoinSpends ctx.lib tx).map fun spend => spend.denomination.toInt * COIN).sum
      vSpends := st.vSpends ++ (zerocoinSpends ctx.lib tx).map fun spend => (spend, tx.hash)
      vMints := st.vMints ++ ctx.recordedMints tx } := by
  simp only [connectZerocoinSpend, bind_eq_ok, failIf_eq_ok, exists_const] at h
  obtain ⟨hchain, st1, hspends, hmints⟩ := h
  obtain ⟨rfl, hsp⟩ := foldlM_connectSpend hspends
  obtain ⟨rfl, hm⟩ := connectMints_eq_ok hmints
  refine ⟨⟨?_, hsp⟩, hm, rfl⟩
  intro nHeightTx htx
  rw [htx] at hchain
  simpa using hchain

theorem spendsCoins_iff {tx : CTransaction} :
    tx.spendsCoins = true ↔ tx.isCoinBase = false ∧ tx.isZerocoinSpend = false := by
  simp [CTransaction.spendsCoins]

theorem connectOrdinary_eq_ok {tx : CTransaction} {nHeight nSpendHeight : Int}
    {fScriptChecks : Bool} {flags : Nat} {st st' : ConnectState} (hs : tx.spendsCoins = true)
    (h : ctx.connectOrdinary tx nHeight nSpendHeight fScriptChecks flags st = .ok st') :
    InputsChecked ctx nSpendHeight st.view tx ∧
    (∀ out ∈ mintOutputs tx, ∃ coin, txOutToPublicCoin ctx.lib out = some coin ∧
      ctx.contextualCheckZerocoinMint coin nHeight = true) ∧
    ∃ nOut nSigOpsCost vChecks, tx.getValueOut = some nOut ∧
      st' = { st with
        nFees := st.nFees + (ctx.valueIn st.view tx - nOut)
        nValueIn := st.nValueIn + ctx.valueIn st.view tx
        vMints := st.vMints ++ ctx.recordedMints tx
        nSigOpsCost := nSigOpsCost
        vChecks := vChecks } := by
  simp only [connectOrdinary, bind_eq_ok, failIf_eq_ok, fromOption_eq_ok, exists_const,
    Bool.not_eq_false', Except.ok.injEq] at h
  obtain ⟨hin, st1, hmints, nIn, hnIn, nOut, hnOut, -, vChecks, hci, rfl⟩ := h
  obtain ⟨rfl, hm⟩ := connectMints_eq_ok hmints
  have hval := CCoinsView.getValueIn_of_haveInputs hs hin
  have hvalue : nIn = ctx.valueIn st.view tx := by
    rw [hval, Option.some.injEq] at hnIn
    obtain ⟨hcb, hzc⟩ := spendsCoins_iff.mp hs
    simp [valueIn, hcb, hzc, ← hnIn]
  subst hvalue
  exact ⟨⟨hin, ⟨_, _, _, hci⟩⟩, hm, nOut, _, _, hnOut, rfl⟩

theorem recordOutputs_eq_ok {pindex : ConnectIndex} {first : Bool} {tx : CTransaction}
    {st st' : ConnectState} (h : ctx.recordOutputs pindex first tx st = .ok st') :
    ∃ nOut view txundo, tx.getValueOut = some nOut ∧
      st.view.updateCoins tx pindex.nHeight = some (view, txundo) ∧
      st' = { st with
        view := view
        nValueOut := st.nValueOut + nOut
        vtxundo := if first then st.vtxundo else st.vtxundo ++ [txundo]
        vPosTxid := if ctx.fTxIndex then st.vPosTxid ++ [tx.hash] else st.vPosTxid } := by
  simp only [recordOutputs, bind_eq_ok, fromOption_eq_ok, Except.ok.injEq, Prod.exists] at h
  obtain ⟨nOut, hOut, view, txundo, hup, rfl⟩ := h
  exact ⟨nOut, view, txundo, hOut, hup, rfl⟩

theorem recordedMints_of_isCoinBase {tx : CTransaction} (h : tx.isCoinBase = true) :
    ctx.recordedMints tx = [] := by
  simp [recordedMints, mintCoins, mintOutputs,
    (CTransaction.not_isZerocoinMint_of_isCoinBase h).1]

theorem connectTx_eq_ok {block : CBlock} {pindex : ConnectIndex} {nSpendHeight : Int}
    {first : Bool} {tx : CTransaction} {st st' : ConnectState}
    (h : ctx.connectTx block pindex nSpendHeight first tx st = .ok st') :
    ConnectedTx ctx pindex nSpendHeight first tx st st' := by
  simp only [connectTx, bind_eq_ok, failIf_eq_ok, exists_const] at h
  obtain ⟨-, mid, hkind, hrec⟩ := h
  obtain ⟨nOut, view, txundo, hOut, hup, rfl⟩ := recordOutputs_eq_ok hrec
  simp only [connectKind] at hkind
  split at hkind
  · rename_i hzc
    obtain ⟨hchecked, hm, rfl⟩ := connectZerocoinSpend_eq_ok hkind
    have hns : tx.spendsCoins = false := by simp [CTransaction.spendsCoins, hzc]
    exact
      { spendChecked := fun _ => hchecked
        inputsChecked := fun hs => by simp [hns] at hs
        mintsChecked := hm
        outputs := ⟨nOut, hOut, rfl, by simp [hns]⟩
        updated := ⟨txundo, hup, rfl⟩
        nValueIn := by simp [valueIn, hzc]
        vSpends := by simp [recordedSpends, hzc]
        vMints := rfl
        vPosTxid := rfl }
  · rename_i hzc
    have hzc' : tx.isZerocoinSpend = false := by simpa using hzc
    split at hkind
    · rename_i hcb
      have hs : tx.spendsCoins = true := spendsCoins_iff.mpr ⟨by simpa using hcb, hzc'⟩
      obtain ⟨hin, hm, nOut', nSig, vChecks, hOut', rfl⟩ := connectOrdinary_eq_ok hs hkind
      have hnn : nOut' = nOut := by
        rw [hOut, Option.some.injEq] at hOut'
        exact hOut'.symm
      subst hnn
      exact
        { spendChecked := fun hz => by simp [hzc'] at hz
          inputsChecked := fun _ => hin
          mintsChecked := hm
          outputs := ⟨nOut', hOut, rfl, by simp [hs]⟩
          updated := ⟨txundo, hup, rfl⟩
          nValueIn := rfl
          vSpends := by simp [recordedSpends, hzc']
          vMints := rfl
          vPosTxid := rfl }
    · rename_i hcb
      have hcb' : tx.isCoinBase = true := by simpa using hcb
      have hns : tx.spendsCoins = false := by simp [CTransaction.spendsCoins, hcb']
      have hmo : mintOutputs tx = [] := by
        simp [mintOutputs, (CTransaction.not_isZerocoinMint_of_isCoinBase hcb').1]
      simp only [Except.ok.injEq] at hkind
      subst hkind
      exact
        { spendChecked := fun hz => by simp [hzc'] at hz
          inputsChecked := fun hs => by simp [hns] at hs
          mintsChecked := by simp [hmo]
          outputs := ⟨nOut, hOut, rfl, by simp [hns]⟩
          updated := ⟨txundo, hup, rfl⟩
          nValueIn := by simp [valueIn, hzc', hcb']
          vSpends := by simp [recordedSpends, hzc']
          vMints := by simp [recordedMints_of_isCoinBase hcb']
          vPosTxid := rfl }

theorem connectTxs_cons_eq_ok {block : CBlock} {pindex : ConnectIndex} {nSpendHeight : Int}
    {first : Bool} {tx : CTransaction} {vtx : List CTransaction} {st st' : ConnectState}
    (h : ctx.connectTxs block pindex nSpendHeight first (tx :: vtx) st = .ok st') :
    ∃ mid, ConnectedTx ctx pindex nSpendHeight first tx st mid ∧
      ctx.connectTxs block pindex nSpendHeight false vtx mid = .ok st' := by
  simp only [connectTxs, bind_eq_ok] at h
  obtain ⟨mid, hone, hrest⟩ := h
  exact ⟨mid, connectTx_eq_ok hone, hrest⟩

theorem connectTxs_recorded {block : CBlock} {pindex : ConnectIndex} {nSpendHeight : Int}
    {first : Bool} {vtx : List CTransaction} {st st' : ConnectState}
    (h : ctx.connectTxs block pindex nSpendHeight first vtx st = .ok st') :
    st'.vSpends = st.vSpends ++ vtx.flatMap ctx.recordedSpends ∧
      st'.vMints = st.vMints ++ vtx.flatMap ctx.recordedMints ∧
      st'.vPosTxid = st.vPosTxid ++ (if ctx.fTxIndex then vtx.map CTransaction.hash else []) := by
  induction vtx generalizing st first with
  | nil =>
    simp only [connectTxs, Except.ok.injEq] at h
    simp [h]
  | cons tx vtx ih =>
    obtain ⟨mid, hone, hrest⟩ := connectTxs_cons_eq_ok h
    obtain ⟨hs, hm, hp⟩ := ih hrest
    refine ⟨by simp [hs, hone.vSpends], by simp [hm, hone.vMints], ?_⟩
    rw [hp, hone.vPosTxid]
    cases ctx.fTxIndex <;> simp

theorem connectTxs_checked {block : CBlock} {pindex : ConnectIndex} {nSpendHeight : Int}
    {first : Bool} {vtx : List CTransaction} {st st' : ConnectState}
    (h : ctx.connectTxs block pindex nSpendHeight first vtx st = .ok st') :
    ∀ tx ∈ vtx, (tx.isZerocoinSpend = true → SpendChecked ctx pindex.nHeight tx) ∧
      ∀ out ∈ mintOutputs tx, ∃ coin, txOutToPublicCoin ctx.lib out = some coin ∧
        ctx.contextualCheckZerocoinMint coin pindex.nHeight = true := by
  induction vtx generalizing st first with
  | nil => simp
  | cons tx vtx ih =>
    obtain ⟨mid, hone, hrest⟩ := connectTxs_cons_eq_ok h
    intro t ht
    rcases List.mem_cons.mp ht with rfl | ht
    · exact ⟨hone.spendChecked, hone.mintsChecked⟩
    · exact ih hrest t ht

structure ConnectedBlock (ctx : ConnectContext) (block : CBlock) (pindex : ConnectIndex)
    (view : CCoinsView) (pprev : PrevIndex) (st : ConnectState) (r : ConnectResult) : Prop where
  checked : ctx.fAlreadyChecked = false → ctx.checkBlock block = .ok ()
  parent : pindex.pprev = some pprev
  bestBlock : view.hashBlock = pprev.hash
  phase : ctx.checkPhase block pindex = .ok ()
  bip30 : enforceBIP30 pindex = true → overwrites view block = false
  txs : ctx.connectTxs block pindex (pprev.nHeight + 1) true block.vtx { view := view } = .ok st
  accumulator : ctx.validateAccumulatorCheckpoint block = true
  scripts : (st.vChecks.any fun check => (ctx.verifyScript check).isSome) = false
  commit : ctx.commit pindex pprev st = .ok r

theorem connectBlock_eq_ok_iff {getBlockValue : Int → Int} {block : CBlock} {pindex : ConnectIndex}
    {view : CCoinsView} {r : ConnectResult} (hg : block.hash ≠ ctx.params.hashGenesisBlock) :
    ctx.connectBlock getBlockValue block pindex view = .ok r ↔
      ∃ pprev st, ConnectedBlock ctx block pindex view pprev st r ∧
        ctx.payments.isBlockValueValid block (getBlockValue pprev.nHeight)
          (st.nValueOut - st.nValueIn + st.nFees) = true := by
  have hmint : ∀ (pprev : PrevIndex) (st : ConnectState),
      pprev.nMoneySupply + st.nValueOut - st.nValueIn - pprev.nMoneySupply + st.nFees =
        st.nValueOut - st.nValueIn + st.nFees := by
    intro pprev st
    omega
  simp only [connectBlock, bind_eq_ok, onlyIf_eq_ok, failIf_eq_ok, exists_const, if_neg hg,
    fromOption_eq_ok, checkBlockValue, hmint, Bool.not_eq_false', Bool.not_eq_true',
    bne_eq_false_iff_eq]
  constructor
  · rintro ⟨hchk, hbest, _, hphase, hbip, pprev, hprev, st, htxs, ⟨hval, hacc, hscr⟩, hcommit⟩
    refine ⟨pprev, st, ⟨hchk, hprev, ?_, hphase, ?_, htxs, hacc, hscr, hcommit⟩, hval⟩
    · rw [← hbest, hprev]
      rfl
    · intro henf
      simpa [henf] using hbip
  · rintro ⟨pprev, st, hc, hval⟩
    refine ⟨hc.checked, ?_, (), hc.phase, ?_, pprev, hc.parent, st, hc.txs,
      ⟨hval, hc.accumulator, hc.scripts⟩, hc.commit⟩
    · rw [hc.parent, hc.bestBlock]
      rfl
    · cases henf : enforceBIP30 pindex with
      | false => rfl
      | true => simpa using hc.bip30 henf

def plainPayments : PaymentContext where
  tip := some (7, 599)
  blockHeight := fun _ => none
  isSynced := true
  superblocksActive := false
  budgetPaymentCycleBlocks := 43200
  isBudgetPaymentBlock := fun _ => false
  exceedsWithDelta := fun _ nMinted nExpectedValue => decide (nExpectedValue < nMinted)

def plainConnect : ConnectContext where
  params := { hashGenesisBlock := 1 }
  lib := CheckContext.plainLib
  checkBlock := fun _ => .ok ()
  fAlreadyChecked := true
  fJustCheck := false
  totalBlocksEstimate := 0
  nScriptCheckThreads := 0
  sporkZerocoinMaintenance := 4070908800
  sporkSegwitActivation := 4070908800
  isInitialBlockDownload := false
  fVerifyingBlocks := false
  fTxIndex := true
  isTransactionInChain := fun _ => none
  zerocoinDB := ⟨fun _ => none, fun _ => none⟩
  getTransactionSigOpCost := fun tx _ _ => tx.vin.length
  verifyScript := fun _ => none
  payments := plainPayments
  validateAccumulatorCheckpoint := fun _ => true
  writeUndo := fun _ => true

end ConnectContext

end AnkerNode
