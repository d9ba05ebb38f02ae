import AnkerNode.Validation.ConnectSpec

namespace AnkerNode

open Checks

namespace ConnectContext

variable {ctx : ConnectContext}

def outputOf (view : CCoinsView) (earlier : List CTransaction) (o : COutPoint) : CTxOut :=
  match earlier.find? fun tx => tx.hash == o.hash with
  | some tx => tx.vout.getD o.n.toNat CTxOut.null
  | none => view.outAt o

def inputValue (ctx : ConnectContext) (view : CCoinsView) (earlier : List CTransaction)
    (tx : CTransaction) : Int :=
  if tx.isZerocoinSpend then
    ((zerocoinSpends ctx.lib tx).map fun spend => spend.denomination.toInt * COIN).sum
  else if tx.isCoinBase then 0
  else (tx.vin.map fun txin => (outputOf view earlier txin.prevout).nValue).sum

def outputValue (tx : CTransaction) : Int := (tx.vout.map CTxOut.nValue).sum

def sumOver (ctx : ConnectContext) (view : CCoinsView) (counts : CTransaction → Bool) :
    List CTransaction → List CTransaction → Int
  | _, [] => 0
  | earlier, tx :: vtx =>
    (if counts tx then outputValue tx - ctx.inputValue view earlier tx else 0) +
      sumOver ctx view counts (tx :: earlier) vtx

def netCreated (ctx : ConnectContext) (view : CCoinsView) (vtx : List CTransaction) : Int :=
  ctx.sumOver view (fun _ => true) [] vtx

def stakeCreated (ctx : ConnectContext) (view : CCoinsView) (vtx : List CTransaction) : Int :=
  ctx.sumOver view (fun tx => tx.spendsCoins && tx.isCoinStake) [] vtx

def feesPaid (ctx : ConnectContext) (view : CCoinsView) (vtx : List CTransaction) : Int :=
  -ctx.sumOver view (fun tx => tx.spendsCoins && !tx.isCoinStake) [] vtx

def Traces (view : CCoinsView) (earlier : List CTransaction) (now : CCoinsView) : Prop :=
  ∀ o, (now.outAt o).isNull = false → now.outAt o = outputOf view earlier o

theorem traces_refl (view : CCoinsView) : Traces view [] view := fun _ _ => rfl

theorem traces_updateCoins {view now now' : CCoinsView} {earlier : List CTransaction}
    {tx : CTransaction} {nHeight : Int} {txundo : CTxUndo} (ht : Traces view earlier now)
    (h : now.updateCoins tx nHeight = some (now', txundo)) :
    Traces view (tx :: earlier) now' := by
  obtain ⟨mid, hmid, rfl⟩ := CCoinsView.updateCoins_eq_some h
  have hkeep : ∀ o, (mid.outAt o).isNull = false → mid.outAt o = now.outAt o := by
    intro o ho
    simp only [CCoinsView.markInputsSpent] at hmid
    split at hmid
    · exact CCoinsView.outAt_spendInputs_of_not_isNull hmid ho
    · simp only [Option.some.injEq, Prod.mk.injEq] at hmid
      rw [hmid.1]
  intro o ho
  have hrel := CCoinsView.outAt_release_of_not_isNull ho
  rw [hrel] at ho ⊢
  by_cases hh : o.hash = tx.hash
  · rw [if_pos hh] at ho ⊢
    rw [CCoins.outAt_fromTx_of_not_isNull ho]
    simp [outputOf, hh]
  · rw [if_neg hh] at ho ⊢
    have hne : (tx.hash == o.hash) = false := by simpa using fun h0 => hh h0.symm
    have hnow := hkeep o ho
    rw [hnow] at ho ⊢
    simp only [outputOf, List.find?_cons, hne]
    exact ht o ho

theorem valueIn_eq_inputValue {view now : CCoinsView} {earlier : List CTransaction}
    {nSpendHeight : Int} {tx : CTransaction} (ht : Traces view earlier now)
    (hin : tx.spendsCoins = true → InputsChecked ctx nSpendHeight now tx) :
    ctx.valueIn now tx = ctx.inputValue view earlier tx := by
  simp only [valueIn, inputValue]
  split
  · rfl
  · rename_i hzc
    split
    · rfl
    · rename_i hcb
      have hs : tx.spendsCoins = true := spendsCoins_iff.mpr ⟨by simpa using hcb, by simpa using hzc⟩
      have hall := (CCoinsView.haveInputs_iff hs).mp (hin hs).haveInputs
      refine congrArg List.sum (List.map_congr_left ?_)
      intro txin htx
      rw [ht _ (CCoinsView.haveInput_iff.mp (hall txin htx)).1]

theorem connectTxs_accumulates {block : CBlock} {pindex : ConnectIndex} {nSpendHeight : Int}
    {first : Bool} {vtx earlier : List CTransaction} {view : CCoinsView} {st st' : ConnectState}
    (ht : Traces view earlier st.view)
    (h : ctx.connectTxs block pindex nSpendHeight first vtx st = .ok st') :
    st'.nValueOut - st'.nValueIn =
        st.nValueOut - st.nValueIn + ctx.sumOver view (fun _ => true) earlier vtx ∧
      st'.nFees = st.nFees -
        (ctx.sumOver view (fun tx => tx.spendsCoins && tx.isCoinStake) earlier vtx +
          ctx.sumOver view (fun tx => tx.spendsCoins && !tx.isCoinStake) earlier vtx) := by
  -- induction on the transactions still to connect; `Traces` carries the values of their inputs
  induction vtx generalizing st earlier first with
  | nil =>
    simp only [connectTxs, Except.ok.injEq] at h
    simp [sumOver, h]
  | cons tx vtx ih =>
    obtain ⟨mid, hone, hrest⟩ := connectTxs_cons_eq_ok h
    obtain ⟨txundo, hup, -⟩ := hone.updated
    obtain ⟨hnet, hfees⟩ := ih (traces_updateCoins ht hup) hrest
    obtain ⟨nOut, hOut, hvOut, hvFees⟩ := hone.outputs
    have hin := valueIn_eq_inputValue ht hone.inputsChecked
    have hout : outputValue tx = nOut := (CTransaction.getValueOut_eq_sum hOut).symm
    rw [hin] at hvFees
    have hvIn := hone.nValueIn
    rw [hin] at hvIn
    simp only [sumOver, hout]
    refine ⟨by rw [hnet, hvOut, hvIn]; simp only [if_true]; omega, ?_⟩
    rw [hfees, hvFees]
    cases hs : tx.spendsCoins with
    | false => simp
    | true => cases tx.isCoinStake <;> simp <;> omega

theorem mint_eq {block : CBlock} {pindex : ConnectIndex} {view : CCoinsView} {pprev : PrevIndex}
    {st : ConnectState} {r : ConnectResult} (h : ConnectedBlock ctx block pindex view pprev st r) :
    st.nValueOut - st.nValueIn + st.nFees =
      ctx.netCreated view block.vtx -
        (ctx.stakeCreated view block.vtx - ctx.feesPaid view block.vtx) := by
  obtain ⟨hnet, hfees⟩ := connectTxs_accumulates (traces_refl view) h.txs
  simp only [netCreated, stakeCreated, feesPaid] at *
  omega

theorem issuance_bounded_iff (ctx : ConnectContext) (block : CBlock) (pindex : ConnectIndex)
    (pprev : PrevIndex) (view : CCoinsView) (hgenesis : block.hash ≠ ctx.params.hashGenesisBlock)
    (hpprev : pindex.pprev = some pprev) (hcompares : ctx.payments.ComparesAmounts)
    (haccepted : ∃ getBlockValue r, ctx.connectBlock getBlockValue block pindex view = .ok r) :
    (∀ getBlockValue r, ctx.connectBlock getBlockValue block pindex view = .ok r →
      ctx.netCreated view block.vtx ≤ getBlockValue pprev.nHeight) ↔
    ctx.stakeCreated view block.vtx ≤ ctx.feesPaid view block.vtx := by
  obtain ⟨value0, r0, h0⟩ := haccepted
  obtain ⟨pprev0, st0, hconn, -⟩ := (connectBlock_eq_ok_iff hgenesis).mp h0
  have hmint := mint_eq hconn
  constructor
  · intro hbound
    -- the block is also accepted when the reward is exactly what the code takes for its mint
    have hacc : ctx.connectBlock (fun _ => st0.nValueOut - st0.nValueIn + st0.nFees) block pindex
        view = .ok r0 := (connectBlock_eq_ok_iff hgenesis).mpr
      ⟨pprev0, st0, hconn, (PaymentContext.isBlockValueValid_iff hcompares).mpr (le_refl _)⟩
    have hle := hbound _ r0 hacc
    omega
  · intro hstake value r hr
    obtain ⟨pprev', st', hconn', hval⟩ := (connectBlock_eq_ok_iff hgenesis).mp hr
    have hp : pprev' = pprev := by
      have hparent := hconn'.parent
      rw [hpprev, Option.some.injEq] at hparent
      exact hparent.symm
    subst hp
    have hle := (PaymentContext.isBlockValueValid_iff hcompares).mp hval
    have hmint' := mint_eq hconn'
    omega

def stakeIndex : ConnectIndex where
  hash := 8
  nHeight := 600
  pprev := some ⟨7, 599, 0⟩

def stakeView : CCoinsView where
  coins := fun txid =>
    if txid = 5 then some { vout := [⟨2 * COIN, [0x51]⟩], nHeight := 100, nVersion := 1 } else none
  hashBlock := 7

def stakeBlock (reward : Int) : CBlock where
  hash := 8
  hashPrevBlock := 7
  vtx :=
    [{ hash := 20, vin := [⟨COutPoint.null, [0x02, 0x58], 0xffffffff⟩], vout := [⟨0, []⟩] },
     { hash := 21, vin := [⟨⟨5, 0⟩, [], 0xffffffff⟩], vout := [⟨0, []⟩, ⟨reward, [0x51]⟩] }]

theorem issuance_bounded_stakeBlock :
    (plainConnect.connectBlock (fun _ => 0) (stakeBlock (2 * COIN)) stakeIndex stakeView).isOk =
        true ∧
      plainConnect.netCreated stakeView (stakeBlock (2 * COIN)).vtx ≤ 0 := by
  have hok : (plainConnect.connectBlock (fun _ => 0) (stakeBlock (2 * COIN)) stakeIndex
      stakeView).isOk = true := by decide +kernel
  obtain ⟨r, hr⟩ := exists_ok_of_isOk hok
  have hbounded := (issuance_bounded_iff plainConnect (stakeBlock (2 * COIN)) stakeIndex
    ⟨7, 599, 0⟩ stakeView (by decide) rfl ⟨rfl, rfl, rfl⟩ ⟨_, r, hr⟩).mpr (by decide +kernel)
  exact ⟨hok, hbounded _ r hr⟩

theorem stakeBlock_exceeds_block_value :
    plainConnect.payments.ComparesAmounts ∧
      (plainConnect.connectBlock (fun _ => 0) (stakeBlock (1000 * COIN)) stakeIndex
        stakeView).isOk = true ∧
      0 < plainConnect.netCreated stakeView (stakeBlock (1000 * COIN)).vtx := by
  exact ⟨⟨rfl, rfl, rfl⟩, by decide +kernel, by decide +kernel⟩

end ConnectContext

end AnkerNode
