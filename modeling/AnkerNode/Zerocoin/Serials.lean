import AnkerNode.Validation.StakeIndex

namespace AnkerNode

open Checks

def blockSerials (lib : ZerocoinLib) (vtx : List CTransaction) : List Int :=
  vtx.flatMap fun tx =>
    if tx.isZerocoinSpend then (zerocoinSpends lib tx).map CoinSpend.coinSerialNumber else []

theorem spendKeys_eq_map (lib : ZerocoinLib) (vtx : List CTransaction) :
    spendKeys lib vtx = (blockSerials lib vtx).map lib.hashSerial := by
  rw [spendKeys, blockSerials, List.map_flatMap]
  refine List.flatMap_congr (fun tx _ => ?_)
  split <;> simp

theorem mem_spendRecords {lib : ZerocoinLib} {vtx : List CTransaction} {p : UInt256 × UInt256}
    (h : p ∈ spendRecords lib vtx) : ∃ tx ∈ vtx, p.2 = tx.hash := by
  obtain ⟨tx, htx, hp⟩ := List.mem_flatMap.mp h
  split at hp
  · obtain ⟨spend, -, rfl⟩ := List.mem_map.mp hp
    exact ⟨tx, htx, rfl⟩
  · simp at hp

theorem mem_spendKeys {lib : ZerocoinLib} {vtx : List CTransaction} {k : UInt256}
    (h : k ∈ spendKeys lib vtx) : ∃ tx ∈ vtx, tx.isZerocoinSpend = true ∧
      ∃ spend ∈ zerocoinSpends lib tx, lib.hashSerial spend.coinSerialNumber = k := by
  obtain ⟨tx, htx, hk⟩ := List.mem_flatMap.mp h
  split at hk
  · rename_i hz
    obtain ⟨spend, hspend, rfl⟩ := List.mem_map.mp hk
    exact ⟨tx, htx, hz, spend, hspend, rfl⟩
  · simp at hk

theorem spends_writeRecords {lib : ZerocoinLib} {vtx : List CTransaction} {k : UInt256}
    (spends : UInt256 → Option UInt256) (h : k ∈ spendKeys lib vtx) :
    ∃ tx ∈ vtx, Table.writeAll Prod.fst (fun p => some p.2) spends (spendRecords lib vtx) k =
      some tx.hash := by
  rw [← map_fst_spendRecords] at h
  obtain ⟨p, hp⟩ := Table.lastWrite_isSome h
  have hmem : p ∈ spendRecords lib vtx := List.mem_reverse.mp (List.mem_of_find?_eq_some hp)
  obtain ⟨tx, htx, heq⟩ := mem_spendRecords hmem
  refine ⟨tx, htx, ?_⟩
  rw [Table.writeAll_eq_lastWrite, hp]
  simp [heq]

namespace BlockContext

variable {ctx : BlockContext}

theorem foldlM_checkBlockSerial {spends : List CoinSpend} {seen seen' : List Int}
    (h : spends.foldlM checkBlockSerial seen = .ok seen') :
    seen' = (spends.map CoinSpend.coinSerialNumber).reverse ++ seen ∧
      (seen.Nodup → seen'.Nodup) := by
  induction spends generalizing seen with
  | nil =>
    simp only [List.foldlM_nil] at h
    obtain rfl := Except.ok.inj h
    simp
  | cons spend spends ih =>
    simp only [List.foldlM_cons, bind_eq_ok, checkBlockSerial, failIf_eq_ok, Except.ok.injEq] at h
    obtain ⟨mid, ⟨_, hnew, rfl⟩, hrest⟩ := h
    obtain ⟨rfl, hnodup⟩ := ih hrest
    refine ⟨by simp, ?_⟩
    intro hseen
    refine hnodup (List.nodup_cons.mpr ⟨?_, hseen⟩)
    simpa using hnew

theorem foldlM_contextualCheckTx_serials {vtx : List CTransaction} {seen seen' : List Int}
    (h : vtx.foldlM ctx.contextualCheckTx seen = .ok seen') :
    seen' = (blockSerials ctx.check.lib vtx).reverse ++ seen ∧ (seen.Nodup → seen'.Nodup) := by
  induction vtx generalizing seen with
  | nil =>
    simp only [List.foldlM_nil] at h
    obtain rfl := Except.ok.inj h
    simp [blockSerials]
  | cons tx vtx ih =>
    simp only [List.foldlM_cons, bind_eq_ok, contextualCheckTx] at h
    obtain ⟨mid, ⟨_, -, htx⟩, hrest⟩ := h
    obtain ⟨rfl, hnodup⟩ := ih hrest
    cases hz : tx.isZerocoinSpend with
    | false =>
      rw [hz] at htx
      obtain rfl := Except.ok.inj htx
      exact ⟨by simp [blockSerials, hz], hnodup⟩
    | true =>
      rw [hz] at htx
      obtain ⟨rfl, hmid⟩ := foldlM_checkBlockSerial htx
      exact ⟨by simp [blockSerials, hz], fun hseen => hnodup (hmid hseen)⟩

theorem blockSerials_nodup {block : CBlock} {parent : ParentIndex}
    (hstart : ctx.params.nZerocoinStartHeight < parent.nHeight + 1)
    (h : ctx.contextualCheckBlock block (some parent) = .ok ()) :
    (blockSerials ctx.check.lib block.vtx).Nodup := by
  have htxs := contextualCheckBlock_eq_ok h
  simp only [Option.map_some, Option.getD_some] at htxs
  rw [contextualCheckTxs, if_pos hstart] at htxs
  simp only [bind_eq_ok] at htxs
  obtain ⟨_, -, serials, hfold, -⟩ := htxs
  obtain ⟨rfl, hnodup⟩ := foldlM_contextualCheckTx_serials hfold
  simpa using hnodup List.nodup_nil

end BlockContext

namespace ChainState

variable {net : Network} {s s' : ChainState}

def activeSerials (net : Network) (s : ChainState) : List Int :=
  (s.chain.filter fun a => decide (net.params.nZerocoinStartHeight < a.nHeight)).flatMap fun a =>
    blockSerials net.lib a.block.vtx

-- where `GetTransaction` looks once the transaction is not in the mempool
def FoundIn (net : Network) (s : ChainState) (txid hashBlock : UInt256) : Prop :=
  if net.fTxIndex then s.txIndex txid = some hashBlock
  else ∃ coins a, s.view.accessCoins txid = some coins ∧ 0 < coins.nHeight ∧
    s.blockAt coins.nHeight = some a ∧ (∃ tx ∈ a.block.vtx, tx.hash = txid) ∧
    a.block.hash = hashBlock

def Locatable (net : Network) (s : ChainState) (mempool : UInt256 → Bool) (txid : UInt256) : Prop :=
  mempool txid = false ∧ ∃ a ∈ s.chain, a.block.hash ≠ 0 ∧ s.FoundIn net txid a.block.hash

theorem getTransaction_eq_some_iff {mempool : UInt256 → Bool} {txid hashBlock : UInt256}
    (hblock : hashBlock ≠ 0) :
    s.getTransaction net mempool txid = some hashBlock ↔
      mempool txid = false ∧ s.FoundIn net txid hashBlock := by
  simp only [getTransaction, FoundIn]
  cases hpool : mempool txid with
  | true =>
    simp only [if_true, Option.some.injEq, Bool.true_eq_false, false_and, iff_false]
    exact hblock.symm
  | false =>
    cases hindex : net.fTxIndex with
    | true => simp
    | false =>
      simp only [Bool.false_eq_true, if_false, true_and, Option.bind_eq_bind,
        Option.bind_eq_some_iff]
      constructor
      · rintro ⟨coins, hcoins, h⟩
        split at h
        · rename_i hheight
          simp only [Option.bind_eq_some_iff, List.any_eq_true, beq_iff_eq,
            Option.ite_none_right_eq_some, Option.some.injEq] at h
          obtain ⟨a, ha, htx, heq⟩ := h
          exact ⟨coins, a, hcoins, hheight, ha, htx, heq⟩
        · simp at h
      · rintro ⟨coins, a, hcoins, hheight, ha, htx, heq⟩
        refine ⟨coins, hcoins, ?_⟩
        rw [if_pos hheight, ha]
        simp only [Option.bind_some, List.any_eq_true, beq_iff_eq]
        rw [if_pos htx, heq]

theorem isTransactionInChain_isSome_iff {mempool : UInt256 → Bool} {txid : UInt256} :
    (s.isTransactionInChain net mempool txid).isSome = true ↔ s.Locatable net mempool txid := by
  simp only [isTransactionInChain, Option.isSome_iff_exists, Option.bind_eq_bind,
    Option.bind_eq_some_iff]
  constructor
  · rintro ⟨nHeight, hashBlock, hget, hfind⟩
    split at hfind
    · simp at hfind
    · rename_i hne
      obtain ⟨a, ha, -⟩ := Option.bind_eq_some_iff.mp hfind
      have heq : a.block.hash = hashBlock := by simpa using List.find?_some ha
      subst heq
      obtain ⟨hpool, hfound⟩ := (getTransaction_eq_some_iff hne).mp hget
      exact ⟨hpool, a, List.mem_of_find?_eq_some ha, hne, hfound⟩
  · rintro ⟨hpool, a, ha, hne, hfound⟩
    have hsome : (s.chain.find? fun b => b.block.hash == a.block.hash).isSome = true :=
      List.find?_isSome.mpr ⟨a, ha, by simp⟩
    obtain ⟨b, hb⟩ := Option.isSome_iff_exists.mp hsome
    refine ⟨b.nHeight, a.block.hash, (getTransaction_eq_some_iff hne).mpr ⟨hpool, hfound⟩, ?_⟩
    rw [if_neg hne, hb]
    rfl

def Carries (net : Network) (s : ChainState) (a : ActiveBlock) (k : UInt256) : Prop :=
  a ∈ s.chain ∧ net.params.nZerocoinStartHeight < a.nHeight ∧ k ∈ spendKeys net.lib a.block.vtx

structure SerialsSound (net : Network) (s : ChainState) : Prop where
  linked : Linked net s
  recorded : ∀ a k, s.Carries net a k →
    ∃ tx ∈ a.block.vtx, s.zerocoinDB.spends k = some tx.hash
  apart : s.chain.Pairwise fun a b => net.params.nZerocoinStartHeight < b.nHeight →
    ∀ k ∈ spendKeys net.lib a.block.vtx, k ∉ spendKeys net.lib b.block.vtx
  distinct : ∀ a ∈ s.chain, net.params.nZerocoinStartHeight < a.nHeight →
    (blockSerials net.lib a.block.vtx).Nodup

theorem SerialsSound.nodup (h : SerialsSound net s) : (s.activeSerials net).Nodup := by
  rw [activeSerials, List.nodup_flatMap]
  refine ⟨?_, ?_⟩
  · intro a ha
    obtain ⟨ha, habove⟩ := List.mem_filter.mp ha
    exact h.distinct a ha (by simpa using habove)
  · refine (h.apart.filter _).imp_of_mem ?_
    intro a b _ hb hapart serial hin hin'
    have habove := (List.mem_filter.mp hb).2
    refine hapart (by simpa using habove) (net.lib.hashSerial serial) ?_ ?_
    · rw [spendKeys_eq_map]
      exact List.mem_map_of_mem hin
    · rw [spendKeys_eq_map]
      exact List.mem_map_of_mem hin'

def ContextChecked (net : Network) (s : ChainState) (block : CBlock) : Prop :=
  net.params.nZerocoinStartHeight < s.height + 1 → ∃ (ctx : BlockContext) (parent : ParentIndex),
    ctx.params = net.params ∧ ctx.check.lib = net.lib ∧ parent.nHeight = s.height ∧
      ctx.contextualCheckBlock block (some parent) = .ok ()

-- A serial of the block that an active block carries is recorded for a transaction that
-- `GetTransaction` still finds there.
def SerialsLocated (net : Network) (s : ChainState) (mempool : UInt256 → Bool) (block : CBlock) :
    Prop :=
  ∀ a, ∀ k ∈ spendKeys net.lib block.vtx, s.Carries net a k →
    ∀ txid, s.zerocoinDB.spends k = some txid → s.Locatable net mempool txid

def SerialsKept (net : Network) (s : ChainState) : ChainOp → Prop
  | .connect mempool ctx getBlockValue block =>
    (s.connect net mempool ctx getBlockValue block).isOk = true →
      s.ContextChecked net block ∧ s.SerialsLocated net mempool block
  | .disconnect _ _ => True

theorem isSerialInBlockchain_of_spend {ctx : ConnectContext} {bnSerial : Int} {txid : UInt256}
    (h : ctx.zerocoinDB.spends (ctx.lib.hashSerial bnSerial) = some txid) :
    ctx.isSerialInBlockchain bnSerial = (ctx.isTransactionInChain txid).isSome := by
  rw [ConnectContext.isSerialInBlockchain, h]

theorem not_locatable_of_connectBlock {mempool : UInt256 → Bool} {ctx : ConnectContext}
    {getBlockValue : Int → Int} {block : CBlock} {r : ConnectContext.ConnectResult}
    (hne : block.hash ≠ net.params.hashGenesisBlock)
    (h : (s.context net mempool ctx).connectBlock getBlockValue block
      (blockIndex s.chain.head? block (s.height + 1)) s.view = .ok r)
    {k txid : UInt256} (hk : k ∈ spendKeys net.lib block.vtx)
    (htxid : s.zerocoinDB.spends k = some txid) : ¬ s.Locatable net mempool txid := by
  obtain ⟨pprev, st, hc, -⟩ := (ConnectContext.connectBlock_eq_ok_iff hne).mp h
  obtain ⟨tx, htx, hz, spend, hspend, rfl⟩ := mem_spendKeys hk
  have hcheck := ((ConnectContext.connectTxs_checked hc.txs tx htx).1 hz).spends spend hspend
  simp only [ConnectContext.contextualCheckZerocoinSpend, Bool.and_eq_true, Bool.not_eq_true']
    at hcheck
  have hlookup := hcheck.1.2
  rw [isSerialInBlockchain_of_spend htxid] at hlookup
  rw [← isTransactionInChain_isSome_iff]
  exact ne_true_of_eq_false hlookup

theorem SerialsSound.fresh_iff (h : SerialsSound net s) {mempool : UInt256 → Bool}
    {ctx : ConnectContext} {getBlockValue : Int → Int} {block : CBlock}
    {r : ConnectContext.ConnectResult} (hne : block.hash ≠ net.params.hashGenesisBlock)
    (hr : (s.context net mempool ctx).connectBlock getBlockValue block
      (blockIndex s.chain.head? block (s.height + 1)) s.view = .ok r) :
    (∀ a, ∀ k ∈ spendKeys net.lib block.vtx, ¬ s.Carries net a k) ↔
      s.SerialsLocated net mempool block := by
  constructor
  · intro hfresh a k hk hcarries
    exact absurd hcarries (hfresh a k hk)
  · intro hlocated a k hk hcarries
    obtain ⟨tx, -, hrecorded⟩ := h.recorded a k hcarries
    exact not_locatable_of_connectBlock hne hr hk hrecorded
      (hlocated a k hk hcarries tx.hash hrecorded)

theorem nodup_of_contextChecked {block : CBlock} (h : s.ContextChecked net block)
    (hstart : net.params.nZerocoinStartHeight < s.height + 1) :
    (blockSerials net.lib block.vtx).Nodup := by
  obtain ⟨ctx, parent, hparams, hlib, hparent, hcheck⟩ := h hstart
  rw [← hlib]
  refine BlockContext.blockSerials_nodup ?_ hcheck
  rw [hparams, hparent]
  exact hstart

theorem SerialsSound.extended (h : SerialsSound net s) {mempool : UInt256 → Bool}
    {ctx : ConnectContext} {getBlockValue : Int → Int} {block : CBlock}
    {r : ConnectContext.ConnectResult} (hne : block.hash ≠ net.params.hashGenesisBlock)
    (hr : (s.context net mempool ctx).connectBlock getBlockValue block
      (blockIndex s.chain.head? block (s.height + 1)) s.view = .ok r)
    (hlinked : Linked net (s.extended net block r)) (hchecked : s.ContextChecked net block)
    (hfresh : ∀ a, ∀ k ∈ spendKeys net.lib block.vtx, ¬ s.Carries net a k) :
    SerialsSound net (s.extended net block r) := by
  have hdb := ConnectContext.zerocoinDB_of_connectBlock rfl hne hr
  have hother := (ConnectContext.connectBlock_records rfl hne hr).spends
  refine ⟨hlinked, ?_, ?_, ?_⟩
  · rintro a k ⟨ha, habove, hk⟩
    change ∃ tx ∈ a.block.vtx, r.zerocoinDB.spends k = some tx.hash
    rcases List.mem_cons.mp ha with rfl | ha
    · rw [hdb]
      exact spends_writeRecords s.zerocoinDB.spends hk
    · have hold : s.Carries net a k := ⟨ha, habove, hk⟩
      rw [hother k (fun hin => hfresh a k hin hold)]
      exact h.recorded a k hold
  · refine List.pairwise_cons.mpr ⟨?_, h.apart⟩
    intro b hb habove k hk hk'
    exact hfresh b k hk ⟨hb, habove, hk'⟩
  · intro a ha habove
    rcases List.mem_cons.mp ha with rfl | ha
    · exact nodup_of_contextChecked hchecked habove
    · exact h.distinct a ha habove

theorem SerialsSound.genesis (h : SerialsSound net s) {block : CBlock} (hfresh : s.Fresh block)
    (hstart : 0 ≤ net.params.nZerocoinStartHeight)
    (hgenesis : block.hash = net.params.hashGenesisBlock) (r : ConnectContext.ConnectResult)
    (hlinked : Linked net { s with
      chain := ⟨block, s.height + 1, r.nMoneySupply⟩ :: s.chain
      view := r.view }) :
    SerialsSound net { s with
      chain := ⟨block, s.height + 1, r.nMoneySupply⟩ :: s.chain
      view := r.view } := by
  have hnil := h.linked.nil_of_genesis hfresh hgenesis
  have hbelow : ∀ a ∈ (⟨block, s.height + 1, r.nMoneySupply⟩ : ActiveBlock) :: s.chain,
      ¬ net.params.nZerocoinStartHeight < a.nHeight := by
    intro a ha
    simp only [hnil, List.mem_singleton] at ha
    simp only [ha, height, hnil, List.head?_nil, Option.map_none, Option.getD_none]
    omega
  refine ⟨hlinked, ?_, ?_, ?_⟩
  · rintro a k ⟨ha, habove, -⟩
    exact absurd habove (hbelow a ha)
  · rw [hnil]
    exact List.pairwise_singleton _ _
  · intro a ha habove
    exact absurd habove (hbelow a ha)

theorem SerialsSound.disconnect (h : SerialsSound net s) {a b : ActiveBlock}
    {chain : List ActiveBlock} {ctx : DisconnectContext} {db : ZerocoinDB}
    (hchain : s.chain = a :: b :: chain) (hlib : ctx.lib = net.lib)
    (hdb : ctx.undoZerocoinTxs a.block.vtx s.zerocoinDB = .ok db)
    (hlinked : Linked net s') (hchain' : s'.chain = b :: chain) (hdb' : s'.zerocoinDB = db) :
    SerialsSound net s' := by
  have hforget := DisconnectContext.undoZerocoinTxs_forgets hdb
  have hapart := h.apart
  rw [hchain, List.pairwise_cons] at hapart
  have hmem : ∀ x ∈ b :: chain, x ∈ s.chain := by
    intro x hx
    rw [hchain]
    exact List.mem_cons_of_mem a hx
  refine ⟨hlinked, ?_, ?_, ?_⟩
  · rintro x k ⟨hx, habove, hk⟩
    rw [hchain'] at hx
    obtain ⟨tx, htx, hrecorded⟩ := h.recorded x k ⟨hmem x hx, habove, hk⟩
    refine ⟨tx, htx, ?_⟩
    rw [hdb', hforget, hlib]
    simp only
    rw [if_neg (fun hin => hapart.1 x hx habove k hin hk)]
    exact hrecorded
  · rw [hchain']
    exact hapart.2
  · intro x hx
    rw [hchain'] at hx
    exact h.distinct x (hmem x hx)

theorem SerialsSound.step {op : ChainOp} (h : SerialsSound net s)
    (hstart : 0 ≤ net.params.nZerocoinStartHeight) (hcond : SerialsKept net s op)
    (hstep : Step net s op s') : SerialsSound net s' := by
  have hlinked := h.linked.step hstep
  cases hstep with
  | connect hfresh hs =>
    obtain ⟨hchecked, hlocated⟩ := hcond (by rw [hs]; rfl)
    obtain ⟨r, hr, ⟨heq, rfl⟩ | ⟨hne, a, chain, fOk, -, -, rfl⟩⟩ := connect_cases hs
    · exact h.genesis hfresh hstart heq r hlinked
    · exact h.extended hne hr hlinked hchecked ((h.fresh_iff hne hr).mpr hlocated)
  | @connectFails mempool ctx _ block _ _ _ =>
    exact afterFailure_keeps h mempool ctx block fun _ =>
      ⟨⟨h.linked.heights, h.linked.genesis⟩, h.recorded, h.apart, h.distinct⟩
  | disconnect hs =>
    obtain ⟨a, b, chain, d, hchain, hd, rfl⟩ := disconnect_cases hs
    exact h.disconnect hchain rfl (DisconnectContext.zerocoinDB_of_disconnectBlock hd) hlinked rfl rfl

theorem serials_spent_once (net : Network) (hstart : 0 ≤ net.params.nZerocoinStartHeight)
    (s : ChainState) (h : Reachable net (SerialsKept net) s) :
    (s.activeSerials net).Nodup ∧
      ∀ (mempool : UInt256 → Bool) (ctx : ConnectContext) (getBlockValue : Int → Int)
        (block : CBlock) (s' : ChainState), block.hash ≠ net.params.hashGenesisBlock →
        s.connect net mempool ctx getBlockValue block = .ok s' →
          ((∀ a ∈ s.chain, net.params.nZerocoinStartHeight < a.nHeight →
              ∀ k ∈ spendKeys net.lib block.vtx, k ∉ spendKeys net.lib a.block.vtx) ↔
            s.SerialsLocated net mempool block) := by
  have hsound : SerialsSound net s := by
    induction h with
    | start => exact ⟨⟨by simp, by simp⟩, by simp [Carries], by simp, by simp⟩
    | step op _ hcond hstep ih => exact ih.step hstart hcond hstep
  refine ⟨hsound.nodup, ?_⟩
  intro mempool ctx getBlockValue block s' hne hs
  obtain ⟨r, hr, ⟨heq, -⟩ | -⟩ := connect_cases hs
  · exact absurd heq hne
  · rw [← hsound.fresh_iff hne hr]
    constructor
    · rintro hfresh a k hk ⟨ha, habove, hk'⟩
      exact hfresh a ha habove k hk hk'
    · intro hfresh a ha habove k hk hk'
      exact hfresh a k hk ⟨ha, habove, hk'⟩

def provedLib : ZerocoinLib := { unbackedLib with verify := fun _ _ => true }

def prunedNet : Network where
  params := { hashGenesisBlock := 1 }
  lib := provedLib
  fTxIndex := false

def prunedContext : BlockContext :=
  { BlockContext.syncing prunedNet.params with
    check :=
      { params := prunedNet.params
        lib := provedLib
        fVerifySignature := true
        readAccumulatorValue := fun _ => some 1 } }

def coinBaseOf (nBlock : Nat) : CTransaction where
  hash := BitVec.ofNat 256 (1000 + nBlock)
  vin := [⟨COutPoint.null, [0x51, 0x51], 0xffffffff⟩]
  vout := [⟨0, [OP_RETURN]⟩]

def blockWith (nBlock : Nat) (tx : CTransaction) : CBlock where
  hash := BitVec.ofNat 256 (nBlock + 1)
  hashPrevBlock := BitVec.ofNat 256 nBlock
  nVersion := 4
  vtx := [coinBaseOf nBlock, tx]

def spendOne (hash : UInt256) : CTransaction where
  hash := hash
  vin := [⟨⟨0, 0⟩, [OP_ZEROCOINSPEND], 1⟩]
  vout := [⟨COIN, [0x51]⟩]

def moveOutput (hash prev : UInt256) : CTransaction where
  hash := hash
  vin := [⟨⟨prev, 0⟩, [], 0xffffffff⟩]
  vout := [⟨COIN, [0x51]⟩]

def connectWhile (net : Network) (test : ChainState → CBlock → Bool) :
    List CBlock → ChainState → Option ChainState
  | [], s => some s
  | block :: blocks, s =>
    if test s block then
      (connectAll net ConnectContext.plainConnect [block] s).bind (connectWhile net test blocks)
    else none

theorem reachable_connectWhile {Cond : ChainState → ChainOp → Prop}
    {test : ChainState → CBlock → Bool} {blocks : List CBlock} (hs : Reachable net Cond s)
    (hcond : ∀ s block, test s block = true →
      Cond s (.connect (fun _ => false) ConnectContext.plainConnect (fun _ => 0) block))
    (h : connectWhile net test blocks s = some s') : Reachable net Cond s' := by
  induction blocks generalizing s with
  | nil =>
    obtain rfl := Option.some.inj h
    exact hs
  | cons block blocks ih =>
    simp only [connectWhile] at h
    split at h
    · rename_i htest
      obtain ⟨mid, hmid, hrest⟩ := Option.bind_eq_some_iff.mp h
      obtain ⟨hfresh, t, ht, hnil⟩ := connectAll_cons hmid
      obtain rfl := Option.some.inj hnil
      exact ih (.step _ hs (hcond s block htest) (.connect hfresh ht)) hrest
    · simp at h

def contextTest (s : ChainState) (block : CBlock) : Bool :=
  decide (s.height + 1 ≤ prunedNet.params.nZerocoinStartHeight) ||
    (prunedContext.contextualCheckBlock block (some ⟨s.height, 900, []⟩)).isOk

theorem contextChecked_of_test {block : CBlock} (h : contextTest s block = true) :
    s.ContextChecked prunedNet block := by
  intro hstart
  simp only [contextTest, Bool.or_eq_true, decide_eq_true_eq] at h
  obtain ⟨u, hu⟩ := exists_ok_of_isOk (h.resolve_left (by omega))
  exact ⟨prunedContext, ⟨s.height, 900, []⟩, rfl, rfl, rfl, hu⟩

def freshTest (s : ChainState) (block : CBlock) : Bool :=
  contextTest s block && s.chain.all fun a =>
    (spendKeys provedLib block.vtx).all fun k => !(spendKeys provedLib a.block.vtx).contains k

theorem serialsKept_of_test {mempool : UInt256 → Bool} {ctx : ConnectContext}
    {getBlockValue : Int → Int} {block : CBlock} (h : freshTest s block = true) :
    SerialsKept prunedNet s (.connect mempool ctx getBlockValue block) := by
  simp only [freshTest, Bool.and_eq_true, List.all_eq_true, Bool.not_eq_true',
    List.contains_eq_mem, decide_eq_false_iff_not] at h
  intro _
  refine ⟨contextChecked_of_test h.1, ?_⟩
  rintro a k hk ⟨ha, -, hk'⟩
  exact absurd hk' (h.2 a ha k hk)

def earlyBlocks : List CBlock := genesisBlock :: (List.range 101).map fun n => emptyBlock (n + 1)

theorem serials_spent_once_spend :
    ∃ s, connectWhile prunedNet freshTest
        (earlyBlocks ++ [blockWith 102 (spendOne 50), blockWith 103 (moveOutput 51 50)]) {} = some s ∧
      s.height = 103 ∧ (s.activeSerials prunedNet).Nodup := by
  have hrun : (connectWhile prunedNet freshTest
      (earlyBlocks ++ [blockWith 102 (spendOne 50), blockWith 103 (moveOutput 51 50)]) {}).map
        height = some 103 := by decide +kernel
  obtain ⟨s, hs, hheight⟩ := Option.map_eq_some_iff.mp hrun
  have hreach : Reachable prunedNet (SerialsKept prunedNet) s :=
    reachable_connectWhile .start (fun _ _ htest => serialsKept_of_test htest) hs
  exact ⟨s, hs, hheight, (serials_spent_once prunedNet (by decide) s hreach).1⟩

theorem pruned_serial_spent_twice :
    ∃ s, Reachable prunedNet (fun s op => ∀ mempool ctx getBlockValue block,
        op = .connect mempool ctx getBlockValue block → s.ContextChecked prunedNet block) s ∧
      s.activeSerials prunedNet = [1, 1] := by
  have hrun : (connectWhile prunedNet contextTest
      (earlyBlocks ++ [blockWith 102 (spendOne 50), blockWith 103 (moveOutput 51 50),
        blockWith 104 (spendOne 52)]) {}).map (activeSerials prunedNet) = some [1, 1] := by
    decide +kernel
  obtain ⟨s, hs, hserials⟩ := Option.map_eq_some_iff.mp hrun
  refine ⟨s, reachable_connectWhile .start ?_ hs, hserials⟩
  intro t block htest mempool ctx getBlockValue block' heq
  injection heq with _ _ _ hblock
  rw [← hblock]
  exact contextChecked_of_test htest

-- Below the serial context the test passes every block without a spend.
example : ((connectWhile prunedNet freshTest [genesisBlock, emptyBlock 1] {}).map height) =
    some 1 := by decide +kernel

end ChainState

end AnkerNode
