import AnkerNode.Validation.DisconnectInverse
import AnkerNode.Zerocoin.Supply

namespace AnkerNode

open Checks

structure ActiveBlock where
  block : CBlock
  nHeight : Int
  nMoneySupply : Int

abbrev StakeIndex := COutPoint → Option Int

-- What ConnectBlock and DisconnectBlock read and write: the blocks of chainActive with the tip
-- first, pcoinsTip, and the tables the node keeps beside it.
structure ChainState where
  chain : List ActiveBlock := []
  view : CCoinsView := ⟨fun _ => none, 0⟩
  zerocoinDB : ZerocoinDB := ⟨fun _ => none, fun _ => none⟩
  mapStakeSpent : StakeIndex := fun _ => none
  txIndex : UInt256 → Option UInt256 := fun _ => none
  supply : UInt256 → ZerocoinSupply := fun _ => ZerocoinSupply.zero

def CBlock.ordinaryInputs (block : CBlock) : List COutPoint :=
  (block.vtx.filter CTransaction.spendsCoins).flatMap CTransaction.prevouts

namespace StakeIndex

def insert (stake : StakeIndex) (nHeight : Int) (o : COutPoint) : StakeIndex :=
  Function.update stake o ((stake o).orElse fun _ => some nHeight)

def erase (stake : StakeIndex) (o : COutPoint) : StakeIndex := Function.update stake o none

def connect (params : ChainParams) (stake : StakeIndex) (block : CBlock) (nHeight : Int) :
    StakeIndex := fun o =>
  (block.ordinaryInputs.foldl (fun m => insert m nHeight) stake o).filter fun h =>
    decide (nHeight - params.nMaxReorganizationDepth ≤ h)

def disconnect (stake : StakeIndex) (block : CBlock) : StakeIndex :=
  block.ordinaryInputs.reverse.foldl erase stake

end StakeIndex

namespace ConnectContext

variable (ctx : ConnectContext)

-- ConnectBlock up to and with its loop over the transactions, nothing for the genesis block
def connectLoop (block : CBlock) (pindex : ConnectIndex) (view : CCoinsView) :
    Except Failure (Option (PrevIndex × ConnectState)) := do
  onlyIf (!ctx.fAlreadyChecked) (ctx.checkBlock block)
  failIf ((pindex.pprev.map PrevIndex.hash).getD 0 != view.hashBlock) Failure.assertion
  if block.hash = ctx.params.hashGenesisBlock then .ok none
  else do
    ctx.checkPhase block pindex
    failIf (enforceBIP30 pindex && overwrites view block)
      (Failure.doS 100 REJECT_INVALID "bad-txns-BIP30")
    let pprev ← fromOption Failure.assertion pindex.pprev
    let st ← ctx.connectTxs block pindex (pprev.nHeight + 1) true block.vtx { view := view }
    .ok (some (pprev, st))

def afterLoop (getBlockValue : Int → Int) (block : CBlock) (pindex : ConnectIndex)
    (view : CCoinsView) : Option (PrevIndex × ConnectState) → Except Failure ConnectResult
  | none => .ok ⟨view.setBestBlock pindex.hash, 0, 0, {}, ctx.zerocoinDB, []⟩
  | some (pprev, st) => do
    ctx.checkBlockValue getBlockValue block pprev st
    ctx.commit pindex pprev st

theorem connectBlock_eq_afterLoop (getBlockValue : Int → Int) (block : CBlock)
    (pindex : ConnectIndex) (view : CCoinsView) :
    ctx.connectBlock getBlockValue block pindex view =
      ctx.connectLoop block pindex view >>= ctx.afterLoop getBlockValue block pindex view := by
  simp only [connectBlock, connectLoop, bind_assoc]
  split
  · rfl
  · simp only [bind_assoc]
    rfl

end ConnectContext

structure Network where
  params : ChainParams
  lib : ZerocoinLib
  fTxIndex : Bool

namespace ChainState

variable (net : Network) (s : ChainState)

def prevIndex (a : ActiveBlock) : PrevIndex := ⟨a.block.hash, a.nHeight, a.nMoneySupply⟩

def blockIndex (prev : Option ActiveBlock) (block : CBlock) (nHeight : Int) : ConnectIndex where
  hash := block.hash
  nHeight := nHeight
  pprev := prev.map prevIndex

def height : Int := (s.chain.head?.map ActiveBlock.nHeight).getD (-1)

def blockAt (nHeight : Int) : Option ActiveBlock := s.chain.find? fun a => a.nHeight == nHeight

-- the hash of the block the transaction is found in, which stays zero for one in the mempool
def getTransaction (mempool : UInt256 → Bool) (hash : UInt256) : Option UInt256 :=
  if mempool hash then some 0
  else if net.fTxIndex then s.txIndex hash
  else do
    let coins ← s.view.accessCoins hash
    let a ← if 0 < coins.nHeight then s.blockAt coins.nHeight else none
    if a.block.vtx.any fun tx => tx.hash == hash then some a.block.hash else none

def isTransactionInChain (mempool : UInt256 → Bool) (txId : UInt256) : Option Int := do
  let hashBlock ← s.getTransaction net mempool txId
  let a ← if hashBlock = 0 then none else s.chain.find? fun a => a.block.hash == hashBlock
  some a.nHeight

def context (mempool : UInt256 → Bool) (ctx : ConnectContext) : ConnectContext :=
  { ctx with
    params := net.params
    lib := net.lib
    fTxIndex := net.fTxIndex
    fJustCheck := false
    zerocoinDB := s.zerocoinDB
    isTransactionInChain := s.isTransactionInChain net mempool }

def updatedSupply (prev : Option ActiveBlock) (block : CBlock) :
    ZerocoinSupply × Except Failure Bool :=
  match prev with
  | none => (s.supply block.hash, .ok true)
  | some a => updateZANKSupply net.lib block a.block.nVersion (s.supply a.block.hash)
      (s.supply block.hash)

def afterSupply (prev : Option ActiveBlock) (block : CBlock) : ChainState :=
  { s with supply := Function.update s.supply block.hash (s.updatedSupply net prev block).1 }

def recorded (prev : Option ActiveBlock) (block : CBlock) (nHeight : Int)
    (r : ConnectContext.ConnectResult) : ChainState :=
  { s.afterSupply net prev block with
    zerocoinDB := r.zerocoinDB
    mapStakeSpent := s.mapStakeSpent.connect net.params block nHeight
    txIndex := fun txid => if txid ∈ r.vPosTxid then some block.hash else s.txIndex txid }

def connectBlock (mempool : UInt256 → Bool) (ctx : ConnectContext) (getBlockValue : Int → Int)
    (prev : Option ActiveBlock) (block : CBlock) (nHeight : Int) (coins : CCoinsView) :
    Except Failure (ChainState × ConnectContext.ConnectResult) := do
  let pindex := blockIndex prev block nHeight
  let ctx := s.context net mempool ctx
  let loop ← ctx.connectLoop block pindex coins
  match loop with
  | none => do
    let r ← ctx.afterLoop getBlockValue block pindex coins none
    .ok (s, r)
  | some p => do
    let _ ← (s.updatedSupply net prev block).2
    let r ← ctx.afterLoop getBlockValue block pindex coins (some p)
    .ok (s.recorded net prev block nHeight r, r)

def connect (mempool : UInt256 → Bool) (ctx : ConnectContext) (getBlockValue : Int → Int)
    (block : CBlock) : Except Failure ChainState := do
  let (s', r) ← s.connectBlock net mempool ctx getBlockValue s.chain.head? block (s.height + 1)
    s.view
  .ok { s' with chain := ⟨block, s.height + 1, r.nMoneySupply⟩ :: s.chain, view := r.view }

-- a call that fails after its loop has already changed the supply of the block's index entry
def afterFailure (mempool : UInt256 → Bool) (ctx : ConnectContext) (block : CBlock) : ChainState :=
  match (s.context net mempool ctx).connectLoop block
    (blockIndex s.chain.head? block (s.height + 1)) s.view with
  | .ok (some _) => s.afterSupply net s.chain.head? block
  | _ => s

def disconnect (ctx : DisconnectContext) (undoFile : Option (List UInt8)) :
    Except Failure ChainState :=
  match s.chain with
  | a :: b :: chain => do
    let d ← { ctx with lib := net.lib : DisconnectContext }.disconnectBlock a.block
      (blockIndex (some b) a.block a.nHeight) (prevIndex b) undoFile s.view s.zerocoinDB
    failIf (!d.fClean) (Failure.rejected {})
    .ok { s with
      chain := b :: chain
      view := d.view
      zerocoinDB := d.zerocoinDB
      mapStakeSpent := s.mapStakeSpent.disconnect a.block }
  | _ => .error Failure.assertion

end ChainState

inductive ChainOp where
  | connect (mempool : UInt256 → Bool) (ctx : ConnectContext) (getBlockValue : Int → Int)
      (block : CBlock)
  | disconnect (ctx : DisconnectContext) (undoFile : Option (List UInt8))

namespace ChainState

def Fresh (s : ChainState) (block : CBlock) : Prop := ∀ a ∈ s.chain, a.block.hash ≠ block.hash

-- ConnectTip is called for a child of the tip, never for a block that is active already
inductive Step (net : Network) : ChainState → ChainOp → ChainState → Prop where
  | connect {s s' : ChainState} {mempool : UInt256 → Bool} {ctx : ConnectContext}
      {getBlockValue : Int → Int} {block : CBlock} (hfresh : s.Fresh block)
      (h : s.connect net mempool ctx getBlockValue block = .ok s') :
      Step net s (.connect mempool ctx getBlockValue block) s'
  | connectFails {s : ChainState} {mempool : UInt256 → Bool} {ctx : ConnectContext}
      {getBlockValue : Int → Int} {block : CBlock} {e : Failure} (hfresh : s.Fresh block)
      (h : s.connect net mempool ctx getBlockValue block = .error e) :
      Step net s (.connect mempool ctx getBlockValue block) (s.afterFailure net mempool ctx block)
  | disconnect {s s' : ChainState} {ctx : DisconnectContext} {undoFile : Option (List UInt8)}
      (h : s.disconnect net ctx undoFile = .ok s') : Step net s (.disconnect ctx undoFile) s'

inductive Reachable (net : Network) (Cond : ChainState → ChainOp → Prop) : ChainState → Prop where
  | start : Reachable net Cond {}
  | step {s s' : ChainState} (op : ChainOp) (h : Reachable net Cond s) (hcond : Cond s op)
      (hstep : Step net s op s') : Reachable net Cond s'

variable {net : Network} {s s' : ChainState}

theorem connectLoop_eq_ok_none {ctx : ConnectContext} {block : CBlock} {pindex : ConnectIndex}
    {view : CCoinsView} (h : ctx.connectLoop block pindex view = .ok none) :
    block.hash = ctx.params.hashGenesisBlock := by
  simp only [ConnectContext.connectLoop, bind_eq_ok] at h
  obtain ⟨-, -, -, -, h⟩ := h
  split at h
  · assumption
  · simp [bind_eq_ok] at h

theorem connectLoop_eq_ok_some {ctx : ConnectContext} {block : CBlock} {pindex : ConnectIndex}
    {view : CCoinsView} {p : PrevIndex × ConnectState}
    (h : ctx.connectLoop block pindex view = .ok (some p)) :
    block.hash ≠ ctx.params.hashGenesisBlock ∧ pindex.pprev = some p.1 := by
  simp only [ConnectContext.connectLoop, bind_eq_ok] at h
  obtain ⟨-, -, -, -, h⟩ := h
  split at h
  · simp at h
  · rename_i hne
    simp only [bind_eq_ok, fromOption_eq_ok, Except.ok.injEq, Option.some.injEq] at h
    obtain ⟨-, -, -, -, pprev, hprev, st, -, rfl⟩ := h
    exact ⟨hne, hprev⟩

theorem connectBlock_cases {mempool : UInt256 → Bool} {ctx : ConnectContext}
    {getBlockValue : Int → Int} {prev : Option ActiveBlock} {block : CBlock} {nHeight : Int}
    {coins : CCoinsView} {r : ConnectContext.ConnectResult}
    (h : s.connectBlock net mempool ctx getBlockValue prev block nHeight coins = .ok (s', r)) :
    (s.context net mempool ctx).connectBlock getBlockValue block (blockIndex prev block nHeight)
        coins = .ok r ∧
      ((block.hash = net.params.hashGenesisBlock ∧ s' = s) ∨
        (block.hash ≠ net.params.hashGenesisBlock ∧ (∃ a, prev = some a) ∧
          (∃ fOk, (s.updatedSupply net prev block).2 = .ok fOk) ∧
          s' = s.recorded net prev block nHeight r)) := by
  simp only [connectBlock, bind_eq_ok] at h
  rw [ConnectContext.connectBlock_eq_afterLoop]
  obtain ⟨loop, hloop, h⟩ := h
  cases loop with
  | none =>
    simp only [bind_eq_ok, Except.ok.injEq, Prod.mk.injEq] at h
    obtain ⟨r, hr, rfl, rfl⟩ := h
    exact ⟨by rw [hloop]; exact hr, .inl ⟨connectLoop_eq_ok_none hloop, rfl⟩⟩
  | some p =>
    simp only [bind_eq_ok, Except.ok.injEq, Prod.mk.injEq] at h
    obtain ⟨fOk, hsupply, r, hr, rfl, rfl⟩ := h
    obtain ⟨hne, hprev⟩ := connectLoop_eq_ok_some hloop
    obtain ⟨a, ha, -⟩ := Option.map_eq_some_iff.mp hprev
    exact ⟨by rw [hloop]; exact hr, .inr ⟨hne, ⟨a, ha⟩, ⟨fOk, hsupply⟩, rfl⟩⟩

def extended (net : Network) (s : ChainState) (block : CBlock)
    (r : ConnectContext.ConnectResult) : ChainState :=
  { s.recorded net s.chain.head? block (s.height + 1) r with
    chain := ⟨block, s.height + 1, r.nMoneySupply⟩ :: s.chain
    view := r.view }

theorem connect_cases {mempool : UInt256 → Bool} {ctx : ConnectContext} {getBlockValue : Int → Int}
    {block : CBlock} (h : s.connect net mempool ctx getBlockValue block = .ok s') :
    ∃ r, (s.context net mempool ctx).connectBlock getBlockValue block
        (blockIndex s.chain.head? block (s.height + 1)) s.view = .ok r ∧
      ((block.hash = net.params.hashGenesisBlock ∧
        s' = { s with
          chain := ⟨block, s.height + 1, r.nMoneySupply⟩ :: s.chain
          view := r.view }) ∨
      (block.hash ≠ net.params.hashGenesisBlock ∧ ∃ a chain fOk, s.chain = a :: chain ∧
        (s.updatedSupply net (some a) block).2 = .ok fOk ∧ s' = s.extended net block r)) := by
  simp only [connect, bind_eq_ok, Except.ok.injEq] at h
  obtain ⟨⟨mid, r⟩, hmid, rfl⟩ := h
  obtain ⟨hr, hcases⟩ := connectBlock_cases hmid
  refine ⟨r, hr, ?_⟩
  obtain ⟨heq, rfl⟩ | ⟨hne, ⟨a, ha⟩, ⟨fOk, hok⟩, rfl⟩ := hcases
  · exact .inl ⟨heq, rfl⟩
  · obtain ⟨chain, hchain⟩ := List.head?_eq_some_iff.mp ha
    rw [ha] at hok
    exact .inr ⟨hne, a, chain, fOk, hchain, hok, rfl⟩

theorem disconnect_cases {ctx : DisconnectContext} {undoFile : Option (List UInt8)}
    (h : s.disconnect net ctx undoFile = .ok s') :
    ∃ a b chain d, s.chain = a :: b :: chain ∧
      { ctx with lib := net.lib : DisconnectContext }.disconnectBlock a.block
        (blockIndex (some b) a.block a.nHeight) (prevIndex b) undoFile s.view s.zerocoinDB = .ok d ∧
      s' = { s with
        chain := b :: chain
        view := d.view
        zerocoinDB := d.zerocoinDB
        mapStakeSpent := s.mapStakeSpent.disconnect a.block } := by
  simp only [disconnect] at h
  split at h
  · rename_i a b chain hchain
    simp only [bind_eq_ok, Except.ok.injEq] at h
    obtain ⟨d, hd, -, -, rfl⟩ := h
    exact ⟨a, b, chain, d, hchain, hd, rfl⟩
  · simp at h

theorem afterFailure_cases (net : Network) (s : ChainState) (mempool : UInt256 → Bool)
    (ctx : ConnectContext) (block : CBlock) :
    s.afterFailure net mempool ctx block = s ∨
      (block.hash ≠ net.params.hashGenesisBlock ∧
        s.afterFailure net mempool ctx block = s.afterSupply net s.chain.head? block) := by
  simp only [afterFailure]
  split
  · rename_i p hloop
    exact .inr ⟨(connectLoop_eq_ok_some hloop).1, rfl⟩
  · exact .inl rfl

theorem afterFailure_keeps {P : ChainState → Prop} (h : P s) (mempool : UInt256 → Bool)
    (ctx : ConnectContext) (block : CBlock)
    (hsupply : block.hash ≠ net.params.hashGenesisBlock →
      P (s.afterSupply net s.chain.head? block)) : P (s.afterFailure net mempool ctx block) := by
  obtain heq | ⟨hne, heq⟩ := afterFailure_cases net s mempool ctx block
  · rw [heq]
    exact h
  · rw [heq]
    exact hsupply hne

structure Linked (net : Network) (s : ChainState) : Prop where
  heights : s.chain.IsChain fun a b => b.nHeight + 1 = a.nHeight
  genesis : ∀ a, s.chain.getLast? = some a → a.block.hash = net.params.hashGenesisBlock

theorem lt_height_of_isChain {a : ActiveBlock} {chain : List ActiveBlock}
    (h : (a :: chain).IsChain fun a b => b.nHeight + 1 = a.nHeight) :
    ∀ b ∈ chain, b.nHeight < a.nHeight := by
  induction chain generalizing a with
  | nil => simp
  | cons c chain ih =>
    rw [List.isChain_cons_cons] at h
    intro b hb
    rcases List.mem_cons.mp hb with rfl | hb
    · omega
    · have hlt := ih h.2 b hb
      omega

theorem Linked.nil_of_genesis (h : Linked net s) {block : CBlock} (hfresh : s.Fresh block)
    (hgenesis : block.hash = net.params.hashGenesisBlock) : s.chain = [] := by
  cases hlast : s.chain.getLast? with
  | none => exact List.getLast?_eq_none_iff.mp hlast
  | some a =>
    have hhash := h.genesis a hlast
    rw [← hgenesis] at hhash
    exact absurd hhash (hfresh a (List.mem_of_getLast? hlast))

theorem Linked.step {op : ChainOp} (h : Linked net s) (hstep : Step net s op s') :
    Linked net s' := by
  cases hstep with
  | connect hfresh hs =>
    obtain ⟨r, -, ⟨heq, rfl⟩ | ⟨hne, a, chain, fOk, hchain, -, rfl⟩⟩ := connect_cases hs
    · have hnil := h.nil_of_genesis hfresh heq
      refine ⟨by simp [hnil], ?_⟩
      intro a ha
      simp only [hnil, List.getLast?_singleton, Option.some.injEq] at ha
      rw [← ha]
      exact heq
    · have hheight : s.height = a.nHeight := by simp [height, hchain]
      refine ⟨?_, ?_⟩
      · change List.IsChain _ (_ :: s.chain)
        have hheights := h.heights
        rw [hchain] at hheights ⊢
        rw [List.isChain_cons_cons]
        exact ⟨by rw [hheight], hheights⟩
      · intro x hx
        refine h.genesis x ?_
        simp only [extended, hchain, List.getLast?_cons_cons] at hx
        rw [hchain]
        exact hx
  | @connectFails mempool ctx _ block _ _ _ =>
    exact afterFailure_keeps h mempool ctx block fun _ => ⟨h.heights, h.genesis⟩
  | disconnect hs =>
    obtain ⟨a, b, chain, d, hchain, -, rfl⟩ := disconnect_cases hs
    have hheights := h.heights
    rw [hchain, List.isChain_cons_cons] at hheights
    refine ⟨hheights.2, ?_⟩
    intro x hx
    refine h.genesis x ?_
    rw [hchain, List.getLast?_cons_cons]
    exact hx

def connectAll (net : Network) (ctx : ConnectContext) : List CBlock → ChainState → Option ChainState
  | [], s => some s
  | block :: blocks, s =>
    if s.chain.any fun a => a.block.hash == block.hash then none
    else (s.connect net (fun _ => false) ctx (fun _ => 0) block).toOption.bind
      (connectAll net ctx blocks)

theorem connectAll_cons {ctx : ConnectContext} {block : CBlock} {blocks : List CBlock}
    (h : connectAll net ctx (block :: blocks) s = some s') :
    s.Fresh block ∧ ∃ mid, s.connect net (fun _ => false) ctx (fun _ => 0) block = .ok mid ∧
      connectAll net ctx blocks mid = some s' := by
  simp only [connectAll] at h
  split at h
  · simp at h
  · rename_i hany
    refine ⟨?_, ?_⟩
    · intro a ha heq
      exact hany (List.any_eq_true.mpr ⟨a, ha, by simpa using heq⟩)
    · obtain ⟨mid, hmid, hrest⟩ := Option.bind_eq_some_iff.mp h
      exact ⟨mid, eq_ok_of_toOption hmid, hrest⟩

theorem reachable_connectAll {Cond : ChainState → ChainOp → Prop} {ctx : ConnectContext}
    {blocks : List CBlock} (hs : Reachable net Cond s)
    (hcond : ∀ s block, block ∈ blocks → Cond s (.connect (fun _ => false) ctx (fun _ => 0) block))
    (h : connectAll net ctx blocks s = some s') : Reachable net Cond s' := by
  induction blocks generalizing s with
  | nil =>
    obtain rfl := Option.some.inj h
    exact hs
  | cons block blocks ih =>
    obtain ⟨hfresh, mid, hok, hrest⟩ := connectAll_cons h
    exact ih (.step _ hs (hcond s block (by simp)) (.connect hfresh hok))
      (fun t b hb => hcond t b (by simp [hb])) hrest

end ChainState

end AnkerNode
