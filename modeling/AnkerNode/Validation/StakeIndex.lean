import AnkerNode.Zerocoin.SupplyRun

namespace AnkerNode

open Checks

namespace StakeIndex

theorem foldl_insert (inputs : List COutPoint) (stake : StakeIndex) (nHeight : Int) (o : COutPoint) :
    inputs.foldl (fun m => insert m nHeight) stake o =
      if o ∈ inputs then (stake o).orElse (fun _ => some nHeight) else stake o := by
  induction inputs generalizing stake with
  | nil => simp
  | cons i inputs ih =>
    rw [List.foldl_cons, ih]
    by_cases hi : o = i
    · subst hi
      cases hs : stake o <;> simp [insert, hs]
    · have hother : insert stake nHeight i o = stake o := by simp [insert, hi]
      simp only [hother, List.mem_cons, hi, false_or]

theorem foldl_erase (inputs : List COutPoint) (stake : StakeIndex) (o : COutPoint) :
    inputs.foldl erase stake o = if o ∈ inputs then none else stake o := by
  induction inputs generalizing stake with
  | nil => simp
  | cons i inputs ih =>
    rw [List.foldl_cons, ih]
    by_cases hi : o = i
    · subst hi
      simp [erase]
    · have hother : erase stake i o = stake o := by simp [erase, hi]
      simp only [hother, List.mem_cons, hi, false_or]

theorem connect_apply (params : ChainParams) (stake : StakeIndex) (block : CBlock) (nHeight : Int)
    (o : COutPoint) :
    stake.connect params block nHeight o =
      (if o ∈ block.ordinaryInputs then (stake o).orElse (fun _ => some nHeight)
        else stake o).filter fun h => decide (nHeight - params.nMaxReorganizationDepth ≤ h) := by
  rw [connect, foldl_insert]

theorem connect_eq_some {params : ChainParams} {stake : StakeIndex} {block : CBlock} {nHeight : Int}
    (hfree : ∀ o ∈ block.ordinaryInputs, stake o = none) {o : COutPoint} {h : Int} :
    stake.connect params block nHeight o = some h ↔
      nHeight - params.nMaxReorganizationDepth ≤ h ∧
        (if o ∈ block.ordinaryInputs then h = nHeight else stake o = some h) := by
  rw [connect_apply, Option.filter_eq_some_iff, decide_eq_true_eq, and_comm]
  refine and_congr_right (fun _ => ?_)
  split
  · rename_i ho
    simp [hfree o ho, eq_comm]
  · rfl

theorem disconnect_eq_some {stake : StakeIndex} {block : CBlock} {o : COutPoint} {h : Int} :
    stake.disconnect block o = some h ↔ o ∉ block.ordinaryInputs ∧ stake o = some h := by
  rw [disconnect, foldl_erase]
  split
  · rename_i ho
    simp [List.mem_reverse.mp ho]
  · rename_i ho
    have hnot : o ∉ block.ordinaryInputs := fun hmem => ho (List.mem_reverse.mpr hmem)
    simp [hnot]

end StakeIndex

namespace ChainState

variable {net : Network} {s s' : ChainState}

def SpendsAt (s : ChainState) (h : Int) (o : COutPoint) : Prop :=
  ∃ a ∈ s.chain, a.nHeight = h ∧ o ∈ a.block.ordinaryInputs

structure StakeExact (net : Network) (s : ChainState) : Prop where
  exact : ∀ o h, s.height - net.params.nMaxReorganizationDepth ≤ h →
    (s.mapStakeSpent o = some h ↔ s.SpendsAt h o)
  recent : ∀ o h, s.mapStakeSpent o = some h → s.height - net.params.nMaxReorganizationDepth ≤ h
  heights : s.chain.IsChain fun a b => b.nHeight + 1 = a.nHeight
  genesis : ∀ a, s.chain.getLast? = some a → a.block.hash = net.params.hashGenesisBlock

theorem StakeExact.linked (h : StakeExact net s) : Linked net s := ⟨h.heights, h.genesis⟩

-- DisconnectBlock forgets the tip's inputs, but the block that comes back into the window was
-- aged out when the tip was connected.
def StakeKept (net : Network) (s : ChainState) : ChainOp → Prop
  | .connect mempool ctx getBlockValue block =>
    (s.connect net mempool ctx getBlockValue block).isOk = true →
      if block.hash = net.params.hashGenesisBlock then block.ordinaryInputs = []
      else ∀ o ∈ block.ordinaryInputs, s.mapStakeSpent o = none
  | .disconnect _ _ => ∀ o, ¬ s.SpendsAt (s.height - 1 - net.params.nMaxReorganizationDepth) o

theorem StakeExact.start : StakeExact net {} := by
  refine ⟨?_, by simp, by simp, by simp⟩
  intro o h _
  simp [SpendsAt]

theorem StakeExact.afterSupply (h : StakeExact net s) (prev : Option ActiveBlock) (block : CBlock) :
    StakeExact net (s.afterSupply net prev block) :=
  ⟨h.exact, h.recent, h.heights, h.genesis⟩

theorem StakeExact.extended (h : StakeExact net s) {block : CBlock}
    {r : ConnectContext.ConnectResult} (hlinked : Linked net (s.extended net block r))
    (hfree : ∀ o ∈ block.ordinaryInputs, s.mapStakeSpent o = none) :
    StakeExact net (s.extended net block r) := by
  have hheight : (s.extended net block r).height = s.height + 1 := rfl
  have hspends : ∀ k o, (s.extended net block r).SpendsAt k o ↔
      (k = s.height + 1 ∧ o ∈ block.ordinaryInputs) ∨ s.SpendsAt k o := by
    intro k o
    simp only [SpendsAt, ChainState.extended, List.mem_cons, exists_eq_or_imp]
    rw [eq_comm]
  refine ⟨?_, ?_, hlinked.heights, hlinked.genesis⟩
  · intro o k hk
    rw [hheight] at hk
    rw [hspends]
    change StakeIndex.connect net.params s.mapStakeSpent block (s.height + 1) o = some k ↔ _
    rw [StakeIndex.connect_eq_some hfree, and_iff_right hk]
    have hold := h.exact o k (by omega)
    split
    · rename_i ho
      constructor
      · intro heq
        exact .inl ⟨heq, ho⟩
      · rintro (hin | hs)
        · exact hin.1
        · rw [← hold, hfree o ho] at hs
          simp at hs
    · rename_i ho
      rw [hold]
      simp [ho]
  · intro o k hk
    change StakeIndex.connect net.params s.mapStakeSpent block (s.height + 1) o = some k at hk
    rw [StakeIndex.connect_eq_some hfree] at hk
    rw [hheight]
    exact hk.1

theorem StakeExact.connectGenesis (h : StakeExact net s) {block : CBlock} (hfresh : s.Fresh block)
    (hgenesis : block.hash = net.params.hashGenesisBlock) (hfree : block.ordinaryInputs = [])
    (r : ConnectContext.ConnectResult)
    (hlinked : Linked net { s with
      chain := ⟨block, s.height + 1, r.nMoneySupply⟩ :: s.chain
      view := r.view }) :
    StakeExact net { s with
      chain := ⟨block, s.height + 1, r.nMoneySupply⟩ :: s.chain
      view := r.view } := by
  have hchain := h.linked.nil_of_genesis hfresh hgenesis
  have hnone : ∀ o k, s.mapStakeSpent o = some k → False := by
    intro o k hk
    obtain ⟨a, ha, -⟩ := (h.exact o k (h.recent o k hk)).mp hk
    simp [hchain] at ha
  refine ⟨?_, ?_, hlinked.heights, hlinked.genesis⟩
  · intro o k _
    constructor
    · intro hk
      exact (hnone o k hk).elim
    · rintro ⟨a, ha, -, ho⟩
      simp only [hchain, List.mem_singleton] at ha
      rw [ha, hfree] at ho
      simp at ho
  · intro o k hk
    exact (hnone o k hk).elim

theorem StakeExact.disconnect (h : StakeExact net s) {a b : ActiveBlock} {chain : List ActiveBlock}
    (hchain : s.chain = a :: b :: chain) (view : CCoinsView) (db : ZerocoinDB)
    (hlinked : Linked net { s with
      chain := b :: chain
      view := view
      zerocoinDB := db
      mapStakeSpent := s.mapStakeSpent.disconnect a.block })
    (hkept : ∀ o, ¬ s.SpendsAt (s.height - 1 - net.params.nMaxReorganizationDepth) o) :
    StakeExact net { s with
      chain := b :: chain
      view := view
      zerocoinDB := db
      mapStakeSpent := s.mapStakeSpent.disconnect a.block } := by
  have hheights := h.heights
  rw [hchain] at hheights
  have hlt := lt_height_of_isChain hheights
  rw [List.isChain_cons_cons] at hheights
  have hheight : s.height = a.nHeight := by simp [height, hchain]
  have hsucc := hheights.1
  have hspends : ∀ k o, s.SpendsAt k o ↔ (k = a.nHeight ∧ o ∈ a.block.ordinaryInputs) ∨
      ∃ x ∈ b :: chain, x.nHeight = k ∧ o ∈ x.block.ordinaryInputs := by
    intro k o
    rw [SpendsAt, hchain, List.exists_mem_cons_iff, eq_comm]
  refine ⟨?_, ?_, hlinked.heights, hlinked.genesis⟩
  · intro o k hk
    change b.nHeight - _ ≤ k at hk
    change StakeIndex.disconnect s.mapStakeSpent a.block o = some k ↔
      ∃ x ∈ b :: chain, x.nHeight = k ∧ o ∈ x.block.ordinaryInputs
    rw [StakeIndex.disconnect_eq_some]
    constructor
    · rintro ⟨hout, hsome⟩
      have hs := (h.exact o k (h.recent o k hsome)).mp hsome
      rw [hspends] at hs
      exact hs.resolve_left (fun hin => hout hin.2)
    · intro hs
      have hold : s.SpendsAt k o := (hspends k o).mpr (.inr hs)
      have hin : s.height - net.params.nMaxReorganizationDepth ≤ k := by
        have hne : k ≠ s.height - 1 - net.params.nMaxReorganizationDepth := by
          rintro rfl
          exact hkept o hold
        omega
      obtain ⟨x, hx, hxk, -⟩ := hs
      have hxa := hlt x hx
      have hsome := (h.exact o k hin).mpr hold
      refine ⟨?_, hsome⟩
      intro ho
      have htip := (h.exact o a.nHeight (by omega)).mpr ((hspends _ o).mpr (.inl ⟨rfl, ho⟩))
      rw [hsome, Option.some.injEq] at htip
      omega
  · intro o k hk
    have hk' := (StakeIndex.disconnect_eq_some.mp hk).2
    have hrecent := h.recent o k hk'
    change b.nHeight - _ ≤ k
    omega

theorem StakeExact.step (h : StakeExact net s) {op : ChainOp} (hcond : StakeKept net s op)
    (hstep : Step net s op s') : StakeExact net s' := by
  have hlinked := h.linked.step hstep
  cases hstep with
  | connect hfresh hs =>
    have hkept := hcond (by rw [hs]; rfl)
    obtain ⟨r, -, ⟨heq, rfl⟩ | ⟨hne, a, chain, fOk, -, -, rfl⟩⟩ := connect_cases hs
    · rw [if_pos heq] at hkept
      exact h.connectGenesis hfresh heq hkept r hlinked
    · rw [if_neg hne] at hkept
      exact h.extended hlinked hkept
  | @connectFails mempool ctx _ block _ hfresh _ =>
    exact afterFailure_keeps h mempool ctx block fun _ => h.afterSupply _ block
  | disconnect hs =>
    obtain ⟨a, b, chain, d, hchain, -, rfl⟩ := disconnect_cases hs
    exact h.disconnect hchain d.view d.zerocoinDB hlinked hcond

def stakeSpend : CBlock where
  hash := 2
  hashPrevBlock := 1
  nVersion := 3
  vtx :=
    [{ hash := 11, vin := [⟨COutPoint.null, [0x51, 0x51], 0xffffffff⟩], vout := [⟨0, [OP_RETURN]⟩] },
     { hash := 12, vin := [⟨⟨0, 0⟩, [OP_ZEROCOINSPEND], 1⟩], vout := [⟨COIN, [0x51]⟩] },
     { hash := 13, vin := [⟨⟨12, 0⟩, [], 0xffffffff⟩], vout := [⟨COIN, [0x51]⟩] }]

def emptyBlock (n : Nat) : CBlock where
  hash := BitVec.ofNat 256 (n + 1)
  hashPrevBlock := BitVec.ofNat 256 n
  nVersion := 3
  vtx :=
    [{ hash := BitVec.ofNat 256 (1000 + n)
       vin := [⟨COutPoint.null, [0x51, 0x51], 0xffffffff⟩]
       vout := [⟨0, [OP_RETURN]⟩] }]

def stakeRun (nEmpty : Nat) : Option ChainState :=
  connectAll unbackedNet ConnectContext.plainConnect
    (genesisBlock :: stakeSpend :: (List.range nEmpty).map fun n => emptyBlock (n + 2)) {}

def stakeRunBack : Option ChainState :=
  (stakeRun 101).bind fun s => (s.disconnect unbackedNet DisconnectContext.plainDisconnect
    (some (CBlockUndo.writeToDisk DisconnectContext.plainDisconnect.ops
      DisconnectContext.plainDisconnect.hasher {} 102))).toOption

-- An empty block on top leaves the entry: the input is within the reorganisation depth.
example : ((stakeRun 1).map fun s => s.mapStakeSpent ⟨12, 0⟩) = some (some 1) := by
  decide +kernel

end ChainState

end AnkerNode
