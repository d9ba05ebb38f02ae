import AnkerNode.Chain.IndexRun
import AnkerNode.Primitives.Uint256

namespace AnkerNode

def MODIFIER_INTERVAL : Nat := 60

def MODIFIER_INTERVAL_RATIO : Nat := 3

def nStakeMinAge : UInt32 := 2 * 60 * 60

def getStakeModifierSelectionIntervalSection (nSection : Nat) : Int :=
  (MODIFIER_INTERVAL * 63 / (63 + (63 - nSection) * ( MODIFIER_INTERVAL_RATIO - 1)) : Nat)

def getStakeModifierSelectionInterval : Int :=
  ((List.range 64).map getStakeModifierSelectionIntervalSection).sum

-- reads that the language leaves undefined
inductive Fault where
  | vtxOutOfRange
  | voutOutOfRange
  | nullIndex
deriving DecidableEq, Repr

-- What the kernel check reads of the node. `getTransaction` also gives the hash of the block that
-- the transaction is in.
structure KernelView where
  index : BlockIndex
  getBlockTime : Nat → Int
  generatedStakeModifier : Nat → Bool
  nStakeModifier : Nat → UInt64
  readBlockFromDisk : Nat → Option CBlock
  getTransaction : UInt256 → Option (CTransaction × UInt256)
  verifyScript : CTransaction → CTxOut → Bool
  stakeHash : UInt32 → UInt64 → COutPoint → UInt32 → UInt256

structure KernelModifier where
  nStakeModifier : UInt64
  nStakeModifierHeight : Int
  nStakeModifierTime : Int
deriving DecidableEq, Repr

structure KernelHash where
  fSuccess : Bool
  nTimeTx : UInt32
  hashProofOfStake : UInt256
deriving DecidableEq, Repr

def stakeTargetHit (hashProofOfStake : UInt256) (nValueIn : Int) (bnTargetPerCoinDay : UInt256) :
    Bool :=
  decide (hashProofOfStake < UInt256.ofInt64 nValueIn / 100 * bnTargetPerCoinDay)

namespace KernelView

variable (v : KernelView)

-- The active chain above an entry, which `Next` and `operator[]` walk up; empty for an entry that
-- is the tip or not on the chain.
def chainAbove (pindex : Nat) : List Nat :=
  if v.index.contains pindex then v.index.vChain.drop (v.index.tree.height pindex + 1) else []

-- The loop over the chain above the staked block. It stops at an entry, with what is above it.
def selectModifier (stop : Int) (pindex : Nat) (nHeight nTime : Int) :
    List Nat → Option (Nat × Int × Int × List Nat)
  | [] => if nTime < stop then none else some (pindex, nHeight, nTime, [])
  | pindexNext :: above =>
    if nTime < stop then
      if v.generatedStakeModifier pindexNext then
        selectModifier stop pindexNext (v.index.tree.height pindexNext)
          (v.getBlockTime pindexNext) above
      else selectModifier stop pindexNext nHeight nTime above
    else some (pindex, nHeight, nTime, pindexNext :: above)

-- Both log lines read the height of `pindexNext`.
def getKernelStakeModifier (hashBlockFrom : UInt256) : Except Fault (Option KernelModifier) :=
  match v.index.tree.lookup hashBlockFrom with
  | none => .ok none
  | some pindexFrom =>
    match v.chainAbove pindexFrom with
    | [] => .error .nullIndex
    | pindexNext :: above =>
      match v.selectModifier (v.getBlockTime pindexFrom + getStakeModifierSelectionInterval)
          pindexFrom (v.index.tree.height pindexFrom) (v.getBlockTime pindexFrom)
          (pindexNext :: above) with
      | none => .ok none
      | some (_, _, _, []) => .error .nullIndex
      | some (pindex, nHeight, nTime, _ :: _) => .ok (some ⟨v.nStakeModifier pindex, nHeight, nTime⟩)

def tooYoung (nTimeBlockFrom nTimeTx : UInt32) : Bool :=
  decide (nTimeTx < nTimeBlockFrom) || decide (nTimeTx < nTimeBlockFrom + nStakeMinAge)

-- The search of a wallet for a time whose hash meets the target, the latest first.
def searchKernel (stakeHashAt : UInt32 → UInt256) (hit : UInt256 → Bool) (nHashDrift : UInt32)
    (nTimeTx : UInt32) (hashProofOfStake : UInt256) : KernelHash :=
  let tryTimes := (List.range nHashDrift.toNat).map fun i =>
    nTimeTx + nHashDrift - UInt32.ofNat i
  match tryTimes.find? fun t => hit (stakeHashAt t) with
  | some nTryTime => ⟨true, nTryTime, stakeHashAt nTryTime⟩
  | none => ⟨false, nTimeTx, (tryTimes.getLast?.map stakeHashAt).getD hashProofOfStake⟩

def checkStakeKernelHash (nBits : UInt32) (blockFrom : CBlock) (txPrev : CTransaction)
    (prevout : COutPoint) (nTimeTx nHashDrift : UInt32) (fCheck : Bool)
    (hashProofOfStake : UInt256) : Except Fault KernelHash :=
  match txPrev.vout[prevout.n.toNat]? with
  | none => .error .voutOutOfRange
  | some out =>
    let nTimeBlockFrom := UInt32.ofNat blockFrom.nTime
    if tooYoung nTimeBlockFrom nTimeTx then .ok ⟨false, nTimeTx, hashProofOfStake⟩
    else
      match v.getKernelStakeModifier blockFrom.hash with
      | .error e => .error e
      | .ok none => .ok ⟨false, nTimeTx, hashProofOfStake⟩
      | .ok (some modifier) =>
        let stakeHashAt := v.stakeHash nTimeBlockFrom modifier.nStakeModifier prevout
        let hit := fun hash => stakeTargetHit hash out.nValue (UInt256.setCompact nBits)
        if fCheck then .ok ⟨hit (stakeHashAt nTimeTx), nTimeTx, stakeHashAt nTimeTx⟩
        else if v.index.tip.isNone then .error .nullIndex
        else .ok (searchKernel stakeHashAt hit nHashDrift nTimeTx hashProofOfStake)

-- the proof hash of a block that passes
def checkProofOfStake (block : CBlock) (hashProofOfStake : UInt256) :
    Except Fault (Option UInt256) :=
  match block.vtx with
  | _ :: tx :: _ =>
    if !tx.isCoinStake then .ok none
    else
      match tx.vin with
      | [] => .ok none
      | txin :: _ =>
        match v.getTransaction txin.prevout.hash with
        | none => .ok none
        | some (txPrev, hashBlock) =>
          match txPrev.vout[txin.prevout.n.toNat]? with
          | none => .error .voutOutOfRange
          | some out =>
            if !v.verifyScript tx out then .ok none
            else
              match (v.index.tree.lookup hashBlock).bind v.readBlockFromDisk with
              | none => .ok none
              | some blockprev =>
                let nTime := UInt32.ofNat block.nTime
                match v.checkStakeKernelHash block.nBits blockprev txPrev txin.prevout nTime 0 true
                    hashProofOfStake with
                | .error e => .error e
                | .ok kernel =>
                  if !kernel.fSuccess && decide (1505247602 < nTime) then .ok none
                  else .ok (some kernel.hashProofOfStake)
  | _ => .error .vtxOutOfRange

end KernelView

namespace KernelView

variable (v : KernelView)

-- `k` is the first block above with a modifier generated at `stop` or later.
def EndsSelection (stop : Int) (above : List Nat) (k : Nat) (rest : List Nat) : Prop :=
  ∃ pre, above = pre ++ k :: rest ∧ v.generatedStakeModifier k = true ∧ stop ≤ v.getBlockTime k ∧
    ∀ b ∈ pre, v.generatedStakeModifier b = true → v.getBlockTime b < stop

-- The staked block has a successor on the active chain, and the block that its modifier is taken
-- from is not the tip.
structure Followed (pindexFrom : Nat) : Prop where
  successor : v.chainAbove pindexFrom ≠ []
  modifier : ∀ k rest,
    v.EndsSelection (v.getBlockTime pindexFrom + getStakeModifierSelectionInterval)
      (v.chainAbove pindexFrom) k rest → rest ≠ []

-- The staked output exists, and where the check comes to the modifier there are blocks to read.
structure KernelSafe (nTime : UInt32) (tx : CTransaction) (txin : CTxIn) : Prop where
  output : ∀ txPrev hashBlock, v.getTransaction txin.prevout.hash = some (txPrev, hashBlock) →
    txin.prevout.n.toNat < txPrev.vout.length
  followed : ∀ txPrev hashBlock out pindex blockprev pindexFrom,
    v.getTransaction txin.prevout.hash = some (txPrev, hashBlock) →
    txPrev.vout[txin.prevout.n.toNat]? = some out → v.verifyScript tx out = true →
    v.index.tree.lookup hashBlock = some pindex → v.readBlockFromDisk pindex = some blockprev →
    tooYoung (UInt32.ofNat blockprev.nTime) nTime = false →
    v.index.tree.lookup blockprev.hash = some pindexFrom → v.Followed pindexFrom

variable {v}

theorem selectModifier_done {stop nHeight nTime : Int} (h : stop ≤ nTime) (pindex : Nat)
    (above : List Nat) :
    v.selectModifier stop pindex nHeight nTime above = some (pindex, nHeight, nTime, above) := by
  have hdone : ¬nTime < stop := by omega
  cases above with
  | nil => rw [selectModifier, if_neg hdone]
  | cons pindexNext above => rw [selectModifier, if_neg hdone]

theorem endsSelection_cons {stop : Int} {b k : Nat} {above rest : List Nat}
    (h : v.generatedStakeModifier b = true → v.getBlockTime b < stop) :
    v.EndsSelection stop (b :: above) k rest ↔ v.EndsSelection stop above k rest := by
  constructor
  · rintro ⟨pre, hpre, hgenerated, hstop, hbefore⟩
    cases pre with
    | nil =>
      obtain ⟨rfl, rfl⟩ := List.cons.inj hpre
      have hlt := h hgenerated
      omega
    | cons b' pre =>
      obtain ⟨rfl, rfl⟩ := List.cons.inj hpre
      exact ⟨pre, rfl, hgenerated, hstop, fun b hb => hbefore b (List.mem_cons_of_mem _ hb)⟩
  · rintro ⟨pre, rfl, hgenerated, hstop, hbefore⟩
    refine ⟨b :: pre, rfl, hgenerated, hstop, ?_⟩
    rw [List.forall_mem_cons]
    exact ⟨h, hbefore⟩

theorem endsSelection_head {stop : Int} {b k : Nat} {above rest : List Nat}
    (hgenerated : v.generatedStakeModifier b = true) (hstop : stop ≤ v.getBlockTime b) :
    v.EndsSelection stop (b :: above) k rest ↔ b = k ∧ above = rest := by
  constructor
  · rintro ⟨pre, hpre, -, -, hbefore⟩
    cases pre with
    | nil => exact List.cons.inj hpre
    | cons b' pre =>
      obtain ⟨rfl, -⟩ := List.cons.inj hpre
      have hlt := hbefore b List.mem_cons_self hgenerated
      omega
  · rintro ⟨rfl, rfl⟩
    exact ⟨[], rfl, hgenerated, hstop, by simp⟩

theorem selectModifier_iff {stop nTime : Int} (hlt : nTime < stop) (pindex : Nat) (nHeight : Int)
    (above : List Nat) (k : Nat) (rest : List Nat) :
    (∃ h t, v.selectModifier stop pindex nHeight nTime above = some (k, h, t, rest)) ↔
      v.EndsSelection stop above k rest := by
  induction above generalizing pindex nHeight nTime with
  | nil =>
    rw [selectModifier, if_pos hlt]
    simp [EndsSelection]
  | cons b above ih =>
    rw [selectModifier, if_pos hlt]
    by_cases hgenerated : v.generatedStakeModifier b = true
    · rw [if_pos hgenerated]
      by_cases hstop : stop ≤ v.getBlockTime b
      · rw [selectModifier_done hstop, endsSelection_head hgenerated hstop]
        simp
      · rw [ih (Int.not_le.mp hstop), endsSelection_cons fun _ => Int.not_le.mp hstop]
    · rw [if_neg hgenerated, ih hlt, endsSelection_cons fun h => absurd h hgenerated]

theorem getStakeModifierSelectionInterval_pos : 0 < getStakeModifierSelectionInterval := by
  decide +kernel

theorem getKernelStakeModifier_isOk_iff (hashBlockFrom : UInt256) :
    (v.getKernelStakeModifier hashBlockFrom).isOk = true ↔
      ∀ pindexFrom, v.index.tree.lookup hashBlockFrom = some pindexFrom →
        v.Followed pindexFrom := by
  rw [getKernelStakeModifier]
  cases hfrom : v.index.tree.lookup hashBlockFrom with
  | none => exact iff_of_true rfl (by simp)
  | some pindexFrom =>
    simp only [Option.some.injEq, forall_eq']
    have hlt : v.getBlockTime pindexFrom <
        v.getBlockTime pindexFrom + getStakeModifierSelectionInterval := by
      have hpos := getStakeModifierSelectionInterval_pos
      omega
    have hselect := selectModifier_iff (v := v) hlt pindexFrom (v.index.tree.height pindexFrom)
      (v.chainAbove pindexFrom)
    cases habove : v.chainAbove pindexFrom with
    | nil => exact iff_of_false (by simp [Except.isOk, Except.toBool]) fun h => h.successor habove
    | cons pindexNext above =>
      rw [habove] at hselect
      simp only
      cases hresult : v.selectModifier
          (v.getBlockTime pindexFrom + getStakeModifierSelectionInterval) pindexFrom
          (v.index.tree.height pindexFrom) (v.getBlockTime pindexFrom) (pindexNext :: above) with
      | none =>
        refine iff_of_true rfl ⟨by simp [habove], fun k rest h => ?_⟩
        rw [habove, ← hselect, hresult] at h
        simp at h
      | some result =>
        obtain ⟨k, nHeight, nTime, rest⟩ := result
        have hend := (hselect k rest).mp ⟨nHeight, nTime, hresult⟩
        rw [← habove] at hend
        cases rest with
        | nil =>
          refine iff_of_false (by simp [Except.isOk, Except.toBool]) fun h => ?_
          exact h.modifier k [] hend rfl
        | cons next rest =>
          refine iff_of_true rfl ⟨by simp [habove], fun k' rest' h => ?_⟩
          rw [habove, ← hselect, hresult] at h
          obtain ⟨nHeight', nTime', h⟩ := h
          have hrest := congrArg (fun r => r.2.2.2) (Option.some.inj h)
          exact fun hnil => by simp [hnil] at hrest

theorem checkStakeKernelHash_isOk_iff {txPrev : CTransaction} {prevout : COutPoint}
    (hn : prevout.n.toNat < txPrev.vout.length) (nBits : UInt32) (blockFrom : CBlock)
    (nTimeTx nHashDrift : UInt32) (hashProofOfStake : UInt256) :
    (v.checkStakeKernelHash nBits blockFrom txPrev prevout nTimeTx nHashDrift true
      hashProofOfStake).isOk = true ↔
        (tooYoung (UInt32.ofNat blockFrom.nTime) nTimeTx = false →
          ∀ pindexFrom, v.index.tree.lookup blockFrom.hash = some pindexFrom →
            v.Followed pindexFrom) := by
  rw [← getKernelStakeModifier_isOk_iff, checkStakeKernelHash, List.getElem?_eq_getElem hn]
  simp only
  cases hyoung : tooYoung (UInt32.ofNat blockFrom.nTime) nTimeTx with
  | true => exact iff_of_true rfl (by simp)
  | false =>
    simp only [Bool.false_eq_true, if_false, true_imp_iff]
    cases hmodifier : v.getKernelStakeModifier blockFrom.hash with
    | error e => exact Iff.rfl
    | ok modifier =>
      cases modifier with
      | none => exact Iff.rfl
      | some modifier => exact Iff.rfl

theorem kernel_check_total_iff (v : KernelView) (block : CBlock) (hashProofOfStake : UInt256)
    {coinbase tx : CTransaction} {txs : List CTransaction} {txin : CTxIn} {txins : List CTxIn}
    (hvtx : block.vtx = coinbase :: tx :: txs) (hvin : tx.vin = txin :: txins)
    (hstake : tx.isCoinStake = true) :
    (v.checkProofOfStake block hashProofOfStake).isOk = true ↔
      v.KernelSafe (UInt32.ofNat block.nTime) tx txin := by
  simp only [checkProofOfStake, hvtx, hstake, hvin, Bool.not_true, Bool.false_eq_true, if_false]
  cases hprev : v.getTransaction txin.prevout.hash with
  | none => exact iff_of_true rfl ⟨by simp [hprev], by simp [hprev]⟩
  | some found =>
    obtain ⟨txPrev, hashBlock⟩ := found
    simp only
    by_cases hn : txin.prevout.n.toNat < txPrev.vout.length
    swap
    · rw [List.getElem?_eq_none (Nat.not_lt.mp hn)]
      exact iff_of_false (by simp [Except.isOk, Except.toBool])
        fun h => hn (h.output txPrev hashBlock hprev)
    have hsafe : v.KernelSafe (UInt32.ofNat block.nTime) tx txin ↔
        (v.verifyScript tx txPrev.vout[txin.prevout.n.toNat] = true → ∀ pindex blockprev,
          v.index.tree.lookup hashBlock = some pindex →
          v.readBlockFromDisk pindex = some blockprev →
          tooYoung (UInt32.ofNat blockprev.nTime) (UInt32.ofNat block.nTime) = false →
          ∀ pindexFrom, v.index.tree.lookup blockprev.hash = some pindexFrom →
            v.Followed pindexFrom) := by
      constructor
      · intro h hscript pindex blockprev hpindex hread hold pindexFrom hfrom
        exact h.followed txPrev hashBlock _ pindex blockprev pindexFrom hprev
          (List.getElem?_eq_getElem hn) hscript hpindex hread hold hfrom
      · refine fun h => ⟨?_, ?_⟩
        · intro txPrev' hashBlock' hprev'
          rw [hprev] at hprev'
          obtain ⟨rfl, rfl⟩ := Prod.mk.inj (Option.some.inj hprev')
          exact hn
        · intro txPrev' hashBlock' out pindex blockprev pindexFrom hprev' hout
          rw [hprev] at hprev'
          obtain ⟨rfl, rfl⟩ := Prod.mk.inj (Option.some.inj hprev')
          rw [List.getElem?_eq_getElem hn] at hout
          obtain rfl := Option.some.inj hout
          exact fun hscript hpindex hread hold hfrom =>
            h hscript pindex blockprev hpindex hread hold pindexFrom hfrom
    rw [hsafe, List.getElem?_eq_getElem hn]
    simp only
    cases hscript : v.verifyScript tx txPrev.vout[txin.prevout.n.toNat] with
    | false => exact iff_of_true rfl (by simp)
    | true =>
      simp only [Bool.not_true, Bool.false_eq_true, if_false, true_imp_iff]
      cases hindex : v.index.tree.lookup hashBlock with
      | none => exact iff_of_true rfl (by simp)
      | some pindex =>
        rw [Option.bind_some]
        cases hread : v.readBlockFromDisk pindex with
        | none =>
          refine iff_of_true rfl ?_
          intro pindex' blockprev hpindex hread'
          rw [← Option.some.inj hpindex, hread] at hread'
          simp at hread'
        | some blockprev =>
          have hkernel := checkStakeKernelHash_isOk_iff (v := v) hn block.nBits blockprev
            (UInt32.ofNat block.nTime) 0 hashProofOfStake
          have hblock : (∀ pindex' blockprev', some pindex = some pindex' →
              v.readBlockFromDisk pindex' = some blockprev' →
              tooYoung (UInt32.ofNat blockprev'.nTime) (UInt32.ofNat block.nTime) = false →
              ∀ pindexFrom, v.index.tree.lookup blockprev'.hash = some pindexFrom →
                v.Followed pindexFrom) ↔
              (tooYoung (UInt32.ofNat blockprev.nTime) (UInt32.ofNat block.nTime) = false →
                ∀ pindexFrom, v.index.tree.lookup blockprev.hash = some pindexFrom →
                  v.Followed pindexFrom) := by
            constructor
            · exact fun h => h pindex blockprev rfl hread
            · intro h pindex' blockprev' hpindex hread'
              rw [← Option.some.inj hpindex, hread] at hread'
              rw [← Option.some.inj hread']
              exact h
          rw [hblock, ← hkernel]
          simp only
          cases v.checkStakeKernelHash block.nBits blockprev txPrev txin.prevout
              (UInt32.ofNat block.nTime) 0 true hashProofOfStake with
          | error e => exact Iff.rfl
          | ok kernel =>
            refine iff_of_true ?_ rfl
            simp only
            split
            · rfl
            · rfl

-- a block with a generated modifier every hour, and an output to stake in the first after genesis
def hourlyView (vChain : List Nat) : KernelView where
  index := { BlockIndex.lineIndex with vChain := vChain }
  getBlockTime i := 1597078000 + 3600 * i
  generatedStakeModifier _ := true
  nStakeModifier _ := 0
  readBlockFromDisk i :=
    some { hash := BitVec.ofNat 256 i, hashPrevBlock := 0, nTime := 1597078000 + 3600 * i, vtx := [] }
  getTransaction _ := some ({ hash := 7, vin := [], vout := [⟨1000, [0x51]⟩] }, 1)
  verifyScript _ _ := true
  stakeHash _ _ _ _ := 0

def stakeOf (n : UInt32) : CTransaction :=
  { hash := 9, vin := [⟨⟨7, n⟩, [], 0⟩], vout := [⟨0, []⟩, ⟨1, [0x51]⟩] }

def stakeBlock (n : UInt32) : CBlock :=
  { hash := 8, hashPrevBlock := 3, nTime := 1597178000, nBits := 0x1d00ffff,
    vtx := [{ hash := 10, vin := [], vout := [] }, stakeOf n] }

theorem kernel_check_total_deep :
    ((hourlyView [0, 1, 2, 3]).checkProofOfStake (stakeBlock 0) 0).isOk = true := by
  refine (kernel_check_total_iff (hourlyView [0, 1, 2, 3]) (stakeBlock 0) 0 rfl rfl
    (by decide)).mpr ⟨?_, ?_⟩
  · rintro txPrev hashBlock ⟨⟩
    decide
  · rintro txPrev hashBlock out pindex blockprev pindexFrom ⟨⟩ - - hpindex ⟨⟩ - hfrom
    have hlookup : (hourlyView [0, 1, 2, 3]).index.tree.lookup 1 = some 1 := by decide +kernel
    obtain rfl := Option.some.inj (hlookup.symm.trans hpindex)
    obtain rfl := Option.some.inj (hlookup.symm.trans hfrom)
    have habove : (hourlyView [0, 1, 2, 3]).chainAbove 1 = [2, 3] := by decide +kernel
    have hstop : (hourlyView [0, 1, 2, 3]).getBlockTime 1 + getStakeModifierSelectionInterval ≤
        (hourlyView [0, 1, 2, 3]).getBlockTime 2 := by decide +kernel
    refine ⟨by simp [habove], fun k rest hend => ?_⟩
    rw [habove, endsSelection_head rfl hstop] at hend
    rw [← hend.2]
    simp

-- An output that is not there; a modifier from the tip; a staked block at the tip, and beside the
-- active chain.
theorem kernel_check_faults :
    (stakeOf 0).isCoinStake = true ∧ (stakeOf 1).isCoinStake = true ∧
      (hourlyView [0, 1, 2, 3]).checkProofOfStake (stakeBlock 1) 0 = .error .voutOutOfRange ∧
      (hourlyView [0, 1, 2]).checkProofOfStake (stakeBlock 0) 0 = .error .nullIndex ∧
      (hourlyView [0, 1]).checkProofOfStake (stakeBlock 0) 0 = .error .nullIndex ∧
      (hourlyView [0]).checkProofOfStake (stakeBlock 0) 0 = .error .nullIndex :=
  ⟨by decide, by decide, rfl, rfl, rfl, rfl⟩

end KernelView

end AnkerNode
