import AnkerNode.Validation.ActiveChain

namespace AnkerNode

open Checks

namespace ZerocoinSupply

theorem nonNegative_zero : zero.NonNegative := fun _ _ => le_refl _

end ZerocoinSupply

namespace ChainState

variable {net : Network} {s s' : ChainState}

def supplyBefore (s : ChainState) (block : CBlock) : ZerocoinSupply :=
  match s.chain with
  | [] => s.supply block.hash
  | a :: _ => startingSupply a.block.nVersion (s.supply a.block.hash) (s.supply block.hash)

def SupplyCovered (net : Network) (s : ChainState) : ChainOp → Prop
  | .connect mempool ctx getBlockValue block =>
    block.hash ≠ net.params.hashGenesisBlock →
      (s.connect net mempool ctx getBlockValue block).isOk = true →
      SpendsCovered net.lib block (s.supplyBefore block)
  | .disconnect _ _ => True

structure SupplySound (net : Network) (s : ChainState) : Prop where
  active : ∀ a ∈ s.chain, (s.supply a.block.hash).NonNegative
  genesis : (s.supply net.params.hashGenesisBlock).NonNegative

theorem supply_connect {mempool : UInt256 → Bool} {ctx : ConnectContext} {getBlockValue : Int → Int}
    {block : CBlock} (hne : block.hash ≠ net.params.hashGenesisBlock)
    (h : s.connect net mempool ctx getBlockValue block = .ok s') :
    (s'.supply block.hash).NonNegative ↔ SpendsCovered net.lib block (s.supplyBefore block) := by
  obtain ⟨r, -, ⟨heq, -⟩ | ⟨-, a, chain, fOk, hchain, hok, rfl⟩⟩ := connect_cases h
  · exact absurd heq hne
  · simp only [updatedSupply] at hok
    simp only [extended, recorded, afterSupply, Function.update_self, updatedSupply, supplyBefore,
      hchain, List.head?_cons]
    exact nonNegative_updateZANKSupply_iff hok

theorem SupplySound.afterSupply (h : SupplySound net s) {block : CBlock} (hfresh : s.Fresh block)
    (hne : block.hash ≠ net.params.hashGenesisBlock) (prev : Option ActiveBlock) :
    SupplySound net (s.afterSupply net prev block) := by
  refine ⟨?_, ?_⟩
  · intro a ha
    simp only [ChainState.afterSupply, Function.update_of_ne (hfresh a ha)]
    exact h.active a ha
  · simp only [ChainState.afterSupply, Function.update_of_ne hne.symm]
    exact h.genesis

theorem SupplySound.step (h : SupplySound net s) {op : ChainOp} (hcond : SupplyCovered net s op)
    (hstep : Step net s op s') : SupplySound net s' := by
  cases hstep with
  | connect hfresh hs =>
    obtain ⟨r, -, ⟨heq, rfl⟩ | ⟨hne, a, chain, fOk, -, -, rfl⟩⟩ := connect_cases hs
    · refine ⟨?_, h.genesis⟩
      intro a ha
      rcases List.mem_cons.mp ha with rfl | ha
      · rw [heq]
        exact h.genesis
      · exact h.active a ha
    · have hafter := h.afterSupply hfresh hne s.chain.head?
      have hnew := (supply_connect hne hs).mpr (hcond hne (by rw [hs]; rfl))
      refine ⟨?_, hafter.genesis⟩
      intro a ha
      rcases List.mem_cons.mp ha with rfl | ha
      · exact hnew
      · exact hafter.active a ha
  | @connectFails mempool ctx _ block _ hfresh _ =>
    exact afterFailure_keeps h mempool ctx block fun hne => h.afterSupply hfresh hne _
  | disconnect hs =>
    obtain ⟨a, b, chain, d, hchain, -, rfl⟩ := disconnect_cases hs
    refine ⟨?_, h.genesis⟩
    intro x hx
    exact h.active x (by rw [hchain]; exact List.mem_cons_of_mem a hx)

theorem supply_nonNegative (net : Network) (s : ChainState)
    (h : Reachable net (SupplyCovered net) s) :
    (∀ a ∈ s.chain, (s.supply a.block.hash).NonNegative) ∧
      ∀ (mempool : UInt256 → Bool) (ctx : ConnectContext) (getBlockValue : Int → Int)
        (block : CBlock) (s' : ChainState), block.hash ≠ net.params.hashGenesisBlock →
        s.connect net mempool ctx getBlockValue block = .ok s' →
          ((s'.supply block.hash).NonNegative ↔
            SpendsCovered net.lib block (s.supplyBefore block)) := by
  have hsound : SupplySound net s := by
    induction h with
    | start => exact ⟨by simp, ZerocoinSupply.nonNegative_zero⟩
    | step op _ hcond hstep ih => exact ih.step hcond hstep
  exact ⟨hsound.active, fun _ _ _ _ _ hne hs => supply_connect hne hs⟩

def unbackedLib : ZerocoinLib :=
  { CheckContext.plainLib with hasValidSerial := fun _ _ => true }

def unbackedNet : Network where
  params := { hashGenesisBlock := 1 }
  lib := unbackedLib
  fTxIndex := true

def genesisBlock : CBlock where
  hash := 1
  hashPrevBlock := 0
  nVersion := 1
  vtx := [{ hash := 10, vin := [⟨COutPoint.null, [0x01, 0x02], 0xffffffff⟩], vout := [⟨0, [0x51]⟩] }]

def spendInto (script : CScript) : CBlock where
  hash := 2
  hashPrevBlock := 1
  nVersion := 3
  vtx :=
    [{ hash := 11, vin := [⟨COutPoint.null, [0x51, 0x51], 0xffffffff⟩], vout := [⟨0, [0x51]⟩] },
     { hash := 12, vin := [⟨⟨0, 0⟩, [OP_ZEROCOINSPEND], 1⟩], vout := [⟨COIN, script⟩] }]

def supplyRun (script : CScript) : Option ChainState :=
  connectAll unbackedNet ConnectContext.plainConnect [genesisBlock, spendInto script] {}

theorem supply_nonNegative_minted :
    ∃ s, supplyRun [OP_ZEROCOINMINT, 0, 0, 0, 0, 0, 1, 2, 3] = some s ∧ s.chain.length = 2 ∧
      ∀ a ∈ s.chain, (s.supply a.block.hash).NonNegative := by
  have hlength : (supplyRun [OP_ZEROCOINMINT, 0, 0, 0, 0, 0, 1, 2, 3]).map
      (fun s => s.chain.length) = some 2 := by decide +kernel
  obtain ⟨s, hs, hlen⟩ := Option.map_eq_some_iff.mp hlength
  obtain ⟨hfresh, mid, hmid, hrest⟩ := connectAll_cons hs
  obtain ⟨hfresh', t, ht, hnil⟩ := connectAll_cons hrest
  obtain rfl := Option.some.inj hnil
  have hzero : mid.supply = fun _ => ZerocoinSupply.zero := by
    obtain ⟨r, -, ⟨-, rfl⟩ | ⟨hne, -⟩⟩ := connect_cases hmid
    · rfl
    · exact absurd rfl hne
  have hcovered : SpendsCovered unbackedNet.lib
      (spendInto [OP_ZEROCOINMINT, 0, 0, 0, 0, 0, 1, 2, 3])
      (mid.supplyBefore (spendInto [OP_ZEROCOINMINT, 0, 0, 0, 0, 0, 1, 2, 3])) := by
    have hbefore : mid.supplyBefore (spendInto [OP_ZEROCOINMINT, 0, 0, 0, 0, 0, 1, 2, 3]) =
        ZerocoinSupply.zero := by
      simp only [supplyBefore, hzero, startingSupply, ite_self]
      split <;> rfl
    rw [hbefore]
    intro d _
    cases d <;> decide
  have hgenesis : Reachable unbackedNet (SupplyCovered unbackedNet) mid := by
    refine .step _ .start ?_ (.connect hfresh hmid)
    intro hne
    exact absurd rfl hne
  have hminted : Reachable unbackedNet (SupplyCovered unbackedNet) t := by
    refine .step _ hgenesis ?_ (.connect hfresh' ht)
    intro _ _
    exact hcovered
  exact ⟨t, hs, hlen, (supply_nonNegative unbackedNet t hminted).1⟩

theorem supply_below_zero :
    ∃ s, Reachable unbackedNet (fun _ _ => True) s ∧ (∃ a ∈ s.chain, a.block = spendInto [0x51]) ∧
      s.supply (spendInto [0x51]).hash CoinDenomination.ZQ_ONE = -1 := by
  have hrun : (supplyRun [0x51]).map (fun s => (s.chain.head?.map ActiveBlock.block,
      s.supply 2 CoinDenomination.ZQ_ONE)) = some (some (spendInto [0x51]), -1) := by decide +kernel
  obtain ⟨s, hs, hval⟩ := Option.map_eq_some_iff.mp hrun
  simp only [Prod.mk.injEq, Option.map_eq_some_iff] at hval
  obtain ⟨⟨a, ha, hblock⟩, hsupply⟩ := hval
  exact ⟨s, reachable_connectAll .start (fun _ _ _ => trivial) hs,
    ⟨a, List.mem_of_mem_head? ha, hblock⟩, hsupply⟩

end ChainState

end AnkerNode
