import AnkerNode.Mining.BlockTemplate
import Mathlib.Data.List.Perm.Subperm

namespace AnkerNode

namespace Collection

def orphanTxs (c : Collection) : List CTransaction := c.vOrphan.map fun o => o.2.ptx

def pending (c : Collection) : List CTransaction := c.vecPriority ++ c.orphanTxs

def addresses (c : Collection) : List Nat := c.vOrphan.map Prod.fst

structure Addressed (c : Collection) : Prop where
  nodup : c.addresses.Nodup
  fresh : ∀ id ∈ c.addresses, id < c.nextOrphan

variable {c : Collection}

-- What is left unchanged while the inputs of a transaction are looked at.
def ledger (c : Collection) : Nat × List Int × List CTransaction :=
  (c.nBlockSigOpsCost, c.vTxSigOpsCost, c.vecPriority)

theorem ledger_dependOn (hash : UInt256) (id : Nat) :
    (c.dependOn hash id).ledger = c.ledger := rfl

theorem ledger_orphanFor (tx : CTransaction) (porphan : Option Nat) :
    (c.orphanFor tx porphan).1.ledger = c.ledger := by
  cases porphan <;> rfl

@[simp] theorem orphanTxs_dependOn (hash : UInt256) (id : Nat) :
    (c.dependOn hash id).orphanTxs = c.orphanTxs := by
  simp only [orphanTxs, dependOn, List.map_map]
  refine List.map_congr_left fun o _ => ?_
  simp only [Function.comp_apply]
  split <;> rfl

@[simp] theorem addresses_dependOn (hash : UInt256) (id : Nat) :
    (c.dependOn hash id).addresses = c.addresses := by
  simp only [addresses, dependOn, List.map_map]
  refine List.map_congr_left fun o _ => ?_
  simp only [Function.comp_apply]
  split <;> rfl

theorem Addressed.orphanFor (h : c.Addressed) (tx : CTransaction) (porphan : Option Nat) :
    (c.orphanFor tx porphan).1.Addressed := by
  cases porphan with
  | some id => exact h
  | none =>
    have hids : (c.orphanFor tx none).1.addresses = c.addresses ++ [c.nextOrphan] := by
      simp [Collection.orphanFor, addresses]
    refine ⟨?_, ?_⟩
    · rw [hids, List.nodup_append]
      refine ⟨h.nodup, List.nodup_singleton _, fun id hid id' hid' => ?_⟩
      rw [List.mem_singleton.mp hid']
      exact (h.fresh id hid).ne
    · rw [hids]
      intro id hid
      rcases List.mem_append.mp hid with hid | hid
      · exact Nat.lt_succ_of_lt (h.fresh id hid)
      · rw [List.mem_singleton.mp hid]
        exact Nat.lt_succ_self _

theorem Addressed.dependOn (h : c.Addressed) (hash : UInt256) (id : Nat) :
    (c.dependOn hash id).Addressed := by
  constructor
  · rw [addresses_dependOn]
    exact h.nodup
  · rw [addresses_dependOn]
    exact h.fresh

theorem Addressed.dropLast (h : c.Addressed) :
    Addressed { c with vOrphan := c.vOrphan.dropLast } := by
  have hsub : (List.map Prod.fst c.vOrphan.dropLast).Sublist c.addresses :=
    (List.dropLast_sublist c.vOrphan).map _
  exact ⟨hsub.nodup h.nodup, fun id hid => h.fresh id (hsub.subset hid)⟩

end Collection

namespace MinerContext

variable {P F : Type} (ctx : MinerContext P F)

-- The transactions whose signature operations the first loop books, from a sum on.
def bookedFrom : Nat → List CTransaction → List CTransaction
  | _, [] => []
  | cost, tx :: txs =>
    if ctx.skips tx || decide (MAX_BLOCK_SIGOPS_COST ≤ cost + ctx.sigOpCost tx.hash) then
      bookedFrom cost txs
    else tx :: bookedFrom (cost + ctx.sigOpCost tx.hash) txs

def booked : List CTransaction := ctx.bookedFrom 400 ctx.poolTxs

def sigOpCosts (txs : List CTransaction) : List Nat := txs.map fun tx => ctx.sigOpCost tx.hash

variable {ctx}

theorem bookedFrom_sublist (cost : Nat) (txs : List CTransaction) :
    (ctx.bookedFrom cost txs).Sublist txs := by
  induction txs generalizing cost with
  | nil => exact .slnil
  | cons tx txs ih =>
    rw [bookedFrom]
    split
    · exact (ih cost).cons tx
    · exact (ih _).cons_cons tx

theorem sum_bookedFrom {cost : Nat} (hcost : cost < MAX_BLOCK_SIGOPS_COST) (txs : List CTransaction) :
    cost + (ctx.sigOpCosts (ctx.bookedFrom cost txs)).sum < MAX_BLOCK_SIGOPS_COST := by
  induction txs generalizing cost with
  | nil => simpa [bookedFrom, sigOpCosts] using hcost
  | cons tx txs ih =>
    rw [bookedFrom]
    split
    · exact ih hcost
    · rename_i hroom
      simp only [Bool.or_eq_true, decide_eq_true_eq, not_or, Nat.not_le] at hroom
      have hrest := ih hroom.2
      simp only [sigOpCosts, List.map_cons, List.sum_cons] at hrest ⊢
      omega

-- An orphan stays for a transaction that waits, and goes again when an input is missing.
theorem collectInputs_spec {tx : CTransaction} {txs : List CTransaction} {vin : List CTxIn}
    {c c' : Collection} {porphan : Option Nat} {result : Option (Option Nat)} (hc : c.Addressed)
    (htxs : c.orphanTxs = txs ++ if porphan.isSome then [tx] else [])
    (h : ctx.collectInputs tx vin c porphan = (c', result)) :
    c'.Addressed ∧ c'.ledger = c.ledger ∧
      c'.orphanTxs = txs ++ if (result.getD none).isSome then [tx] else [] := by
  induction vin generalizing c porphan with
  | nil =>
    obtain ⟨rfl, rfl⟩ := Prod.mk.inj h
    exact ⟨hc, rfl, htxs⟩
  | cons txin vin ih =>
    rw [collectInputs] at h
    split at h
    · exact ih hc htxs h
    · split at h
      · obtain ⟨rfl, rfl⟩ := Prod.mk.inj h
        cases porphan with
        | none => exact ⟨hc, rfl, htxs⟩
        | some id =>
          refine ⟨hc.dropLast, rfl, ?_⟩
          simp only [Option.isSome_some, if_true] at htxs ⊢
          simp only [Collection.orphanTxs] at htxs ⊢
          rw [List.map_dropLast, htxs]
          simp
      · have hnext := (hc.orphanFor tx porphan).dependOn txin.prevout.hash (c.orphanFor tx porphan).2
        have hledger : ((c.orphanFor tx porphan).1.dependOn txin.prevout.hash
            (c.orphanFor tx porphan).2).ledger = c.ledger := by
          rw [Collection.ledger_dependOn, Collection.ledger_orphanFor]
        rw [← hledger]
        refine ih hnext ?_ h
        rw [Collection.orphanTxs_dependOn]
        cases porphan with
        | some id => exact htxs
        | none =>
          simp only [Option.isSome_none, Bool.false_eq_true, if_false, List.append_nil] at htxs
          simp only [Option.isSome_some, if_true, ← htxs]
          simp [Collection.orphanFor, Collection.orphanTxs]

theorem collectTx_spec {c c' : Collection} {tx : CTransaction} (hc : c.Addressed)
    (h : ctx.collectTx c tx = some c') : c'.Addressed ∧
      if ctx.skips tx || decide (MAX_BLOCK_SIGOPS_COST ≤ c.nBlockSigOpsCost + ctx.sigOpCost tx.hash) then
        c' = c
      else
        c'.nBlockSigOpsCost = c.nBlockSigOpsCost + ctx.sigOpCost tx.hash ∧
          c'.vTxSigOpsCost = c.vTxSigOpsCost ++ [(ctx.sigOpCost tx.hash : Int)] ∧
            c'.pending.Subperm (c.pending ++ [tx]) := by
  rw [collectTx] at h
  by_cases hskip : ctx.skips tx = true
  · rw [if_pos hskip] at h
    cases h
    simp [hskip, hc]
  · rw [if_neg hskip] at h
    by_cases hroom : MAX_BLOCK_SIGOPS_COST ≤ c.nBlockSigOpsCost + ctx.sigOpCost tx.hash
    · rw [if_pos hroom] at h
      cases h
      simp [hroom, hc]
    · rw [if_neg hroom] at h
      rw [if_neg (by simp [hskip, hroom])]
      generalize hbooked : ({ c with
        nBlockSigOpsCost := c.nBlockSigOpsCost + ctx.sigOpCost tx.hash
        vTxSigOpsCost := c.vTxSigOpsCost ++ [(ctx.sigOpCost tx.hash : Int)] } : Collection) = c₁ at h
      have hc₁ : c₁.Addressed := hbooked ▸ ⟨hc.nodup, hc.fresh⟩
      have hvec : c₁.vecPriority = c.vecPriority := hbooked ▸ rfl
      have horphans : c.orphanTxs ++ [] = c₁.orphanTxs := by rw [← hbooked, List.append_nil]; rfl
      cases hinputs : ctx.collectInputs tx tx.vin c₁ none with
      | mk c₂ result =>
        obtain ⟨haddressed, hledger, htxs⟩ := collectInputs_spec hc₁ horphans.symm hinputs
        simp only [Collection.ledger, Prod.mk.injEq, hvec] at hledger
        have hsums : c₂.nBlockSigOpsCost = c.nBlockSigOpsCost + ctx.sigOpCost tx.hash ∧
            c₂.vTxSigOpsCost = c.vTxSigOpsCost ++ [(ctx.sigOpCost tx.hash : Int)] :=
          ⟨hledger.1.trans (hbooked ▸ rfl), hledger.2.1.trans (hbooked ▸ rfl)⟩
        simp only [hinputs] at h
        cases result with
        | none =>
          cases h
          refine ⟨haddressed, hsums.1, hsums.2, ?_⟩
          simp only [Option.getD_none, Option.isSome_none, Bool.false_eq_true, if_false,
            List.append_nil] at htxs
          rw [Collection.pending, hledger.2.2, htxs]
          exact (List.sublist_append_left _ _).subperm
        | some porphan =>
          simp only [Option.map_eq_some_iff] at h
          obtain ⟨_, -, rfl⟩ := h
          cases porphan with
          | none =>
            simp only [Option.getD_some, Option.isSome_none, Bool.false_eq_true, if_false,
              List.append_nil] at htxs ⊢
            refine ⟨⟨haddressed.nodup, haddressed.fresh⟩, hsums.1, hsums.2, List.Perm.subperm ?_⟩
            simp only [Collection.pending, hledger.2.2, List.append_assoc]
            refine List.Perm.append_left _ (List.perm_append_comm.trans ?_)
            exact htxs ▸ .refl _
          | some id =>
            simp only [Option.getD_some, Option.isSome_some, if_true] at htxs ⊢
            refine ⟨haddressed, hsums.1, hsums.2, ?_⟩
            rw [Collection.pending, hledger.2.2, htxs, Collection.pending, List.append_assoc]

theorem foldlM_collectTx {txs : List CTransaction} {c c' : Collection} (hc : c.Addressed)
    (h : txs.foldlM ctx.collectTx c = some c') : c'.Addressed ∧
      c'.vTxSigOpsCost = c.vTxSigOpsCost ++
        (ctx.sigOpCosts (ctx.bookedFrom c.nBlockSigOpsCost txs)).map Int.ofNat ∧
      c'.pending.Subperm (c.pending ++ ctx.bookedFrom c.nBlockSigOpsCost txs) := by
  induction txs generalizing c with
  | nil =>
    obtain rfl : c = c' := by simpa using h
    exact ⟨hc, by simp [bookedFrom, sigOpCosts], (List.sublist_append_left _ _).subperm⟩
  | cons tx txs ih =>
    simp only [List.foldlM_cons, Option.bind_eq_bind, Option.bind_eq_some_iff] at h
    obtain ⟨c₁, hone, hrest⟩ := h
    obtain ⟨hc₁, hstep⟩ := collectTx_spec hc hone
    obtain ⟨hc', hcosts, hpending⟩ := ih hc₁ hrest
    rw [bookedFrom]
    split at hstep
    · rename_i hskip
      rw [if_pos hskip]
      subst hstep
      exact ⟨hc', hcosts, hpending⟩
    · rename_i hroom
      obtain ⟨hsum, hbooked, hone⟩ := hstep
      rw [hsum] at hcosts hpending
      rw [if_neg hroom]
      refine ⟨hc', ?_, ?_⟩
      · rw [hcosts, hbooked]
        simp [sigOpCosts]
      · refine hpending.trans ?_
        rw [List.append_cons c.pending]
        exact (List.subperm_append_right _).mpr hone

theorem collect_spec {c : Collection} (h : ctx.collect = some c) :
    c.Addressed ∧ c.vTxSigOpsCost = -1 :: (ctx.sigOpCosts ctx.booked).map Int.ofNat ∧
      c.pending.Subperm ctx.booked :=
  foldlM_collectTx ⟨by simp [Collection.addresses], by simp [Collection.addresses]⟩ h

end MinerContext

end AnkerNode
