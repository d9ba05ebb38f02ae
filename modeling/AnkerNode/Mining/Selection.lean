import AnkerNode.Mining.Collection

namespace AnkerNode

namespace Selection

def waiting (s : Selection) : List CTransaction :=
  (s.vOrphan.filter fun o => decide (o.2.setDependsOn ≠ ∅)).map fun o => o.2.ptx

def queued (s : Selection) : List CTransaction := s.vecPriority ++ s.waiting

def addresses (s : Selection) : List Nat := s.vOrphan.map Prod.fst

-- What a transaction that is taken and not placed leaves as it is.
def ledger (s : Selection) : CCoinsView × Nat × List Int × List CTransaction × List Int :=
  (s.view, s.nBlockCost, s.vBlockSerials, s.vtx, s.vTxFees)

end Selection

namespace MinerContext

open Selection

-- An address occurs once, so that only its own entry changes.
theorem map_at {A : Type} {id : Nat} {a : A} {before after : List (Nat × A)} (f : A → A)
    (hnd : ((before ++ (id, a) :: after).map Prod.fst).Nodup) :
    (before ++ (id, a) :: after).map (fun o => if o.1 = id then (o.1, f o.2) else o) =
      before ++ (id, f a) :: after := by
  have hother : ∀ l : List (Nat × A), id ∉ l.map Prod.fst →
      l.map (fun o => if o.1 = id then (o.1, f o.2) else o) = l := by
    intro l hl
    refine (List.map_congr_left fun o ho => if_neg ?_).trans (List.map_id l)
    rintro rfl
    exact hl (List.mem_map_of_mem ho)
  rw [List.map_append, List.map_cons, List.nodup_append, List.nodup_cons] at hnd
  obtain ⟨-, ⟨hafter, -⟩, hne⟩ := hnd
  have hbefore : id ∉ before.map Prod.fst := fun hid => hne id hid id List.mem_cons_self rfl
  simp only [List.map_append, List.map_cons, hother before hbefore, hother after hafter, if_true]

theorem releaseOrphan_spec {hash : UInt256} {s s' : Selection} {id : Nat}
    (hnd : s.addresses.Nodup) (h : releaseOrphan hash s id = some s') :
    s'.addresses = s.addresses ∧ s'.queued.Perm s.queued ∧ s'.ledger = s.ledger := by
  rw [releaseOrphan, Option.map_eq_some_iff] at h
  obtain ⟨⟨id', orphan⟩, hfind, h⟩ := h
  obtain ⟨hid, before, after, horphans, -⟩ := List.find?_eq_some_iff_append.mp hfind
  obtain rfl : id' = id := by simpa using hid
  by_cases hempty : orphan.setDependsOn = ∅
  · simp only [hempty, if_true] at h
    exact h ▸ ⟨rfl, .refl _, rfl⟩
  · simp only [hempty, if_false] at h
    rw [addresses, horphans] at hnd
    have hmap := map_at (fun o : COrphan => { o with setDependsOn := orphan.setDependsOn.erase hash })
      hnd
    simp only [horphans, hmap] at h
    subst h
    refine ⟨by simp [addresses, horphans], ?_, rfl⟩
    by_cases hleft : orphan.setDependsOn.erase hash = ∅
    · simp only [queued, waiting, horphans, List.filter_append, List.filter_cons, hempty, hleft,
        List.map_append, List.map_cons, ne_eq, not_true_eq_false, not_false_eq_true, decide_true,
        decide_false, if_true, Bool.false_eq_true, if_false, List.append_assoc,
        List.singleton_append]
      exact List.Perm.append_left _ List.perm_middle.symm
    · simp only [queued, waiting, horphans, List.filter_append, List.filter_cons, hempty, hleft,
        List.map_append, List.map_cons, ne_eq, not_false_eq_true, decide_true, if_true, if_false,
        List.Perm.refl]

theorem releaseOrphans_spec {hash : UInt256} {ids : List Nat} {s s' : Selection}
    (hnd : s.addresses.Nodup) (h : ids.foldlM (releaseOrphan hash) s = some s') :
    s'.addresses = s.addresses ∧ s'.queued.Perm s.queued ∧ s'.ledger = s.ledger := by
  induction ids generalizing s with
  | nil =>
    obtain rfl : s = s' := by simpa using h
    exact ⟨rfl, .refl _, rfl⟩
  | cons id ids ih =>
    simp only [List.foldlM_cons, Option.bind_eq_bind, Option.bind_eq_some_iff] at h
    obtain ⟨s₁, hone, hrest⟩ := h
    obtain ⟨haddr, hqueued, hledger⟩ := releaseOrphan_spec hnd hone
    obtain ⟨haddr', hqueued', hledger'⟩ := ih (haddr ▸ hnd) hrest
    exact ⟨haddr'.trans haddr, hqueued'.trans hqueued, hledger'.trans hledger⟩

variable {P F : Type} (ctx : MinerContext P F)

def serials (tx : CTransaction) : List Int :=
  if tx.isZerocoinSpend then
    (zerocoinSpends ctx.connect.lib tx).map CoinSpend.coinSerialNumber
  else []

-- The coins after a transaction whose inputs are there, and the fees so far.
def applyTx (state : CCoinsView × List Int) (tx : CTransaction) : Option (CCoinsView × List Int) :=
  if state.1.haveInputs tx then do
    let nValueIn ← state.1.getValueIn tx
    let nValueOut ← tx.getValueOut
    let (view, _) ← state.1.updateCoins tx ctx.nHeight
    some (view, state.2 ++ [nValueIn - nValueOut])
  else none

-- The transaction that is taken is left out, or the block grows by it.
inductive Taken (s : Selection) (tx : CTransaction) (s' : Selection) : Bool → Prop
  | left (hledger : s'.ledger = s.ledger) (haddr : s'.addresses = s.addresses)
      (hqueued : s'.queued.Perm (s.vecPriority.erase tx ++ s.waiting)) : Taken s tx s' false
  | placed {view : CCoinsView} {vTxFees vTxSerials : List Int}
      (hlimit : s.nBlockCost + txCost tx < ctx.args.nBlockMaxCost)
      (happly : ctx.applyTx (s.view, s.vTxFees) tx = some (view, vTxFees))
      (hserials : (ctx.serials tx).Nodup) (hfresh : (ctx.serials tx).Disjoint s.vBlockSerials)
      (hrecorded : ∀ serial ∈ ctx.serials tx, serial ∈ vTxSerials)
      (hledger : s'.ledger = (view, s.nBlockCost + txCost tx, s.vBlockSerials ++ vTxSerials,
        s.vtx ++ [tx], vTxFees))
      (haddr : s'.addresses = s.addresses)
      (hqueued : s'.queued.Perm (s.vecPriority.erase tx ++ s.waiting)) : Taken s tx s' true

variable {ctx}

theorem checkSerials_spec {vBlockSerials vTxSerials vTxSerials' : List Int} {spends : List CoinSpend}
    (h : ctx.checkSerials vBlockSerials spends vTxSerials = (vTxSerials', false)) :
    vTxSerials' = vTxSerials ++ spends.map CoinSpend.coinSerialNumber ∧
      (spends.map CoinSpend.coinSerialNumber).Nodup ∧
        (spends.map CoinSpend.coinSerialNumber).Disjoint (vBlockSerials ++ vTxSerials) := by
  induction spends generalizing vTxSerials with
  | nil =>
    simp only [checkSerials, Prod.mk.injEq, and_true] at h
    simp [h]
  | cons spend spends ih =>
    rw [checkSerials] at h
    split at h
    · simp at h
    · rename_i hcheck
      simp only [Bool.or_eq_true, List.contains_iff_mem, not_or] at hcheck
      obtain ⟨heq, hnd, hdisj⟩ := ih h
      rw [← List.append_assoc, List.disjoint_append_right, List.disjoint_singleton] at hdisj
      refine ⟨by simp [heq], List.nodup_cons.mpr ⟨hdisj.2, hnd⟩, ?_⟩
      rw [List.map_cons, List.disjoint_cons_left, List.mem_append, not_or]
      exact ⟨⟨hcheck.1.2, hcheck.2⟩, hdisj.1⟩

theorem place_cases {s s' : Selection} {tx : CTransaction} {fPlaced : Bool}
    (hnd : s.addresses.Nodup) (hinputs : s.view.haveInputs tx = true)
    (h : ctx.place s tx = some (s', fPlaced)) :
    (fPlaced = false ∧ s' = s) ∨ (fPlaced = true ∧ ∃ view vTxFees,
      ctx.applyTx (s.view, s.vTxFees) tx = some (view, vTxFees) ∧
        s'.ledger = (view, s.nBlockCost + txCost tx, s.vBlockSerials ++ s.vTxSerials,
          s.vtx ++ [tx], vTxFees) ∧
        s'.addresses = s.addresses ∧ s'.queued.Perm s.queued) := by
  simp only [place, Option.bind_eq_bind, Option.bind_eq_some_iff] at h
  obtain ⟨nValueIn, hin, nValueOut, hout, h⟩ := h
  split at h
  · simp only [Option.some.injEq, Prod.mk.injEq] at h
    exact .inl ⟨h.2.symm, h.1.symm⟩
  · simp only [Option.bind_eq_some_iff, Option.map_eq_some_iff, Prod.exists, Prod.mk.injEq] at h
    obtain ⟨view, undo, hupdate, released, hrelease, rfl, rfl⟩ := h
    obtain ⟨haddr, hqueued, hledger⟩ := releaseOrphans_spec (by exact hnd) hrelease
    refine .inr ⟨rfl, view, _, ?_, hledger, haddr, hqueued⟩
    simp [applyTx, hinputs, hin, hout, hupdate]

theorem placeSpend_cases {s s' : Selection} {tx : CTransaction} {fPlaced : Bool}
    (hnd : s.addresses.Nodup) (hinputs : s.view.haveInputs tx = true)
    (h : ctx.placeSpend s tx = some (s', fPlaced)) :
    (fPlaced = false ∧ s'.ledger = s.ledger ∧ s'.addresses = s.addresses ∧ s'.queued = s.queued) ∨
    (fPlaced = true ∧ (ctx.serials tx).Nodup ∧ (ctx.serials tx).Disjoint s.vBlockSerials ∧
      ∃ view vTxFees vTxSerials, (∀ serial ∈ ctx.serials tx, serial ∈ vTxSerials) ∧
        ctx.applyTx (s.view, s.vTxFees) tx = some (view, vTxFees) ∧
        s'.ledger = (view, s.nBlockCost + txCost tx, s.vBlockSerials ++ vTxSerials,
          s.vtx ++ [tx], vTxFees) ∧
        s'.addresses = s.addresses ∧ s'.queued.Perm s.queued) := by
  rw [placeSpend] at h
  cases hspend : tx.isZerocoinSpend with
  | false =>
    have hserials : ctx.serials tx = [] := by simp [serials, hspend]
    simp only [hspend, Bool.not_false, if_true] at h
    rcases place_cases hnd hinputs h with ⟨rfl, rfl⟩ | ⟨rfl, view, vTxFees, hplaced⟩
    · exact .inl ⟨rfl, rfl, rfl, rfl⟩
    · exact .inr ⟨rfl, by simp [hserials], by simp [hserials], view, vTxFees, _, by simp [hserials],
        hplaced⟩
  | true =>
    have hserials : ctx.serials tx =
        (zerocoinSpends ctx.connect.lib tx).map CoinSpend.coinSerialNumber := by
      simp [serials, hspend]
    simp only [hspend, Bool.not_true, Bool.false_eq_true, if_false] at h
    split at h
    · obtain ⟨rfl, rfl⟩ := Prod.mk.inj (Option.some.inj h)
      exact .inl ⟨rfl, rfl, rfl, rfl⟩
    · cases hcheck : ctx.checkSerials s.vBlockSerials (zerocoinSpends ctx.connect.lib tx)
          s.vTxSerials with
      | mk vTxSerials fDoubleSerial =>
        simp only [hcheck] at h
        cases fDoubleSerial with
        | true =>
          obtain ⟨rfl, rfl⟩ := Prod.mk.inj (Option.some.inj h)
          exact .inl ⟨rfl, rfl, rfl, rfl⟩
        | false =>
          simp only [Bool.false_eq_true, if_false] at h
          obtain ⟨heq, hnodup, hdisj⟩ := checkSerials_spec hcheck
          rw [← hserials] at heq hnodup hdisj
          rcases place_cases (by exact hnd) (by exact hinputs) h with
            ⟨rfl, rfl⟩ | ⟨rfl, view, vTxFees, hplaced⟩
          · exact .inl ⟨rfl, rfl, rfl, rfl⟩
          · refine .inr ⟨rfl, hnodup, (List.disjoint_append_right.mp hdisj).1, view, vTxFees,
              vTxSerials, ?_, hplaced⟩
            intro serial hserial
            exact heq ▸ List.mem_append_right _ hserial

theorem select_taken {s s' : Selection} {tx : CTransaction} {fPlaced : Bool}
    (hnd : s.addresses.Nodup) (h : ctx.select s tx = some (s', fPlaced)) :
    ctx.Taken s tx s' fPlaced := by
  rw [select] at h
  have hleft : ∀ {fSorted : Bool}, some (({ s with
      vecPriority := s.vecPriority.erase tx, fSortedByFee := fSorted } : Selection), false) =
        some (s', fPlaced) → ctx.Taken s tx s' fPlaced := by
    intro fSorted heq
    obtain ⟨rfl, rfl⟩ := Prod.mk.inj (Option.some.inj heq)
    exact .left rfl rfl (.refl _)
  split at h
  · exact hleft h
  split at h
  · exact hleft h
  split at h
  · exact hleft h
  rename_i hlimit _
  have hprio : ∃ fSorted, ctx.prioritiseByFee { s with vecPriority := s.vecPriority.erase tx } tx =
      { s with vecPriority := s.vecPriority.erase tx, fSortedByFee := fSorted } := by
    rw [prioritiseByFee]
    split
    · exact ⟨true, rfl⟩
    · exact ⟨s.fSortedByFee, rfl⟩
  obtain ⟨fSorted, hprio⟩ := hprio
  simp only [hprio] at h
  split at h
  · exact hleft h
  · rename_i hinputs
    rw [Bool.not_eq_true, Bool.not_eq_false'] at hinputs
    rcases placeSpend_cases
        (s := { s with vecPriority := s.vecPriority.erase tx, fSortedByFee := fSorted })
        hnd hinputs h with ⟨rfl, hledger, haddr, hqueued⟩ |
      ⟨rfl, hserials, hfresh, view, vTxFees, vTxSerials, hrecorded, happly, hledger, haddr, hqueued⟩
    · exact .left hledger haddr (hqueued ▸ .refl _)
    · exact .placed (Nat.lt_of_not_le hlimit) happly hserials hfresh hrecorded hledger haddr hqueued

end MinerContext

namespace MinerContext

variable {P F : Type} (ctx : MinerContext P F)

-- The pool transactions of a block, in the order of the block.
structure WellFormed (txs : List CTransaction) : Prop where
  pooled : ∀ tx ∈ txs, ctx.pool.Pooled tx
  distinct : (txs.map CTransaction.hash).Nodup
  unspent : (txs.foldlM ctx.applyTx (ctx.view, [])).isSome
  parents : ∀ before tx after, txs = before ++ tx :: after → tx.spendsCoins = true →
    ∀ o ∈ tx.prevouts, (ctx.view.outAt o).isNull = false ∨ ∃ parent ∈ before, parent.hash = o.hash
  outputs : ((txs.filter fun tx => tx.spendsCoins).flatMap CTransaction.prevouts).Nodup
  serials : (txs.flatMap ctx.serials).Nodup
  cost : (txs.map txCost).sum < ctx.args.nBlockMaxCost
  sigOps : (ctx.sigOpCosts txs).sum < MAX_BLOCK_SIGOPS_COST

-- One entry for each transaction of the block, the last ones those of the pool transactions.
structure Aligned (coinbase : CTransaction) (txs : List CTransaction) (t : CBlockTemplate) :
    Prop where
  fees_length : t.vTxFees.length = t.vtx.length
  sigOps_length : t.vTxSigOpsCost.length = t.vtx.length
  fees : ∃ view vTxFees, txs.foldlM ctx.applyTx (ctx.view, []) = some (view, vTxFees) ∧
    t.vTxFees.drop (t.vtx.length - txs.length) = vTxFees ∧ t.vTxFees.head? = some (-vTxFees.sum)
  sigOps : t.vTxSigOpsCost.drop (t.vtx.length - txs.length) = (ctx.sigOpCosts txs).map Int.ofNat
  coinbase : t.vTxSigOpsCost.head? =
    some ((WITNESS_SCALE_FACTOR * ctx.legacySigOpCount coinbase : Nat) : Int)

variable {ctx}

theorem applyTx_eq_some {view view' : CCoinsView} {vTxFees vTxFees' : List Int} {tx : CTransaction}
    (h : ctx.applyTx (view, vTxFees) tx = some (view', vTxFees')) :
    view.haveInputs tx = true ∧ (∃ undo, view.updateCoins tx ctx.nHeight = some (view', undo)) ∧
      vTxFees'.length = vTxFees.length + 1 := by
  rw [applyTx] at h
  split at h
  · rename_i hinputs
    simp only [Option.bind_eq_bind, Option.bind_eq_some_iff, Prod.exists, Option.some.injEq,
      Prod.mk.injEq] at h
    obtain ⟨nValueIn, -, nValueOut, -, view₁, undo, hupdate, rfl, rfl⟩ := h
    exact ⟨hinputs, ⟨undo, hupdate⟩, by simp⟩
  · simp at h

theorem outAt_applyTx {view view' : CCoinsView} {vTxFees vTxFees' : List Int} {tx : CTransaction}
    (h : ctx.applyTx (view, vTxFees) tx = some (view', vTxFees')) {o : COutPoint}
    (ho : (view'.outAt o).isNull = false) : (view.outAt o).isNull = false ∨ tx.hash = o.hash := by
  obtain ⟨-, ⟨undo, hupdate⟩, -⟩ := applyTx_eq_some h
  obtain ⟨mid, hmid, rfl⟩ := CCoinsView.updateCoins_eq_some hupdate
  have hout := CCoinsView.outAt_release_of_not_isNull ho
  by_cases hh : o.hash = tx.hash
  · exact .inr hh.symm
  · rw [if_neg hh] at hout
    rw [hout] at ho
    rw [CCoinsView.markInputsSpent] at hmid
    split at hmid
    · rw [CCoinsView.outAt_spendInputs_of_not_isNull hmid ho] at ho
      exact .inl ho
    · obtain ⟨rfl, -⟩ := Prod.mk.inj (Option.some.inj hmid)
      exact .inl ho

theorem prevouts_applyTx {view view' : CCoinsView} {vTxFees vTxFees' : List Int} {tx : CTransaction}
    (h : ctx.applyTx (view, vTxFees) tx = some (view', vTxFees')) (hspends : tx.spendsCoins = true) :
    tx.prevouts.Nodup ∧ ∀ o ∈ tx.prevouts, (view.outAt o).isNull = false := by
  obtain ⟨-, ⟨undo, hupdate⟩, -⟩ := applyTx_eq_some h
  obtain ⟨mid, hmid, -⟩ := CCoinsView.updateCoins_eq_some hupdate
  rw [CCoinsView.markInputsSpent, if_pos hspends] at hmid
  exact CCoinsView.not_isNull_of_spendInputs hmid

theorem outAt_foldlM_applyTx {txs : List CTransaction} {view view' : CCoinsView}
    {vTxFees vTxFees' : List Int}
    (h : txs.foldlM ctx.applyTx (view, vTxFees) = some (view', vTxFees')) {o : COutPoint}
    (ho : (view'.outAt o).isNull = false) :
    (view.outAt o).isNull = false ∨ ∃ parent ∈ txs, parent.hash = o.hash := by
  induction txs generalizing view vTxFees with
  | nil =>
    obtain ⟨rfl, -⟩ : view = view' ∧ vTxFees = vTxFees' := by simpa using h
    exact .inl ho
  | cons tx txs ih =>
    simp only [List.foldlM_cons, Option.bind_eq_bind, Option.bind_eq_some_iff] at h
    obtain ⟨⟨view₁, vTxFees₁⟩, hone, hrest⟩ := h
    rcases ih hrest with hmid | ⟨parent, hparent, hhash⟩
    · rcases outAt_applyTx hone hmid with hfirst | hhash
      · exact .inl hfirst
      · exact .inr ⟨tx, List.mem_cons_self, hhash⟩
    · exact .inr ⟨parent, List.mem_cons_of_mem _ hparent, hhash⟩

theorem length_foldlM_applyTx {txs : List CTransaction} {view view' : CCoinsView}
    {vTxFees vTxFees' : List Int}
    (h : txs.foldlM ctx.applyTx (view, vTxFees) = some (view', vTxFees')) :
    vTxFees'.length = vTxFees.length + txs.length := by
  induction txs generalizing view vTxFees with
  | nil =>
    obtain ⟨-, rfl⟩ : view = view' ∧ vTxFees = vTxFees' := by simpa using h
    rfl
  | cons tx txs ih =>
    simp only [List.foldlM_cons, Option.bind_eq_bind, Option.bind_eq_some_iff] at h
    obtain ⟨⟨view₁, vTxFees₁⟩, hone, hrest⟩ := h
    rw [ih hrest, (applyTx_eq_some hone).2.2, List.length_cons]
    omega

-- The step at which a transaction of the block is applied.
theorem applied_at {before after : List CTransaction} {tx : CTransaction} {view : CCoinsView}
    {vTxFees : List Int} {result : CCoinsView × List Int}
    (h : (before ++ tx :: after).foldlM ctx.applyTx (view, vTxFees) = some result) :
    ∃ mid vTxFees₁ next vTxFees₂,
      before.foldlM ctx.applyTx (view, vTxFees) = some (mid, vTxFees₁) ∧
        ctx.applyTx (mid, vTxFees₁) tx = some (next, vTxFees₂) := by
  simp only [List.foldlM_append, List.foldlM_cons, Option.bind_eq_bind, Option.bind_eq_some_iff,
    Prod.exists] at h
  obtain ⟨mid, vTxFees₁, hbefore, next, vTxFees₂, hone, -⟩ := h
  exact ⟨mid, vTxFees₁, next, vTxFees₂, hbefore, hone⟩

theorem parents_of_applied {txs : List CTransaction} {result : CCoinsView × List Int}
    (h : txs.foldlM ctx.applyTx (ctx.view, []) = some result) {before after : List CTransaction}
    {tx : CTransaction} (hsplit : txs = before ++ tx :: after) (hspends : tx.spendsCoins = true) :
    ∀ o ∈ tx.prevouts, (ctx.view.outAt o).isNull = false ∨ ∃ parent ∈ before, parent.hash = o.hash := by
  intro o ho
  obtain ⟨mid, vTxFees₁, next, vTxFees₂, hbefore, hone⟩ := applied_at (hsplit ▸ h)
  exact outAt_foldlM_applyTx hbefore ((prevouts_applyTx hone hspends).2 o ho)

theorem prevouts_nodup_of_applied {txs : List CTransaction} {result : CCoinsView × List Int}
    (h : txs.foldlM ctx.applyTx (ctx.view, []) = some result) {tx : CTransaction} (htx : tx ∈ txs)
    (hspends : tx.spendsCoins = true) : tx.prevouts.Nodup := by
  obtain ⟨before, after, rfl⟩ := List.append_of_mem htx
  obtain ⟨mid, vTxFees₁, next, vTxFees₂, -, hone⟩ := applied_at h
  exact (prevouts_applyTx hone hspends).1

theorem poolTxs_pooled (hpool : ctx.pool.SpendIndexed) {tx : CTransaction} (h : tx ∈ ctx.poolTxs) :
    ctx.pool.Pooled tx := by
  obtain ⟨⟨hash, entry⟩, hmem, rfl⟩ := List.mem_map.mp h
  exact hpool.pooled_of_get (Std.TreeMap.mem_toList_iff_getElem?_eq_some.mp hmem)

theorem poolTxs_distinct (hpool : ctx.pool.SpendIndexed) :
    (ctx.poolTxs.map CTransaction.hash).Nodup := by
  have hkeys : ctx.poolTxs.map CTransaction.hash = ctx.pool.mapTx.toList.map Prod.fst := by
    rw [poolTxs, List.map_map]
    refine List.map_congr_left fun it hit => ?_
    exact hpool.keyed it.1 it.2 (Std.TreeMap.mem_toList_iff_getElem?_eq_some.mp hit)
  rw [hkeys, List.nodup_iff_pairwise_ne, List.pairwise_map]
  refine (Std.TreeMap.distinct_keys_toList (t := ctx.pool.mapTx)).imp ?_
  intro a b hne heq
  exact hne (by rw [heq]; exact Std.ReflCmp.compare_self)

end MinerContext

end AnkerNode
