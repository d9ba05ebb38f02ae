import AnkerNode.Mempool.ImmatureSpends
import AnkerNode.Validation.DisconnectSpec

namespace AnkerNode

open Checks

-- an output that a transaction can spend: none of the pruned, the mints and the dead ones
def CCoins.Spendable (c : CCoins) (n : Nat) : Prop :=
  c.isAvailable n = true ∧ (c.outAt n).scriptPubKey.isUnspendable = false

def CTransaction.Offers (tx : CTransaction) (o : COutPoint) : Prop :=
  tx.hash = o.hash ∧ (CCoins.fromTx tx 0).isAvailable o.n.toNat = true

-- No transaction of the list spends an output of its own, of a later one or of the null hash.
def InOrder : List CTransaction → Prop
  | [] => True
  | tx :: vtx =>
    (tx.spendsCoins = true → ∀ o ∈ tx.prevouts, o.hash ≠ 0 ∧ ∀ q ∈ tx :: vtx, o.hash ≠ q.hash) ∧
      InOrder vtx

namespace CCoins

theorem outAt_fromTx (tx : CTransaction) (nHeight nHeight' : Int) (n : Nat) :
    (fromTx tx nHeight).outAt n = (fromTx tx nHeight').outAt n := rfl

theorem isAvailable_fromTx (tx : CTransaction) (nHeight nHeight' : Int) (n : Nat) :
    (fromTx tx nHeight).isAvailable n = (fromTx tx nHeight').isAvailable n := rfl

theorem outAt_fromTx_of_vout {a b : CTransaction} (h : a.vout = b.vout) (nHeight : Int) (n : Nat) :
    (fromTx a nHeight).outAt n = (fromTx b nHeight).outAt n := by
  simp only [fromTx, clearUnspendable, cleanup, outAt, h]

theorem getElem?_of_not_isNull_fromTx {tx : CTransaction} {nHeight : Int} {n : Nat}
    (h : ((fromTx tx nHeight).outAt n).isNull = false) :
    ∃ out, tx.vout[n]? = some out ∧ out.isNull = false ∧
      out.scriptPubKey.isUnspendable = false ∧ (fromTx tx nHeight).outAt n = out := by
  have hout := outAt_fromTx_of_not_isNull h
  have hlt : n < tx.vout.length := by
    by_contra hle
    rw [hout, List.getD_eq_default _ _ (by omega)] at h
    simp at h
  rw [List.getD_eq_getElem _ _ hlt] at hout
  refine ⟨tx.vout[n], List.getElem?_eq_getElem hlt, ?_, ?_, hout⟩
  · rw [← hout]
    exact h
  · have hcl : (fromTx tx nHeight).outAt n = dropUnspendable tx.vout[n] := by
      rw [fromTx, clearUnspendable, outAt_cleanup_of_not_isNull h]
      simp only [outAt]
      rw [List.getD_eq_getElem _ _ (by simpa using hlt), List.getElem_map]
    rw [hout, dropUnspendable] at hcl
    by_contra hu
    rw [Bool.not_eq_false] at hu
    rw [if_pos hu] at hcl
    rw [hout, hcl] at h
    simp at h

theorem spendable_fromTx_iff {tx : CTransaction} {nHeight : Int} {n : Nat} :
    (fromTx tx nHeight).Spendable n ↔ (fromTx tx 0).isAvailable n = true := by
  refine ⟨fun h => h.1, fun h => ⟨h, ?_⟩⟩
  obtain ⟨out, -, -, hu, hout⟩ := getElem?_of_not_isNull_fromTx (isAvailable_iff.mp h).1
  rw [outAt_fromTx tx nHeight 0, hout]
  exact hu

end CCoins

namespace CCoinsView

def Spendable (view : CCoinsView) (o : COutPoint) : Prop :=
  (view.modified o.hash).Spendable o.n.toNat

-- no unspent output stands under the transaction id
def Lacks (view : CCoinsView) (txid : UInt256) : Prop :=
  ∀ o : COutPoint, o.hash = txid → (view.outAt o).isNull = true

variable {view view' : CCoinsView}

theorem Spendable.not_isNull {o : COutPoint} (h : view.Spendable o) :
    (view.outAt o).isNull = false := (CCoins.isAvailable_iff.mp h.1).1

theorem Lacks.ne_of_spendable {txid : UInt256} (hl : view.Lacks txid) {o : COutPoint}
    (h : view.Spendable o) : o.hash ≠ txid := by
  intro heq
  have hn := h.not_isNull
  rw [hl o heq] at hn
  cases hn

theorem spendable_congr {o : COutPoint}
    (h : view'.outAt o = view.outAt o) : view'.Spendable o ↔ view.Spendable o := by
  simp only [outAt] at h
  simp only [Spendable, CCoins.Spendable, CCoins.isAvailable_iff, h]

theorem lacks_of_unspent {txid : UInt256} (h : view.unspent txid = none) : view.Lacks txid := by
  rintro o rfl
  exact CCoins.isNull_outAt_of_isPruned (isPruned_modified h) _

section Update

theorem isNull_outAt_spendInputs {prevouts : List COutPoint} {vprevout : List CTxInUndo}
    (h : view.spendInputs prevouts = some (view', vprevout)) (o : COutPoint) :
    (view'.outAt o).isNull = if o ∈ prevouts then true else (view.outAt o).isNull := by
  induction prevouts generalizing view vprevout with
  | nil =>
    simp only [spendInputs, Option.some.injEq, Prod.mk.injEq] at h
    simp [h.1]
  | cons prevout rest ih =>
    obtain ⟨mid, undo, vrest, hone, hrest, -⟩ := spendInputs_cons_eq_some h
    rw [ih hrest, (isNull_outAt_spendInput hone).2]
    by_cases hfirst : o = prevout
    · simp [hfirst]
    · simp [hfirst]

theorem isNull_outAt_release_ne {txid : UInt256} {c : CCoins} {o : COutPoint} (h : o.hash ≠ txid) :
    (view.release txid c).outAt o = view.outAt o := by
  rw [outAt, outAt, modified_release_ne h]

theorem spendable_release_self {c : CCoins} {o : COutPoint} (h : c.Spendable o.n.toNat) :
    (view.release o.hash c).Spendable o := by
  have hnull : ((view.release o.hash c).outAt o).isNull = false := by
    rw [isNull_outAt_release_self]
    exact (CCoins.isAvailable_iff.mp h.1).1
  have hout := outAt_release_of_not_isNull hnull
  rw [if_pos rfl] at hout
  simp only [outAt] at hout
  simp only [Spendable, CCoins.Spendable, CCoins.isAvailable_iff, hout]
  exact ⟨CCoins.isAvailable_iff.mp h.1, h.2⟩

theorem isNull_outAt_markInputsSpent {tx : CTransaction} {vprevout : List CTxInUndo}
    (h : view.markInputsSpent tx = some (view', vprevout)) (o : COutPoint) :
    (view'.outAt o).isNull =
        (if tx.spendsCoins = true ∧ o ∈ tx.prevouts then true else (view.outAt o).isNull) ∧
      ((view'.outAt o).isNull = false → view'.outAt o = view.outAt o) := by
  rw [markInputsSpent] at h
  split at h
  · rename_i hs
    refine ⟨?_, outAt_spendInputs_of_not_isNull h⟩
    rw [isNull_outAt_spendInputs h]
    simp only [hs, true_and]
  · rename_i hs
    simp only [Option.some.injEq, Prod.mk.injEq] at h
    simp [hs, h.1]

theorem Lacks.updateCoins {tx : CTransaction} {nHeight : Int} {txundo : CTxUndo} {txid : UInt256}
    (hl : view.Lacks txid) (hne : txid ≠ tx.hash)
    (h : view.updateCoins tx nHeight = some (view', txundo)) : view'.Lacks txid := by
  obtain ⟨mid, hmid, rfl⟩ := updateCoins_eq_some h
  intro o ho
  rw [isNull_outAt_release_ne (by rw [ho]; exact hne), (isNull_outAt_markInputsSpent hmid o).1]
  split
  · rfl
  · exact hl o ho

-- Connecting a transaction loses no output but the ones that it spends.
theorem Spendable.updateCoins {tx : CTransaction} {nHeight : Int} {txundo : CTxUndo}
    {o : COutPoint} (hs : view.Spendable o ∨ tx.Offers o) (hfree : o ∉ tx.prevouts)
    (hfresh : view.Lacks tx.hash) (h : view.updateCoins tx nHeight = some (view', txundo)) :
    view'.Spendable o := by
  obtain ⟨mid, hmid, rfl⟩ := updateCoins_eq_some h
  rcases hs with hs | hoffers
  · obtain ⟨hnull, hsame⟩ := isNull_outAt_markInputsSpent hmid o
    rw [if_neg fun hspent => hfree hspent.2, hs.not_isNull] at hnull
    refine (spendable_congr ?_).mpr hs
    rw [isNull_outAt_release_ne (hfresh.ne_of_spendable hs), hsame hnull]
  · rw [hoffers.1]
    exact spendable_release_self (CCoins.spendable_fromTx_iff.mpr hoffers.2)

end Update

section Undo

theorem undoInput_keeps {prevout : COutPoint} {undo : CTxInUndo} {fClean : Bool}
    (h : undoInput prevout undo (view, fClean) = (view', true)) :
    fClean = true ∧ (∀ o, view.Spendable o → view'.Spendable o) ∧
      ∀ txid, prevout.hash ≠ txid → view.Lacks txid → view'.Lacks txid := by
  simp only [undoInput, Prod.mk.injEq, Bool.and_eq_true, Bool.not_eq_true'] at h
  obtain ⟨rfl, ⟨hclean, hspent⟩, hfree⟩ := h
  refine ⟨hclean, fun o hs => ?_, fun txid hne hl o ho => ?_⟩
  · by_cases hh : o.hash = prevout.hash
    · rw [← hh] at hspent hfree ⊢
      have hnull := hs.not_isNull
      have hheight : undo.nHeight = 0 := by
        by_contra hne
        rw [if_pos hne] at hspent
        rw [outAt, CCoins.isNull_outAt_of_isPruned hspent] at hnull
        cases hnull
      simp only [hheight, ne_eq, not_true_eq_false, if_false] at hfree ⊢
      refine spendable_release_self ?_
      have hn : o.n.toNat ≠ prevout.n.toNat := by
        intro heq
        rw [← heq, hs.1] at hfree
        cases hfree
      simp only [CCoins.Spendable, CCoins.isAvailable_iff, CCoins.outAt_restoreOutput, if_neg hn]
      exact ⟨CCoins.isAvailable_iff.mp hs.1, hs.2⟩
    · exact (spendable_congr (isNull_outAt_release_ne hh)).mpr hs
  · rw [isNull_outAt_release_ne (by rw [ho]; exact hne.symm)]
    exact hl o ho

theorem undoInputs_keeps {inputs : List (COutPoint × CTxInUndo)} {fClean : Bool}
    (h : undoInputs inputs (view, fClean) = (view', true)) :
    fClean = true ∧ (∀ o, view.Spendable o → view'.Spendable o) ∧
      ∀ txid, (∀ p ∈ inputs, p.1.hash ≠ txid) → view.Lacks txid → view'.Lacks txid := by
  induction inputs generalizing view' with
  | nil =>
    simp only [undoInputs, List.foldr_nil, Prod.mk.injEq] at h
    obtain ⟨rfl, hclean⟩ := h
    exact ⟨hclean, fun _ hs => hs, fun _ _ hl => hl⟩
  | cons p inputs ih =>
    obtain ⟨⟨mid, fMid⟩, hmid⟩ : ∃ acc, undoInputs inputs (view, fClean) = acc := ⟨_, rfl⟩
    rw [undoInputs, List.foldr_cons, ← undoInputs, hmid] at h
    obtain ⟨rfl, hkeeps, hlacks⟩ := undoInput_keeps h
    obtain ⟨hclean', hkeeps', hlacks'⟩ := ih hmid
    refine ⟨hclean', fun o hs => hkeeps o (hkeeps' o hs), fun txid hne hl => ?_⟩
    rw [List.forall_mem_cons] at hne
    exact hlacks txid hne.1 (hlacks' txid hne.2 hl)

theorem spendable_clearUnspendable {c : CCoins} {n : Nat} (h : c.Spendable n) :
    c.clearUnspendable.outAt n = c.outAt n ∧ (c.clearUnspendable.outAt n).isNull = false := by
  have hnull := (CCoins.isAvailable_iff.mp h.1).1
  have hlt := CCoins.lt_length_of_outAt hnull
  have hdrop : ({ c with vout := c.vout.map CCoins.dropUnspendable } : CCoins).outAt n =
      c.outAt n := by
    have hu := h.2
    simp only [CCoins.outAt] at hu ⊢
    rw [List.getD_eq_getElem _ _ hlt] at hu ⊢
    rw [List.getD_eq_getElem _ _ (by simpa using hlt), List.getElem_map, CCoins.dropUnspendable, hu]
    rfl
  have hleft : (c.clearUnspendable.outAt n).isNull = false := by
    rw [CCoins.clearUnspendable, CCoins.isNull_outAt_cleanup, hdrop]
    exact hnull
  refine ⟨?_, hleft⟩
  rw [CCoins.clearUnspendable] at hleft ⊢
  rw [CCoins.outAt_cleanup_of_not_isNull hleft, hdrop]

theorem lacks_release_clear {txid txid' : UInt256} (hl : view.Lacks txid' ∨ txid' = txid) :
    (view.release txid CCoins.clear).Lacks txid' := by
  intro o ho
  by_cases hh : o.hash = txid
  · rw [← hh, isNull_outAt_release_self]
    simp [CCoins.clear, CCoins.outAt]
  · rw [isNull_outAt_release_ne hh]
    rcases hl with hl | rfl
    · exact hl o ho
    · exact absurd ho hh

-- The outputs that DisconnectBlock takes back are the transaction's own.
theorem undoOutputs_keeps {tx : CTransaction} {nHeight : Int} {fClean : Bool}
    (h : undoOutputs tx nHeight (view, fClean) = (view', true)) :
    fClean = true ∧ (∀ o, view.Spendable o → view'.Spendable o ∨ tx.Offers o) ∧
      ∀ txid, view.Lacks txid ∨ txid = tx.hash → view'.Lacks txid := by
  simp only [undoOutputs, Prod.mk.injEq, Bool.and_eq_true] at h
  obtain ⟨rfl, hclean, hbeq⟩ := h
  refine ⟨hclean, fun o hs => ?_, fun txid hl => lacks_release_clear hl⟩
  by_cases hh : o.hash = tx.hash
  · right
    refine ⟨hh.symm, ?_⟩
    rw [← hh] at hbeq
    obtain ⟨hsame, hnull⟩ := spendable_clearUnspendable hs
    have hout : ∀ outs : CCoins, outs.vout = (view.modified o.hash).clearUnspendable.vout →
        outs.beq (CCoins.fromTx tx nHeight) = true →
          (CCoins.fromTx tx nHeight).outAt o.n.toNat = (view.modified o.hash).outAt o.n.toNat := by
      intro outs hvout hbeq
      have hat : outs.outAt o.n.toNat =
          (view.modified o.hash).clearUnspendable.outAt o.n.toNat := by
        rw [CCoins.outAt, CCoins.outAt, hvout]
      simp only [CCoins.beq, Bool.or_eq_true, Bool.and_eq_true, beq_iff_eq] at hbeq
      rcases hbeq with ⟨hpruned, -⟩ | heq
      · rw [← hat, CCoins.isNull_outAt_of_isPruned hpruned] at hnull
        cases hnull
      · rw [← heq, hat, hsame]
    have hfrom := hout _ (by split <;> rfl) hbeq
    rw [CCoins.isAvailable_iff, CCoins.outAt_fromTx tx 0 nHeight, hfrom]
    exact CCoins.isAvailable_iff.mp hs.1
  · exact Or.inl ((spendable_congr (isNull_outAt_release_ne hh)).mpr hs)

theorem undoTx_keeps {tx : CTransaction} {nHeight : Int} {txundo : Option CTxUndo} {fClean : Bool}
    (h : undoTx tx nHeight txundo (view, fClean) = .ok (view', true)) :
    fClean = true ∧ (∀ o, view.Spendable o → view'.Spendable o ∨ tx.Offers o) ∧
      ∀ txid, (tx.spendsCoins = true → ∀ o ∈ tx.prevouts, o.hash ≠ txid) →
        view.Lacks txid ∨ txid = tx.hash → view'.Lacks txid := by
  simp only [undoTx] at h
  split at h
  · rename_i hs
    simp only [bind_eq_ok, fromOption_eq_ok, failIf_eq_ok, exists_const, Except.ok.injEq] at h
    obtain ⟨undo, -, -, h⟩ := h
    obtain ⟨hclean, hkeeps, hlacks⟩ := undoInputs_keeps h
    obtain ⟨hclean', hkeeps', hlacks'⟩ := undoOutputs_keeps (Prod.ext rfl hclean)
    refine ⟨hclean', fun o ho => (hkeeps' o ho).imp_left (hkeeps o), fun txid hne hl => ?_⟩
    exact hlacks txid (fun p hp => hne hs p.1 (List.of_mem_zip hp).1) (hlacks' txid hl)
  · simp only [Except.ok.injEq] at h
    obtain ⟨hclean, hkeeps, hlacks⟩ := undoOutputs_keeps h
    exact ⟨hclean, hkeeps, fun txid _ hl => hlacks txid hl⟩

-- What a view takes up again when it goes back over a block, and what it has lost by then.
theorem undoTxs_keeps {nHeight : Int} {pairs : List (CTransaction × Option CTxUndo)}
    {fClean : Bool} (h : undoTxs nHeight pairs (view, fClean) = .ok (view', true))
    (horder : InOrder (pairs.map Prod.fst)) :
    fClean = true ∧
      (∀ o, view.Spendable o → view'.Spendable o ∨ ∃ tx ∈ pairs.map Prod.fst, tx.Offers o) ∧
      (view.Lacks 0 → view'.Lacks 0) ∧ ∀ tx ∈ pairs.map Prod.fst, view'.Lacks tx.hash := by
  induction pairs generalizing view' with
  | nil =>
    simp only [undoTxs, Except.ok.injEq, Prod.mk.injEq] at h
    obtain ⟨rfl, hclean⟩ := h
    exact ⟨hclean, fun _ hs => Or.inl hs, fun hl => hl, by simp⟩
  | cons p pairs ih =>
    simp only [undoTxs, bind_eq_ok] at h
    obtain ⟨⟨mid, fMid⟩, hmid, h⟩ := h
    obtain ⟨hinputs, horder⟩ := horder
    obtain ⟨rfl, hkeeps, hlacks⟩ := undoTx_keeps h
    obtain ⟨hclean, hkeeps', hzero, hblock⟩ := ih hmid horder
    simp only [List.map_cons, List.mem_cons, exists_eq_or_imp]
    refine ⟨hclean, fun o hs => ?_, fun hl => ?_, fun tx htx => ?_⟩
    · rcases hkeeps' o hs with hs | hoffers
      · exact (hkeeps o hs).imp_right Or.inl
      · exact Or.inr (Or.inr hoffers)
    · exact hlacks 0 (fun hs o ho => (hinputs hs o ho).1) (Or.inl (hzero hl))
    · refine hlacks tx.hash (fun hs o ho => (hinputs hs o ho).2 tx (List.mem_cons.mpr htx)) ?_
      rcases htx with rfl | htx
      · exact Or.inr rfl
      · exact Or.inl (hblock tx htx)

end Undo

end CCoinsView

-- What is asked of the transactions that the node meets: their hashes commit to their outputs and
-- are not null, and inputs marked as zerocoin spends name no coin and no outpoint twice.
structure Committed (Known : CTransaction → Prop) : Prop where
  nonzero : ∀ tx, Known tx → tx.hash ≠ 0
  outputs : ∀ a b, Known a → Known b → a.hash = b.hash → a.vout = b.vout
  spends : ∀ tx, Known tx → tx.isZerocoinSpend = true → ∀ o ∈ tx.prevouts, o.hash = 0
  marked : ∀ tx, Known tx → tx.isZerocoinSpend = false →
    tx.vin.Pairwise fun a b => a.scriptSig.isZerocoinSpend = true → a.prevout ≠ b.prevout

theorem CTransaction.Offers.congr {Known : CTransaction → Prop} (hK : Committed Known)
    {a b : CTransaction} (ha : Known a) (hb : Known b) (heq : b.hash = a.hash) {o : COutPoint}
    (h : a.Offers o) : b.Offers o := by
  refine ⟨heq.trans h.1, ?_⟩
  have hav := CCoins.isAvailable_iff.mp h.2
  rw [CCoins.outAt_fromTx_of_vout (hK.outputs b a hb ha heq).symm] at hav
  exact CCoins.isAvailable_iff.mpr hav

theorem CTransaction.Offers.lt_length {tx : CTransaction} {o : COutPoint} (h : tx.Offers o) :
    o.n.toNat < tx.vout.length := by
  obtain ⟨out, hout, -⟩ := CCoins.getElem?_of_not_isNull_fromTx (CCoins.isAvailable_iff.mp h.2).1
  exact (List.getElem?_eq_some_iff.mp hout).1

namespace CTxMemPool

-- Every input of a pooled ordinary transaction is an output of a pooled transaction or, when
-- none is pooled under its hash, comes from the source `S`.
structure Fed (Known : CTransaction → Prop) (pool : CTxMemPool) (S : COutPoint → Prop) :
    Prop where
  index : pool.SpendIndexed
  known : ∀ t, pool.Pooled t → Known t
  source : ∀ o, S o → o.hash ≠ 0
  supply : ∀ t, pool.Pooled t → t.isZerocoinSpend = false → ∀ o ∈ t.prevouts,
    (∃ r, pool.Pooled r ∧ r.Offers o) ∨ (pool.mapTx[o.hash]? = none ∧ S o)

variable {Known : CTransaction → Prop} {pool : CTxMemPool} {S S' : COutPoint → Prop}
  {tx : CTransaction}

section Fed

theorem Pooled.get_ne_none {t : CTransaction} (h : pool.Pooled t) :
    pool.mapTx[t.hash]? ≠ none := by
  obtain ⟨entry, he, -⟩ := h
  rw [he]
  exact Option.some_ne_none entry

theorem Fed.restrict (h : Fed Known pool S) (hsource : ∀ o, S' o → o.hash ≠ 0)
    (hS : ∀ t, pool.Pooled t → t.isZerocoinSpend = false → ∀ o ∈ t.prevouts,
      pool.mapTx[o.hash]? = none → S o → S' o) : Fed Known pool S' := by
  refine ⟨h.index, h.known, hsource, fun t ht hz o ho => ?_⟩
  rcases h.supply t ht hz o ho with hr | ⟨hnone, hs⟩
  · exact Or.inl hr
  · exact Or.inr ⟨hnone, hS t ht hz o ho hnone hs⟩

theorem Fed.hash_ne_zero (h : Fed Known pool S) (hK : Committed Known) {t : CTransaction}
    (ht : pool.Pooled t) (hz : t.isZerocoinSpend = false) {o : COutPoint} (ho : o ∈ t.prevouts) :
    o.hash ≠ 0 := by
  rcases h.supply t ht hz o ho with ⟨r, hr, hoffers⟩ | ⟨-, hs⟩
  · rw [← hoffers.1]
    exact hK.nonzero r (h.known r hr)
  · exact h.source o hs

theorem Fed.detached (h : Fed Known pool S) (hK : Committed Known) (hash : UInt256) :
    pool.Detached hash := by
  intro entry he hz o ho
  cases hn : pool.mapNextTx o with
  | none => rfl
  | some it =>
    obtain ⟨ht, hord, hget⟩ := (h.index.index o it.ptx it.n).mp hn
    have hzero := hK.spends _ (h.known _ (h.index.pooled_of_get he)) hz o ho
    exact absurd hzero (h.hash_ne_zero hK ht hord (List.mem_of_getElem? hget))

theorem Fed.known_stored (h : Fed Known pool S) (htx : Known tx) : Known (pool.stored tx) := by
  cases he : pool.mapTx[tx.hash]? with
  | none =>
    rw [stored_of_none he]
    exact htx
  | some entry =>
    rw [stored_of_get he]
    exact h.known _ (h.index.pooled_of_get he)

theorem Fed.hash_stored (h : Fed Known pool S) : (pool.stored tx).hash = tx.hash := by
  cases he : pool.mapTx[tx.hash]? with
  | none => rw [stored_of_none he]
  | some entry =>
    rw [stored_of_get he]
    exact h.index.keyed _ entry he

theorem Fed.acyclic (h : Fed Known pool S) (hK : Committed Known) {root : CTransaction}
    (hroot : Known root) : pool.Acyclic root := by
  intro _ hz t hdesc o ho
  rw [hK.spends root hroot hz o ho]
  by_cases hsame : t = root
  · rw [hsame]
    exact (hK.nonzero root hroot).symm
  · exact (hK.nonzero t (h.known t (Descends.spender h.index hdesc hsame).1)).symm

theorem SpendIndexed.spendsOutput (h : pool.SpendIndexed) {t : CTransaction} (ht : pool.Pooled t)
    (hz : t.isZerocoinSpend = false) {o : COutPoint} (ho : o ∈ t.prevouts) (hr : tx.Offers o) :
    pool.SpendsOutput tx t := by
  obtain ⟨n, hn⟩ := h.spender ht hz ho
  refine ⟨o.n.toNat, hr.lt_length, n, ?_⟩
  rw [hr.1, UInt32.ofNat_toNat]
  exact hn

end Fed

section Removal

-- The spenders of what leaves the pool leave with it, so the inputs that stay keep their source.
theorem Fed.remove (h : Fed Known pool S) (hK : Committed Known) (htx : Known tx)
    (removed : List CTransaction) :
    Fed Known (pool.remove tx removed true).1 S ∧
      (∀ t, (pool.remove tx removed true).1.Pooled t → pool.Pooled t) ∧
      ∀ t, (pool.remove tx removed true).1.Pooled t → t.isZerocoinSpend = false →
        ∀ o ∈ t.prevouts, ¬ tx.Offers o := by
  obtain ⟨gone, -, hs⟩ := swept_remove h.index (h.acyclic hK (h.known_stored htx)) removed
  have hleft : ∀ t, (pool.remove tx removed true).1.Pooled t → pool.Pooled t ∧ t ∉ gone :=
    fun t ht => hs.pooled_iff.mp ht
  refine ⟨⟨h.index.remove (h.detached hK tx.hash) removed true,
    fun t ht => h.known t (hleft t ht).1, h.source, ?_⟩, fun t ht => (hleft t ht).1, ?_⟩
  · intro t ht hz o ho
    obtain ⟨hp, hout⟩ := hleft t ht
    rcases h.supply t hp hz o ho with ⟨r, hr, hoffers⟩ | ⟨hnone, hS⟩
    · refine Or.inl ⟨r, hs.pooled_iff.mpr ⟨hr, fun hgone => hout ?_⟩, hoffers⟩
      exact hs.spender_mem (Or.inl hgone) (h.index.spendsOutput hp hz ho hoffers)
    · exact Or.inr ⟨(remove_shrinks pool tx removed true).1 _ hnone, hS⟩
  · intro t ht hz o ho hoffers
    obtain ⟨hp, hout⟩ := hleft t ht
    have hroot := hoffers.congr hK htx (h.known_stored htx) h.hash_stored
    exact hout (hs.spender_mem (Or.inr rfl) (h.index.spendsOutput hp hz ho hroot))

theorem remove_of_absent (removed : List CTransaction) (h : pool.mapTx[tx.hash]? = none) :
    pool.remove tx removed false = (pool, removed) := by
  simp [CTxMemPool.remove, Worklist.run_cons, removal, CTxMemPool.removeStep, h]

-- A transaction that a block brings leaves alone: its outputs are a source from then on.
theorem Fed.take (h : Fed Known pool S) (hK : Committed Known) (htx : Known tx)
    (removed : List CTransaction) :
    Fed Known (pool.remove tx removed false).1 (fun o => S o ∨ tx.Offers o) ∧
      ∀ t, (pool.remove tx removed false).1.Pooled t → pool.Pooled t := by
  have hsource : ∀ o, S o ∨ tx.Offers o → o.hash ≠ 0 := by
    rintro o (hs | hoffers)
    · exact h.source o hs
    · rw [← hoffers.1]
      exact hK.nonzero tx htx
  have hindex := h.index.remove (h.detached hK tx.hash) removed false
  cases he : pool.mapTx[tx.hash]? with
  | none =>
    rw [remove_of_absent removed he]
    exact ⟨h.restrict hsource fun _ _ _ _ _ _ hs => Or.inl hs, fun _ ht => ht⟩
  | some entry =>
    rw [remove_of_pooled entry removed he] at hindex ⊢
    refine ⟨⟨hindex, fun t ht => h.known t (pooled_removeEntry.mp ht).1, hsource, ?_⟩,
      fun t ht => (pooled_removeEntry.mp ht).1⟩
    intro t ht hz o ho
    simp only [mapTx_removeEntry]
    rcases h.supply t (pooled_removeEntry.mp ht).1 hz o ho with ⟨r, hr, hoffers⟩ | ⟨hnone, hs⟩
    · by_cases hsame : r.hash = tx.hash
      · right
        rw [if_pos (hoffers.1.symm.trans hsame)]
        exact ⟨rfl, Or.inr (hoffers.congr hK (h.known r hr) htx hsame.symm)⟩
      · exact Or.inl ⟨r, pooled_removeEntry.mpr ⟨hr, hsame⟩, hoffers⟩
    · right
      refine ⟨?_, Or.inl hs⟩
      split
      · rfl
      · exact hnone

theorem Fed.foldl_removeSpender {txs : List CTransaction} (h : Fed Known pool S)
    (hK : Committed Known) (htxs : ∀ tx ∈ txs, Known tx) :
    Fed Known (txs.foldl removeSpender pool) S := by
  induction txs generalizing pool with
  | nil => exact h
  | cons tx txs ih =>
    rw [List.forall_mem_cons] at htxs
    exact ih (h.remove hK htxs.1 []).1 htxs.2

theorem Fed.removeCoinbaseSpends (h : Fed Known pool S) (hK : Committed Known)
    {params : ChainParams} {pcoins : CCoinsView} {nMemPoolHeight : UInt32} {pool' : CTxMemPool}
    (hrun : pool.removeCoinbaseSpends params pcoins nMemPoolHeight = some pool') :
    Fed Known pool' S := by
  rw [CTxMemPool.removeCoinbaseSpends, Option.map_eq_some_iff] at hrun
  obtain ⟨txs, htxs, rfl⟩ := hrun
  refine h.foldl_removeSpender hK fun tx htx => h.known tx ?_
  exact (mem_pooled h.index).mp (((Checks.filterM_eq_some htxs).2 tx).mp htx).1

end Removal

section Conflicts

variable {s : CTxMemPool × List CTransaction}

theorem Fed.removeConflict (h : Fed Known s.1 S) (hK : Committed Known)
    (hout : s.1.mapTx[tx.hash]? = none) (txin : CTxIn) :
    Fed Known (removeConflict tx s txin).1 S ∧
      (∀ t, (removeConflict tx s txin).1.Pooled t → s.1.Pooled t) ∧
      (removeConflict tx s txin).1.mapTx[tx.hash]? = none ∧
      ∀ t, (removeConflict tx s txin).1.Pooled t → t.isZerocoinSpend = false →
        txin.prevout ∉ t.prevouts := by
  rw [CTxMemPool.removeConflict]
  cases hn : s.1.mapNextTx txin.prevout with
  | none =>
    refine ⟨h, fun t ht => ht, hout, fun t ht hz ho => ?_⟩
    obtain ⟨n, hget⟩ := h.index.spender ht hz ho
    rw [hn] at hget
    cases hget
  | some it =>
    obtain ⟨hptx, -, -⟩ := (h.index.index _ it.ptx it.n).mp hn
    have hne : it.ptx.hash ≠ tx.hash := by
      intro heq
      exact hptx.get_ne_none (by rw [heq]; exact hout)
    obtain ⟨hfed, hwithin, -⟩ := h.remove hK (h.known _ hptx) s.2
    obtain ⟨hshrinks, hgone⟩ := remove_shrinks s.1 it.ptx s.2 true
    simp only [if_neg hne]
    refine ⟨hfed, hwithin, hshrinks _ hout, fun t ht hz ho => ?_⟩
    obtain ⟨n, hget⟩ := h.index.spender (hwithin t ht) hz ho
    rw [hn, Option.some.injEq] at hget
    subst hget
    exact ht.get_ne_none hgone

theorem Fed.foldl_removeConflict (h : Fed Known s.1 S) (hK : Committed Known)
    (hout : s.1.mapTx[tx.hash]? = none) (vin : List CTxIn) :
    Fed Known (vin.foldl (CTxMemPool.removeConflict tx) s).1 S ∧
      (∀ t, (vin.foldl (CTxMemPool.removeConflict tx) s).1.Pooled t → s.1.Pooled t) ∧
      (vin.foldl (CTxMemPool.removeConflict tx) s).1.mapTx[tx.hash]? = none ∧
      ∀ t, (vin.foldl (CTxMemPool.removeConflict tx) s).1.Pooled t → t.isZerocoinSpend = false →
        ∀ txin ∈ vin, txin.prevout ∉ t.prevouts := by
  induction vin generalizing s with
  | nil => exact ⟨h, fun t ht => ht, hout, fun _ _ _ => List.forall_mem_nil _⟩
  | cons txin vin ih =>
    obtain ⟨hfed, hwithin, hout', hfree⟩ := h.removeConflict hK hout txin
    obtain ⟨hfed', hwithin', hout'', hfree'⟩ := ih hfed hout'
    refine ⟨hfed', fun t ht => hwithin t (hwithin' t ht), hout'', fun t ht hz => ?_⟩
    rw [List.forall_mem_cons]
    exact ⟨hfree t (hwithin' t ht) hz, hfree' t ht hz⟩

theorem Fed.removeConnected (h : Fed Known s.1 S) (hK : Committed Known) (htx : Known tx) :
    Fed Known (CTxMemPool.removeConnected s tx).1
        (fun o => (S o ∨ tx.Offers o) ∧ o ∉ tx.prevouts) ∧
      ∀ t, (CTxMemPool.removeConnected s tx).1.Pooled t → s.1.Pooled t := by
  obtain ⟨htake, hleft⟩ := h.take hK htx []
  have hgone := (remove_shrinks s.1 tx [] false).2
  obtain ⟨hfed, hwithin, -, hfree⟩ := htake.foldl_removeConflict
    (s := ((s.1.remove tx [] false).1, s.2)) hK hgone tx.vin
  refine ⟨?_, fun t ht => hleft t (hwithin t ht)⟩
  refine hfed.restrict (fun o hs => htake.source o hs.1) fun t ht hz o ho _ hs => ⟨hs, ?_⟩
  intro hmem
  obtain ⟨txin, htxin, rfl⟩ := List.mem_map.mp hmem
  exact hfree t ht hz txin htxin ho

end Conflicts

section Arrival

theorem Fed.addUnchecked (h : Fed Known pool S) (entry : CTxMemPoolEntry) (hkn : Known entry.tx)
    (hnew : pool.mapTx[entry.tx.hash]? = none)
    (hnd : entry.tx.isZerocoinSpend = false → entry.tx.prevouts.Nodup)
    (hfree : entry.tx.isZerocoinSpend = false →
      ∀ o ∈ entry.tx.prevouts, pool.mapNextTx o = none)
    (hin : entry.tx.isZerocoinSpend = false → ∀ o ∈ entry.tx.prevouts,
      (∃ r, pool.Pooled r ∧ r.Offers o) ∨ (pool.mapTx[o.hash]? = none ∧ S o))
    (hown : ∀ o, S o → o.hash = entry.tx.hash → entry.tx.Offers o) :
    Fed Known (pool.addUnchecked entry.tx.hash entry) S := by
  have hpooled : ∀ t, (pool.addUnchecked entry.tx.hash entry).Pooled t ↔
      t = entry.tx ∨ pool.Pooled t := fun t => pooled_addUnchecked hnew
  have hkeep : ∀ o, (∃ r, pool.Pooled r ∧ r.Offers o) ∨ (pool.mapTx[o.hash]? = none ∧ S o) →
      (∃ r, (pool.addUnchecked entry.tx.hash entry).Pooled r ∧ r.Offers o) ∨
        ((pool.addUnchecked entry.tx.hash entry).mapTx[o.hash]? = none ∧ S o) := by
    rintro o (⟨r, hr, hoffers⟩ | ⟨hnone, hs⟩)
    · exact Or.inl ⟨r, (hpooled r).mpr (Or.inr hr), hoffers⟩
    · by_cases hsame : o.hash = entry.tx.hash
      · exact Or.inl ⟨entry.tx, (hpooled _).mpr (Or.inl rfl), hown o hs hsame⟩
      · refine Or.inr ⟨?_, hs⟩
        simp only [CTxMemPool.addUnchecked, Std.TreeMap.getElem?_insert,
          Std.LawfulEqOrd.compare_eq_iff_eq, if_neg (Ne.symm hsame)]
        exact hnone
  refine ⟨h.index.addUnchecked hnew hnd hfree, fun t ht => ?_, h.source, fun t ht hz o ho => ?_⟩
  · rcases (hpooled t).mp ht with rfl | ht
    · exact hkn
    · exact h.known t ht
  · rcases (hpooled t).mp ht with rfl | ht
    · exact hkeep o (hin hz o ho)
    · exact hkeep o (h.supply t ht hz o ho)

end Arrival

end CTxMemPool

end AnkerNode
