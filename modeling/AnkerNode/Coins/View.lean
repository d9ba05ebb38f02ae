import AnkerNode.Coins.Undo

namespace AnkerNode

structure CCoinsView where
  coins : UInt256 → Option CCoins
  hashBlock : UInt256

namespace CCoinsView

def accessCoins (view : CCoinsView) (txid : UInt256) : Option CCoins := view.coins txid

def unspent (view : CCoinsView) (txid : UInt256) : Option CCoins :=
  (view.coins txid).filter (fun c => !c.isPruned)

def modified (view : CCoinsView) (txid : UInt256) : CCoins := (view.coins txid).getD CCoins.clear

def release (view : CCoinsView) (txid : UInt256) (c : CCoins) : CCoinsView :=
  { view with
    coins := Function.update view.coins txid
      (if c.cleanup.isPruned then none else some c.cleanup) }

def setBestBlock (view : CCoinsView) (hashBlock : UInt256) : CCoinsView :=
  { view with hashBlock := hashBlock }

def haveCoins (view : CCoinsView) (txid : UInt256) : Bool :=
  (view.coins txid).any fun coins => !coins.vout.isEmpty

def haveInput (view : CCoinsView) (txin : CTxIn) : Bool :=
  match view.accessCoins txin.prevout.hash with
  | none => false
  | some coins => coins.isAvailable txin.prevout.n.toNat

def haveInputs (view : CCoinsView) (tx : CTransaction) : Bool :=
  !tx.spendsCoins || tx.vin.all view.haveInput

def getOutputFor (view : CCoinsView) (txin : CTxIn) : Option CTxOut := do
  let coins ← view.accessCoins txin.prevout.hash
  if coins.isAvailable txin.prevout.n.toNat then some (coins.outAt txin.prevout.n.toNat) else none

def addValueIn (view : CCoinsView) (nResult : Int) (txin : CTxIn) : Option Int :=
  (view.getOutputFor txin).map fun o => nResult + o.nValue

def getValueIn (view : CCoinsView) (tx : CTransaction) : Option Int :=
  if tx.isCoinBase then some 0
  else if tx.isZerocoinSpend then some tx.getZerocoinSpent
  else tx.vin.foldlM view.addValueIn 0

def spendInput (view : CCoinsView) (prevout : COutPoint) : Option (CCoinsView × CTxInUndo) := do
  let (c, undo) ← (view.modified prevout.hash).spend prevout
  some (view.release prevout.hash c, undo)

def spendInputs (view : CCoinsView) : List COutPoint → Option (CCoinsView × List CTxInUndo)
  | [] => some (view, [])
  | prevout :: rest => do
    let (view, undo) ← view.spendInput prevout
    let (view, vprevout) ← view.spendInputs rest
    some (view, undo :: vprevout)

def markInputsSpent (view : CCoinsView) (tx : CTransaction) :
    Option (CCoinsView × List CTxInUndo) :=
  if tx.spendsCoins then view.spendInputs tx.prevouts else some (view, [])

def updateCoins (view : CCoinsView) (tx : CTransaction) (nHeight : Int) :
    Option (CCoinsView × CTxUndo) := do
  let (view, vprevout) ← view.markInputsSpent tx
  some (view.release tx.hash (CCoins.fromTx tx nHeight), ⟨vprevout⟩)

def outAt (view : CCoinsView) (o : COutPoint) : CTxOut :=
  (view.modified o.hash).outAt o.n.toNat

structure Clean (view : CCoinsView) : Prop where
  coins : ∀ txid c, view.coins txid = some c → c.Clean

theorem clean_modified {view : CCoinsView} (h : view.Clean) (txid : UInt256) :
    (view.modified txid).Clean := by
  cases hc : view.coins txid with
  | none => simpa [modified, hc] using CCoins.clean_clear
  | some c => simpa [modified, hc] using h.coins txid c hc

theorem clean_release {view : CCoinsView} {txid : UInt256} {c : CCoins} (h : view.Clean)
    (hc : CCoins.CanonicalNulls c.vout) : (view.release txid c).Clean := by
  refine ⟨fun t d hd => ?_⟩
  by_cases ht : t = txid
  · subst ht
    simp only [release, Function.update_self] at hd
    split at hd
    · simp at hd
    · simp only [Option.some.injEq] at hd
      subst hd
      exact CCoins.clean_cleanup hc
  · simp only [release, Function.update_of_ne ht] at hd
    exact h.coins t d hd

theorem coins_release_ne {view : CCoinsView} {txid t : UInt256} {c : CCoins} (h : t ≠ txid) :
    (view.release txid c).coins t = view.coins t := by
  simp [release, Function.update_of_ne h]

theorem modified_release_ne {view : CCoinsView} {txid t : UInt256} {c : CCoins} (h : t ≠ txid) :
    (view.release txid c).modified t = view.modified t := by
  simp [modified, coins_release_ne h]

theorem unspent_release_ne {view : CCoinsView} {txid t : UInt256} {c : CCoins} (h : t ≠ txid) :
    (view.release txid c).unspent t = view.unspent t := by
  simp [unspent, coins_release_ne h]

theorem unspent_release_self (view : CCoinsView) (txid : UInt256) {c : CCoins} (hc : c.Clean) :
    (view.release txid c).unspent txid = if c.vout = [] then none else some c := by
  have hcl := CCoins.cleanup_of_clean hc
  by_cases hv : c.vout = []
  · have hp := (CCoins.isPruned_iff_vout_eq_nil hc).mpr hv
    simp [unspent, release, hcl, hp, hv]
  · have hp : c.isPruned = false := by
      rw [Bool.eq_false_iff]
      exact fun h => hv ((CCoins.isPruned_iff_vout_eq_nil hc).mp h)
    simp [unspent, release, hcl, hp, hv]

theorem unspent_eq_some {view : CCoinsView} {txid : UInt256} {c : CCoins} :
    view.unspent txid = some c ↔ view.coins txid = some c ∧ c.isPruned = false := by
  simp [unspent, Option.filter_eq_some_iff]

theorem modified_of_unspent {view : CCoinsView} {txid : UInt256} {c : CCoins}
    (h : view.unspent txid = some c) : view.modified txid = c := by
  simp [modified, (unspent_eq_some.mp h).1]

theorem isPruned_modified {view : CCoinsView} {txid : UInt256} (h : view.unspent txid = none) :
    (view.modified txid).isPruned = true := by
  cases hc : view.coins txid with
  | none => simp [modified, hc, CCoins.clear, CCoins.isPruned]
  | some c =>
    by_contra hp
    have hs : view.unspent txid = some c :=
      unspent_eq_some.mpr ⟨hc, by simpa [modified, hc] using hp⟩
    rw [h] at hs
    simp at hs

theorem unspent_of_outAt {view : CCoinsView} {o : COutPoint} (h : (view.outAt o).isNull = false) :
    view.unspent o.hash = some (view.modified o.hash) := by
  have hlt := CCoins.lt_length_of_outAt h
  cases hc : view.coins o.hash with
  | none => simp [modified, hc, CCoins.clear] at hlt
  | some c =>
    have hm : view.modified o.hash = c := by simp [modified, hc]
    rw [hm] at hlt ⊢
    refine unspent_eq_some.mpr ⟨hc, ?_⟩
    rw [Bool.eq_false_iff]
    intro hp
    have hmem := List.all_eq_true.mp hp _ (List.getElem_mem hlt)
    rw [outAt, hm, CCoins.outAt, List.getD_eq_getElem _ _ hlt, hmem] at h
    simp at h

theorem haveInput_iff {view : CCoinsView} {txin : CTxIn} :
    view.haveInput txin = true ↔
      (view.outAt txin.prevout).isNull = false ∧
        (view.outAt txin.prevout).scriptPubKey.isZerocoinMint = false := by
  simp only [haveInput, accessCoins, outAt, modified]
  cases view.coins txin.prevout.hash with
  | none => simp [CCoins.clear, CCoins.outAt, CTxOut.null, CTxOut.isNull]
  | some c => simpa using CCoins.isAvailable_iff

theorem haveInputs_iff {view : CCoinsView} {tx : CTransaction} (h : tx.spendsCoins = true) :
    view.haveInputs tx = true ↔ ∀ txin ∈ tx.vin, view.haveInput txin = true := by
  simp [haveInputs, h]

theorem getOutputFor_of_haveInput {view : CCoinsView} {txin : CTxIn}
    (h : view.haveInput txin = true) : view.getOutputFor txin = some (view.outAt txin.prevout) := by
  simp only [haveInput, accessCoins] at h
  simp only [getOutputFor, accessCoins, outAt, modified]
  split at h
  · simp at h
  · rename_i c hc
    simp [hc, h]

theorem foldlM_valueIn {view : CCoinsView} {vin : List CTxIn} {acc : Int}
    (h : ∀ txin ∈ vin, view.haveInput txin = true) :
    vin.foldlM view.addValueIn acc =
      some (acc + (vin.map fun txin => (view.outAt txin.prevout).nValue).sum) := by
  induction vin generalizing acc with
  | nil => simp
  | cons txin vin ih =>
    have hin := getOutputFor_of_haveInput (h txin (by simp))
    simp only [List.foldlM_cons, addValueIn, hin, Option.map_some, Option.bind_eq_bind,
      Option.bind_some]
    rw [ih (fun t ht => h t (by simp [ht]))]
    simp only [List.map_cons, List.sum_cons, Option.some.injEq]
    omega

theorem getValueIn_of_haveInputs {view : CCoinsView} {tx : CTransaction}
    (hs : tx.spendsCoins = true) (h : view.haveInputs tx = true) :
    view.getValueIn tx =
      some ((tx.vin.map fun txin => (view.outAt txin.prevout).nValue).sum) := by
  have hsplit : tx.isCoinBase = false ∧ tx.isZerocoinSpend = false := by
    simpa [CTransaction.spendsCoins] using hs
  simp only [getValueIn, hsplit, Bool.false_eq_true, if_false]
  rw [foldlM_valueIn ((haveInputs_iff hs).mp h)]
  simp

theorem spendInput_eq_some {view view' : CCoinsView} {prevout : COutPoint} {undo : CTxInUndo}
    (h : view.spendInput prevout = some (view', undo)) :
    ∃ c, (view.modified prevout.hash).spend prevout = some (c, undo) ∧
      view' = view.release prevout.hash c := by
  simp only [spendInput, Option.bind_eq_bind, Option.bind_eq_some_iff, Prod.exists,
    Option.some.injEq, Prod.mk.injEq] at h
  obtain ⟨c, u, hspend, rfl, rfl⟩ := h
  exact ⟨c, hspend, rfl⟩

theorem spendInputs_cons_eq_some {view view' : CCoinsView} {prevout : COutPoint}
    {rest : List COutPoint} {vprevout : List CTxInUndo}
    (h : view.spendInputs (prevout :: rest) = some (view', vprevout)) :
    ∃ mid undo vrest, view.spendInput prevout = some (mid, undo) ∧
      mid.spendInputs rest = some (view', vrest) ∧ vprevout = undo :: vrest := by
  simp only [spendInputs, Option.bind_eq_bind, Option.bind_eq_some_iff, Prod.exists,
    Option.some.injEq, Prod.mk.injEq] at h
  obtain ⟨mid, undo, hone, view'', vrest, hrest, rfl, rfl⟩ := h
  exact ⟨mid, undo, vrest, hone, hrest, rfl⟩

theorem updateCoins_eq_some {view view' : CCoinsView} {tx : CTransaction} {nHeight : Int}
    {txundo : CTxUndo} (h : view.updateCoins tx nHeight = some (view', txundo)) :
    ∃ mid, view.markInputsSpent tx = some (mid, txundo.vprevout) ∧
      view' = mid.release tx.hash (CCoins.fromTx tx nHeight) := by
  simp only [updateCoins, Option.bind_eq_bind, Option.bind_eq_some_iff, Prod.exists,
    Option.some.injEq, Prod.mk.injEq] at h
  obtain ⟨mid, vprevout, hmid, rfl, rfl⟩ := h
  exact ⟨mid, hmid, rfl⟩

theorem clean_spendInput {view view' : CCoinsView} {prevout : COutPoint} {undo : CTxInUndo}
    (hv : view.Clean) (h : view.spendInput prevout = some (view', undo)) : view'.Clean := by
  obtain ⟨c, hspend, rfl⟩ := spendInput_eq_some h
  obtain ⟨-, -, hc, -⟩ := CCoins.spend_eq_some (clean_modified hv _) hspend
  exact clean_release hv hc.2

theorem modified_release_self {view : CCoinsView} {txid : UInt256} {c : CCoins} (hc : c.Clean)
    (n : Nat) : ((view.release txid c).modified txid).outAt n = c.outAt n := by
  by_cases hv : c.vout = []
  · have hp := (CCoins.isPruned_iff_vout_eq_nil hc).mpr hv
    simp [modified, release, CCoins.cleanup_of_clean hc, hp, CCoins.outAt, hv, CCoins.clear]
  · have hun := unspent_release_self view txid hc
    rw [if_neg hv] at hun
    rw [modified_of_unspent hun]

theorem modified_spendInput {view view' : CCoinsView} {prevout : COutPoint} {undo : CTxInUndo}
    (hv : view.Clean) (h : view.spendInput prevout = some (view', undo)) (txid : UInt256) (n : Nat) :
    (view'.modified txid).outAt n =
      if prevout.hash = txid ∧ prevout.n.toNat = n then CTxOut.null
      else (view.modified txid).outAt n := by
  obtain ⟨c, hspend, rfl⟩ := spendInput_eq_some h
  obtain ⟨-, -, hc, -, -, -, -, hout, -⟩ := CCoins.spend_eq_some (clean_modified hv _) hspend
  by_cases hh : txid = prevout.hash
  · subst hh
    rw [modified_release_self hc, hout]
    simp only [true_and, eq_comm]
  · rw [modified_release_ne hh, if_neg (fun h0 => hh h0.1.symm)]

theorem isNull_outAt_release_self (view : CCoinsView) (o : COutPoint) (c : CCoins) :
    ((view.release o.hash c).outAt o).isNull = (c.outAt o.n.toNat).isNull := by
  rw [← CCoins.isNull_outAt_cleanup c]
  by_cases hp : c.cleanup.isPruned = true
  · have hn := CCoins.isNull_outAt_of_isPruned hp o.n.toNat
    rw [hn]
    simp [outAt, modified, release, hp, CCoins.outAt, CCoins.clear]
  · simp [outAt, modified, release, hp]

theorem isNull_outAt_spendInput {view view' : CCoinsView} {prevout : COutPoint} {undo : CTxInUndo}
    (h : view.spendInput prevout = some (view', undo)) :
    (view.outAt prevout).isNull = false ∧
      ∀ o, (view'.outAt o).isNull = if o = prevout then true else (view.outAt o).isNull := by
  obtain ⟨c, hspend, rfl⟩ := spendInput_eq_some h
  obtain ⟨hfirst, hout⟩ := CCoins.isNull_outAt_spend hspend
  refine ⟨hfirst, fun o => ?_⟩
  by_cases hh : o.hash = prevout.hash
  · have ho := isNull_outAt_release_self view o c
    rw [hh] at ho
    have hiff : o.n.toNat = prevout.n.toNat ↔ o = prevout := by
      cases o
      cases prevout
      simp_all [UInt32.toNat_inj]
    rw [ho, hout]
    simp only [hiff, outAt, hh]
  · have hne : o ≠ prevout := fun h0 => hh (by rw [h0])
    rw [if_neg hne, outAt, outAt, modified_release_ne hh]

theorem outAt_release_of_not_isNull {view : CCoinsView} {txid : UInt256} {c : CCoins}
    {o : COutPoint} (h : ((view.release txid c).outAt o).isNull = false) :
    (view.release txid c).outAt o = if o.hash = txid then c.outAt o.n.toNat else view.outAt o := by
  by_cases hh : o.hash = txid
  · subst hh
    rw [if_pos rfl]
    by_cases hp : c.cleanup.isPruned = true
    · simp [outAt, modified, release, hp, CCoins.outAt, CCoins.clear] at h
    · simp only [outAt, modified, release, hp, Function.update_self, Bool.false_eq_true, if_false,
        Option.getD_some] at h ⊢
      exact CCoins.outAt_cleanup_of_not_isNull h
  · rw [if_neg hh, outAt, modified_release_ne hh]
    rfl

theorem outAt_spendInputs_of_not_isNull {view view' : CCoinsView} {prevouts : List COutPoint}
    {vprevout : List CTxInUndo} (h : view.spendInputs prevouts = some (view', vprevout))
    {o : COutPoint} (hn : (view'.outAt o).isNull = false) : view'.outAt o = view.outAt o := by
  induction prevouts generalizing view vprevout with
  | nil =>
    simp only [spendInputs, Option.some.injEq, Prod.mk.injEq] at h
    rw [← h.1]
  | cons prevout rest ih =>
    obtain ⟨mid, undo, vrest, hone, hrest, -⟩ := spendInputs_cons_eq_some h
    have hmid := ih hrest
    rw [hmid]
    rw [hmid] at hn
    obtain ⟨c, hspend, rfl⟩ := spendInput_eq_some hone
    have hrel := outAt_release_of_not_isNull hn
    by_cases hh : o.hash = prevout.hash
    · rw [if_pos hh] at hrel
      rw [hrel] at hn ⊢
      rw [CCoins.outAt_spend_of_not_isNull hspend hn, outAt, hh]
    · rwa [if_neg hh] at hrel

theorem not_isNull_of_spendInputs {view view' : CCoinsView} {prevouts : List COutPoint}
    {vprevout : List CTxInUndo} (h : view.spendInputs prevouts = some (view', vprevout)) :
    prevouts.Nodup ∧ ∀ o ∈ prevouts, (view.outAt o).isNull = false := by
  induction prevouts generalizing view vprevout with
  | nil => simp
  | cons prevout rest ih =>
    obtain ⟨mid, undo, vrest, hone, hrest, -⟩ := spendInputs_cons_eq_some h
    obtain ⟨hnd, hnn⟩ := ih hrest
    obtain ⟨hfirst, hout⟩ := isNull_outAt_spendInput hone
    have hmid : ∀ o ∈ rest, o ≠ prevout ∧ (view.outAt o).isNull = false := by
      intro o ho
      have h1 := hnn o ho
      rw [hout] at h1
      by_cases hp : o = prevout
      · simp [hp] at h1
      · exact ⟨hp, by simpa [hp] using h1⟩
    refine ⟨List.nodup_cons.mpr ⟨fun hmem => (hmid _ hmem).1 rfl, hnd⟩, ?_⟩
    intro o ho
    rcases List.mem_cons.mp ho with rfl | ho
    · exact hfirst
    · exact (hmid o ho).2

theorem spendInputs_isSome {view : CCoinsView} {prevouts : List COutPoint}
    (hnd : prevouts.Nodup) (h : ∀ o ∈ prevouts, (view.outAt o).isNull = false) :
    ∃ r, view.spendInputs prevouts = some r := by
  induction prevouts generalizing view with
  | nil => exact ⟨_, rfl⟩
  | cons prevout rest ih =>
    obtain ⟨hnot, hrest⟩ := List.nodup_cons.mp hnd
    obtain ⟨⟨c, undo⟩, hspend⟩ := Option.isSome_iff_exists.mp
      (CCoins.spend_isSome (h prevout (by simp)))
    have hone : view.spendInput prevout = some (view.release prevout.hash c, undo) := by
      simp [spendInput, hspend]
    have hrestNull : ∀ o ∈ rest, ((view.release prevout.hash c).outAt o).isNull = false := by
      intro o ho
      have hne : o ≠ prevout := fun h0 => hnot (h0 ▸ ho)
      rw [(isNull_outAt_spendInput hone).2, if_neg hne]
      exact h o (by simp [ho])
    obtain ⟨⟨view', vrest⟩, hr⟩ := ih hrest hrestNull
    exact ⟨(view', undo :: vrest), by simp [spendInputs, hone, hr]⟩

theorem updateCoins_isSome {view : CCoinsView} {tx : CTransaction} {nHeight : Int}
    (hnd : tx.spendsCoins = true → tx.prevouts.Nodup) (h : view.haveInputs tx = true) :
    ∃ r, view.updateCoins tx nHeight = some r := by
  cases hs : tx.spendsCoins with
  | false => exact ⟨_, by simp only [updateCoins, markInputsSpent, hs]; rfl⟩
  | true =>
    have hin := (haveInputs_iff hs).mp h
    have hnull : ∀ o ∈ tx.prevouts, (view.outAt o).isNull = false := by
      intro o ho
      obtain ⟨txin, htx, rfl⟩ := List.mem_map.mp ho
      exact (haveInput_iff.mp (hin txin htx)).1
    obtain ⟨⟨mid, vprevout⟩, hr⟩ := spendInputs_isSome (hnd hs) hnull
    exact ⟨_, by simp only [updateCoins, markInputsSpent, hs, hr, if_true]; rfl⟩

end CCoinsView

end AnkerNode
