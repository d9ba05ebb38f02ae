import AnkerNode.Lib.TrimmedList
import AnkerNode.Primitives.Transaction

namespace AnkerNode

open TrimmedList

structure CTxInUndo where
  txout : CTxOut := CTxOut.null
  fCoinBase : Bool := false
  fCoinStake : Bool := false
  nHeight : Nat := 0
  nVersion : Int := 0
deriving DecidableEq, Repr

structure CCoins where
  fCoinBase : Bool := false
  fCoinStake : Bool := false
  vout : List CTxOut := []
  nHeight : Int := 0
  nVersion : Int := 0
deriving DecidableEq, Repr

namespace CCoins

def clear : CCoins := {}

def cleanup (c : CCoins) : CCoins := { c with vout := c.vout.rdropWhile CTxOut.isNull }

def dropUnspendable (o : CTxOut) : CTxOut :=
  if o.scriptPubKey.isUnspendable then CTxOut.null else o

def clearUnspendable (c : CCoins) : CCoins :=
  cleanup { c with vout := c.vout.map dropUnspendable }

def fromTx (tx : CTransaction) (nHeight : Int) : CCoins :=
  clearUnspendable
    { fCoinBase := tx.isCoinBase
      fCoinStake := tx.isCoinStake
      vout := tx.vout
      nHeight := nHeight
      nVersion := tx.nVersion }

def isPruned (c : CCoins) : Bool := c.vout.all CTxOut.isNull

def beq (a b : CCoins) : Bool := (a.isPruned && b.isPruned) || a == b

def outAt (c : CCoins) (n : Nat) : CTxOut := c.vout.getD n CTxOut.null

def isAvailable (c : CCoins) (nPos : Nat) : Bool :=
  decide (nPos < c.vout.length) && !(c.outAt nPos).isNull &&
    !(c.outAt nPos).scriptPubKey.isZerocoinMint

def spend (c : CCoins) (out : COutPoint) : Option (CCoins × CTxInUndo) :=
  if c.vout.length ≤ out.n.toNat then none
  else if (c.outAt out.n.toNat).isNull then none
  else
    let undo : CTxInUndo := { txout := c.outAt out.n.toNat }
    let c := cleanup { c with vout := c.vout.set out.n.toNat CTxOut.null }
    if c.vout.isEmpty then
      some (c, { undo with
        nHeight := (c.nHeight % 2 ^ 32).toNat
        fCoinBase := c.fCoinBase
        fCoinStake := c.fCoinStake
        nVersion := c.nVersion })
    else some (c, undo)

def CanonicalNulls (vout : List CTxOut) : Prop := Canonical CTxOut.isNull CTxOut.null vout

def Clean (c : CCoins) : Prop :=
  Trimmed CTxOut.isNull c.vout ∧ CanonicalNulls c.vout

theorem clean_clear : Clean clear := ⟨rfl, by simp [CanonicalNulls, Canonical, clear]⟩

theorem clean_cleanup {c : CCoins} (h : CanonicalNulls c.vout) : Clean c.cleanup :=
  ⟨trimmed_rdropWhile, canonical_rdropWhile h⟩

theorem cleanup_of_clean {c : CCoins} (h : Clean c) : c.cleanup = c := by
  have ht : c.vout.rdropWhile CTxOut.isNull = c.vout := h.1
  simp [cleanup, ht]

theorem outAt_cleanup {c : CCoins} (h : CanonicalNulls c.vout) (n : Nat) :
    c.cleanup.outAt n = c.outAt n :=
  getD_rdropWhile h n

theorem isPruned_iff_vout_eq_nil {c : CCoins} (h : Clean c) : c.isPruned = true ↔ c.vout = [] := by
  refine ⟨fun hp => eq_nil_of_all h.1 hp, fun hv => ?_⟩
  simp [isPruned, hv]

theorem outAt_of_vout_eq_nil {c : CCoins} (h : c.vout = []) (n : Nat) :
    c.outAt n = CTxOut.null := by
  simp [outAt, h]

theorem isPruned_iff_outAt {c : CCoins} (h : CanonicalNulls c.vout) :
    c.isPruned = true ↔ ∀ n, c.outAt n = CTxOut.null := by
  constructor
  · intro hp n
    by_cases hn : n < c.vout.length
    · have hmem : c.vout[n] ∈ c.vout := List.getElem_mem hn
      rw [outAt, List.getD_eq_getElem _ _ hn]
      exact h _ hmem (List.all_eq_true.mp hp _ hmem)
    · exact List.getD_eq_default _ _ (by omega)
  · intro hn
    refine List.all_eq_true.mpr ?_
    intro o ho
    obtain ⟨n, hlt, rfl⟩ := List.getElem_of_mem ho
    have ho' := hn n
    rw [outAt, List.getD_eq_getElem _ _ hlt] at ho'
    rw [ho']
    rfl

theorem ext_of_outAt {a b : CCoins} (ha : Clean a) (hb : Clean b)
    (hcb : a.fCoinBase = b.fCoinBase) (hcs : a.fCoinStake = b.fCoinStake)
    (hh : a.nHeight = b.nHeight) (hv : a.nVersion = b.nVersion)
    (h : ∀ n, a.outAt n = b.outAt n) : a = b := by
  have hvout : a.vout = b.vout := eq_of_getD (d := CTxOut.null) rfl ha.1 hb.1 h
  cases a
  cases b
  simp_all

theorem outAt_null_of_le {c : CCoins} {n : Nat} (h : c.vout.length ≤ n) :
    c.outAt n = CTxOut.null :=
  List.getD_eq_default _ _ h

theorem lt_length_of_outAt {c : CCoins} {n : Nat} (h : (c.outAt n).isNull = false) :
    n < c.vout.length := by
  by_contra hle
  rw [outAt_null_of_le (by omega)] at h
  simp at h

theorem isAvailable_iff {c : CCoins} {n : Nat} :
    c.isAvailable n = true ↔
      (c.outAt n).isNull = false ∧ (c.outAt n).scriptPubKey.isZerocoinMint = false := by
  simp only [isAvailable, Bool.and_eq_true, decide_eq_true_eq, Bool.not_eq_true']
  exact ⟨fun h => ⟨h.1.2, h.2⟩, fun h => ⟨⟨lt_length_of_outAt h.1, h.1⟩, h.2⟩⟩

theorem canonicalNulls_map_dropUnspendable {vout : List CTxOut} (h : CanonicalNulls vout) :
    CanonicalNulls (vout.map dropUnspendable) := by
  intro o ho hnull
  obtain ⟨x, hx, rfl⟩ := List.mem_map.mp ho
  by_cases hu : x.scriptPubKey.isUnspendable
  · simp [dropUnspendable, hu]
  · simp only [dropUnspendable, hu] at hnull ⊢
    exact h x hx hnull

theorem canonicalNulls_of_nonneg {vout : List CTxOut} (h : ∀ o ∈ vout, 0 ≤ o.nValue) :
    CanonicalNulls vout := by
  intro o ho hnull
  have h0 := h o ho
  rw [CTxOut.isNull_iff.mp hnull] at h0
  omega

theorem clean_clearUnspendable {c : CCoins} (h : CanonicalNulls c.vout) :
    Clean c.clearUnspendable :=
  clean_cleanup (canonicalNulls_map_dropUnspendable h)

theorem outAt_clearUnspendable {c : CCoins} (h : CanonicalNulls c.vout) (n : Nat) :
    c.clearUnspendable.outAt n = dropUnspendable (c.outAt n) := by
  rw [clearUnspendable, outAt_cleanup (canonicalNulls_map_dropUnspendable h)]
  exact List.getD_map c.vout CTxOut.null dropUnspendable

theorem clearUnspendable_of_spendable {c : CCoins} (hc : Clean c)
    (h : ∀ n, (c.outAt n).scriptPubKey.isUnspendable = false) : c.clearUnspendable = c := by
  refine ext_of_outAt (clean_clearUnspendable hc.2) hc rfl rfl rfl rfl ?_
  intro n
  rw [outAt_clearUnspendable hc.2]
  simp [dropUnspendable, h n]

theorem spend_eq_some {c c' : CCoins} {out : COutPoint} {undo : CTxInUndo} (hc : Clean c)
    (h : c.spend out = some (c', undo)) :
    (c.outAt out.n.toNat).isNull = false ∧ undo.txout = c.outAt out.n.toNat ∧ Clean c' ∧
      c'.fCoinBase = c.fCoinBase ∧ c'.fCoinStake = c.fCoinStake ∧ c'.nHeight = c.nHeight ∧
      c'.nVersion = c.nVersion ∧
      (∀ n, c'.outAt n = if n = out.n.toNat then CTxOut.null else c.outAt n) ∧
      (if c'.vout = [] then
        undo.nHeight = (c.nHeight % 2 ^ 32).toNat ∧ undo.fCoinBase = c.fCoinBase ∧
          undo.fCoinStake = c.fCoinStake ∧ undo.nVersion = c.nVersion
      else
        undo = { txout := c.outAt out.n.toNat }) := by
  simp only [spend] at h
  split at h
  · simp at h
  · split at h
    · simp at h
    · rename_i hlen hnull
      have hcan : CanonicalNulls (c.vout.set out.n.toNat CTxOut.null) :=
        canonical_set hc.2 (fun _ => rfl)
      have hout : ∀ n, ({ c with vout := c.vout.set out.n.toNat CTxOut.null }).cleanup.outAt n =
          if n = out.n.toNat then CTxOut.null else c.outAt n := by
        intro n
        rw [outAt_cleanup hcan]
        simp only [outAt, List.getD_eq_getElem?_getD, List.getElem?_set]
        by_cases hn : n = out.n.toNat
        · have hlt : out.n.toNat < c.vout.length := by omega
          simp [hn, hlt]
        · simp [hn, Ne.symm hn]
      split at h
      · rename_i hempty
        simp only [Option.some.injEq, Prod.mk.injEq] at h
        obtain ⟨rfl, rfl⟩ := h
        refine ⟨by simpa using hnull, rfl, clean_cleanup hcan, rfl, rfl, rfl, rfl, hout, ?_⟩
        rw [if_pos (List.isEmpty_iff.mp hempty)]
        exact ⟨rfl, rfl, rfl, rfl⟩
      · rename_i hempty
        simp only [Option.some.injEq, Prod.mk.injEq] at h
        obtain ⟨rfl, rfl⟩ := h
        refine ⟨by simpa using hnull, rfl, clean_cleanup hcan, rfl, rfl, rfl, rfl, hout, ?_⟩
        rw [if_neg (fun h0 => hempty (List.isEmpty_iff.mpr h0))]

theorem isNull_outAt_cleanup (c : CCoins) (n : Nat) :
    (c.cleanup.outAt n).isNull = (c.outAt n).isNull :=
  apply_getD_rdropWhile (p := CTxOut.isNull) rfl c.vout n

theorem outAt_cleanup_of_not_isNull {c : CCoins} {n : Nat}
    (h : (c.cleanup.outAt n).isNull = false) : c.cleanup.outAt n = c.outAt n :=
  getD_rdropWhile_of_not (p := CTxOut.isNull) rfl h

theorem outAt_fromTx_of_not_isNull {tx : CTransaction} {nHeight : Int} {n : Nat}
    (hn : ((fromTx tx nHeight).outAt n).isNull = false) :
    (fromTx tx nHeight).outAt n = tx.vout.getD n CTxOut.null := by
  have hcl := outAt_cleanup_of_not_isNull hn
  rw [fromTx, clearUnspendable] at hn ⊢
  rw [hcl] at hn ⊢
  have hmap : (tx.vout.map dropUnspendable).getD n CTxOut.null =
      dropUnspendable (tx.vout.getD n CTxOut.null) :=
    List.getD_map tx.vout CTxOut.null dropUnspendable
  simp only [outAt, hmap, dropUnspendable] at hn ⊢
  split at hn
  · simp at hn
  · rename_i hu
    rw [if_neg hu]

theorem outAt_spend_of_not_isNull {c c' : CCoins} {out : COutPoint} {undo : CTxInUndo} {n : Nat}
    (h : c.spend out = some (c', undo)) (hn : (c'.outAt n).isNull = false) :
    c'.outAt n = c.outAt n := by
  simp only [spend] at h
  split at h
  · simp at h
  · split at h
    · simp at h
    · have hc' : c' = cleanup { c with vout := c.vout.set out.n.toNat CTxOut.null } := by
        split at h <;> simp_all
      subst hc'
      have hcl := outAt_cleanup_of_not_isNull hn
      rw [hcl] at hn ⊢
      simp only [outAt, List.getD_eq_getElem?_getD, List.getElem?_set] at hn ⊢
      by_cases hout : out.n.toNat = n
      · subst hout
        split at hn
        · split at hn
          · simp at hn
          · simp at hn
        · simp_all
      · simp [hout]

theorem isNull_outAt_spend {c c' : CCoins} {out : COutPoint} {undo : CTxInUndo}
    (h : c.spend out = some (c', undo)) :
    (c.outAt out.n.toNat).isNull = false ∧
      ∀ n, (c'.outAt n).isNull = if n = out.n.toNat then true else (c.outAt n).isNull := by
  simp only [spend] at h
  split at h
  · simp at h
  · rename_i hlen
    split at h
    · simp at h
    · rename_i hnull
      have hc' : c' = cleanup { c with vout := c.vout.set out.n.toNat CTxOut.null } := by
        split at h <;> simp_all
      refine ⟨by simpa using hnull, fun n => ?_⟩
      rw [hc', isNull_outAt_cleanup]
      simp only [outAt, List.getD_eq_getElem?_getD, List.getElem?_set]
      by_cases hn : n = out.n.toNat
      · have hlt : out.n.toNat < c.vout.length := by omega
        simp [hn, hlt]
      · simp [hn, Ne.symm hn]

theorem isNull_outAt_of_isPruned {c : CCoins} (h : c.isPruned = true) (n : Nat) :
    (c.outAt n).isNull = true := by
  by_contra hn
  have hlt := lt_length_of_outAt (by simpa using hn)
  rw [outAt, List.getD_eq_getElem _ _ hlt] at hn
  exact hn (List.all_eq_true.mp h _ (List.getElem_mem hlt))

theorem spend_isSome {c : CCoins} {out : COutPoint} (h : (c.outAt out.n.toNat).isNull = false) :
    (c.spend out).isSome = true := by
  have hlen := lt_length_of_outAt h
  simp only [spend, h, if_neg (Nat.not_le.mpr hlen)]
  split
  · simp_all
  · split <;> rfl

end CCoins

end AnkerNode
