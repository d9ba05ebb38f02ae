import AnkerNode.Chain.IndexInvariant
import Mathlib.Data.List.Sort

namespace AnkerNode

-- An entry as it is written; `nProof` is what GetBlockProof makes of its nBits.
structure CDiskBlockIndex where
  hash : UInt256
  hashPrev : UInt256
  nHeight : Nat
  nProof : Nat
  nTx : Nat
  nStatus : BlockStatus
deriving DecidableEq, Repr

namespace BlockTree

theorem parent_lt_empty {i j : Nat} (h : (none : Option Nat) = some j) : j < i := by
  cases h

theorem height_parent_empty {j : Nat} (h : (none : Option Nat) = some j) : 0 = 0 + 1 := by
  cases h

theorem height_root_empty (_ : (none : Option Nat) = none) : 0 = 0 := rfl

def empty : BlockTree where
  parent := fun _ => none
  height := fun _ => 0
  parent_lt := parent_lt_empty
  height_parent := height_parent_empty
  height_root := height_root_empty
  size := 0
  hash := fun _ => 0
  pskip := fun _ => none
  nChainWork := fun _ => 0
  parent_size := by simp
  pskip_parent := by simp
  nChainWork_parent := by simp

end BlockTree

namespace BlockIndex

open RankedForest

def diskBlockIndex (s : BlockIndex) (i : Nat) : CDiskBlockIndex where
  hash := s.tree.hash i
  hashPrev := (s.tree.parent i).elim 0 s.tree.hash
  nHeight := s.tree.height i
  nProof := s.tree.nChainWork i - (s.tree.parent i).elim 0 s.tree.nChainWork
  nTx := (s.info i).nTx
  nStatus := s.status i

-- before anything is loaded
def empty : BlockIndex where
  tree := .empty
  info := fun _ => {}
  setBlockIndexCandidates := []
  mapBlocksUnlinked := []
  vChain := []
  nBlockSequenceId := 1
  pindexBestInvalid := none
  pindexBestHeader := none

-- InsertBlockIndex gives a null pointer for the hash 0.
def previous (s : BlockIndex) (hashPrev : UInt256) : Option Nat :=
  if hashPrev = 0 then none else s.tree.lookup hashPrev

theorem previous_lt {s : BlockIndex} {hashPrev : UInt256} {j : Nat}
    (h : s.previous hashPrev = some j) : j < s.tree.size := by
  rw [previous] at h
  split at h
  · cases h
  · exact BlockTree.lookup_lt h

-- the number of transactions up to an entry, with `nPrev` that of the one before it
def loadedChainTx (nPrev : Option Nat) (nTx : Nat) : Nat :=
  match nPrev with
  | none => nTx
  | some nChainTx => if nChainTx = 0 then 0 else nChainTx + nTx

-- the pair that goes to mapBlocksUnlinked with a record
def unlinkedBy (s : BlockIndex) (r : CDiskBlockIndex) : List (Nat × Nat) :=
  if r.nStatus.haveData then
    ((s.previous r.hashPrev).filter fun j => (s.info j).nChainTx == 0).toList.map
      fun j => (j, s.tree.size)
  else []

-- the entry of a record, with its chain work and number of transactions
def newEntry (s : BlockIndex) (r : CDiskBlockIndex) (hproof : 0 < r.nProof) : BlockIndex :=
  let prev := s.previous r.hashPrev
  { s with
    tree := s.tree.insert ⟨r.hash, r.hashPrev, r.nProof, hproof⟩ prev fun _ => previous_lt
    info := Function.update s.info s.tree.size
      { nTx := r.nTx
        nChainTx :=
          if r.nStatus.haveData then loadedChainTx (prev.map fun j => (s.info j).nChainTx) r.nTx
          else 0
        nStatus := r.nStatus }
    mapBlocksUnlinked := s.mapBlocksUnlinked ++ s.unlinkedBy r }

-- the sets and best entries that a loaded entry goes into
def enterSets (s : BlockIndex) (i : Nat) : BlockIndex :=
  let s :=
    if (s.status i).isValid BLOCK_VALID_TRANSACTIONS &&
        ((s.info i).nChainTx != 0 || (s.tree.parent i).isNone) then
      s.insertCandidate i
    else s
  let s := if (s.status i).failed then s.invalidChainFound i else s
  let best := (s.status i).isValid BLOCK_VALID_TREE && s.pindexBestHeader.all fun b => s.worse b i
  { s with pindexBestHeader := if best then some i else s.pindexBestHeader }

-- A record whose parent has none, or none below it, has no place in a tree.
def loadEntry (s : BlockIndex) (r : CDiskBlockIndex) : Option BlockIndex :=
  let prev := s.previous r.hashPrev
  if hproof : 0 < r.nProof then
    if (prev = none ∧ r.hashPrev ≠ 0) ∨ r.nHeight ≠ prev.elim 0 (fun j => s.tree.height j + 1) then
      none
    else some ((s.newEntry r hproof).enterSets s.tree.size)
  else none

-- The tip is the best block of the coins, when it has a record.
def loadTip (s : BlockIndex) (hashBestChain : UInt256) : BlockIndex :=
  match s.tree.lookup hashBestChain with
  | none => s
  | some i => (s.setTip i).pruneBlockIndexCandidates

def loadBlockIndexDB (records : List CDiskBlockIndex) (hashBestChain : UInt256) :
    Option BlockIndex :=
  ((records.mergeSort fun a b => decide (a.nHeight ≤ b.nHeight)).foldlM loadEntry empty).map
    fun s => s.loadTip hashBestChain

section Entries

variable {s s' : BlockIndex} {r : CDiskBlockIndex}

-- where a record goes: below nothing, or below the entry of its parent
def Attaches (s : BlockIndex) (r : CDiskBlockIndex) : Prop :=
  (r.hashPrev = 0 ∧ r.nHeight = 0) ∨
    ∃ j, r.hashPrev ≠ 0 ∧ s.tree.lookup r.hashPrev = some j ∧ r.nHeight = s.tree.height j + 1

theorem loadEntry_eq (hproof : 0 < r.nProof) (h : s.Attaches r) :
    s.loadEntry r = some ((s.newEntry r hproof).enterSets s.tree.size) := by
  have hplace : ¬((s.previous r.hashPrev = none ∧ r.hashPrev ≠ 0) ∨
      r.nHeight ≠ (s.previous r.hashPrev).elim 0 fun j => s.tree.height j + 1) := by
    rcases h with ⟨hroot, hheight⟩ | ⟨j, hne, hj, hheight⟩
    · simp [previous, hroot, hheight]
    · rw [previous, if_neg hne, hj, hheight]
      simp
  rw [loadEntry, dif_pos hproof, if_neg hplace]

theorem enterSets_frame (s : BlockIndex) (i : Nat) :
    (s.enterSets i).tree = s.tree ∧ (s.enterSets i).info = s.info ∧
      (s.enterSets i).mapBlocksUnlinked = s.mapBlocksUnlinked ∧
        (s.enterSets i).vChain = s.vChain := by
  dsimp only [enterSets]
  split <;> split <;> exact ⟨rfl, rfl, rfl, rfl⟩

theorem mem_enterSets (s : BlockIndex) (i k : Nat) :
    k ∈ (s.enterSets i).setBlockIndexCandidates ↔ k ∈ s.setBlockIndexCandidates ∨
      (k = i ∧ (s.status i).isValid BLOCK_VALID_TRANSACTIONS = true ∧
        ((s.info i).nChainTx ≠ 0 ∨ s.tree.parent i = none)) := by
  have hset : (s.enterSets i).setBlockIndexCandidates =
      (if (s.status i).isValid BLOCK_VALID_TRANSACTIONS &&
          ((s.info i).nChainTx != 0 || (s.tree.parent i).isNone) then
        s.insertCandidate i
      else s).setBlockIndexCandidates := by
    dsimp only [enterSets]
    split <;> split <;> rfl
  rw [hset]
  split
  · rename_i hcond
    simp only [insertCandidate, List.mem_insert_iff]
    simp only [Bool.and_eq_true, Bool.or_eq_true, bne_iff_ne, Option.isNone_iff_eq_none] at hcond
    tauto
  · rename_i hcond
    simp only [Bool.and_eq_true, Bool.or_eq_true, bne_iff_ne, Option.isNone_iff_eq_none] at hcond
    tauto

end Entries

section NewEntry

variable {s : BlockIndex} {r : CDiskBlockIndex} {hproof : 0 < r.nProof} {k : Nat}

@[simp] theorem size_newEntry : (s.newEntry r hproof).tree.size = s.tree.size + 1 := rfl

theorem mapBlocksUnlinked_newEntry :
    (s.newEntry r hproof).mapBlocksUnlinked = s.mapBlocksUnlinked ++ s.unlinkedBy r := rfl

theorem mem_unlinkedBy {i j : Nat} : (j, i) ∈ s.unlinkedBy r ↔ i = s.tree.size ∧
    s.previous r.hashPrev = some j ∧ r.nStatus.haveData = true ∧ (s.info j).nChainTx = 0 := by
  rw [unlinkedBy]
  split
  · rename_i hdata
    simp only [List.mem_map, Option.mem_toList, Option.filter_eq_some_iff, beq_iff_eq,
      Prod.mk.injEq, hdata, true_and]
    constructor
    · rintro ⟨_, hj, rfl, rfl⟩
      exact ⟨rfl, hj⟩
    · rintro ⟨rfl, hj⟩
      exact ⟨j, hj, rfl, rfl⟩
  · rename_i hdata
    simp [hdata]

theorem nodup_unlinkedBy : (s.unlinkedBy r).Nodup := by
  rw [unlinkedBy]
  split
  · cases (s.previous r.hashPrev).filter fun j => (s.info j).nChainTx == 0 with
    | none => exact List.nodup_nil
    | some j => exact List.nodup_singleton _
  · exact List.nodup_nil

theorem lt_or_eq_of_newEntry (hk : k < (s.newEntry r hproof).tree.size) :
    k < s.tree.size ∨ k = s.tree.size := by
  rw [size_newEntry] at hk
  omega

theorem info_newEntry_of_ne (hk : k ≠ s.tree.size) : (s.newEntry r hproof).info k = s.info k :=
  Function.update_of_ne hk ..

theorem status_newEntry_of_ne (hk : k ≠ s.tree.size) :
    (s.newEntry r hproof).status k = s.status k := by
  rw [status, info_newEntry_of_ne hk]
  rfl

theorem info_newEntry_self : (s.newEntry r hproof).info s.tree.size =
    { nTx := r.nTx
      nChainTx :=
        if r.nStatus.haveData then
          loadedChainTx ((s.previous r.hashPrev).map fun j => (s.info j).nChainTx) r.nTx
        else 0
      nStatus := r.nStatus } := Function.update_self ..

theorem status_newEntry_self : (s.newEntry r hproof).status s.tree.size = r.nStatus := by
  rw [status, info_newEntry_self]

theorem parent_newEntry_of_ne (hk : k ≠ s.tree.size) :
    (s.newEntry r hproof).tree.parent k = s.tree.parent k := Function.update_of_ne hk ..

theorem parent_newEntry_self :
    (s.newEntry r hproof).tree.parent s.tree.size = s.previous r.hashPrev := Function.update_self ..

theorem hash_newEntry_of_ne (hk : k ≠ s.tree.size) :
    (s.newEntry r hproof).tree.hash k = s.tree.hash k := Function.update_of_ne hk ..

theorem hash_newEntry_self : (s.newEntry r hproof).tree.hash s.tree.size = r.hash :=
  Function.update_self ..

theorem height_newEntry_of_ne (hk : k ≠ s.tree.size) :
    (s.newEntry r hproof).tree.height k = s.tree.height k := Function.update_of_ne hk ..

theorem nChainWork_newEntry_of_ne (hk : k ≠ s.tree.size) :
    (s.newEntry r hproof).tree.nChainWork k = s.tree.nChainWork k := Function.update_of_ne hk ..

theorem diskBlockIndex_newEntry_of_lt (hk : k < s.tree.size) :
    (s.newEntry r hproof).diskBlockIndex k = s.diskBlockIndex k := by
  have hne := Nat.ne_of_lt hk
  have hparent : ∀ j, s.tree.parent k = some j → j ≠ s.tree.size := fun j hj =>
    Nat.ne_of_lt (parent_lt_size hj)
  rw [diskBlockIndex, diskBlockIndex, hash_newEntry_of_ne hne, parent_newEntry_of_ne hne,
    height_newEntry_of_ne hne, nChainWork_newEntry_of_ne hne, info_newEntry_of_ne hne,
    status_newEntry_of_ne hne]
  cases hp : s.tree.parent k with
  | none => rfl
  | some j =>
    simp only [Option.elim_some, hash_newEntry_of_ne (hparent j hp),
      nChainWork_newEntry_of_ne (hparent j hp)]

theorem diskBlockIndex_newEntry_self (h : s.Attaches r) :
    (s.newEntry r hproof).diskBlockIndex s.tree.size = r := by
  have hheight : (s.newEntry r hproof).tree.height s.tree.size =
      (s.previous r.hashPrev).elim 0 fun j => s.tree.height j + 1 := Function.update_self ..
  have hwork : (s.newEntry r hproof).tree.nChainWork s.tree.size =
      ((s.previous r.hashPrev).elim 0 fun j => s.tree.nChainWork j) + r.nProof :=
    Function.update_self ..
  rw [diskBlockIndex, hash_newEntry_self, parent_newEntry_self, hheight, hwork,
    status_newEntry_self, info_newEntry_self]
  rcases h with ⟨hroot, h0⟩ | ⟨j, hne, hj, hj1⟩
  · rw [previous, if_pos hroot]
    cases r
    simp_all
  · have hlt := Nat.ne_of_lt (BlockTree.lookup_lt hj)
    rw [previous, if_neg hne, hj]
    simp only [Option.elim_some, hash_newEntry_of_ne hlt, nChainWork_newEntry_of_ne hlt,
      BlockTree.hash_of_lookup hj, ← hj1, Nat.add_sub_cancel_left]

end NewEntry

-- records that come after their parents
inductive Ordered : List CDiskBlockIndex → Prop
  | nil : Ordered []
  | snoc {rs : List CDiskBlockIndex} {r : CDiskBlockIndex} (h : Ordered rs) (hproof : 0 < r.nProof)
      (hhash : r.hash ≠ 0) (hnew : ∀ p ∈ rs, p.hash ≠ r.hash)
      (hplace : (r.hashPrev = 0 ∧ r.nHeight = 0) ∨
        ∃ p ∈ rs, p.hash = r.hashPrev ∧ r.nHeight = p.nHeight + 1) : Ordered (rs ++ [r])

-- The index that the records come to, before the tip is set.
structure Loaded (rs : List CDiskBlockIndex) (s : BlockIndex) : Prop where
  size : s.tree.size = rs.length
  entry : ∀ k r, rs[k]? = some r → s.diskBlockIndex k = r
  distinct : ∀ i < s.tree.size, ∀ j < s.tree.size, s.tree.hash i = s.tree.hash j → i = j
  nonzero : ∀ i < s.tree.size, s.tree.hash i ≠ 0
  nChainTx : ∀ k < s.tree.size, (s.info k).nChainTx = if (s.status k).haveData then
      loadedChainTx ((s.tree.parent k).map fun j => (s.info j).nChainTx) (s.info k).nTx
    else 0
  sequence : ∀ k < s.tree.size, (s.info k).nSequenceId = 0
  unlinked : ∀ i j, (j, i) ∈ s.mapBlocksUnlinked ↔
    s.tree.parent i = some j ∧ (s.status i).haveData = true ∧ (s.info j).nChainTx = 0
  nodup : s.mapBlocksUnlinked.Nodup
  candidates : ∀ k, k ∈ s.setBlockIndexCandidates ↔ k < s.tree.size ∧
    (s.status k).isValid BLOCK_VALID_TRANSACTIONS = true ∧
      ((s.info k).nChainTx ≠ 0 ∨ s.tree.parent k = none)
  vChain : s.vChain = []

section Load

variable {rs : List CDiskBlockIndex} {s : BlockIndex} {r : CDiskBlockIndex}

theorem Loaded.hash_eq (h : Loaded rs s) {k : Nat} {p : CDiskBlockIndex} (hk : rs[k]? = some p) :
    k < s.tree.size ∧ s.tree.hash k = p.hash ∧ s.tree.height k = p.nHeight := by
  refine ⟨?_, ?_, ?_⟩
  · rw [h.size]
    exact (List.getElem?_eq_some_iff.mp hk).1
  · rw [← h.entry k p hk]
    rfl
  · rw [← h.entry k p hk]
    rfl

theorem Loaded.exists_record (h : Loaded rs s) {k : Nat} (hk : k < s.tree.size) :
    ∃ p ∈ rs, s.diskBlockIndex k = p := by
  rw [h.size] at hk
  exact ⟨rs[k], List.getElem_mem hk, h.entry k _ (List.getElem?_eq_getElem hk)⟩

theorem Loaded.attaches (h : Loaded rs s) (hplace : (r.hashPrev = 0 ∧ r.nHeight = 0) ∨
    ∃ p ∈ rs, p.hash = r.hashPrev ∧ r.nHeight = p.nHeight + 1) : s.Attaches r := by
  refine hplace.imp_right ?_
  rintro ⟨p, hp, hhash, hheight⟩
  obtain ⟨j, hj⟩ := List.mem_iff_getElem?.mp hp
  obtain ⟨hlt, hjhash, hjheight⟩ := h.hash_eq hj
  refine ⟨j, ?_, ?_, by rw [hjheight, hheight]⟩
  · rw [← hhash, ← hjhash]
    exact h.nonzero j hlt
  · rw [← hhash, ← hjhash]
    exact BlockTree.lookup_hash hlt fun i hi => h.distinct i hi j hlt

-- a field of the records that is new to the index
theorem Loaded.hash_ne (h : Loaded rs s) (hnew : ∀ p ∈ rs, p.hash ≠ r.hash) {k : Nat}
    (hk : k < s.tree.size) : s.tree.hash k ≠ r.hash := by
  obtain ⟨p, hp, hkp⟩ := h.exists_record hk
  rw [show s.tree.hash k = p.hash from congrArg CDiskBlockIndex.hash hkp]
  exact hnew p hp

theorem Loaded.nChainTx_newEntry (h : Loaded rs s) (hproof : 0 < r.nProof) {k : Nat}
    (hk : k < (s.newEntry r hproof).tree.size) : ((s.newEntry r hproof).info k).nChainTx =
      if ((s.newEntry r hproof).status k).haveData then
        loadedChainTx (((s.newEntry r hproof).tree.parent k).map fun j =>
          ((s.newEntry r hproof).info j).nChainTx) ((s.newEntry r hproof).info k).nTx
      else 0 := by
  have hmap : ∀ prev : Option Nat, (∀ j, prev = some j → j < s.tree.size) →
      prev.map (fun j => ((s.newEntry r hproof).info j).nChainTx) =
        prev.map fun j => (s.info j).nChainTx := by
    intro prev hprev
    cases prev with
    | none => rfl
    | some j => rw [Option.map_some, Option.map_some, info_newEntry_of_ne (Nat.ne_of_lt (hprev j rfl))]
  rcases lt_or_eq_of_newEntry hk with hlt | rfl
  · have hne := Nat.ne_of_lt hlt
    rw [info_newEntry_of_ne hne, status_newEntry_of_ne hne, parent_newEntry_of_ne hne,
      hmap _ fun j hj => parent_lt_size hj]
    exact h.nChainTx k hlt
  · rw [parent_newEntry_self, hmap _ fun j hj => previous_lt hj, status_newEntry_self,
      info_newEntry_self]

theorem Loaded.unlinked_newEntry (h : Loaded rs s) (hproof : 0 < r.nProof) (i j : Nat) :
    (j, i) ∈ (s.newEntry r hproof).mapBlocksUnlinked ↔
      (s.newEntry r hproof).tree.parent i = some j ∧
        ((s.newEntry r hproof).status i).haveData = true ∧
          ((s.newEntry r hproof).info j).nChainTx = 0 := by
  have hnone : (j, s.tree.size) ∉ s.mapBlocksUnlinked := by
    rw [h.unlinked, s.tree.parent_size (Nat.le_refl _)]
    simp
  rw [mapBlocksUnlinked_newEntry, List.mem_append, mem_unlinkedBy]
  by_cases hi : i = s.tree.size
  · subst hi
    rw [parent_newEntry_self, status_newEntry_self]
    simp only [hnone, false_or, true_and]
    refine and_congr_right fun hj => ?_
    rw [info_newEntry_of_ne (Nat.ne_of_lt (previous_lt hj))]
  · rw [parent_newEntry_of_ne hi, status_newEntry_of_ne hi, h.unlinked]
    simp only [hi, false_and, or_false]
    refine and_congr_right fun hj => ?_
    rw [info_newEntry_of_ne]
    have hlt := parent_size_lt hj
    have hparent := s.tree.parent_lt hj
    omega

theorem Loaded.extend (h : Loaded rs s) (hproof : 0 < r.nProof) (hhash : r.hash ≠ 0)
    (hnew : ∀ p ∈ rs, p.hash ≠ r.hash) (hat : s.Attaches r) :
    Loaded (rs ++ [r]) ((s.newEntry r hproof).enterSets s.tree.size) := by
  obtain ⟨htree, hinfo, hunlinked, hchain⟩ := enterSets_frame (s.newEntry r hproof) s.tree.size
  have hmem := mem_enterSets (s.newEntry r hproof) s.tree.size
  generalize (s.newEntry r hproof).enterSets s.tree.size = e at *
  have hstatus : ∀ k, e.status k = (s.newEntry r hproof).status k := fun k => by
    rw [status, hinfo]
    rfl
  have hdisk : ∀ k, e.diskBlockIndex k = (s.newEntry r hproof).diskBlockIndex k := fun k => by
    rw [diskBlockIndex, htree, hinfo, hstatus]
    rfl
  have hold : ∀ k < s.tree.size, (s.newEntry r hproof).tree.hash k = s.tree.hash k :=
    fun k hk => hash_newEntry_of_ne (Nat.ne_of_lt hk)
  refine ⟨?_, ?_, ?_, ?_, ?_, ?_, ?_, ?_, ?_, ?_⟩
  · rw [htree, size_newEntry, h.size, List.length_append, List.length_singleton]
  · intro k p hk
    rw [hdisk]
    rcases Nat.lt_or_ge k rs.length with hlt | hge
    · rw [List.getElem?_append_left hlt] at hk
      rw [diskBlockIndex_newEntry_of_lt (h.size ▸ hlt)]
      exact h.entry k p hk
    · obtain ⟨rfl, rfl⟩ : k = s.tree.size ∧ p = r := by
        rw [List.getElem?_append_right hge, List.getElem?_singleton] at hk
        rw [h.size]
        split at hk
        · exact ⟨by omega, (Option.some.inj hk).symm⟩
        · cases hk
      exact diskBlockIndex_newEntry_self hat
  · intro i hi j hj heq
    rw [htree] at hi hj heq
    rcases lt_or_eq_of_newEntry hi with hi | rfl
    · rcases lt_or_eq_of_newEntry hj with hj | rfl
      · rw [hold i hi, hold j hj] at heq
        exact h.distinct i hi j hj heq
      · rw [hold i hi, hash_newEntry_self] at heq
        exact absurd heq (h.hash_ne hnew hi)
    · rcases lt_or_eq_of_newEntry hj with hj | rfl
      · rw [hold j hj, hash_newEntry_self] at heq
        exact absurd heq.symm (h.hash_ne hnew hj)
      · rfl
  · intro i hi
    rw [htree] at hi ⊢
    rcases lt_or_eq_of_newEntry hi with hi | rfl
    · rw [hold i hi]
      exact h.nonzero i hi
    · rw [hash_newEntry_self]
      exact hhash
  · intro k hk
    rw [htree] at hk ⊢
    rw [hinfo, hstatus]
    exact h.nChainTx_newEntry hproof hk
  · intro k hk
    rw [htree] at hk
    rw [hinfo]
    rcases lt_or_eq_of_newEntry hk with hlt | rfl
    · rw [info_newEntry_of_ne (Nat.ne_of_lt hlt)]
      exact h.sequence k hlt
    · rw [info_newEntry_self]
  · intro i j
    rw [hunlinked, htree, hstatus, hinfo]
    exact h.unlinked_newEntry hproof i j
  · rw [hunlinked, mapBlocksUnlinked_newEntry]
    refine List.nodup_append.mpr ⟨h.nodup, nodup_unlinkedBy, ?_⟩
    rintro ⟨j, i⟩ hin _ hnew' rfl
    obtain ⟨rfl, -⟩ := mem_unlinkedBy.mp hnew'
    have hlt := parent_size_lt ((h.unlinked _ _).mp hin).1
    exact absurd hlt (Nat.lt_irrefl _)
  · intro k
    rw [hmem, htree, hinfo, hstatus]
    rw [show (s.newEntry r hproof).setBlockIndexCandidates = s.setBlockIndexCandidates from rfl,
      h.candidates]
    by_cases hk : k = s.tree.size
    · subst hk
      simp
    · rw [status_newEntry_of_ne hk, info_newEntry_of_ne hk, parent_newEntry_of_ne hk, size_newEntry]
      simp only [hk, false_and, or_false]
      refine and_congr_left fun _ => ?_
      omega
  · rw [hchain]
    exact h.vChain

theorem Ordered.loaded (h : Ordered rs) : ∃ s, rs.foldlM loadEntry empty = some s ∧ Loaded rs s := by
  induction h with
  | nil =>
    refine ⟨empty, rfl, ⟨rfl, by simp, ?_, ?_, ?_, ?_, ?_, List.nodup_nil, ?_, rfl⟩⟩
    all_goals simp [empty, BlockTree.empty]
  | @snoc rs r h hproof hhash hnew hplace ih =>
    obtain ⟨s, hfold, hs⟩ := ih
    have hat := hs.attaches hplace
    refine ⟨_, ?_, hs.extend hproof hhash hnew hat⟩
    rw [List.foldlM_append, hfold]
    simp only [Option.bind_eq_bind, Option.bind_some, List.foldlM_cons, List.foldlM_nil,
      loadEntry_eq hproof hat]
    rfl

end Load

section Snapshot

-- A record of an entry, written before the entry was perhaps marked as failed for a parent.
structure Records (m : BlockIndex) (i : Nat) (r : CDiskBlockIndex) : Prop where
  lt : i < m.tree.size
  eq : m.diskBlockIndex i =
    { r with nStatus := { r.nStatus with failedChild := (m.status i).failedChild } }
  failedChild : r.nStatus.failedChild = true → (m.status i).failedChild = true

structure Named (m : BlockIndex) : Prop where
  distinct : ∀ i < m.tree.size, ∀ j < m.tree.size, m.tree.hash i = m.tree.hash j → i = j
  nonzero : ∀ i < m.tree.size, m.tree.hash i ≠ 0
  nProof : ∀ i < m.tree.size, 0 < (m.diskBlockIndex i).nProof

-- one record for each entry
structure Snapshot (m : BlockIndex) (records : List CDiskBlockIndex) : Prop where
  sound : ∀ r ∈ records, ∃ i, m.Records i r
  complete : ∀ i < m.tree.size, ∃ r ∈ records, m.Records i r
  nodup : (records.map CDiskBlockIndex.hash).Nodup

-- an entry whose chain has been connected
structure Anchored (m : BlockIndex) (i : Nat) : Prop where
  lt : i < m.tree.size
  complete : m.Complete i
  connected : ∀ a ∈ m.tree.branch i, a ≠ 0 →
    BLOCK_VALID_SCRIPTS ≤ (m.status a).nValid ∧ (m.status a).haveUndo = true

theorem ordered_of_sorted {rs : List CDiskBlockIndex}
    (hsorted : rs.Pairwise fun a b => a.nHeight ≤ b.nHeight)
    (hnodup : (rs.map CDiskBlockIndex.hash).Nodup)
    (hplace : ∀ r ∈ rs, 0 < r.nProof ∧ r.hash ≠ 0 ∧ ((r.hashPrev = 0 ∧ r.nHeight = 0) ∨
      ∃ p ∈ rs, p.hash = r.hashPrev ∧ r.nHeight = p.nHeight + 1)) : Ordered rs := by
  have hprefix : ∀ pre post, pre ++ post = rs → Ordered pre := by
    intro pre
    induction pre using List.reverseRecOn with
    | nil => exact fun _ _ => .nil
    | append_singleton pre r ih =>
      intro post heq
      rw [List.append_assoc] at heq
      have hr : r ∈ rs := by rw [← heq]; simp
      obtain ⟨hproof, hhash, hparent⟩ := hplace r hr
      refine .snoc (ih _ heq) hproof hhash ?_ (hparent.imp_right ?_)
      · intro p hp heq'
        rw [← heq, List.map_append, List.nodup_append] at hnodup
        exact hnodup.2.2 _ (List.mem_map_of_mem hp) _ (by simp) heq'
      · rintro ⟨p, hp, hph, hheight⟩
        rw [← heq] at hp
        rcases List.mem_append.mp hp with hp | hp
        · exact ⟨p, hp, hph, hheight⟩
        · -- from the record on, no height is smaller
          rw [← heq, List.pairwise_append] at hsorted
          rcases List.mem_cons.mp hp with rfl | hp
          · omega
          · have hle := (List.pairwise_cons.mp hsorted.2.1).1 p hp
            omega
  exact hprefix rs [] (List.append_nil rs)

variable {m : BlockIndex} {records : List CDiskBlockIndex} {i : Nat} {r : CDiskBlockIndex}

theorem Records.hash (h : m.Records i r) : r.hash = m.tree.hash i :=
  (congrArg CDiskBlockIndex.hash h.eq).symm

theorem Records.hashPrev (h : m.Records i r) :
    r.hashPrev = (m.tree.parent i).elim 0 m.tree.hash :=
  (congrArg CDiskBlockIndex.hashPrev h.eq).symm

theorem Records.nHeight (h : m.Records i r) : r.nHeight = m.tree.height i :=
  (congrArg CDiskBlockIndex.nHeight h.eq).symm

theorem Records.nTx (h : m.Records i r) : r.nTx = (m.info i).nTx :=
  (congrArg CDiskBlockIndex.nTx h.eq).symm

theorem Records.nStatus (h : m.Records i r) :
    m.status i = { r.nStatus with failedChild := (m.status i).failedChild } :=
  congrArg CDiskBlockIndex.nStatus h.eq

theorem Snapshot.ordered (h : m.Snapshot records) (hm : m.Named) :
    Ordered (records.mergeSort fun a b => decide (a.nHeight ≤ b.nHeight)) := by
  have hsorted : (records.mergeSort fun a b => decide (a.nHeight ≤ b.nHeight)).Pairwise
      fun a b => decide (a.nHeight ≤ b.nHeight) :=
    List.pairwise_mergeSort (by simp; omega) (by simp; omega) records
  refine ordered_of_sorted (hsorted.imp fun hle => of_decide_eq_true hle) ?_ ?_
  · exact ((List.mergeSort_perm records _).map _).nodup_iff.mpr h.nodup
  · intro r hr
    obtain ⟨i, hi⟩ := h.sound r (List.mem_mergeSort.mp hr)
    refine ⟨?_, ?_, ?_⟩
    · have hproof := hm.nProof i hi.lt
      rwa [hi.eq] at hproof
    · rw [hi.hash]
      exact hm.nonzero i hi.lt
    · rw [hi.hashPrev, hi.nHeight]
      cases hp : m.tree.parent i with
      | none => exact .inl ⟨rfl, m.tree.height_root hp⟩
      | some j =>
        obtain ⟨p, hp', hj⟩ := h.complete j (parent_lt_size hp)
        refine .inr ⟨p, List.mem_mergeSort.mpr hp', hj.hash, ?_⟩
        rw [m.tree.height_parent hp, hj.nHeight]

end Snapshot

section Copy

-- The entry `k` has been loaded from a record of the entry `i` of `m`.
structure Copies (m s : BlockIndex) (k i : Nat) : Prop where
  lt : k < s.tree.size
  records : m.Records i (s.diskBlockIndex k)

structure Mirrors (m s : BlockIndex) : Prop where
  named : m.Named
  distinct : ∀ i < s.tree.size, ∀ j < s.tree.size, s.tree.hash i = s.tree.hash j → i = j
  nonzero : ∀ i < s.tree.size, s.tree.hash i ≠ 0
  source : ∀ k < s.tree.size, ∃ i, Copies m s k i
  copy : ∀ i < m.tree.size, ∃ k, Copies m s k i

variable {m s : BlockIndex} {k i : Nat}

theorem Copies.hash (h : Copies m s k i) : s.tree.hash k = m.tree.hash i := h.records.hash

theorem Copies.nTx (h : Copies m s k i) : (s.info k).nTx = (m.info i).nTx := h.records.nTx

theorem Copies.nStatus (h : Copies m s k i) :
    m.status i = { s.status k with failedChild := (m.status i).failedChild } := h.records.nStatus

theorem Copies.nValid (h : Copies m s k i) : (s.status k).nValid = (m.status i).nValid := by
  rw [h.nStatus]

theorem Copies.haveData (h : Copies m s k i) : (s.status k).haveData = (m.status i).haveData := by
  rw [h.nStatus]

theorem Copies.haveUndo (h : Copies m s k i) : (s.status k).haveUndo = (m.status i).haveUndo := by
  rw [h.nStatus]

theorem Copies.failedValid (h : Copies m s k i) :
    (s.status k).failedValid = (m.status i).failedValid := by
  rw [h.nStatus]

theorem Copies.failed (h : Copies m s k i) (hf : (s.status k).failed = true) :
    (m.status i).failed = true := by
  rw [BlockStatus.failed, Bool.or_eq_true] at hf ⊢
  exact hf.imp (h.failedValid ▸ ·) h.records.failedChild

namespace Mirrors

variable (h : Mirrors m s)
include h

theorem source_unique {i' : Nat} (hi : Copies m s k i) (hi' : Copies m s k i') : i = i' :=
  h.named.distinct i hi.records.lt i' hi'.records.lt (hi.hash.symm.trans hi'.hash)

theorem copy_unique {k' : Nat} (hk : Copies m s k i) (hk' : Copies m s k' i) : k = k' :=
  h.distinct k hk.lt k' hk'.lt (hk.hash.trans hk'.hash.symm)

theorem parent_none (hk : Copies m s k i) :
    s.tree.parent k = none ↔ m.tree.parent i = none := by
  have hprev : (s.tree.parent k).elim 0 s.tree.hash = (m.tree.parent i).elim 0 m.tree.hash :=
    hk.records.hashPrev
  cases hs : s.tree.parent k with
  | none =>
    cases hm : m.tree.parent i with
    | none => simp
    | some j =>
      rw [hs, hm] at hprev
      exact absurd hprev.symm (h.named.nonzero j (parent_lt_size hm))
  | some j =>
    cases hm : m.tree.parent i with
    | none =>
      rw [hs, hm] at hprev
      exact absurd hprev (h.nonzero j (parent_lt_size hs))
    | some j' => simp

theorem parent (hk : Copies m s k i) {j j' : Nat} (hs : s.tree.parent k = some j)
    (hm : m.tree.parent i = some j') : Copies m s j j' := by
  have hprev : (s.tree.parent k).elim 0 s.tree.hash = (m.tree.parent i).elim 0 m.tree.hash :=
    hk.records.hashPrev
  obtain ⟨a, ha⟩ := h.source j (parent_lt_size hs)
  have heq : m.tree.hash a = m.tree.hash j' := by
    rw [hs, hm] at hprev
    exact ha.hash.symm.trans hprev
  rw [← h.named.distinct a ha.records.lt j' (parent_lt_size hm) heq]
  exact ha

theorem exists_parent (hk : Copies m s k i) {j : Nat} (hs : s.tree.parent k = some j) :
    ∃ j', m.tree.parent i = some j' ∧ Copies m s j j' := by
  cases hm : m.tree.parent i with
  | none =>
    rw [(h.parent_none hk).mpr hm] at hs
    cases hs
  | some j' => exact ⟨j', rfl, h.parent hk hs hm⟩

theorem branch_source (hk : Copies m s k i) {a : Nat} (ha : a ∈ s.tree.branch k) :
    ∃ b ∈ m.tree.branch i, Copies m s a b := by
  induction k using s.tree.branch_induction generalizing i with
  | root k hp =>
    rw [branch_of_none hp, List.mem_singleton] at ha
    exact ⟨i, self_mem_branch i, ha ▸ hk⟩
  | step k j hp ih =>
    obtain ⟨j', hm, hj⟩ := h.exists_parent hk hp
    rcases (mem_branch_of_parent hp).mp ha with rfl | ha
    · exact ⟨i, self_mem_branch i, hk⟩
    · obtain ⟨b, hb, hab⟩ := ih hj ha
      exact ⟨b, (mem_branch_of_parent hm).mpr (.inr hb), hab⟩

theorem branch_copy (hk : Copies m s k i) {b : Nat} (hb : b ∈ m.tree.branch i) :
    ∃ a ∈ s.tree.branch k, Copies m s a b := by
  induction k using s.tree.branch_induction generalizing i with
  | root k hp =>
    rw [branch_of_none ((h.parent_none hk).mp hp), List.mem_singleton] at hb
    exact ⟨k, self_mem_branch k, hb ▸ hk⟩
  | step k j hp ih =>
    obtain ⟨j', hm, hj⟩ := h.exists_parent hk hp
    rcases (mem_branch_of_parent hm).mp hb with rfl | hb
    · exact ⟨k, self_mem_branch k, hk⟩
    · obtain ⟨a, ha, hab⟩ := ih hj hb
      exact ⟨a, (mem_branch_of_parent hp).mpr (.inr ha), hab⟩

theorem complete_iff (hk : Copies m s k i) : s.Complete k ↔ m.Complete i := by
  constructor
  · intro hc b hb
    obtain ⟨a, ha, hab⟩ := h.branch_copy hk hb
    exact hab.haveData ▸ hc a ha
  · intro hc a ha
    obtain ⟨b, hb, hab⟩ := h.branch_source hk ha
    exact hab.haveData ▸ hc b hb

theorem untainted_iff (hk : Copies m s k i) : s.Untainted k ↔ m.Untainted i := by
  constructor
  · intro hu b hb
    obtain ⟨a, ha, hab⟩ := h.branch_copy hk hb
    exact hab.failedValid ▸ hu a ha
  · intro hu a ha
    obtain ⟨b, hb, hab⟩ := h.branch_source hk ha
    exact hab.failedValid ▸ hu b hb

theorem zero (hm : m.Linked []) (hk : Copies m s k i) : k = 0 ↔ i = 0 := by
  have hroot : ∀ {a b}, Copies m s a b → (s.tree.parent a = none ↔ b = 0) := by
    intro a b hab
    rw [h.parent_none hab]
    refine ⟨hm.root b hab.records.lt, ?_⟩
    rintro rfl
    exact BlockIndex.parent_zero
  rw [← hroot hk]
  constructor
  · rintro rfl
    exact BlockIndex.parent_zero
  · intro hp
    -- the first entry and this one are both copies of the genesis block
    obtain ⟨b, hb⟩ := h.source 0 (Nat.lt_of_le_of_lt (Nat.zero_le k) hk.lt)
    have hb0 : b = 0 := (hroot hb).mp BlockIndex.parent_zero
    have hi0 : i = 0 := (hroot hk).mp hp
    rw [hi0] at hk
    rw [hb0] at hb
    exact h.copy_unique hk hb

theorem anchored (hm : m.Linked []) (hk : Copies m s k i) (ha : m.Anchored i) : s.Anchored k where
  lt := hk.lt
  complete := (h.complete_iff hk).mpr ha.complete
  connected := by
    intro a hmem ha0
    obtain ⟨b, hb, hab⟩ := h.branch_source hk hmem
    rw [hab.nValid, hab.haveUndo]
    exact ha.connected b hb fun hb0 => ha0 ((h.zero hm hab).mpr hb0)

end Mirrors

end Copy

section Reload

variable {m s : BlockIndex} {rs records : List CDiskBlockIndex} {t floor k i : Nat}

theorem Loaded.mirrors (hs : Loaded rs s) (hsnap : m.Snapshot records)
    (hmem : ∀ r, r ∈ rs ↔ r ∈ records) (hm : m.Named) : Mirrors m s where
  named := hm
  distinct := hs.distinct
  nonzero := hs.nonzero
  source := by
    intro k hk
    obtain ⟨r, hr, hkr⟩ := hs.exists_record hk
    obtain ⟨i, hi⟩ := hsnap.sound r ((hmem r).mp hr)
    exact ⟨i, hk, hkr ▸ hi⟩
  copy := by
    intro i hi
    obtain ⟨r, hr, hir⟩ := hsnap.complete i hi
    obtain ⟨k, hk⟩ := List.mem_iff_getElem?.mp ((hmem r).mpr hr)
    exact ⟨k, (hs.hash_eq hk).1, by rw [hs.entry k r hk]; exact hir⟩

theorem Loaded.haveData_iff (hmirror : Mirrors m s) (hm : m.Linked [])
    (hk : k < s.tree.size) : (s.status k).haveData = true ↔ (s.info k).nTx ≠ 0 := by
  obtain ⟨i, hi⟩ := hmirror.source k hk
  rw [hi.haveData, hi.nTx]
  exact hm.haveData i hi.records.lt

theorem Loaded.nChainTx_iff (hs : Loaded rs s) (hmirror : Mirrors m s) (hm : m.Linked [])
    (hk : k < s.tree.size) : (s.info k).nChainTx ≠ 0 ↔ (s.status k).haveData = true ∧
      ∀ j, s.tree.parent k = some j → (s.info j).nChainTx ≠ 0 := by
  have hdata := Loaded.haveData_iff hmirror hm hk
  rw [hs.nChainTx k hk]
  cases hp : s.tree.parent k with
  | none =>
    split
    · rename_i hd
      simpa [loadedChainTx, hd] using hdata.mp hd
    · rename_i hd
      simp [hd]
  | some j =>
    split
    · rename_i hd
      simp only [Option.map_some, loadedChainTx, hd, Option.some.injEq, true_and, forall_eq']
      split
      · simp [*]
      · simp [*]
    · rename_i hd
      simp [hd]

theorem Loaded.complete_iff (hs : Loaded rs s) (hmirror : Mirrors m s) (hm : m.Linked [])
    (hk : k < s.tree.size) : (s.info k).nChainTx ≠ 0 ↔ s.Complete k := by
  induction k using s.tree.branch_induction with
  | root k hp =>
    rw [hs.nChainTx_iff hmirror hm hk, Complete, branch_of_none hp]
    simp [hp]
  | step k j hp ih =>
    rw [hs.nChainTx_iff hmirror hm hk, Complete, branch_of_some hp]
    simp only [hp, Option.some.injEq, forall_eq', List.forall_mem_cons]
    exact and_congr_right fun _ => ih (parent_lt_size hp)

theorem Loaded.linked (hs : Loaded rs s) (hmirror : Mirrors m s) (hm : m.Linked []) :
    s.Linked [] := by
  obtain ⟨k0, hk0⟩ := hmirror.copy 0 hm.genesis.1
  obtain rfl : k0 = 0 := (hmirror.zero hm hk0).mpr rfl
  refine ⟨⟨hk0.lt, ?_⟩, ?_, ?_, ?_, ?_, ?_, ?_, ?_, by simp, ?_, List.nodup_nil, hs.nodup⟩
  · rw [hs.complete_iff hmirror hm hk0.lt, hmirror.complete_iff hk0]
    exact (hm.complete_iff hm.genesis.1).mpr hm.genesis.2
  · intro k hk hp
    obtain ⟨i, hi⟩ := hmirror.source k hk
    exact (hmirror.zero hm hi).mpr (hm.root i hi.records.lt ((hmirror.parent_none hi).mp hp))
  · exact fun k hk => Loaded.haveData_iff hmirror hm hk
  · intro k hk
    obtain ⟨i, hi⟩ := hmirror.source k hk
    rw [hi.nValid, hi.nTx]
    exact hm.transactions i hi.records.lt
  · intro k hk
    obtain ⟨i, hi⟩ := hmirror.source k hk
    rw [hi.nValid]
    exact hm.treeValid i hi.records.lt
  · exact fun k hk _ => hs.sequence k hk
  · exact fun k hk hne => (hs.nChainTx_iff hmirror hm hk).mp hne
  · exact fun k hk hd hp => .inl ((hs.nChainTx_iff hmirror hm hk).mpr ⟨hd, hp⟩)
  · intro a b
    rw [hs.unlinked]
    constructor
    · rintro ⟨hp, hd, hzero⟩
      refine ⟨hp, hd, ?_, List.not_mem_nil⟩
      by_contra hne
      exact ((hs.nChainTx_iff hmirror hm (parent_size_lt hp)).mp hne).2 b hp hzero
    · rintro ⟨hp, hd, hzero, -⟩
      refine ⟨hp, hd, ?_⟩
      by_contra hne
      refine (hs.nChainTx_iff hmirror hm (parent_size_lt hp)).mpr ⟨hd, fun j hj => ?_⟩ hzero
      rwa [← Option.some.inj (hp.symm.trans hj)]

theorem Mirrors.flagged (h : Mirrors m s) (hm : m.Flagged) : s.Flagged := by
  intro k hk hf
  obtain ⟨i, hi⟩ := h.source k hk
  rw [h.untainted_iff hi]
  exact hm i hi.records.lt (hi.failed hf)

theorem Mirrors.chainValid (h : Mirrors m s) (hlinked : m.Linked []) (hm : m.Active t)
    (hk : k < s.tree.size) (hv : BLOCK_VALID_CHAIN ≤ (s.status k).nValid) :
    BLOCK_VALID_SCRIPTS ≤ (s.status k).nValid ∧ ∀ j, s.tree.parent k = some j → j ≠ 0 →
      BLOCK_VALID_SCRIPTS ≤ (s.status j).nValid := by
  obtain ⟨i, hi⟩ := h.source k hk
  rw [hi.nValid] at hv ⊢
  obtain ⟨hscripts, hparent⟩ := hm.chainValid i hi.records.lt hv
  refine ⟨hscripts, fun j hj hj0 => ?_⟩
  obtain ⟨j', hj', hcopy⟩ := h.exists_parent hi hj
  rw [hcopy.nValid]
  exact hparent j' hj' fun h0 => hj0 ((h.zero hlinked hcopy).mpr h0)

theorem vChain_setTip_of_nil (h : s.vChain = []) (i : Nat) :
    (s.setTip i).vChain = (s.tree.branch i).reverse := by
  have hfresh : (s.tree.branch i).takeWhile (fun a => !s.contains a) = s.tree.branch i := by
    rw [List.takeWhile_eq_self_iff]
    simp [contains, h]
  simp only [setTip, hfresh, h, List.take_nil, List.nil_append]

theorem Loaded.active (hs : Loaded rs s) (hmirror : Mirrors m s) (hlinked : m.Linked [])
    (hm : m.Active t) (ha : s.Anchored k) : (s.setTip k).Active k where
  vChain := vChain_setTip_of_nil hs.vChain k
  tip_lt := ha.lt
  tip_linked := (hs.complete_iff hmirror hlinked ha.lt).mpr ha.complete
  connected := ha.connected
  chainValid := fun _ hi hv => hmirror.chainValid hlinked hm hi hv

theorem Loaded.consistent (hs : Loaded rs s) (hmirror : Mirrors m s) (hm : m.Consistent t floor)
    (ha : s.Anchored k) : (s.setTip k).pruneBlockIndexCandidates.Consistent k k := by
  have hlinked := hs.linked hmirror hm.linked
  have hactive := hs.active hmirror hm.linked hm.active ha
  have hflagged := hmirror.flagged hm.flagged
  have hmem : ∀ a, a ∈ (s.setTip k).pruneBlockIndexCandidates.setBlockIndexCandidates ↔
      a ∈ s.setBlockIndexCandidates ∧ s.worse a k = false := by
    intro a
    simp only [pruneBlockIndexCandidates, hactive.tip_eq, List.mem_filter, Option.all_some,
      Bool.not_eq_true']
    exact Iff.rfl
  refine ⟨hlinked.congr rfl rfl fun a => .refl _, hactive.congr rfl rfl fun a => .refl _, hflagged,
    ha.lt, hactive.tip_linked, not_worse_self k, ?_, ?_⟩
  · intro a hmem'
    obtain ⟨hcand, hworse⟩ := (hmem a).mp hmem'
    obtain ⟨hlt, -, hne⟩ := (hs.candidates a).mp hcand
    refine ⟨hlt, hne.elim id fun hp => ?_, hworse⟩
    rw [hlinked.root a hlt hp]
    exact hlinked.genesis.2
  · intro a hlt hne hu hworse
    refine (hmem a).mpr ⟨(hs.candidates a).mpr ⟨hlt, ?_, .inl hne⟩, hworse⟩
    have hdata := (hlinked.linked a hlt hne).1
    have hvalid := (hlinked.transactions a hlt).mpr
      (Nat.pos_of_ne_zero ((hlinked.haveData a hlt).mp hdata))
    have hclear : (s.status a).failed = false := by
      cases hf : (s.status a).failed with
      | false => rfl
      | true => exact absurd hu (hflagged a hlt hf)
    simp [BlockStatus.isValid, hclear, hvalid]

theorem records_self (hi : i < s.tree.size) : s.Records i (s.diskBlockIndex i) := ⟨hi, rfl, id⟩

theorem Mirrors.named_copy (h : Mirrors m s) : s.Named where
  distinct := h.distinct
  nonzero := h.nonzero
  nProof := by
    intro k hk
    obtain ⟨i, hi⟩ := h.source k hk
    have hproof := h.named.nProof i hi.records.lt
    rwa [hi.records.eq] at hproof

-- What a restart makes of a snapshot: the index is consistent, with the tip where the coins are.
structure Reloaded (m : BlockIndex) (records : List CDiskBlockIndex) (hashBestChain : UInt256)
    (s : BlockIndex) (k : Nat) : Prop where
  hash : s.tree.hash k = hashBestChain
  consistent : s.Consistent k k
  mirrors : Mirrors m s
  snapshot : s.Snapshot records
  exact : ∀ r ∈ records, ∃ a < s.tree.size, s.diskBlockIndex a = r

theorem Snapshot.reload (h : m.Snapshot records) (hm : m.Consistent t floor) (hn : m.Named)
    (ha : m.Anchored i) : ∃ s k, loadBlockIndexDB records (m.tree.hash i) = some s ∧
      Reloaded m records (m.tree.hash i) s k := by
  obtain ⟨s, hfold, hs⟩ := (h.ordered hn).loaded
  have hmirror := hs.mirrors h (fun r => List.mem_mergeSort) hn
  obtain ⟨k, hk⟩ := hmirror.copy i ha.lt
  have hlookup : s.tree.lookup (m.tree.hash i) = some k := by
    rw [← hk.hash]
    exact BlockTree.lookup_hash hk.lt fun j hj => hs.distinct j hj k hk.lt
  refine ⟨(s.setTip k).pruneBlockIndexCandidates, k, ?_, hk.hash, ?_, ?_, ?_, ?_⟩
  · rw [loadBlockIndexDB, hfold, Option.map_some, loadTip, hlookup]
  · exact hs.consistent hmirror hm (hmirror.anchored hm.linked hk ha)
  · exact ⟨hn, hs.distinct, hs.nonzero, fun a ha => (hmirror.source a ha).imp fun _ hb =>
      ⟨hb.lt, hb.records⟩, fun b hb => (hmirror.copy b hb).imp fun _ ha => ⟨ha.lt, ha.records⟩⟩
  · refine ⟨fun r hr => ?_, fun a ha => ?_, h.nodup⟩
    · obtain ⟨a, hget⟩ := List.mem_iff_getElem?.mp (List.mem_mergeSort.mpr hr)
      refine ⟨a, ?_⟩
      rw [← hs.entry a r hget]
      exact records_self (hs.hash_eq hget).1
    · obtain ⟨r, hr, har⟩ := hs.exists_record ha
      refine ⟨r, List.mem_mergeSort.mp hr, ?_⟩
      rw [← har]
      exact records_self ha
  · intro r hr
    obtain ⟨a, hget⟩ := List.mem_iff_getElem?.mp (List.mem_mergeSort.mpr hr)
    exact ⟨a, (hs.hash_eq hget).1, hs.entry a r hget⟩

end Reload

end BlockIndex

end AnkerNode
