import AnkerNode.Coins.CacheRefinement

namespace AnkerNode

namespace CoinsStack

variable {ops : PubKeyOps}

structure Refines (ops : PubKeyOps) (s : CoinsStack) (view : CCoinsView) : Prop where
  validDB : ValidDB ops s.db
  levels : Levels ops s.db s.caches
  value_eq : ∀ txid, value ops s.db txid s.caches = view.coins txid

-- An edit that tells no two pruned coins apart and whose result, when it is not pruned, is
-- what its database record reads back as.
structure Faithful (ops : PubKeyOps) (view : CCoinsView) (txid : UInt256)
    (edit : CCoins → CCoins) : Prop where
  blind : ∀ c c' : CCoins, c.isPruned = true → c'.isPruned = true →
    unpruned (some (edit c).cleanup) = unpruned (some (edit c').cleanup)
  stored : ∀ c, unpruned (some (edit (view.modified txid)).cleanup) = some c → c.Stored ops

-- The stacks that operations on the topmost cache build over `db`, beside the plain map on
-- which the edits admitted by `Cond` were made directly.
inductive Runs (ops : PubKeyOps) (Cond : CCoinsView → UInt256 → (CCoins → CCoins) → Prop)
    (db : CCoinsViewDB) : CoinsStack → CCoinsView → Prop where
  | start (h : ValidDB ops db) : Runs ops Cond db ⟨[], db⟩ ⟨db.getCoins ops, db.hashBestChain⟩
  | getCoins {s : CoinsStack} {view : CCoinsView} (txid : UInt256) (h : Runs ops Cond db s view) :
      Runs ops Cond db (s.getCoins ops txid).2 view
  | accessCoins {s : CoinsStack} {view : CCoinsView} (txid : UInt256)
      (h : Runs ops Cond db s view) : Runs ops Cond db (s.accessCoins ops txid).2 view
  | haveCoins {s : CoinsStack} {view : CCoinsView} (txid : UInt256) (h : Runs ops Cond db s view) :
      Runs ops Cond db (s.haveCoins ops txid).2 view
  | modifyCoins {s : CoinsStack} {view : CCoinsView} (txid : UInt256) (edit : CCoins → CCoins)
      (h : Runs ops Cond db s view) (hne : s.caches ≠ []) (hcond : Cond view txid edit) :
      Runs ops Cond db (s.modifyCoins ops txid edit)
        (view.release txid (edit (view.modified txid)))
  | push {s : CoinsStack} {view : CCoinsView} (h : Runs ops Cond db s view) :
      Runs ops Cond db s.push view
  | flush {s s' : CoinsStack} {view : CCoinsView} (h : Runs ops Cond db s view)
      (hflush : s.flush ops = some s') : Runs ops Cond db s' view

theorem Refines.getCoins {s : CoinsStack} {view : CCoinsView} (h : Refines ops s view)
    (txid : UInt256) :
    unpruned (s.getCoins ops txid).1 = view.coins txid ∧
      Refines ops (s.getCoins ops txid).2 view := by
  obtain ⟨hval, hkeep, hlev, -, -, -⟩ := fetchCoins_spec h.validDB txid h.levels
  exact ⟨hval.trans (h.value_eq txid), h.validDB, hlev, fun k => (hkeep k).trans (h.value_eq k)⟩

-- The cache and the plain map may hand out different pruned coins, never different live ones.
theorem unpruned_edit {view : CCoinsView} {txid : UInt256} {edit : CCoins → CCoins} {c : CCoins}
    (hedit : Faithful ops view txid edit) (hc : unpruned (some c) = view.coins txid) :
    unpruned (some (edit c).cleanup) = unpruned (some (edit (view.modified txid)).cleanup) := by
  cases hv : view.coins txid with
  | none =>
    rw [hv, unpruned_eq_none] at hc
    refine hedit.blind c (view.modified txid) hc ?_
    simp [CCoinsView.modified, hv, CCoins.clear, CCoins.isPruned]
  | some d =>
    rw [hv] at hc
    have hcd := (unpruned_eq_some.mp hc).1
    simp only [Option.some.injEq] at hcd
    rw [CCoinsView.modified, hv, Option.getD_some, hcd]

theorem Refines.modifyCoins {s : CoinsStack} {view : CCoinsView} (h : Refines ops s view)
    {txid : UInt256} {edit : CCoins → CCoins} (hne : s.caches ≠ [])
    (hedit : Faithful ops view txid edit) :
    Refines ops (s.modifyCoins ops txid edit) (view.release txid (edit (view.modified txid))) := by
  obtain ⟨caches, db⟩ := s
  cases caches with
  | nil => simp at hne
  | cons cache below =>
    obtain ⟨entry, below', hent, hval, hkeep, hlev, hheld, hfresh, hknown⟩ :=
      entryToModify_spec h.validDB txid h.levels
    have hcoins := unpruned_edit hedit (hval.trans (h.value_eq txid))
    obtain ⟨hlev', hval'⟩ := releaseEntry_spec
      { entry with coins := edit entry.coins, fDirty := true } h.levels hkeep hlev hheld rfl
      hfresh hknown (fun c hc => hedit.stored c (hcoins ▸ hc))
    simp only [CoinsStack.modifyCoins, hent]
    refine ⟨h.validDB, hlev', fun k => ?_⟩
    rw [hval' k]
    by_cases hk : k = txid
    · subst hk
      rw [if_pos rfl, hcoins, unpruned_some]
      simp only [CCoinsView.release, Function.update_self]
    · rw [if_neg hk, CCoinsView.coins_release_ne hk]
      exact h.value_eq k

theorem Refines.push {s : CoinsStack} {view : CCoinsView} (h : Refines ops s view) :
    Refines ops s.push view := by
  refine ⟨h.validDB, ⟨?_, h.levels⟩, fun k => ?_⟩
  · intro txid entry he
    simp at he
  · rw [← h.value_eq k]
    exact value_cons_none (by simp)

theorem Refines.flush {s : CoinsStack} {view : CCoinsView} (h : Refines ops s view) :
    ∃ s', s.flush ops = some s' ∧ Refines ops s' view ∧ s'.caches.length = s.caches.length - 1 := by
  obtain ⟨caches, db⟩ := s
  match caches with
  | [] => exact ⟨⟨[], db⟩, rfl, h, rfl⟩
  | [cache] =>
    obtain ⟨hvalid, hval⟩ := batchWriteDB_spec h.validDB h.levels
    exact ⟨_, rfl, ⟨hvalid, trivial, fun k => (hval k).trans (h.value_eq k)⟩, rfl⟩
  | cache :: parent :: below =>
    obtain ⟨parent', hwrite, hlev, hval⟩ := batchWrite_spec h.levels
    refine ⟨⟨parent' :: below, db⟩, ?_, ⟨h.validDB, hlev, fun k => (hval k).trans (h.value_eq k)⟩,
      rfl⟩
    simp [CoinsStack.flush, hwrite]

theorem Refines.flushTimes {s : CoinsStack} {view : CCoinsView} {n : Nat} (h : Refines ops s view)
    (hn : s.caches.length = n) :
    ∃ s', flushTimes ops n s = some s' ∧ Refines ops s' view ∧ s'.caches = [] := by
  induction n generalizing s with
  | zero => exact ⟨s, rfl, h, List.length_eq_zero_iff.mp hn⟩
  | succ n ih =>
    obtain ⟨s1, hs1, href, hlen⟩ := h.flush
    obtain ⟨s2, hs2, href2, hnil⟩ := ih href (by omega)
    exact ⟨s2, by simp [CoinsStack.flushTimes, hs1, hs2], href2, hnil⟩

theorem refines_start {db : CCoinsViewDB} (h : ValidDB ops db) :
    Refines ops ⟨[], db⟩ ⟨db.getCoins ops, db.hashBestChain⟩ := by
  refine ⟨h, trivial, fun k => ?_⟩
  simp only [value, CCoinsViewDB.getCoins]
  cases hr : db.records k with
  | none => rfl
  | some record =>
    obtain ⟨c, rfl, hp, hst⟩ := h k record hr
    rw [Option.bind_some, hst, unpruned_some, hp]
    rfl

theorem refines_of_runs {db : CCoinsViewDB} {s : CoinsStack} {view : CCoinsView}
    (h : Runs ops (Faithful ops) db s view) : Refines ops s view := by
  induction h with
  | start hdb => exact refines_start hdb
  | getCoins txid _ ih => exact (ih.getCoins txid).2
  | accessCoins txid _ ih => exact (ih.getCoins txid).2
  | haveCoins txid _ ih => exact (ih.getCoins txid).2
  | modifyCoins txid edit _ hne hcond ih => exact ih.modifyCoins hne hcond
  | push _ ih => exact ih.push
  | flush _ hflush ih =>
    obtain ⟨s', hs', href, -⟩ := ih.flush
    rw [hflush, Option.some.injEq] at hs'
    rwa [hs']

theorem cache_stack_refines_map (ops : PubKeyOps) (db : CCoinsViewDB) (s : CoinsStack)
    (view : CCoinsView) (h : Runs ops (Faithful ops) db s view) :
    (∀ txid, unpruned (s.getCoins ops txid).1 = view.coins txid ∧
      unpruned (s.accessCoins ops txid).1 = view.coins txid) ∧
    (∃ s', s.flush ops = some s') ∧
    ∃ s', s.flushAll ops = some s' ∧ s'.caches = [] ∧
      ∀ txid, s'.db.getCoins ops txid = view.coins txid ∧
        s'.db.records txid = (view.coins txid).map (CCoins.serialize ops) := by
  have href := refines_of_runs h
  obtain ⟨s1, hs1, -, -⟩ := href.flush
  obtain ⟨s2, hs2, href2, hnil⟩ := href.flushTimes rfl
  refine ⟨fun txid => ⟨(href.getCoins txid).1, (href.getCoins txid).1⟩, ⟨s1, hs1⟩, s2, hs2, hnil, ?_⟩
  intro txid
  have hval := href2.value_eq txid
  rw [hnil, value] at hval
  rw [← hval, CCoinsViewDB.getCoins]
  cases hr : s2.db.records txid with
  | none => exact ⟨rfl, rfl⟩
  | some record =>
    obtain ⟨c, rfl, hp, hst⟩ := href2.validDB txid record hr
    rw [Option.bind_some, hst, unpruned_some, hp]
    exact ⟨rfl, rfl⟩

def noKeys : PubKeyOps where
  isFullyValid := fun _ => false
  decompress := fun _ => none
  decompress_of_isFullyValid := decompress_of_never

def oneOutput (nHeight : Int) : CCoins := { vout := [⟨3, [0x51]⟩], nHeight := nHeight, nVersion := 1 }

theorem faithful_const {view : CCoinsView} {txid : UInt256} {c : CCoins}
    (h : c.cleanup.isPruned = true ∨ c.cleanup.Stored ops) :
    Faithful ops view txid fun _ => c := by
  refine ⟨fun _ _ _ _ => rfl, fun d hd => ?_⟩
  obtain ⟨hcd, hp⟩ := unpruned_eq_some.mp hd
  rcases h with h | h
  · simp only [Option.some.injEq] at hcd
    rw [hcd, hp] at h
    simp at h
  · rwa [← Option.some.inj hcd]

theorem cache_stack_refines_map_recreated :
    ∃ s view, Runs noKeys (Faithful noKeys) {} s view ∧ s.caches.length = 3 ∧
      view.coins 1 = some (oneOutput 9) ∧ unpruned (s.getCoins noKeys 1).1 = some (oneOutput 9) ∧
      ∃ s', s.flushAll noKeys = some s' ∧ s'.db.getCoins noKeys 1 = some (oneOutput 9) := by
  have h0 : Runs noKeys (Faithful noKeys) {} _ _ := .start (by simp [ValidDB])
  have h1 := h0.push.modifyCoins 1 (fun _ => oneOutput 5) (by simp [CoinsStack.push])
    (faithful_const (.inr (by decide +kernel)))
  have h2 := h1.push.modifyCoins 1 (fun _ => CCoins.clear) (by simp [CoinsStack.push])
    (faithful_const (.inl (by decide)))
  have h3 := h2.push.modifyCoins 1 (fun _ => oneOutput 9) (by simp [CoinsStack.push])
    (faithful_const (.inr (by decide +kernel)))
  obtain ⟨hget, -, s', hs', -, hdb⟩ := cache_stack_refines_map _ _ _ _ h3
  refine ⟨_, _, h3, by decide +kernel, by decide +kernel, (hget 1).1.trans (by decide +kernel), s',
    hs', (hdb 1).1.trans (by decide +kernel)⟩

def modifyAll (ops : PubKeyOps) (s : CoinsStack) (edits : List (UInt256 × (CCoins → CCoins))) :
    CoinsStack :=
  edits.foldl (fun s e => s.modifyCoins ops e.1 e.2) s

def editAll (edits : List (UInt256 × (CCoins → CCoins))) : UInt256 → CCoins :=
  edits.foldl (fun m e => Function.update m e.1 (e.2 (m e.1))) fun _ => CCoins.clear

-- Create an output at height 5, spend it, and create another without setting the height.
def metadataEdits : List (UInt256 × (CCoins → CCoins)) :=
  [(1, fun _ => oneOutput 5), (1, fun c => { c with vout := [] }),
    (1, fun c => { c with vout := [⟨4, [0x51]⟩] })]

def trailingNullEdit : List (UInt256 × (CCoins → CCoins)) :=
  [(1, fun _ => { oneOutput 5 with vout := [⟨3, [0x51]⟩, CTxOut.null] })]

def negativeVersionEdit : List (UInt256 × (CCoins → CCoins)) :=
  [(1, fun _ => { oneOutput 5 with nVersion := -1 })]

theorem cache_stack_differs_from_map :
    (unpruned ((modifyAll noKeys (push {}) metadataEdits).getCoins noKeys 1).1 ≠
        unpruned (some (editAll metadataEdits 1))) ∧
      (unpruned ((modifyAll noKeys (push {}) trailingNullEdit).getCoins noKeys 1).1 ≠
        unpruned (some (editAll trailingNullEdit 1))) ∧
      (((modifyAll noKeys (push {}) negativeVersionEdit).flushAll noKeys).bind
          fun s => s.db.getCoins noKeys 1) ≠
        unpruned (some (editAll negativeVersionEdit 1)) := by
  decide +kernel

end CoinsStack

end AnkerNode
