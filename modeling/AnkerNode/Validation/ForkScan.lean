import AnkerNode.Chain.IndexRun
import AnkerNode.Lib.Loops

namespace AnkerNode

open RankedForest

-- how the scan of a fork for the inputs of a coinstake ends
inductive ScanResult where
  | clean
  | reject
  | nullRead
deriving DecidableEq, Repr

-- What the scan reads: the index, the blocks on disk and the coinstake of the new block.
structure ForkScan where
  index : BlockIndex
  readBlockFromDisk : Nat → Option CBlock
  coinstake : CTransaction

namespace ForkScan

variable (c : ForkScan)

-- A failed read leaves no transactions.
def readInputs (last : Nat) : List CTxIn :=
  (c.readBlockFromDisk last).elim [] fun bl => bl.vtx.flatMap CTransaction.vin

def conflicts (last : Nat) : Bool :=
  (c.readInputs last).any fun txin =>
    c.coinstake.vin.any fun stakeIn => stakeIn.prevout == txin.prevout

-- The cursor moves to the parent of the block that is built on, not of the block it is at.
def step (pindexPrev last : Nat) : Nat ⊕ ScanResult :=
  if c.index.contains last then .inr .clean
  else if c.conflicts last then .inr .reject
  else
    match c.index.tree.parent pindexPrev with
    | none => .inr .nullRead
    | some pprev => .inl pprev

-- the blocks from `i` back to the active chain
def branchOff (i : Nat) : List Nat :=
  (c.index.tree.branch i).takeWhile fun b => !c.index.contains b

-- The scan ends, and rejects just for an input that the branch spends already.
def Complete (pindexPrev : Nat) : Prop :=
  ∃ r, WhileLoop.Ends (c.step pindexPrev) pindexPrev r ∧
    (r = .reject ↔ ∃ b ∈ c.branchOff pindexPrev, c.conflicts b = true)

variable {c} {pindexPrev pprev last : Nat}

theorem step_active (h : c.index.contains last = true) : c.step pindexPrev last = .inr .clean := by
  rw [step, if_pos h]

theorem step_conflict (hoff : c.index.contains last = false) (h : c.conflicts last = true) :
    c.step pindexPrev last = .inr .reject := by
  rw [step, if_neg (by simp [hoff]), if_pos h]

theorem step_parent (hoff : c.index.contains last = false) (h : c.conflicts last = false)
    (hparent : c.index.tree.parent pindexPrev = some pprev) :
    c.step pindexPrev last = .inl pprev := by
  rw [step, if_neg (by simp [hoff]), if_neg (by simp [h]), hparent]

theorem self_mem_branchOff (hoff : c.index.contains pindexPrev = false) :
    pindexPrev ∈ c.branchOff pindexPrev := by
  cases hp : c.index.tree.parent pindexPrev with
  | none => simp [branchOff, branch_of_none hp, hoff]
  | some j => simp [branchOff, branch_of_some hp, hoff]

theorem parent_mem_branchOff (hoff : c.index.contains pindexPrev = false)
    (hparent : c.index.tree.parent pindexPrev = some pprev)
    (hoff' : c.index.contains pprev = false) : pprev ∈ c.branchOff pindexPrev := by
  rw [branchOff, branch_of_some hparent, List.takeWhile_cons_of_pos (by simp [hoff])]
  exact List.mem_cons_of_mem _ (self_mem_branchOff hoff')

theorem branchOff_of_active (hoff : c.index.contains pindexPrev = false)
    (hparent : c.index.tree.parent pindexPrev = some pprev)
    (hactive : c.index.contains pprev = true) : c.branchOff pindexPrev = [pindexPrev] := by
  have hstop : (c.index.tree.branch pprev).takeWhile (fun b => !c.index.contains b) = [] := by
    cases hp : c.index.tree.parent pprev with
    | none => simp [branch_of_none hp, hactive]
    | some j => simp [branch_of_some hp, hactive]
  rw [branchOff, branch_of_some hparent, List.takeWhile_cons_of_pos (by simp [hoff]), hstop]

-- Past the first two blocks of a fork the cursor stands still.
theorem fork_scan_complete_iff (c : ForkScan) (pindexPrev : Nat)
    (hoff : c.index.contains pindexPrev = false)
    (hroot : ∃ a ∈ c.index.tree.branch pindexPrev, c.index.contains a = true) :
    c.Complete pindexPrev ↔
      c.conflicts pindexPrev = true ∨ ∃ pprev, c.index.tree.parent pindexPrev = some pprev ∧
        (c.index.contains pprev = true ∨ c.conflicts pprev = true) := by
  cases hconflict : c.conflicts pindexPrev with
  | true =>
    refine iff_of_true ⟨.reject, WhileLoop.ends_of_inr (step_conflict hoff hconflict), ?_⟩ (.inl rfl)
    exact iff_of_true rfl ⟨pindexPrev, self_mem_branchOff hoff, hconflict⟩
  | false =>
    obtain ⟨pprev, hparent⟩ : ∃ pprev, c.index.tree.parent pindexPrev = some pprev := by
      obtain ⟨a, ha, hactive⟩ := hroot
      cases hp : c.index.tree.parent pindexPrev with
      | none =>
        rw [branch_of_none hp, List.mem_singleton] at ha
        rw [ha, hoff] at hactive
        simp at hactive
      | some j => exact ⟨j, rfl⟩
    have hfirst := step_parent hoff hconflict hparent
    have hparent' : (∃ p, c.index.tree.parent pindexPrev = some p ∧
        (c.index.contains p = true ∨ c.conflicts p = true)) ↔
          c.index.contains pprev = true ∨ c.conflicts pprev = true := by
      constructor
      · rintro ⟨p, hp, h⟩
        rw [hparent] at hp
        rwa [Option.some.inj hp]
      · exact fun h => ⟨pprev, hparent, h⟩
    rw [hparent']
    simp only [Bool.false_eq_true, false_or]
    by_cases hactive : c.index.contains pprev = true
    · refine iff_of_true ⟨.clean, ?_, ?_⟩ (.inl hactive)
      · exact (WhileLoop.ends_inl_iff hfirst).mpr (WhileLoop.ends_of_inr (step_active hactive))
      · rw [branchOff_of_active hoff hparent hactive]
        simp [hconflict]
    have hoff' : c.index.contains pprev = false := Bool.eq_false_iff.mpr hactive
    by_cases hconflict' : c.conflicts pprev = true
    · refine iff_of_true ⟨.reject, ?_, ?_⟩ (.inr hconflict')
      · exact (WhileLoop.ends_inl_iff hfirst).mpr
          (WhileLoop.ends_of_inr (step_conflict hoff' hconflict'))
      · exact iff_of_true rfl ⟨pprev, parent_mem_branchOff hoff hparent hoff', hconflict'⟩
    · refine iff_of_false ?_ (by simp [hactive, hconflict'])
      rintro ⟨r, hends, -⟩
      have hstay := step_parent hoff' (Bool.eq_false_iff.mpr hconflict') hparent
      refine WhileLoop.not_ends (P := fun last => last = pprev) ?_ rfl
        ((WhileLoop.ends_inl_iff hfirst).mp hends)
      rintro last rfl
      exact ⟨last, hstay, rfl⟩

def spender (prevout : COutPoint) : CTransaction :=
  { hash := 9, vin := [⟨prevout, [], 0⟩], vout := [⟨0, []⟩, ⟨1, [0x51]⟩] }

-- On a fork of three blocks the given entry spends the output that the coinstake spends too.
def spentIn (entry : Nat) : ForkScan where
  index := BlockIndex.lineIndex
  readBlockFromDisk i := if i = entry then
    some { hash := BitVec.ofNat 256 i, hashPrevBlock := 0, vtx := [spender ⟨7, 0⟩] } else none
  coinstake := spender ⟨7, 0⟩

theorem fork_scan_complete_parent : (spentIn 2).Complete 3 :=
  (fork_scan_complete_iff (spentIn 2) 3 (by decide +kernel)
    ⟨0, by decide +kernel, by decide +kernel⟩).mpr
      (.inr ⟨2, by decide +kernel, .inr (by decide +kernel)⟩)

-- The block at the root of the fork spends the output; the scan never comes to it.
theorem fork_scan_never_ends :
    (spentIn 1).index.contains 3 = false ∧ (∃ b ∈ (spentIn 1).branchOff 3,
      (spentIn 1).conflicts b = true) ∧
      (∀ r, ¬WhileLoop.Ends ((spentIn 1).step 3) 3 r) ∧ ¬(spentIn 1).Complete 3 := by
  have hends : ∀ r, ¬WhileLoop.Ends ((spentIn 1).step 3) 3 r := by
    intro r
    refine WhileLoop.not_ends (P := fun last => last = 3 ∨ last = 2) ?_ (.inl rfl)
    rintro last (rfl | rfl)
    · exact ⟨2, by decide +kernel, .inr rfl⟩
    · exact ⟨2, by decide +kernel, .inr rfl⟩
  refine ⟨by decide +kernel, ⟨1, by decide +kernel, by decide +kernel⟩, hends, ?_⟩
  rintro ⟨r, h, -⟩
  exact hends r h

end ForkScan

end AnkerNode
