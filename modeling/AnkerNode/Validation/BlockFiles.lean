import AnkerNode.Lib.CarvedRanges
import AnkerNode.Lib.Loops
import Mathlib.Algebra.Group.Nat.Defs
import Mathlib.Data.Finset.Insert
import Mathlib.Data.List.GetD

namespace AnkerNode

def MAX_BLOCKFILE_SIZE : Nat := 0x8000000

def BLOCKFILE_CHUNK_SIZE : Nat := 0x1000000

def UNDOFILE_CHUNK_SIZE : Nat := 0x100000

def nMinDiskSpace : Nat := 52428800

structure CBlockFileInfo where
  nBlocks : Nat := 0
  nSize : Nat := 0
  nUndoSize : Nat := 0
  nHeightFirst : Nat := 0
  nHeightLast : Nat := 0
  nTimeFirst : Nat := 0
  nTimeLast : Nat := 0
deriving DecidableEq, Repr

structure CDiskBlockPos where
  nFile : Nat
  nPos : Nat
deriving DecidableEq, Repr

structure BlockFiles where
  vinfoBlockFile : List CBlockFileInfo := []
  nLastBlockFile : Nat := 0
  setDirtyFileInfo : Finset Nat := ∅

def CBlockFileInfo.addBlock (info : CBlockFileInfo) (nHeightIn nTimeIn : Nat) : CBlockFileInfo :=
  { info with
    nBlocks := (info.nBlocks + 1) % 2 ^ 32
    nHeightFirst :=
      if info.nBlocks = 0 ∨ nHeightIn < info.nHeightFirst then nHeightIn else info.nHeightFirst
    nHeightLast := if info.nHeightLast < nHeightIn then nHeightIn else info.nHeightLast
    nTimeFirst := if info.nBlocks = 0 ∨ nTimeIn < info.nTimeFirst then nTimeIn else info.nTimeFirst
    nTimeLast := if info.nTimeLast < nTimeIn then nTimeIn else info.nTimeLast }

def checkDiskSpace (nFreeBytesAvailable nAdditionalBytes : Nat) : Bool :=
  !decide (nFreeBytesAvailable < (nMinDiskSpace + nAdditionalBytes) % 2 ^ 64)

namespace BlockFiles

open CarvedRanges

section Definitions

def chunks (chunkSize n : Nat) : Nat := (n + chunkSize - 1) % 2 ^ 32 / chunkSize

-- Space is asked for when the file grows into a new chunk; `false` is "out of disk space".
def preallocate (chunkSize nPos nNewSize nFreeBytesAvailable : Nat) : Bool :=
  if chunks chunkSize nPos < chunks chunkSize nNewSize then
    checkDiskSpace nFreeBytesAvailable
      ((chunks chunkSize nNewSize * chunkSize + (2 ^ 32 - nPos)) % 2 ^ 32)
  else true

def holdFile (vinfoBlockFile : List CBlockFileInfo) (nFile : Nat) : List CBlockFileInfo :=
  if vinfoBlockFile.length ≤ nFile then
    vinfoBlockFile ++ List.replicate (nFile + 1 - vinfoBlockFile.length) ({} : CBlockFileInfo)
  else vinfoBlockFile

def infoAt (vinfoBlockFile : List CBlockFileInfo) (nFile : Nat) : CBlockFileInfo :=
  vinfoBlockFile.getD nFile {}

def full (nAddSize : Nat) (info : CBlockFileInfo) : Bool :=
  decide (MAX_BLOCKFILE_SIZE ≤ (info.nSize + nAddSize) % 2 ^ 32)

def leaveBlockFile (nAddSize : Nat) :
    Nat × List CBlockFileInfo → (Nat × List CBlockFileInfo) ⊕ (Nat × List CBlockFileInfo)
  | (nFile, vinfoBlockFile) =>
    if full nAddSize (infoAt vinfoBlockFile nFile) then
      .inl (nFile + 1, holdFile vinfoBlockFile (nFile + 1))
    else .inr (nFile, vinfoBlockFile)

-- One turn more than there are files: a loop that refuses the empty file it adds never ends.
def chooseBlockFile (s : BlockFiles) (pos : CDiskBlockPos) (nAddSize : Nat) (fKnown : Bool) :
    Option (Nat × List CBlockFileInfo) :=
  let nFile := if fKnown then pos.nFile else s.nLastBlockFile
  let vinfoBlockFile := holdFile s.vinfoBlockFile nFile
  if fKnown then some (nFile, vinfoBlockFile)
  else WhileLoop.run (leaveBlockFile nAddSize) (vinfoBlockFile.length + 1) (nFile, vinfoBlockFile)

def takeBlockPos (s : BlockFiles) (pos : CDiskBlockPos) (nAddSize nHeight nTime : Nat)
    (fKnown : Bool) (nFreeBytesAvailable nFile : Nat) (vinfoBlockFile : List CBlockFileInfo) :
    Bool × CDiskBlockPos × BlockFiles :=
  let info := infoAt vinfoBlockFile nFile
  let pos := if fKnown then pos else ⟨nFile, info.nSize⟩
  let nSize :=
    if fKnown then max ((pos.nPos + nAddSize) % 2 ^ 32) info.nSize
    else (info.nSize + nAddSize) % 2 ^ 32
  let ok := fKnown || preallocate BLOCKFILE_CHUNK_SIZE pos.nPos nSize nFreeBytesAvailable
  (ok, pos,
    { nLastBlockFile := nFile
      vinfoBlockFile := vinfoBlockFile.set nFile { info.addBlock nHeight nTime with nSize := nSize }
      -- the return for want of disk space comes before the file is marked
      setDirtyFileInfo := if ok then insert nFile s.setDirtyFileInfo else s.setDirtyFileInfo })

def findBlockPos (s : BlockFiles) (pos : CDiskBlockPos) (nAddSize nHeight nTime : Nat)
    (fKnown : Bool) (nFreeBytesAvailable : Nat) : Option (Bool × CDiskBlockPos × BlockFiles) :=
  (s.chooseBlockFile pos nAddSize fKnown).map fun (nFile, vinfoBlockFile) =>
    s.takeBlockPos pos nAddSize nHeight nTime fKnown nFreeBytesAvailable nFile vinfoBlockFile

def findUndoPos (s : BlockFiles) (nFile nAddSize nFreeBytesAvailable : Nat) :
    Option (Bool × CDiskBlockPos × BlockFiles) := do
  let info ← s.vinfoBlockFile[nFile]?
  let nNewSize := (info.nUndoSize + nAddSize) % 2 ^ 32
  some (preallocate UNDOFILE_CHUNK_SIZE info.nUndoSize nNewSize nFreeBytesAvailable,
    ⟨nFile, info.nUndoSize⟩,
    { s with
      vinfoBlockFile := s.vinfoBlockFile.set nFile { info with nUndoSize := nNewSize }
      setDirtyFileInfo := insert nFile s.setDirtyFileInfo })

inductive Call where
  | findBlockPos (nAddSize nHeight nTime nFreeBytesAvailable : Nat)
  | findUndoPos (nFile nAddSize nFreeBytesAvailable : Nat)

structure Run where
  files : BlockFiles
  blk : List (Range Nat) := []
  rev : List (Range Nat) := []

namespace Run

def call (r : Run) : Call → Option Run
  | .findBlockPos nAddSize nHeight nTime nFreeBytesAvailable =>
    (r.files.findBlockPos ⟨0, 0⟩ nAddSize nHeight nTime false nFreeBytesAvailable).map
      fun (_, pos, files) =>
        { r with files := files, blk := ⟨pos.nFile, pos.nPos, nAddSize⟩ :: r.blk }
  | .findUndoPos nFile nAddSize nFreeBytesAvailable =>
    (r.files.findUndoPos nFile nAddSize nFreeBytesAvailable).map fun (_, pos, files) =>
      { r with files := files, rev := ⟨pos.nFile, pos.nPos, nAddSize⟩ :: r.rev }

def calls (r : Run) : List Call → Option Run
  | [] => some r
  | c :: rest => (r.call c).bind fun r' => r'.calls rest

end Run

-- The first file, from the last one on, with room for `nAddSize` more bytes.
def roomyFile (s : BlockFiles) (nAddSize : Nat) : Nat :=
  s.nLastBlockFile + ((s.vinfoBlockFile.drop s.nLastBlockFile).takeWhile (full nAddSize)).length

def Legal (s : BlockFiles) : Call → Prop
  | .findBlockPos nAddSize _ _ _ => nAddSize < MAX_BLOCKFILE_SIZE
  | .findUndoPos nFile _ _ => nFile < s.vinfoBlockFile.length

def Safe (s : BlockFiles) : Call → Prop
  | .findBlockPos nAddSize _ _ nFreeBytesAvailable =>
    let nFile := s.roomyFile nAddSize
    let nSize := (infoAt s.vinfoBlockFile nFile).nSize
    nFile ∈ s.setDirtyFileInfo ∨
      preallocate BLOCKFILE_CHUNK_SIZE nSize (nSize + nAddSize) nFreeBytesAvailable = true
  | .findUndoPos nFile nAddSize _ => (infoAt s.vinfoBlockFile nFile).nUndoSize + nAddSize < 2 ^ 32

instance (s : BlockFiles) : (c : Call) → Decidable (s.Legal c)
  | .findBlockPos nAddSize _ _ _ => inferInstanceAs (Decidable (nAddSize < MAX_BLOCKFILE_SIZE))
  | .findUndoPos nFile _ _ => inferInstanceAs (Decidable (nFile < s.vinfoBlockFile.length))

instance (s : BlockFiles) : (c : Call) → Decidable (s.Safe c)
  | .findBlockPos .. => inferInstanceAs (Decidable (_ ∨ _))
  | .findUndoPos .. => inferInstanceAs (Decidable (_ < _))

-- Every call of the run is legal and safe in the state that it finds.
def Run.Safe (r : Run) : List Call → Prop
  | [] => True
  | c :: rest => r.files.Legal c ∧ r.files.Safe c ∧
    match r.call c with
    | none => True
    | some r' => r'.Safe rest

instance Run.decidableSafe : (r : Run) → (calls : List Call) → Decidable (r.Safe calls)
  | _, [] => inferInstanceAs (Decidable True)
  | r, c :: rest =>
    letI : Decidable (match r.call c with
        | none => True
        | some r' => r'.Safe rest) :=
      match r.call c with
      | none => inferInstanceAs (Decidable True)
      | some r' => Run.decidableSafe r' rest
    inferInstanceAs (Decidable (_ ∧ _ ∧ _))

end Definitions

variable {s : BlockFiles} {vinfoBlockFile : List CBlockFileInfo} {nFile nAddSize : Nat}

theorem lt_length_holdFile : nFile < (holdFile vinfoBlockFile nFile).length := by
  rw [holdFile]
  split
  · rw [List.length_append, List.length_replicate]
    omega
  · omega

theorem holdFile_of_lt (h : nFile < vinfoBlockFile.length) :
    holdFile vinfoBlockFile nFile = vinfoBlockFile := if_neg (Nat.not_le.mpr h)

theorem infoAt_of_le (h : vinfoBlockFile.length ≤ nFile) : infoAt vinfoBlockFile nFile = {} :=
  List.getD_eq_default _ _ h

@[simp] theorem infoAt_holdFile (i : Nat) :
    infoAt (holdFile vinfoBlockFile nFile) i = infoAt vinfoBlockFile i := by
  rw [holdFile]
  split
  · rcases Nat.lt_or_ge i vinfoBlockFile.length with hlt | hge
    · exact List.getD_append _ _ _ _ hlt
    · rw [infoAt_of_le hge, infoAt, List.getD_append_right _ _ _ _ hge,
        List.getD_eq_getElem?_getD, List.getElem?_replicate]
      split <;> rfl
  · rfl

theorem infoAt_set (h : nFile < vinfoBlockFile.length) (info : CBlockFileInfo) :
    infoAt (vinfoBlockFile.set nFile info) = Function.update (infoAt vinfoBlockFile) nFile info := by
  funext i
  by_cases hi : i = nFile
  · subst hi
    rw [Function.update_self, infoAt, List.getD_eq_getElem?_getD, List.getElem?_set_self h]
    rfl
  · rw [Function.update_of_ne hi, infoAt, infoAt, List.getD_eq_getElem?_getD,
      List.getD_eq_getElem?_getD, List.getElem?_set_ne (Ne.symm hi)]

theorem leaveBlockFile_of_full (h : full nAddSize (infoAt vinfoBlockFile nFile) = true) :
    leaveBlockFile nAddSize (nFile, vinfoBlockFile) =
      .inl (nFile + 1, holdFile vinfoBlockFile (nFile + 1)) := if_pos h

theorem leaveBlockFile_of_not_full (h : full nAddSize (infoAt vinfoBlockFile nFile) = false) :
    leaveBlockFile nAddSize (nFile, vinfoBlockFile) = .inr (nFile, vinfoBlockFile) :=
  if_neg (Bool.eq_false_iff.mp h)

-- The search stops at the first file with room, an empty one behind the last at the latest.
theorem run_leaveBlockFile {fuel : Nat} (hlt : nFile < vinfoBlockFile.length)
    (hempty : full nAddSize {} = false) (hfuel : vinfoBlockFile.length < nFile + fuel) :
    let target := nFile + ((vinfoBlockFile.drop nFile).takeWhile (full nAddSize)).length
    WhileLoop.run (leaveBlockFile nAddSize) fuel (nFile, vinfoBlockFile) =
        some (target, holdFile vinfoBlockFile target) ∧
      full nAddSize (infoAt vinfoBlockFile target) = false := by
  induction fuel generalizing nFile vinfoBlockFile with
  | zero => omega
  | succ fuel ih =>
    have hdrop := List.drop_eq_getElem_cons hlt
    have hinfo : infoAt vinfoBlockFile nFile = vinfoBlockFile[nFile] :=
      List.getD_eq_getElem _ _ hlt
    cases hfull : full nAddSize (infoAt vinfoBlockFile nFile) with
    | false =>
      rw [hdrop, List.takeWhile_cons_of_neg (by rw [← hinfo, hfull]; exact Bool.false_ne_true),
        WhileLoop.run, leaveBlockFile_of_not_full hfull]
      exact ⟨by rw [List.length_nil, Nat.add_zero, holdFile_of_lt hlt], hfull⟩
    | true =>
      rw [hdrop, List.takeWhile_cons_of_pos (by rw [← hinfo, hfull]), List.length_cons,
        WhileLoop.run, leaveBlockFile_of_full hfull]
      dsimp only
      rcases Nat.lt_or_ge (nFile + 1) vinfoBlockFile.length with hnext | hlast
      · have hrest := ih hnext (by omega)
        rw [Nat.add_right_comm, Nat.add_assoc] at hrest
        rw [holdFile_of_lt hnext]
        exact hrest
      · -- the file that the loop adds is empty
        obtain ⟨fuel, rfl⟩ : ∃ n, fuel = n + 1 := ⟨fuel - 1, by omega⟩
        have hnew : full nAddSize
            (infoAt (holdFile vinfoBlockFile (nFile + 1)) (nFile + 1)) = false := by
          rw [infoAt_holdFile, infoAt_of_le hlast]
          exact hempty
        rw [List.drop_eq_nil_of_le hlast, WhileLoop.run, leaveBlockFile_of_not_full hnew]
        rw [infoAt_holdFile] at hnew
        exact ⟨rfl, hnew⟩

theorem exists_run_leaveBlockFile {fuel j : Nat} (hle : nFile ≤ j)
    (hroom : full nAddSize (infoAt vinfoBlockFile j) = false) (hfuel : j < nFile + fuel) :
    ∃ r, WhileLoop.run (leaveBlockFile nAddSize) fuel (nFile, vinfoBlockFile) = some r := by
  induction fuel generalizing nFile vinfoBlockFile with
  | zero => omega
  | succ fuel ih =>
    cases hfull : full nAddSize (infoAt vinfoBlockFile nFile) with
    | false => exact ⟨_, by rw [WhileLoop.run, leaveBlockFile_of_not_full hfull]⟩
    | true =>
      have hne : nFile ≠ j := by
        rintro rfl
        rw [hfull] at hroom
        cases hroom
      have hroom' : full nAddSize (infoAt (holdFile vinfoBlockFile (nFile + 1)) j) = false := by
        rw [infoAt_holdFile]
        exact hroom
      rw [WhileLoop.run, leaveBlockFile_of_full hfull]
      exact ih (Nat.lt_of_le_of_ne hle hne) hroom' (by omega)

-- A search that has not ended when it has seen an empty file goes on for ever.
theorem ends_leaveBlockFile_iff (hlt : nFile < vinfoBlockFile.length) :
    (∃ r, WhileLoop.Ends (leaveBlockFile nAddSize) (nFile, vinfoBlockFile) r) ↔
      ∃ r, WhileLoop.run (leaveBlockFile nAddSize) (vinfoBlockFile.length + 1)
        (nFile, vinfoBlockFile) = some r := by
  refine ⟨fun ⟨r, hr⟩ => ?_, fun ⟨r, hr⟩ => ⟨r, _, hr⟩⟩
  by_contra hnone
  have hfull : ∀ j, nFile ≤ j → full nAddSize (infoAt vinfoBlockFile j) = true := by
    intro j hj
    by_contra hroom
    have hroom := Bool.eq_false_iff.mpr hroom
    rcases Nat.lt_or_ge j vinfoBlockFile.length with hlow | hhigh
    · exact hnone (exists_run_leaveBlockFile hj hroom (by omega))
    · rw [infoAt_of_le hhigh, ← infoAt_of_le (Nat.le_refl vinfoBlockFile.length)] at hroom
      exact hnone (exists_run_leaveBlockFile (Nat.le_of_lt hlt) hroom (by omega))
  let Stuck : Nat × List CBlockFileInfo → Prop := fun files =>
    ∀ j, files.1 ≤ j → full nAddSize (infoAt files.2 j) = true
  refine @WhileLoop.not_ends _ _ (leaveBlockFile nAddSize) (nFile, vinfoBlockFile) r Stuck
    (fun files hstuck => ?_) hfull hr
  refine ⟨_, leaveBlockFile_of_full (hstuck files.1 (Nat.le_refl _)), fun j hj => ?_⟩
  rw [infoAt_holdFile]
  exact hstuck j (by omega)

theorem full_empty (h : nAddSize < MAX_BLOCKFILE_SIZE) : full nAddSize {} = false := by
  rw [full, decide_eq_false_iff_not]
  have hzero : ({} : CBlockFileInfo).nSize = 0 := rfl
  rw [MAX_BLOCKFILE_SIZE] at h ⊢
  omega

theorem lt_of_not_full {info : CBlockFileInfo} (h : full nAddSize info = false)
    (hsize : info.nSize ≤ 2 ^ 32 - MAX_BLOCKFILE_SIZE) (hadd : nAddSize < MAX_BLOCKFILE_SIZE) :
    info.nSize + nAddSize < MAX_BLOCKFILE_SIZE := by
  rw [full, decide_eq_false_iff_not] at h
  rw [MAX_BLOCKFILE_SIZE] at *
  omega

theorem chooseBlockFile_spec (pos : CDiskBlockPos) (h : nAddSize < MAX_BLOCKFILE_SIZE) :
    ∃ vinfoBlockFile, s.chooseBlockFile pos nAddSize false =
        some (s.roomyFile nAddSize, vinfoBlockFile) ∧
      s.roomyFile nAddSize < vinfoBlockFile.length ∧
      infoAt vinfoBlockFile = infoAt s.vinfoBlockFile ∧
      full nAddSize (infoAt s.vinfoBlockFile (s.roomyFile nAddSize)) = false := by
  let held := holdFile s.vinfoBlockFile s.nLastBlockFile
  have hempty := full_empty h
  have htarget : (s.vinfoBlockFile.drop s.nLastBlockFile).takeWhile (full nAddSize) =
      (held.drop s.nLastBlockFile).takeWhile (full nAddSize) := by
    rcases Nat.lt_or_ge s.nLastBlockFile s.vinfoBlockFile.length with hlt | hge
    · rw [show held = s.vinfoBlockFile from holdFile_of_lt hlt]
    · have hlt : s.nLastBlockFile < held.length := lt_length_holdFile
      have hlast : held[s.nLastBlockFile] = {} := by
        have hinfo : infoAt held s.nLastBlockFile = infoAt s.vinfoBlockFile s.nLastBlockFile :=
          infoAt_holdFile s.nLastBlockFile
        rwa [infoAt_of_le hge, infoAt, List.getD_eq_getElem _ _ hlt] at hinfo
      rw [List.drop_eq_nil_of_le hge, List.drop_eq_getElem_cons hlt, hlast,
        List.takeWhile_cons_of_neg (by rw [hempty]; exact Bool.false_ne_true)]
      rfl
  have hrun := @run_leaveBlockFile held s.nLastBlockFile nAddSize (held.length + 1)
    lt_length_holdFile hempty (by omega)
  rw [← htarget] at hrun
  have hinfo : ∀ i, infoAt held i = infoAt s.vinfoBlockFile i := fun i => infoAt_holdFile i
  refine ⟨_, hrun.1, lt_length_holdFile, ?_, ?_⟩
  · funext i
    rw [infoAt_holdFile, hinfo]
  · rw [← hinfo]
    exact hrun.2

theorem findBlockPos_spec (pos : CDiskBlockPos) (nHeight nTime nFreeBytesAvailable : Nat)
    (hsizes : ∀ i, (infoAt s.vinfoBlockFile i).nSize ≤ 2 ^ 32 - MAX_BLOCKFILE_SIZE)
    (hadd : nAddSize < MAX_BLOCKFILE_SIZE) :
    let nFile := s.roomyFile nAddSize
    let info := infoAt s.vinfoBlockFile nFile
    let ok := preallocate BLOCKFILE_CHUNK_SIZE info.nSize (info.nSize + nAddSize) nFreeBytesAvailable
    info.nSize + nAddSize < MAX_BLOCKFILE_SIZE ∧
      ∃ s', s.findBlockPos pos nAddSize nHeight nTime false nFreeBytesAvailable =
          some (ok, ⟨nFile, info.nSize⟩, s') ∧
        infoAt s'.vinfoBlockFile = Function.update (infoAt s.vinfoBlockFile) nFile
          { info.addBlock nHeight nTime with nSize := info.nSize + nAddSize } ∧
        s'.setDirtyFileInfo =
          if ok = true then insert nFile s.setDirtyFileInfo else s.setDirtyFileInfo := by
  intro nFile info ok
  obtain ⟨vinfoBlockFile, hchoose, hlt, hinfo, hroom⟩ := @chooseBlockFile_spec s nAddSize pos hadd
  have hfit : info.nSize + nAddSize < MAX_BLOCKFILE_SIZE := lt_of_not_full hroom (hsizes nFile) hadd
  have hmod : (info.nSize + nAddSize) % 2 ^ 32 = info.nSize + nAddSize := by
    rw [MAX_BLOCKFILE_SIZE] at hfit
    omega
  let info' := { info.addBlock nHeight nTime with nSize := info.nSize + nAddSize }
  have htake : s.takeBlockPos pos nAddSize nHeight nTime false nFreeBytesAvailable nFile
      vinfoBlockFile = (ok, ⟨nFile, info.nSize⟩,
        ⟨vinfoBlockFile.set nFile info', nFile,
          if ok = true then insert nFile s.setDirtyFileInfo else s.setDirtyFileInfo⟩) := by
    simp only [takeBlockPos, hinfo, Bool.false_eq_true, if_false, Bool.false_or]
    rw [hmod]
  refine ⟨hfit, _, (congrArg _ hchoose).trans (congrArg some htake), ?_, rfl⟩
  rw [infoAt_set hlt, hinfo]

theorem findUndoPos_spec (nFreeBytesAvailable : Nat) (hlt : nFile < s.vinfoBlockFile.length)
    (hsize : (infoAt s.vinfoBlockFile nFile).nUndoSize + nAddSize < 2 ^ 32) :
    let info := infoAt s.vinfoBlockFile nFile
    ∃ ok s', s.findUndoPos nFile nAddSize nFreeBytesAvailable =
        some (ok, ⟨nFile, info.nUndoSize⟩, s') ∧
      infoAt s'.vinfoBlockFile = Function.update (infoAt s.vinfoBlockFile) nFile
        { info with nUndoSize := info.nUndoSize + nAddSize } ∧
      s'.setDirtyFileInfo = insert nFile s.setDirtyFileInfo := by
  intro info
  have hget : s.vinfoBlockFile[nFile]? = some info := by
    rw [List.getElem?_eq_getElem hlt]
    exact congrArg some (List.getD_eq_getElem _ _ hlt).symm
  have hmod : (info.nUndoSize + nAddSize) % 2 ^ 32 = info.nUndoSize + nAddSize :=
    Nat.mod_eq_of_lt hsize
  refine ⟨_, _, by rw [findUndoPos, hget, Option.bind_eq_bind, Option.bind_some, hmod], ?_, rfl⟩
  exact infoAt_set hlt _

namespace Run

-- The size counters are the marks up to which the files have been handed out.
structure Allocated (r : Run) : Prop where
  sizes : ∀ i, (infoAt r.files.vinfoBlockFile i).nSize ≤ 2 ^ 32 - MAX_BLOCKFILE_SIZE
  blk : Carved (CBlockFileInfo.nSize ∘ infoAt r.files.vinfoBlockFile) r.blk
  rev : Carved (CBlockFileInfo.nUndoSize ∘ infoAt r.files.vinfoBlockFile) r.rev
  fits : ∀ x ∈ r.blk, x.stop < MAX_BLOCKFILE_SIZE
  dirty : ∀ x ∈ r.blk ++ r.rev, x.area ∈ r.files.setDirtyFileInfo

variable {r : Run} {ok : Bool} {pos : CDiskBlockPos} {s' : BlockFiles}

theorem call_findBlockPos {nHeight nTime nFreeBytesAvailable : Nat}
    (h : r.files.findBlockPos ⟨0, 0⟩ nAddSize nHeight nTime false nFreeBytesAvailable =
      some (ok, pos, s')) :
    r.call (.findBlockPos nAddSize nHeight nTime nFreeBytesAvailable) =
      some ⟨s', ⟨pos.nFile, pos.nPos, nAddSize⟩ :: r.blk, r.rev⟩ := by
  rw [call, h]
  rfl

theorem call_findUndoPos {nFreeBytesAvailable : Nat}
    (h : r.files.findUndoPos nFile nAddSize nFreeBytesAvailable = some (ok, pos, s')) :
    r.call (.findUndoPos nFile nAddSize nFreeBytesAvailable) =
      some ⟨s', r.blk, ⟨pos.nFile, pos.nPos, nAddSize⟩ :: r.rev⟩ := by
  rw [call, h]
  rfl

theorem Allocated.findBlockPos (h : r.Allocated) {nHeight nTime nFreeBytesAvailable : Nat}
    (hlegal : r.files.Legal (.findBlockPos nAddSize nHeight nTime nFreeBytesAvailable))
    (hsafe : r.files.Safe (.findBlockPos nAddSize nHeight nTime nFreeBytesAvailable)) :
    ∃ r', r.call (.findBlockPos nAddSize nHeight nTime nFreeBytesAvailable) = some r' ∧
      r'.Allocated := by
  obtain ⟨hfit, s', hs', hinfo, hset⟩ :=
    findBlockPos_spec ⟨0, 0⟩ nHeight nTime nFreeBytesAvailable h.sizes hlegal
  have hkept : r.files.setDirtyFileInfo ⊆ s'.setDirtyFileInfo := by
    rw [hset]
    split
    · exact Finset.subset_insert _ _
    · exact Finset.Subset.refl _
  have hmarked : r.files.roomyFile nAddSize ∈ s'.setDirtyFileInfo := by
    rcases hsafe with hold | hok
    · exact hkept hold
    · rw [hset, if_pos hok]
      exact Finset.mem_insert_self _ _
  refine ⟨_, call_findBlockPos hs', ⟨fun i => ?_, ?_, ?_, ?_, ?_⟩⟩
  · rw [hinfo]
    by_cases hi : i = r.files.roomyFile nAddSize
    · subst hi
      rw [Function.update_self]
      dsimp only
      rw [MAX_BLOCKFILE_SIZE] at hfit ⊢
      omega
    · rw [Function.update_of_ne hi]
      exact h.sizes i
  · rw [hinfo, Function.comp_update]
    exact h.blk.cut _ nAddSize
  · have hkeep : CBlockFileInfo.nUndoSize ∘ infoAt s'.vinfoBlockFile =
        CBlockFileInfo.nUndoSize ∘ infoAt r.files.vinfoBlockFile := by
      rw [hinfo, Function.comp_update]
      exact Function.update_eq_self _ _
    rw [hkeep]
    exact h.rev
  · intro x hx
    rcases List.mem_cons.mp hx with rfl | hx
    · exact hfit
    · exact h.fits x hx
  · intro x hx
    rcases List.mem_cons.mp hx with rfl | hx
    · exact hmarked
    · exact hkept (h.dirty x hx)

theorem Allocated.findUndoPos (h : r.Allocated) {nFreeBytesAvailable : Nat}
    (hlegal : r.files.Legal (.findUndoPos nFile nAddSize nFreeBytesAvailable))
    (hsafe : r.files.Safe (.findUndoPos nFile nAddSize nFreeBytesAvailable)) :
    ∃ r', r.call (.findUndoPos nFile nAddSize nFreeBytesAvailable) = some r' ∧ r'.Allocated := by
  obtain ⟨ok, s', hs', hinfo, hset⟩ := findUndoPos_spec nFreeBytesAvailable hlegal hsafe
  have hkeep : CBlockFileInfo.nSize ∘ infoAt s'.vinfoBlockFile =
      CBlockFileInfo.nSize ∘ infoAt r.files.vinfoBlockFile := by
    rw [hinfo, Function.comp_update]
    exact Function.update_eq_self _ _
  refine ⟨_, call_findUndoPos hs', ⟨fun i => ?_, ?_, ?_, h.fits, fun x hx => ?_⟩⟩
  · have hsize : (infoAt s'.vinfoBlockFile i).nSize = (infoAt r.files.vinfoBlockFile i).nSize :=
      congrFun hkeep i
    rw [hsize]
    exact h.sizes i
  · rw [hkeep]
    exact h.blk
  · rw [hinfo, Function.comp_update]
    exact h.rev.cut nFile nAddSize
  · rw [hset, Finset.mem_insert]
    rcases List.mem_append.mp hx with hx | hx
    · exact .inr (h.dirty x (List.mem_append_left _ hx))
    · rcases List.mem_cons.mp hx with rfl | hx
      · exact .inl rfl
      · exact .inr (h.dirty x (List.mem_append_right _ hx))

theorem Allocated.call (h : r.Allocated) {c : Call} (hlegal : r.files.Legal c)
    (hsafe : r.files.Safe c) : ∃ r', r.call c = some r' ∧ r'.Allocated := by
  cases c with
  | findBlockPos nAddSize nHeight nTime nFreeBytesAvailable => exact h.findBlockPos hlegal hsafe
  | findUndoPos nFile nAddSize nFreeBytesAvailable => exact h.findUndoPos hlegal hsafe

theorem Allocated.calls (h : r.Allocated) {calls : List Call} (hsafe : r.Safe calls) :
    ∃ r', r.calls calls = some r' ∧ r'.Allocated := by
  induction calls generalizing r with
  | nil => exact ⟨r, rfl, h⟩
  | cons c rest ih =>
    obtain ⟨hlegal, hc, hrest⟩ := hsafe
    obtain ⟨r', hr', hall⟩ := h.call hlegal hc
    rw [hr'] at hrest
    obtain ⟨r'', hr'', hall'⟩ := ih hall hrest
    exact ⟨r'', by rw [Run.calls, hr', Option.bind_some, hr''], hall'⟩

theorem allocated_start {s : BlockFiles}
    (h : ∀ info ∈ s.vinfoBlockFile, info.nSize ≤ 2 ^ 32 - MAX_BLOCKFILE_SIZE) :
    (Run.mk s [] []).Allocated := by
  refine ⟨fun i => ?_, carved_nil, carved_nil, fun x hx => ?_, fun x hx => ?_⟩
  · dsimp only
    rcases Nat.lt_or_ge i s.vinfoBlockFile.length with hlt | hge
    · rw [infoAt, List.getD_eq_getElem _ _ hlt]
      exact h _ (List.getElem_mem hlt)
    · rw [infoAt_of_le hge]
      exact Nat.zero_le _
  · cases hx
  · cases hx

end Run

end BlockFiles

open BlockFiles CarvedRanges in
theorem block_files_allocated {s : BlockFiles} {calls : List Call}
    (hsizes : ∀ info ∈ s.vinfoBlockFile, info.nSize ≤ 2 ^ 32 - MAX_BLOCKFILE_SIZE)
    (hsafe : (Run.mk s [] []).Safe calls) :
    ∃ r, (Run.mk s [] []).calls calls = some r ∧
      r.blk.Pairwise Range.Apart ∧ (∀ x ∈ r.blk, x.stop < MAX_BLOCKFILE_SIZE) ∧
      r.rev.Pairwise Range.Apart ∧ ∀ x ∈ r.blk ++ r.rev, x.area ∈ r.files.setDirtyFileInfo := by
  obtain ⟨r, hr, hall⟩ := (Run.allocated_start hsizes).calls hsafe
  exact ⟨r, hr, hall.blk.apart, hall.fits, hall.rev.apart, hall.dirty⟩

open BlockFiles CarvedRanges in
theorem block_files_allocated_two : ∃ r, (Run.mk {} [] []).calls
      [.findBlockPos 1000 0 0 (2 ^ 40), .findUndoPos 0 48 (2 ^ 40),
        .findBlockPos 0x7ffffff 1 0 (2 ^ 40), .findUndoPos 0 52 (2 ^ 40)] = some r ∧
    r.blk.Pairwise Range.Apart ∧ (∀ x ∈ r.blk, x.stop < MAX_BLOCKFILE_SIZE) ∧
    r.rev.Pairwise Range.Apart ∧ ∀ x ∈ r.blk ++ r.rev, x.area ∈ r.files.setDirtyFileInfo := by
  exact block_files_allocated (by decide) (by decide +kernel)

-- the disk is full when the first file is begun; the undo data of a file passes 4 GiB
open BlockFiles CarvedRanges in
theorem block_files_misallocated :
    (∃ r ∈ (Run.mk {} [] []).calls [.findBlockPos 1000 0 0 0],
      ∃ x ∈ r.blk, x.area ∉ r.files.setDirtyFileInfo) ∧
    ∃ r ∈ (Run.mk {} [] []).calls [.findBlockPos 1000 0 0 (2 ^ 40),
        .findUndoPos 0 (2 ^ 32 - 1) (2 ^ 40), .findUndoPos 0 2 (2 ^ 40), .findUndoPos 0 1 (2 ^ 40)],
      ¬r.rev.Pairwise Range.Apart := by
  decide +kernel

end AnkerNode
