import AnkerNode.Lib.ByteStream
import AnkerNode.Script.SolverReads

namespace AnkerNode

def OP_CODESEPARATOR : UInt8 := 0xab

namespace CScript

inductive ParsesToEnd : CScript → Prop
  | nil : ParsesToEnd []
  | cons {pc : CScript} {i : Instruction} (h : getOp2 pc = some i) (hrest : ParsesToEnd i.next) :
      ParsesToEnd pc

def countSeparators : Nat → CScript → Nat
  | 0, _ => 0
  | fuel + 1, it =>
    match getOp2 it with
    | none => 0
    | some i => (if i.opcode = OP_CODESEPARATOR then 1 else 0) + countSeparators fuel i.next

-- the bytes written from `itBegin` on, while `it` runs through the script
def writeSegments : Nat → CScript → CScript → List UInt8
  | 0, _, _ => []
  | fuel + 1, itBegin, it =>
    match getOp2 it with
    | none => if itBegin = [] then [] else itBegin.take (itBegin.length - (Reads.stoppedAt it).length)
    | some i =>
      if i.opcode = OP_CODESEPARATOR then
        itBegin.take (itBegin.length - i.next.length - 1) ++ writeSegments fuel i.next i.next
      else writeSegments fuel itBegin i.next

theorem getOp2_cons {pc : CScript} {i : Instruction} (h : getOp2 pc = some i) :
    ∃ rest, pc = i.opcode :: rest ∧ i.next <:+ rest ∧ (OP_PUSHDATA4 < i.opcode → i.next = rest) := by
  cases pc with
  | nil => cases h
  | cons opcode rest =>
    rw [getOp2] at h
    by_cases hpush : opcode ≤ OP_PUSHDATA4
    · rw [if_pos hpush] at h
      split at h
      · cases h
      · split at h
        · cases h
        · cases h
          exact ⟨rest, rfl, (List.drop_suffix _ _).trans (List.drop_suffix _ _),
            fun hlt => absurd hpush (UInt8.not_le.mpr hlt)⟩
    · rw [if_neg hpush] at h
      cases h
      exact ⟨rest, rfl, List.suffix_rfl, fun _ => rfl⟩

theorem next_suffix {pc : CScript} {i : Instruction} (h : getOp2 pc = some i) : i.next <:+ pc := by
  obtain ⟨rest, rfl, hsuffix, -⟩ := getOp2_cons h
  exact hsuffix.trans (List.suffix_cons _ _)

theorem findAndDeleteFrom_nil (b : UInt8) (fuel : Nat) : findAndDeleteFrom [b] fuel [] = [] := by
  cases fuel <;> rfl

theorem findAndDeleteFrom_separator {fuel : Nat} (pc : CScript) :
    findAndDeleteFrom [OP_CODESEPARATOR] (fuel + 1) (OP_CODESEPARATOR :: pc) =
      findAndDeleteFrom [OP_CODESEPARATOR] fuel pc := by
  rw [findAndDeleteFrom, if_pos (by simp)]
  rfl

theorem findAndDeleteFrom_other {fuel : Nat} {pc : CScript} {i : Instruction}
    (h : getOp2 pc = some i) (hop : i.opcode ≠ OP_CODESEPARATOR) :
    findAndDeleteFrom [OP_CODESEPARATOR] (fuel + 1) pc =
      pc.take (pc.length - i.next.length) ++ findAndDeleteFrom [OP_CODESEPARATOR] fuel i.next := by
  obtain ⟨rest, rfl, -⟩ := getOp2_cons h
  have hprefix : ¬[OP_CODESEPARATOR].isPrefixOf (i.opcode :: rest) = true := by
    simpa [List.isPrefixOf] using Ne.symm hop
  rw [findAndDeleteFrom, if_neg hprefix, h]

-- Up to the end of the opcode at `it`, what lies between is the part before `it` and the opcode.
theorem take_segment {before chunk next : CScript} :
    (before ++ (chunk ++ next)).take ((before ++ (chunk ++ next)).length - next.length) =
      (before ++ (chunk ++ next)).take ((before ++ (chunk ++ next)).length - (chunk ++ next).length) ++
        (chunk ++ next).take ((chunk ++ next).length - next.length) := by
  have hall : (before ++ (chunk ++ next)).length - next.length = (before ++ chunk).length := by
    simp only [List.length_append]
    omega
  have hbefore : (before ++ (chunk ++ next)).length - (chunk ++ next).length = before.length := by
    simp only [List.length_append]
    omega
  have hchunk : (chunk ++ next).length - next.length = chunk.length := by
    simp only [List.length_append]
    omega
  rw [hall, hbefore, hchunk, List.take_left, List.take_left, ← List.append_assoc, List.take_left]

-- The segments are what deleting the separators leaves.
theorem writeSegments_eq {it : CScript} (h : ParsesToEnd it) {fuel fuel' : Nat} {itBegin : CScript}
    (hfuel : it.length < fuel) (hfuel' : it.length ≤ fuel') (hsuffix : it <:+ itBegin) :
    writeSegments fuel itBegin it = itBegin.take (itBegin.length - it.length) ++
      findAndDeleteFrom [OP_CODESEPARATOR] fuel' it := by
  induction h generalizing fuel fuel' itBegin with
  | nil =>
    obtain ⟨fuel, rfl⟩ := Nat.exists_eq_add_one_of_ne_zero (Nat.ne_of_gt hfuel)
    rw [findAndDeleteFrom_nil, List.append_nil]
    by_cases hbegin : itBegin = []
    · rw [hbegin]
      rfl
    · exact if_neg hbegin
  | cons h hrest ih =>
    rename_i pc i
    obtain ⟨fuel, rfl⟩ := Nat.exists_eq_add_one_of_ne_zero (Nat.ne_of_gt (Nat.zero_lt_of_lt hfuel))
    have hlt := getOp2_next_lt h
    obtain ⟨fuel', rfl⟩ := Nat.exists_eq_add_one_of_ne_zero
      (Nat.ne_of_gt (Nat.zero_lt_of_lt (Nat.lt_of_lt_of_le hlt hfuel')))
    rw [writeSegments, h]
    dsimp only
    by_cases hop : i.opcode = OP_CODESEPARATOR
    · obtain ⟨rest, rfl, -, hnext⟩ := getOp2_cons h
      have hrest : i.next = rest := hnext (by rw [hop]; decide)
      have hnext : writeSegments fuel i.next i.next = _ :=
        @ih fuel fuel' _ (by omega) (by omega) List.suffix_rfl
      rw [if_pos hop, hnext, hop, findAndDeleteFrom_separator, ← hrest]
      simp [Nat.sub_sub]
    · have hnext : writeSegments fuel itBegin i.next = _ :=
        @ih fuel fuel' _ (by omega) (by omega) ((next_suffix h).trans hsuffix)
      obtain ⟨chunk, rfl⟩ := next_suffix h
      obtain ⟨before, rfl⟩ := hsuffix
      rw [if_neg hop, hnext, findAndDeleteFrom_other h hop, take_segment, List.append_assoc]

-- Every separator counted is one byte deleted.
theorem countSeparators_add {it : CScript} (h : ParsesToEnd it) {fuel fuel' : Nat}
    (hfuel : it.length < fuel) (hfuel' : it.length ≤ fuel') :
    countSeparators fuel it + (findAndDeleteFrom [OP_CODESEPARATOR] fuel' it).length = it.length := by
  induction h generalizing fuel fuel' with
  | nil =>
    obtain ⟨fuel, rfl⟩ := Nat.exists_eq_add_one_of_ne_zero (Nat.ne_of_gt hfuel)
    rw [findAndDeleteFrom_nil]
    rfl
  | cons h hrest ih =>
    rename_i pc i
    obtain ⟨fuel, rfl⟩ := Nat.exists_eq_add_one_of_ne_zero (Nat.ne_of_gt (Nat.zero_lt_of_lt hfuel))
    have hlt := getOp2_next_lt h
    obtain ⟨fuel', rfl⟩ := Nat.exists_eq_add_one_of_ne_zero
      (Nat.ne_of_gt (Nat.zero_lt_of_lt (Nat.lt_of_lt_of_le hlt hfuel')))
    have hnext := @ih fuel fuel' (by omega) (by omega)
    rw [countSeparators, h]
    dsimp only
    by_cases hop : i.opcode = OP_CODESEPARATOR
    · obtain ⟨rest, rfl, -, hrest⟩ := getOp2_cons h
      have hrest : i.next = rest := hrest (by rw [hop]; decide)
      rw [if_pos hop, hop, findAndDeleteFrom_separator, ← hrest, List.length_cons]
      omega
    · rw [if_neg hop, findAndDeleteFrom_other h hop, List.length_append, List.length_take]
      omega

def serializeScriptCode (scriptCode : CScript) : List UInt8 :=
  ByteStream.writeCompactSize
      (scriptCode.length - countSeparators (scriptCode.length + 1) scriptCode) ++
    writeSegments (scriptCode.length + 1) scriptCode scriptCode

theorem serializeScriptCode_eq {scriptCode : CScript} (h : ParsesToEnd scriptCode) :
    serializeScriptCode scriptCode =
      ByteStream.writeCompactSize (scriptCode.findAndDelete [OP_CODESEPARATOR]).length ++
        scriptCode.findAndDelete [OP_CODESEPARATOR] := by
  have hdelete : scriptCode.findAndDelete [OP_CODESEPARATOR] =
      findAndDeleteFrom [OP_CODESEPARATOR] (scriptCode.length + 1) scriptCode := rfl
  have hcount := countSeparators_add h (Nat.lt_add_one _) (Nat.le_add_right scriptCode.length 1)
  rw [serializeScriptCode, hdelete,
    writeSegments_eq h (Nat.lt_add_one _) (Nat.le_add_right _ 1) List.suffix_rfl, Nat.sub_self,
    List.take_zero, List.nil_append]
  congr 2
  omega

end CScript

end AnkerNode
