import AnkerNode.Chain.BlockTree
import AnkerNode.Lib.Loops

namespace AnkerNode

namespace SkipList

-- What AddToBlockIndex sets of an entry and GetAncestor reads; a pointer is a place in the index.
structure Entry where
  phashBlock : UInt256
  pprev : Option Nat := none
  pskip : Option Nat := none
  nHeight : Int := 0
deriving DecidableEq, Repr

abbrev Index := List Entry

def skipHeight (height : Int) : Int := getSkipHeight height.toNat

inductive Walked where
  | found (pindex : Option Nat)
  | nullSkip
  | nullPrev
deriving DecidableEq, Repr

namespace Index

variable (map : Index)

def find (hash : UInt256) : Option Nat := map.findIdx? fun e => e.phashBlock == hash

def nHeight (i : Nat) : Int := (map[i]?).elim 0 Entry.nHeight

-- one turn of the loop at an entry and heightWalk
def walkStep (height : Int) : Nat × Int → (Nat × Int) ⊕ Walked
  | (pindexWalk, heightWalk) =>
    if height < heightWalk then
      let heightSkip := skipHeight heightWalk
      let heightSkipPrev := skipHeight (heightWalk - 1)
      if heightSkip = height ∨ (height < heightSkip ∧
          ¬(heightSkipPrev < heightSkip - 2 ∧ height ≤ heightSkipPrev)) then
        match (map[pindexWalk]?).bind Entry.pskip with
        | some pskip => .inl (pskip, heightSkip)
        | none => .inr .nullSkip
      else
        match (map[pindexWalk]?).bind Entry.pprev with
        | some pprev => .inl (pprev, heightWalk - 1)
        | none => .inr .nullPrev
    else .inr (.found (some pindexWalk))

-- The loop has as many turns as heights to walk back, and is none beyond them.
def getAncestor (i : Nat) (height : Int) : Option Walked :=
  if map.nHeight i < height ∨ height < 0 then some (.found none)
  else WhileLoop.run (map.walkStep height) ((map.nHeight i - height).toNat + 1) (i, map.nHeight i)

def buildSkip (e : Entry) : Option Entry :=
  match e.pprev with
  | none => some e
  | some pprev =>
    match map.getAncestor pprev (skipHeight e.nHeight) with
    | some (.found pskip) => some { e with pskip := pskip }
    | _ => none

-- The new entry is in the index when its predecessor is looked up.
def addToBlockIndex (hash hashPrevBlock : UInt256) : Option Index :=
  match map.find hash with
  | some _ => some map
  | none =>
    match Index.find (map ++ [⟨hash, none, none, 0⟩]) hashPrevBlock with
    | none => some (map ++ [⟨hash, none, none, 0⟩])
    | some pprev =>
      let pindexNew : Entry :=
        { phashBlock := hash
          pprev := some pprev
          nHeight := Index.nHeight (map ++ [⟨hash, none, none, 0⟩]) pprev + 1 }
      (buildSkip (map ++ [pindexNew]) pindexNew).map fun e => map ++ [e]

def back : Nat → Nat → Option Nat
  | 0, i => some i
  | n + 1, i => ((map[i]?).bind Entry.pprev).bind (back n)

end Index

-- No header holds its own hash.
inductive Built : Index → Prop
  | empty : Built []
  | add {map map' : Index} {hash hashPrevBlock : UInt256} (h : Built map)
      (hne : hash ≠ hashPrevBlock) (hadd : map.addToBlockIndex hash hashPrevBlock = some map') :
      Built map'

-- the shape that AddToBlockIndex gives the first `k` entries
structure Linked (k : Nat) (map : Index) : Prop where
  prev : ∀ {i j : Nat} {e : Entry}, i < k → map[i]? = some e → e.pprev = some j →
    ∃ e', map[j]? = some e' ∧ j < i ∧ e.nHeight = e'.nHeight + 1
  root : ∀ {i : Nat} {e : Entry}, i < k → map[i]? = some e → e.pprev = none → e.nHeight = 0
  nonneg : ∀ {i : Nat} {e : Entry}, i < k → map[i]? = some e → 0 ≤ e.nHeight
  skip : ∀ {i j : Nat} {e : Entry}, i < k → map[i]? = some e → e.pprev = some j →
    e.pskip = map.back (e.nHeight - skipHeight e.nHeight).toNat i

section Back

variable {map : Index} {k i j : Nat} {e : Entry}

theorem back_succ (h : map[i]? = some e) (hprev : e.pprev = some j) (n : Nat) :
    map.back (n + 1) i = map.back n j := by
  rw [Index.back, h, Option.bind_some, hprev, Option.bind_some]

theorem back_add (m n i : Nat) : map.back (m + n) i = (map.back m i).bind (map.back n) := by
  induction m generalizing i with
  | zero => rw [Nat.zero_add, Index.back, Option.bind_some]
  | succ m ih =>
    rw [Nat.succ_add, Index.back, Index.back]
    cases (map[i]?).bind Entry.pprev with
    | none => rfl
    | some j => exact ih j

-- As far back as the height there is an entry, as much lower.
theorem Linked.exists_back (hl : Linked k map) {n : Nat} (hik : i < k) (hi : map[i]? = some e)
    (hn : (n : Int) ≤ e.nHeight) : ∃ a e', map.back n i = some a ∧ a < k ∧ map[a]? = some e' ∧
      e'.nHeight = e.nHeight - n := by
  induction n generalizing i e with
  | zero => exact ⟨i, e, rfl, hik, hi, by omega⟩
  | succ n ih =>
    cases hprev : e.pprev with
    | none =>
      have hroot := hl.root hik hi hprev
      omega
    | some j =>
      obtain ⟨e', hj, hlt, hheight⟩ := hl.prev hik hi hprev
      obtain ⟨a, e'', hback, hak, ha, hah⟩ := ih (by omega) hj (by omega)
      exact ⟨a, e'', by rw [back_succ hi hprev]; exact hback, hak, ha, by omega⟩

theorem skipHeight_nonneg (height : Int) : 0 ≤ skipHeight height := Int.natCast_nonneg _

theorem skipHeight_lt {height : Int} (h : 0 < height) : skipHeight height < height := by
  have hlt := getSkipHeight_lt height.toNat (by omega)
  rw [skipHeight]
  omega

-- A turn goes to an ancestor that is not below the wanted height; no pointer it follows is null.
theorem Linked.walkStep_eq (hl : Linked k map) {height : Int} (hik : i < k)
    (hi : map[i]? = some e) (hlow : 0 ≤ height) (hgt : height < e.nHeight) : ∃ n a e',
      map.walkStep height (i, e.nHeight) = .inl (a, e'.nHeight) ∧ map.back (n + 1) i = some a ∧
        a < k ∧ map[a]? = some e' ∧ height ≤ e'.nHeight ∧
        e'.nHeight + (n + 1 : Nat) = e.nHeight := by
  obtain ⟨j, hprev⟩ : ∃ j, e.pprev = some j := by
    cases hprev : e.pprev with
    | none =>
      have hroot := hl.root hik hi hprev
      omega
    | some j => exact ⟨j, rfl⟩
  have hlt : skipHeight e.nHeight < e.nHeight := skipHeight_lt (by omega)
  have hnonneg := skipHeight_nonneg e.nHeight
  rw [Index.walkStep, if_pos hgt, hi, Option.bind_some, Option.bind_some, hprev]
  dsimp only
  by_cases hskip : skipHeight e.nHeight = height ∨ (height < skipHeight e.nHeight ∧
      ¬(skipHeight (e.nHeight - 1) < skipHeight e.nHeight - 2 ∧
        height ≤ skipHeight (e.nHeight - 1)))
  · obtain ⟨n, hn⟩ : ∃ n : Nat, (e.nHeight - skipHeight e.nHeight).toNat = n + 1 :=
      Nat.exists_eq_add_one_of_ne_zero (by omega)
    obtain ⟨a, e', hback, hak, ha, hah⟩ := hl.exists_back (n := n + 1) hik hi (by omega)
    have hah' : e'.nHeight = skipHeight e.nHeight := by omega
    refine ⟨n, a, e', ?_, hback, hak, ha, by omega, by omega⟩
    rw [if_pos hskip, hl.skip hik hi hprev, hn, hback, hah']
  · obtain ⟨e', hj, hji, hheight⟩ := hl.prev hik hi hprev
    refine ⟨0, j, e', ?_, back_succ hi hprev 0, by omega, hj, by omega, by omega⟩
    rw [if_neg hskip, hheight, Int.add_sub_cancel]

theorem Linked.run_walkStep (hl : Linked k map) {height : Int} {fuel : Nat} (hik : i < k)
    (hi : map[i]? = some e) (hlow : 0 ≤ height) (hle : height ≤ e.nHeight)
    (hfuel : (e.nHeight - height).toNat < fuel) :
    WhileLoop.run (map.walkStep height) fuel (i, e.nHeight) =
      some (.found (map.back (e.nHeight - height).toNat i)) := by
  induction fuel generalizing i e with
  | zero => omega
  | succ fuel ih =>
    by_cases hgt : height < e.nHeight
    · obtain ⟨n, a, e', hstep, hback, hak, ha, hge, hsum⟩ := hl.walkStep_eq hik hi hlow hgt
      have hsplit : (e.nHeight - height).toNat = n + 1 + (e'.nHeight - height).toNat := by omega
      rw [WhileLoop.run, hstep, hsplit, back_add, hback, Option.bind_some]
      exact ih hak ha hge (by omega)
    · have hzero : (e.nHeight - height).toNat = 0 := by omega
      rw [WhileLoop.run, Index.walkStep, if_neg hgt, hzero]
      rfl

theorem nHeight_eq (hi : map[i]? = some e) : map.nHeight i = e.nHeight := by
  rw [Index.nHeight, hi]
  rfl

theorem Linked.getAncestor_eq (hl : Linked k map) {height : Int} (hik : i < k)
    (hi : map[i]? = some e) (hlow : 0 ≤ height) (hle : height ≤ e.nHeight) :
    map.getAncestor i height = some (.found (map.back (e.nHeight - height).toNat i)) := by
  rw [Index.getAncestor, nHeight_eq hi, if_neg (by omega)]
  exact hl.run_walkStep hik hi hlow hle (Nat.lt_succ_self _)

end Back

section Build

variable {map : Index} {hash hashPrevBlock : UInt256} {i j : Nat} {e e' : Entry}

theorem getElem?_snoc_of_lt (hi : i < map.length) (e : Entry) : (map ++ [e])[i]? = map[i]? :=
  List.getElem?_append_left hi

theorem Linked.back_snoc (hl : Linked map.length map) (hi : i < map.length) (e : Entry) (n : Nat) :
    Index.back (map ++ [e]) n i = map.back n i := by
  induction n generalizing i with
  | zero => rfl
  | succ n ih =>
    rw [Index.back, Index.back, getElem?_snoc_of_lt hi, List.getElem?_eq_getElem hi,
      Option.bind_some]
    cases hprev : (map[i]).pprev with
    | none => rfl
    | some j =>
      obtain ⟨-, -, hlt, -⟩ := hl.prev hi (List.getElem?_eq_getElem hi) hprev
      exact ih (by omega)

theorem Linked.snoc (hl : Linked map.length map) (e : Entry) : Linked map.length (map ++ [e]) where
  prev := by
    intro i j e' hik hi hprev
    rw [getElem?_snoc_of_lt hik] at hi
    obtain ⟨e'', hj, hlt, hheight⟩ := hl.prev hik hi hprev
    exact ⟨e'', by rw [getElem?_snoc_of_lt (by omega)]; exact hj, hlt, hheight⟩
  root := by
    intro i e' hik hi
    rw [getElem?_snoc_of_lt hik] at hi
    exact hl.root hik hi
  nonneg := by
    intro i e' hik hi
    rw [getElem?_snoc_of_lt hik] at hi
    exact hl.nonneg hik hi
  skip := by
    intro i j e' hik hi hprev
    rw [getElem?_snoc_of_lt hik] at hi
    rw [hl.skip hik hi hprev, hl.back_snoc hik]

theorem getElem?_snoc_self (map : Index) (e : Entry) : (map ++ [e])[map.length]? = some e :=
  List.getElem?_concat_length

theorem Linked.succ (hl : Linked map.length (map ++ [e])) (hnonneg : 0 ≤ e.nHeight)
    (hprev : ∀ j, e.pprev = some j →
      ∃ e', (map ++ [e])[j]? = some e' ∧ j < map.length ∧ e.nHeight = e'.nHeight + 1)
    (hroot : e.pprev = none → e.nHeight = 0)
    (hskip : ∀ j, e.pprev = some j → e.pskip =
      Index.back (map ++ [e]) (e.nHeight - skipHeight e.nHeight).toNat map.length) :
    Linked (map ++ [e]).length (map ++ [e]) := by
  have hcases : ∀ {i : Nat} {e' : Entry}, i < (map ++ [e]).length → (map ++ [e])[i]? = some e' →
      i < map.length ∨ i = map.length ∧ e = e' := by
    intro i e' hik hi
    rw [List.length_append, List.length_singleton] at hik
    rcases Nat.lt_succ_iff_lt_or_eq.mp hik with hlt | rfl
    · exact Or.inl hlt
    · rw [getElem?_snoc_self] at hi
      exact Or.inr ⟨rfl, Option.some.inj hi⟩
  constructor
  · intro i j e' hik hi hj
    rcases hcases hik hi with hlt | ⟨rfl, rfl⟩
    · exact hl.prev hlt hi hj
    · exact hprev j hj
  · intro i e' hik hi hnone
    rcases hcases hik hi with hlt | ⟨rfl, rfl⟩
    · exact hl.root hlt hi hnone
    · exact hroot hnone
  · intro i e' hik hi
    rcases hcases hik hi with hlt | ⟨rfl, rfl⟩
    · exact hl.nonneg hlt hi
    · exact hnonneg
  · intro i j e' hik hi hj
    rcases hcases hik hi with hlt | ⟨rfl, rfl⟩
    · exact hl.skip hlt hi hj
    · exact hskip j hj

theorem Linked.snoc_root (hl : Linked map.length map) (hash : UInt256) :
    Linked (map ++ [Entry.mk hash none none 0]).length (map ++ [Entry.mk hash none none 0]) := by
  refine (hl.snoc ⟨hash, none, none, 0⟩).succ (Int.le_refl 0) (fun j hj => ?_) (fun _ => rfl)
    fun j hj => ?_
  · cases hj
  · cases hj

-- BuildSkip finds the ancestor that the entry's own skip height names.
theorem Linked.buildSkip_eq (hl : Linked map.length map) (hj : map[j]? = some e') :
    let pindexNew : Entry := ⟨hash, some j, none, e'.nHeight + 1⟩
    ∃ e, Index.buildSkip (map ++ [pindexNew]) pindexNew = some e ∧
      Linked (map ++ [e]).length (map ++ [e]) := by
  intro pindexNew
  have hjk := (List.getElem?_eq_some_iff.mp hj).1
  have hnonneg := hl.nonneg hjk hj
  have hlt : skipHeight (e'.nHeight + 1) < e'.nHeight + 1 := skipHeight_lt (by omega)
  have hfound := (hl.snoc pindexNew).getAncestor_eq hjk
    (by rw [getElem?_snoc_of_lt hjk]; exact hj) (skipHeight_nonneg (e'.nHeight + 1)) (by omega)
  rw [hl.back_snoc hjk] at hfound
  refine ⟨{ pindexNew with
    pskip := map.back (e'.nHeight - skipHeight (e'.nHeight + 1)).toNat j }, ?_, ?_⟩
  · rw [Index.buildSkip]
    dsimp only [pindexNew]
    rw [hfound]
  · refine (hl.snoc _).succ (by dsimp only [pindexNew]; omega) (fun i hi => ?_)
      (fun hnone => by cases hnone) fun i hi => ?_
    · obtain rfl := Option.some.inj hi
      exact ⟨e', by rw [getElem?_snoc_of_lt hjk]; exact hj, hjk, rfl⟩
    · have hsum : (e'.nHeight + 1 - skipHeight (e'.nHeight + 1)).toNat =
          (e'.nHeight - skipHeight (e'.nHeight + 1)).toNat + 1 := by omega
      dsimp only [pindexNew]
      rw [hsum, back_succ (getElem?_snoc_self _ _) rfl, hl.back_snoc hjk]

theorem Linked.addToBlockIndex (hl : Linked map.length map) (hne : hash ≠ hashPrevBlock) :
    ∃ map', map.addToBlockIndex hash hashPrevBlock = some map' ∧ Linked map'.length map' := by
  rw [Index.addToBlockIndex]
  split
  · exact ⟨map, rfl, hl⟩
  · have hnew : ((⟨hash, none, none, 0⟩ : Entry).phashBlock == hashPrevBlock) = false :=
      beq_eq_false_iff_ne.mpr hne
    split
    · exact ⟨_, rfl, hl.snoc_root hash⟩
    · rename_i pprev hfind
      have hold : map.find hashPrevBlock = some pprev := by
        rw [Index.find, List.findIdx?_append, List.findIdx?_singleton, hnew,
          if_neg Bool.false_ne_true, Option.map_none, Option.or_none] at hfind
        exact hfind
      have hlt := (List.findIdx?_eq_some_iff_findIdx_eq.mp hold).1
      have hj := List.getElem?_eq_getElem hlt
      obtain ⟨e, hskip, hlinked⟩ := @Linked.buildSkip_eq map hash _ _ hl hj
      refine ⟨map ++ [e], ?_, hlinked⟩
      have hheight : Index.nHeight (map ++ [⟨hash, none, none, 0⟩]) pprev = (map[pprev]).nHeight :=
        nHeight_eq (by rw [getElem?_snoc_of_lt hlt]; exact hj)
      rw [hheight]
      dsimp only
      rw [hskip]
      rfl

theorem Built.linked (h : Built map) : Linked map.length map := by
  induction h with
  | empty =>
    constructor
    all_goals
      intros
      simp_all
  | add h hne hadd ih =>
    obtain ⟨map', hmap', hl⟩ := ih.addToBlockIndex hne
    rw [hadd] at hmap'
    rw [Option.some.inj hmap']
    exact hl

end Build

-- the entries as a forest, by the height above the first of them
def Linked.forest {map : Index} (hl : Linked map.length map) : RankedForest where
  parent i := (map[i]?).bind Entry.pprev
  height i := (map.nHeight i).toNat
  parent_lt := by
    intro i j h
    obtain ⟨e, hi, hprev⟩ := Option.bind_eq_some_iff.mp h
    obtain ⟨-, -, hlt, -⟩ := hl.prev (List.getElem?_eq_some_iff.mp hi).1 hi hprev
    exact hlt
  height_parent := by
    intro i j h
    obtain ⟨e, hi, hprev⟩ := Option.bind_eq_some_iff.mp h
    obtain ⟨e', hj, hlt, hheight⟩ := hl.prev (List.getElem?_eq_some_iff.mp hi).1 hi hprev
    have hnonneg := hl.nonneg (List.getElem?_eq_some_iff.mp hj).1 hj
    rw [nHeight_eq hi, nHeight_eq hj]
    omega
  height_root := by
    intro i h
    cases hi : map[i]? with
    | none =>
      rw [Index.nHeight, hi]
      rfl
    | some e =>
      rw [hi, Option.bind_some] at h
      have hroot := hl.root (List.getElem?_eq_some_iff.mp hi).1 hi h
      rw [nHeight_eq hi, hroot]
      rfl

theorem Linked.back_mem_branch {map : Index} (hl : Linked map.length map) {n i a : Nat}
    (h : map.back n i = some a) : a ∈ hl.forest.branch i := by
  induction n generalizing i with
  | zero =>
    rw [Option.some.inj h]
    exact RankedForest.self_mem_branch a
  | succ n ih =>
    obtain ⟨j, hj, hback⟩ := Option.bind_eq_some_iff.mp h
    exact (RankedForest.mem_branch_of_parent (t := hl.forest) hj).mpr (Or.inr (ih hback))

-- What the pointers of the table lead to is the ancestor in the forest.
theorem Linked.getAncestor_eq_ancestorAt {map : Index} (hl : Linked map.length map) {i : Nat}
    {e : Entry} (hi : map[i]? = some e) {height : Nat} (hle : (height : Int) ≤ e.nHeight) :
    map.getAncestor i height = some (.found (hl.forest.ancestorAt i height)) := by
  have hik := (List.getElem?_eq_some_iff.mp hi).1
  obtain ⟨a, e', hback, -, ha, hah⟩ :=
    hl.exists_back (n := (e.nHeight - height).toNat) hik hi (by omega)
  have hheight : hl.forest.height a = height := by
    change (map.nHeight a).toNat = height
    rw [nHeight_eq ha]
    omega
  rw [hl.getAncestor_eq hik hi (Int.natCast_nonneg height) hle, hback,
    RankedForest.ancestorAt_eq_some.mpr ⟨hl.back_mem_branch hback, hheight⟩]

end SkipList

open SkipList in
theorem skip_list_ancestors {map : Index} (h : Built map) :
    (∀ hash hashPrevBlock, hash ≠ hashPrevBlock →
      ∃ map', map.addToBlockIndex hash hashPrevBlock = some map') ∧
    ∀ (p : Nat) (e : Entry), map[p]? = some e → ∀ height : Int,
      (0 ≤ height → height ≤ e.nHeight → ∃ a, map.back (e.nHeight - height).toNat p = some a ∧
        map.getAncestor p height = some (.found (some a))) ∧
      (height < 0 ∨ e.nHeight < height → map.getAncestor p height = some (.found none)) := by
  have hl := h.linked
  refine ⟨fun hash hashPrevBlock hne => ?_, fun p e hp height => ⟨fun hlow hle => ?_, fun hout => ?_⟩⟩
  · obtain ⟨map', hmap', -⟩ := hl.addToBlockIndex hne
    exact ⟨map', hmap'⟩
  · have hpk := (List.getElem?_eq_some_iff.mp hp).1
    obtain ⟨a, -, hback, -⟩ := hl.exists_back (n := (e.nHeight - height).toNat) hpk hp (by omega)
    refine ⟨a, hback, ?_⟩
    rw [hl.getAncestor_eq hpk hp hlow hle, hback]
  · rw [Index.getAncestor, nHeight_eq hp, if_pos (by omega)]

open SkipList in
theorem skip_list_ancestors_fork : ∃ map : Index, Built map ∧ map.length = 5 ∧
    ∃ a, map.back 2 4 = some a ∧ map.getAncestor 4 0 = some (.found (some a)) := by
  have h1 : Built [⟨1, none, none, 0⟩] :=
    @Built.add _ _ 1 0 Built.empty (by decide) (by decide)
  have h2 : Built [⟨1, none, none, 0⟩, ⟨2, some 0, some 0, 1⟩] :=
    @Built.add _ _ 2 1 h1 (by decide) (by decide)
  have h3 : Built [⟨1, none, none, 0⟩, ⟨2, some 0, some 0, 1⟩, ⟨3, some 1, some 0, 2⟩] :=
    @Built.add _ _ 3 2 h2 (by decide) (by decide)
  have h4 : Built [⟨1, none, none, 0⟩, ⟨2, some 0, some 0, 1⟩, ⟨3, some 1, some 0, 2⟩,
      ⟨4, some 2, some 1, 3⟩] :=
    @Built.add _ _ 4 3 h3 (by decide) (by decide)
  have h5 : Built [⟨1, none, none, 0⟩, ⟨2, some 0, some 0, 1⟩, ⟨3, some 1, some 0, 2⟩,
      ⟨4, some 2, some 1, 3⟩, ⟨5, some 1, some 0, 2⟩] :=
    @Built.add _ _ 5 2 h4 (by decide) (by decide)
  exact ⟨_, h5, rfl, ((skip_list_ancestors h5).2 4 _ rfl 0).1 (by decide) (by decide)⟩

end AnkerNode
