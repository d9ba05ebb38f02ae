import AnkerNode.Lib.Checks
import Mathlib.Data.List.Nodup
import Mathlib.Data.List.Sort
import Mathlib.Data.Prod.Basic
import Std.Data.TreeMap.Lemmas

namespace AnkerNode

open Checks
open Std (TreeMap TransOrd LawfulEqOrd)

-- `emptyBegin`: `rmap.begin()` is read when `rmap` is empty.
inductive LimitedMapFault
  | emptyBegin
  | assertion
deriving DecidableEq, Repr

-- An iterator of `map` is the key it stands at.
structure LimitedMap (K V : Type) [Ord K] where
  map : TreeMap K V := ∅
  rmap : List (V × K) := []
  nMaxSize : Nat := 0

inductive LimitedMapOp (K V : Type)
  | insert (k : K) (v : V)
  | erase (k : K)
  | update (k : K) (v : V)
  | maxSize (s : Nat)

namespace LimitedMap

variable {K V : Type} [Ord K] [DecidableEq K] [LinearOrder V]

-- `std::multimap` puts a new entry behind all that have its value.
def rinsert (it : V × K) (rmap : List (V × K)) : List (V × K) :=
  rmap.orderedInsert (fun a b => a.1 < b.1) it

def evict (m : LimitedMap K V) : Except LimitedMapFault (LimitedMap K V) :=
  match m.rmap with
  | [] => .error .emptyBegin
  | it :: rest => .ok { m with map := m.map.erase it.2, rmap := rest }

def insert (m : LimitedMap K V) (k : K) (v : V) : Except LimitedMapFault (LimitedMap K V) :=
  match m.map[k]? with
  | some _ => .ok m
  | none => do
    let m := { m with map := m.map.insert k v }
    let m ← if m.nMaxSize ≠ 0 ∧ m.map.size = m.nMaxSize then m.evict else .ok m
    .ok { m with rmap := rinsert (v, k) m.rmap }

def erase (m : LimitedMap K V) (k : K) : Except LimitedMapFault (LimitedMap K V) :=
  match m.map[k]? with
  | none => .ok m
  | some v =>
    if (v, k) ∈ m.rmap then .ok { m with map := m.map.erase k, rmap := m.rmap.erase (v, k) }
    else .error .assertion

def update (m : LimitedMap K V) (k : K) (v : V) : Except LimitedMapFault (LimitedMap K V) :=
  match m.map[k]? with
  | none => .ok m
  | some old =>
    if (old, k) ∈ m.rmap then
      .ok { m with map := m.map.insert k v, rmap := rinsert (v, k) (m.rmap.erase (old, k)) }
    else .error .assertion

-- the loop of `max_size`, as often as there are entries
def shrink (s : Nat) : Nat → LimitedMap K V → Except LimitedMapFault (LimitedMap K V)
  | 0, m => .ok m
  | fuel + 1, m =>
    if s < m.map.size then do
      let m ← m.evict
      shrink s fuel m
    else .ok m

def maxSize (m : LimitedMap K V) (s : Nat) : Except LimitedMapFault (LimitedMap K V) := do
  let m ← if s ≠ 0 then shrink s m.map.size m else .ok m
  .ok { m with nMaxSize := s }

def apply (m : LimitedMap K V) : LimitedMapOp K V → Except LimitedMapFault (LimitedMap K V)
  | .insert k v => m.insert k v
  | .erase k => m.erase k
  | .update k v => m.update k v
  | .maxSize s => m.maxSize s

def run (m : LimitedMap K V) (ops : List (LimitedMapOp K V)) :
    Except LimitedMapFault (LimitedMap K V) :=
  ops.foldlM apply m

-- each entry of `map` once in `rmap`, in the order of the values
structure Mirrors (m : LimitedMap K V) : Prop where
  mem_iff : ∀ v k, (v, k) ∈ m.rmap ↔ m.map[k]? = some v
  nodup : m.rmap.Nodup
  sorted : m.rmap.Pairwise fun a b => a.1 ≤ b.1

omit [Ord K] [DecidableEq K] in
theorem mem_rinsert {it it' : V × K} {rmap : List (V × K)} :
    it' ∈ rinsert it rmap ↔ it' = it ∨ it' ∈ rmap := by
  rw [rinsert, (List.perm_orderedInsert _ it rmap).mem_iff, List.mem_cons]

omit [Ord K] [DecidableEq K] in
theorem nodup_rinsert {it : V × K} {rmap : List (V × K)} (h : rmap.Nodup) (hnew : it ∉ rmap) :
    (rinsert it rmap).Nodup := by
  rw [rinsert, (List.perm_orderedInsert _ it rmap).nodup_iff]
  exact List.nodup_cons.mpr ⟨hnew, h⟩

omit [Ord K] [DecidableEq K] in
theorem sorted_rinsert {it : V × K} {rmap : List (V × K)}
    (h : rmap.Pairwise fun a b => a.1 ≤ b.1) :
    (rinsert it rmap).Pairwise fun a b => a.1 ≤ b.1 := by
  induction rmap with
  | nil => simp [rinsert]
  | cons it' rmap ih =>
    obtain ⟨hfirst, hrest⟩ := List.pairwise_cons.mp h
    rw [rinsert, List.orderedInsert_cons]
    by_cases hlt : it.1 < it'.1
    · rw [if_pos hlt]
      refine List.pairwise_cons.mpr ⟨List.forall_mem_cons.mpr ⟨hlt.le, ?_⟩, h⟩
      exact fun b hb => hlt.le.trans (hfirst b hb)
    · rw [if_neg hlt]
      refine List.pairwise_cons.mpr ⟨fun b hb => ?_, ih hrest⟩
      rcases mem_rinsert.mp hb with rfl | hb
      · exact not_lt.mp hlt
      · exact hfirst b hb

variable [TransOrd K] [LawfulEqOrd K] {m m' : LimitedMap K V} {k : K} {v : V}

omit [DecidableEq K] [LawfulEqOrd K] in
theorem mirrors_empty (nMaxSize : Nat) :
    Mirrors ({ nMaxSize := nMaxSize } : LimitedMap K V) := by
  refine ⟨?_, List.nodup_nil, List.Pairwise.nil⟩
  simp

omit [DecidableEq K] in
theorem Mirrors.length (h : Mirrors m) : m.rmap.length = m.map.size := by
  have hswap : Function.Injective (Prod.swap : K × V → V × K) := Prod.swap_injective
  have hnodup : (m.map.toList.map Prod.swap).Nodup := by
    refine List.Nodup.map hswap ?_
    exact TreeMap.distinct_keys_toList.imp fun hne heq => hne (by simp [heq])
  have hperm : m.rmap.Perm (m.map.toList.map Prod.swap) := by
    refine (List.perm_ext_iff_of_nodup h.nodup hnodup).mpr fun it => ?_
    obtain ⟨v, k⟩ := it
    rw [h.mem_iff, ← TreeMap.mem_toList_iff_getElem?_eq_some, List.mem_map]
    constructor
    · exact fun hmem => ⟨(k, v), hmem, rfl⟩
    · rintro ⟨⟨k', v'⟩, hmem, heq⟩
      obtain ⟨rfl, rfl⟩ := Prod.mk.inj heq
      exact hmem
  rw [hperm.length_eq, List.length_map, TreeMap.length_toList]

-- a new entry in both
theorem Mirrors.push (h : Mirrors m) (hnew : m.map[k]? = none) (nMaxSize : Nat) :
    Mirrors { map := m.map.insert k v, rmap := rinsert (v, k) m.rmap, nMaxSize := nMaxSize } := by
  have habsent : ∀ v', (v', k) ∉ m.rmap := by
    intro v' hmem
    rw [h.mem_iff, hnew] at hmem
    cases hmem
  refine ⟨?_, nodup_rinsert h.nodup (habsent v), sorted_rinsert h.sorted⟩
  intro v' k'
  rw [mem_rinsert, TreeMap.getElem?_insert]
  by_cases hk : k = k'
  · subst hk
    simp [habsent v', eq_comm]
  · simp only [Prod.mk.injEq, LawfulEqOrd.compare_eq_iff_eq, hk, if_false, Ne.symm hk, and_false,
      false_or]
    exact h.mem_iff v' k'

-- an entry of both removed from both
theorem Mirrors.drop (h : Mirrors m) (hentry : (v, k) ∈ m.rmap) (nMaxSize : Nat) :
    Mirrors { map := m.map.erase k, rmap := m.rmap.erase (v, k), nMaxSize := nMaxSize } := by
  refine ⟨?_, h.nodup.erase _, h.sorted.sublist List.erase_sublist⟩
  intro v' k'
  rw [h.nodup.mem_erase_iff, TreeMap.getElem?_erase]
  by_cases hk : k = k'
  · subst hk
    simp only [LawfulEqOrd.compare_eq_iff_eq, if_true, reduceCtorEq, iff_false, not_and]
    intro hne hmem
    rw [h.mem_iff, (h.mem_iff v k).mp hentry, Option.some.injEq] at hmem
    exact hne (by rw [hmem])
  · simp only [LawfulEqOrd.compare_eq_iff_eq, hk, if_false, ne_eq, Prod.mk.injEq, Ne.symm hk,
      and_false, not_false_eq_true, true_and]
    exact h.mem_iff v' k'

omit [DecidableEq K] [TransOrd K] [LawfulEqOrd K] in
theorem Mirrors.congr {map : TreeMap K V} (h : Mirrors m) (nMaxSize : Nat)
    (hmap : ∀ k : K, map[k]? = m.map[k]?) :
    Mirrors { map := map, rmap := m.rmap, nMaxSize := nMaxSize } :=
  ⟨fun v k => by rw [h.mem_iff, hmap], h.nodup, h.sorted⟩

-- The one step that reads `rmap.begin()` of an empty `rmap`: a first entry where only one is
-- allowed.
def Starves (m : LimitedMap K V) : LimitedMapOp K V → Prop
  | .insert _ _ => m.nMaxSize = 1 ∧ m.map.size = 0
  | _ => False

theorem Mirrors.evict (h : Mirrors m) (hsize : 0 < m.map.size) :
    ∃ it rest, m.rmap = it :: rest ∧
      m.evict = .ok { m with map := m.map.erase it.2, rmap := rest } ∧
      Mirrors { m with map := m.map.erase it.2, rmap := rest } := by
  cases hrmap : m.rmap with
  | nil =>
    rw [← h.length, hrmap] at hsize
    cases hsize
  | cons it rest =>
    have hdrop := h.drop (v := it.1) (k := it.2) (by simp [hrmap]) m.nMaxSize
    rw [hrmap, List.erase_cons_head] at hdrop
    exact ⟨it, rest, rfl, by rw [LimitedMap.evict, hrmap], hdrop⟩

omit [DecidableEq K] [LinearOrder V] [LawfulEqOrd K] in
theorem size_insert_of_new (hnew : m.map[k]? = none) :
    (m.map.insert k v).size = m.map.size + 1 := by
  rw [TreeMap.size_insert, if_neg]
  simp [TreeMap.contains_eq_isSome_getElem?, hnew]

-- the limit is reached when a new entry is in `map`
def Full (m : LimitedMap K V) : Prop := m.nMaxSize ≠ 0 ∧ m.map.size + 1 = m.nMaxSize

theorem insert_free (h : Mirrors m) (hnew : m.map[k]? = none) (v : V) (hfree : ¬Full m) :
    ∃ m', m.insert k v = .ok m' ∧ Mirrors m' ∧ m'.map = m.map.insert k v ∧
      m'.nMaxSize = m.nMaxSize := by
  refine ⟨_, ?_, h.push hnew m.nMaxSize, rfl, rfl⟩
  rw [insert, hnew]
  simp only [size_insert_of_new hnew]
  exact if_neg hfree

theorem insert_full (h : Mirrors m) (hnew : m.map[k]? = none) (v : V) (hfull : Full m)
    (hsome : 0 < m.map.size) :
    ∃ m', m.insert k v = .ok m' ∧ Mirrors m' ∧ m'.map.size = m.map.size ∧
      m'.nMaxSize = m.nMaxSize := by
  obtain ⟨it, rest, hrmap, -, hdrop⟩ := h.evict hsome
  have hold : m.map[it.2]? = some it.1 := (h.mem_iff it.1 it.2).mp (by simp [hrmap])
  have hne : it.2 ≠ k := by
    intro heq
    rw [heq, hnew] at hold
    cases hold
  have hnew' : (m.map.erase it.2)[k]? = none := by
    rw [TreeMap.getElem?_erase, hnew, ite_self]
  have hmap : ∀ k' : K, ((m.map.insert k v).erase it.2)[k']? =
      ((m.map.erase it.2).insert k v)[k']? := by
    intro k'
    simp only [TreeMap.getElem?_erase, TreeMap.getElem?_insert, LawfulEqOrd.compare_eq_iff_eq]
    by_cases hk : k = k'
    · simp [← hk, hne]
    · simp [hk]
  have hmirrors := (hdrop.push (v := v) hnew' m.nMaxSize).congr m.nMaxSize hmap
  refine ⟨_, ?_, hmirrors, ?_, rfl⟩
  · rw [insert, hnew]
    simp only [size_insert_of_new hnew]
    refine (if_pos hfull).trans ?_
    simp only [LimitedMap.evict, hrmap]
    rfl
  · rw [← hmirrors.length, ← h.length, hrmap, rinsert, List.orderedInsert_length,
      List.length_cons]

omit [DecidableEq K] in
theorem insert_starves (h : Mirrors m) (hstarves : Starves m (.insert k v)) :
    m.insert k v = .error .emptyBegin := by
  obtain ⟨hone, hzero⟩ := hstarves
  have hrmap : m.rmap = [] := by
    rw [← List.length_eq_zero_iff, h.length, hzero]
  have hnew : m.map[k]? = none := by
    rw [Option.eq_none_iff_forall_ne_some]
    intro v' hentry
    rw [← h.mem_iff, hrmap] at hentry
    cases hentry
  have hfull : Full m := ⟨by omega, by omega⟩
  rw [insert, hnew]
  simp only [size_insert_of_new hnew]
  refine (if_pos hfull).trans ?_
  simp only [LimitedMap.evict, hrmap]
  rfl

theorem erase_spec (h : Mirrors m) (k : K) : ∃ m', m.erase k = .ok m' ∧ Mirrors m' := by
  rw [erase]
  cases hentry : m.map[k]? with
  | none => exact ⟨m, rfl, h⟩
  | some v =>
    have hmem := (h.mem_iff v k).mpr hentry
    exact ⟨_, if_pos hmem, h.drop hmem m.nMaxSize⟩

theorem update_spec (h : Mirrors m) (k : K) (v : V) : ∃ m', m.update k v = .ok m' ∧ Mirrors m' := by
  rw [update]
  cases hentry : m.map[k]? with
  | none => exact ⟨m, rfl, h⟩
  | some old =>
    have hmem := (h.mem_iff old k).mpr hentry
    have herased : (m.map.erase k)[k]? = none := TreeMap.getElem?_erase_self
    have hmap : ∀ k' : K, (m.map.insert k v)[k']? = ((m.map.erase k).insert k v)[k']? := by
      intro k'
      simp only [TreeMap.getElem?_erase, TreeMap.getElem?_insert, LawfulEqOrd.compare_eq_iff_eq]
      by_cases hk : k = k'
      · simp [hk]
      · simp [hk]
    have hdrop := h.drop hmem m.nMaxSize
    have hmirrors := (hdrop.push (v := v) herased m.nMaxSize).congr m.nMaxSize hmap
    exact ⟨_, if_pos hmem, hmirrors⟩

theorem shrink_spec (s : Nat) {fuel : Nat} (h : Mirrors m) (hfuel : m.map.size ≤ s + fuel) :
    ∃ m', shrink s fuel m = .ok m' ∧ Mirrors m' ∧ m'.map.size = min s m.map.size := by
  induction fuel generalizing m with
  | zero => exact ⟨m, rfl, h, by omega⟩
  | succ fuel ih =>
    rw [shrink]
    by_cases hlarge : s < m.map.size
    · obtain ⟨it, rest, hrmap, hevict, hdrop⟩ := h.evict (by omega)
      have hsize : (m.map.erase it.2).size + 1 = m.map.size := by
        rw [← h.length, ← hdrop.length, hrmap, List.length_cons]
      obtain ⟨m', hm', hmirrors, hmin⟩ := ih hdrop (by
        change (m.map.erase it.2).size ≤ s + fuel
        omega)
      refine ⟨m', ?_, hmirrors, ?_⟩
      · rw [if_pos hlarge]
        exact bind_eq_ok.mpr ⟨_, hevict, hm'⟩
      · rw [hmin]
        change min s (m.map.erase it.2).size = min s m.map.size
        omega
    · rw [if_neg hlarge]
      exact ⟨m, rfl, h, by omega⟩

theorem maxSize_spec (h : Mirrors m) (s : Nat) : ∃ m', m.maxSize s = .ok m' ∧ Mirrors m' := by
  rw [maxSize]
  split
  · obtain ⟨m', hm', hmirrors, -⟩ := shrink_spec s h (Nat.le_add_left m.map.size s)
    exact ⟨_, bind_eq_ok.mpr ⟨m', hm', rfl⟩, hmirrors.congr s fun _ => rfl⟩
  · exact ⟨_, rfl, h.congr s fun _ => rfl⟩

theorem insert_spec (h : Mirrors m) (k : K) (v : V) (hroom : ¬Starves m (.insert k v)) :
    ∃ m', m.insert k v = .ok m' ∧ Mirrors m' := by
  cases hentry : m.map[k]? with
  | some old => exact ⟨m, by rw [insert, hentry], h⟩
  | none =>
    by_cases hfull : Full m
    · have hsome : 0 < m.map.size := by
        rw [Nat.pos_iff_ne_zero]
        intro hzero
        exact hroom ⟨by have hlimit := hfull.2; omega, hzero⟩
      obtain ⟨m', hm', hmirrors, -⟩ := insert_full h hentry v hfull hsome
      exact ⟨m', hm', hmirrors⟩
    · obtain ⟨m', hm', hmirrors, -⟩ := insert_free h hentry v hfull
      exact ⟨m', hm', hmirrors⟩

theorem apply_spec (h : Mirrors m) (op : LimitedMapOp K V) :
    (Starves m op ∧ apply m op = .error .emptyBegin) ∨
      ¬Starves m op ∧ ∃ m', apply m op = .ok m' ∧ Mirrors m' := by
  cases op with
  | insert k v =>
    by_cases hstarves : Starves m (.insert k v)
    · exact .inl ⟨hstarves, insert_starves h hstarves⟩
    · exact .inr ⟨hstarves, insert_spec h k v hstarves⟩
  | erase k => exact .inr ⟨fun hstarves => hstarves, erase_spec h k⟩
  | update k v => exact .inr ⟨fun hstarves => hstarves, update_spec h k v⟩
  | maxSize s => exact .inr ⟨fun hstarves => hstarves, maxSize_spec h s⟩

-- no step of the run starves
def Fed (m : LimitedMap K V) : List (LimitedMapOp K V) → Prop
  | [] => True
  | op :: ops => ¬Starves m op ∧ ∀ m', apply m op = .ok m' → Fed m' ops

theorem run_spec (h : Mirrors m) (ops : List (LimitedMapOp K V)) :
    (¬Fed m ops ∧ run m ops = .error .emptyBegin) ∨
      Fed m ops ∧ ∃ m', run m ops = .ok m' ∧ Mirrors m' := by
  induction ops generalizing m with
  | nil => exact .inr ⟨trivial, m, rfl, h⟩
  | cons op ops ih =>
    rw [run, List.foldlM_cons, Fed]
    rcases apply_spec h op with ⟨hstarves, hfault⟩ | ⟨hroom, m', hm', hmirrors⟩
    · refine .inl ⟨fun hfed => hfed.1 hstarves, ?_⟩
      rw [hfault]
      rfl
    · rw [hm']
      rcases ih hmirrors with ⟨hnot, hfault⟩ | ⟨hfed, hrest⟩
      · exact .inl ⟨fun hfed => hnot (hfed.2 m' rfl), hfault⟩
      · exact .inr ⟨⟨hroom, fun m'' heq => by rw [← Except.ok.inj heq]; exact hfed⟩, hrest⟩

def inserts (xs : List (K × V)) : List (LimitedMapOp K V) := xs.map fun x => .insert x.1 x.2

-- the elements with the highest values, as many of them as are allowed
structure KeepsHighest (nMaxSize : Nat) (xs : List (K × V)) (m : LimitedMap K V) : Prop where
  size : m.map.size = min nMaxSize xs.length
  mem : ∀ (k : K) v, m.map[k]? = some v → (k, v) ∈ xs
  highest : ∀ (k : K) v k' v', m.map[k]? = some v → (k', v') ∈ xs → m.map[k']? = none → v' ≤ v

theorem run_inserts_lt {xs : List (K × V)} (h : Mirrors m) (hlt : m.map.size < m.nMaxSize)
    (hrun : run m (inserts xs) = .ok m') : m'.map.size < m.nMaxSize := by
  induction xs generalizing m with
  | nil => rwa [← Except.ok.inj hrun]
  | cons x xs ih =>
    obtain ⟨k, v⟩ := x
    rw [inserts, List.map_cons, run, List.foldlM_cons] at hrun
    obtain ⟨m₁, hm₁, hrest⟩ := bind_eq_ok.mp hrun
    have hstep : Mirrors m₁ ∧ m₁.map.size < m₁.nMaxSize ∧ m₁.nMaxSize = m.nMaxSize := by
      change m.insert k v = .ok m₁ at hm₁
      cases hentry : m.map[k]? with
      | some old =>
        rw [insert, hentry] at hm₁
        obtain rfl := Except.ok.inj hm₁
        exact ⟨h, hlt, rfl⟩
      | none =>
        by_cases hfull : Full m
        · by_cases hsome : 0 < m.map.size
          · obtain ⟨m₂, hm₂, hmirrors, hsize, hmax⟩ := insert_full h hentry v hfull hsome
            obtain rfl : m₁ = m₂ := Except.ok.inj (hm₁.symm.trans hm₂)
            exact ⟨hmirrors, by omega, hmax⟩
          · have hstarves : Starves m (.insert k v) := ⟨by have hlimit := hfull.2; omega, by omega⟩
            rw [insert_starves h hstarves] at hm₁
            cases hm₁
        · obtain ⟨m₂, hm₂, hmirrors, hmap, hmax⟩ := insert_free h hentry v hfull
          obtain rfl : m₁ = m₂ := Except.ok.inj (hm₁.symm.trans hm₂)
          have hsize := size_insert_of_new (v := v) hentry
          rw [Full, not_and] at hfull
          have hnext := hfull (by omega)
          rw [← hmap] at hsize
          exact ⟨hmirrors, by omega, hmax⟩
    rw [← hstep.2.2]
    exact ih hstep.1 hstep.2.1 hrest

theorem run_inserts_free {xs : List (K × V)} (h : Mirrors m) (hkeys : (xs.map Prod.fst).Nodup)
    (hnew : ∀ x ∈ xs, m.map[x.1]? = none) (hroom : m.map.size + xs.length < m.nMaxSize) :
    ∃ m', run m (inserts xs) = .ok m' ∧ m'.map.size = m.map.size + xs.length ∧
      ∀ (k : K) v, m'.map[k]? = some v ↔ m.map[k]? = some v ∨ (k, v) ∈ xs := by
  induction xs generalizing m with
  | nil => exact ⟨m, rfl, rfl, by simp⟩
  | cons x xs ih =>
    obtain ⟨k, v⟩ := x
    rw [List.forall_mem_cons] at hnew
    rw [List.map_cons, List.nodup_cons] at hkeys
    rw [List.length_cons] at hroom ⊢
    have hfree : ¬Full m := fun hfull => by
      have hlimit := hfull.2
      omega
    obtain ⟨m₁, hm₁, hmirrors, hmap, hmax⟩ := insert_free h hnew.1 v hfree
    have hsize : m₁.map.size = m.map.size + 1 := by
      rw [hmap, size_insert_of_new hnew.1]
    have hrest : ∀ x ∈ xs, m₁.map[x.1]? = none := by
      intro x hx
      rw [hmap, TreeMap.getElem?_insert, if_neg]
      · exact hnew.2 x hx
      · rw [LawfulEqOrd.compare_eq_iff_eq]
        intro heq
        exact hkeys.1 (List.mem_map.mpr ⟨x, hx, heq.symm⟩)
    obtain ⟨m', hm', hsize', hentries⟩ := ih hmirrors hkeys.2 hrest (by omega)
    refine ⟨m', ?_, by omega, ?_⟩
    · rw [inserts, List.map_cons, run, List.foldlM_cons]
      exact bind_eq_ok.mpr ⟨m₁, hm₁, hm'⟩
    · intro k' v'
      rw [hentries, hmap, TreeMap.getElem?_insert, List.mem_cons, Prod.mk.injEq]
      by_cases hk : k = k'
      · subst hk
        have hnone : m.map[k]? = none := hnew.1
        simp [hnone, eq_comm]
      · simp [hk, Ne.symm hk]

theorem keepsHighest_iff {nMaxSize : Nat} {xs : List (K × V)} (hpos : 0 < nMaxSize)
    (hkeys : (xs.map Prod.fst).Nodup) :
    (∃ m, run { nMaxSize := nMaxSize } (inserts xs) = .ok m ∧ KeepsHighest nMaxSize xs m) ↔
      xs.length < nMaxSize := by
  have hempty := mirrors_empty (K := K) (V := V) nMaxSize
  constructor
  · rintro ⟨m, hm, hkeeps⟩
    have hlt := run_inserts_lt hempty (by simpa using hpos) hm
    have hsize := hkeeps.size
    simp only at hlt
    omega
  · intro hlt
    obtain ⟨m, hm, hsize, hentries⟩ := run_inserts_free hempty hkeys (by simp) (by simpa using hlt)
    refine ⟨m, hm, ?_, ?_, ?_⟩
    · rw [hsize, min_eq_right hlt.le]
      simp
    · intro k v hentry
      simpa using (hentries k v).mp hentry
    · intro k v k' v' _ hmem hnone
      rw [(hentries k' v').mpr (.inr hmem)] at hnone
      cases hnone

end LimitedMap

open LimitedMap in
theorem limitedmap_promise {K V : Type} [Ord K] [DecidableEq K] [LinearOrder V] [TransOrd K]
    [LawfulEqOrd K] :
    (∀ (nMaxSize : Nat) (ops : List (LimitedMapOp K V)),
      (∀ m, LimitedMap.run { nMaxSize := nMaxSize } ops = .ok m → Mirrors m) ∧
      LimitedMap.run { nMaxSize := nMaxSize } ops ≠ .error .assertion ∧
      (LimitedMap.run { nMaxSize := nMaxSize } ops ≠ .error .emptyBegin ↔
        Fed { nMaxSize := nMaxSize } ops)) ∧
    ∀ (nMaxSize : Nat) (xs : List (K × V)), 0 < nMaxSize → (xs.map Prod.fst).Nodup →
      ((∃ m, LimitedMap.run { nMaxSize := nMaxSize } (inserts xs) = .ok m ∧
          KeepsHighest nMaxSize xs m) ↔ xs.length < nMaxSize) := by
  refine ⟨?_, fun nMaxSize xs hpos hkeys => keepsHighest_iff hpos hkeys⟩
  intro nMaxSize ops
  rcases LimitedMap.run_spec (mirrors_empty nMaxSize) ops with
    ⟨hnot, hfault⟩ | ⟨hfed, m', hm', hmirrors⟩
  · rw [hfault]
    exact ⟨by simp, by simp, iff_of_false (by simp) hnot⟩
  · rw [hm']
    exact ⟨fun m heq => by rw [← Except.ok.inj heq]; exact hmirrors, by simp,
      iff_of_true (by simp) hfed⟩

theorem limitedmap_promise_three :
    ∃ m : LimitedMap Nat Int, LimitedMap.run { nMaxSize := 3 }
      (LimitedMap.inserts [(1, 10), (2, 5)]) = .ok m ∧
        LimitedMap.KeepsHighest 3 [(1, 10), (2, 5)] m :=
  (limitedmap_promise.2 3 [(1, 10), (2, 5)] (by decide) (by decide)).mpr (by decide)

-- A map for one entry fails at the first; a map for two holds one of two.
theorem limitedmap_promise_broken :
    (LimitedMap.run { nMaxSize := 1 } [.insert 7 0] : Except _ (LimitedMap Nat Int)) =
        .error .emptyBegin ∧
      ∀ m : LimitedMap Nat Int, LimitedMap.run { nMaxSize := 2 }
        (LimitedMap.inserts [(1, 10), (2, 5)]) = .ok m →
          m.map.toList = [(2, 5)] ∧ ¬LimitedMap.KeepsHighest 2 [(1, 10), (2, 5)] m := by
  refine ⟨by rfl, ?_⟩
  intro m hm
  have hlist : (LimitedMap.run { nMaxSize := 2 } (LimitedMap.inserts [(1, 10), (2, 5)]) :
      Except _ (LimitedMap Nat Int)).map (fun m => m.map.toList) = .ok [(2, 5)] := by
    decide +kernel
  rw [hm] at hlist
  have hentries : m.map.toList = [(2, 5)] := Except.ok.inj hlist
  refine ⟨hentries, fun hkeeps => ?_⟩
  have hsize := hkeeps.size
  rw [← TreeMap.length_toList, hentries] at hsize
  simp at hsize

end AnkerNode
