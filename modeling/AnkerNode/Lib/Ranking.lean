import Mathlib.Algebra.Order.Ring.Int
import Mathlib.Data.List.Basic
import Mathlib.Data.List.Nodup
import Mathlib.Data.List.Perm.Basic
import Mathlib.Data.List.Sort

namespace Sorting

variable {α : Type} {lt : α → α → Bool} {xs ys xs' ys' : List α}

-- What a sort by `lt` may make of `xs`. The order of elements that `lt` does not tell apart
-- is left open.
structure SortsTo (lt : α → α → Bool) (xs ys : List α) : Prop where
  perm : ys.Perm xs
  ordered : ys.Pairwise fun a b => lt b a = false

theorem sortsTo_self (h : ∀ a ∈ xs, ∀ b ∈ xs, lt b a = false) : SortsTo lt xs xs :=
  ⟨.refl xs, List.pairwise_of_forall_mem_list h⟩

-- A sort, whatever it makes of elements that `lt` does not tell apart.
structure Sorter (lt : α → α → Bool) where
  sort : List α → List α
  sorts : ∀ xs, SortsTo lt xs (sort xs)

-- the sort of a range that is given by its reverse iterators
def Sorter.sortReversed (sorter : Sorter lt) (xs : List α) : List α :=
  (sorter.sort xs.reverse).reverse

theorem Sorter.sortsTo_reversed (sorter : Sorter lt) (xs : List α) :
    SortsTo (fun a b => lt b a) xs (sorter.sortReversed xs) := by
  have h := sorter.sorts xs.reverse
  refine ⟨?_, List.pairwise_reverse.mpr h.ordered⟩
  exact (List.reverse_perm _).trans (h.perm.trans (List.reverse_perm xs))

def insertionSorter (lt : α → α → Bool) (htotal : ∀ a b, lt b a = false ∨ lt a b = false)
    (htrans : ∀ a b c, lt b a = false → lt c b = false → lt c a = false) : Sorter lt where
  sort xs := xs.insertionSort fun a b => lt b a = false
  sorts xs := by
    have : IsTrans α fun a b => lt b a = false := ⟨htrans⟩
    have : Std.Total fun a b : α => lt b a = false := ⟨htotal⟩
    exact ⟨List.perm_insertionSort _ xs, List.pairwise_insertionSort _ xs⟩

end Sorting

namespace Ranking

open Sorting

variable {α K : Type} {key : α → K} {score : α → Int} {xs ys zs : List α} {a b : α}

def higher (score : α → Int) (a b : α) : Bool := decide (score b < score a)

theorem exists_stable (score : α → Int) (xs : List α) :
    ∃ ys, SortsTo (higher score) xs ys ∧
      ∀ a b, score b ≤ score a → [a, b].Sublist xs → [a, b].Sublist ys := by
  let le (a b : α) : Bool := decide (score b ≤ score a)
  have htrans : ∀ a b c : α, le a b → le b c → le a c := by
    intro a b c hab hbc
    simp only [le, decide_eq_true_eq] at hab hbc ⊢
    omega
  have htotal : ∀ a b : α, le a b || le b a := by
    intro a b
    simp only [le, Bool.or_eq_true, decide_eq_true_eq]
    omega
  refine ⟨xs.mergeSort le, ⟨List.mergeSort_perm xs le, ?_⟩, ?_⟩
  · refine (List.pairwise_mergeSort htrans htotal xs).imp ?_
    intro a b hab
    simp only [le, decide_eq_true_eq] at hab
    simpa [higher] using hab
  · intro a b hle hsub
    exact List.pair_sublist_mergeSort htrans htotal (by simpa [le] using hle) hsub

theorem exists_split (score : α → Int) (hkeys : (xs.map key).Nodup) (ha : a ∈ xs) (hb : b ∈ xs)
    (hne : key a ≠ key b) (hle : score b ≤ score a) :
    ∃ s t u, SortsTo (higher score) xs (s ++ a :: t ++ b :: u) := by
  obtain ⟨s, t, rfl⟩ := List.append_of_mem ha
  have hb' : b ∈ s ++ t := by
    rcases List.mem_append.mp hb with hb | hb
    · exact List.mem_append_left t hb
    · rcases List.mem_cons.mp hb with rfl | hb
      · exact absurd rfl hne
      · exact List.mem_append_right s hb
  obtain ⟨s', t', hsplit⟩ := List.append_of_mem hb'
  have hperm : (s ++ a :: t).Perm (a :: b :: (s' ++ t')) := by
    refine List.perm_middle.trans (List.Perm.cons a ?_)
    rw [hsplit]
    exact List.perm_middle
  obtain ⟨ys, hys, hstable⟩ := exists_stable score (a :: b :: (s' ++ t'))
  obtain ⟨r₁, r₂, rfl, har, hbr⟩ := List.cons_sublist_iff.mp (hstable a b hle (by simp))
  obtain ⟨s₁, t₁, rfl⟩ := List.append_of_mem har
  obtain ⟨s₂, t₂, rfl⟩ := List.append_of_mem (List.singleton_sublist.mp hbr)
  refine ⟨s₁, t₁ ++ s₂, t₂, ?_⟩
  have heq : s₁ ++ a :: (t₁ ++ s₂) ++ b :: t₂ = s₁ ++ a :: t₁ ++ (s₂ ++ b :: t₂) := by simp
  rw [heq]
  exact ⟨hys.perm.trans hperm.symm, hys.ordered⟩

theorem sortsTo_of_scores (h : SortsTo (higher score) xs ys) (hperm : zs.Perm xs)
    (hscores : zs.map score = ys.map score) : SortsTo (higher score) xs zs := by
  have hiff : ∀ l : List α, (l.Pairwise fun a b => higher score b a = false) ↔
      (l.map score).Pairwise fun m n => ¬m < n := by
    intro l
    rw [List.pairwise_map]
    simp only [higher, decide_eq_false_iff_not]
  refine ⟨hperm, ?_⟩
  rw [hiff, hscores, ← hiff]
  exact h.ordered

-- Two score lists put the same keys in the same strict order.
structure Agree (key : α → K) (score : α → Int) (xs ys : List α) : Prop where
  keys : ∀ k, k ∈ xs.map key ↔ k ∈ ys.map key
  ordered : ∀ a ∈ xs, ∀ b ∈ xs, ∀ a' ∈ ys, ∀ b' ∈ ys, key a = key a' → key b = key b' →
    key a ≠ key b →
    (score a < score b ∧ score a' < score b') ∨ (score b < score a ∧ score b' < score a')

theorem Agree.apart (h : Agree key score xs ys) (ha : a ∈ xs) (hb : b ∈ xs) (hne : key a ≠ key b) :
    score a < score b ∨ score b < score a := by
  obtain ⟨a', ha', hkey⟩ := List.mem_map.mp ((h.keys (key a)).mp (List.mem_map_of_mem ha))
  obtain ⟨b', hb', hkey'⟩ := List.mem_map.mp ((h.keys (key b)).mp (List.mem_map_of_mem hb))
  rcases h.ordered a ha b hb a' ha' b' hb' hkey.symm hkey'.symm hne with hlt | hlt
  · exact .inl hlt.1
  · exact .inr hlt.1

theorem Agree.map_eq {xs' ys' : List α} (h : Agree key score xs ys) (hxs : (xs.map key).Nodup)
    (hys : (ys.map key).Nodup) (hx : SortsTo (higher score) xs xs')
    (hy : SortsTo (higher score) ys ys') : xs'.map key = ys'.map key := by
  have hperm : (xs'.map key).Perm (ys'.map key) :=
    (hx.perm.map key).trans
      (((List.perm_ext_iff_of_nodup hxs hys).mpr h.keys).trans (hy.perm.map key).symm)
  -- the order of the keys by their scores in `xs`
  let before (k k' : K) : Prop :=
    ∀ a ∈ xs, ∀ b ∈ xs, key a = k → key b = k' → k ≠ k' → score b < score a
  have hbefore : (xs'.map key).Pairwise before := by
    refine List.pairwise_map.mpr (hx.ordered.imp_of_mem ?_)
    intro c d hc hd hnot a ha b hb hkey hkey' hne
    have hac : a = c := List.inj_on_of_nodup_map hxs ha (hx.perm.subset hc) hkey
    have hbd : b = d := List.inj_on_of_nodup_map hxs hb (hx.perm.subset hd) hkey'
    subst hac hbd
    simp only [higher, decide_eq_false_iff_not] at hnot
    rcases h.apart ha hb hne with hlt | hlt
    · exact absurd hlt hnot
    · exact hlt
  have hbefore' : (ys'.map key).Pairwise before := by
    refine List.pairwise_map.mpr (hy.ordered.imp_of_mem ?_)
    intro c d hc hd hnot a ha b hb hkey hkey' hne
    simp only [higher, decide_eq_false_iff_not] at hnot
    rcases h.ordered a ha b hb c (hy.perm.subset hc) d (hy.perm.subset hd) hkey hkey'
      (by rwa [hkey, hkey']) with hlt | hlt
    · exact absurd hlt.2 hnot
    · exact hlt.1
  refine hperm.eq_of_pairwise ?_ hbefore hbefore'
  intro k k' hk hk' hkk' hk'k
  by_contra hne
  obtain ⟨a, ha, rfl⟩ := List.mem_map.mp hk
  obtain ⟨b', hb', rfl⟩ := List.mem_map.mp hk'
  obtain ⟨b, hb, hkey⟩ := List.mem_map.mp
    ((h.keys (key b')).mpr (List.mem_map_of_mem (hy.perm.subset hb')))
  have hlt := hkk' a (hx.perm.subset ha) b hb rfl hkey hne
  have hlt' := hk'k b hb a (hx.perm.subset ha) hkey rfl (Ne.symm hne)
  omega

theorem countP_eq_iff_of_sublist {p : α → Bool} (h : xs.Sublist zs) (hkeys : (zs.map key).Nodup) :
    xs.countP p = zs.countP p ↔ ∀ b ∈ zs, p b = true → key b ∈ xs.map key := by
  induction h with
  | slnil => simp
  | @cons xs zs c hsub ih =>
    rw [List.map_cons, List.nodup_cons] at hkeys
    have hle := hsub.countP_le (p := p)
    have hc : key c ∉ xs.map key := fun hmem => hkeys.1 ((hsub.map key).subset hmem)
    rw [List.forall_mem_cons, List.countP_cons, ← ih hkeys.2]
    split
    · rename_i hp
      constructor
      · intro heq
        omega
      · rintro ⟨hmem, -⟩
        exact absurd (hmem hp) hc
    · rename_i hp
      simp [hp]
  | @cons_cons xs zs c hsub ih =>
    rw [List.map_cons, List.nodup_cons] at hkeys
    rw [List.forall_mem_cons, List.countP_cons, List.countP_cons, Nat.add_right_cancel_iff,
      ih hkeys.2]
    constructor
    · intro h
      refine ⟨fun _ => by simp, ?_⟩
      intro b hb hp
      rw [List.map_cons]
      exact List.mem_cons_of_mem _ (h b hb hp)
    · rintro ⟨-, h⟩ b hb hp
      rcases List.mem_cons.mp (h b hb hp) with heq | hmem
      · exact absurd (heq ▸ List.mem_map_of_mem hb) hkeys.1
      · exact hmem

variable [DecidableEq K]

-- the place of a key in a list, counted from 0
def place (key : α → K) (ys : List α) (k : K) : Option Nat := ys.findIdx? fun y => key y == k

theorem place_append_cons {before after : List α} (h : ∀ y ∈ before, key y ≠ key a) :
    place key (before ++ a :: after) (key a) = some before.length := by
  have hnone : before.findIdx? (fun y => key y == key a) = none := by
    rw [List.findIdx?_eq_none_iff]
    intro y hy
    simpa using h y hy
  rw [place, List.findIdx?_append, hnone, List.findIdx?_cons]
  simp

theorem place_eq_none {k : K} : place key ys k = none ↔ k ∉ ys.map key := by
  rw [place, List.findIdx?_eq_none_iff]
  simp

theorem getElem_of_place {k : K} {i : Nat} (h : place key ys k = some i) :
    (ys[i]?).map key = some k := by
  obtain ⟨hlt, hkey, -⟩ := List.findIdx?_eq_some_iff_getElem.mp h
  rw [List.getElem?_eq_getElem hlt, Option.map_some]
  simpa using hkey

theorem place_of_getElem (hkeys : (ys.map key).Nodup) {k : K} {i : Nat}
    (h : (ys[i]?).map key = some k) : place key ys k = some i := by
  have hi : (ys.map key)[i]? = some k := by rw [List.getElem?_map, h]
  cases hplace : place key ys k with
  | none => exact absurd (List.mem_of_getElem? hi) (place_eq_none.mp hplace)
  | some j =>
    have hj : (ys.map key)[j]? = some k := by rw [List.getElem?_map, getElem_of_place hplace]
    obtain ⟨hlt, -⟩ := List.getElem?_eq_some_iff.mp hj
    rw [(List.getElem?_inj hlt hkeys).mp (hj.trans hi.symm)]

def Precedes (key : α → K) (ys : List α) (k k' : K) : Prop :=
  ∃ i j, place key ys k = some i ∧ place key ys k' = some j ∧ i < j

theorem Precedes.not_precedes {k k' : K} (h : Precedes key xs k k')
    (hplaces : ∀ k, place key xs k = place key ys k) : ¬Precedes key ys k' k := by
  rintro ⟨i', j', hi', hj', hlt'⟩
  obtain ⟨i, j, hi, hj, hlt⟩ := h
  rw [hplaces, hj'] at hi
  rw [hplaces, hi'] at hj
  have hij := Option.some.inj hi
  have hji := Option.some.inj hj
  omega

theorem precedes_of_append (hkeys : ((xs ++ ys).map key).Nodup) (ha : a ∈ xs) (hb : b ∈ ys) :
    Precedes key (xs ++ ys) (key a) (key b) := by
  obtain ⟨i, hi, rfl⟩ := List.getElem_of_mem ha
  obtain ⟨j, hj, rfl⟩ := List.getElem_of_mem hb
  refine ⟨i, xs.length + j, place_of_getElem hkeys ?_, place_of_getElem hkeys ?_, by omega⟩
  · rw [List.getElem?_append_left hi, List.getElem?_eq_getElem hi, Option.map_some]
  · rw [List.getElem?_append_right (by omega), Nat.add_sub_cancel_left,
      List.getElem?_eq_getElem hj, Option.map_some]

-- Of two elements with one score either may come first.
theorem exists_precedes (score : α → Int) (hkeys : (xs.map key).Nodup) (ha : a ∈ xs) (hb : b ∈ xs)
    (hne : key a ≠ key b) (hle : score b ≤ score a) :
    ∃ ys, SortsTo (higher score) xs ys ∧ Precedes key ys (key a) (key b) := by
  obtain ⟨s, t, u, hys⟩ := exists_split score hkeys ha hb hne hle
  have hnodup := (hys.perm.map key).nodup_iff.mpr hkeys
  exact ⟨_, hys, precedes_of_append hnodup (by simp) List.mem_cons_self⟩

theorem place_eq_of_map_eq (h : xs.map key = ys.map key) (k : K) :
    place key xs k = place key ys k := by
  have hplace : ∀ zs : List α, place key zs k = (zs.map key).findIdx? fun k' => k' == k := by
    intro zs
    rw [List.findIdx?_map]
    rfl
  rw [hplace, hplace, h]

theorem places_agree_iff (hxs : (xs.map key).Nodup) (hys : (ys.map key).Nodup) :
    (∀ xs' ys', SortsTo (higher score) xs xs' → SortsTo (higher score) ys ys' →
      ∀ k, place key xs' k = place key ys' k) ↔ Agree key score xs ys := by
  constructor
  · intro hplaces
    obtain ⟨xs', hx, -⟩ := exists_stable score xs
    obtain ⟨ys', hy, -⟩ := exists_stable score ys
    refine ⟨?_, ?_⟩
    · intro k
      have hiff : k ∉ xs.map key ↔ k ∉ ys.map key := by
        rw [← (hx.perm.map key).mem_iff, ← (hy.perm.map key).mem_iff, ← place_eq_none,
          ← place_eq_none, hplaces xs' ys' hx hy k]
      exact not_iff_not.mp hiff
    · intro a ha b hb a' ha' b' hb' hkey hkey' hne
      have hne' : key a' ≠ key b' := by rwa [← hkey, ← hkey']
      -- What may come first in one list may not come second in the other.
      have hcross : score b ≤ score a → score b' < score a' := by
        intro hle
        obtain ⟨zs, hz, hprec⟩ := exists_precedes score hxs ha hb hne hle
        by_contra hnot
        obtain ⟨zs', hz', hprec'⟩ := exists_precedes score hys hb' ha' hne'.symm (by omega)
        rw [← hkey, ← hkey'] at hprec'
        exact hprec.not_precedes (hplaces zs zs' hz hz') hprec'
      have hcross' : score a ≤ score b → score a' < score b' := by
        intro hle
        obtain ⟨zs, hz, hprec⟩ := exists_precedes score hxs hb ha hne.symm hle
        by_contra hnot
        obtain ⟨zs', hz', hprec'⟩ := exists_precedes score hys ha' hb' hne' (by omega)
        rw [← hkey, ← hkey'] at hprec'
        exact hprec.not_precedes (hplaces zs zs' hz hz') hprec'
      omega
  · intro hagree xs' ys' hx hy k
    exact place_eq_of_map_eq (hagree.map_eq hxs hys hx hy) k

theorem place_of_apart (h : SortsTo (higher score) xs ys) (hkeys : (xs.map key).Nodup)
    (ha : a ∈ xs) (hapart : ∀ b ∈ xs, key b ≠ key a → score b ≠ score a) :
    place key ys (key a) = some (xs.countP fun b => decide (score a < score b)) := by
  have hnodup : (ys.map key).Nodup := (h.perm.map key).nodup_iff.mpr hkeys
  obtain ⟨before, after, rfl⟩ := List.append_of_mem (h.perm.symm.subset ha)
  rw [List.map_append, List.map_cons, List.nodup_append, List.nodup_cons] at hnodup
  obtain ⟨-, ⟨hafter, -⟩, hbefore⟩ := hnodup
  have hordered := h.ordered
  simp only [List.pairwise_append, List.pairwise_cons, higher, decide_eq_false_iff_not] at hordered
  have hne : ∀ b ∈ before, key b ≠ key a := by
    intro b hb
    exact hbefore _ (List.mem_map_of_mem hb) _ List.mem_cons_self
  have hhigh : before.countP (fun b => decide (score a < score b)) = before.length := by
    rw [List.countP_eq_length]
    intro b hb
    have hnot := hordered.2.2 b hb a List.mem_cons_self
    have hscore := hapart b (h.perm.subset (by simp [hb])) (hne b hb)
    simp only [decide_eq_true_eq]
    omega
  have hlow : (a :: after).countP (fun b => decide (score a < score b)) = 0 := by
    rw [List.countP_eq_zero]
    intro b hb
    rcases List.mem_cons.mp hb with rfl | hb
    · simp
    · simpa using hordered.2.1.1 b hb
  rw [place_append_cons hne, ← h.perm.countP_eq, List.countP_append, hhigh, hlow, Nat.add_zero]

-- Two elements with one score may change places.
theorem exists_moved (hkeys : (xs.map key).Nodup) (ha : a ∈ xs) (hb : b ∈ xs)
    (hne : key a ≠ key b) (htied : score a = score b) :
    ∃ ys zs, SortsTo (higher score) xs ys ∧ SortsTo (higher score) xs zs ∧
      place key ys (key a) ≠ place key zs (key a) := by
  obtain ⟨s, t, u, hys⟩ := exists_split score hkeys ha hb hne htied.symm.le
  have hswap : (s ++ b :: t ++ a :: u).Perm (s ++ a :: t ++ b :: u) := by
    simp only [List.append_assoc, List.cons_append]
    refine List.Perm.append_left s ?_
    exact (List.perm_middle.cons b).trans ((List.Perm.swap a b _).trans (List.perm_middle.symm.cons a))
  have hzs := sortsTo_of_scores hys (hswap.trans hys.perm) (by simp [htied])
  refine ⟨_, _, hys, hzs, ?_⟩
  have hnodup := (hys.perm.map key).nodup_iff.mpr hkeys
  have hnodup' := (hzs.perm.map key).nodup_iff.mpr hkeys
  have hplace : place key (s ++ a :: t ++ b :: u) (key a) = some s.length :=
    place_of_getElem hnodup (by simp)
  have hplace' : place key (s ++ b :: t ++ a :: u) (key a) = some (s.length + (t.length + 1)) :=
    place_of_getElem hnodup' (by simp)
  rw [hplace, hplace']
  simp

theorem places_kept_iff (hsub : xs.Sublist zs) (hkeys : (zs.map key).Nodup) :
    (∀ xs' zs', SortsTo (higher score) xs xs' → SortsTo (higher score) zs zs' →
      ∀ k i, place key xs' k = some i → (zs'[i]?).map key = some k) ↔
    ∀ a ∈ xs, ∀ b ∈ zs, key b ≠ key a →
      score b ≠ score a ∧ (score a < score b → key b ∈ xs.map key) := by
  have hxkeys : (xs.map key).Nodup := hkeys.sublist (hsub.map key)
  constructor
  · intro hplaces a ha b hb hne
    obtain ⟨xs', hx, -⟩ := exists_stable score xs
    have hsome : ∃ i, place key xs' (key a) = some i := by
      cases hplace : place key xs' (key a) with
      | none =>
        exact absurd (List.mem_map_of_mem (hx.perm.symm.subset ha)) (place_eq_none.mp hplace)
      | some i => exact ⟨i, rfl⟩
    obtain ⟨i, hi⟩ := hsome
    have hfixed : ∀ zs', SortsTo (higher score) zs zs' → place key zs' (key a) = some i := by
      intro zs' hz
      exact place_of_getElem ((hz.perm.map key).nodup_iff.mpr hkeys) (hplaces xs' zs' hx hz _ i hi)
    have hapart : ∀ c ∈ zs, key c ≠ key a → score c ≠ score a := by
      intro c hc hne htied
      obtain ⟨ys, ys', hy, hy', hmoved⟩ :=
        exists_moved hkeys (hsub.subset ha) hc hne.symm htied.symm
      exact hmoved ((hfixed ys hy).trans (hfixed ys' hy').symm)
    refine ⟨hapart b hb hne, ?_⟩
    intro hlt
    obtain ⟨zs', hz, -⟩ := exists_stable score zs
    have hx' := place_of_apart hx hxkeys ha fun c hc => hapart c (hsub.subset hc)
    have hz' := place_of_apart hz hkeys (hsub.subset ha) hapart
    rw [hi] at hx'
    rw [hfixed zs' hz, hx', Option.some.injEq, countP_eq_iff_of_sublist hsub hkeys] at hz'
    exact hz' b hb (by simpa using hlt)
  · intro hcond xs' zs' hx hz k i hi
    have hmem : k ∈ xs'.map key := by
      by_contra hnot
      rw [place_eq_none.mpr hnot] at hi
      simp at hi
    obtain ⟨a, ha, rfl⟩ := List.mem_map.mp hmem
    have ha' := hx.perm.subset ha
    have hx' := place_of_apart hx hxkeys ha' fun c hc hne => (hcond a ha' c (hsub.subset hc) hne).1
    have hz' := place_of_apart hz hkeys (hsub.subset ha') fun c hc hne => (hcond a ha' c hc hne).1
    have hcount : xs.countP (fun b => decide (score a < score b)) =
        zs.countP fun b => decide (score a < score b) := by
      rw [countP_eq_iff_of_sublist hsub hkeys]
      intro b hb hlt
      simp only [decide_eq_true_eq] at hlt
      refine (hcond a ha' b hb ?_).2 hlt
      intro heq
      rw [List.inj_on_of_nodup_map hkeys hb (hsub.subset ha') heq] at hlt
      omega
    apply getElem_of_place
    rw [hz', ← hcount, ← hx', hi]

section Top

variable {β : Type} {k : Nat}

-- The highest `k` of a list, or all of it. Which of those tied at the edge are in is left open.
structure IsTop (score : α → Int) (k : Nat) (xs top : List α) : Prop where
  length : top.length = min k xs.length
  above : ∃ rest, (top ++ rest).Perm xs ∧ ∀ a ∈ top, ∀ b ∈ rest, score b ≤ score a

theorem isTop_take (h : SortsTo (higher score) xs ys) : IsTop score k xs (ys.take k) := by
  refine ⟨by rw [List.length_take, h.perm.length_eq], ys.drop k, ?_, ?_⟩
  · rw [List.take_append_drop]
    exact h.perm
  · have hordered := h.ordered
    rw [← List.take_append_drop k ys, List.pairwise_append] at hordered
    intro a ha b hb
    simpa [higher] using hordered.2.2 a ha b hb

theorem IsTop.subset {top : List α} (h : IsTop score k xs top) (ha : a ∈ top) : a ∈ xs := by
  obtain ⟨rest, hperm, -⟩ := h.above
  exact hperm.subset (List.mem_append_left rest ha)

-- What sorts the images is the image of what sorts the list.
theorem exists_sortsTo_map {f : β → α} {zs : List β} (h : SortsTo (higher score) (zs.map f) ys) :
    ∃ zs', ys = zs'.map f ∧ SortsTo (higher fun z => score (f z)) zs zs' := by
  have hcomp : Relation.Comp (fun ys zs' => ys = List.map f zs') List.Perm ys zs := by
    rw [List.eq_map_comp_perm]
    exact h.perm
  obtain ⟨zs', rfl, hperm⟩ := hcomp
  exact ⟨zs', rfl, hperm, List.pairwise_map.mp h.ordered⟩

end Top

end Ranking
