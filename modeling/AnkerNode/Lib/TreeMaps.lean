import Mathlib.Algebra.BigOperators.Group.List.Basic
import Mathlib.Algebra.Ring.Nat
import Mathlib.Data.List.Basic
import Mathlib.Data.List.Induction
import Mathlib.Data.List.Nodup
import Std.Data.TreeMap.Lemmas

namespace TreeTotal

open Std

variable {α β : Type} [Ord α]

def total (f : β → Nat) (t : TreeMap α β) : Nat := (t.toList.map fun p => f p.2).sum

variable {f : β → Nat} {t : TreeMap α β} {k : α} {v : β}

@[simp] theorem total_empty : total f (∅ : TreeMap α β) = 0 := by
  have h : (∅ : TreeMap α β).toList = [] := by
    rw [← List.isEmpty_iff, TreeMap.isEmpty_toList]
    rfl
  simp [total, h]

theorem total_indicator (p : β → Bool) :
    total (fun v => if p v then 1 else 0) t = t.toList.countP fun kv => p kv.2 := by
  rw [total]
  induction t.toList with
  | nil => rfl
  | cons kv l ih =>
    rw [List.map_cons, List.sum_cons, ih, List.countP_cons, Nat.add_comm]

variable [TransOrd α] [LawfulEqOrd α] [BEq α] [LawfulBEqOrd α]

theorem total_insert (h : t[k]? = none) : total f (t.insert k v) = f v + total f t := by
  have hkeep : t.toList.filter (fun p => ¬ (k == p.1)) = t.toList := by
    rw [List.filter_eq_self]
    rintro ⟨k', v'⟩ hmem
    have hk' := TreeMap.mem_toList_iff_getElem?_eq_some.mp hmem
    have hne : k ≠ k' := by
      rintro rfl
      rw [h] at hk'
      simp at hk'
    simpa [← LawfulBEqOrd.compare_eq_iff_beq, LawfulEqOrd.compare_eq_iff_eq] using hne
  have hperm := (TreeMap.toList_insert_perm (t := t) (k := k) (v := v)).map fun p => f p.2
  rw [total, hperm.sum_eq, hkeep]
  simp [total]

theorem total_insert_erase (v : β) : total f (t.insert k v) = f v + total f (t.erase k) := by
  have heq : (t.insert k v).Equiv ((t.erase k).insert k v) := by
    apply TreeMap.Equiv.of_forall_constGet?_eq
    intro a
    rw [TreeMap.getElem?_insert, TreeMap.getElem?_insert, TreeMap.getElem?_erase]
    by_cases ha : compare k a = .eq
    · simp [ha]
    · simp [ha]
  have hself : (t.erase k)[k]? = none := TreeMap.getElem?_erase_self
  rw [← total_insert hself, total, total, heq.toList_eq]

theorem total_erase (h : t[k]? = some v) : total f t = f v + total f (t.erase k) := by
  have heq : (t.insert k v).Equiv t := by
    apply TreeMap.Equiv.of_forall_constGet?_eq
    intro a
    rw [TreeMap.getElem?_insert]
    by_cases ha : compare k a = .eq
    · obtain rfl := LawfulEqOrd.eq_of_compare ha
      simp [h]
    · simp [ha]
  rw [← total_insert_erase v, total, total, heq.toList_eq]

end TreeTotal

namespace TreeMerge

open Std

variable {α β γ : Type} [Ord α]

def put (t : TreeMap α β) (k : α) : Option β → TreeMap α β
  | none => t.erase k
  | some v => t.insert k v

-- Work the entries `xs` into `t` one key at a time; `act` sees the entry of `t` under the key
-- and gives the one to store in its place, or fails.
def mergeM (act : Option β → γ → Option (Option β)) (t : TreeMap α β) (xs : List (α × γ)) :
    Option (TreeMap α β) :=
  xs.foldlM (fun t x => (act t[x.1]? x.2).map (put t x.1)) t

variable [TransOrd α] [LawfulEqOrd α]

theorem getElem?_put_self (t : TreeMap α β) (k : α) (r : Option β) : (put t k r)[k]? = r := by
  cases r <;> simp [put]

theorem getElem?_put_of_ne (t : TreeMap α β) {k a : α} (r : Option β) (h : a ≠ k) :
    (put t k r)[a]? = t[a]? := by
  have hc : compare k a ≠ .eq := fun hc => h (LawfulEqOrd.eq_of_compare hc).symm
  cases r <;> simp [put, TreeMap.getElem?_erase, TreeMap.getElem?_insert, hc]

theorem mergeM_spec (act : Option β → γ → Option (Option β)) {xs : List (α × γ)}
    (t : TreeMap α β) (hnd : (xs.map Prod.fst).Nodup)
    (hact : ∀ k g, (k, g) ∈ xs → ∃ r, act t[k]? g = some r) :
    ∃ t' : TreeMap α β, mergeM act t xs = some t' ∧
      (∀ k g, (k, g) ∈ xs → act t[k]? g = some t'[k]?) ∧
      ∀ k, k ∉ xs.map Prod.fst → t'[k]? = t[k]? := by
  induction xs generalizing t with
  | nil => exact ⟨t, rfl, by simp, by simp⟩
  | cons x xs ih =>
    obtain ⟨k, g⟩ := x
    simp only [List.map_cons, List.nodup_cons] at hnd
    obtain ⟨r, hr⟩ := hact k g (by simp)
    have hother : ∀ k' g', (k', g') ∈ xs → (put t k r)[k']? = t[k']? := by
      intro k' g' hmem
      apply getElem?_put_of_ne
      rintro rfl
      exact hnd.1 (List.mem_map_of_mem hmem)
    obtain ⟨t', ht', hin, hout⟩ := ih (put t k r) hnd.2 (by
      intro k' g' hmem
      rw [hother k' g' hmem]
      exact hact k' g' (by simp [hmem]))
    refine ⟨t', ?_, ?_, ?_⟩
    · simp only [mergeM, List.foldlM_cons, hr, Option.map_some, Option.bind_eq_bind,
        Option.bind_some]
      exact ht'
    · intro k' g' hmem
      rcases List.mem_cons.mp hmem with heq | hmem
      · simp only [Prod.mk.injEq] at heq
        obtain ⟨rfl, rfl⟩ := heq
        rw [hr, hout k' hnd.1, getElem?_put_self]
      · rw [← hother k' g' hmem]
        exact hin k' g' hmem
    · intro a ha
      simp only [List.map_cons, List.mem_cons, not_or] at ha
      rw [hout a ha.2, getElem?_put_of_ne t r ha.1]

theorem mergeM_toList_spec (act : Option β → γ → Option (Option β)) (t : TreeMap α β)
    (u : TreeMap α γ) (hact : ∀ (k : α) (g : γ), u[k]? = some g → ∃ r, act t[k]? g = some r) :
    ∃ t' : TreeMap α β, mergeM act t u.toList = some t' ∧
      (∀ (k : α) (g : γ), u[k]? = some g → act t[k]? g = some t'[k]?) ∧
      ∀ k : α, u[k]? = none → t'[k]? = t[k]? := by
  have hnd : (u.toList.map Prod.fst).Nodup := by
    refine List.Pairwise.map _ ?_ TreeMap.distinct_keys_toList
    intro a b hab heq
    exact hab (by rw [heq]; exact ReflOrd.compare_self)
  obtain ⟨t', ht', hin, hout⟩ := mergeM_spec act t hnd (by
    intro k g hmem
    exact hact k g (TreeMap.mem_toList_iff_getElem?_eq_some.mp hmem))
  refine ⟨t', ht', ?_, ?_⟩
  · intro k g hk
    exact hin k g (TreeMap.mem_toList_iff_getElem?_eq_some.mpr hk)
  · intro k hk
    apply hout
    intro hmem
    obtain ⟨⟨k', g⟩, hg, rfl⟩ := List.mem_map.mp hmem
    rw [TreeMap.mem_toList_iff_getElem?_eq_some.mp hg] at hk
    simp at hk

end TreeMerge

namespace TreeSweep

open Std

variable {α β : Type} [Ord α]

def sweepAll (p : α × β → Bool) (t : TreeMap α β) (its : List (α × β)) : TreeMap α β :=
  its.foldl (fun t it => if p it then t.erase it.1 else t) t

-- One pass over a map that erases the entries with `p`.
def sweep (p : α × β → Bool) (t : TreeMap α β) : TreeMap α β := sweepAll p t t.toList

variable [TransOrd α] [LawfulEqOrd α] {p : α × β → Bool} {t : TreeMap α β}

-- the place of an entry among the others
theorem toList_split {k : α} {v : β} (h : t[k]? = some v) :
    ∃ before after, t.toList = before ++ (k, v) :: after ∧
      (∀ it ∈ before, it.1 ≠ k) ∧ ∀ it ∈ after, it.1 ≠ k := by
  have hmem := TreeMap.mem_toList_iff_getElem?_eq_some.mpr h
  obtain ⟨before, after, hsplit⟩ := List.append_of_mem hmem
  have hkeys := TreeMap.distinct_keys_toList (t := t)
  rw [hsplit, List.pairwise_append, List.pairwise_cons] at hkeys
  refine ⟨before, after, hsplit, ?_, ?_⟩
  · intro it hit heq
    exact hkeys.2.2 it hit (k, v) List.mem_cons_self (by rw [heq]; exact ReflOrd.compare_self)
  · intro it hit heq
    exact hkeys.2.1.1 it hit (by rw [heq]; exact ReflOrd.compare_self)

theorem getElem?_sweepAll (its : List (α × β)) (k : α) (v : β) :
    (sweepAll p t its)[k]? = some v ↔
      t[k]? = some v ∧ ∀ v', (k, v') ∈ its → p (k, v') = false := by
  induction its generalizing t with
  | nil => simp [sweepAll]
  | cons it its ih =>
    obtain ⟨k', v'⟩ := it
    have hstep : sweepAll p t ((k', v') :: its) =
        sweepAll p (if p (k', v') then t.erase k' else t) its := rfl
    rw [hstep, ih]
    cases hp : p (k', v') with
    | false =>
      simp only [Bool.false_eq_true, if_false, List.mem_cons]
      refine and_congr_right fun _ => ⟨?_, fun h v hmem => h v (.inr hmem)⟩
      rintro h v (heq | hmem)
      · rw [heq, hp]
      · exact h v hmem
    | true =>
      simp only [if_true, TreeMap.getElem?_erase]
      by_cases hk : k' = k
      · subst hk
        simp only [compare_self, if_true]
        refine iff_of_false (by simp) ?_
        rintro ⟨-, h⟩
        have hfalse := h v' List.mem_cons_self
        rw [hp] at hfalse
        exact absurd hfalse (by simp)
      · rw [if_neg (by simpa using hk)]
        refine and_congr_right fun _ => ⟨?_, fun h v hmem => h v (List.mem_cons_of_mem _ hmem)⟩
        rintro h v hmem
        rcases List.mem_cons.mp hmem with heq | hmem
        · exact absurd (Prod.mk.inj heq).1.symm hk
        · exact h v hmem

theorem getElem?_sweep (k : α) :
    (sweep p t)[k]? = (t[k]?).filter fun v => !p (k, v) := by
  apply Option.ext
  intro v
  rw [sweep, getElem?_sweepAll, Option.filter_eq_some_iff]
  refine and_congr_right fun hk => ?_
  constructor
  · intro h
    rw [h v (TreeMap.mem_toList_iff_getElem?_eq_some.mpr hk)]
    rfl
  · intro hp v' hmem
    have hv' := TreeMap.mem_toList_iff_getElem?_eq_some.mp hmem
    rw [hk] at hv'
    obtain rfl := Option.some.inj hv'
    simpa using hp

theorem toList_sweep : (sweep p t).toList = t.toList.filter fun it => !p it := by
  have heq : (sweep p t).Equiv (t.filter fun k v => !p (k, v)) := by
    apply TreeMap.Equiv.of_forall_constGet?_eq
    intro k
    rw [getElem?_sweep, TreeMap.getElem?_filter']
  rw [heq.toList_eq, TreeMap.toList_filter]

end TreeSweep

namespace TreeRebuild

open Std

variable {α β σ : Type} [Ord α]

def rebuildStep (place : β → α) (step : σ → α × β → σ × Option β) (acc : σ × TreeMap α β)
    (it : α × β) : σ × TreeMap α β :=
  match step acc.1 it with
  | (s, none) => (s, acc.2)
  | (s, some v) => (s, acc.2.insertIfNew (place v) v)

-- One pass over a map that stores what `step` keeps of its entries in a new one.
def rebuild (place : β → α) (step : σ → α × β → σ × Option β) (s : σ) (t : TreeMap α β) :
    σ × TreeMap α β :=
  t.toList.foldl (rebuildStep place step) (s, ∅)

variable [TransOrd α] [LawfulEqOrd α] {place : β → α} {step : σ → α × β → σ × Option β}

theorem getElem?_rebuildStep_of_ne {acc : σ × TreeMap α β} {it : α × β} {k : α}
    (hplace : ∀ s v, (step s it).2 = some v → place v = it.1) (hne : it.1 ≠ k) :
    (rebuildStep place step acc it).2[k]? = acc.2[k]? := by
  rw [rebuildStep]
  split
  · rfl
  · rename_i s v heq
    have hv : place v = it.1 := hplace acc.1 v (by rw [heq])
    have hcompare : compare it.1 k ≠ .eq := fun h => hne (LawfulEqOrd.eq_of_compare h)
    rw [TreeMap.getElem?_insertIfNew, hv, if_neg (fun h => hcompare h.1)]

theorem getElem?_rebuildStep_self {acc : σ × TreeMap α β} {it : α × β}
    (hplace : ∀ s v, (step s it).2 = some v → place v = it.1) (hfresh : acc.2[it.1]? = none) :
    (rebuildStep place step acc it).2[it.1]? = (step acc.1 it).2 := by
  have hnot : it.1 ∉ acc.2 := by
    rw [← TreeMap.contains_iff_mem, TreeMap.contains_eq_isSome_getElem?, hfresh]
    simp
  rw [rebuildStep]
  split
  · rename_i heq
    rw [heq, hfresh]
  · rename_i s v heq
    have hv : place v = it.1 := hplace acc.1 v (by rw [heq])
    rw [heq, TreeMap.getElem?_insertIfNew, hv, if_pos ⟨ReflOrd.compare_self, hnot⟩]

theorem getElem?_foldl_of_ne {its : List (α × β)} {acc : σ × TreeMap α β} {k : α}
    (hplace : ∀ it ∈ its, ∀ s v, (step s it).2 = some v → place v = it.1)
    (hne : ∀ it ∈ its, it.1 ≠ k) :
    (its.foldl (rebuildStep place step) acc).2[k]? = acc.2[k]? := by
  induction its generalizing acc with
  | nil => rfl
  | cons it its ih =>
    rw [List.forall_mem_cons] at hplace hne
    rw [List.foldl_cons, ih hplace.2 hne.2, getElem?_rebuildStep_of_ne hplace.1 hne.1]

theorem getElem?_foldl_of_mem {its : List (α × β)} {acc : σ × TreeMap α β} {k : α} {v : β}
    (hplace : ∀ it ∈ its, ∀ s v, (step s it).2 = some v → place v = it.1)
    (hkeys : its.Pairwise fun a b => ¬ compare a.1 b.1 = .eq) (hmem : (k, v) ∈ its)
    (hfresh : acc.2[k]? = none) :
    ∃ s, (its.foldl (rebuildStep place step) acc).2[k]? = (step s (k, v)).2 := by
  induction its generalizing acc with
  | nil => cases hmem
  | cons it its ih =>
    rw [List.forall_mem_cons] at hplace
    rw [List.pairwise_cons] at hkeys
    rw [List.foldl_cons]
    rcases List.mem_cons.mp hmem with rfl | hmem
    · have hne : ∀ it ∈ its, it.1 ≠ k := by
        rintro it hit rfl
        exact hkeys.1 it hit ReflOrd.compare_self
      exact ⟨acc.1, (getElem?_foldl_of_ne hplace.2 hne).trans
        (getElem?_rebuildStep_self hplace.1 hfresh)⟩
    · have hne : it.1 ≠ k := by
        rintro rfl
        exact hkeys.1 _ hmem ReflOrd.compare_self
      exact ih hplace.2 hkeys.2 hmem ((getElem?_rebuildStep_of_ne hplace.1 hne).trans hfresh)

theorem getElem?_rebuild_of_none {s : σ} {t : TreeMap α β} {k : α}
    (hplace : ∀ it ∈ t.toList, ∀ s v, (step s it).2 = some v → place v = it.1)
    (hk : t[k]? = none) : (rebuild place step s t).2[k]? = none := by
  rw [rebuild, getElem?_foldl_of_ne hplace]
  · simp
  · rintro it hit rfl
    rw [TreeMap.mem_toList_iff_getElem?_eq_some.mp hit] at hk
    cases hk

-- What stands under a key is what some state made of the entry there.
theorem getElem?_rebuild_of_some {t : TreeMap α β} {k : α} {v : β} (s : σ)
    (hplace : ∀ it ∈ t.toList, ∀ s v, (step s it).2 = some v → place v = it.1)
    (hk : t[k]? = some v) :
    ∃ s', (rebuild place step s t).2[k]? = (step s' (k, v)).2 :=
  getElem?_foldl_of_mem hplace TreeMap.distinct_keys_toList
    (TreeMap.mem_toList_iff_getElem?_eq_some.mpr hk) (by simp)

omit [TransOrd α] [LawfulEqOrd α] in
theorem rebuild_state_of_still {s : σ} {t : TreeMap α β}
    (hstill : ∀ it ∈ t.toList, (step s it).1 = s) : (rebuild place step s t).1 = s := by
  suffices ∀ (its : List (α × β)) (m : TreeMap α β), (∀ it ∈ its, (step s it).1 = s) →
      (its.foldl (rebuildStep place step) (s, m)).1 = s from this _ _ hstill
  intro its
  induction its with
  | nil => exact fun _ _ => rfl
  | cons it its ih =>
    intro m hits
    rw [List.forall_mem_cons] at hits
    have hstate : (rebuildStep place step (s, m) it).1 = s := by
      rw [rebuildStep]
      split
      · rename_i heq
        rw [← hits.1, heq]
      · rename_i heq
        rw [← hits.1, heq]
    obtain ⟨m', hm'⟩ : ∃ m', rebuildStep place step (s, m) it = (s, m') := ⟨_, Prod.ext hstate rfl⟩
    rw [List.foldl_cons, hm']
    exact ih m' hits.2

end TreeRebuild

namespace TreeFill

open Std

variable {α β γ : Type} [Ord α] [TransOrd α] [LawfulEqOrd α]

theorem getElem?_foldl_insert [BEq α] [LawfulBEq α] (f : γ → α) (g : γ → β) (xs : List γ)
    (t : TreeMap α β) (k : α) :
    (xs.foldl (fun t x => t.insert (f x) (g x)) t)[k]? =
      ((xs.reverse.find? fun x => k == f x).map g).or t[k]? := by
  induction xs using List.reverseRecOn with
  | nil => simp
  | append_singleton xs x ih =>
    rw [List.foldl_append, List.foldl_cons, List.foldl_nil, List.reverse_append,
      List.reverse_singleton, List.singleton_append, List.find?_cons, TreeMap.getElem?_insert]
    by_cases hx : k = f x
    · simp [hx]
    · have hc : compare (f x) k ≠ .eq := fun hc => hx (LawfulEqOrd.eq_of_compare hc).symm
      rw [if_neg hc, ih, beq_false_of_ne hx]

-- The first entry for a key stays.
theorem getElem?_foldl_insertIfNew [BEq α] [LawfulBEq α] (f : γ → α) (g : γ → β) (xs : List γ)
    (t : TreeMap α β) (k : α) :
    (xs.foldl (fun t x => t.insertIfNew (f x) (g x)) t)[k]? =
      t[k]?.or ((xs.find? fun x => k == f x).map g) := by
  induction xs generalizing t with
  | nil => simp
  | cons x xs ih =>
    rw [List.foldl_cons, ih, TreeMap.getElem?_insertIfNew, List.find?_cons]
    by_cases hx : k = f x
    · subst hx
      simp only [ReflOrd.compare_self, true_and, BEq.rfl]
      by_cases hin : f x ∈ t
      · simp [hin]
      · simp [hin]
    · have hc : compare (f x) k ≠ .eq := fun hc => hx (LawfulEqOrd.eq_of_compare hc).symm
      rw [if_neg (fun h => hc h.1), beq_false_of_ne hx]

end TreeFill

namespace KeyScan

section Runs

variable {α : Type} {p : α → Bool} {l : List α}

-- Where the items that pass come before those that do not, a scan up to the first that does not
-- is a filter.
theorem takeWhile_eq_filter (h : l.Pairwise fun a b => p b = true → p a = true) :
    l.takeWhile p = l.filter p := by
  induction l with
  | nil => rfl
  | cons a l ih =>
    rw [List.pairwise_cons] at h
    cases ha : p a with
    | true => rw [List.takeWhile_cons_of_pos ha, List.filter_cons_of_pos ha, ih h.2]
    | false =>
      have hnone : l.filter p = [] := by
        rw [List.filter_eq_nil_iff]
        intro b hb hpb
        rw [h.1 b hb hpb] at ha
        cases ha
      have ha' : ¬ p a = true := by
        rw [ha]
        exact Bool.false_ne_true
      rw [List.takeWhile_cons_of_neg ha', List.filter_cons_of_neg ha', hnone]

theorem dropWhile_eq_filter (h : l.Pairwise fun a b => p b = true → p a = true) :
    l.dropWhile p = l.filter fun a => !p a := by
  induction l with
  | nil => rfl
  | cons a l ih =>
    rw [List.pairwise_cons] at h
    cases ha : p a with
    | true =>
      rw [List.dropWhile_cons_of_pos ha, List.filter_cons_of_neg (by simp [ha]), ih h.2]
    | false =>
      have hall : l.filter (fun b => !p b) = l := by
        rw [List.filter_eq_self]
        intro b hb
        cases hpb : p b with
        | true =>
          rw [h.1 b hb hpb] at ha
          cases ha
        | false => rfl
      rw [List.dropWhile_cons_of_neg (by simp [ha]), List.filter_cons_of_pos (by simp [ha]), hall]

end Runs

section Map

variable {κ v : Type} {cmp : κ → κ → Ordering} [Std.TransCmp cmp] {t : Std.TreeMap κ v cmp}

-- the entries that an iterator walks from the first key that is not below `k`
def seek (t : Std.TreeMap κ v cmp) (k : κ) : List (κ × v) :=
  t.toList.dropWhile fun entry => cmp entry.1 k == .lt

theorem seek_eq_filter (k : κ) : seek t k = t.toList.filter fun entry => !(cmp entry.1 k == .lt) := by
  apply dropWhile_eq_filter
  refine Std.TreeMap.ordered_keys_toList.imp ?_
  intro a b hab hb
  rw [beq_iff_eq] at hb ⊢
  exact Std.TransCmp.lt_trans hab hb

theorem mem_seek [Std.LawfulEqCmp cmp] {k : κ} {entry : κ × v} :
    entry ∈ seek t k ↔ t[entry.1]? = some entry.2 ∧ cmp entry.1 k ≠ .lt := by
  rw [seek_eq_filter, List.mem_filter, Bool.not_eq_true', beq_eq_false_iff_ne, ne_eq,
    Std.TreeMap.mem_toList_iff_getElem?_eq_some]

theorem ordered_seek (k : κ) : (seek t k).Pairwise fun a b => cmp a.1 b.1 = .lt := by
  rw [seek_eq_filter]
  exact Std.TreeMap.ordered_keys_toList.filter _

theorem getElem?_eraseAll [Std.LawfulEqCmp cmp] [DecidableEq κ] {ks : List κ} {k : κ} :
    (ks.foldl (fun t k => t.erase k) t)[k]? = if k ∈ ks then none else t[k]? := by
  induction ks generalizing t with
  | nil => rfl
  | cons a ks ih =>
    rw [List.foldl_cons, ih, Std.TreeMap.getElem?_erase]
    by_cases hk : k ∈ ks
    · rw [if_pos hk, if_pos (List.mem_cons_of_mem a hk)]
    · by_cases ha : k = a
      · subst ha
        rw [if_neg hk, if_pos Std.ReflCmp.compare_self, if_pos List.mem_cons_self]
      · have hcmp : cmp a k ≠ .eq := fun hc => ha (Std.LawfulEqCmp.eq_of_compare hc).symm
        rw [if_neg hk, if_neg hcmp, if_neg (by simp [ha, hk])]

end Map

end KeyScan
