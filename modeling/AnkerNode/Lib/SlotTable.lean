import Mathlib.Data.List.Basic
import Mathlib.Data.List.Nodup
import Mathlib.Logic.Function.Basic

namespace Positions

variable {A : Type}

-- Every member of the list knows where it stands, and nothing else knows a place.
structure Indexed (l : List A) (pos : A → Option Int) : Prop where
  at_pos : ∀ (p : Nat) a, l[p]? = some a ↔ pos a = some (p : Int)
  nonneg : ∀ a z, pos a = some z → 0 ≤ z

variable {l : List A} {pos : A → Option Int} {a b : A} {p q : Nat}

namespace Indexed

theorem at_toNat (h : Indexed l pos) {z : Int} (ha : pos a = some z) : l[z.toNat]? = some a := by
  rw [h.at_pos, Int.toNat_of_nonneg (h.nonneg a z ha)]
  exact ha

theorem inj (h : Indexed l pos) (hp : l[p]? = some a) (hq : l[q]? = some a) : p = q := by
  have hpos := (h.at_pos p a).mp hp
  rw [(h.at_pos q a).mp hq] at hpos
  exact Int.ofNat_inj.mp (Option.some.inj hpos).symm

theorem nodup (h : Indexed l pos) : l.Nodup := by
  rw [List.nodup_iff_injective_getElem]
  intro i j hij
  apply Fin.ext
  exact h.inj (List.getElem?_eq_getElem i.2)
    ((List.getElem?_eq_getElem j.2).trans (congrArg some hij.symm))

theorem mem_iff (h : Indexed l pos) : a ∈ l ↔ (pos a).isSome := by
  constructor
  · intro hmem
    obtain ⟨p, hp⟩ := List.mem_iff_getElem?.mp hmem
    rw [(h.at_pos p a).mp hp]
    rfl
  · intro hsome
    obtain ⟨z, hz⟩ := Option.isSome_iff_exists.mp hsome
    exact List.mem_of_getElem? (h.at_toNat hz)

variable [DecidableEq A]

theorem push (h : Indexed l pos) (ha : pos a = none) :
    Indexed (l ++ [a]) (Function.update pos a (some (l.length : Int))) where
  at_pos p b := by
    rw [Function.update_apply, List.getElem?_append]
    have hb := h.at_pos p b
    have hlt : p < l.length ↔ (l[p]?).isSome := by simp
    grind
  nonneg b z hb := by
    rw [Function.update_apply] at hb
    have := h.nonneg b z
    grind

theorem swap (h : Indexed l pos) (hpq : p ≠ q) (hp : l[p]? = some a) (hq : l[q]? = some b) :
    Indexed ((l.set p b).set q a)
      (Function.update (Function.update pos a (some (q : Int))) b (some (p : Int))) where
  at_pos r c := by
    have hab : a ≠ b := fun hab => hpq (h.inj hp (hab ▸ hq))
    have hpl := (List.getElem?_eq_some_iff.mp hp).1
    have hql := (List.getElem?_eq_some_iff.mp hq).1
    have hra := h.inj (p := r) (q := p) (a := a)
    have hrb := h.inj (p := r) (q := q) (a := b)
    have hc := h.at_pos r c
    rw [List.getElem?_set, List.getElem?_set, List.length_set, Function.update_apply,
      Function.update_apply]
    grind
  nonneg c z hc := by
    have hold := h.nonneg c z
    rw [Function.update_apply, Function.update_apply] at hc
    grind

theorem pop (h : Indexed l pos) (ha : l[l.length - 1]? = some a) :
    Indexed l.dropLast (Function.update pos a none) where
  at_pos r c := by
    have hlast := (List.getElem?_eq_some_iff.mp ha).1
    have hinj := h.inj (p := r) (q := l.length - 1) (a := a)
    have hc := h.at_pos r c
    have hlt : (l[r]?).isSome → r < l.length := by simp
    rw [List.getElem?_dropLast, Function.update_apply]
    grind
  nonneg c z hc := by
    have hold := h.nonneg c z
    rw [Function.update_apply] at hc
    grind

end Indexed

end Positions

namespace SlotTable

variable {S A : Type}

variable [DecidableEq A]

def occ (slots : List S) (t : S → Option A) (a : A) : Nat := (slots.filterMap t).count a

variable {slots : List S} {t : S → Option A} {c : S} {a : A} {v : Option A}

theorem occ_pos_iff : 0 < occ slots t a ↔ ∃ c ∈ slots, t c = some a := by
  rw [occ, List.count_pos_iff, List.mem_filterMap]

theorem occ_congr {t' : S → Option A} (h : ∀ c ∈ slots, t c = t' c) :
    occ slots t a = occ slots t' a := by
  rw [occ, occ, List.filterMap_congr h]

theorem occ_cons (c : S) (slots : List S) (t : S → Option A) (a : A) :
    occ (c :: slots) t a = (if t c = some a then 1 else 0) + occ slots t a := by
  rw [occ, occ, List.filterMap_cons]
  cases h : t c with
  | none => simp
  | some b =>
    by_cases hb : b = a
    · simp [hb, Nat.add_comm]
    · simp [hb]

theorem occ_append (slots slots' : List S) (t : S → Option A) (a : A) :
    occ (slots ++ slots') t a = occ slots t a + occ slots' t a := by
  rw [occ, occ, occ, List.filterMap_append, List.count_append]

-- New names keep the numbers, as long as no other member gets the name.
theorem occ_map {B : Type} [DecidableEq B] (f : A → B) (a : A)
    (hinj : ∀ c ∈ slots, ∀ b, t c = some b → f b = f a → b = a) :
    occ slots (fun c => (t c).map f) (f a) = occ slots t a := by
  induction slots with
  | nil => rfl
  | cons c slots ih =>
    obtain ⟨hc, hrest⟩ := List.forall_mem_cons.mp hinj
    have hiff : (t c).map f = some (f a) ↔ t c = some a := by
      rw [Option.map_eq_some_iff]
      constructor
      · rintro ⟨b, hb, hfb⟩
        rw [hb, hc b hb hfb]
      · intro ha
        exact ⟨a, ha, rfl⟩
    rw [occ_cons, occ_cons, ih hrest]
    simp only [hiff]

variable [DecidableEq S]

theorem occ_eq_erase (t : S → Option A) (a : A) (hc : c ∈ slots) :
    occ slots t a = (if t c = some a then 1 else 0) + occ (slots.erase c) t a := by
  rw [← occ_cons, occ, occ]
  exact ((List.perm_cons_erase hc).filterMap t).count_eq a

-- What a slot held before and what it holds after make the difference.
theorem occ_update (hnd : slots.Nodup) (hc : c ∈ slots) :
    occ slots (Function.update t c v) a + (if t c = some a then 1 else 0) =
      occ slots t a + (if v = some a then 1 else 0) := by
  have hrest : occ (slots.erase c) (Function.update t c v) a = occ (slots.erase c) t a :=
    occ_congr fun d hd => Function.update_of_ne ((hnd.mem_erase_iff).mp hd).1 v t
  rw [occ_eq_erase _ a hc, occ_eq_erase t a hc, hrest, Function.update_self]
  omega

end SlotTable

-- Removal from an array whose later elements move down by assignment, where an assignment need not
-- copy everything: what it leaves alone stays with the place.
namespace SlotErase

variable {α : Type} (assign : α → α → α)

-- the elements behind `a`, each assigned to the place before it
def shift (a : α) : List α → List α
  | [] => []
  | b :: l => assign a b :: shift b l

def eraseFirst (p : α → Bool) : List α → List α
  | [] => []
  | a :: l => if p a then shift assign a l else a :: eraseFirst p l

-- One pass that removes what has `p`, and looks at a place again after a removal there.
def sweep (p : α → Bool) : Nat → List α → List α
  | 0, l => l
  | _ + 1, [] => []
  | fuel + 1, a :: l => if p a then sweep p fuel (shift assign a l) else a :: sweep p fuel l

structure Lawful : Prop where
  self : ∀ a, assign a a = a
  assigned : ∀ a b c, assign (assign a b) c = assign a c
  from_assigned : ∀ a b c, assign a (assign b c) = assign a c

variable {assign}

theorem zipWith_self (h : Lawful assign) (l : List α) : List.zipWith assign l l = l := by
  induction l with
  | nil => rfl
  | cons a l ih => rw [List.zipWith_cons_cons, h.self, ih]

theorem shift_eq (a : α) (l : List α) : shift assign a l = List.zipWith assign (a :: l) l := by
  induction l generalizing a with
  | nil => rfl
  | cons b l ih => rw [shift, ih, List.zipWith_cons_cons]

theorem shift_zipWith (h : Lawful assign) (a b : α) {places l : List α}
    (hlength : l.length ≤ places.length) :
    shift assign (assign a b) (List.zipWith assign places l) =
      List.zipWith assign (a :: places) l := by
  induction l generalizing a b places with
  | nil => simp [shift]
  | cons c l ih =>
    cases places with
    | nil => simp at hlength
    | cons d places =>
      rw [List.length_cons, List.length_cons, Nat.succ_le_succ_iff] at hlength
      rw [List.zipWith_cons_cons, shift, ih d c hlength, h.assigned, h.from_assigned,
        List.zipWith_cons_cons]

theorem eraseFirst_eq (h : Lawful assign) (p : α → Bool) (l : List α) :
    eraseFirst assign p l = List.zipWith assign l (l.eraseP p) := by
  induction l with
  | nil => rfl
  | cons a l ih =>
    rw [eraseFirst, List.eraseP_cons]
    cases p a with
    | true => exact shift_eq a l
    | false =>
      rw [cond_false, List.zipWith_cons_cons, h.self, ← ih]
      rfl

theorem sweep_zipWith (h : Lawful assign) {p : α → Bool} (hp : ∀ a b, p (assign a b) = p b)
    {fuel : Nat} {places l : List α} (hlength : l.length ≤ places.length)
    (hfuel : l.length ≤ fuel) :
    sweep assign p fuel (List.zipWith assign places l) =
      List.zipWith assign places (l.filter fun a => !p a) := by
  induction fuel generalizing places l with
  | zero =>
    rw [List.length_eq_zero_iff.mp (Nat.le_zero.mp hfuel)]
    simp [sweep]
  | succ fuel ih =>
    cases l with
    | nil => simp [sweep]
    | cons b l =>
      cases places with
      | nil => simp at hlength
      | cons a places =>
        rw [List.length_cons, List.length_cons, Nat.succ_le_succ_iff] at hlength
        rw [List.length_cons, Nat.succ_le_succ_iff] at hfuel
        rw [List.zipWith_cons_cons, sweep, hp, List.filter_cons]
        cases p b with
        | true =>
          rw [if_pos rfl, shift_zipWith h a b hlength]
          exact ih (Nat.le_succ_of_le hlength) hfuel
        | false =>
          simp only [Bool.false_eq_true, if_false, Bool.not_false, if_true,
            List.zipWith_cons_cons]
          rw [ih hlength hfuel]

theorem sweep_eq (h : Lawful assign) {p : α → Bool} (hp : ∀ a b, p (assign a b) = p b)
    (l : List α) :
    sweep assign p l.length l = List.zipWith assign l (l.filter fun a => !p a) := by
  have hsweep := sweep_zipWith h hp (Nat.le_refl l.length) (Nat.le_refl l.length)
  rwa [zipWith_self h] at hsweep

-- Nothing is left behind exactly when each element fits the place it comes to.
theorem zipWith_eq_right_iff {places l : List α} (hlength : l.length ≤ places.length) :
    List.zipWith assign places l = l ↔
      ∀ (i : Nat) a b, places[i]? = some a → l[i]? = some b → assign a b = b := by
  induction l generalizing places with
  | nil => simp
  | cons b l ih =>
    cases places with
    | nil => simp at hlength
    | cons a places =>
      rw [List.length_cons, List.length_cons, Nat.succ_le_succ_iff] at hlength
      rw [List.zipWith_cons_cons, List.cons.injEq, ih hlength]
      constructor
      · rintro ⟨hfirst, hrest⟩ i c d hc hd
        cases i with
        | zero =>
          obtain rfl := Option.some.inj hc
          obtain rfl := Option.some.inj hd
          exact hfirst
        | succ i => exact hrest i c d hc hd
      · exact fun h => ⟨h 0 a b rfl rfl, fun i c d hc hd => h (i + 1) c d hc hd⟩

-- what an assignment copies goes along with the elements
theorem map_zipWith {β : Type} {f : α → β} (hf : ∀ a b, f (assign a b) = f b)
    {places l : List α} (hlength : l.length ≤ places.length) :
    (List.zipWith assign places l).map f = l.map f := by
  induction l generalizing places with
  | nil => simp
  | cons b l ih =>
    cases places with
    | nil => simp at hlength
    | cons a places =>
      rw [List.length_cons, List.length_cons, Nat.succ_le_succ_iff] at hlength
      rw [List.zipWith_cons_cons, List.map_cons, hf, ih hlength, List.map_cons]

section Map

variable {β : Type} {assign' : β → β → β} {f : α → β}

theorem map_shift (hf : ∀ a b, f (assign a b) = assign' (f a) (f b)) (a : α) (l : List α) :
    (shift assign a l).map f = shift assign' (f a) (l.map f) := by
  induction l generalizing a with
  | nil => rfl
  | cons b l ih => rw [shift, List.map_cons, hf, ih, List.map_cons, shift]

theorem map_eraseFirst (hf : ∀ a b, f (assign a b) = assign' (f a) (f b)) (p : β → Bool)
    (l : List α) :
    (eraseFirst assign (fun a => p (f a)) l).map f = eraseFirst assign' p (l.map f) := by
  induction l with
  | nil => rfl
  | cons a l ih =>
    rw [eraseFirst, List.map_cons, eraseFirst]
    cases p (f a) with
    | true => exact map_shift hf a l
    | false =>
      simp only [Bool.false_eq_true, if_false, List.map_cons]
      rw [ih]

theorem map_sweep (hf : ∀ a b, f (assign a b) = assign' (f a) (f b)) (p : β → Bool)
    (fuel : Nat) (l : List α) :
    (sweep assign (fun a => p (f a)) fuel l).map f = sweep assign' p fuel (l.map f) := by
  induction fuel generalizing l with
  | zero => rfl
  | succ fuel ih =>
    cases l with
    | nil => rfl
    | cons a l =>
      rw [sweep, List.map_cons, sweep]
      cases p (f a) with
      | true =>
        rw [if_pos rfl, if_pos rfl, ih, map_shift hf]
      | false =>
        simp only [Bool.false_eq_true, if_false, List.map_cons]
        rw [ih]

end Map

end SlotErase
