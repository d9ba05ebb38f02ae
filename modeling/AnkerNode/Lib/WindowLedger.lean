import Mathlib.Data.List.Basic
import Mathlib.Logic.Function.Basic

namespace WindowLedger

variable {K T : Type}

-- A claim to be paid for a key: it forgets the payments outside its window, and is accepted when
-- it is made once and its key is not recorded.
structure Claim (K T : Type) where
  key : K
  window : T → Bool
  once : Bool

def keep (c : Claim K T) (l : K → Option T) : K → Option T := fun k => (l k).filter c.window

def accepts (l : K → Option T) (c : Claim K T) : Bool := c.once && (keep c l c.key).isNone

theorem keep_none {l : K → Option T} {c : Claim K T} {x : K} (h : l x = none) :
    keep c l x = none := by
  simp [keep, h]

theorem keep_eq_some {l : K → Option T} {c : Claim K T} {x : K} {t : T} :
    keep c l x = some t ↔ l x = some t ∧ c.window t = true :=
  Option.filter_eq_some_iff

theorem keep_idem (c : Claim K T) (l : K → Option T) : keep c (keep c l) = keep c l := by
  funext k
  cases hk : l k with
  | none => simp [keep, hk]
  | some t =>
    cases hw : c.window t with
    | false => simp [keep, hk, Option.filter_some, hw]
    | true => simp [keep, hk, Option.filter_some, hw]

-- what is left of a recorded payment after some claims
def lapse (o : Option T) (cs : List (Claim K T)) : Option T :=
  cs.foldl (fun o d => o.filter d.window) o

theorem lapse_none (cs : List (Claim K T)) : lapse none cs = none := by
  induction cs with
  | nil => rfl
  | cons d cs ih => exact ih

theorem lapse_some {cs : List (Claim K T)} {t : T} (h : ∃ d ∈ cs, d.window t = false) :
    lapse (some t) cs = none := by
  induction cs with
  | nil => simp at h
  | cons d cs ih =>
    have hstep : lapse (some t) (d :: cs) = lapse ((some t).filter d.window) cs := rfl
    cases hd : d.window t with
    | false => rw [hstep, Option.filter_some, hd, if_neg (by simp), lapse_none]
    | true =>
      rw [hstep, Option.filter_some, hd, if_pos rfl]
      apply ih
      simpa [hd] using h

variable [DecidableEq K]

def enter (now : T) (l : K → Option T) (c : Claim K T) : K → Option T :=
  if (keep c l c.key).isNone then Function.update (keep c l) c.key (some now) else keep c l

def walk (now : T) : (K → Option T) → List (Claim K T) → (K → Option T) × Bool
  | l, [] => (l, false)
  | l, c :: cs => if accepts l c then (enter now l c, true) else walk now (enter now l c) cs

variable {now : T} {l : K → Option T} {c : Claim K T} {cs : List (Claim K T)} {x : K}

theorem enter_of_ne (h : c.key ≠ x) : enter now l c x = keep c l x := by
  simp only [enter]
  split
  · rw [Function.update_of_ne (Ne.symm h)]
  · rfl

theorem walk_of_first {before after : List (Claim K T)} (hx : l x = none) (hkey : c.key = x)
    (honce : c.once = true) (hbefore : ∀ d ∈ before, d.key ≠ x) :
    (walk now l (before ++ c :: after)).2 = true := by
  induction before generalizing l with
  | nil =>
    have haccepts : accepts l c = true := by
      simp [accepts, honce, keep_none (hkey ▸ hx)]
    simp [walk, haccepts]
  | cons d before ih =>
    rw [List.forall_mem_cons] at hbefore
    rw [List.cons_append, walk]
    split
    · rfl
    · apply ih _ hbefore.2
      rw [enter_of_ne hbefore.1]
      exact keep_none hx

-- every key recorded now, but for `x`
def openAt (now : T) (x : K) (o : Option T) : K → Option T :=
  Function.update (fun _ => some now) x o

theorem openAt_self (o : Option T) : openAt now x o x = o := Function.update_self ..

theorem keep_openAt (hnow : c.window now = true) (o : Option T) :
    keep c (openAt now x o) = openAt now x (o.filter c.window) := by
  funext k
  by_cases hk : k = x
  · subst hk
    simp [keep, openAt]
  · simp [keep, openAt, Function.update_of_ne hk, hnow]

theorem accepts_openAt (hnow : c.window now = true) (o : Option T) :
    accepts (openAt now x o) c = (c.once && (decide (c.key = x) && (o.filter c.window).isNone)) := by
  rw [accepts, keep_openAt hnow]
  by_cases hk : c.key = x
  · simp [hk, openAt]
  · simp [openAt, hk]

theorem enter_openAt (hnow : c.window now = true) (o : Option T) :
    enter now (openAt now x o) c =
      openAt now x (if c.key = x then (o.filter c.window).or (some now) else o.filter c.window) := by
  rw [enter, keep_openAt hnow]
  by_cases hk : c.key = x
  · subst hk
    rw [if_pos rfl, openAt_self]
    cases o.filter c.window with
    | none => simp [openAt]
    | some t => rfl
  · have hsome : openAt now x (o.filter c.window) c.key = some now := by
      simp [openAt, Function.update_of_ne hk]
    simp [hsome, hk]

theorem walk_recorded (hnow : ∀ d ∈ cs, d.window now = true) :
    walk now (openAt now x (some now)) cs = (openAt now x (some now), false) := by
  induction cs with
  | nil => rfl
  | cons d cs ih =>
    rw [List.forall_mem_cons] at hnow
    have hkeep : (some now).filter d.window = some now := by simp [hnow.1]
    have hrefused : accepts (openAt now x (some now)) d = false := by
      rw [accepts_openAt hnow.1, hkeep]
      simp
    rw [walk, hrefused, enter_openAt hnow.1, hkeep]
    simpa using ih hnow.2

theorem walk_of_first_repeated {before after : List (Claim K T)}
    (hnow : ∀ d ∈ before ++ c :: after, d.window now = true) (hkey : c.key = x)
    (honce : c.once = false) (hbefore : ∀ d ∈ before, d.key ≠ x) :
    (walk now (openAt now x none) (before ++ c :: after)).2 = false := by
  induction before with
  | nil =>
    rw [List.nil_append, List.forall_mem_cons] at hnow
    have hrefused : accepts (openAt now x none) c = false := by simp [accepts, honce]
    rw [List.nil_append, walk, hrefused, enter_openAt hnow.1, if_pos hkey]
    simp [walk_recorded hnow.2]
  | cons d before ih =>
    rw [List.cons_append, List.forall_mem_cons] at hnow
    rw [List.forall_mem_cons] at hbefore
    have hrefused : accepts (openAt now x none) d = false := by
      rw [accepts_openAt hnow.1]
      simp [hbefore.1]
    rw [List.cons_append, walk, hrefused, enter_openAt hnow.1, if_neg hbefore.1]
    simpa using ih hnow.2 hbefore.2

theorem enter_eq_some {t : T} (h : enter now l c x = some t) : keep c l x = some t ∨ t = now := by
  simp only [enter] at h
  split at h
  · by_cases hk : x = c.key
    · subst hk
      rw [Function.update_self] at h
      exact .inr (Option.some.inj h).symm
    · rw [Function.update_of_ne hk] at h
      exact .inl h
  · exact .inl h

theorem enter_of_recorded (h : (keep c l c.key).isSome = true) : enter now l c = keep c l := by
  rw [enter, if_neg]
  simpa [Option.isSome_iff_ne_none] using h

theorem keep_enter (hnow : c.window now = true) : keep c (enter now l c) = enter now l c := by
  funext k
  simp only [enter]
  split
  · by_cases hk : k = c.key
    · subst hk
      simp [keep, hnow]
    · simp only [keep, Function.update_of_ne hk]
      exact congrFun (keep_idem c l) k
  · exact congrFun (keep_idem c l) k

theorem enter_self (now : T) (l : K → Option T) (c : Claim K T) :
    ∃ t, enter now l c c.key = some t := by
  simp only [enter]
  split
  · exact ⟨now, Function.update_self ..⟩
  · rename_i h
    exact Option.ne_none_iff_exists'.mp (by simpa using h)

theorem lapses_of_keep_none {free : List (Claim K T)} {t : T} (hfree : ∀ d ∈ free, d.key ≠ x)
    (hx : l x = some t) (hnone : keep c (free.foldl (enter now) l) x = none) :
    ∃ d ∈ free ++ [c], d.window t = false := by
  induction free generalizing l with
  | nil =>
    refine ⟨c, by simp, ?_⟩
    cases hc : c.window t with
    | false => rfl
    | true =>
      have hsome : keep c l x = some t := keep_eq_some.mpr ⟨hx, hc⟩
      rw [List.foldl_nil, hsome] at hnone
      simp at hnone
  | cons d free ih =>
    rw [List.forall_mem_cons] at hfree
    cases hd : d.window t with
    | false => exact ⟨d, by simp, hd⟩
    | true =>
      have hstep : enter now l d x = some t := by
        rw [enter_of_ne hfree.1]
        exact keep_eq_some.mpr ⟨hx, hd⟩
      obtain ⟨e, he, hlapse⟩ := ih hfree.2 hstep hnone
      exact ⟨e, by simpa using .inr (List.mem_append.mp he |>.imp id List.mem_singleton.mp), hlapse⟩

-- Why a key is free when a claim is reached: no claim before it has the key, or the payment that
-- was recorded for it held up to the last such claim and lapsed since.
theorem held_or_free {before : List (Claim K T)} (hnow : ∀ d ∈ before ++ [c], d.window now = true)
    (hnone : keep c (before.foldl (enter now) l) x = none) :
    (∀ d ∈ before, d.key ≠ x) ∨ ∃ t held free, l x = some t ∧ before = held ++ free ∧
      (∀ d ∈ held, d.window t = true) ∧ (∀ d ∈ free, d.key ≠ x) ∧
      ∃ d ∈ free ++ [c], d.window t = false := by
  induction before generalizing l with
  | nil => exact .inl (by simp)
  | cons d before ih =>
    rw [List.cons_append, List.forall_mem_cons] at hnow
    have hlapse_now : ∀ {t : T} {ds : List (Claim K T)}, (∀ e ∈ ds, e ∈ before ++ [c]) →
        (∃ e ∈ ds, e.window t = false) → t ≠ now := by
      rintro t ds hsub ⟨e, he, hlapse⟩ rfl
      rw [hnow.2 e (hsub e he)] at hlapse
      simp at hlapse
    rcases ih hnow.2 hnone with hfree | ⟨t, held, free, hx, rfl, hheld, hfree, hlapse⟩
    · by_cases hd : d.key = x
      · obtain ⟨t, ht⟩ := enter_self now l d
        rw [hd] at ht
        have hlapse := lapses_of_keep_none hfree ht hnone
        rcases enter_eq_some ht with hkeep | rfl
        · obtain ⟨hx, hwin⟩ := keep_eq_some.mp hkeep
          exact .inr ⟨t, [d], before, hx, rfl, by simpa using hwin, hfree, hlapse⟩
        · exact absurd rfl (hlapse_now (fun e he => he) hlapse)
      · exact .inl (List.forall_mem_cons.mpr ⟨hd, hfree⟩)
    · rcases enter_eq_some hx with hkeep | rfl
      · obtain ⟨hx, hwin⟩ := keep_eq_some.mp hkeep
        exact .inr ⟨t, d :: held, free, hx, rfl, List.forall_mem_cons.mpr ⟨hwin, hheld⟩, hfree,
          hlapse⟩
      · refine absurd rfl (hlapse_now ?_ hlapse)
        intro e he
        simp only [List.append_assoc, List.mem_append] at he ⊢
        exact .inr he

theorem walk_eq_true (h : (walk now l cs).2 = true) :
    ∃ before c after, cs = before ++ c :: after ∧ c.once = true ∧
      keep c (before.foldl (enter now) l) c.key = none := by
  induction cs generalizing l with
  | nil => simp [walk] at h
  | cons d cs ih =>
    rw [walk] at h
    split at h
    · rename_i haccepts
      simp only [accepts, Bool.and_eq_true, Option.isNone_iff_eq_none] at haccepts
      exact ⟨[], d, cs, rfl, haccepts.1, haccepts.2⟩
    · obtain ⟨before, c, after, rfl, honce, hnone⟩ := ih h
      exact ⟨d :: before, c, after, rfl, honce, hnone⟩

def Payable (cs : List (Claim K T)) : Prop :=
  ∃ held free c after, cs = held ++ (free ++ c :: after) ∧ c.once = true ∧
    (∀ d ∈ free, d.key ≠ c.key) ∧
    (held = [] ∨ ∃ t, (∀ d ∈ held, d.window t = true) ∧ ∃ d ∈ free ++ [c], d.window t = false)

theorem payable_of_walk (hnow : ∀ d ∈ cs, d.window now = true) (h : (walk now l cs).2 = true) :
    Payable cs := by
  obtain ⟨before, c, after, rfl, honce, hnone⟩ := walk_eq_true h
  have hbefore : ∀ d ∈ before ++ [c], d.window now = true := by
    intro d hd
    apply hnow
    simp only [List.mem_append, List.mem_cons, List.not_mem_nil, or_false] at hd ⊢
    exact hd.imp id .inl
  rcases held_or_free hbefore hnone with hfree | ⟨t, held, free, -, rfl, hheld, hfree, hlapse⟩
  · exact ⟨[], before, c, after, rfl, honce, hfree, .inl rfl⟩
  · exact ⟨held, free, c, after, by simp, honce, hfree, .inr ⟨t, hheld, hlapse⟩⟩

theorem walk_held {held rest : List (Claim K T)} {t : T} (hnow : ∀ d ∈ held, d.window now = true)
    (hheld : ∀ d ∈ held, d.window t = true) :
    walk now (openAt now x (some t)) (held ++ rest) = walk now (openAt now x (some t)) rest := by
  induction held with
  | nil => rfl
  | cons d held ih =>
    rw [List.forall_mem_cons] at hnow hheld
    have hkeep : (some t).filter d.window = some t := by simp [hheld.1]
    have hrefused : accepts (openAt now x (some t)) d = false := by
      rw [accepts_openAt hnow.1, hkeep]
      simp
    rw [List.cons_append, walk, hrefused, enter_openAt hnow.1, hkeep]
    simpa using ih hnow.2 hheld.2

theorem walk_free {free rest : List (Claim K T)} (hnow : ∀ d ∈ free, d.window now = true)
    (hfree : ∀ d ∈ free, d.key ≠ x) (o : Option T) :
    walk now (openAt now x o) (free ++ rest) = walk now (openAt now x (lapse o free)) rest := by
  induction free generalizing o with
  | nil => rfl
  | cons d free ih =>
    rw [List.forall_mem_cons] at hnow hfree
    have hrefused : accepts (openAt now x o) d = false := by
      rw [accepts_openAt hnow.1]
      simp [hfree.1]
    rw [List.cons_append, walk, hrefused, enter_openAt hnow.1, if_neg hfree.1]
    exact ih hnow.2 hfree.2 _

theorem walk_absent (hnow : ∀ d ∈ cs, d.window now = true) (habsent : ∀ d ∈ cs, d.key ≠ x)
    (o : Option T) : (walk now (openAt now x o) cs).2 = false := by
  have h : walk now (openAt now x o) (cs ++ []) = walk now (openAt now x (lapse o cs)) [] :=
    walk_free hnow habsent o
  rw [List.append_nil] at h
  rw [h]
  rfl

theorem walk_accept {before after : List (Claim K T)} {o : Option T}
    (hnow : ∀ d ∈ before ++ c :: after, d.window now = true) (honce : c.once = true)
    (hfree : ∀ d ∈ before, d.key ≠ c.key) (hlapse : lapse o (before ++ [c]) = none) :
    walk now (openAt now c.key o) (before ++ c :: after) =
      (openAt now c.key (some now), true) := by
  simp only [List.forall_mem_append, List.forall_mem_cons] at hnow
  have hnone : (lapse o before).filter c.window = none := by
    simpa [lapse] using hlapse
  rw [walk_free hnow.1 hfree, walk, accepts_openAt hnow.2.1, enter_openAt hnow.2.1, hnone]
  simp [honce]

theorem exists_accepted_then_refused (hnow : ∀ d ∈ cs, d.window now = true) (h : Payable cs) :
    ∃ l, (walk now l cs).2 = true ∧ (walk now (walk now l cs).1 cs).2 = false := by
  obtain ⟨held, free, c, after, rfl, honce, hfree, hheld⟩ := h
  have hrest : ∀ d ∈ free ++ c :: after, d.window now = true :=
    fun d hd => hnow d (List.mem_append_right held hd)
  have hopen : ∃ o, walk now (openAt now c.key o) (held ++ (free ++ c :: after)) =
      (openAt now c.key (some now), true) := by
    rcases hheld with rfl | ⟨t, hheld, hlapse⟩
    · exact ⟨none, walk_accept hrest honce hfree (lapse_none _)⟩
    · refine ⟨some t, ?_⟩
      rw [walk_held (fun d hd => hnow d (List.mem_append_left _ hd)) hheld]
      exact walk_accept hrest honce hfree (lapse_some hlapse)
  obtain ⟨o, ho⟩ := hopen
  refine ⟨openAt now c.key o, by rw [ho], ?_⟩
  rw [ho, walk_recorded hnow]

theorem walk_repeatable_iff (hnow : ∀ d ∈ cs, d.window now = true) :
    (∀ l, (walk now (walk now l cs).1 cs).2 = (walk now l cs).2) ↔ ¬ Payable cs := by
  constructor
  · intro hsame hpay
    obtain ⟨l, hfirst, hsecond⟩ := exists_accepted_then_refused hnow hpay
    have heq := hsame l
    rw [hfirst, hsecond] at heq
    simp at heq
  · intro hpay l
    have hnever : ∀ l, (walk now l cs).2 = false := by
      intro l
      cases hwalk : (walk now l cs).2 with
      | false => rfl
      | true => exact absurd (payable_of_walk hnow hwalk) hpay
    rw [hnever, hnever]

end WindowLedger
