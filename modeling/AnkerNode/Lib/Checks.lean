import Mathlib.Data.List.Basic

namespace Checks

variable {ε α β : Type}

def failIf (cond : Bool) (e : ε) : Except ε Unit := if cond then .error e else .ok ()

theorem failIf_eq_ok {cond : Bool} {e : ε} {u : Unit} :
    failIf cond e = .ok u ↔ cond = false := by
  cases cond <;> simp [failIf]

def onlyIf (cond : Bool) (x : Except ε Unit) : Except ε Unit := if cond then x else .ok ()

theorem onlyIf_eq_ok {cond : Bool} {x : Except ε Unit} {u : Unit} :
    onlyIf cond x = .ok u ↔ (cond = true → x = .ok ()) := by
  cases cond <;> simp [onlyIf]

theorem ok_bind (a : α) (f : α → Except ε β) : (Except.ok a >>= f) = f a := rfl

theorem failIf_bind {cond : Bool} {e : ε} (h : cond = false) (x : Except ε α) :
    (failIf cond e >>= fun _ => x) = x := by
  rw [h]
  rfl

theorem bind_eq_ok {x : Except ε α} {f : α → Except ε β} {b : β} :
    (x >>= f) = .ok b ↔ ∃ a, x = .ok a ∧ f a = .ok b := by
  cases x <;> simp [bind, Except.bind]

theorem seq_eq_ok {x : Except ε Unit} {y : Except ε α} {a : α} :
    (x >>= fun _ => y) = .ok a ↔ x = .ok () ∧ y = .ok a := by
  cases x <;> simp [bind, Except.bind]

def fromOption (e : ε) : Option α → Except ε α
  | none => .error e
  | some a => .ok a

theorem fromOption_eq_ok {o : Option α} {e : ε} {a : α} :
    fromOption e o = .ok a ↔ o = some a := by
  cases o <;> simp [fromOption]

def mapError {ε' : Type} (f : ε → ε') : Except ε α → Except ε' α
  | .error e => .error (f e)
  | .ok a => .ok a

theorem mapError_eq_ok {ε' : Type} {f : ε → ε'} {x : Except ε α} {a : α} :
    mapError f x = .ok a ↔ x = .ok a := by
  cases x <;> simp [mapError]

theorem mapError_bind {ε' : Type} (f : ε → ε') (x : Except ε α) (g : α → Except ε β) :
    mapError f (x >>= g) = mapError f x >>= fun a => mapError f (g a) := by
  cases x <;> rfl

theorem mapError_failIf {ε' : Type} (f : ε → ε') (cond : Bool) (e : ε) :
    mapError f (failIf cond e) = failIf cond (f e) := by
  cases cond <;> rfl

-- `x` does not fail with `e`.
def Avoids (e : ε) (x : Except ε α) : Prop := x ≠ .error e

theorem avoids_ok {e : ε} {a : α} : Avoids e (.ok a) := by simp [Avoids]

theorem avoids_bind_iff {e : ε} {x : Except ε α} {f : α → Except ε β} :
    Avoids e (x >>= f) ↔ Avoids e x ∧ ∀ a, x = .ok a → Avoids e (f a) := by
  cases x <;> simp [Avoids, bind, Except.bind]

theorem avoids_mapError {ε' : Type} {f : ε → ε'} {e : ε'} (h : ∀ e', f e' ≠ e) (x : Except ε α) :
    Avoids e (mapError f x) := by
  cases x with
  | error e' => simpa [Avoids, mapError] using h e'
  | ok a => exact avoids_ok

theorem avoids_failIf {e e' : ε} (h : e' ≠ e) (cond : Bool) : Avoids e (failIf cond e') := by
  cases cond with
  | false => exact avoids_ok
  | true => simpa [Avoids, failIf] using h

def OkImplies (x₂ x₁ : Except ε α) : Prop := ∀ a, x₂ = .ok a → x₁ = .ok a

theorem okImplies_refl (x : Except ε α) : OkImplies x x := fun _ h => h

theorem okImplies_failIf {cond₂ cond₁ : Bool} {e₂ e₁ : ε} (h : cond₁ = true → cond₂ = true) :
    OkImplies (failIf cond₂ e₂) (failIf cond₁ e₁) := by
  intro u hok
  rw [failIf_eq_ok] at hok ⊢
  cases cond₁ with
  | false => rfl
  | true => simp [h rfl] at hok

theorem okImplies_onlyIf {cond₂ cond₁ : Bool} {x : Except ε Unit}
    (h : cond₁ = true → cond₂ = true) : OkImplies (onlyIf cond₂ x) (onlyIf cond₁ x) := by
  intro u hok
  rw [onlyIf_eq_ok] at hok ⊢
  exact fun hc => hok (h hc)

theorem OkImplies.bind {x₂ x₁ : Except ε α} {f₂ f₁ : α → Except ε β} (hx : OkImplies x₂ x₁)
    (hf : ∀ a, OkImplies (f₂ a) (f₁ a)) : OkImplies (x₂ >>= f₂) (x₁ >>= f₁) := by
  intro b hb
  obtain ⟨a, ha, hfa⟩ := bind_eq_ok.mp hb
  exact bind_eq_ok.mpr ⟨a, hx a ha, hf a b hfa⟩

theorem exists_ok_of_isOk {x : Except ε α} (h : x.isOk = true) :
    ∃ a, x = .ok a := by
  cases x with
  | error e => simp [Except.isOk, Except.toBool] at h
  | ok a => exact ⟨a, rfl⟩

theorem eq_ok_of_toOption {x : Except ε α} {a : α} (h : x.toOption = some a) : x = .ok a := by
  cases x with
  | error e => simp [Except.toOption] at h
  | ok b => exact congrArg Except.ok (Option.some.inj h)

-- A filter whose test may fail has a result when no test fails.
theorem filterAuxM_eq_some {f : α → Option Bool} {l acc out : List α}
    (h : l.filterAuxM f acc = some out) :
    (∀ x ∈ l, ∃ b, f x = some b) ∧ ∀ x, x ∈ out ↔ (x ∈ l ∧ f x = some true) ∨ x ∈ acc := by
  induction l generalizing acc with
  | nil =>
    rw [List.filterAuxM, Option.pure_def, Option.some.injEq] at h
    simp [h]
  | cons a l ih =>
    rw [List.filterAuxM, Option.bind_eq_bind, Option.bind_eq_some_iff] at h
    obtain ⟨b, hb, h⟩ := h
    obtain ⟨hall, hmem⟩ := ih h
    refine ⟨List.forall_mem_cons.mpr ⟨⟨b, hb⟩, hall⟩, fun x => ?_⟩
    rw [hmem, List.mem_cons]
    cases b with
    | false =>
      simp only [cond_false]
      constructor
      · tauto
      · rintro (⟨rfl | hx, hfx⟩ | hx)
        · rw [hb] at hfx
          cases hfx
        · exact Or.inl ⟨hx, hfx⟩
        · exact Or.inr hx
    | true =>
      simp only [cond_true, List.mem_cons]
      constructor
      · rintro (hx | rfl | hx)
        · exact Or.inl ⟨Or.inr hx.1, hx.2⟩
        · exact Or.inl ⟨Or.inl rfl, hb⟩
        · exact Or.inr hx
      · tauto

theorem filterAuxM_isSome {f : α → Option Bool} {l acc : List α} (h : ∀ x ∈ l, ∃ b, f x = some b) :
    ∃ out, l.filterAuxM f acc = some out := by
  induction l generalizing acc with
  | nil => exact ⟨acc, rfl⟩
  | cons a l ih =>
    rw [List.forall_mem_cons] at h
    obtain ⟨⟨b, hb⟩, h⟩ := h
    rw [List.filterAuxM, hb, Option.bind_eq_bind, Option.bind_some]
    exact ih h

theorem filterM_eq_some {f : α → Option Bool} {l out : List α} (h : l.filterM f = some out) :
    (∀ x ∈ l, ∃ b, f x = some b) ∧ ∀ x, x ∈ out ↔ x ∈ l ∧ f x = some true := by
  rw [List.filterM, Option.bind_eq_bind, Option.bind_eq_some_iff] at h
  obtain ⟨acc, hacc, hout⟩ := h
  obtain ⟨hall, hmem⟩ := filterAuxM_eq_some hacc
  rw [Option.pure_def, Option.some.injEq] at hout
  refine ⟨hall, fun x => ?_⟩
  rw [← hout, List.mem_reverse, hmem]
  simp

theorem exists_filterM {f : α → Option Bool} {l : List α} (h : ∀ x ∈ l, ∃ b, f x = some b) :
    ∃ out, l.filterM f = some out := by
  obtain ⟨acc, hacc⟩ : ∃ acc, l.filterAuxM f [] = some acc := filterAuxM_isSome h
  exact ⟨acc.reverse, by rw [List.filterM, hacc]; rfl⟩

end Checks
