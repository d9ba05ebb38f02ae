import AnkerNode.Lib.Checks

structure Traced (ω ε α : Type) where
  log : List ω
  result : Except ε α

namespace Traced

variable {ω ε α β γ δ : Type}

def lift (x : Except ε α) : Traced ω ε α := ⟨[], x⟩

def emit (w : ω) : Traced ω ε Unit := ⟨[w], .ok ()⟩

def andThen (x : Traced ω ε α) (f : α → Traced ω ε β) : Traced ω ε β :=
  match x.result with
  | .error e => ⟨x.log, .error e⟩
  | .ok a => ⟨x.log ++ (f a).log, (f a).result⟩

instance : Monad (Traced ω ε) where
  pure a := ⟨[], .ok a⟩
  bind := andThen

instance : MonadLift (Except ε) (Traced ω ε) where
  monadLift := lift

@[simp] theorem result_pure (a : α) : (pure a : Traced ω ε α).result = .ok a := rfl

@[simp] theorem log_pure (a : α) : (pure a : Traced ω ε α).log = [] := rfl

@[simp] theorem result_lift (x : Except ε α) : (lift x : Traced ω ε α).result = x := rfl

@[simp] theorem log_lift (x : Except ε α) : (lift x : Traced ω ε α).log = [] := rfl

@[simp] theorem liftM_eq (x : Except ε α) : (liftM x : Traced ω ε α) = lift x := rfl

@[simp] theorem result_emit (w : ω) : (emit w : Traced ω ε Unit).result = .ok () := rfl

@[simp] theorem log_emit (w : ω) : (emit w : Traced ω ε Unit).log = [w] := rfl

theorem bind_of_error {x : Traced ω ε α} {f : α → Traced ω ε β} {e : ε} (h : x.result = .error e) :
    x >>= f = ⟨x.log, .error e⟩ := by
  change andThen x f = _
  simp only [andThen, h]

theorem bind_of_ok {x : Traced ω ε α} {f : α → Traced ω ε β} {a : α} (h : x.result = .ok a) :
    x >>= f = ⟨x.log ++ (f a).log, (f a).result⟩ := by
  change andThen x f = _
  simp only [andThen, h]

theorem lift_bind (x : Except ε α) (f : α → Except ε β) :
    (lift (x >>= f) : Traced ω ε β) = lift x >>= fun a => lift (f a) := by
  cases x with
  | error e => rfl
  | ok a => rfl

theorem result_bind_eq_ok {x : Traced ω ε α} {f : α → Traced ω ε β} {b : β} :
    (x >>= f).result = .ok b ↔ ∃ a, x.result = .ok a ∧ (f a).result = .ok b := by
  cases h : x.result with
  | error e => simp [bind_of_error h]
  | ok a => simp [bind_of_ok h]

theorem avoids_result_bind {x : Traced ω ε α} {f : α → Traced ω ε β} {e : ε}
    (hx : Checks.Avoids e x.result) (hf : ∀ a, Checks.Avoids e (f a).result) :
    Checks.Avoids e (x >>= f).result := by
  cases h : x.result with
  | error e' =>
    rw [h] at hx
    rw [bind_of_error h]
    simpa [Checks.Avoids] using hx
  | ok a =>
    rw [bind_of_ok h]
    exact hf a

def Yields (Q : α → Prop) (m : Traced ω ε α) : Prop := ∀ a, m.result = .ok a → Q a

def Simulates (R : α → β → Prop) (m₂ : Traced ω ε α) (m₁ : Traced ω ε β) : Prop :=
  ∀ a, m₂.result = .ok a → ∃ b, m₁.result = .ok b ∧ R a b

def Within (p : ω → Bool) (n : Nat) (m : Traced ω ε α) : Prop := m.log.countP p ≤ n

def Vouched (P : ω → Prop) (m : Traced ω ε α) : Prop :=
  m.result.isOk = true → ∀ w ∈ m.log, P w

section Results

variable {Q : α → Prop} {Q' : β → Prop}

theorem yields_pure {a : α} (h : Q a) : Yields Q (pure a : Traced ω ε α) := by
  intro a' ha'
  obtain rfl : a = a' := by simpa using ha'
  exact h

theorem yields_lift {x : Except ε α} (h : ∀ a, x = .ok a → Q a) :
    Yields Q (lift x : Traced ω ε α) := h

theorem Yields.bind {x : Traced ω ε α} {f : α → Traced ω ε β} (hx : Yields Q x)
    (hf : ∀ a, Q a → Yields Q' (f a)) : Yields Q' (x >>= f) := by
  intro b hb
  obtain ⟨a, ha, hfa⟩ := result_bind_eq_ok.mp hb
  exact hf a (hx a ha) b hfa

theorem Yields.of_bind {x : Traced ω ε α} {f : α → Traced ω ε β}
    (hf : ∀ a, Yields Q' (f a)) : Yields Q' (x >>= f) := by
  intro b hb
  obtain ⟨a, -, hfa⟩ := result_bind_eq_ok.mp hb
  exact hf a b hfa

end Results

section Simulation

variable {R : α → β → Prop} {S : γ → δ → Prop}

theorem simulates_refl (m : Traced ω ε α) : Simulates Eq m m :=
  fun a h => ⟨a, h, rfl⟩

theorem simulates_pure {a : α} {b : β} (h : R a b) :
    Simulates R (pure a : Traced ω ε α) (pure b) := by
  intro a' ha'
  obtain rfl : a = a' := by simpa using ha'
  exact ⟨b, rfl, h⟩

theorem simulates_pure_right {m₂ : Traced ω ε α} {b : β} (h : Yields (fun a => R a b) m₂) :
    Simulates R m₂ (pure b : Traced ω ε β) :=
  fun a ha => ⟨b, rfl, h a ha⟩

theorem simulates_lift {x₂ x₁ : Except ε α} (h : Checks.OkImplies x₂ x₁) :
    Simulates Eq (lift x₂ : Traced ω ε α) (lift x₁) :=
  fun a ha => ⟨a, h a ha, rfl⟩

theorem Simulates.mono {R' : α → β → Prop} {m₂ : Traced ω ε α} {m₁ : Traced ω ε β}
    (h : Simulates R m₂ m₁) (hR : ∀ a b, R a b → R' a b) : Simulates R' m₂ m₁ := by
  intro a ha
  obtain ⟨b, hb, hab⟩ := h a ha
  exact ⟨b, hb, hR a b hab⟩

theorem Simulates.bind {m₂ : Traced ω ε α} {m₁ : Traced ω ε β} {f₂ : α → Traced ω ε γ}
    {f₁ : β → Traced ω ε δ} (hm : Simulates R m₂ m₁)
    (hf : ∀ a b, R a b → Simulates S (f₂ a) (f₁ b)) : Simulates S (m₂ >>= f₂) (m₁ >>= f₁) := by
  intro c hc
  obtain ⟨a, ha, hfa⟩ := result_bind_eq_ok.mp hc
  obtain ⟨b, hb, hab⟩ := hm a ha
  obtain ⟨d, hd, hcd⟩ := hf a b hab c hfa
  exact ⟨d, result_bind_eq_ok.mpr ⟨b, hb, hd⟩, hcd⟩

theorem Simulates.bind_eq {m₂ m₁ : Traced ω ε α} {f₂ : α → Traced ω ε γ}
    {f₁ : α → Traced ω ε δ} (hm : Simulates Eq m₂ m₁)
    (hf : ∀ a, Simulates S (f₂ a) (f₁ a)) : Simulates S (m₂ >>= f₂) (m₁ >>= f₁) :=
  hm.bind fun a _ hab => hab ▸ hf a

theorem Simulates.ite {c : Prop} [Decidable c] {m₂ n₂ : Traced ω ε α} {m₁ n₁ : Traced ω ε β}
    (hm : Simulates R m₂ m₁) (hn : Simulates R n₂ n₁) :
    Simulates R (if c then m₂ else n₂) (if c then m₁ else n₁) := by
  split
  · exact hm
  · exact hn

theorem simulates_eq_iff {m₂ m₁ : Traced ω ε α} :
    Simulates Eq m₂ m₁ ↔ ∀ a, m₂.result = .ok a → m₁.result = .ok a := by
  constructor
  · intro h a ha
    obtain ⟨b, hb, rfl⟩ := h a ha
    exact hb
  · intro h a ha
    exact ⟨a, h a ha, rfl⟩

end Simulation

section Cost

variable {p : ω → Bool} {n k : Nat}

theorem within_pure (a : α) : Within p 0 (pure a : Traced ω ε α) := by simp [Within]

theorem within_lift (x : Except ε α) : Within p 0 (lift x : Traced ω ε α) := by simp [Within]

theorem within_emit (w : ω) : Within p 1 (emit w : Traced ω ε Unit) :=
  List.countP_le_length

theorem within_emit_of_not {w : ω} (h : p w = false) : Within p 0 (emit w : Traced ω ε Unit) := by
  simp [Within, h]

theorem Within.mono {m : Traced ω ε α} (h : Within p n m) (hn : n ≤ k) : Within p k m :=
  Nat.le_trans h hn

theorem Within.ite {c : Prop} [Decidable c] {x y : Traced ω ε α} (hx : Within p n x)
    (hy : Within p n y) : Within p n (if c then x else y) := by
  split
  · exact hx
  · exact hy

theorem Within.bind {x : Traced ω ε α} {f : α → Traced ω ε β} (hx : Within p n x)
    (hf : ∀ a, x.result = .ok a → Within p k (f a)) : Within p (n + k) (x >>= f) := by
  cases h : x.result with
  | error e =>
    rw [bind_of_error h]
    exact hx.mono (Nat.le_add_right n k)
  | ok a =>
    rw [bind_of_ok h]
    simp only [Within, List.countP_append]
    exact Nat.add_le_add hx (hf a h)

theorem Within.bind_free {x : Traced ω ε α} {f : α → Traced ω ε β} (hx : Within p 0 x)
    (hf : ∀ a, x.result = .ok a → Within p k (f a)) : Within p k (x >>= f) := by
  simpa using hx.bind hf

end Cost

section Voucher

variable {P : ω → Prop}

theorem vouched_pure (a : α) : Vouched P (pure a : Traced ω ε α) := by simp [Vouched]

theorem vouched_lift (x : Except ε α) : Vouched P (lift x : Traced ω ε α) := by simp [Vouched]

theorem vouched_of_error {m : Traced ω ε α} {e : ε} (h : m.result = .error e) : Vouched P m := by
  simp [Vouched, h, Except.isOk, Except.toBool]

theorem vouched_emit {w : ω} (h : P w) : Vouched P (emit w : Traced ω ε Unit) := by
  simp [Vouched, h]

theorem Vouched.ite {c : Prop} [Decidable c] {x y : Traced ω ε α} (hx : Vouched P x)
    (hy : Vouched P y) : Vouched P (if c then x else y) := by
  split
  · exact hx
  · exact hy

theorem Vouched.bind {x : Traced ω ε α} {f : α → Traced ω ε β} (hx : Vouched P x)
    (hf : ∀ a, Vouched P (f a)) : Vouched P (x >>= f) := by
  cases h : x.result with
  | error e => simp [Vouched, bind_of_error h, Except.isOk, Except.toBool]
  | ok a =>
    intro hok w hw
    rw [bind_of_ok h] at hok hw
    rcases List.mem_append.mp hw with hw | hw
    · exact hx (by simp [h, Except.isOk, Except.toBool]) w hw
    · exact hf a hok w hw

end Voucher

end Traced

-- One computation follows another that can fail in fewer ways: their results correspond by `S`,
-- and every failure of the first is one that `R` explains by the failure of the second.
namespace Following

open Checks Traced

variable {ω ε ε' α β γ δ : Type}

inductive Follows (R : ε → ε' → Prop) (S : α → β → Prop) : Except ε α → Except ε' β → Prop
  | ok {a : α} {b : β} (h : S a b) : Follows R S (.ok a) (.ok b)
  | error {e : ε} {e' : ε'} (h : R e e') : Follows R S (.error e) (.error e')

structure Tracks (R : ε → ε' → Prop) (S : α → β → Prop) (x : Traced ω ε α) (y : Traced ω ε' β) :
    Prop where
  log : x.log = y.log
  result : Follows R S x.result y.result

variable {R : ε → ε' → Prop} {S : α → β → Prop} {T : γ → δ → Prop}

theorem Follows.andThen {x : Except ε α} {y : Except ε' β} {f : α → Except ε γ}
    {g : β → Except ε' δ} (h : Follows R S x y) (hf : ∀ a b, S a b → Follows R T (f a) (g b)) :
    Follows R T (x >>= f) (y >>= g) := by
  cases h with
  | ok h => exact hf _ _ h
  | error h => exact .error h

theorem Follows.bind {x : Except ε α} {y : Except ε' α} {f : α → Except ε γ} {g : α → Except ε' δ}
    (h : Follows R Eq x y) (hf : ∀ a, y = .ok a → Follows R T (f a) (g a)) :
    Follows R T (x >>= f) (y >>= g) := by
  cases h with
  | ok h =>
    subst h
    exact hf _ rfl
  | error h => exact .error h

theorem Follows.ok_iff {x : Except ε α} {y : Except ε' α} (h : Follows R Eq x y) {a : α} :
    x = .ok a ↔ y = .ok a := by
  cases h with
  | ok h => rw [h, Except.ok.injEq, Except.ok.injEq]
  | error h => exact ⟨nofun, nofun⟩

theorem Follows.explained {x : Except ε α} {y : Except ε' β} (h : Follows R S x y) {e : ε}
    (hx : x = .error e) : ∃ e', y = .error e' ∧ R e e' := by
  subst hx
  cases h with
  | error h => exact ⟨_, rfl, h⟩

theorem Follows.avoids {x : Except ε α} {y : Except ε' β} (h : Follows R S x y) {e' : ε'}
    (he : ∀ e, ¬ R e e') : Avoids e' y := by
  cases h with
  | ok h => exact avoids_ok
  | error h =>
    intro heq
    rw [Except.error.injEq] at heq
    exact he _ (heq ▸ h)

theorem follows_failIf {e : ε} {e' : ε'} (h : R e e') (cond : Bool) :
    Follows R Eq (failIf cond e) (failIf cond e') := by
  cases cond with
  | false => exact .ok rfl
  | true => exact .error h

theorem follows_mapError {f : ε' → ε} {y : Except ε' α} (h : ∀ e', y = .error e' → R (f e') e') :
    Follows R Eq (mapError f y) y := by
  cases y with
  | ok a => exact .ok rfl
  | error e => exact .error (h e rfl)

theorem tracks_pure (a : α) : Tracks R Eq (pure a : Traced ω ε α) (pure a) := ⟨rfl, .ok rfl⟩

theorem tracks_lift {x : Except ε α} {y : Except ε' β} (h : Follows R S x y) :
    Tracks R S (lift x : Traced ω ε α) (lift y) := ⟨rfl, h⟩

theorem Tracks.andThen {x : Traced ω ε α} {y : Traced ω ε' β} {f : α → Traced ω ε γ}
    {g : β → Traced ω ε' δ} (h : Tracks R S x y) (hf : ∀ a b, S a b → Tracks R T (f a) (g b)) :
    Tracks R T (x >>= f) (y >>= g) := by
  obtain ⟨xlog, xresult⟩ := x
  obtain ⟨ylog, yresult⟩ := y
  obtain ⟨hlog, hresult⟩ := h
  cases hresult with
  | ok h =>
    have ha := hf _ _ h
    exact ⟨congrArg₂ (· ++ ·) hlog ha.log, ha.result⟩
  | error h => exact ⟨hlog, .error h⟩

theorem Tracks.bind {x : Traced ω ε α} {y : Traced ω ε' α} {f : α → Traced ω ε γ}
    {g : α → Traced ω ε' δ} (h : Tracks R Eq x y) (hf : ∀ a, Tracks R T (f a) (g a)) :
    Tracks R T (x >>= f) (y >>= g) :=
  h.andThen fun a _ hab => hab ▸ hf a

theorem Tracks.ite {c : Prop} [Decidable c] {x x' : Traced ω ε α} {y y' : Traced ω ε' β}
    (h : Tracks R S x y) (h' : Tracks R S x' y') :
    Tracks R S (if c then x else x') (if c then y else y') := by
  split
  · exact h
  · exact h'

end Following
