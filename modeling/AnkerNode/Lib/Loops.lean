import Mathlib.Data.List.Basic
import Mathlib.Data.Nat.Notation

-- Loops that need not end: a step goes on with a state or ends with a result.
namespace WhileLoop

variable {σ ρ : Type} (step : σ → σ ⊕ ρ)

def run : Nat → σ → Option ρ
  | 0, _ => none
  | fuel + 1, s =>
    match step s with
    | .inl s' => run fuel s'
    | .inr r => some r

def Ends (s : σ) (r : ρ) : Prop := ∃ fuel, run step fuel s = some r

variable {step} {s s' : σ} {r r' : ρ}

theorem ends_of_inr (h : step s = .inr r) : Ends step s r := ⟨1, by rw [run, h]⟩

theorem ends_inl_iff (h : step s = .inl s') : Ends step s r ↔ Ends step s' r := by
  constructor
  · rintro ⟨fuel, hfuel⟩
    cases fuel with
    | zero => simp [run] at hfuel
    | succ fuel =>
      rw [run, h] at hfuel
      exact ⟨fuel, hfuel⟩
  · rintro ⟨fuel, hfuel⟩
    exact ⟨fuel + 1, by rw [run, h]; exact hfuel⟩

-- A loop that keeps to states from which it goes on never ends.
theorem not_ends {P : σ → Prop} (hstep : ∀ s, P s → ∃ s', step s = .inl s' ∧ P s') (hs : P s) :
    ¬Ends step s r := by
  rintro ⟨fuel, hfuel⟩
  induction fuel generalizing s with
  | zero => simp [run] at hfuel
  | succ fuel ih =>
    obtain ⟨s', hinl, hs'⟩ := hstep s hs
    rw [run, hinl] at hfuel
    exact ih hs' hfuel

-- A loop that goes on only to a smaller state ends.
theorem exists_ends_of_measure {P : σ → Prop} (μ : σ → Nat)
    (hstep : ∀ s s', P s → step s = .inl s' → P s' ∧ μ s' < μ s) (hs : P s) :
    ∃ r, Ends step s r := by
  induction hμ : μ s using Nat.strongRecOn generalizing s with
  | ind n ih =>
    cases hnext : step s with
    | inr r => exact ⟨r, ends_of_inr hnext⟩
    | inl s' =>
      obtain ⟨hs', hlt⟩ := hstep s s' hs hnext
      obtain ⟨r, hr⟩ := ih (μ s') (hμ ▸ hlt) hs' rfl
      exact ⟨r, (ends_inl_iff hnext).mpr hr⟩

-- A result comes from a state that still has what every step keeps.
theorem exists_last_of_ends {P : σ → Prop} (hstep : ∀ s s', P s → step s = .inl s' → P s')
    (hs : P s) (h : Ends step s r) : ∃ s', P s' ∧ step s' = .inr r := by
  obtain ⟨fuel, hfuel⟩ := h
  induction fuel generalizing s with
  | zero => cases hfuel
  | succ fuel ih =>
    rw [run] at hfuel
    split at hfuel
    · exact ih (hstep s _ hs ‹_›) hfuel
    · cases hfuel
      exact ⟨s, hs, ‹_›⟩

end WhileLoop

-- A loop that pops the front of a queue and appends what the popped item calls for. An
-- iteration that appends something shrinks the state, so every queue is emptied.
structure Worklist (σ κ : Type) where
  step : σ → κ → σ × List κ
  size : σ → Nat
  shrinks : ∀ s k, size (step s k).1 < size s ∨ (size (step s k).1 = size s ∧ (step s k).2 = [])

namespace Worklist

variable {σ κ : Type} (w : Worklist σ κ)

def run (queue : List κ) (s : σ) : σ :=
  match queue with
  | [] => s
  | k :: queue => run (queue ++ (w.step s k).2) (w.step s k).1
termination_by (w.size s, queue.length)
decreasing_by
  rcases w.shrinks s k with h | ⟨h, hnew⟩
  · exact Prod.Lex.left _ _ h
  · rw [h, hnew]
    exact Prod.Lex.right _ (by simp)

@[simp] theorem run_nil (s : σ) : w.run [] s = s := by
  rw [run]

theorem run_cons (k : κ) (queue : List κ) (s : σ) :
    w.run (k :: queue) s = w.run (queue ++ (w.step s k).2) (w.step s k).1 := by
  rw [run]

theorem run_invariant (P : List κ → σ → Prop)
    (hstep : ∀ k queue s, P (k :: queue) s → P (queue ++ (w.step s k).2) (w.step s k).1)
    (queue : List κ) (s : σ) (h : P queue s) : P [] (w.run queue s) := by
  fun_induction run w queue s with
  | case1 s => exact h
  | case2 s k queue ih => exact ih (hstep k queue s h)

end Worklist

-- What every order of steps comes to.
namespace Transitions

variable {σ ε : Type} (step : σ → ε → σ → Prop) (goal : ε → Prop)

inductive Inevitable : σ → Prop
  | intro {s : σ} (henabled : ∃ e s', step s e s')
      (hnext : ∀ e s', step s e s' → ¬goal e → Inevitable s') : Inevitable s

variable {step goal}

-- Steps that go down and that can be taken as long as the goal is not reached.
theorem Inevitable.of_measure {P : σ → Prop} (μ : σ → Nat)
    (henabled : ∀ s, P s → ∃ e s', step s e s')
    (hnext : ∀ s e s', P s → step s e s' → ¬goal e → P s' ∧ μ s' < μ s) {s : σ} (hs : P s) :
    Inevitable step goal s := by
  induction hμ : μ s using Nat.strongRecOn generalizing s with
  | ind n ih =>
    refine .intro (henabled s hs) fun e s' hstep hgoal => ?_
    obtain ⟨hs', hlt⟩ := hnext s e s' hs hstep hgoal
    exact ih (μ s') (hμ ▸ hlt) hs' rfl

end Transitions

-- A machine that a call may stop, beside one that says what the calls are for.
namespace Calls

variable {σ τ α ρ : Type} (call : σ → α → Option (ρ × σ)) (spec : τ → α → ρ × τ)

def run (s : σ) : List α → Option (List ρ × σ)
  | [] => some ([], s)
  | a :: as => do
    let (r, s) ← call s a
    let (rs, s) ← run s as
    some (r :: rs, s)

def runSpec (t : τ) : List α → List ρ × τ
  | [] => ([], t)
  | a :: as =>
    let (rs, t') := runSpec (spec t a).2 as
    ((spec t a).1 :: rs, t')

variable {call spec}

theorem run_refines {R : σ → τ → Prop} {P : α → Prop}
    (hcall : ∀ s t a, R s t → P a → ∃ s', call s a = some ((spec t a).1, s') ∧ R s' (spec t a).2)
    {s : σ} {t : τ} {as : List α} (h : R s t) (has : ∀ a ∈ as, P a) :
    ∃ s', run call s as = some ((runSpec spec t as).1, s') ∧ R s' (runSpec spec t as).2 := by
  induction as generalizing s t with
  | nil => exact ⟨s, rfl, h⟩
  | cons a as ih =>
    obtain ⟨ha, has⟩ := List.forall_mem_cons.mp has
    obtain ⟨s₁, hcalled, h₁⟩ := hcall s t a h ha
    obtain ⟨s₂, hrun, h₂⟩ := ih h₁ has
    refine ⟨s₂, ?_, h₂⟩
    simp only [run, runSpec, hcalled, hrun, Option.bind_eq_bind, Option.bind_some]

end Calls
