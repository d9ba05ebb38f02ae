import AnkerNode.Chain.Pow

namespace AnkerNode

open UInt256

-- The formula of the wave over unbounded numbers. A further target enters the average of `c` blocks
-- with a weight of one in `c + 2`.
namespace DarkGravity

def sumsFrom : Nat → Nat → List Nat → List Nat
  | _, _, [] => []
  | c, average, target :: targets =>
    (average * (c + 1) + target) ::
      sumsFrom (c + 1) ((average * (c + 1) + target) / (c + 2)) targets

def averageFrom : Nat → Nat → List Nat → Nat
  | _, average, [] => average
  | c, average, target :: targets =>
    averageFrom (c + 1) ((average * (c + 1) + target) / (c + 2)) targets

def sums : List Nat → List Nat
  | [] => []
  | target :: targets => sumsFrom 1 target targets

def average : List Nat → Nat
  | [] => 0
  | target :: targets => averageFrom 1 target targets

-- the time between the first block and the last, unless a time is not positive
def span : List Int → Int
  | t :: t' :: times => (if 0 < t then t - t' else 0) + span (t' :: times)
  | _ => 0

def clampSpan (nTargetTimespan nActualTimespan : Int) : Int :=
  min (nTargetTimespan * 3) (max (nTargetTimespan.tdiv 3) nActualTimespan)

theorem le_mul_div (n c : Nat) : n ≤ (c + 1 + 1) * (n / (c + 2)) + (c + 1) := by
  have hdiv : n < (c + 2) * (n / (c + 2) + 1) := Nat.lt_mul_div_succ n (Nat.succ_pos (c + 1))
  rw [Nat.mul_add, Nat.mul_one] at hdiv
  exact Nat.le_of_lt_succ hdiv

-- What the average loses by rounding is less than the square of the number of blocks.
theorem mul_le_averageFrom (targets : List Nat) (c avg : Nat) :
    avg * (c + 1) ≤ (c + targets.length + 1) * averageFrom c avg targets +
      targets.length * (c + targets.length + 1) := by
  induction targets generalizing c avg with
  | nil => simp [averageFrom, Nat.mul_comm]
  | cons target targets ih =>
    have hdiv := le_mul_div (avg * (c + 1) + target) c
    have hrest := ih (c + 1) ((avg * (c + 1) + target) / (c + 2))
    have hlength : c + (targets.length + 1) + 1 = c + 1 + targets.length + 1 := by omega
    rw [averageFrom, List.length_cons, hlength, Nat.add_mul targets.length 1, Nat.one_mul]
    rw [Nat.mul_comm (c + 1 + 1)] at hdiv
    omega

theorem sumsFrom_le {targets : List Nat} {c avg n : Nat} (h : n ∈ sumsFrom c avg targets) :
    n ≤ (c + targets.length + 1) * averageFrom c avg targets +
      targets.length * (c + targets.length + 1) := by
  induction targets generalizing c avg with
  | nil => simp [sumsFrom] at h
  | cons target targets ih =>
    have hlength : c + (targets.length + 1) + 1 = c + 1 + targets.length + 1 := by omega
    rw [averageFrom, List.length_cons, hlength, Nat.add_mul targets.length 1, Nat.one_mul]
    rw [sumsFrom, List.mem_cons] at h
    rcases h with rfl | h
    · have hdiv := le_mul_div (avg * (c + 1) + target) c
      have hrest := mul_le_averageFrom targets (c + 1) ((avg * (c + 1) + target) / (c + 2))
      rw [Nat.mul_comm (c + 1 + 1)] at hdiv
      omega
    · have hrest := ih h
      omega

-- When the last product fits, every sum before it does: a span is longer than the blocks counted.
theorem sums_lt {targets : List Nat} (hlength : targets.length = 24) {nActualTimespan n : Nat}
    (hspan : 240 ≤ nActualTimespan) (hproduct : average targets * nActualTimespan < 2 ^ 256)
    (hn : n ∈ sums targets) : n < 2 ^ 256 := by
  cases targets with
  | nil => simp at hlength
  | cons target targets =>
    rw [List.length_cons, Nat.add_right_cancel_iff] at hlength
    have hle := sumsFrom_le hn
    rw [hlength] at hle
    have hmul : averageFrom 1 target targets * 240 ≤
        averageFrom 1 target targets * nActualTimespan := Nat.mul_le_mul_left _ hspan
    rw [average] at hproduct
    omega

end DarkGravity

namespace GravityState

variable {s : GravityState}

-- the blocks that are read are the first ones, as many as are not counted yet
theorem loop_append {blocks rest : PowChain} (hrest : rest ≠ [])
    (hcount : s.CountBlocks + blocks.length = PastBlocksMax) :
    loop (blocks ++ rest) s = blocks.foldlM step s := by
  induction blocks generalizing s with
  | nil =>
    rw [List.length_nil, Nat.cast_zero, add_zero] at hcount
    match rest, hrest with
    | [_], _ => rfl
    | _ :: _ :: _, _ =>
      have hstop : 0 < PastBlocksMax ∧ PastBlocksMax < s.CountBlocks + 1 := by
        rw [hcount]
        decide
      rw [List.nil_append, loop, if_pos hstop]
      rfl
  | cons b blocks ih =>
    have hgo : ¬(0 < PastBlocksMax ∧ PastBlocksMax < s.CountBlocks + 1) := by
      rw [List.length_cons] at hcount
      omega
    obtain ⟨pprev, more, hmore⟩ : ∃ pprev more, blocks ++ rest = pprev :: more := by
      apply List.exists_cons_of_ne_nil
      simp [hrest]
    rw [List.foldlM_cons, List.cons_append, hmore, loop, if_neg hgo, ← hmore]
    cases hstep : s.step b with
    | none => rfl
    | some s' =>
      have hcount' : s'.CountBlocks = s.CountBlocks + 1 := by
        obtain ⟨averages, -, rfl⟩ := Option.map_eq_some_iff.mp hstep
        rfl
      apply ih
      rw [hcount']
      rw [List.length_cons] at hcount
      omega

def targets (blocks : PowChain) : List Nat := blocks.map fun b => b.target.toNat

def times (blocks : PowChain) : List Int := blocks.map PowIndex.getBlockTime

theorem step_eq {c : Nat} (hc : s.CountBlocks = c) (hpos : 0 < c) (hcount : c < 24)
    (hprev : s.PastDifficultyAveragePrev = s.PastDifficultyAverage) (b : PowIndex)
    (hfit : s.PastDifficultyAverage.toNat * (c + 1) + b.target.toNat < 2 ^ 256) :
    ∃ z, s.step b = some (s.counted b (z, z)) ∧
      z.toNat = (s.PastDifficultyAverage.toNat * (c + 1) + b.target.toNat) / (c + 2) := by
  obtain ⟨z, hz, hzn⟩ := divide_ofInt64 (n := s.CountBlocks + 1 + 1) (by omega) (by omega)
    (s.PastDifficultyAveragePrev.mulWord (s.CountBlocks + 1) + b.target)
  have hweight : (s.CountBlocks + 1).toNat = c + 1 := by omega
  have hdivisor : (s.CountBlocks + 1 + 1).toNat = c + 2 := by omega
  have hproduct : (s.PastDifficultyAveragePrev.mulWord (s.CountBlocks + 1)).toNat =
      s.PastDifficultyAverage.toNat * (c + 1) := by
    rw [toNat_mulWord (by omega) (by omega), hprev, hweight]
    exact Nat.mod_eq_of_lt (by omega)
  have haverages : s.averages b = some (z, z) := by
    have hfirst : ¬ s.CountBlocks + 1 = 1 := by omega
    have hmin : s.CountBlocks + 1 ≤ PastBlocksMin := by
      rw [PastBlocksMin]
      omega
    rw [averages, if_pos hmin, average, if_neg hfirst, hz]
    rfl
  refine ⟨z, by rw [step, haverages]; rfl, ?_⟩
  rw [hzn, BitVec.toNat_add, hproduct, Nat.mod_eq_of_lt hfit, hdivisor]

-- While the sums fit, the running average is the one over unbounded numbers.
theorem foldlM_step {blocks : PowChain} {c : Nat} (hc : s.CountBlocks = c) (hpos : 0 < c)
    (hcount : c + blocks.length ≤ 24)
    (hprev : s.PastDifficultyAveragePrev = s.PastDifficultyAverage)
    (hfit : ∀ n ∈ DarkGravity.sumsFrom c s.PastDifficultyAverage.toNat (targets blocks),
      n < 2 ^ 256) :
    ∃ s', blocks.foldlM step s = some s' ∧ s'.CountBlocks = c + blocks.length ∧
      s'.PastDifficultyAverage.toNat =
        DarkGravity.averageFrom c s.PastDifficultyAverage.toNat (targets blocks) ∧
      s'.nActualTimespan =
        s.nActualTimespan + DarkGravity.span (s.LastBlockTime :: times blocks) := by
  induction blocks generalizing s c with
  | nil => exact ⟨s, rfl, by simpa using hc, rfl, by simp [times, DarkGravity.span]⟩
  | cons b blocks ih =>
    rw [List.length_cons] at hcount
    simp only [targets, List.map_cons, DarkGravity.sumsFrom, List.forall_mem_cons] at hfit
    obtain ⟨z, hstep, hz⟩ := step_eq hc hpos (by omega) hprev b hfit.1
    have hc' : (s.counted b (z, z)).CountBlocks = (c + 1 : Nat) := by
      rw [counted, hc]
      rfl
    have haverage : (s.counted b (z, z)).PastDifficultyAverage.toNat =
        (s.PastDifficultyAverage.toNat * (c + 1) + b.target.toNat) / (c + 2) := hz
    obtain ⟨s', hs', hcount', haverage', hspan'⟩ := ih hc' (by omega) (by omega) rfl
      (by rw [haverage]; exact hfit.2)
    refine ⟨s', ?_, ?_, ?_, ?_⟩
    · rw [List.foldlM_cons, hstep]
      exact hs'
    · rw [hcount', List.length_cons]
      omega
    · rw [haverage', haverage]
      rfl
    · have hlast : (s.counted b (z, z)).LastBlockTime = b.getBlockTime := rfl
      have htimes : times (b :: blocks) = b.getBlockTime :: times blocks := rfl
      have hactual : (s.counted b (z, z)).nActualTimespan = s.nActualTimespan +
          if 0 < s.LastBlockTime then s.LastBlockTime - b.getBlockTime else 0 := by
        rw [counted]
        split
        · rfl
        · exact (Int.add_zero _).symm
      rw [hspan', hlast, htimes, DarkGravity.span, hactual, Int.add_assoc]

theorem loop_eq {chain : PowChain} (hlength : 24 < chain.length)
    (hfit : ∀ n ∈ DarkGravity.sums (targets (chain.take 24)), n < 2 ^ 256) :
    ∃ s, loop chain {} = some s ∧ s.CountBlocks = 24 ∧
      s.PastDifficultyAverage.toNat = DarkGravity.average (targets (chain.take 24)) ∧
      s.nActualTimespan = DarkGravity.span (times (chain.take 24)) := by
  obtain ⟨b, ancestors, rfl⟩ := List.exists_cons_of_length_pos (Nat.zero_lt_of_lt hlength)
  rw [List.take_succ_cons] at hfit ⊢
  rw [List.length_cons] at hlength
  have htake : (ancestors.take 23).length = 23 := by
    rw [List.length_take]
    omega
  have hrest : ancestors.drop 23 ≠ [] := by
    intro h
    rw [List.drop_eq_nil_iff] at h
    omega
  have hsplit : b :: ancestors = (b :: ancestors.take 23) ++ ancestors.drop 23 := by
    rw [List.cons_append, List.take_append_drop]
  have hfirst : step {} b = some (counted {} b (b.target, b.target)) := rfl
  have hone : (counted {} b (b.target, b.target)).CountBlocks = (1 : Nat) := rfl
  have hcounts : 1 + (ancestors.take 23).length ≤ 24 := by omega
  obtain ⟨s, hs, hcount, haverage, hspan⟩ := foldlM_step hone (by decide) hcounts rfl hfit
  refine ⟨s, ?_, ?_, haverage, ?_⟩
  · rw [hsplit, loop_append hrest, List.foldlM_cons, hfirst]
    · exact hs
    · rw [List.length_cons, htake]
      rfl
  · rw [hcount, htake]
    rfl
  · rw [hspan]
    exact Int.zero_add _

end GravityState

namespace PowChain

variable (chain : PowChain)

def gravityAverage : Nat := DarkGravity.average (GravityState.targets (chain.take 24))

def gravityTimespan : Nat :=
  (DarkGravity.clampSpan 720 (DarkGravity.span (GravityState.times (chain.take 24)))).toNat

-- the formula over unbounded numbers, capped
def gravityFormula (net : NetworkID) : UInt256 :=
  BitVec.ofNat 256
    (min net.ProofOfWorkLimit.toNat (chain.gravityAverage * chain.gravityTimespan / 720))

-- Nothing overflows, and the code computes the formula.
structure GravityExact (net : NetworkID) : Prop where
  sums : ∀ n ∈ DarkGravity.sums (GravityState.targets (chain.take 24)), n < 2 ^ 256
  product : chain.gravityAverage * chain.gravityTimespan < 2 ^ 256
  result : getNextWorkRequired net chain = some (chain.gravityFormula net).getCompact

variable {chain} {net : NetworkID}

theorem gravityTimespan_bounds : 240 ≤ chain.gravityTimespan ∧ chain.gravityTimespan ≤ 2160 := by
  have hthird : Int.tdiv 720 3 = 240 := by decide
  rw [gravityTimespan, DarkGravity.clampSpan, hthird]
  omega

theorem clampSpan_eq (n : Int) :
    (if 720 * 3 < (if n < Int.tdiv 720 3 then Int.tdiv 720 3 else n) then 720 * 3
      else if n < Int.tdiv 720 3 then Int.tdiv 720 3 else n) = DarkGravity.clampSpan 720 n := by
  have hthird : Int.tdiv 720 3 = 240 := by decide
  rw [DarkGravity.clampSpan, hthird]
  omega

theorem gravityWorkRequired_eq (hlength : 24 < chain.length)
    (hproduct : chain.gravityAverage * chain.gravityTimespan < 2 ^ 256)
    (hsums : ∀ n ∈ DarkGravity.sums (GravityState.targets (chain.take 24)), n < 2 ^ 256) :
    gravityWorkRequired net chain = some (chain.gravityFormula net).getCompact := by
  obtain ⟨s, hs, hcount, haverage, hspan⟩ := GravityState.loop_eq hlength hsums
  have hbounds : 240 ≤ chain.gravityTimespan ∧ chain.gravityTimespan ≤ 2160 :=
    gravityTimespan_bounds
  have htimespan : DarkGravity.clampSpan 720 s.nActualTimespan = chain.gravityTimespan := by
    rw [hspan]
    rw [gravityTimespan] at hbounds ⊢
    omega
  have hweighted : (s.PastDifficultyAverage.mulWord chain.gravityTimespan).toNat =
      chain.gravityAverage * chain.gravityTimespan := by
    rw [toNat_mulWord (by omega) (by omega), haverage, Int.toNat_natCast]
    exact Nat.mod_eq_of_lt hproduct
  obtain ⟨z, hz, hzn⟩ := divide_ofInt64 (n := 720) (by decide) (by decide)
    (s.PastDifficultyAverage.mulWord chain.gravityTimespan)
  rw [hweighted] at hzn
  have htarget : s.CountBlocks * net.TargetSpacing = 720 := by
    rw [hcount]
    rfl
  have hcap : (if net.ProofOfWorkLimit < z then net.ProofOfWorkLimit else z) =
      chain.gravityFormula net := by
    apply BitVec.eq_of_toNat_eq
    have hlimit := net.ProofOfWorkLimit.isLt
    have hsame : Int.toNat 720 = 720 := rfl
    rw [hsame] at hzn
    rw [gravityFormula, BitVec.toNat_ofNat, ← hzn, Nat.mod_eq_of_lt (by omega)]
    simp only [BitVec.lt_def]
    split
    · omega
    · omega
  simp only [gravityWorkRequired, hs, Option.bind_eq_bind, Option.bind_some, htarget, clampSpan_eq,
    htimespan, hz, hcap]
  rfl

theorem dark_gravity_exact_iff (net : NetworkID) (chain : PowChain) (hlow : 24 ≤ chain.nHeight)
    (hhigh : chain.nHeight ≤ net.LAST_POW_BLOCK) :
    chain.GravityExact net ↔ chain.gravityAverage * chain.gravityTimespan < 2 ^ 256 := by
  constructor
  · exact GravityExact.product
  · intro hproduct
    rw [nHeight] at hlow
    have hlength : 24 < chain.length := by omega
    have htargets : (GravityState.targets (chain.take 24)).length = 24 := by
      rw [GravityState.targets, List.length_map, List.length_take]
      omega
    have hsums : ∀ n ∈ DarkGravity.sums (GravityState.targets (chain.take 24)), n < 2 ^ 256 :=
      fun n hn => DarkGravity.sums_lt htargets gravityTimespan_bounds.1 hproduct hn
    refine ⟨hsums, hproduct, ?_⟩
    obtain ⟨pindexLast, ancestors, rfl⟩ := List.exists_cons_of_length_pos (Nat.zero_lt_of_lt hlength)
    have hearly : ¬(nHeight (pindexLast :: ancestors) = 0 ∨
        nHeight (pindexLast :: ancestors) < PastBlocksMin) := by
      rw [nHeight, PastBlocksMin]
      omega
    rw [getNextWorkRequired, if_neg hearly, if_neg (by omega)]
    exact gravityWorkRequired_eq hlength hproduct hsums

-- 25 blocks of equal bits, half a minute apart
def steadyChain (nBits : UInt32) : PowChain :=
  (List.range 25).map fun i => ⟨1597079000 - 30 * UInt32.ofNat i, nBits⟩

theorem dark_gravity_exact_steady : (steadyChain 0x1d00ffff).GravityExact .MAIN :=
  (dark_gravity_exact_iff .MAIN (steadyChain 0x1d00ffff) (by decide) (by decide)).mpr
    (by decide +kernel)

-- The bits of the first 24 blocks, those of the limit, are already too easy.
theorem dark_gravity_limit_overflows :
    (NetworkID.ProofOfWorkLimit .MAIN).getCompact = 0x207fffff ∧
      (∀ p ∈ steadyChain 0x207fffff,
        0 < p.target.toNat ∧ p.target ≤ NetworkID.ProofOfWorkLimit .MAIN) ∧
      (∃ n ∈ DarkGravity.sums (GravityState.targets ((steadyChain 0x207fffff).take 24)),
        2 ^ 256 ≤ n) ∧
      getNextWorkRequired .MAIN (steadyChain 0x207fffff) ≠
        some ((steadyChain 0x207fffff).gravityFormula .MAIN).getCompact ∧
      ¬(steadyChain 0x207fffff).GravityExact .MAIN := by
  refine ⟨by decide +kernel, by decide +kernel, by decide +kernel, by decide +kernel, fun h => ?_⟩
  have hproduct : ¬(steadyChain 0x207fffff).gravityAverage *
      (steadyChain 0x207fffff).gravityTimespan < 2 ^ 256 := by decide +kernel
  exact hproduct h.product

end PowChain

end AnkerNode
