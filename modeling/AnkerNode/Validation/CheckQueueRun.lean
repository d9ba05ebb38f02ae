import AnkerNode.Lib.Loops
import AnkerNode.Validation.CheckQueue
import Mathlib.Algebra.BigOperators.Group.Finset.Piecewise

namespace AnkerNode

namespace Thread

variable {T : Type} (evaluate : T → Bool)

def held : Thread T → Nat
  | .evaluating nNow _ _ => nNow
  | _ => 0

def entered : Thread T → Nat
  | .outside => 0
  | _ => 1

def idling : Thread T → Nat
  | .waiting _ => 1
  | _ => 0

-- what a thread holds is found good
def Good : Thread T → Prop
  | .evaluating _ vChecks fOk => fOk = true ∧ ∀ c ∈ vChecks, evaluate c = true
  | _ => True

-- a thread within a critical section
def inside : Thread T := .evaluating 0 [] true

variable {evaluate} {thread : Thread T}

@[simp] theorem good_outside : (outside : Thread T).Good evaluate := trivial

@[simp] theorem good_waiting {notified : Bool} : (waiting notified : Thread T).Good evaluate :=
  trivial

@[simp] theorem good_evaluating {nNow : Nat} {vChecks : List T} {fOk : Bool} :
    (evaluating nNow vChecks fOk).Good evaluate ↔
      fOk = true ∧ ∀ c ∈ vChecks, evaluate c = true := Iff.rfl

@[simp] theorem good_inside : (inside : Thread T).Good evaluate := ⟨rfl, fun _ h => nomatch h⟩

@[simp] theorem held_notify : thread.notify.held = thread.held := by cases thread <;> rfl

@[simp] theorem entered_notify : thread.notify.entered = thread.entered := by cases thread <;> rfl

@[simp] theorem idling_notify : thread.notify.idling = thread.idling := by cases thread <;> rfl

@[simp] theorem good_notify : thread.notify.Good evaluate ↔ thread.Good evaluate := by
  cases thread <;> rfl

theorem notify_eq_evaluating {n : Nat} {cs : List T} {ok : Bool} :
    thread.notify = .evaluating n cs ok ↔ thread = .evaluating n cs ok := by
  cases thread <;> simp [notify]

theorem notify_ne_waiting : thread.notify ≠ .waiting false := by
  cases thread <;> simp [notify]

end Thread

namespace CheckSystem

variable {W T : Type} [Fintype W]

def total (f : Thread T → Nat) (thread : Option W → Thread T) : Nat := ∑ u, f (thread u)

theorem total_update [DecidableEq W] (f : Thread T → Nat) (thread : Option W → Thread T) (t : Option W)
    (x : Thread T) : total f (Function.update thread t x) + f (thread t) = total f thread + f x := by
  have hupdate : ∀ y, total f (Function.update thread t y) =
      f y + ∑ u ∈ Finset.univ \ {t}, f (thread u) := by
    intro y
    rw [total, ← Finset.sum_update_of_mem (Finset.mem_univ t) (fun u => f (thread u)) (f y)]
    exact Finset.sum_congr rfl fun u _ => by rw [← Function.comp_def f, ← Function.comp_update]; rfl
  have hself := hupdate (thread t)
  rw [Function.update_eq_self] at hself
  have hx := hupdate x
  omega

theorem le_total (f : Thread T → Nat) (thread : Option W → Thread T) (t : Option W) :
    f (thread t) ≤ total f thread :=
  Finset.single_le_sum (f := fun u => f (thread u)) (fun _ _ => Nat.zero_le _) (Finset.mem_univ t)

-- The counters, the checks of the round, and the verdict on them.
structure Counts (evaluate : T → Bool) (q : CCheckQueue T) (thread : Option W → Thread T)
    (r : CheckRound W T) : Prop where
  quit : q.fQuit = false
  todo : q.nTodo = q.queue.length + total Thread.held thread
  held_le : total Thread.held thread ≤ r.taken.length
  taken : (r.taken.map Prod.snd ++ q.queue).Perm r.added
  entered : q.nTotal = total Thread.entered thread
  idle : q.nIdle = total Thread.idling thread
  verdict : (q.fAllOk = true ∧ (∀ t, (thread t).Good evaluate) ∧ ∀ c ∈ q.queue, evaluate c = true) ↔
    ∀ c ∈ r.added, evaluate c = true
  fits : r.added.length < 2 ^ 32

variable {evaluate : T → Bool} {q : CCheckQueue T} {thread thread' : Option W → Thread T}
  {r : CheckRound W T} {t : Option W}

theorem Counts.length (h : Counts evaluate q thread r) :
    r.taken.length + q.queue.length = r.added.length := by
  have hlength := h.taken.length_eq
  rwa [List.length_append, List.length_map] at hlength

theorem Counts.of_notify (h : Counts evaluate q thread r)
    (hthread : ∀ u, thread' u = thread u ∨ thread' u = (thread u).notify) :
    Counts evaluate q thread' r := by
  have htotal : ∀ f : Thread T → Nat, (∀ x, f x.notify = f x) → total f thread' = total f thread := by
    intro f hf
    refine Finset.sum_congr rfl fun u _ => ?_
    rcases hthread u with hu | hu
    · rw [hu]
    · rw [hu, hf]
  have hgood : ∀ u, (thread' u).Good evaluate ↔ (thread u).Good evaluate := by
    intro u
    rcases hthread u with hu | hu
    · rw [hu]
    · rw [hu, Thread.good_notify]
  have hheld := htotal Thread.held fun x => Thread.held_notify
  exact
    { quit := h.quit
      todo := by rw [hheld, h.todo]
      held_le := by rw [hheld]; exact h.held_le
      taken := h.taken
      entered := by rw [htotal Thread.entered fun x => Thread.entered_notify, h.entered]
      idle := by rw [htotal Thread.idling fun x => Thread.idling_notify, h.idle]
      verdict := by simp only [hgood, h.verdict]
      fits := h.fits }

omit [Fintype W] in
theorem good_update [DecidableEq W] {x : Thread T} :
    (∀ u, (Function.update thread t x u).Good evaluate) ↔
      x.Good evaluate ∧ ∀ u, u ≠ t → (thread u).Good evaluate :=
  Function.forall_update_iff thread fun _ y => y.Good evaluate

omit [Fintype W] in
theorem good_iff [DecidableEq W] (t : Option W) : (∀ u, (thread u).Good evaluate) ↔
    (thread t).Good evaluate ∧ ∀ u, u ≠ t → (thread u).Good evaluate := by
  rw [← good_update, Function.update_eq_self]

variable [DecidableEq W]

theorem total_inside (thread : Option W → Thread T) (t : Option W) :
    total Thread.held (Function.update thread t .inside) + (thread t).held =
        total Thread.held thread ∧
      total Thread.entered (Function.update thread t .inside) + (thread t).entered =
        total Thread.entered thread + 1 ∧
      total Thread.idling (Function.update thread t .inside) + (thread t).idling =
        total Thread.idling thread :=
  ⟨total_update Thread.held thread t .inside, total_update Thread.entered thread t .inside,
    total_update Thread.idling thread t .inside⟩

-- A thread comes into a critical section with its batch done.
theorem Counts.cleanUp (h : Counts evaluate q thread r) {nNow : Nat} {fOk : Bool}
    (hdone : batchDone (thread t) = some (nNow, fOk))
    (hpos : ∀ n cs ok, thread t = .evaluating n cs ok → 0 < n) :
    Counts evaluate (q.cleanUp nNow fOk) (Function.update thread t .inside) r := by
  obtain ⟨hheld, hentered, hidling⟩ := total_inside thread t
  have hlength := h.length
  obtain ⟨hquit, htodo, hle, htaken, hnTotal, hnIdle, hverdict, hfits⟩ := h
  rw [good_iff t] at hverdict
  cases hthread : thread t with
  | waiting notified => simp [batchDone, hthread] at hdone
  | outside =>
    obtain ⟨rfl, rfl⟩ : 0 = nNow ∧ true = fOk := by simpa [batchDone, hthread] using hdone
    simp only [hthread, Thread.held, Thread.entered, Thread.idling] at hheld hentered hidling
    have hclean : q.cleanUp 0 true = { q with nTotal := q.nTotal + 1 } := rfl
    rw [hclean]
    refine ⟨hquit, by dsimp only; omega, by omega, htaken, by dsimp only; omega,
      by dsimp only; omega, ?_, hfits⟩
    rw [good_update, ← hverdict, hthread]
    simp
  | evaluating n cs ok =>
    have hn := hpos n cs ok hthread
    cases cs with
    | cons c cs => simp [batchDone, hthread] at hdone
    | nil =>
      obtain ⟨rfl, rfl⟩ : n = nNow ∧ ok = fOk := by simpa [batchDone, hthread] using hdone
      simp only [hthread, Thread.held, Thread.entered, Thread.idling] at hheld hentered hidling
      have htodo' : uint32 (q.nTodo - n) = q.nTodo - n := uint32_sub (by omega) (by omega)
      have hclean : q.cleanUp n ok = { q with fAllOk := q.fAllOk && ok, nTodo := q.nTodo - n } := by
        rw [CCheckQueue.cleanUp, if_pos (by omega), htodo']
      rw [hclean]
      refine ⟨hquit, by dsimp only; omega, by omega, htaken, by dsimp only; omega,
        by dsimp only; omega, ?_, hfits⟩
      rw [good_update, ← hverdict, hthread]
      simp [and_assoc]

theorem Counts.wake (h : Counts evaluate q thread r) {notified : Bool}
    (hthread : thread t = .waiting notified) :
    Counts evaluate { q with nIdle := q.nIdle - 1 } (Function.update thread t .inside) r := by
  obtain ⟨hheld, hentered, hidling⟩ := total_inside thread t
  obtain ⟨hquit, htodo, hle, htaken, hnTotal, hnIdle, hverdict, hfits⟩ := h
  simp only [hthread, Thread.held, Thread.entered, Thread.idling] at hheld hentered hidling
  refine ⟨hquit, by dsimp only; omega, by omega, htaken, by dsimp only; omega, by dsimp only; omega,
    ?_, hfits⟩
  rw [good_iff t, hthread] at hverdict
  rw [good_update, ← hverdict]
  simp

theorem batch_le (hne : q.queue ≠ []) : 0 < q.batch ∧ q.batch ≤ q.queue.length := by
  have hpos := List.length_pos_of_ne_nil hne
  have hdiv := Nat.div_le_self (q.queue.length % 2 ^ 32) (uint32 (q.nTotal + q.nIdle + 1))
  have hmod := Nat.mod_le q.queue.length (2 ^ 32)
  rw [CCheckQueue.batch]
  omega

-- The three ways out of a critical section.
theorem loop_cases (hquit : q.fQuit = false) (fMaster : Bool) :
    (q.queue = [] ∧ fMaster = true ∧ q.nTodo = 0 ∧
      q.loop fMaster = ({ q with nTotal := q.nTotal - 1, fAllOk := true }, .returned q.fAllOk)) ∨
    (q.queue = [] ∧ (fMaster = true → 0 < q.nTodo) ∧
      q.loop fMaster = ({ q with nIdle := q.nIdle + 1 }, .waits)) ∨
    (q.queue ≠ [] ∧ ∃ rest vChecks, 0 < vChecks.length ∧ (vChecks ++ rest).Perm q.queue ∧
      q.loop fMaster = ({ q with queue := rest }, .takes vChecks.length vChecks q.fAllOk)) := by
  by_cases hempty : q.queue = []
  · simp only [CCheckQueue.loop, hempty, List.isEmpty_nil, if_true, hquit, Bool.or_false]
    by_cases hreturn : (fMaster && q.nTodo == 0) = true
    · rw [if_pos hreturn]
      simp only [Bool.and_eq_true, beq_iff_eq] at hreturn
      exact .inl ⟨trivial, hreturn.1, hreturn.2, by rw [if_pos hreturn.1]⟩
    · rw [if_neg hreturn]
      simp only [Bool.and_eq_true, beq_iff_eq, not_and] at hreturn
      exact .inr (.inl ⟨trivial, fun h => Nat.pos_of_ne_zero (hreturn h), rfl⟩)
  · obtain ⟨hpos, hle⟩ := batch_le hempty
    have hlength : (q.queue.drop (q.queue.length - q.batch)).reverse.length = q.batch := by
      rw [List.length_reverse, List.length_drop]
      omega
    refine .inr (.inr ⟨hempty, q.queue.take (q.queue.length - q.batch),
      (q.queue.drop (q.queue.length - q.batch)).reverse, by omega, ?_, ?_⟩)
    · refine (List.perm_append_comm.trans ((List.reverse_perm _).append_left _)).trans ?_
      rw [List.take_append_drop]
    · rw [hlength, CCheckQueue.loop, if_neg (by simpa using hempty)]

-- The master may return: every check of the round is taken, and the verdict is on all of them.
theorem Counts.at_return (h : Counts evaluate q thread r) (hempty : q.queue = [])
    (htodo : q.nTodo = 0) (hpos : ∀ u, u ≠ t → ∀ n cs ok, thread u = .evaluating n cs ok → 0 < n)
    (hin : thread t = .inside) : total Thread.held thread = 0 ∧
      (∀ u, (thread u).Good evaluate) ∧ (r.taken.map Prod.snd).Perm r.added ∧
        (q.fAllOk = true ↔ ∀ c ∈ r.added, evaluate c = true) := by
  have hheld : total Thread.held thread = 0 := by
    have := h.todo
    omega
  have hgood : ∀ u, (thread u).Good evaluate := by
    rw [good_iff t, hin]
    refine ⟨Thread.good_inside, fun u hu => ?_⟩
    have hu0 := le_total Thread.held thread u
    cases hthread : thread u with
    | outside => exact Thread.good_outside
    | waiting notified => exact Thread.good_waiting
    | evaluating n cs ok =>
      have hn := hpos u hu n cs ok hthread
      simp only [hthread, Thread.held] at hu0
      omega
  have htaken := h.taken
  rw [hempty, List.append_nil] at htaken
  have hverdict := h.verdict
  rw [hempty] at hverdict
  exact ⟨hheld, hgood, htaken, by rw [← hverdict]; simp [hgood]⟩

theorem Counts.loop (h : Counts evaluate q thread r) (hin : thread t = .inside)
    (hpos : ∀ u, u ≠ t → ∀ n cs ok, thread u = .evaluating n cs ok → 0 < n) :
    Counts evaluate (q.loop t.isNone).1 (Function.update thread t (q.loop t.isNone).2.thread)
      (r.next ((q.loop t.isNone).2.event t)) := by
  have hheld := total_update Thread.held thread t (q.loop t.isNone).2.thread
  have hentered := total_update Thread.entered thread t (q.loop t.isNone).2.thread
  have hidling := total_update Thread.idling thread t (q.loop t.isNone).2.thread
  have hlength := h.length
  rcases loop_cases h.quit t.isNone with ⟨hempty, hmaster, hzero, hloop⟩ | ⟨hempty, hmore, hloop⟩ |
    ⟨hne, rest, vChecks, hvpos, hperm, hloop⟩
  · obtain ⟨hnone, hgood, -, -⟩ := h.at_return hempty hzero hpos hin
    obtain rfl : t = none := by simpa using hmaster
    obtain ⟨hquit, htodo, hle, htaken, hnTotal, hnIdle, -, -⟩ := h
    rw [hloop, hin] at hheld hentered hidling
    rw [hloop]
    simp only [Exit.thread, Thread.held, Thread.entered, Thread.idling, Thread.inside]
      at hheld hentered hidling
    simp only [Exit.thread, Exit.event, CheckRound.next]
    refine ⟨hquit, by dsimp only; omega, by dsimp only; omega, ?_, by dsimp only; omega,
      by dsimp only; omega, ?_, Nat.two_pow_pos 32⟩
    · simp [hempty]
    · rw [good_iff none] at hgood
      rw [good_update]
      simpa [hempty] using hgood.2
  · obtain ⟨hquit, htodo, hle, htaken, hnTotal, hnIdle, hverdict, hfits⟩ := h
    rw [hloop, hin] at hheld hentered hidling
    rw [hloop]
    simp only [Exit.thread, Thread.held, Thread.entered, Thread.idling, Thread.inside]
      at hheld hentered hidling
    simp only [Exit.thread, Exit.event, CheckRound.next]
    refine ⟨hquit, by dsimp only; omega, by omega, htaken, by dsimp only; omega,
      by dsimp only; omega, ?_, hfits⟩
    rw [good_iff t, hin] at hverdict
    rw [good_update, ← hverdict]
    simp
  · obtain ⟨hquit, htodo, hle, htaken, hnTotal, hnIdle, hverdict, hfits⟩ := h
    have hrest := hperm.length_eq
    rw [List.length_append] at hrest
    rw [hloop, hin] at hheld hentered hidling
    rw [hloop]
    simp only [Exit.thread, Thread.held, Thread.entered, Thread.idling, Thread.inside]
      at hheld hentered hidling
    simp only [Exit.thread, Exit.event, CheckRound.next]
    refine ⟨hquit, by dsimp only; omega, ?_, ?_, by dsimp only; omega, by dsimp only; omega, ?_,
      hfits⟩
    · rw [List.length_append, List.length_map]
      omega
    · refine .trans ?_ htaken
      simp only [List.map_append, List.map_map, List.append_assoc]
      refine List.Perm.append_left _ (.trans ?_ hperm)
      simp [Function.comp_def]
    · rw [good_iff t, hin] at hverdict
      rw [good_update, ← hverdict]
      have hqueue : (∀ c ∈ q.queue, evaluate c = true) ↔
          (∀ c ∈ vChecks, evaluate c = true) ∧ ∀ c ∈ rest, evaluate c = true := by
        simp only [← hperm.mem_iff, List.mem_append, or_imp, forall_and]
      rw [hqueue]
      simp only [Thread.good_evaluating, Thread.good_inside, true_and]
      tauto

omit [DecidableEq W] in
theorem Counts.add (h : Counts evaluate q thread r) (vChecks : List T)
    (hfits : (r.added ++ vChecks).length < 2 ^ 32) :
    Counts evaluate (q.add vChecks) thread (r.next (.added vChecks)) := by
  have hlength := h.length
  obtain ⟨hquit, htodo, hle, htaken, hnTotal, hnIdle, hverdict, -⟩ := h
  rw [List.length_append] at hfits
  have hsum : uint32 (q.nTodo + vChecks.length) = q.nTodo + vChecks.length :=
    uint32_natCast (n := q.nTodo + vChecks.length) (by omega)
  rw [CCheckQueue.add, hsum]
  refine ⟨hquit, by simp only [List.length_append]; omega, hle, ?_, hnTotal, hnIdle, ?_,
    by rw [CheckRound.next, List.length_append]; exact hfits⟩
  · simp only [CheckRound.next, ← List.append_assoc]
    exact htaken.append_right _
  · simp only [CheckRound.next, List.forall_mem_append, ← hverdict]
    tauto

theorem Counts.check (h : Counts evaluate q thread r) {nNow : Nat} {c : T} {vChecks : List T}
    {fOk : Bool} (hthread : thread t = .evaluating nNow (c :: vChecks) fOk) :
    Counts evaluate q (Function.update thread t
      (.evaluating nNow vChecks (if fOk then evaluate c else fOk))) r := by
  have hkept : ∀ f : Thread T → Nat, f (thread t) =
      f (.evaluating nNow vChecks (if fOk then evaluate c else fOk)) →
      total f (Function.update thread t
        (.evaluating nNow vChecks (if fOk then evaluate c else fOk))) = total f thread := by
    intro f hf
    have := total_update f thread t (.evaluating nNow vChecks (if fOk then evaluate c else fOk))
    omega
  obtain ⟨hquit, htodo, hle, htaken, hnTotal, hnIdle, hverdict, hfits⟩ := h
  have hheld := hkept Thread.held (by rw [hthread]; rfl)
  refine ⟨hquit, by omega, by omega, htaken, ?_, ?_, ?_, hfits⟩
  · rw [hnTotal, hkept Thread.entered (by rw [hthread]; rfl)]
  · rw [hnIdle, hkept Thread.idling (by rw [hthread]; rfl)]
  · rw [good_iff t, hthread] at hverdict
    rw [good_update, ← hverdict]
    cases fOk <;> simp [and_assoc]

-- A thread of the system comes to the test of the queue.
inductive Enters (s : CheckSystem W T) (t : Option W) :
    CCheckQueue T → (Option W → Thread T) → Prop
  | top {nNow : Nat} {fOk : Bool} (hdone : batchDone (s.thread t) = some (nNow, fOk)) :
      Enters s t (s.queue.cleanUp nNow fOk)
        (if nNow ≠ 0 ∧ (s.queue.cleanUp nNow fOk).nTodo = 0 ∧ t.isSome then notifyMaster s.thread
          else s.thread)
  | awake {notified : Bool} (hthread : s.thread t = .waiting notified) :
      Enters s t { s.queue with nIdle := s.queue.nIdle - 1 } s.thread

omit [Fintype W] in
theorem step_cases {s s' : CheckSystem W T} {a : CheckAction W T} {e : CheckEvent W T}
    (h : s.step evaluate a = some (s', e)) :
    (∃ vChecks notified, a = .add vChecks notified ∧ e = .added vChecks ∧
      s' = { queue := s.queue.add vChecks, thread := notifyWorkers vChecks notified s.thread }) ∨
    (∃ t nNow c vChecks fOk, a = .check t ∧ s.thread t = .evaluating nNow (c :: vChecks) fOk ∧
      e = .quiet ∧ s'.queue = s.queue ∧ s'.thread = Function.update s.thread t
        (.evaluating nNow vChecks (if fOk then evaluate c else fOk))) ∨
    ∃ t q thread, (a = .enter t ∨ a = .wake t) ∧ Enters s t q thread ∧
      (s', e) = finish q thread t := by
  cases a with
  | add vChecks notified =>
    simp only [step, Option.some.injEq, Prod.mk.injEq] at h
    exact .inl ⟨vChecks, notified, rfl, h.2.symm, h.1.symm⟩
  | check t =>
    simp only [step, check] at h
    split at h
    · rename_i nNow c vChecks fOk hthread
      simp only [Option.some.injEq, Prod.mk.injEq] at h
      obtain ⟨rfl, rfl⟩ := h
      exact .inr (.inl ⟨t, nNow, c, vChecks, fOk, rfl, hthread, rfl, rfl, rfl⟩)
    · cases h
  | enter t =>
    simp only [step, enter, Option.map_eq_some_iff] at h
    obtain ⟨⟨nNow, fOk⟩, hdone, h⟩ := h
    exact .inr (.inr ⟨t, _, _, .inl rfl, .top hdone, h.symm⟩)
  | wake t =>
    simp only [step, wake] at h
    split at h
    · rename_i notified hthread
      exact .inr (.inr ⟨t, _, _, .inr rfl, .awake hthread, (Option.some.inj h).symm⟩)
    · cases h

-- A batch is never empty, and the master never waits for threads that all wait.
structure Inv (evaluate : T → Bool) (s : CheckSystem W T) (r : CheckRound W T) : Prop where
  counts : Counts evaluate s.queue s.thread r
  pos : ∀ t n cs ok, s.thread t = .evaluating n cs ok → 0 < n
  live : s.thread none = .waiting false → 0 < s.queue.nTodo ∧
    (s.queue.queue ≠ [] → ∃ w, s.thread (some w) ≠ .waiting false)

variable {s s' : CheckSystem W T} {a : CheckAction W T} {e : CheckEvent W T}

omit [Fintype W] in
theorem Enters.thread_eq (h : Enters s t q thread) (u : Option W) :
    thread u = s.thread u ∨ u = none ∧ t ≠ none ∧ thread u = (s.thread u).notify := by
  cases h with
  | awake hthread => exact .inl rfl
  | top hdone =>
    split
    · rename_i hnotify
      by_cases hu : u = none
      · subst hu
        exact .inr ⟨rfl, Option.isSome_iff_ne_none.mp hnotify.2.2, by simp [notifyMaster]⟩
      · exact .inl (Function.update_of_ne hu _ _)
    · exact .inl rfl

theorem Enters.counts (h : Enters s t q thread) (hs : Inv evaluate s r) :
    Counts evaluate q (Function.update thread t .inside) r := by
  have heq := h.thread_eq
  cases h with
  | awake hthread => exact hs.counts.wake hthread
  | top hdone =>
    refine (hs.counts.of_notify fun u => (heq u).imp_right fun h => h.2.2).cleanUp ?_ ?_
    · rcases heq t with ht | ⟨hnone, hne, -⟩
      · rw [ht, hdone]
      · exact absurd hnone hne
    · rcases heq t with ht | ⟨hnone, hne, -⟩
      · rw [ht]
        exact hs.pos t
      · exact absurd hnone hne

omit [Fintype W] in
theorem Enters.pos (h : Enters s t q thread)
    (hpos : ∀ t n cs ok, s.thread t = .evaluating n cs ok → 0 < n) :
    ∀ u n cs ok, thread u = .evaluating n cs ok → 0 < n := by
  intro u n cs ok hu
  rcases h.thread_eq u with hsame | ⟨-, -, hnotify⟩
  · exact hpos u n cs ok (hsame ▸ hu)
  · rw [hnotify, Thread.notify_eq_evaluating] at hu
    exact hpos u n cs ok hu

omit [Fintype W] in
-- A worker that leaves the master unnotified leaves checks to do.
theorem Enters.todo_pos {w : W} (h : Enters s (some w) q thread)
    (hmaster : thread none = .waiting false) (htodo : 0 < s.queue.nTodo) : 0 < q.nTodo := by
  cases h with
  | awake hthread => exact htodo
  | @top nNow fOk hdone =>
    by_cases hzero : nNow = 0
    · subst hzero
      exact htodo
    · by_contra hnot
      rw [if_pos ⟨hzero, by omega, rfl⟩, notifyMaster, Function.update_self] at hmaster
      exact Thread.notify_ne_waiting hmaster

omit [DecidableEq W] in
theorem exists_held (h : 0 < total Thread.held thread) : ∃ u, 0 < (thread u).held := by
  obtain ⟨u, -, hu⟩ := Finset.exists_ne_zero_of_sum_ne_zero h.ne'
  exact ⟨u, Nat.pos_of_ne_zero hu⟩

omit [DecidableEq W] in
theorem initial_inv (evaluate : T → Bool) (nBatchSize : Nat) :
    Inv evaluate (initial nBatchSize : CheckSystem W T) {} where
  counts :=
    { quit := rfl
      todo := by simp [initial, total, Thread.held]
      held_le := by simp [initial, total, Thread.held]
      taken := by simp [initial]
      entered := by simp [initial, total, Thread.entered]
      idle := by simp [initial, total, Thread.idling]
      verdict := by simp [initial, Thread.Good]
      fits := Nat.two_pow_pos 32 }
  pos := fun _ _ _ _ h => nomatch h
  live := fun h => nomatch h

omit [Fintype W] in
theorem loop_pos (hquit : q.fQuit = false)
    (hpos : ∀ u n cs ok, thread u = .evaluating n cs ok → 0 < n) :
    ∀ u n cs ok, Function.update thread t (q.loop t.isNone).2.thread u = .evaluating n cs ok →
      0 < n := by
  intro u n cs ok hthread
  by_cases hu : u = t
  · rw [hu, Function.update_self] at hthread
    rcases loop_cases hquit t.isNone with ⟨-, -, -, hl⟩ | ⟨-, -, hl⟩ | ⟨-, _, _, hvpos, -, hl⟩
    · simp [hl, Exit.thread] at hthread
    · simp [hl, Exit.thread] at hthread
    · simp only [hl, Exit.thread, Thread.evaluating.injEq] at hthread
      omega
  · rw [Function.update_of_ne hu] at hthread
    exact hpos u n cs ok hthread

omit [Fintype W] in
theorem loop_live (hquit : q.fQuit = false)
    (htodo : t ≠ none → thread none = .waiting false → 0 < q.nTodo)
    (hmaster : Function.update thread t (q.loop t.isNone).2.thread none = .waiting false) :
    0 < (q.loop t.isNone).1.nTodo ∧ ((q.loop t.isNone).1.queue ≠ [] →
      ∃ w, Function.update thread t (q.loop t.isNone).2.thread (some w) ≠ .waiting false) := by
  have hmore : t ≠ none → 0 < q.nTodo := by
    intro ht
    rw [Function.update_of_ne ht.symm] at hmaster
    exact htodo ht hmaster
  rcases loop_cases hquit t.isNone with ⟨hempty, hnone, -, hl⟩ | ⟨hempty, hwait, hl⟩ |
    ⟨-, rest, vChecks, -, -, hl⟩
  · rw [hl, Option.isNone_iff_eq_none.mp hnone, Function.update_self] at hmaster
    simp [Exit.thread] at hmaster
  · rw [hl]
    refine ⟨?_, fun hne => absurd hempty hne⟩
    cases t with
    | none => exact hwait rfl
    | some w => exact hmore (by simp)
  · cases t with
    | none =>
      rw [hl, Function.update_self] at hmaster
      simp [Exit.thread] at hmaster
    | some w =>
      rw [hl]
      exact ⟨hmore (by simp), fun _ => ⟨w, by simp [Exit.thread]⟩⟩

theorem Inv.finish (hs : Inv evaluate s r) (hq : Enters s t q thread)
    (h : (s', e) = finish q thread t) : Inv evaluate s' (r.next e) := by
  obtain ⟨rfl, rfl⟩ := Prod.mk.inj h
  have hcounts := hq.counts hs
  have hpos := hq.pos hs.pos
  have hin : Function.update thread t .inside t = .inside := Function.update_self ..
  have hloop := hcounts.loop hin fun u hu n cs ok hthread =>
    hpos u n cs ok ((Function.update_of_ne hu _ _).symm.trans hthread)
  rw [Function.update_idem] at hloop
  refine ⟨hloop, loop_pos hcounts.quit hpos, loop_live hcounts.quit fun ht hmaster => ?_⟩
  obtain ⟨w, rfl⟩ := Option.ne_none_iff_exists'.mp ht
  refine hq.todo_pos hmaster (hs.live ?_).1
  rcases hq.thread_eq none with hsame | ⟨-, -, hnotify⟩
  · rw [← hsame, hmaster]
  · exact absurd (hnotify ▸ hmaster) Thread.notify_ne_waiting

omit [Fintype W] [DecidableEq W] in
theorem notifyWorkers_eq [DecidableEq W] (vChecks : List T) (notified : Option W) (u : Option W) :
    notifyWorkers vChecks notified thread u = thread u ∨
      notifyWorkers vChecks notified thread u = (thread u).notify := by
  cases u with
  | none => exact .inl rfl
  | some w =>
    rw [notifyWorkers]
    split
    · exact .inl rfl
    · exact .inr rfl

theorem Inv.add (hs : Inv evaluate s r) (vChecks : List T) (notified : Option W)
    (hfits : (r.added ++ vChecks).length < 2 ^ 32) :
    Inv evaluate { queue := s.queue.add vChecks, thread := notifyWorkers vChecks notified s.thread }
      (r.next (.added vChecks)) := by
  have heq : ∀ u, notifyWorkers vChecks notified s.thread u = s.thread u ∨
      notifyWorkers vChecks notified s.thread u = (s.thread u).notify :=
    notifyWorkers_eq vChecks notified
  have hcounts := (hs.counts.add vChecks hfits).of_notify heq
  refine ⟨hcounts, fun u n cs ok hu => ?_, fun hmaster => ?_⟩
  · rcases heq u with hsame | hnotify
    · exact hs.pos u n cs ok (hsame ▸ hu)
    · exact hs.pos u n cs ok (Thread.notify_eq_evaluating.mp (hnotify ▸ hu))
  · obtain ⟨htodo, hsome⟩ := hs.live hmaster
    have hold := hs.counts.todo
    have hnew := (hs.counts.add vChecks hfits).todo
    have hlength : (s.queue.add vChecks).queue.length = s.queue.queue.length + vChecks.length :=
      List.length_append
    refine ⟨by dsimp only; omega, fun _ => ?_⟩
    have hbusy : ∃ w, s.thread (some w) ≠ .waiting false := by
      by_cases hempty : s.queue.queue = []
      · rw [hempty, List.length_nil] at hold
        obtain ⟨u, hu⟩ := exists_held (by omega : 0 < total Thread.held s.thread)
        cases u with
        | none =>
          have hmaster : s.thread none = .waiting false := hmaster
          rw [hmaster] at hu
          exact absurd hu (Nat.lt_irrefl 0)
        | some w => exact ⟨w, fun hwait => by rw [hwait] at hu; exact Nat.lt_irrefl 0 hu⟩
      · exact hsome hempty
    obtain ⟨w, hw⟩ := hbusy
    refine ⟨w, ?_⟩
    rcases heq (some w) with hsame | hnotify
    · exact fun hwait => hw (hsame.symm.trans hwait)
    · exact fun hwait => Thread.notify_ne_waiting (hnotify.symm.trans hwait)

theorem Inv.step (hs : Inv evaluate s r) (hstep : s.step evaluate a = some (s', e))
    (hfits : (r.next e).added.length < 2 ^ 32) : Inv evaluate s' (r.next e) := by
  rcases step_cases hstep with ⟨vChecks, notified, rfl, rfl, rfl⟩ |
    ⟨t, nNow, c, vChecks, fOk, rfl, hthread, rfl, hqueue, hnext⟩ | ⟨t, q, thread, -, hq, h⟩
  · exact hs.add vChecks notified hfits
  · have hcounts := hs.counts.check hthread
    rw [← hqueue, ← hnext] at hcounts
    refine ⟨hcounts, fun u n cs ok hu => ?_, fun hmaster => ?_⟩
    · rw [hnext] at hu
      by_cases hut : u = t
      · rw [hut, Function.update_self, Thread.evaluating.injEq] at hu
        exact hu.1 ▸ hs.pos t nNow _ _ hthread
      · rw [Function.update_of_ne hut] at hu
        exact hs.pos u n cs ok hu
    · rw [hnext] at hmaster ⊢
      rw [hqueue]
      by_cases ht : t = none
      · rw [ht, Function.update_self] at hmaster
        simp at hmaster
      · rw [Function.update_of_ne (Ne.symm ht)] at hmaster
        obtain ⟨htodo, hsome⟩ := hs.live hmaster
        refine ⟨htodo, fun hne => ?_⟩
        obtain ⟨w, hw⟩ := hsome hne
        refine ⟨w, ?_⟩
        by_cases hwt : some w = t
        · rw [hwt, Function.update_self]
          simp
        · rwa [Function.update_of_ne hwt]
  · exact hs.finish hq h

theorem Reaches.inv {nBatchSize : Nat} (h : Reaches evaluate nBatchSize s r) : Inv evaluate s r := by
  induction h with
  | initial => exact initial_inv evaluate nBatchSize
  | step _ hstep hfits ih => exact ih.step hstep hfits

omit [DecidableEq W] in
theorem Inv.isIdle (hs : Inv evaluate s r) (hadded : r.added = []) : s.queue.isIdle = true := by
  have hlength := hs.counts.length
  rw [hadded, List.length_nil] at hlength
  have hheld : total Thread.held s.thread = 0 := by
    have := hs.counts.held_le
    omega
  have hresting : total Thread.entered s.thread = total Thread.idling s.thread := by
    refine Finset.sum_congr rfl fun u _ => ?_
    have hu := le_total Thread.held s.thread u
    cases hthread : s.thread u with
    | outside => rfl
    | waiting notified => rfl
    | evaluating n cs ok =>
      have hn := hs.pos u n cs ok hthread
      simp only [hthread, Thread.held] at hu
      omega
  have htodo : s.queue.nTodo = 0 := by
    have := hs.counts.todo
    omega
  have hok : s.queue.fAllOk = true := (hs.counts.verdict.mpr (by simp [hadded])).1
  rw [CCheckQueue.isIdle, hs.counts.entered, hs.counts.idle, hresting, htodo, hok]
  simp

theorem Inv.at_return (hs : Inv evaluate s r) {fRet : Bool}
    (hstep : s.step evaluate a = some (s', .returned none fRet)) :
    (fRet = true ↔ ∀ c ∈ r.added, evaluate c = true) ∧ (r.taken.map Prod.snd).Perm r.added := by
  rcases step_cases hstep with ⟨_, _, -, he, -⟩ | ⟨_, _, _, _, _, -, -, he, -⟩ |
    ⟨t, q, thread, -, hq, h⟩
  · cases he
  · cases he
  · have hcounts := hq.counts hs
    have hpos := hq.pos hs.pos
    have hevent : CheckEvent.returned none fRet = (q.loop t.isNone).2.event t := congrArg Prod.snd h
    rcases loop_cases hcounts.quit t.isNone with ⟨hempty, -, hzero, hl⟩ | ⟨-, -, hl⟩ |
      ⟨-, _, _, -, -, hl⟩
    · rw [hl, Exit.event, CheckEvent.returned.injEq] at hevent
      obtain ⟨-, -, htaken, hverdict⟩ := hcounts.at_return hempty hzero
        (fun u hu n cs ok hthread => hpos u n cs ok ((Function.update_of_ne hu _ _).symm.trans hthread))
        (Function.update_self ..)
      rw [hevent.2]
      exact ⟨hverdict, htaken⟩
    · rw [hl] at hevent
      cases hevent
    · rw [hl] at hevent
      cases hevent

end CheckSystem

end AnkerNode

namespace AnkerNode

open Transitions

namespace CheckSystem

variable {W T : Type} [Fintype W] [DecidableEq W] {evaluate : T → Bool} {q : CCheckQueue T}
  {thread : Option W → Thread T} {r : CheckRound W T} {t : Option W} {s s' : CheckSystem W T}
  {a : CheckAction W T} {e : CheckEvent W T}

def weight : Thread T → Nat
  | .outside => 1
  | .evaluating nNow vChecks _ => 2 * nNow + vChecks.length
  | .waiting notified => if notified then 1 else 0

theorem weight_waits : weight (Exit.waits : Exit T).thread = 0 := rfl

theorem weight_takes (nNow : Nat) (vChecks : List T) (fOk : Bool) :
    weight (Exit.takes nNow vChecks fOk).thread = 2 * nNow + vChecks.length := rfl

theorem weight_notify (x : Thread T) : weight x.notify ≤ weight x + 1 := by
  cases x with
  | waiting notified => cases notified <;> simp [Thread.notify, weight]
  | outside => simp [Thread.notify]
  | evaluating n cs ok => simp [Thread.notify]

-- what is left to do until the master returns
def remaining (s : CheckSystem W T) : Nat := 4 * s.queue.queue.length + total weight s.thread

-- Steps of the threads, without those that wake up by themselves.
def Scheduled (evaluate : T → Bool) (s : CheckSystem W T) (e : CheckEvent W T)
    (s' : CheckSystem W T) : Prop :=
  ∃ a, s.step evaluate a = some (s', e) ∧ (∀ vChecks notified, a ≠ .add vChecks notified) ∧
    ∀ t, a = .wake t → s.thread t = .waiting true

def WaitReturns (e : CheckEvent W T) : Prop := ∃ fRet, e = .returned none fRet

omit [Fintype W] in
theorem scheduled_of_active (hthread : s.thread t ≠ .waiting false) :
    ∃ e s', Scheduled evaluate s e s' := by
  have henabled : ∃ a, (s.step evaluate a).isSome = true ∧
      (∀ vChecks notified, a ≠ .add vChecks notified) ∧
        ∀ t, a = .wake t → s.thread t = .waiting true := by
    cases h : s.thread t with
    | outside => exact ⟨.enter t, by simp [step, enter, h, batchDone], by simp, by simp⟩
    | waiting notified =>
      cases notified with
      | false => exact absurd h hthread
      | true => exact ⟨.wake t, by simp [step, wake, h], by simp, fun u hu => by cases hu; exact h⟩
    | evaluating n cs ok =>
      cases cs with
      | nil => exact ⟨.enter t, by simp [step, enter, h, batchDone], by simp, by simp⟩
      | cons c cs => exact ⟨.check t, by simp [step, check, h], by simp, by simp⟩
  obtain ⟨a, hsome, hadd, hwake⟩ := henabled
  obtain ⟨⟨s', e⟩, hstep⟩ := Option.isSome_iff_exists.mp hsome
  exact ⟨e, s', a, hstep, hadd, hwake⟩

theorem Inv.exists_scheduled (hs : Inv evaluate s r) : ∃ e s', Scheduled evaluate s e s' := by
  by_cases hmaster : s.thread none = .waiting false
  · obtain ⟨htodo, hsome⟩ := hs.live hmaster
    by_cases hempty : s.queue.queue = []
    · have hold := hs.counts.todo
      rw [hempty, List.length_nil] at hold
      obtain ⟨u, hu⟩ := exists_held (by omega : 0 < total Thread.held s.thread)
      refine scheduled_of_active (t := u) fun hwait => ?_
      rw [hwait] at hu
      exact Nat.lt_irrefl 0 hu
    · obtain ⟨w, hw⟩ := hsome hempty
      exact scheduled_of_active hw
  · exact scheduled_of_active hmaster

omit [Fintype W] in
theorem Enters.queue_eq (h : Enters s t q thread) : q.queue = s.queue.queue := by
  cases h with
  | awake hthread => rfl
  | top hdone =>
    rw [CCheckQueue.cleanUp]
    split <;> rfl

-- A thread on its way to the test gives up more than it may pass on to the master.
theorem Enters.weight_lt (h : Enters s t q thread)
    (hpos : ∀ t n cs ok, s.thread t = .evaluating n cs ok → 0 < n)
    (hwake : ∀ notified, s.thread t = .waiting notified → notified = true) :
    total weight thread < total weight s.thread + weight (thread t) := by
  cases h with
  | @awake notified hthread =>
    rw [hthread, hwake notified hthread]
    exact Nat.lt_succ_self _
  | @top nNow fOk hdone =>
    split
    · rename_i hnotify
      have hne : t ≠ none := Option.isSome_iff_ne_none.mp hnotify.2.2
      have htotal := total_update weight s.thread none (s.thread none).notify
      have hmaster := weight_notify (s.thread none)
      rw [notifyMaster, Function.update_of_ne hne]
      have hheavy : 2 ≤ weight (s.thread t) := by
        cases hthread : s.thread t with
        | outside =>
          rw [hthread] at hdone
          simp [batchDone, eq_comm, hnotify.1] at hdone
        | waiting notified => simp [hthread, batchDone] at hdone
        | evaluating n cs ok =>
          have hn := hpos t n cs ok hthread
          simp only [weight]
          omega
      omega
    · cases hthread : s.thread t with
      | outside => exact Nat.lt_succ_self _
      | waiting notified => simp [hthread, batchDone] at hdone
      | evaluating n cs ok =>
        have hn := hpos t n cs ok hthread
        simp only [weight]
        omega

theorem Inv.finish_lt (hs : Inv evaluate s r) (hq : Enters s t q thread)
    (hwake : ∀ notified, s.thread t = .waiting notified → notified = true)
    (h : (s', e) = CheckSystem.finish q thread t) (hmore : ¬WaitReturns e)
    (hmaster : s.thread none ≠ .outside) :
    s'.thread none ≠ .outside ∧ remaining s' < remaining s := by
  have hlt := hq.weight_lt hs.pos hwake
  have hqueue := hq.queue_eq
  have hlength := congrArg List.length hqueue
  have htotal := total_update weight thread t (q.loop t.isNone).2.thread
  have hkept : thread none ≠ .outside := by
    rcases hq.thread_eq none with hsame | ⟨-, -, hnotify⟩
    · rwa [hsame]
    · rw [hnotify]
      cases hthread : s.thread none with
      | outside => exact absurd hthread hmaster
      | waiting notified => simp [Thread.notify]
      | evaluating n cs ok => simp [Thread.notify]
  obtain ⟨rfl, rfl⟩ := Prod.mk.inj h
  simp only [remaining]
  rcases loop_cases (hq.counts hs).quit t.isNone with ⟨hempty, hnone, -, hl⟩ | ⟨hempty, -, hl⟩ |
    ⟨-, rest, vChecks, hvpos, hperm, hl⟩
  · refine absurd ⟨q.fAllOk, ?_⟩ hmore
    rw [hl, Option.isNone_iff_eq_none.mp hnone]
    rfl
  · rw [hl] at htotal ⊢
    refine ⟨?_, ?_⟩
    · by_cases ht : none = t
      · simp [← ht, Exit.thread]
      · rwa [Function.update_of_ne ht]
    · dsimp only at htotal ⊢
      rw [weight_waits] at htotal
      omega
  · have htaken := hperm.length_eq
    rw [List.length_append] at htaken
    rw [hl] at htotal ⊢
    refine ⟨?_, ?_⟩
    · by_cases ht : none = t
      · simp [← ht, Exit.thread]
      · rwa [Function.update_of_ne ht]
    · dsimp only at htotal ⊢
      rw [weight_takes] at htotal
      omega

theorem Inv.scheduled (hs : Inv evaluate s r) (hmaster : s.thread none ≠ .outside)
    (hstep : Scheduled evaluate s e s') (hmore : ¬WaitReturns e) :
    (∃ r', Inv evaluate s' r' ∧ s'.thread none ≠ .outside) ∧ remaining s' < remaining s := by
  obtain ⟨a, hstep, hadd, hwake⟩ := hstep
  rcases step_cases hstep with ⟨vChecks, notified, ha, -, -⟩ |
    ⟨t, nNow, c, vChecks, fOk, rfl, hthread, rfl, hqueue, hnext⟩ | ⟨t, q, thread, ha, hq, h⟩
  · exact absurd ha (hadd vChecks notified)
  · have htotal := total_update weight s.thread t
      (.evaluating nNow vChecks (if fOk then evaluate c else fOk))
    rw [← hnext, hthread] at htotal
    simp only [weight, List.length_cons] at htotal
    refine ⟨⟨r, hs.step hstep hs.counts.fits, ?_⟩, ?_⟩
    · rw [hnext]
      by_cases ht : none = t
      · simp [← ht]
      · rwa [Function.update_of_ne ht]
    · rw [remaining, remaining, hqueue]
      omega
  · have hnotified : ∀ notified, s.thread t = .waiting notified → notified = true := by
      intro notified hthread
      rcases ha with rfl | rfl
      · simp [CheckSystem.step, enter, hthread, batchDone] at hstep
      · simpa [hthread] using hwake t rfl
    obtain ⟨hkept, hlt⟩ := hs.finish_lt hq hnotified h hmore hmaster
    refine ⟨⟨r.next e, hs.finish hq h, hkept⟩, hlt⟩

theorem Inv.inevitable (hs : Inv evaluate s r) (hmaster : s.thread none ≠ .outside) :
    Inevitable (Scheduled evaluate) WaitReturns s := by
  refine Inevitable.of_measure (P := fun s => ∃ r, Inv evaluate s r ∧ s.thread none ≠ .outside)
    remaining ?_ ?_ ⟨r, hs, hmaster⟩
  · rintro s ⟨r, hs, -⟩
    exact hs.exists_scheduled
  · rintro s e s' ⟨r, hs, hmaster⟩ hstep hmore
    exact hs.scheduled hmaster hstep hmore

theorem check_queue_conjunction {nBatchSize : Nat} (h : Reaches evaluate nBatchSize s r) :
    (∀ a s' fRet, s.step evaluate a = some (s', .returned none fRet) →
      (fRet = true ↔ ∀ c ∈ r.added, evaluate c = true) ∧
        (r.taken.map Prod.snd).Perm r.added ∧ s'.queue.isIdle = true) ∧
      (r.added = [] → s.queue.isIdle = true) ∧
      (∀ t nNow fOk, s.thread t = .evaluating nNow [] fOk → nNow ≤ s.queue.nTodo) ∧
      (s.thread none ≠ .outside → Inevitable (Scheduled evaluate) WaitReturns s) := by
  have hs := h.inv
  refine ⟨fun a s' fRet hstep => ?_, hs.isIdle, fun t nNow fOk hthread => ?_, hs.inevitable⟩
  · obtain ⟨hverdict, htaken⟩ := hs.at_return hstep
    exact ⟨hverdict, htaken, (hs.step hstep (Nat.two_pow_pos 32)).isIdle rfl⟩
  · have hle := le_total Thread.held s.thread t
    have htodo := hs.counts.todo
    rw [hthread] at hle
    simp only [Thread.held] at hle
    omega

-- One worker and the master take a check each, and one of the checks is bad.
theorem check_queue_conjunction_bad : ∃ (s s' : CheckSystem Unit Bool) (r : CheckRound Unit Bool),
    Reaches id 128 s r ∧ r.added = [true, false] ∧
      s.step id (.enter none) = some (s', .returned none false) ∧
        (false = true ↔ ∀ c ∈ r.added, id c = true) ∧ s'.queue.isIdle = true := by
  have h₀ : Reaches (W := Unit) (T := Bool) id 128 (initial 128) {} := .initial
  have h₁ := Reaches.step (a := .add [true, false] none) h₀ rfl (by decide)
  have h₂ := Reaches.step (a := .enter (some ())) h₁ rfl (by decide)
  have h₃ := Reaches.step (a := .enter none) h₂ rfl (by decide)
  have h₄ := Reaches.step (a := .check none) h₃ rfl (by decide)
  have h₅ := Reaches.step (a := .check (some ())) h₄ rfl (by decide)
  have h₆ := Reaches.step (a := .enter (some ())) h₅ rfl (by decide)
  obtain ⟨hverdict, -, hidle⟩ := (check_queue_conjunction h₆).1 (.enter none) _ false rfl
  exact ⟨_, _, _, h₆, rfl, rfl, hverdict, hidle⟩

end CheckSystem

end AnkerNode
