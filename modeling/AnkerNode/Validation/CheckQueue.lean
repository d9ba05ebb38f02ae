import AnkerNode.Primitives.Uint256
import Mathlib.Algebra.BigOperators.Group.Finset.Basic
import Mathlib.Data.Fintype.Option

namespace AnkerNode

structure CCheckQueue (T : Type) where
  queue : List T := []
  nIdle : Int := 0
  nTotal : Int := 0
  fAllOk : Bool := true
  nTodo : Nat := 0
  fQuit : Bool := false
  nBatchSize : Nat

-- Where a thread is: outside `Loop`, evaluating what is left of a batch of `nNow` checks (or done
-- with it), or waiting for its condition variable.
inductive Thread (T : Type) where
  | outside
  | evaluating (nNow : Nat) (vChecks : List T) (fOk : Bool)
  | waiting (notified : Bool)

-- how a critical section of `Loop` ends
inductive Exit (T : Type) where
  | returned (fRet : Bool)
  | waits
  | takes (nNow : Nat) (vChecks : List T) (fOk : Bool)

namespace CCheckQueue

variable {T : Type} (q : CCheckQueue T)

def cleanUp (nNow : Nat) (fOk : Bool) : CCheckQueue T :=
  if nNow ≠ 0 then { q with fAllOk := q.fAllOk && fOk, nTodo := uint32 (q.nTodo - nNow) }
  else { q with nTotal := q.nTotal + 1 }

def batch : Nat :=
  max 1 (min q.nBatchSize (q.queue.length % 2 ^ 32 / uint32 (q.nTotal + q.nIdle + 1)))

-- the last checks come first
def loop (fMaster : Bool) : CCheckQueue T × Exit T :=
  if q.queue.isEmpty then
    if (fMaster || q.fQuit) && q.nTodo == 0 then
      ({ q with nTotal := q.nTotal - 1, fAllOk := if fMaster then true else q.fAllOk },
        .returned q.fAllOk)
    else ({ q with nIdle := q.nIdle + 1 }, .waits)
  else
    ({ q with queue := q.queue.take (q.queue.length - q.batch) },
      .takes q.batch (q.queue.drop (q.queue.length - q.batch)).reverse q.fAllOk)

def add (vChecks : List T) : CCheckQueue T :=
  { q with queue := q.queue ++ vChecks, nTodo := uint32 (q.nTodo + vChecks.length) }

def isIdle : Bool := q.nTotal == q.nIdle && q.nTodo == 0 && q.fAllOk

end CCheckQueue

def Exit.thread {T : Type} : Exit T → Thread T
  | .returned _ => .outside
  | .waits => .waiting false
  | .takes nNow vChecks fOk => .evaluating nNow vChecks fOk

def Thread.notify {T : Type} : Thread T → Thread T
  | .waiting _ => .waiting true
  | thread => thread

-- The queue with its threads: `none` is the master.
structure CheckSystem (W T : Type) where
  queue : CCheckQueue T
  thread : Option W → Thread T

-- `wake` needs no notification: a condition variable may wake up by itself.
inductive CheckAction (W T : Type) where
  | add (vChecks : List T) (notified : Option W)
  | enter (t : Option W)
  | check (t : Option W)
  | wake (t : Option W)

inductive CheckEvent (W T : Type) where
  | added (vChecks : List T)
  | took (t : Option W) (vChecks : List T)
  | returned (t : Option W) (fRet : Bool)
  | quiet

def Exit.event {W T : Type} (t : Option W) : Exit T → CheckEvent W T
  | .returned fRet => .returned t fRet
  | .waits => .quiet
  | .takes _ vChecks _ => .took t vChecks

namespace CheckSystem

variable {W T : Type} [DecidableEq W] (s : CheckSystem W T) (evaluate : T → Bool)

def initial (nBatchSize : Nat) : CheckSystem W T where
  queue := { nBatchSize := nBatchSize }
  thread := fun _ => .outside

-- the rest of a critical section, from the test of the queue on
def finish (q : CCheckQueue T) (thread : Option W → Thread T) (t : Option W) :
    CheckSystem W T × CheckEvent W T :=
  ({ queue := (q.loop t.isNone).1, thread := Function.update thread t (q.loop t.isNone).2.thread },
    (q.loop t.isNone).2.event t)

-- the batch that a thread has done when it comes to the critical section
def batchDone : Thread T → Option (Nat × Bool)
  | .outside => some (0, true)
  | .evaluating nNow [] fOk => some (nNow, fOk)
  | _ => none

def notifyMaster (thread : Option W → Thread T) : Option W → Thread T :=
  Function.update thread none (thread none).notify

def enter (t : Option W) : Option (CheckSystem W T × CheckEvent W T) :=
  (batchDone (s.thread t)).map fun (nNow, fOk) =>
    let q := s.queue.cleanUp nNow fOk
    finish q (if nNow ≠ 0 ∧ q.nTodo = 0 ∧ t.isSome then notifyMaster s.thread else s.thread) t

def check (t : Option W) : Option (CheckSystem W T × CheckEvent W T) :=
  match s.thread t with
  | .evaluating nNow (c :: vChecks) fOk =>
    let thread := .evaluating nNow vChecks (if fOk then evaluate c else fOk)
    some ({ s with thread := Function.update s.thread t thread }, .quiet)
  | _ => none

def wake (t : Option W) : Option (CheckSystem W T × CheckEvent W T) :=
  match s.thread t with
  | .waiting _ => some (finish { s.queue with nIdle := s.queue.nIdle - 1 } s.thread t)
  | _ => none

-- the workers after the notification of `Add`: one of the waiting ones, or all of them
def notifyWorkers (vChecks : List T) (notified : Option W) (thread : Option W → Thread T) :
    Option W → Thread T
  | none => thread none
  | some w =>
    if vChecks.length = 1 ∧ notified ≠ some w ∨ vChecks.length = 0 then thread (some w)
    else (thread (some w)).notify

def step : CheckAction W T → Option (CheckSystem W T × CheckEvent W T)
  | .add vChecks notified =>
    some ({ queue := s.queue.add vChecks, thread := notifyWorkers vChecks notified s.thread },
      .added vChecks)
  | .enter t => s.enter t
  | .check t => s.check evaluate t
  | .wake t => s.wake t

end CheckSystem

-- the checks added, and those taken with the thread that took them, since the last return of `Wait`
structure CheckRound (W T : Type) where
  added : List T := []
  taken : List (Option W × T) := []

def CheckRound.next {W T : Type} (r : CheckRound W T) : CheckEvent W T → CheckRound W T
  | .added vChecks => { r with added := r.added ++ vChecks }
  | .took t vChecks => { r with taken := r.taken ++ vChecks.map (t, ·) }
  | .returned none _ => {}
  | _ => r

-- Any order of critical sections and evaluations. The counter of 32 bits has room for a round: the
-- master adds a check for each input of a block.
inductive CheckSystem.Reaches {W T : Type} [DecidableEq W] (evaluate : T → Bool) (nBatchSize : Nat) :
    CheckSystem W T → CheckRound W T → Prop
  | initial : Reaches evaluate nBatchSize (initial nBatchSize) {}
  | step {s s' : CheckSystem W T} {r : CheckRound W T} {a : CheckAction W T} {e : CheckEvent W T}
      (hreach : Reaches evaluate nBatchSize s r) (hstep : s.step evaluate a = some (s', e))
      (hfits : (r.next e).added.length < 2 ^ 32) : Reaches evaluate nBatchSize s' (r.next e)

end AnkerNode
