import Hooklane.Support.Interleaving
import Hooklane.Worker.Service

/-!
# Startup, readiness and shutdown of the worker process

`ServiceHealth`, `ShutdownCoordinator`, `WorkerRuntime` and one round of the
loop of `run_worker`.  The tasks of the process interleave at their awaits;
the methods of `ServiceHealth` run without one.
-/

namespace Hooklane.Runtime

open Support

/-- `ServiceHealth`. -/
structure ServiceHealth where
  started : Bool := false
  dependencyReady : Bool := false
  shuttingDown : Bool := false
  inFlight : ℕ := 0
  drained : Bool := true
deriving DecidableEq, Repr

namespace ServiceHealth

variable (health : ServiceHealth)

def ready : Bool :=
  health.started && health.dependencyReady && !health.shuttingDown

def markStarted (dependencyReady : Bool) : ServiceHealth :=
  { health with started := true, dependencyReady := dependencyReady }

def setDependencyReady (ready : Bool) : ServiceHealth :=
  { health with dependencyReady := ready }

/-- `begin_work`, and whether it was let in. -/
def beginWork : Bool × ServiceHealth :=
  if !health.ready then (false, health)
  else (true,
    { health with inFlight := health.inFlight + 1, drained := false })

/-- `finish_work`; `none` where it raises `RuntimeError`. -/
def finishWork : Option ServiceHealth :=
  if health.inFlight < 1 then none
  else some
    { health with
      inFlight := health.inFlight - 1
      drained := if health.inFlight - 1 = 0 then true else health.drained }

def beginShutdown : ServiceHealth := { health with shuttingDown := true }

end ServiceHealth

/-- Python exceptions that leave a task. -/
inductive Raised where
  | eventStoreUnavailable
  | runtimeError
  | other
deriving DecidableEq, Repr

/-- What the tasks ask of the shared objects and of the event loop.  `work` is
the await of `EventWorker.run_once`. -/
inductive Op where
  | ready
  | markStarted (dependencyReady : Bool)
  | setDependencyReady (ready : Bool)
  | beginWork
  | finishWork
  | beginShutdown
  | requested
  | request
  | waitForDrain
  | ensureConsumerGroup
  | work
  | waitForWork
deriving DecidableEq, Repr

@[reducible]
def Op.Reply : Op → Type
  | .ready | .beginWork | .finishWork | .requested | .waitForDrain => Bool
  | .ensureConsumerGroup => Except Raised Unit
  | .work => Except Raised WorkerResult
  | .markStarted _ | .setDependencyReady _ | .beginShutdown | .request
  | .waitForWork => Unit

abbrev Task := ProgE Op Op.Reply Raised

namespace Task

def request (op : Op) : Task op.Reply := ProgE.perform op

/-- An await that may raise. -/
def orRaise {α : Type} : Except Raised α → Task α
  | .ok a => return a
  | .error raised => throw raised

end Task

open Hooklane.Runtime.Task

namespace WorkerRuntime

def startup : Task Bool := do
  match ← request .ensureConsumerGroup with
  | .ok _ =>
      request (.markStarted true)
      return true
  | .error .eventStoreUnavailable =>
      request (.markStarted false)
      return false
  | .error raised => throw raised

/-- `finish_work`. -/
def finishWork : Task Unit := do
  if !(← request .finishWork) then throw .runtimeError

/-- `run_once`: the `finally` clause runs whatever the worker's iteration
does. -/
def runOnce : Task (Option WorkerResult) := do
  if !(← request .beginWork) then return none
  else
    let result ← request .work
    finishWork
    let value ← orRaise result
    return some value

end WorkerRuntime

/-- `run_once` inside the `try` of the loop: `none` where it raised
`EventStoreUnavailable`. -/
def attemptOnce : Task (Option (Option WorkerResult)) :=
  tryCatch
    (do
      let result ← WorkerRuntime.runOnce
      return some result)
    fun raised =>
      if raised = .eventStoreUnavailable then return none else throw raised

/-- `health.ready`, or else what a new startup says. -/
def readyOrStarted : Task Bool := do
  if ← request .ready then return true
  else WorkerRuntime.startup

/-- One round of the loop of `run_worker`, and whether the loop goes on. -/
def round : Task Bool := do
  if ← request .requested then return false
  else
    if !(← readyOrStarted) then
      request .waitForWork
      return true
    else
      match ← attemptOnce with
      | none =>
          request (.setDependencyReady false)
          request .waitForWork
          return true
      | some result =>
          if result = none ∨ result = some .noMessage then
            request .waitForWork
            return true
          else return true

/-- The shared objects, and how much work was begun, finished and done so far,
which no task reads. -/
structure World where
  health : ServiceHealth := {}
  requested : Bool := false
  begun : ℕ := 0
  finished : ℕ := 0
  works : ℕ := 0
deriving DecidableEq, Repr

namespace World

/-- What one operation does to the shared objects. -/
def apply (w : World) : Op → World
  | .markStarted ready => { w with health := w.health.markStarted ready }
  | .setDependencyReady ready =>
      { w with health := w.health.setDependencyReady ready }
  | .beginWork =>
      { w with
        health := w.health.beginWork.2
        begun := w.begun + w.health.beginWork.1.toNat }
  | .finishWork =>
      match w.health.finishWork with
      | none => w
      | some health => { w with health := health, finished := w.finished + 1 }
  | .beginShutdown => { w with health := w.health.beginShutdown }
  | .request =>
      if w.requested then w
      else { w with health := w.health.beginShutdown, requested := true }
  | .work => { w with works := w.works + 1 }
  | .ready | .requested | .waitForDrain | .ensureConsumerGroup | .waitForWork =>
      w

/-- The replies that an operation can have. -/
def Replies (w : World) : (op : Op) → op.Reply → Prop
  | .ready, reply => reply = w.health.ready
  | .beginWork, reply => reply = w.health.beginWork.1
  | .finishWork, reply => reply = w.health.finishWork.isSome
  | .requested, reply => reply = w.requested
  -- the wait ends with the event, or with its timeout at any time
  | .waitForDrain, reply => reply = true → w.health.drained = true
  | _, _ => True

end World

/-- The process: one operation at a time. -/
@[reducible]
def runtimeMachine : Machine Op Op.Reply where
  State := World
  Init := fun w => w = {}
  exec := fun w op reply w' => w.Replies op reply ∧ w' = w.apply op

/-- The tasks that run in the process: the loop's rounds, single iterations, the
signal handlers and the drain. -/
inductive Call where
  | startup
  | runOnce
  | round
  | request
  | beginShutdown
  | waitForDrain

@[reducible]
def Call.Result : Call → Type
  | .startup | .round | .waitForDrain => Except Raised Bool
  | .runOnce => Except Raised (Option WorkerResult)
  | .request | .beginShutdown => Except Raised Unit

def Call.body : (call : Call) → Prog Op Op.Reply call.Result
  | .startup => WorkerRuntime.startup.run
  | .runOnce => WorkerRuntime.runOnce.run
  | .round => Runtime.round.run
  | .request => (Task.request .request).run
  | .beginShutdown => (Task.request .beginShutdown).run
  | .waitForDrain => (Task.request .waitForDrain).run

/-- Any number of tasks of the process. -/
def runtimeService : Service runtimeMachine where
  Call := Call
  Result := Call.Result
  Enabled := fun _ _ => True
  body := Call.body

end Hooklane.Runtime
