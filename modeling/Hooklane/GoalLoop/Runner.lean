import Hooklane.GoalLoop.Outcome
import Hooklane.Support.Counter
import Hooklane.Support.Sequential

/-!
# The runner

The programs of `goal_loop_runner.py`, over the calls by which they act: reads
and writes of files, the agent's process, and the signal that the handler
received.  Everything that an agent does happens while the runner waits for
it.  The contents of a file are modelled where the runner, or a property of a
run, depends on them.
-/

namespace Hooklane.GoalLoop

open Support

/-! ## Calls -/

/-- Why the features cannot be read: an `OSError`, or a `ValueError` of the
decoder. -/
inductive ReadError where
  | os (message : String)
  | value (message : String)
deriving DecidableEq, Repr

/-- What `json.loads(path.read_text())` gives for the features file. -/
abbrev Contents := Except ReadError Json

inductive Raised where
  | fileNotFound (message : String)
  | osError (message : String)
  | valueError (message : String)
  | unfinished
deriving DecidableEq, Repr

def ReadError.raised : ReadError → Raised
  | .os message => .osError message
  | .value message => .valueError message

/-- `str(error)`. -/
def Raised.message : Raised → String
  | .fileNotFound message | .osError message | .valueError message => message
  | .unfinished => ""

/-- `load_feature_document`, from what reading the file gives. -/
def loadContents (contents : Contents) : Except Raised Document :=
  match contents with
  | .ok value =>
      match loadFeatureDocument value with
      | .ok document => .ok document
      | .error message => .error (.valueError message)
  | .error e => .error e.raised

/-- Where the runner reads the features. -/
inductive Place where
  | initial
  | opening
  | closing
deriving DecidableEq, Repr

/-- Which feature an agent is started on. -/
structure Assignment where
  iteration : ℕ
  featureId : String
  attempt : ℕ
deriving DecidableEq, Repr

/-- Actions on files and standard streams that can fail with an `OSError`. -/
inductive Effect where
  | gitBefore (text : String)
  | gitAfter (text : String)
  | iterationDir (path : String)
  | prompt (assignment : Assignment)
  | touchFinal
  | copyFinal
  | errorLog (text : String)
  | touchStream
  | receipt (iteration : ℕ) (receipt : Json)
  | iterationMetadata (iteration : ℕ) (metadata : Json)
  | runMetadata (metadata : Json)
  | summary (text : String)
  | features (document : Json)
  | print (text : String)
  | printError (text : String)

/-- How the start of an agent ends. -/
inductive PopenReply where
  | started
  | notFound (message : String)
  | failed (message : String)
deriving DecidableEq, Repr

/-- The signals that the runner sends to the agent's process group. -/
inductive KillSignal where
  | received (signal : Signal)
  | sigkill
deriving DecidableEq, Repr

inductive Op where
  | isFile (name : String)
  | readFeatures (place : Place)
  | readFinal
  | readPrompt
  | effect (action : Effect)
  | createRunDir
  | popen (assignment : Assignment)
  | wait (seconds : String)
  | poll
  | killpg (signal : KillSignal)
  | receivedSignal
  | utcNow
  | elapsed
  | gitSnapshot
  | testActivity
  | codexThreadId

def Op.Reply : Op → Type
  | .isFile _ => Bool
  | .readFeatures _ => Contents
  | .readFinal => Except String String
  | .readPrompt => Except ReadError String
  | .effect _ => Option String
  | .createRunDir => Except String RunDir
  | .popen _ => PopenReply
  | .wait _ => Option ℤ
  | .poll => Option ℤ
  | .killpg _ => Unit
  | .receivedSignal => Option Signal
  | .utcNow => String
  | .elapsed => String
  | .gitSnapshot => Option String × String
  | .testActivity => Except String (Bool × Bool)
  | .codexThreadId => Except String (Option String)

/-- The call acts on files of the run or on the features file: it writes one,
creates one, or opens the streams of an agent. -/
def Op.touches : Op → Bool
  | .effect (.print _) | .effect (.printError _) => false
  | .effect _ | .createRunDir | .popen _ => true
  | _ => false

abbrev Runner := ProgE Op Op.Reply Raised

namespace Runner

def request (op : Op) : Runner op.Reply := ProgE.perform op

/-- The value of `RECEIVED_SIGNAL`. -/
def receivedSignal : Runner (Option Signal) := request .receivedSignal

/-- Perform an action whose failure is an `OSError`. -/
def effect (action : Effect) : Runner Unit := do
  match ← request (.effect action) with
  | none => return ()
  | some message => throw (.osError message)

/-- Use an observation whose failure is an `OSError`. -/
def orRaise {α : Type} : Except String α → Runner α
  | .ok a => return a
  | .error message => throw (.osError message)

/-! ## The agent's process -/

/-- `send_process_group_signal` on POSIX: nothing for a process that ended. -/
def sendProcessGroupSignal (signal : KillSignal) : Runner Unit := do
  match ← request .poll with
  | some _ => return ()
  | none => request (.killpg signal)

/-- `terminate_timed_out_process` on POSIX: interrupt, terminate, kill, each
after the grace of the one before. -/
def terminateTimedOutProcess (settings : Settings) :
    Runner (Option ℤ × TerminationMethod) := do
  sendProcessGroupSignal (.received .sigint)
  match ← request (.wait settings.terminationGrace) with
  | some code => return (some code, .interrupt)
  | none => do
    sendProcessGroupSignal (.received .sigterm)
    match ← request (.wait settings.terminationGrace) with
    | some code => return (some code, .terminate)
    | none => do
      sendProcessGroupSignal .sigkill
      let _ ← request (.wait settings.terminationGrace)
      return (← request .poll, .kill)

/-- A signal received before the agent was known is passed on to it. -/
def passSignalOn : Runner Unit := do
  match ← receivedSignal with
  | some signal => sendProcessGroupSignal (.received signal)
  | none => return ()

/-- Wait for the started agent, and stop it when its time is over. -/
def awaitAgent (settings : Settings) (startedAt : String) :
    Runner ProcessResult := do
  passSignalOn
  match ← request (.wait settings.iterationTimeout) with
  | some code => do
    let endedAt ← request .utcNow
    let elapsed ← request .elapsed
    return ⟨some code, startedAt, endedAt, elapsed, false, none, none⟩
  | none => do
    let timeoutAt ← request .utcNow
    let stopped ← terminateTimedOutProcess settings
    let endedAt ← request .utcNow
    let elapsed ← request .elapsed
    return ⟨stopped.1, startedAt, endedAt, elapsed, true, some timeoutAt,
      some stopped.2⟩

/-- `run_agent_process`, with the streams opened for it. -/
def runAgentProcess (settings : Settings) (assignment : Assignment) :
    Runner ProcessResult := do
  let startedAt ← request .utcNow
  match ← request (.popen assignment) with
  | .notFound message => throw (.fileNotFound message)
  | .failed message => throw (.osError message)
  | .started => awaitAgent settings startedAt

/-- `missing_executable_result`. -/
def missingExecutableResult (startedAt : String) : Runner ProcessResult := do
  let endedAt ← request .utcNow
  let elapsed ← request .elapsed
  return ⟨some 127, startedAt, endedAt, elapsed, false, none, none⟩

/-- The part that `run_codex` and `run_claude` share. -/
def runCommand (settings : Settings) (assignment : Assignment) :
    Runner ProcessResult := do
  let startedAt ← request .utcNow
  tryCatch (runAgentProcess settings assignment) fun
    | .fileNotFound message => do
        effect (.errorLog (message ++ "\n"))
        effect .touchStream
        missingExecutableResult startedAt
    | e => throw e

/-- `run_codex`. -/
def runCodex (settings : Settings) (assignment : Assignment) :
    Runner ProcessResult := do
  effect .touchFinal
  runCommand settings assignment

/-- `run_claude`. -/
def runClaude (settings : Settings) (assignment : Assignment) :
    Runner ProcessResult := do
  let result ← runCommand settings assignment
  effect .copyFinal
  return result

/-- `run_agent`. -/
def runAgent (settings : Settings) (assignment : Assignment) :
    Runner ProcessResult :=
  match settings.agent with
  | .codex => runCodex settings assignment
  | .claude => runClaude settings assignment

/-! ## Finalization -/

/-- The summary of a run that the iteration ends. -/
def runSummary (record : IterationRecord) (outcome : IterationOutcome) :
    String :=
  terminalSummary record.iteration outcome record.seen.processResult.exitCode
    (record.runDir.iterationDir record.iteration)

/-- Write the two files that record the run. -/
def writeRunRecord (settings : Settings) (runStartedAt : String)
    (record : IterationRecord) (outcome : IterationOutcome) :
    Runner Unit := do
  let endedAt ← request .utcNow
  effect (.runMetadata (.obj (runMetadata
    (iterationMetadata settings record outcome) runStartedAt endedAt)))
  effect (.summary (runSummary record outcome))

/-- One pass of the loop of `finalize_iteration`; `none` is its `continue`. -/
def finalizePass (settings : Settings) (runStartedAt : String)
    (record : IterationRecord) : Runner (Option (Option ℤ)) := do
  let signalBefore ← receivedSignal
  let signal ← receivedSignal
  let outcome := determineOutcome settings signal record.seen
  effect (.iterationMetadata record.iteration
    (.obj (iterationMetadata settings record outcome)))
  match outcome.runnerExitCode with
  | none => do
    let signalAfter ← receivedSignal
    if signalAfter ≠ signalBefore then return none
    else return some none
  | some code => do
    writeRunRecord settings runStartedAt record outcome
    let signalAfter ← receivedSignal
    if signalAfter ≠ signalBefore then return none
    else do
      effect (.print (runSummary record outcome))
      let signalLast ← receivedSignal
      if signalLast ≠ signalBefore then return none
      else return some (some code)

/-- `finalize_iteration`, cut off after the given number of passes. -/
def finalizeIteration (settings : Settings) (runStartedAt : String)
    (record : IterationRecord) : ℕ → Runner (Option ℤ)
  | 0 => throw .unfinished
  | passes + 1 => do
    match ← finalizePass settings runStartedAt record with
    | some code => return code
    | none => finalizeIteration settings runStartedAt record passes

/-! ## Iterations -/

/-- `load_feature_document(features_path)`. -/
def readFeatures (place : Place) : Runner Document := do
  match loadContents (← request (.readFeatures place)) with
  | .ok document => return document
  | .error e => throw e

/-- The agent's last message, and whether it could not be read. -/
def readFinalMessage : Runner (String × Bool) := do
  match ← request .readFinal with
  | .ok text => return (text, false)
  | .error message => do
    effect (.printError s!"[artifact-error] final.md: {message}\n")
    return ("", true)

/-- The document that the agent left, or the one it was given where that
cannot be loaded. -/
def readDocumentAfter (document : Document) : Runner (Document × Bool) := do
  match loadContents (← request (.readFeatures .closing)) with
  | .ok documentAfter => return (documentAfter, false)
  | .error e => do
    effect (.printError s!"[artifact-error] features.json: {e.message}\n")
    return (document, true)

/-- `keep_timed_out_feature_pending`, with the document it leaves. -/
def keepTimedOutFeaturePending (document : Document) (featureId : String) :
    Runner (Option Feature × Document) :=
  match document.featureById featureId with
  | none => return (none, document)
  | some feature =>
      if feature.claimed then do
        let updated := document.update feature.withdrawn
        effect (.features updated.toJson)
        return (some feature.withdrawn, updated)
      else return (some feature, document)

/-- The selected feature after the agent, and the document. -/
def selectAfter (timedOut artifactError : Bool) (document : Document)
    (featureId : String) : Runner (Option Feature × Document) :=
  if timedOut && !artifactError then
    keepTimedOutFeaturePending document featureId
  else return (document.featureById featureId, document)

/-- Write the receipt of a timed out iteration. -/
def writeReceipt (settings : Settings) (runDir : RunDir) (iteration : ℕ)
    (feature : Feature) (attempt : ℕ) (result : ProcessResult)
    (tests : Bool × Bool) : Runner Unit :=
  if result.timedOut then
    effect (.receipt iteration (.obj (timeoutReceipt settings runDir iteration
      feature attempt result tests.1 tests.2)))
  else return ()

/-- What `run_loop` fixes before its first iteration. -/
structure RunStart where
  startedAt : String
  runDir : RunDir
  gitHead : Option String
  gitStatus : String

/-- What an iteration does before its agent. -/
def prepareIteration (settings : Settings) (run : RunStart)
    (assignment : Assignment) : Runner Unit := do
  let iterationDir := run.runDir.iterationDir assignment.iteration
  effect (.iterationDir iterationDir)
  effect (.prompt assignment)
  effect (.print
    (s!"[start] iteration {assignment.iteration}/{settings.maxIterations} " ++
      s!"feature={assignment.featureId} " ++
      s!"attempt={assignment.attempt}/{settings.maxAttemptsPerFeature}\n"))
  effect (.print s!"[logs] {iterationDir}\n")

/-- `extract_codex_thread_id`, asked for one of the agents only. -/
def readThreadId : Agent → Runner (Option String)
  | .codex => do orRaise (← request .codexThreadId)
  | .claude => return none

/-- What an iteration reads, and writes about a timeout, after its agent. -/
def observeIteration (settings : Settings) (run : RunStart) (iteration : ℕ)
    (document : Document) (feature : Feature) (attempt : ℕ)
    (result : ProcessResult) : Runner IterationRecord := do
  let final ← readFinalMessage
  let left ← readDocumentAfter document
  let artifactError := final.2 || left.2
  let selected ← selectAfter result.timedOut artifactError left.1 feature.id
  let tests ← orRaise (← request .testActivity)
  writeReceipt settings run.runDir iteration (selected.1.getD feature) attempt
    result tests
  let git ← request .gitSnapshot
  effect (.gitAfter (gitSnapshotText git.1 git.2))
  let threadId ← readThreadId settings.agent
  return {
    runDir := run.runDir
    iteration := iteration
    feature := feature
    seen := {
      processResult := result
      finalMessage := final.1
      artifactError := artifactError
      selectedState := featureState selected.1
      document := selected.2
      attempt := attempt
      finalIteration := iteration = settings.maxIterations }
    gitHeadBefore := run.gitHead
    gitHeadAfter := git.1
    gitStatusBefore := run.gitStatus
    gitStatusAfter := git.2
    codexThreadId := threadId
    testsStarted := tests.1
    testsCompleted := tests.2 }

/-- The body of the loop of `run_loop`, for the feature it selected. -/
def runIteration (settings : Settings) (run : RunStart) (iteration : ℕ)
    (document : Document) (feature : Feature) (attempt : ℕ) :
    Runner (Option ℤ) := do
  let assignment : Assignment := ⟨iteration, feature.id, attempt⟩
  prepareIteration settings run assignment
  let result ← runAgent settings assignment
  let record ← observeIteration settings run iteration document feature attempt
    result
  finalizeIteration settings run.startedAt record 2

/-- The returns of `run_loop` where no feature can be selected. -/
def noSelectableFeature (document : Document) : Runner ℤ :=
  if document.allFeaturesPass then do
    effect (.print "[complete] all features already pass\n")
    return 0
  else if document.allRemainingFeaturesBlocked then do
    effect (.printError "[blocked] all remaining features are blocked\n")
    return 2
  else do
    effect (.print "[complete] no selectable feature remains\n")
    return 0

/-- The loop of `run_loop`: the iterations left, the number of the next one,
and the attempts counted so far. -/
def iterate (settings : Settings) (run : RunStart) :
    ℕ → ℕ → Counter String → Runner ℤ
  | 0, _, _ => return 0
  | left + 1, iteration, attempts => do
    let document ← readFeatures .opening
    match document.pendingFeature with
    | none => noSelectableFeature document
    | some feature => do
      let attempts := attempts.inc feature.id
      match ← runIteration settings run iteration document feature
          (attempts.value feature.id) with
      | some code => return code
      | none => iterate settings run left (iteration + 1) attempts

/-- `run_loop`. -/
def runLoop (settings : Settings) : Runner ℤ := do
  let initialDocument ← readFeatures .initial
  match initialDocument.pendingFeature with
  | none => noSelectableFeature initialDocument
  | some _ => do
    let startedAt ← request .utcNow
    let git ← request .gitSnapshot
    let runDir ← orRaise (← request .createRunDir)
    effect (.gitBefore (gitSnapshotText git.1 git.2))
    match ← request .readPrompt with
    | .error e => throw e.raised
    | .ok _ =>
        iterate settings ⟨startedAt, runDir, git.1, git.2⟩
          settings.maxIterations 1 ∅

/-- `print_status`. -/
def printStatus (document : Document) : Runner Unit := do
  let counts := document.featureCounts
  effect (.print (s!"[features] total={counts.total} passed={counts.passed} " ++
    s!"blocked={counts.blocked} pending={counts.pending}\n"))
  let selected := (document.pendingFeature.map Feature.id).getD "none"
  effect (.print s!"[selected] {selected}\n")

/-- What `main` is asked to do. -/
inductive Mode where
  | run
  | status
  | dryRun
deriving DecidableEq, Repr

/-- The guarded part of `main`. -/
def perform (settings : Settings) : Mode → Runner ℤ
  | .run => runLoop settings
  | .status => do
      printStatus (← readFeatures .initial)
      return 0
  | .dryRun => do
      printStatus (← readFeatures .initial)
      effect (.print (s!"[dry-run] agent={settings.agent.name} " ++
        s!"max_iterations={settings.maxIterations} " ++
        s!"timeout={settings.iterationTimeout} " ++
        s!"max_attempts_per_feature={settings.maxAttemptsPerFeature}\n"))
      return 0

/-- `main`, after its arguments were parsed. -/
def main (settings : Settings) (mode : Mode) : Runner ℤ := do
  if !(← request (.isFile "PROMPT.md")) then do
    effect (.printError
      "error: PROMPT.md was not found in the current directory.\n")
    return 66
  else if !(← request (.isFile "docs/features.json")) then do
    effect (.printError
      "error: docs/features.json was not found in the current directory.\n")
    return 66
  else
    tryCatch (perform settings mode) fun
      | .unfinished => throw .unfinished
      | e => do
          effect (.printError s!"[artifact-error] {e.message}\n")
          effect (.printError "[runner-exit] 3\n")
          return 3

end Runner

/-! ## The world of a run -/

/-- An agent that was started, and the features file it was given. -/
structure Launch where
  featureId : String
  given : Contents

/-- What the runner shares with its agents and with its user.  The histories
list the newest entry first. -/
structure World where
  features : Contents
  signal : Option Signal
  /-- Agents that were started. -/
  launches : List Launch
  /-- Features files read at the start of an iteration. -/
  opened : List Contents
  runMetadata : Option Json
  summary : Option String
  receipts : List (ℕ × Json)
  iterations : List (ℕ × Json)
  /-- Calls of the runner that acted on files, whether or not they failed. -/
  touched : List Op

namespace World

/-- Nothing has happened yet in this invocation. -/
structure Fresh (w : World) : Prop where
  signal : w.signal = none
  launches : w.launches = []
  opened : w.opened = []
  runMetadata : w.runMetadata = none
  summary : w.summary = none
  receipts : w.receipts = []
  iterations : w.iterations = []
  touched : w.touched = []

def write (w : World) : Effect → World
  | .features document => { w with features := .ok document }
  | .runMetadata metadata => { w with runMetadata := some metadata }
  | .summary text => { w with summary := some text }
  | .receipt iteration receipt =>
      { w with receipts := (iteration, receipt) :: w.receipts }
  | .iterationMetadata iteration metadata =>
      { w with iterations := (iteration, metadata) :: w.iterations }
  | _ => w

/-- A call that acts on files is about to be carried out. -/
def touching (w : World) (op : Op) : World :=
  bif op.touches then { w with touched := op :: w.touched } else w

def reading (w : World) : Place → World
  | .opening => { w with opened := w.features :: w.opened }
  | _ => w

/-- How a call is answered and what it changes. -/
def Answers (w : World) : (op : Op) → op.Reply → World → Prop
  | .readFeatures place, reply, w' => reply = w.features ∧ w' = w.reading place
  | .effect action, reply, w' =>
      reply = none ∧ w' = w.write action ∨ reply ≠ none ∧ w' = w
  | .popen assignment, reply, w' =>
      reply = .started ∧ w' = { w with
        launches := ⟨assignment.featureId, w.features⟩ :: w.launches } ∨
      reply ≠ .started ∧ w' = w
  | .wait _, _, w' => ∃ left, w' = { w with features := left }
  | .receivedSignal, reply, w' => reply = w.signal ∧ w' = w
  | _, _, w' => w' = w

/-- The handler keeps the first signal that arrives. -/
inductive Signalled (w : World) : World → Prop where
  | none : Signalled w w
  | some (signal : Signal) (first : w.signal = none) :
      Signalled w { w with signal := some signal }

end World

/-- Signals arrive at any time before a call takes effect. -/
def runnerMachine : Machine Op Op.Reply where
  State := World
  Init := World.Fresh
  exec w op reply w' := ∃ v, w.Signalled v ∧ (v.touching op).Answers op reply w'

end Hooklane.GoalLoop
