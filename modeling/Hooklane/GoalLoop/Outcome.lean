import Hooklane.GoalLoop.Features
import Mathlib.Data.List.Infix

/-!
# The outcome of an iteration

`determineOutcome`, the texts that `goal_loop_runner.py` writes about it, and
the settings and observations that they read.  Times, elapsed seconds and
limits are the texts that the runner writes for them.
-/

namespace Hooklane.GoalLoop

inductive Agent where
  | claude
  | codex
deriving DecidableEq, Repr

def Agent.name : Agent → String
  | .claude => "claude"
  | .codex => "codex"

/-- The signals that the runner handles. -/
inductive Signal where
  | sigint
  | sigterm
deriving DecidableEq, Repr

namespace Signal

def number : Signal → ℤ
  | .sigint => 2
  | .sigterm => 15

def name : Signal → String
  | .sigint => "SIGINT"
  | .sigterm => "SIGTERM"

end Signal

/-- The arguments of a run, as `parse_args` accepts them, and the environment
variable `GOAL_LOOP_STRICT_INCOMPLETE`. -/
structure Settings where
  agent : Agent
  maxIterations : ℕ
  iterationTimeout : String
  terminationGrace : String
  maxAttemptsPerFeature : ℕ
  strictIncomplete : Option String
  iterations_pos : 1 ≤ maxIterations
  attempts_pos : 1 ≤ maxAttemptsPerFeature

/-- How the process group of a timed out agent was stopped. -/
inductive TerminationMethod where
  | interrupt
  | terminate
  | kill
deriving DecidableEq, Repr

def TerminationMethod.value : TerminationMethod → String
  | .interrupt => "interrupt"
  | .terminate => "terminate"
  | .kill => "kill"

structure ProcessResult where
  exitCode : Option ℤ
  startedAt : String
  endedAt : String
  elapsedSeconds : String
  timedOut : Bool
  timeoutAt : Option String
  terminationMethod : Option TerminationMethod
deriving DecidableEq, Repr

/-- `IterationOutcome.state`. -/
inductive CompletionState where
  | interrupted
  | timedOut
  | failed
  | complete
  | featureComplete
  | blocked
  | manualReview
  | incomplete
deriving DecidableEq, Repr

def CompletionState.value : CompletionState → String
  | .interrupted => "interrupted"
  | .timedOut => "timed_out"
  | .failed => "failed"
  | .complete => "complete"
  | .featureComplete => "feature_complete"
  | .blocked => "blocked"
  | .manualReview => "manual_review"
  | .incomplete => "incomplete"

structure IterationOutcome where
  state : CompletionState
  runnerExitCode : Option ℤ
  signalName : Option String
  interruptionReason : Option String
  retryable : Bool
  humanAction : Option String
deriving DecidableEq, Repr

def promiseBlocked : String := "<promise>BLOCKED</promise>"

def timeoutExitCode : ℤ := 4

/-- `needle in text`. -/
def isIn (needle text : String) : Bool :=
  decide (needle.toList <:+: text.toList)

/-- What `determine_outcome` is told about an iteration. -/
structure Observation where
  processResult : ProcessResult
  finalMessage : String
  artifactError : Bool
  selectedState : FeatureState
  document : Document
  attempt : ℕ
  finalIteration : Bool

/-- `determine_outcome`, with the value of `RECEIVED_SIGNAL`. -/
def determineOutcome (settings : Settings) (receivedSignal : Option Signal)
    (seen : Observation) : IterationOutcome :=
  match receivedSignal with
  | some signal =>
      ⟨.interrupted, some (128 + signal.number), some signal.name,
        some "signal", true,
        some "Re-run the runner after reviewing the interrupted artifacts."⟩
  | none =>
    if seen.processResult.timedOut then
      ⟨.timedOut, some timeoutExitCode, none, some "wall_clock_timeout", true,
        some ("Review the timeout receipt, then manually start a new run " ++
          "to retry this feature.")⟩
    else if seen.artifactError then
      ⟨.failed, some 3, none, some "artifact_error", false,
        some "Repair artifact storage before retrying."⟩
    else if seen.processResult.exitCode ≠ some 0 then
      ⟨.failed, some 3, none, some "agent_error", true,
        some "Review stderr and process evidence before a manual retry."⟩
    else if seen.selectedState.passes = some true then
      if seen.document.allFeaturesPass then
        ⟨.complete, some 0, none, none, false, none⟩
      else if seen.finalIteration then
        ⟨.featureComplete, some 0, none, none, false, none⟩
      else
        ⟨.featureComplete, none, none, none, false, none⟩
    else if seen.selectedState.blocked = some true ∨
        isIn promiseBlocked seen.finalMessage then
      ⟨.blocked, some 2, none, some "feature_blocked", false,
        some "Resolve the recorded blocker before starting a new run."⟩
    else if settings.maxAttemptsPerFeature ≤ seen.attempt then
      ⟨.manualReview, some 2, none, some "attempt_limit", true,
        some ("Review repeated-failure evidence before manually starting " ++
          "a new run.")⟩
    else if seen.finalIteration then
      let strict := settings.strictIncomplete = some "1"
      ⟨.incomplete, some (if strict then 1 else 0), none,
        some "max_iterations", true,
        some "Start a new bounded run to retry the same feature."⟩
    else
      ⟨.incomplete, none, none, none, true, none⟩

/-- What the runner saw when it goes on: no signal, a successful agent, an
iteration that is not the last, and a feature that passes or has attempts
left. -/
theorem determineOutcome_continues {settings : Settings}
    {receivedSignal : Option Signal} {seen : Observation}
    (h : (determineOutcome settings receivedSignal seen).runnerExitCode =
      none) :
    receivedSignal = none ∧ seen.processResult.timedOut = false ∧
      seen.artifactError = false ∧ seen.processResult.exitCode = some 0 ∧
      seen.finalIteration = false ∧
      (seen.selectedState.passes = some true ∨
        seen.attempt < settings.maxAttemptsPerFeature) := by
  cases receivedSignal with
  | some signal => simp [determineOutcome] at h
  | none =>
      simp only [determineOutcome] at h
      split_ifs at h with htime hart hexit hpass hall hfinal hblocked hmax
        hlast <;> simp_all

/-! ## Texts -/

/-- `str(value)` of an exit code. -/
def showCode : Option ℤ → String
  | some code => toString code
  | none => "None"

/-- The first line of `terminal_summary`. -/
def statusLine (iteration : ℕ) (outcome : IterationOutcome) : String :=
  if outcome.state = .timedOut then
    s!"[timeout] iteration {iteration} exceeded its wall-clock limit"
  else if outcome.signalName ≠ none then
    s!"[interrupted] iteration {iteration} interrupted"
  else if outcome.state = .failed then
    s!"[failure] iteration {iteration} failed"
  else if outcome.state = .manualReview ∨ outcome.state = .blocked then
    s!"[failure] iteration {iteration} stopped"
  else
    s!"[success] iteration {iteration} completed"

/-- The lines that `terminal_summary` joins. -/
def summaryLines (iteration : ℕ) (outcome : IterationOutcome)
    (agentExitCode : Option ℤ) (iterationDir : String) : List String :=
  [statusLine iteration outcome,
    s!"[state] {outcome.state.value}",
    s!"[agent-exit] {showCode agentExitCode}",
    s!"[runner-exit] {showCode outcome.runnerExitCode}"] ++
  outcome.signalName.toList.map (fun name => s!"[signal] {name}") ++
  [s!"[logs] {iterationDir}", ""]

/-- `terminal_summary`. -/
def terminalSummary (iteration : ℕ) (outcome : IterationOutcome)
    (agentExitCode : Option ℤ) (iterationDir : String) : String :=
  "\n".intercalate
    (summaryLines iteration outcome agentExitCode iterationDir)

/-- `git_snapshot_text`: an empty head counts as none. -/
def gitSnapshotText (head : Option String) (status : String) : String :=
  let shown := match head with
    | none | some "" => "null"
    | some commit => commit
  s!"head: {shown}\nstatus:\n{status}\n"

/-- The directory of a run, with its name. -/
structure RunDir where
  path : String
  name : String
deriving DecidableEq, Repr

/-- `run_dir / f"iter-{iteration:03d}"`. -/
def RunDir.iterationDir (runDir : RunDir) (iteration : ℕ) : String :=
  let digits := toString iteration
  runDir.path ++ "/iter-" ++
    String.ofList (List.replicate (3 - digits.length) '0') ++ digits

/-- `artifact_paths`. -/
def artifactPaths (agent : Agent) (runDir : RunDir) (iterationDir : String) :
    List (String × Json) :=
  [("prompt", .str (iterationDir ++ "/prompt.md")),
    ("final", .str (iterationDir ++ "/final.md")),
    ("stderr", .str (iterationDir ++ "/stderr.log")),
    ("iteration_metadata", .str (iterationDir ++ "/metadata.json")),
    ("timeout_receipt", .str (iterationDir ++ "/timeout-receipt.json")),
    ("run_metadata", .str (runDir.path ++ "/metadata.json")),
    ("summary", .str (runDir.path ++ "/summary.txt")),
    ("git_before", .str (runDir.path ++ "/git-before.txt")),
    ("git_after", .str (runDir.path ++ "/git-after.txt")),
    match agent with
    | .codex => ("events", .str (iterationDir ++ "/events.jsonl"))
    | .claude => ("stdout", .str (iterationDir ++ "/stdout.log"))]

def optional (value : Option Json) : Json := value.getD .null

def optionalText (text : Option String) : Json := optional (text.map .str)

def FeatureState.toJson (state : FeatureState) : Json :=
  .obj [("passes", optional (state.passes.map .bool)),
    ("blocked", optional (state.blocked.map .bool))]

/-- What is known of an iteration when its artifacts are written. -/
structure IterationRecord where
  runDir : RunDir
  iteration : ℕ
  feature : Feature
  seen : Observation
  gitHeadBefore : Option String
  gitHeadAfter : Option String
  gitStatusBefore : String
  gitStatusAfter : String
  codexThreadId : Option String
  testsStarted : Bool
  testsCompleted : Bool

/-- The `metadata` of `finalize_iteration`. -/
def iterationMetadata (settings : Settings) (record : IterationRecord)
    (outcome : IterationOutcome) : List (String × Json) :=
  let result := record.seen.processResult
  let iterationDir := record.runDir.iterationDir record.iteration
  [("run_id", .str record.runDir.name),
    ("start_time", .str result.startedAt),
    ("end_time", .str result.endedAt),
    ("agent", .str settings.agent.name),
    ("max_iterations", .int settings.maxIterations),
    ("iteration", .int record.iteration),
    ("feature_id", .str record.feature.id),
    ("feature_title", record.feature.title),
    ("attempt", .int record.seen.attempt),
    ("max_attempts_per_feature", .int settings.maxAttemptsPerFeature),
    ("completion_state", .str outcome.state.value),
    ("agent_exit_code", optional (result.exitCode.map .int)),
    ("runner_exit_code", optional (outcome.runnerExitCode.map .int)),
    ("timeout_limit_seconds", .float settings.iterationTimeout),
    ("timeout_at", optionalText result.timeoutAt),
    ("elapsed_seconds", .float result.elapsedSeconds),
    ("termination_method",
      optionalText (result.terminationMethod.map TerminationMethod.value)),
    ("feature_state", record.seen.selectedState.toJson),
    ("tests_started", .bool record.testsStarted),
    ("tests_completed", .bool record.testsCompleted),
    ("retryable", .bool outcome.retryable),
    ("human_action", optionalText outcome.humanAction),
    ("git_head_before", optionalText record.gitHeadBefore),
    ("git_head_after", optionalText record.gitHeadAfter),
    ("git_status_before", .str record.gitStatusBefore),
    ("git_status_after", .str record.gitStatusAfter),
    ("log_paths",
      .obj (artifactPaths settings.agent record.runDir iterationDir)),
    ("signal", optionalText outcome.signalName),
    ("interruption_reason", optionalText outcome.interruptionReason),
    ("codex_thread_id", optionalText record.codexThreadId)]

/-- The metadata of the run: that of its last iteration, with its own
times. -/
def runMetadata (metadata : List (String × Json)) (startedAt endedAt : String) :
    List (String × Json) :=
  setField "end_time" (.str endedAt)
    (setField "start_time" (.str startedAt) metadata)

/-- `timeout_receipt`. -/
def timeoutReceipt (settings : Settings) (runDir : RunDir) (iteration : ℕ)
    (feature : Feature) (attempt : ℕ) (result : ProcessResult)
    (testsStarted testsCompleted : Bool) : List (String × Json) :=
  [("run_id", .str runDir.name),
    ("iteration", .int iteration),
    ("feature_id", .str feature.id),
    ("attempt", .int attempt),
    ("status", .str "timed_out"),
    ("recovery_state", .str "interrupted_retryable"),
    ("start_time", .str result.startedAt),
    ("timeout_time", optionalText result.timeoutAt),
    ("termination_completed_at", .str result.endedAt),
    ("elapsed_seconds", .float result.elapsedSeconds),
    ("timeout_limit_seconds", .float settings.iterationTimeout),
    ("subprocess_exit_status", optional (result.exitCode.map .int)),
    ("termination_method",
      optionalText (result.terminationMethod.map TerminationMethod.value)),
    ("feature_state", (featureState (some feature)).toJson),
    ("tests_started", .bool testsStarted),
    ("tests_completed", .bool testsCompleted),
    ("evidence_path", .str (runDir.iterationDir iteration)),
    ("retryable", .bool true),
    ("human_action", .str ("Review this receipt and evidence, then manually " ++
      "start a new run; the same feature remains selectable."))]

/-- The exit code is recorded in a file of the run: under `runner_exit_code`
of the metadata, or on its line of the summary. -/
def MetadataRecords (metadata : Json) (code : ℤ) : Prop :=
  ∃ fields, metadata = .obj fields ∧
    fields.lookup "runner_exit_code" = some (.int code)

def SummaryRecords (summary : String) (code : ℤ) : Prop :=
  ∃ lines, summary = "\n".intercalate lines ∧
    s!"[runner-exit] {showCode (some code)}" ∈ lines

theorem metadataRecords_runMetadata {settings : Settings}
    {record : IterationRecord} {outcome : IterationOutcome} {code : ℤ}
    (h : outcome.runnerExitCode = some code) (startedAt endedAt : String) :
    MetadataRecords
      (.obj (runMetadata (iterationMetadata settings record outcome) startedAt
        endedAt)) code := by
  refine ⟨_, rfl, ?_⟩
  rw [runMetadata, lookup_setField_ne _ _ _ (by decide),
    lookup_setField_ne _ _ _ (by decide)]
  simp [iterationMetadata, List.lookup_cons, h, optional]

theorem summaryRecords_terminalSummary {outcome : IterationOutcome} {code : ℤ}
    (h : outcome.runnerExitCode = some code) (iteration : ℕ)
    (agentExitCode : Option ℤ) (iterationDir : String) :
    SummaryRecords
      (terminalSummary iteration outcome agentExitCode iterationDir) code := by
  refine ⟨_, rfl, ?_⟩
  simp [summaryLines, h]

end Hooklane.GoalLoop
