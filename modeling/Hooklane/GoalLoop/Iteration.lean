import Hooklane.GoalLoop.Runner

/-!
# One iteration of the loop

What an iteration can do to the world.  It starts at most one agent, on the
features file it was given, and it writes the record of the run exactly when it
ends the run.
-/

namespace Hooklane.GoalLoop

open Support ProgE Runner

/-! ## What calls leave alone -/

/-- A call that starts no agent and opens no iteration. -/
def Op.Steady : Op → Prop
  | .readFeatures .opening | .popen _ => False
  | _ => True

/-- Such a call that does not write the record of the run. -/
def Op.Keeps : Op → Prop
  | .effect (.runMetadata _) | .effect (.summary _) => False
  | op => op.Steady

/-- Such a call that leaves the features file alone as well. -/
def Op.Quiet : Op → Prop
  | .wait _ | .effect (.features _) => False
  | op => op.Keeps

/-- No agent was started and no iteration opened in between. -/
structure Steady (w t : World) : Prop where
  launches : t.launches = w.launches
  opened : t.opened = w.opened
  signal : ∀ signal, w.signal = some signal → t.signal = some signal

/-- Nothing of the record was written either. -/
structure Kept (w t : World) : Prop extends Steady w t where
  runMetadata : t.runMetadata = w.runMetadata
  summary : t.summary = w.summary

/-- The features file was not written either. -/
structure Same (w t : World) : Prop extends Kept w t where
  features : t.features = w.features

variable {w v t : World}

theorem Steady.refl (w : World) : Steady w w := ⟨rfl, rfl, fun _ h => h⟩

theorem Steady.trans (h : Steady w v) (h' : Steady v t) : Steady w t where
  launches := h'.launches.trans h.launches
  opened := h'.opened.trans h.opened
  signal signal hw := h'.signal signal (h.signal signal hw)

theorem Kept.refl (w : World) : Kept w w := ⟨.refl w, rfl, rfl⟩

theorem Kept.trans (h : Kept w v) (h' : Kept v t) : Kept w t :=
  ⟨h.toSteady.trans h'.toSteady, h'.runMetadata.trans h.runMetadata,
    h'.summary.trans h.summary⟩

theorem Same.refl (w : World) : Same w w := ⟨.refl w, rfl⟩

theorem Same.trans (h : Same w v) (h' : Same v t) : Same w t :=
  ⟨h.toKept.trans h'.toKept, h'.features.trans h.features⟩

theorem World.Signalled.same (h : w.Signalled v) : Same w v := by
  cases h with
  | none => exact .refl w
  | some signal first =>
      exact ⟨⟨⟨rfl, rfl, by simp [first]⟩, rfl, rfl⟩, rfl⟩

theorem World.same_touching (w : World) (op : Op) : Same w (w.touching op) := by
  unfold World.touching
  cases op.touches <;> exact ⟨⟨⟨rfl, rfl, fun _ h => h⟩, rfl, rfl⟩, rfl⟩

/-- Neither a signal nor the note of a call changes what the runner reads. -/
theorem World.Signalled.same_touching (h : w.Signalled v) (op : Op) :
    Same w (v.touching op) :=
  h.same.trans (v.same_touching op)

section Answers

variable {op : Op} {reply : op.Reply}

theorem Op.Keeps.steady (h : op.Keeps) : op.Steady := by
  cases op with
  | readFeatures place => exact h
  | popen => exact h
  | _ => exact trivial

theorem Op.Quiet.keeps (h : op.Quiet) : op.Keeps := by
  cases op with
  | wait => exact h.elim
  | effect action =>
      cases action with
      | features => exact h.elim
      | _ => exact h
  | _ => exact h

theorem World.Answers.steady (hop : op.Steady) (h : w.Answers op reply t) :
    Steady w t := by
  cases op with
  | readFeatures place =>
      obtain ⟨-, rfl⟩ := h
      cases place with
      | opening => exact hop.elim
      | initial | closing => exact .refl w
  | effect action =>
      obtain ⟨-, rfl⟩ | ⟨-, rfl⟩ := h
      · cases action <;> exact ⟨rfl, rfl, fun _ h => h⟩
      · exact .refl _
  | popen assignment => exact hop.elim
  | wait seconds =>
      obtain ⟨left, rfl⟩ := h
      exact ⟨rfl, rfl, fun _ h => h⟩
  | receivedSignal =>
      obtain ⟨-, rfl⟩ := h
      exact .refl _
  | _ =>
      obtain rfl : t = w := h
      exact .refl _

theorem World.Answers.kept (hop : op.Keeps) (h : w.Answers op reply t) :
    Kept w t := by
  have hsteady := h.steady hop.steady
  suffices hrecord : t.runMetadata = w.runMetadata ∧ t.summary = w.summary from
    ⟨hsteady, hrecord.1, hrecord.2⟩
  cases op with
  | readFeatures place =>
      obtain ⟨-, rfl⟩ := h
      cases place <;> exact ⟨rfl, rfl⟩
  | effect action =>
      obtain ⟨-, rfl⟩ | ⟨-, rfl⟩ := h
      · cases action with
        | runMetadata | summary => exact hop.elim
        | _ => exact ⟨rfl, rfl⟩
      · exact ⟨rfl, rfl⟩
  | popen assignment => exact hop.elim
  | wait seconds =>
      obtain ⟨left, rfl⟩ := h
      exact ⟨rfl, rfl⟩
  | receivedSignal =>
      obtain ⟨-, rfl⟩ := h
      exact ⟨rfl, rfl⟩
  | _ =>
      obtain rfl : t = w := h
      exact ⟨rfl, rfl⟩

theorem World.Answers.same (hop : op.Quiet) (h : w.Answers op reply t) :
    Same w t := by
  refine ⟨h.kept hop.keeps, ?_⟩
  cases op with
  | readFeatures place =>
      obtain ⟨-, rfl⟩ := h
      cases place <;> rfl
  | effect action =>
      obtain ⟨-, rfl⟩ | ⟨-, rfl⟩ := h
      · cases action with
        | features => exact hop.elim
        | _ => rfl
      · rfl
  | wait => exact hop.elim
  | popen => exact hop.elim
  | receivedSignal =>
      obtain ⟨-, rfl⟩ := h
      rfl
  | _ =>
      obtain rfl : t = w := h
      rfl

theorem kept_of_exec (hop : op.Keeps) (h : runnerMachine.exec w op reply t) :
    Kept w t := by
  obtain ⟨v, hv, hanswer⟩ := h
  exact (hv.same_touching op).toKept.trans (hanswer.kept hop)

theorem same_of_exec (hop : op.Quiet) (h : runnerMachine.exec w op reply t) :
    Same w t := by
  obtain ⟨v, hv, hanswer⟩ := h
  exact (hv.same_touching op).trans (hanswer.same hop)

end Answers

/-! ## Programs of such calls -/

variable {α β : Type} {P : Op → Prop} {E : Raised → Prop}

/-- A program of calls within `P`, which raises nothing but what meets `E`. -/
structure Within (P : Op → Prop) (E : Raised → Prop) (p : Runner α) :
    Prop where
  calls : CallsOnly P p
  raises : Yields (fun r => ∀ e, r = .error e → E e) p

/-- An exception of the source. -/
def Failure (e : Raised) : Prop := e ≠ .unfinished

/-- Run alone, the program ends as the postconditions say. -/
abbrev Ends (p : Runner α) (Q : α → World → Prop)
    (R : Raised → World → Prop) (w : World) : Prop :=
  p.Alone runnerMachine (ends Q R) w

namespace Within

theorem pure (a : α) : Within P E (Pure.pure a : Runner α) :=
  ⟨callsOnly_pure a, yields_pure (by simp)⟩

theorem throw {e : Raised} (h : E e) : Within P E (throw e : Runner α) := by
  refine ⟨callsOnly_throw _, yields_throw ?_⟩
  rintro _ ⟨⟩
  exact h

theorem request (op : Op) (h : P op) : Within P E (Runner.request op) := by
  refine ⟨callsOnly_perform h, yields_perform.mono ?_⟩
  rintro _ ⟨reply, rfl⟩ e he
  cases he

theorem bind {p : Runner α} {f : α → Runner β} (hp : Within P E p)
    (hf : ∀ a, Within P E (f a)) : Within P E (p >>= f) := by
  refine ⟨callsOnly_bind hp.calls fun a => (hf a).calls, ?_⟩
  refine hp.raises.bind (fun a _ => (hf a).raises) fun e he e' h => ?_
  rw [← Except.error.inj h]
  exact he e rfl

theorem effect (action : Effect) (h : P (.effect action)) :
    Within P Failure (Runner.effect action) := by
  refine (request _ h).bind fun reply => ?_
  cases reply with
  | none => exact pure ()
  | some message => exact throw (by simp [Failure])

theorem orRaise (value : Except String α) :
    Within P Failure (Runner.orRaise value) := by
  cases value with
  | ok a => exact pure a
  | error message => exact throw (by simp [Failure])

/-- What the calls keep, the program keeps. -/
theorem alone {I : World → Prop} {p : Runner α} (h : Within P E p)
    (hP : ∀ w op reply t, P op → runnerMachine.exec w op reply t → I w → I t)
    {w : World} (hw : I w) :
    Ends p (fun _ t => I t) (fun e t => E e ∧ I t) w := by
  refine ((h.calls.run.alone hP hw).and_yields h.raises).mono fun r t hr => ?_
  cases r with
  | ok a => exact hr.2
  | error e => exact ⟨hr.1 e rfl, hr.2⟩

/-- A program of quiet calls leaves the world as it was. -/
theorem same {p : Runner α} (h : Within Op.Quiet E p) :
    Ends p (fun _ t => Same w t) (fun e t => E e ∧ Same w t) w :=
  h.alone (fun _ _ _ _ hop hexec hs => hs.trans (same_of_exec hop hexec))
    (.refl w)

theorem kept {p : Runner α} (h : Within Op.Keeps E p) :
    Ends p (fun _ t => Kept w t) (fun e t => E e ∧ Kept w t) w :=
  h.alone (fun _ _ _ _ hop hexec hs => hs.trans (kept_of_exec hop hexec))
    (.refl w)

end Within

/-! ## Looking without touching -/

/-- A call that reads the files before a run, or prints. -/
def Op.Inspects : Op → Prop
  | .isFile _ | .readFeatures .initial => True
  | .effect (.print _) | .effect (.printError _) => True
  | _ => False

theorem World.Signalled.trans (h : w.Signalled v) (h' : v.Signalled t) :
    w.Signalled t := by
  cases h' with
  | none => exact h
  | some signal first =>
      cases h with
      | none => exact .some signal first
      | some other _ => cases first

theorem World.Signalled.touched (h : w.Signalled t) :
    t.touched = w.touched := by
  cases h <;> rfl

/-- Such a call acts on no file. -/
theorem Op.Inspects.touches {op : Op} (h : op.Inspects) :
    op.touches = false := by
  cases op with
  | effect action =>
      cases action with
      | print | printError => rfl
      | _ => exact h.elim
  | isFile | readFeatures => rfl
  | _ => exact h.elim

/-- Nothing happens at such a call, except that a signal may arrive. -/
theorem signalled_of_exec {op : Op} {reply : op.Reply} (hop : op.Inspects)
    (h : runnerMachine.exec w op reply t) : w.Signalled t := by
  obtain ⟨v, hv, hanswer⟩ := h
  rw [World.touching, hop.touches, cond_false] at hanswer
  suffices h : t = v from h ▸ hv
  cases op with
  | isFile path => exact hanswer
  | readFeatures place =>
      cases place with
      | initial => exact hanswer.2
      | opening | closing => exact hop.elim
  | effect action =>
      cases action with
      | print text => exact hanswer.elim And.right And.right
      | printError text => exact hanswer.elim And.right And.right
      | _ => exact hop.elim
  | _ => exact hop.elim

/-- A program of such calls, run after others. -/
theorem Within.signalled {p : Runner α} (h : Within Op.Inspects E p)
    (hv : w.Signalled v) :
    Ends p (fun _ t => w.Signalled t) (fun e t => E e ∧ w.Signalled t) v :=
  h.alone (fun _ _ _ _ hop hexec hw => hw.trans (signalled_of_exec hop hexec))
    hv

section Agent

variable (settings : Settings) (startedAt : String)

theorem within_sendProcessGroupSignal (signal : KillSignal) :
    Within Op.Keeps E (sendProcessGroupSignal signal) := by
  refine (Within.request _ trivial).bind fun reply => ?_
  cases reply with
  | some code => exact Within.pure ()
  | none => exact Within.request _ trivial

theorem within_terminateTimedOutProcess :
    Within Op.Keeps E (terminateTimedOutProcess settings) := by
  refine (within_sendProcessGroupSignal _).bind fun _ => ?_
  refine (Within.request _ trivial).bind fun reply => ?_
  cases reply with
  | some code => exact Within.pure _
  | none =>
      refine (within_sendProcessGroupSignal _).bind fun _ => ?_
      refine (Within.request _ trivial).bind fun reply => ?_
      cases reply with
      | some code => exact Within.pure _
      | none =>
          refine (within_sendProcessGroupSignal _).bind fun _ => ?_
          refine (Within.request _ trivial).bind fun _ => ?_
          exact (Within.request _ trivial).bind fun _ => Within.pure _

theorem within_passSignalOn : Within Op.Keeps E passSignalOn := by
  refine (Within.request _ trivial).bind fun reply => ?_
  cases reply with
  | some signal => exact within_sendProcessGroupSignal _
  | none => exact Within.pure ()

/-- Nothing is raised while the agent runs. -/
theorem within_awaitAgent :
    Within Op.Keeps E (awaitAgent settings startedAt) := by
  refine within_passSignalOn.bind fun _ => ?_
  refine (Within.request _ trivial).bind fun reply => ?_
  cases reply with
  | some code =>
      refine (Within.request _ trivial).bind fun _ => ?_
      exact (Within.request _ trivial).bind fun _ => Within.pure _
  | none =>
      refine (Within.request _ trivial).bind fun _ => ?_
      refine (within_terminateTimedOutProcess settings).bind fun _ => ?_
      refine (Within.request _ trivial).bind fun _ => ?_
      exact (Within.request _ trivial).bind fun _ => Within.pure _

end Agent

theorem within_readFinalMessage :
    Within Op.Quiet Failure readFinalMessage := by
  refine (Within.request _ trivial).bind fun reply => ?_
  cases reply with
  | ok text => exact Within.pure _
  | error message => exact (Within.effect _ trivial).bind fun _ => Within.pure _

theorem within_writeReceipt (settings : Settings) (runDir : RunDir)
    (iteration : ℕ) (feature : Feature) (attempt : ℕ) (result : ProcessResult)
    (tests : Bool × Bool) :
    Within Op.Quiet Failure (writeReceipt settings runDir iteration feature
      attempt result tests) := by
  unfold writeReceipt
  split
  · exact Within.effect _ trivial
  · exact Within.pure ()

/-! ## The agent -/

/-- The world where an agent has just been started on the feature. -/
def World.launch (w : World) (featureId : String) : World :=
  { w with launches := ⟨featureId, w.features⟩ :: w.launches }

theorem Same.launch (h : Same w t) (featureId : String) :
    Kept (w.launch featureId) (t.launch featureId) where
  launches := by rw [World.launch, World.launch, h.launches, h.features]
  opened := h.opened
  runMetadata := h.runMetadata
  summary := h.summary
  signal := h.signal

section RunAgent

variable (settings : Settings) (assignment : Assignment)

/-- An exception of the process means that no agent was started. -/
theorem ends_runAgentProcess :
    Ends (runAgentProcess settings assignment)
      (fun _ t => Kept (w.launch assignment.featureId) t)
      (fun e t => Failure e ∧ Same w t) w := by
  refine (Within.request .utcNow trivial).same.next ?_
  intro startedAt w₁ h₁
  refine Alone.next (P := fun reply t =>
    reply = .started ∧ Kept (w.launch assignment.featureId) t ∨
    reply ≠ .started ∧ Same w t) (alone_perform ?_) ?_
  · rintro reply t ⟨v, hv, ⟨hreply, rfl⟩ | ⟨hreply, rfl⟩⟩
    · exact .inl ⟨hreply, (h₁.trans (hv.same_touching _)).launch _⟩
    · exact .inr ⟨hreply, h₁.trans (hv.same_touching _)⟩
  · intro reply w₂ h₂
    cases reply with
    | notFound message =>
        obtain ⟨h, -⟩ | ⟨-, h⟩ := h₂
        · cases h
        · exact alone_throw ⟨by simp [Failure], h⟩
    | failed message =>
        obtain ⟨h, -⟩ | ⟨-, h⟩ := h₂
        · cases h
        · exact alone_throw ⟨by simp [Failure], h⟩
    | started =>
        obtain ⟨-, h⟩ | ⟨h, -⟩ := h₂
        · exact (within_awaitAgent (E := fun _ => False) settings
            startedAt).kept.ends_mono (fun _ _ hkept => h.trans hkept)
            fun _ _ he => he.1.elim
        · exact absurd rfl h

/-- What an agent's call has done: the agent was started, or its executable is
missing and the result says so. -/
def Ran (featureId : String) (w : World) (result : ProcessResult)
    (t : World) : Prop :=
  Kept (w.launch featureId) t ∨
    Same w t ∧ result.exitCode = some 127 ∧ result.timedOut = false

/-- After an exception the agent was started or not. -/
def Failed (featureId : String) (w : World) (e : Raised) (t : World) : Prop :=
  Failure e ∧ (Kept (w.launch featureId) t ∨ Kept w t)

theorem ends_missingExecutableResult (startedAt : String) :
    Ends (missingExecutableResult startedAt)
      (fun result t => Same w t ∧ result.exitCode = some 127 ∧
        result.timedOut = false) (fun _ _ => False) w := by
  refine (((Within.request (E := fun _ => False) .utcNow
    trivial).same).ends_mono (fun _ _ h => h) fun _ _ h => h.1).next ?_
  intro endedAt w₁ h₁
  refine (((Within.request (E := fun _ => False) .elapsed
    trivial).same).ends_mono (fun _ _ h => h) fun _ _ h => h.1).next ?_
  intro elapsed w₂ h₂
  exact alone_pure ⟨h₁.trans h₂, rfl, rfl⟩

theorem ends_runCommand :
    Ends (runCommand settings assignment) (Ran assignment.featureId w)
      (fun e t => Failure e ∧ Same w t) w := by
  refine (Within.request .utcNow trivial).same.next ?_
  intro startedAt w₁ h₁
  refine (ends_runAgentProcess settings assignment).tryCatch ?_ ?_
  · intro result t h
    exact .inl ((h₁.launch _).trans h)
  · rintro e w₂ ⟨he, h₂⟩
    have hsame := h₁.trans h₂
    cases e with
    | fileNotFound message =>
        refine ((Within.effect _ trivial).same.ends_mono (fun _ _ h => h)
          fun _ _ h => ⟨h.1, hsame.trans h.2⟩).next ?_
        intro _ w₃ h₃
        refine ((Within.effect _ trivial).same.ends_mono (fun _ _ h => h)
          fun _ _ h => ⟨h.1, (hsame.trans h₃).trans h.2⟩).next ?_
        intro _ w₄ h₄
        refine (ends_missingExecutableResult startedAt).ends_mono ?_ ?_
        · intro result t h
          exact .inr ⟨((hsame.trans h₃).trans h₄).trans h.1, h.2⟩
        · exact fun _ _ h => h.elim
    | osError message => exact alone_throw ⟨he, hsame⟩
    | valueError message => exact alone_throw ⟨he, hsame⟩
    | unfinished => exact absurd rfl he

theorem Ran.kept {featureId : String} {result : ProcessResult}
    (h : Ran featureId w result v) (h' : Kept v t) :
    Kept (w.launch featureId) t ∨ Kept w t := by
  obtain h | ⟨h, -⟩ := h
  · exact .inl (h.trans h')
  · exact .inr (h.toKept.trans h')

theorem ends_runAgent :
    Ends (runAgent settings assignment) (Ran assignment.featureId w)
      (Failed assignment.featureId w) w := by
  unfold runAgent
  cases settings.agent with
  | codex =>
      refine ((Within.effect _ trivial).same.ends_mono (fun _ _ h => h)
        fun _ _ h => ⟨h.1, .inr h.2.toKept⟩).next ?_
      intro _ w₁ h₁
      refine (ends_runCommand settings assignment).ends_mono ?_ ?_
      · intro result t h
        obtain h | ⟨h, hresult⟩ := h
        · exact .inl ((h₁.launch _).trans h)
        · exact .inr ⟨h₁.trans h, hresult⟩
      · exact fun e t h => ⟨h.1, .inr (h₁.trans h.2).toKept⟩
  | claude =>
      refine ((ends_runCommand settings assignment).ends_mono (fun _ _ h => h)
        fun e t h => ⟨h.1, .inr h.2.toKept⟩).next ?_
      intro result w₁ h₁
      refine ((Within.effect _ trivial).same.ends_mono (fun _ _ h => h)
        fun _ _ h => ⟨h.1, h₁.kept h.2.toKept⟩).next ?_
      intro _ w₂ h₂
      refine alone_pure ?_
      obtain h | ⟨h, hresult⟩ := h₁
      · exact .inl (h.trans h₂.toKept)
      · exact .inr ⟨h.trans h₂, hresult⟩

end RunAgent

/-! ## What the iteration sees -/

/-- The features file records the feature as passing. -/
def recordedPassing (contents : Contents) (featureId : String) : Bool :=
  match loadContents contents with
  | .ok document =>
      (featureState (document.featureById featureId)).passes = some true
  | .error _ => false

theorem ends_readDocumentAfter (document : Document) :
    Ends (readDocumentAfter document)
      (fun left t => Same w t ∧
        (left.2 = false → loadContents w.features = .ok left.1))
      (fun e t => Failure e ∧ Same w t) w := by
  refine Alone.next (P := fun reply t => reply = w.features ∧ Same w t)
    (alone_perform ?_) ?_
  · rintro reply t ⟨v, hv, rfl, rfl⟩
    exact ⟨hv.same.features, hv.same⟩
  · rintro contents w₁ ⟨rfl, h₁⟩
    cases hload : loadContents w.features with
    | ok documentAfter => exact alone_pure ⟨h₁, fun _ => rfl⟩
    | error e =>
        refine ((Within.effect _ trivial).same.ends_mono (fun _ _ h => h)
          fun _ _ h => ⟨h.1, h₁.trans h.2⟩).next ?_
        intro _ w₂ h₂
        exact alone_pure ⟨h₁.trans h₂, by simp⟩

theorem within_selectAfter (timedOut artifactError : Bool)
    (document : Document) (featureId : String) :
    Within Op.Keeps Failure
      (selectAfter timedOut artifactError document featureId) := by
  unfold selectAfter keepTimedOutFeaturePending
  split
  · split
    · exact Within.pure _
    · split
      · exact (Within.effect _ trivial).bind fun _ => Within.pure _
      · exact Within.pure _
  · exact Within.pure _

theorem ends_selectAfter (timedOut artifactError : Bool)
    (document : Document) (featureId : String) :
    Ends (selectAfter timedOut artifactError document featureId)
      (fun selected t => Kept w t ∧ (timedOut = false → Same w t ∧
        selected = (document.featureById featureId, document)))
      (fun e t => Failure e ∧ Kept w t) w := by
  cases timedOut with
  | true =>
      exact (within_selectAfter _ _ _ _).kept.ends_mono
        (fun _ _ h => ⟨h, by simp⟩) fun _ _ h => h
  | false => exact alone_pure ⟨.refl w, fun _ => ⟨.refl w, rfl⟩⟩

/-- What the record says of an iteration on the feature. -/
structure Observed (settings : Settings) (iteration : ℕ) (feature : Feature)
    (attempt : ℕ) (result : ProcessResult) (w : World)
    (record : IterationRecord) (t : World) : Prop where
  kept : Kept w t
  processResult : record.seen.processResult = result
  attempt : record.seen.attempt = attempt
  finalIteration :
    record.seen.finalIteration = decide (iteration = settings.maxIterations)
  passes : result.timedOut = false → record.seen.artifactError = false →
    record.seen.selectedState.passes = some true →
    recordedPassing t.features feature.id

theorem within_readThreadId (agent : Agent) :
    Within Op.Quiet Failure (readThreadId agent) := by
  cases agent with
  | codex => exact (Within.request _ trivial).bind fun _ => Within.orRaise _
  | claude => exact Within.pure none

theorem ends_observeIteration (settings : Settings) (run : RunStart)
    (iteration : ℕ) (document : Document) (feature : Feature) (attempt : ℕ)
    (result : ProcessResult) :
    Ends (observeIteration settings run iteration document feature attempt
        result)
      (Observed settings iteration feature attempt result w)
      (fun e t => Failure e ∧ Kept w t) w := by
  refine (within_readFinalMessage.same.ends_mono (fun _ _ h => h)
    fun _ _ h => ⟨h.1, h.2.toKept⟩).next ?_
  intro final w₁ h₁
  refine ((ends_readDocumentAfter document).ends_mono (fun _ _ h => h)
    fun _ _ h => ⟨h.1, (h₁.trans h.2).toKept⟩).next ?_
  rintro left w₂ ⟨h₂, hleft⟩
  have hsame := h₁.trans h₂
  refine ((ends_selectAfter _ _ _ _).ends_mono (fun _ _ h => h)
    fun _ _ h => ⟨h.1, hsame.toKept.trans h.2⟩).next ?_
  rintro selected w₃ ⟨h₃, hselected⟩
  -- The rest of the iteration reads and reports only.
  have hrest : ∀ {α : Type} {p : Runner α} {Q : α → World → Prop} {w₄ : World},
      Same w₃ w₄ → Within Op.Quiet Failure p →
      (∀ a t, Same w₃ t → Q a t) →
      Ends p Q (fun e t => Failure e ∧ Kept w t) w₄ := by
    intro α p Q w₄ h₄ hp hQ
    exact hp.same.ends_mono (fun a t h => hQ a t (h₄.trans h))
      fun _ _ h => ⟨h.1, (hsame.toKept.trans h₃).trans (h₄.trans h.2).toKept⟩
  refine (hrest (.refl w₃) (Within.request .testActivity trivial)
    fun _ _ h => h).next ?_
  intro activity w₄ h₄
  refine (hrest h₄ (Within.orRaise activity) fun _ _ h => h).next ?_
  intro tests w₅ h₅
  refine (hrest h₅ (within_writeReceipt ..) fun _ _ h => h).next ?_
  intro _ w₆ h₆
  refine (hrest h₆ (Within.request .gitSnapshot trivial)
    fun _ _ h => h).next ?_
  intro git w₇ h₇
  refine (hrest h₇ (Within.effect (.gitAfter _) trivial) fun _ _ h => h).next ?_
  intro _ w₈ h₈
  refine (hrest h₈ (within_readThreadId _) fun _ _ h => h).next ?_
  intro threadId w₉ h₉
  refine alone_pure ⟨(hsame.toKept.trans h₃).trans h₉.toKept, rfl, rfl, rfl, ?_⟩
  intro htimeout herror hpasses
  obtain ⟨hstays, rfl⟩ := hselected htimeout
  have hread : left.2 = false := (Bool.or_eq_false_iff.mp herror).2
  have hfeatures : w₉.features = w₁.features :=
    (h₂.trans (hstays.trans h₉)).features
  rw [recordedPassing, hfeatures, hleft hread]
  exact decide_eq_true hpasses

end Hooklane.GoalLoop
