import Hooklane.Cloudflare.Guarantees

/-!
# The public life of an event in the D1 backend

Every statement moves the status along a small graph, whatever its caller
remembers.  No edge leads back to `queued`: the queue keeps the message, and a
retry is claimed from `retry_scheduled`.
-/

namespace Hooklane.Cloudflare

open Relation Support

/-- The moves of the status. -/
inductive StatusMoves : EventStatus → EventStatus → Prop where
  | claim {status : EventStatus} (unfinished : ¬status.Terminal) :
      StatusMoves status .delivering
  | retry : StatusMoves .delivering .retryScheduled
  | finish {status : EventStatus} (terminal : status.Terminal) :
      StatusMoves .delivering status
  | exhaust {status : EventStatus}
      (waiting : status = .queued ∨ status = .retryScheduled) :
      StatusMoves status .deadLetter

/-- The graph never returns to its start. -/
theorem StatusMoves.ne_queued {status next : EventStatus}
    (h : StatusMoves status next) : next ≠ .queued := by
  cases h with
  | finish terminal =>
      obtain h | h := terminal <;> simp [h]
  | _ => simp

/-- A claim gives no attempt back. -/
theorem le_nextAttempt (status : EventStatus) (attemptCount maximum : ℕ) :
    attemptCount ≤ nextAttempt status attemptCount maximum := by
  unfold nextAttempt
  split_ifs <;> omega

/-- Where one entry of a log leads: along one edge, with no attempt lost. -/
theorem Journal.status_moves {limit : ℕ → Prop} {log : List Entry}
    {entry : Entry} {l l' : Lifecycle} (h : Journal limit log (some l))
    (h' : Journal limit (entry :: log) (some l')) :
    StatusMoves l.status l'.status ∧ l.attemptCount ≤ l'.attemptCount := by
  cases h' with
  | accepted before => cases h.unique before
  | claimed before bound claimable =>
      obtain rfl := Option.some.inj (h.unique before)
      exact ⟨.claim claimable.not_terminal, le_nextAttempt _ _ _⟩
  | settled before running owner granted =>
      obtain rfl := Option.some.inj (h.unique before)
      rw [running]
      obtain ⟨hterminal | hretry, -⟩ := granted
      · exact ⟨.finish hterminal, le_rfl⟩
      · rw [Lifecycle.settle, hretry]
        exact ⟨.retry, le_rfl⟩
  | exhausted before waiting bound used =>
      obtain rfl := Option.some.inj (h.unique before)
      exact ⟨.exhaust waiting, le_rfl⟩

/-- Between two databases the row is kept; its status changes as `R` says,
and its attempt count does not decrease. -/
def RowChanges (R : EventStatus → EventStatus → Prop) (e : UUID)
    (row : EventRow) (db : Database) : Prop :=
  ∃ row', db.events.lookup e = some row' ∧ R row.status row'.status ∧
    row.attemptCount ≤ row'.attemptCount

variable {maxima : ℕ → Prop} {G : World → Op → Prop} {e : UUID}
  {cfg : (d1Service maxima).Config} {w w' : World} {row : EventRow}

/-- One executed call moves the row by at most one edge. -/
theorem rowChanges_of_exec {op : Op} {reply : op.Reply}
    (hw : Journaled maxima w) (hw' : Journaled maxima w')
    (hexec : World.Exec w op reply w')
    (hrow : w.db.events.lookup e = some row) :
    RowChanges (ReflGen StatusMoves) e row w'.db := by
  have hlog := hw e
  have hlog' := hw' e
  rw [lifecycle_of_row hrow] at hlog
  obtain heq | ⟨entry, heq⟩ := exec_journal hexec e
  · rw [heq] at hlog'
    obtain ⟨row', hrow', hstatus, hattempts⟩ :=
      row_of_lifecycle (hlog'.unique hlog)
    refine ⟨row', hrow', ?_, hattempts.ge⟩
    rw [hstatus]
    exact .refl
  · rw [heq] at hlog'
    cases hlife : w'.lifecycle e with
    | none =>
        rw [hlife] at hlog'
        cases hlog'.eq_nil
    | some l =>
        rw [hlife] at hlog'
        obtain ⟨hedge, hle⟩ := hlog.status_moves hlog'
        obtain ⟨row', hrow', hstatus, hattempts⟩ := row_of_lifecycle hlife
        rw [← hstatus] at hedge
        rw [← hattempts] at hle
        exact ⟨row', hrow', .single hedge, hle⟩

/-- A step of the system executes at most one call. -/
theorem rowChanges_of_step (hreach : Service.Reachable Service.anyCall cfg)
    (hrow : cfg.state.db.events.lookup e = some row)
    {cfg' : (d1Service maxima).Config}
    (hstep : Service.Step Service.anyCall cfg cfg') :
    RowChanges (ReflGen StatusMoves) e row cfg'.state.db := by
  have hsame : RowChanges (ReflGen StatusMoves) e row cfg.state.db :=
    ⟨row, hrow, .refl, le_rfl⟩
  have hbefore := (reach_invariant (reached_of_reachable hreach)).journaled
  have hafter :=
    (reach_invariant (steps_reached hreach (.single hstep))).journaled
  cases hstep with
  | start c enabled => exact hsame
  | crash i => exact hsame
  | act i c op next reply state thread guard exec =>
      exact rowChanges_of_exec hbefore hafter exec hrow

/-- In every run a stored event keeps its row.  Each single step leaves its
status alone or moves it along one edge of the graph, so that a run moves it
along a path, which never comes back to `queued`; the attempt count never
decreases. -/
theorem row_follows_graph (hreach : Service.Reachable Service.anyCall cfg)
    (hrow : cfg.state.db.events.lookup e = some row) :
    (∀ cfg', Service.Step Service.anyCall cfg cfg' →
      RowChanges (ReflGen StatusMoves) e row cfg'.state.db) ∧
    ∀ cfg', Service.Steps Service.anyCall cfg cfg' →
      RowChanges (fun status next => ReflTransGen StatusMoves status next ∧
        (next = .queued → status = .queued)) e row cfg'.state.db := by
  refine ⟨fun _ hstep => rowChanges_of_step hreach hrow hstep, ?_⟩
  intro cfg' hsteps
  have hpath : RowChanges (ReflTransGen StatusMoves) e row cfg'.state.db := by
    induction hsteps with
    | refl => exact ⟨row, hrow, .refl, le_rfl⟩
    | tail hrun hstep ih =>
        obtain ⟨row₁, hrow₁, hpath, hle⟩ := ih
        obtain ⟨row₂, hrow₂, hedge, hle'⟩ :=
          rowChanges_of_step (hreach.steps hrun) hrow₁ hstep
        exact ⟨row₂, hrow₂, hpath.trans hedge.to_reflTransGen, hle.trans hle'⟩
  obtain ⟨row', hrow', hpath, hle⟩ := hpath
  refine ⟨row', hrow', ⟨hpath, fun hqueued => ?_⟩, hle⟩
  obtain heq | ⟨_, -, hlast⟩ := hpath.cases_tail
  · exact heq.symm.trans hqueued
  · exact absurd hqueued hlast.ne_queued

/-- An event from its acceptance to its delivery. -/
theorem row_follows_graph_example :
    ∃ (cfg cfg' : (d1Service (· = 5)).Config) (row row' : EventRow),
      Service.Reachable Service.anyCall cfg ∧
      Service.Steps Service.anyCall cfg cfg' ∧
      publicRow cfg.state = some (.queued, 0) ∧
      publicRow cfg'.state = some (.delivered, 1) ∧
      (∀ next, Service.Step Service.anyCall cfg next →
        RowChanges (ReflGen StatusMoves) sampleEvent row next.state.db) ∧
      cfg'.state.db.events.lookup sampleEvent = some row' ∧
      ReflTransGen StatusMoves .queued row'.status := by
  have haccepted : (d1Oracle.play Service.anyCall sampleStart
      (deliveredSchedule.take 3)).map (fun cfg => publicRow cfg.state) =
      some (some (.queued, 0)) := by
    decide +kernel
  have hdelivered : (d1Oracle.play Service.anyCall sampleStart
      (deliveredSchedule.take 3 ++ deliveredSchedule.drop 3)).map
      (fun cfg => publicRow cfg.state) = some (some (.delivered, 1)) := by
    decide +kernel
  obtain ⟨cfg, hplay, hstate⟩ := Option.map_eq_some_iff.mp haccepted
  rw [Oracle.play_append, hplay] at hdelivered
  obtain ⟨cfg', hplay', hstate'⟩ := Option.map_eq_some_iff.mp hdelivered
  have hreach : Service.Reachable Service.anyCall cfg :=
    Oracle.reachable_of_play rfl hplay
  have hsteps := Oracle.steps_of_play hplay'
  obtain ⟨row, hrow, hqueued, -⟩ := row_of_publicRow hstate
  obtain ⟨hedge, hpath⟩ := row_follows_graph hreach hrow
  obtain ⟨row', hrow', ⟨hpath, -⟩, -⟩ := hpath cfg' hsteps
  rw [hqueued] at hpath
  exact ⟨cfg, cfg', row, row', hreach, hsteps, hstate, hstate', hedge, hrow',
    hpath⟩

end Hooklane.Cloudflare
