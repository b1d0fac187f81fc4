import Hooklane.Cloudflare.Dispatching

/-!
# What the outbox guarantees

The results hold for every interleaving in which no claim of the outbox repeats
a token.  Every step of an outbox row is an allowed entry of its log, so what
holds of orderly logs holds of the row.
-/

namespace Hooklane.Cloudflare

open Support ProgE

variable {e : UUID} {w w' : World} {maxima : ℕ → Prop}
  {G : World → Op → Prop}

section Repairs

/-- A run of a program in the environment that `G` restricts. -/
abbrev AmidGuarded (G : World → Op → Prop) (maxima : ℕ → Prop) {α : Type}
    (p : App α) (w : World) (own : List (Own (d1Machine.restrict G)))
    (r : Except Raised α) (w' : World) : Prop :=
  ProgE.Amid (M := d1Machine.restrict G) (May maxima) p w own r w'

variable {own : List (Own (d1Machine.restrict G))}

/-- A statement that gave its caller a value was answered with it. -/
theorem answered_of_ok {call : D1Call} {value : call.Value}
    (h : AmidGuarded G maxima (App.execute call) w own (.ok value) w') :
    ∃ t, own = [⟨t, .d1 call, some value⟩] := by
  rcases ProgE.Amid.of_bind h with ⟨raised, t, -, -, hraised⟩ |
    ⟨first, reply, t, rest, hp, hf, rfl⟩
  · cases hraised
  · obtain ⟨s, reply', s', -, -, -, rfl, hreply⟩ := ProgE.Amid.of_perform hp
    obtain rfl := Except.ok.inj hreply
    cases reply with
    | some found =>
        obtain ⟨hvalue, rfl, -⟩ := ProgE.Amid.of_pure hf
        obtain rfl := Except.ok.inj hvalue
        exact ⟨s, rfl⟩
    | none =>
        obtain ⟨hraised, -, -⟩ := ProgE.Amid.of_throw hf
        cases hraised

/-- `mark_dispatched` returns `True` only when its update changed the row. -/
theorem closed_of_markDispatched {claimToken : Option String}
    (h : AmidGuarded G maxima (D1EventStore.markDispatched e claimToken) w own
      (.ok true) w') :
    ∃ t nowMs, ⟨t, .d1 (.markDispatched e nowMs claimToken), some 1⟩ ∈ own := by
  rcases ProgE.Amid.of_bind h with ⟨raised, t, -, -, hraised⟩ |
    ⟨clock, nowMs, t, rest, -, hrest, rfl⟩
  · cases hraised
  rcases ProgE.Amid.of_bind hrest with ⟨raised, t, -, -, hraised⟩ |
    ⟨update, changed, t, last, hupdate, hlast, rfl⟩
  · cases hraised
  obtain ⟨hchanged, rfl, -⟩ := ProgE.Amid.of_pure hlast
  obtain rfl : changed = 1 := by simpa using Except.ok.inj hchanged
  obtain ⟨s, rfl⟩ := answered_of_ok hupdate
  exact ⟨s, nowMs, by simp⟩

/-- The loop of `repair` counts every row once. -/
theorem yields_repairAll (claimToken : String) (rows : List OutboxRecord)
    (repaired deferred : ℕ) :
    Yields (fun r => ∀ counts, r = .ok counts →
      counts.1 + counts.2 = repaired + deferred + rows.length)
      (AcceptanceService.repairAll claimToken rows repaired deferred) := by
  induction rows generalizing repaired deferred with
  | nil =>
      refine yields_pure ?_
      rintro _ ⟨⟩
      rfl
  | cons outbox rest ih =>
      refine (yields_any (AcceptanceService.repairOne claimToken outbox)).bind
        (fun dispatched _ => ?_) (fun _ _ _ h => nomatch h)
      cases dispatched with
      | true =>
          refine (ih (repaired + 1) deferred).mono fun r hr counts hcounts => ?_
          rw [hr counts hcounts, List.length_cons]
          omega
      | false =>
          refine (ih repaired (deferred + 1)).mono fun r hr counts hcounts => ?_
          rw [hr counts hcounts, List.length_cons]
          omega

/-- A repair's two counts are together the number of rows that it claimed. -/
theorem repair_counts {limit : ℤ} {repaired deferred : ℕ}
    (h : AmidGuarded G maxima (AcceptanceService.repair limit) w own
      (.ok (repaired, deferred)) w') :
    ∃ t claimToken leaseUntilMs nowMs rows,
      ⟨t, .d1 (.claimOutbox claimToken leaseUntilMs nowMs limit), some rows⟩ ∈
        own ∧ repaired + deferred = rows.length := by
  rcases ProgE.Amid.of_bind h with ⟨raised, t, -, -, hraised⟩ |
    ⟨chance, claimToken, t, rest, -, hrest, rfl⟩
  · cases hraised
  rcases ProgE.Amid.of_bind hrest with ⟨raised, t, -, -, hraised⟩ |
    ⟨claim, outboxes, t, loop, hclaim, hloop, rfl⟩
  · cases hraised
  rcases ProgE.Amid.of_bind hclaim with ⟨raised, t, -, -, hraised⟩ |
    ⟨clock, nowMs, t, claimed, -, hclaimed, rfl⟩
  · cases hraised
  rcases ProgE.Amid.of_bind hclaimed with ⟨raised, t, -, -, hraised⟩ |
    ⟨update, rows, t, last, hupdate, hlast, rfl⟩
  · cases hraised
  obtain ⟨hrows, rfl, -⟩ := ProgE.Amid.of_pure hlast
  obtain rfl := Except.ok.inj hrows
  obtain ⟨s, rfl⟩ := answered_of_ok hupdate
  have hcounts := ProgE.Amid.yields
    (yields_repairAll claimToken _ 0 0) hloop _ rfl
  refine ⟨s, claimToken, _, nowMs, rows, by simp, ?_⟩
  simpa using hcounts

end Repairs

section Exclusive

/-- With distinct tokens, something that followed a claim has ended it. -/
theorem token_of_outdated (hleased : Leased w)
    (hdistinct : (claimTokens (w.outboxLog e)).Nodup) {claimToken : String}
    {leaseUntilMs nowMs : ℤ} {later earlier : List OutboxEntry}
    (hlog : w.outboxLog e =
      later ++ .claimed claimToken leaseUntilMs nowMs :: earlier)
    (hlater : later ≠ []) {row : OutboxRow}
    (hrow : w.db.outbox.lookup e = some row) (hpending : row.state = .pending) :
    row.claimToken ≠ some claimToken := by
  intro hclaim
  have hshows := (hleased e).1
  rw [hrow] at hshows
  rcases (hshows.pending hpending).2 with ⟨-, hnone⟩ |
    ⟨holder, until', hstanding, hholder, -⟩
  · rw [hnone] at hclaim
    cases hclaim
  · obtain rfl := Option.some.inj (hholder.symm.trans hclaim)
    rw [hlog] at hdistinct hstanding
    exact hlater (held_of_claimed hdistinct hstanding)

/-- Outbox claims are exclusive and dispatch happens once: an outbox row is
dispatched at most once, and `mark_dispatched` returns `True` only then; its
send attempts are 0 while it is pending and 1 once it is sent, when it never
changes again; a second claim follows the end of the first one's lease or its
release; an update with an outdated token, or with none while the row is
claimed, changes nothing; and a repair counts every row that it claimed. -/
theorem outbox_claims_exclusive {cfg : (d1Service maxima).Config}
    (hreach : Service.Reachable DistinctClaims cfg) (e : UUID) :
    (cfg.state.outboxLog e).countP LeaseEntry.isClosing ≤ 1 ∧
    (∀ claimToken w own w',
      AmidGuarded DistinctClaims maxima
        (D1EventStore.markDispatched e claimToken) w own (.ok true) w' →
      ∃ t nowMs,
        ⟨t, .d1 (.markDispatched e nowMs claimToken), some 1⟩ ∈ own) ∧
    (∀ row, cfg.state.db.outbox.lookup e = some row →
      (row.state = .pending → row.sendAttemptCount = 0) ∧
      (row.state = .sent → row.sendAttemptCount = 1 ∧
        ∀ cfg', Service.Steps DistinctClaims cfg cfg' →
          cfg'.state.db.outbox.lookup e = some row)) ∧
    (∀ later between earlier claimToken claimToken' leaseUntilMs leaseUntilMs'
        nowMs nowMs',
      cfg.state.outboxLog e =
        later ++ .claimed claimToken' leaseUntilMs' nowMs' ::
          (between ++ .claimed claimToken leaseUntilMs nowMs :: earlier) →
      (∀ entry ∈ between, entry.claimToken = none) →
      leaseUntilMs ≤ nowMs' ∨ .released claimToken ∈ between) ∧
    (∀ later earlier claimToken leaseUntilMs nowMs,
      cfg.state.outboxLog e =
        later ++ .claimed claimToken leaseUntilMs nowMs :: earlier →
      (later ≠ [] → ∀ nowMs reply w',
        World.Exec cfg.state (.d1 (.markDispatched e nowMs (some claimToken)))
          reply w' → w'.db = cfg.state.db) ∧
      (later ≠ [] → ∀ nowMs reply w',
        World.Exec cfg.state (.d1 (.releaseOutboxClaim e claimToken nowMs))
          reply w' → w'.db = cfg.state.db) ∧
      (later = [] → ∀ nowMs reply w',
        World.Exec cfg.state (.d1 (.markDispatched e nowMs none)) reply w' →
          w'.db = cfg.state.db)) ∧
    ∀ limit repaired deferred w own w',
      AmidGuarded DistinctClaims maxima (AcceptanceService.repair limit) w own
        (.ok (repaired, deferred)) w' →
      ∃ t claimToken leaseUntilMs nowMs rows,
        ⟨t, .d1 (.claimOutbox claimToken leaseUntilMs nowMs limit),
          some rows⟩ ∈ own ∧ repaired + deferred = rows.length := by
  have hreached := reached_of_reachable hreach
  have hleased := reach_leased hreached
  obtain ⟨hshows, horderly⟩ := hleased e
  have hdistinct := reach_distinctClaims (fun _ _ h => h) hreached e
  refine ⟨horderly.countP_closing_le,
    fun _ _ _ _ h => closed_of_markDispatched h, ?_, ?_, ?_,
    fun _ _ _ _ _ _ h => repair_counts h⟩
  · intro row hrow
    rw [hrow] at hshows
    refine ⟨fun hpending => (hshows.pending hpending).1, fun hsent => ?_⟩
    have hclosed := hshows.closed hsent
    rw [hclosed] at hshows
    refine ⟨hshows.2, fun cfg' hsteps => ?_⟩
    exact (lasting_dispatched e row _ _ hreached (onward_of_steps hreach hsteps)
      ⟨hleased, hrow, hsent⟩).2.1
  · intro later between earlier claimToken claimToken' _ _ _ _ hlog hbetween
    rw [hlog] at horderly
    exact horderly.claimed_again hbetween
  · intro later earlier claimToken leaseUntilMs nowMs hlog
    refine ⟨fun hlater now reply w' hexec => ?_,
      fun hlater now reply w' hexec => ?_, fun hnil now reply w' hexec => ?_⟩
    · exact markDispatched_unselected (fun row hrow hpending =>
        token_of_outdated hleased hdistinct hlog hlater hrow hpending) hexec
    · exact releaseOutboxClaim_unselected (fun row hrow hpending =>
        token_of_outdated hleased hdistinct hlog hlater hrow hpending) hexec
    · refine markDispatched_unselected (fun row hrow hpending hnone => ?_) hexec
      subst hnil
      rw [hrow, hlog] at hshows
      obtain ⟨-, -, hheld, -⟩ := hshows
      rw [hnone] at hheld
      cases hheld

/-- A repair claims the event; its lease ends, another repair claims it, and
both send the reference.  The first one finds its claim lost. -/
def takenOverSchedule : List (SampleAction 5) :=
  storedSchedule ++
    [.start (.repair 100) fun _ => trivial,
      .act 1 (.uuid (UUID.ofNat 5)), .act 1 (.number 2), .act 1 .ran,
      .start (.repair 100) fun _ => trivial,
      .act 2 (.uuid (UUID.ofNat 6)), .act 2 (.number 40), .act 2 .ran,
      .act 1 .ran, .act 1 (.number 41), .act 1 .ran, .act 1 .done,
      .act 2 .ran, .act 2 (.number 42), .act 2 .ran, .act 2 .done]

/-- The event is claimed twice and dispatched by the second owner. -/
theorem outbox_claims_exclusive_example :
    ∃ (cfg : (d1Service (· = 5)).Config) (row : OutboxRow),
      cfg.state.outboxLog sampleEvent =
        [.closed (some (sampleToken 6)), .claimed (sampleToken 6) 70000 40000,
          .claimed (sampleToken 5) 32000 2000, .opened] ∧
      (cfg.state.outboxLog sampleEvent).countP LeaseEntry.isClosing ≤ 1 ∧
      cfg.state.db.outbox.lookup sampleEvent = some row ∧
      row.state = .sent ∧ row.sendAttemptCount = 1 ∧
      ((32000 : ℤ) ≤ 40000 ∨ .released (sampleToken 5) ∈ ([] : List OutboxEntry)) := by
  have hrun : (d1Oracle.play DistinctClaims sampleStart takenOverSchedule).map
      (fun cfg => (cfg.state.outboxLog sampleEvent,
        outboxState cfg.state.db sampleEvent)) =
      some ([.closed (some (sampleToken 6)),
        .claimed (sampleToken 6) 70000 40000,
        .claimed (sampleToken 5) 32000 2000, .opened], some .sent) := by
    decide +kernel
  obtain ⟨cfg, hreach, heq⟩ := reachable_of_sample hrun
  obtain ⟨hlog, hstate⟩ := Prod.mk.inj heq
  obtain ⟨row, hrow, hsent⟩ := Option.map_eq_some_iff.mp hstate
  obtain ⟨honce, -, hrows, hclaims, -⟩ :=
    outbox_claims_exclusive hreach sampleEvent
  exact ⟨cfg, row, hlog, honce, hrow, hsent, ((hrows row hrow).2 hsent).1,
    hclaims [.closed (some (sampleToken 6))] [] [.opened] _ _ _ _ _ _ hlog
      nofun⟩

end Exclusive

end Hooklane.Cloudflare
