import Hooklane.Queue.Claiming
import Hooklane.Queue.Guarantees

/-!
# What the recovery paths guarantee on arbitrary data

Whatever the keyspace holds, one release works on the first due member, and
one claim works on the message that its script picks.  The results say exactly
when these do what they are for; outside these conditions the same record is
met again by every later call.
-/

namespace Hooklane

open Redis Support ProgE

variable {w : World} {store : RedisEventStore} {group : String} {st : Stream}
  {g : Group}

section Release

variable {z : ZSet} {nowMs : ℤ} {m : String}

theorem answerable_releaseDueRetry :
    CallsOnly Answerable (store.releaseDueRetry group nowMs) := by
  refine callsOnly_bind (callsOnly_attempt (fun _ => trivial)
    (fun _ => trivial) store trivial) fun released => ?_
  split
  · exact callsOnly_bind (callsOnly_recordQueueQuarantine (fun _ => trivial)
      (fun _ => trivial) store _) fun _ => callsOnly_pure _
  · exact callsOnly_pure _

/-- The method answers as the script does. -/
theorem alone_releaseDueRetry (hevents : w.store .events = some (.stream st))
    (hg : st.groups.lookup group = some g)
    (hz : w.store .retries = some (.zset z)) {rest : List String}
    (hdue : z.upTo ((nowMs : ℚ) : Score) = m :: rest)
    (hreleasable : Releasable group m w.store) :
    AloneEnds (store.releaseDueRetry group nowMs) (fun r w' =>
      ∃ released, r = .ok released ∧
        ReleaseOutcome group m w.store w'.store released) w := by
  have hcall : AloneEnds (store.attempt "release_retry" none
      (.releaseDueRetry group nowMs)) (fun r w' => ∃ answer, r = .ok answer ∧
        (answer = 1 ∧ ReleaseOutcome group m w.store w'.store true ∨
          answer = 2 ∧ ReleaseOutcome group m w.store w'.store false)) w := by
    refine alone_attempt (by decide) ?_ ?_
    · intro now value hvalue
      rcases releaseDueRetry_cases hevents hg hz hdue now with
        ⟨-, answer, db', hrun, houtcome⟩ | ⟨hnot, -⟩
      · have hscript : (RedisCall.releaseDueRetry group nowMs).script now
            w.store = (.ok answer, db') := hrun
        rw [hscript] at hvalue
        obtain rfl := Except.ok.inj hvalue
        refine ⟨answer, rfl, ?_⟩
        rw [World.run, hscript]
        exact houtcome
      · exact absurd hreleasable hnot
    · intro now message hmessage
      rcases releaseDueRetry_cases hevents hg hz hdue now with
        ⟨-, answer, db', hrun, -⟩ | ⟨hnot, -⟩
      · have hscript : (RedisCall.releaseDueRetry group nowMs).script now
            w.store = (.ok answer, db') := hrun
        rw [hscript] at hmessage
        cases hmessage
      · exact absurd hreleasable hnot
  refine hcall.bind ?_ ?_
  · rintro _ w' ⟨answer, h, houtcome⟩
    obtain rfl := Except.ok.inj h
    rcases houtcome with ⟨rfl, houtcome⟩ | ⟨rfl, houtcome⟩
    · exact alone_pure ⟨true, rfl, houtcome⟩
    · refine (alone_recordQueueQuarantine (by decide)).bind ?_ ?_
      · rintro _ _ ⟨-, rfl⟩
        exact alone_pure ⟨false, rfl, houtcome⟩
      · rintro _ _ ⟨h, -⟩
        cases h
  · rintro _ _ ⟨_, h, -⟩
    cases h

theorem alone_releaseDueRetry_blocked
    (hevents : w.store .events = some (.stream st))
    (hg : st.groups.lookup group = some g)
    (hz : w.store .retries = some (.zset z)) {rest : List String}
    (hdue : z.upTo ((nowMs : ℚ) : Score) = m :: rest)
    (hblocked : ¬Releasable group m w.store) :
    AloneEnds (store.releaseDueRetry group nowMs) (fun r w' =>
      r = .error .eventStoreUnavailable ∧ w'.store = w.store) w := by
  have hcall : AloneEnds (store.attempt "release_retry" none
      (.releaseDueRetry group nowMs)) (fun r w' =>
        r = .error .eventStoreUnavailable ∧ w'.store = w.store) w := by
    have hscript : ∀ now, ∃ message,
        (RedisCall.releaseDueRetry group nowMs).script now w.store =
          (.error message, w.store) := by
      intro now
      rcases releaseDueRetry_cases hevents hg hz hdue now with
        ⟨hreleasable, -⟩ | ⟨-, message, hrun⟩
      · exact absurd hreleasable hblocked
      · exact ⟨message, hrun⟩
    refine alone_attempt (by decide) ?_ ?_
    · intro now value hvalue
      obtain ⟨message, hrun⟩ := hscript now
      rw [hrun] at hvalue
      cases hvalue
    · intro now _ _
      obtain ⟨message, hrun⟩ := hscript now
      exact ⟨rfl, by rw [World.run, hrun]⟩
  refine hcall.bind ?_ fun raised w' h => ?_
  · rintro _ _ ⟨h, -⟩
    cases h
  · exact ⟨congrArg Except.error (Except.error.inj h.1), h.2⟩

theorem releaseDueRetry_runs_iff (store : RedisEventStore)
    (hevents : w.store .events = some (.stream st))
    (hg : st.groups.lookup group = some g)
    (hz : w.store .retries = some (.zset z)) {rest : List String}
    (hdue : z.upTo ((nowMs : ℚ) : Score) = m :: rest) :
    (∀ r w', Prog.Runs AvailableMachine
        (store.releaseDueRetry group nowMs).run w r w' →
      ∃ released, r = .ok released ∧
        ReleaseOutcome group m w.store w'.store released) ↔
      Releasable group m w.store := by
  refine Prog.Alone.forall_runs_iff exists_answer
    answerable_releaseDueRetry.run
    (alone_releaseDueRetry hevents hg hz hdue)
    (alone_releaseDueRetry_blocked hevents hg hz hdue) ?_
  rintro r w' ⟨rfl, -⟩ ⟨released, h, -⟩
  cases h

theorem exists_upTo (hdue : ∃ member score, z.lookup member = some score ∧
    score ≤ ((nowMs : ℚ) : Score)) :
    ∃ m rest, z.upTo ((nowMs : ℚ) : Score) = m :: rest := by
  obtain ⟨member, score, hlookup, hle⟩ := hdue
  have hmem : member ∈ z.upTo ((nowMs : ℚ) : Score) :=
    mem_upTo.mpr ⟨score, hlookup, hle⟩
  exact List.exists_cons_of_ne_nil (List.ne_nil_of_mem hmem)

/-- A release works off the first due member, whatever its record and message
hold, if and only if the message id of a waiting record is one that the server
reads, and, when the message is to be requeued, its fields can be unpacked and
the events stream has room for a copy. -/
theorem release_works_off_first_due (store : RedisEventStore)
    (hevents : w.store .events = some (.stream st))
    (hg : st.groups.lookup group = some g)
    (hz : w.store .retries = some (.zset z))
    (hdue : ∃ member score, z.lookup member = some score ∧
      score ≤ ((nowMs : ℚ) : Score)) :
    ∃ m, FirstDue z ((nowMs : ℚ) : Score) m ∧
      ((∀ r w', Prog.Runs AvailableMachine
          (store.releaseDueRetry group nowMs).run w r w' →
        ∃ released, r = .ok released ∧
          ReleaseOutcome group m w.store w'.store released) ↔
        Releasable group m w.store) := by
  obtain ⟨m, rest, hlist⟩ := exists_upTo hdue
  exact ⟨m, firstDue_of_upTo hlist,
    releaseDueRetry_runs_iff store hevents hg hz hlist⟩

/-- An empty events stream with a group, a retry schedule of one member, and a
record for it. -/
def oneRetry (member : String) (record : Option Value) : World where
  store
    | .events => some (.stream (Stream.empty.createGroup "hooklane-workers"))
    | .retries => some (.zset ((∅ : ZSet).insert member ((0 : ℚ) : Score)))
    | .event m => if m = member then record else none
    | _ => none
  history := []

theorem oneRetry_due (member : String) :
    ∃ member' score, ((∅ : ZSet).insert member ((0 : ℚ) : Score)).lookup
      member' = some score ∧ score ≤ (((0 : ℤ) : ℚ) : Score) :=
  ⟨member, _, AList.lookup_insert _, by simp⟩

theorem oneRetry_first {member m : String} {bound : Score}
    (h : FirstDue ((∅ : ZSet).insert member ((0 : ℚ) : Score)) bound m) :
    m = member := by
  obtain ⟨score, hlookup, -⟩ := h
  by_contra hne
  rw [AList.lookup_insert_ne hne] at hlookup
  cases hlookup

/-- A member that is no event id is dropped. -/
theorem release_works_off_first_due_example :
    ∃ m, FirstDue ((∅ : ZSet).insert "not-an-id" ((0 : ℚ) : Score))
        (((0 : ℤ) : ℚ) : Score) m ∧
      ((∀ r w', Prog.Runs AvailableMachine
          (exampleStore.releaseDueRetry "hooklane-workers" 0).run
          (oneRetry "not-an-id" none) r w' →
        ∃ released, r = .ok released ∧ ReleaseOutcome "hooklane-workers" m
          (oneRetry "not-an-id" none).store w'.store released) ↔
        Releasable "hooklane-workers" m (oneRetry "not-an-id" none).store) :=
  release_works_off_first_due exampleStore rfl (Stream.lookup_setGroup _ _ _)
    rfl (oneRetry_due _)

/-- The record of an event whose message id does not fit in 64 bits. -/
def oversizedRecord : Hash :=
  Hash.setAll ∅ [("event_id", exampleEvent.text),
    ("status", EventStatus.retryScheduled.value), ("attempt_count", "1"),
    ("stream_id", "18446744073709551616-0")]

theorem oversizedRecord_waiting : Waiting
    (oneRetry exampleEvent.text (some (.hash oversizedRecord))).store
    exampleEvent.text "18446744073709551616-0" := by
  have hkey : (oneRetry exampleEvent.text
      (some (.hash oversizedRecord))).store (.event exampleEvent.text) =
      some (.hash oversizedRecord) := by
    simp [oneRetry]
  refine ⟨isUuid_text _, ?_, ?_, ?_, by decide⟩ <;>
    rw [recordField_hash hkey] <;> rfl

/-- The server refuses the message id of the record, and the member stays the
first one. -/
theorem release_blocked :
    ¬∀ (store : RedisEventStore) (w : World) (group : String) (st : Stream)
      (g : Group) (z : ZSet) (nowMs : ℤ),
      w.store .events = some (.stream st) → st.groups.lookup group = some g →
      w.store .retries = some (.zset z) →
      (∃ member score, z.lookup member = some score ∧
        score ≤ ((nowMs : ℚ) : Score)) →
      ∃ m, FirstDue z ((nowMs : ℚ) : Score) m ∧
        ∀ r w', Prog.Runs AvailableMachine
            (store.releaseDueRetry group nowMs).run w r w' →
          ∃ released, r = .ok released ∧
            ReleaseOutcome group m w.store w'.store released := by
  intro hclaim
  obtain ⟨m, hfirst, hruns⟩ := hclaim exampleStore
    (oneRetry exampleEvent.text (some (.hash oversizedRecord)))
    "hooklane-workers" _ _ _ 0 rfl (Stream.lookup_setGroup _ _ _) rfl
    (oneRetry_due _)
  obtain rfl := oneRetry_first hfirst
  obtain ⟨m, rest, hlist⟩ := exists_upTo (oneRetry_due exampleEvent.text)
  obtain rfl := oneRetry_first (firstDue_of_upTo hlist)
  have hreleasable := (releaseDueRetry_runs_iff exampleStore rfl
    (Stream.lookup_setGroup _ _ _) rfl hlist).mp hruns
  exact hreleasable.1 _ oversizedRecord_waiting (by decide)

end Release

section Claim

variable {consumer : String} {minIdle : ℕ} {m : String} {db : Store}
  {e : UUID}

/-- A message to be delivered is not nested too deeply; if it parses, then to
an id for which `P` holds; and for any other message there is room in the
quarantine stream. -/
def Claimable (lib : Stdlib) (P : Fields → UUID → Prop) (m : String)
    (db : Store) : Prop :=
  ∀ entry ∈ (streamAt db .events).entries, entry.id.text = m →
    (Deliverable db entry.fields m →
      RedisEventStore.parseClaimed lib m entry.fields ≠ .error .recursion) ∧
    (Deliverable db entry.fields m ∧ Parses lib entry.fields →
      ∀ text e, lastFieldValue entry.fields "event_id" = some text →
        UUID.parse text = some e → P entry.fields e) ∧
    (¬(Deliverable db entry.fields m ∧ Parses lib entry.fields) →
      (streamAt db .quarantine).lastId ≠ StreamId.greatest)

end Claim

end Hooklane
