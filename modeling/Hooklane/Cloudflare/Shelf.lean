import Hooklane.Cloudflare.Acceptance
import Hooklane.Cloudflare.Calls
import Hooklane.Support.Narrowing

/-!
# Every stored event is complete

With fresh ids every executed acceptance either stored a whole event or
changed nothing, so in every reachable state an event has exactly one outbox
row and all the chunks of its payload, a key belongs to one event, and nothing
is left of an event that was not stored.
-/

namespace Hooklane.Cloudflare

open Support

variable {db db' : Database} {w w' : World} {e : UUID}

/-- The id that an executed batch proposed. -/
def Record.proposed : Record → Option UUID
  | .executed _ (.acceptBatch proposed _ _ _ _ _) _ => some proposed
  | _ => none

/-- The ids that were proposed so far. -/
def World.proposed (w : World) : List UUID :=
  w.history.filterMap Record.proposed

/-- No acceptance proposes the id of an earlier one. -/
def FreshProposals (w : World) : Op → Prop
  | .d1 (.acceptBatch proposed _ _ _ _ _) => proposed ∉ w.proposed
  | _ => True

instance (w : World) : DecidablePred (FreshProposals w) := fun op =>
  match op with
  | .d1 (.acceptBatch proposed _ _ _ _ _) =>
      inferInstanceAs (Decidable (proposed ∉ w.proposed))
  | .d1 (.claimDelivery ..) | .d1 (.selectEvent _)
  | .d1 (.selectPayloadChunks _) | .d1 (.selectState _)
  | .d1 (.selectOutbox _) | .d1 (.claimOutbox ..) | .d1 (.markDispatched ..)
  | .d1 (.releaseOutboxClaim ..) | .d1 (.deadLetterExhausted ..)
  | .d1 (.updateTerminal ..) | .time | .uuid4 | .uniform .. | .queueSend _
  | .deliver _ | .emit _ | .ack _ | .retry .. => instDecidableTrue

/-- An acceptance writes the chunks of an event. -/
def Formed : Op → Prop
  | .d1 (.acceptBatch _ eventType chunks _ _ _) =>
      ∃ event : EventRequest, eventType = event.eventType ∧
        payloadJsonChunks payloadChunkLimitBytes event = some chunks
  | _ => True

/-- The tables hold an event with these chunks. -/
structure Holds (db : Database) (e : UUID) (c : EventContent)
    (chunks : List String) : Prop where
  content : content db e = some c
  chunks : ∀ i, db.payloadChunks.lookup (e, i) = chunks[i]?

/-- An executed acceptance stored the event. -/
def World.Stored (w : World) (e : UUID) (c : EventContent)
    (chunks : List String) : Prop :=
  ∃ before nowMs row, row.eventId = e ∧ c.payloadJson = "" ∧
    .executed before (.acceptBatch e c.eventType chunks c.requestFingerprint
      c.idempotencyKeyHash nowMs) (some row) ∈ w.history

/-- What holds of the tables and the history in every run with fresh ids. -/
structure Shelved (w : World) : Prop where
  unknown : ∀ e, e ∉ w.proposed → Unknown w.db e
  outbox : ∀ e, e ∈ w.db.outbox ↔ e ∈ w.db.events
  chunks : ∀ e i, (e, i) ∈ w.db.payloadChunks → e ∈ w.db.events
  stored : ∀ e c chunks, w.Stored e c chunks → Holds w.db e c chunks
  origin : ∀ e c, content w.db e = some c →
    ∃ event : EventRequest, ∃ chunks, c.eventType = event.eventType ∧
      payloadJsonChunks payloadChunkLimitBytes event = some chunks ∧
      w.Stored e c chunks
  keys : ∀ e e' c c' key, content w.db e = some c → content w.db e' = some c' →
    c.idempotencyKeyHash = some key → c'.idempotencyKeyHash = some key → e = e'

section Keys

variable {key : String}

theorem eventWithKey_content {id : UUID} {row : EventRow}
    (h : eventWithKey db key = some (id, row)) :
    content db id = some row.content ∧
      row.content.idempotencyKeyHash = some key := by
  obtain ⟨entry, hfind, heq⟩ := Option.map_eq_some_iff.mp h
  obtain ⟨rfl, rfl⟩ := Prod.mk.inj heq
  have hmem := List.mem_of_find?_eq_some hfind
  have hkey := List.find?_some hfind
  refine ⟨content_of_row (AList.mem_lookup_iff.mpr hmem), ?_⟩
  change entry.2.idempotencyKeyHash = some key
  simpa using hkey

theorem eventWithKey_none (h : eventWithKey db key = none) {c : EventContent}
    (hc : content db e = some c) : c.idempotencyKeyHash ≠ some key := by
  obtain ⟨row, hrow, rfl⟩ := Option.map_eq_some_iff.mp hc
  have hfind := Option.map_eq_none_iff.mp h
  have hentry : (⟨e, row⟩ : (_ : UUID) × EventRow) ∈ db.events.entries :=
    AList.mem_lookup_iff.mp hrow
  have hno := List.find?_eq_none.mp hfind _ hentry
  change row.idempotencyKeyHash ≠ some key
  simpa using hno

end Keys

namespace Shelved

theorem initial : Shelved {} where
  unknown := fun e _ => ⟨by simp, by simp, by simp⟩
  outbox := by simp
  chunks := by simp
  stored := by
    rintro e c chunks ⟨before, nowMs, row, -, -, hmem⟩
    cases hmem
  origin := nofun
  keys := nofun

/-- A step that leaves the content as it is and stores no event. -/
theorem same (h : Shelved w) (hsame : SameContent w.db w'.db)
    (hproposed : ∀ e, e ∈ w.proposed → e ∈ w'.proposed)
    (hstored : ∀ e c chunks, w'.Stored e c chunks ↔ w.Stored e c chunks) :
    Shelved w' := by
  have hevents : ∀ e, e ∈ w'.db.events ↔ e ∈ w.db.events := by
    intro e
    rw [← content_ne_none, ← content_ne_none, hsame.content]
  refine ⟨fun e he => ?_, fun e => ?_, fun e i hi => ?_,
    fun e c chunks hs => ?_, fun e c hc => ?_, ?_⟩
  · have hold := h.unknown e fun hmem => he (hproposed e hmem)
    refine ⟨mt (hevents e).mp hold.event, mt (hsame.outbox e).mp hold.outbox,
      fun i => ?_⟩
    rw [hsame.chunks]
    exact hold.chunks i
  · rw [hsame.outbox, hevents]
    exact h.outbox e
  · rw [hsame.chunks] at hi
    exact (hevents e).mpr (h.chunks e i hi)
  · have hold := h.stored e c chunks ((hstored e c chunks).mp hs)
    refine ⟨?_, fun i => ?_⟩
    · rw [hsame.content]
      exact hold.content
    · rw [hsame.chunks]
      exact hold.chunks i
  · rw [hsame.content] at hc
    obtain ⟨event, chunks, htype, hcut, hs⟩ := h.origin e c hc
    exact ⟨event, chunks, htype, hcut, (hstored e c chunks).mpr hs⟩
  · rw [hsame.content]
    exact h.keys

section Statement

variable {call : D1Call} {value : call.Value}

theorem mem_proposed_ran (h : e ∈ w.proposed) :
    e ∈ (w.ran call value db).proposed := by
  rw [World.proposed, World.ran, List.filterMap_cons]
  split
  · exact h
  · exact List.mem_cons_of_mem _ h

theorem stored_ran {c : EventContent} {chunks : List String} :
    (w.ran call value db).Stored e c chunks ↔
      (∃ nowMs row, row.eventId = e ∧ c.payloadJson = "" ∧
        Record.executed w.db call value =
          .executed w.db (.acceptBatch e c.eventType chunks
            c.requestFingerprint c.idempotencyKeyHash nowMs) (some row)) ∨
      w.Stored e c chunks := by
  constructor
  · rintro ⟨before, nowMs, row, hid, hlegacy, hmem⟩
    rcases List.mem_cons.mp hmem with heq | hmem
    · obtain ⟨rfl, -⟩ := Record.executed.inj heq
      exact Or.inl ⟨nowMs, row, hid, hlegacy, heq.symm⟩
    · exact Or.inr ⟨before, nowMs, row, hid, hlegacy, hmem⟩
  · rintro (⟨nowMs, row, hid, hlegacy, heq⟩ |
      ⟨before, nowMs, row, hid, hlegacy, hmem⟩)
    · refine ⟨w.db, nowMs, row, hid, hlegacy, ?_⟩
      rw [← heq]
      exact List.mem_cons_self
    · exact ⟨before, nowMs, row, hid, hlegacy, List.mem_cons_of_mem _ hmem⟩

/-- The batch of a fresh id keeps the shelves in order. -/
theorem batch (h : Shelved w) {proposed : UUID}
    {eventType fingerprint : String} {chunks : List String}
    {keyHash : Option String} {nowMs : ℤ} {value : Option AcceptedRow}
    (hfresh : proposed ∉ w.proposed) {event : EventRequest}
    (htype : eventType = event.eventType)
    (hcut : payloadJsonChunks payloadChunkLimitBytes event = some chunks)
    (hrun : acceptBatch proposed eventType chunks fingerprint keyHash nowMs
      w.db = some (value, db)) :
    Shelved (w.ran (.acceptBatch proposed eventType chunks fingerprint keyHash
      nowMs) value db) := by
  have hunknown := h.unknown proposed hfresh
  cases batchEffect hunknown hrun with
  | found key id row keyed taken same =>
      subst same
      refine h.same (.refl _) (fun e he => mem_proposed_ran he) ?_
      intro e c chunks'
      rw [stored_ran]
      refine ⟨?_, Or.inr⟩
      rintro (⟨nowMs', row', hid, -, heq⟩ | hs)
      · obtain ⟨-, hcall, hvalue⟩ := Record.executed.inj heq
        obtain ⟨rfl, -⟩ := D1Call.acceptBatch.inj hcall
        obtain rfl := Option.some.inj (eq_of_heq hvalue)
        exact absurd (hid ▸ eventWithKey_mem taken) hunknown.event
      · exact hs
  | stored free events outbox payload =>
      let row := newEvent eventType fingerprint keyHash nowMs
      have hcontent : ∀ e, content db e =
          if e = proposed then some row.content else content w.db e := by
        intro e
        rw [← content_insert, content, events]
        rfl
      have hmem : ∀ e, e ∈ db.events ↔ e = proposed ∨ e ∈ w.db.events := by
        intro e
        rw [events, AList.mem_insert]
      have hnew : (w.ran (.acceptBatch proposed eventType chunks fingerprint
          keyHash nowMs) (some ⟨proposed, fingerprint, .queued, 0⟩) db).Stored
          proposed row.content chunks :=
        ⟨w.db, nowMs, _, rfl, rfl, List.mem_cons_self⟩
      refine ⟨fun e he => ?_, fun e => ?_, fun e i hi => ?_,
        fun e c chunks' hs => ?_, fun e c hc => ?_, ?_⟩
      · have hne : e ≠ proposed := by
          rintro rfl
          exact he List.mem_cons_self
        have hold := h.unknown e fun hmem => he (List.mem_cons_of_mem _ hmem)
        refine ⟨fun hin => ?_, fun hin => ?_, fun i hin => ?_⟩
        · exact ((hmem e).mp hin).elim hne hold.event
        · change e ∈ db.outbox at hin
          rw [outbox, AList.mem_insert] at hin
          exact hin.elim hne hold.outbox
        · have hlookup := payload e i
          rw [if_neg hne, AList.lookup_eq_none.mpr (hold.chunks i)] at hlookup
          exact AList.lookup_eq_none.mp hlookup hin
      · change e ∈ db.outbox ↔ e ∈ db.events
        rw [outbox, AList.mem_insert, hmem, h.outbox]
      · refine (hmem e).mpr ?_
        by_cases he : e = proposed
        · exact Or.inl he
        · refine Or.inr (h.chunks e i ?_)
          have hlookup := payload e i
          rw [if_neg he] at hlookup
          have hsome := AList.lookup_isSome.mpr hi
          change (db.payloadChunks.lookup (e, i)).isSome = true at hsome
          rw [hlookup] at hsome
          exact AList.lookup_isSome.mp hsome
      · rcases stored_ran.mp hs with ⟨nowMs', row', hid, hlegacy, heq⟩ | hs
        · obtain ⟨-, hcall, -⟩ := Record.executed.inj heq
          obtain ⟨rfl, rfl, rfl, hfp, hkey, -⟩ := D1Call.acceptBatch.inj hcall
          refine ⟨?_, fun i => ?_⟩
          · refine (hcontent proposed).trans ?_
            rw [if_pos rfl]
            cases c
            simp only at hlegacy hfp hkey
            subst hlegacy hfp hkey
            rfl
          · exact (payload proposed i).trans (if_pos rfl)
        · have hold := h.stored e c chunks' hs
          have hne : e ≠ proposed := by
            rintro rfl
            have hnone := hold.content
            exact hunknown.event (content_ne_none.mp (by rw [hnone]; simp))
          refine ⟨?_, fun i => ?_⟩
          · exact (hcontent e).trans ((if_neg hne).trans hold.content)
          · exact (payload e i).trans ((if_neg hne).trans (hold.chunks i))
      · change content db e = some c at hc
        rw [hcontent] at hc
        split at hc
        · next he =>
          subst he
          obtain rfl := Option.some.inj hc
          exact ⟨event, chunks, htype, hcut, hnew⟩
        · obtain ⟨event', chunks', htype', hcut', hs⟩ := h.origin e c hc
          exact ⟨event', chunks', htype', hcut', stored_ran.mpr (Or.inr hs)⟩
      · intro e e' c c' key hc hc' hkey hkey'
        have hfree : ∀ e c, content w.db e = some c →
            c.idempotencyKeyHash = some key → keyHash ≠ some key := by
          intro e c hc hkey hkeyed
          exact eventWithKey_none (free key hkeyed) hc hkey
        change content db e = some c at hc
        change content db e' = some c' at hc'
        rw [hcontent] at hc hc'
        split at hc <;> split at hc'
        · next he he' => rw [he, he']
        · obtain rfl := Option.some.inj hc
          exact absurd hkey (hfree e' c' hc' hkey')
        · obtain rfl := Option.some.inj hc'
          exact absurd hkey' (hfree e c hc hkey)
        · exact h.keys e e' c c' key hc hc' hkey hkey'

theorem statement (h : Shelved w) (hfresh : FreshProposals w (.d1 call))
    (hformed : Formed (.d1 call))
    (hrun : call.statement w.db = some (value, db)) :
    Shelved (w.ran call value db) := by
  by_cases hcall : ∃ proposed eventType chunks fingerprint keyHash nowMs,
      call = .acceptBatch proposed eventType chunks fingerprint keyHash nowMs
  · obtain ⟨proposed, eventType, chunks, fingerprint, keyHash, nowMs, rfl⟩ :=
      hcall
    obtain ⟨event, htype, hcut⟩ := hformed
    exact h.batch hfresh htype hcut hrun
  · have hother : ∀ proposed eventType chunks fingerprint keyHash nowMs,
        call ≠ .acceptBatch proposed eventType chunks fingerprint keyHash
          nowMs := by
      intro proposed eventType chunks fingerprint keyHash nowMs heq
      exact hcall ⟨_, _, _, _, _, _, heq⟩
    refine h.same (sameContent_statement hother hrun)
      (fun e he => mem_proposed_ran he) fun e c chunks => ?_
    rw [stored_ran]
    refine ⟨?_, Or.inr⟩
    rintro (⟨nowMs, row, -, -, heq⟩ | hs)
    · obtain ⟨-, heq, -⟩ := Record.executed.inj heq
      exact absurd heq (hother _ _ _ _ _ _)
    · exact hs

end Statement

/-- A step without a statement keeps the tables and stores no event. -/
theorem silent (h : Shelved w) (hdb : w'.db = w.db)
    (hproposed : w'.proposed = w.proposed)
    (hstored : ∀ e c chunks, w'.Stored e c chunks ↔ w.Stored e c chunks) :
    Shelved w' := by
  refine h.same ?_ (fun e he => hproposed ▸ he) hstored
  rw [hdb]
  exact .refl _

theorem exec {op : Op} {reply : op.Reply} (h : Shelved w)
    (hfresh : FreshProposals w op) (hformed : Formed op)
    (hexec : World.Exec w op reply w') : Shelved w' := by
  have hnot : ∀ record : Record,
      (∀ before call value, record ≠ .executed before call value) →
      ∀ (e : UUID) (c : EventContent) (chunks : List String),
        (∃ before nowMs row, row.eventId = e ∧ c.payloadJson = "" ∧
          .executed before (.acceptBatch e c.eventType chunks
            c.requestFingerprint c.idempotencyKeyHash nowMs) (some row) ∈
            record :: w.history) ↔ w.Stored e c chunks := by
    intro record hrecord e c chunks
    constructor
    · rintro ⟨before, nowMs, row, hid, hlegacy, hmem⟩
      rcases List.mem_cons.mp hmem with heq | hmem
      · exact absurd heq.symm (hrecord _ _ _)
      · exact ⟨before, nowMs, row, hid, hlegacy, hmem⟩
    · rintro ⟨before, nowMs, row, hid, hlegacy, hmem⟩
      exact ⟨before, nowMs, row, hid, hlegacy, List.mem_cons_of_mem _ hmem⟩
  cases hexec with
  | answered call value returned db run agrees =>
      exact h.statement hfresh hformed run
  | replyLost call value db run => exact h.statement hfresh hformed run
  | sendConfirmed eventId =>
      exact h.silent rfl rfl (hnot (.sent eventId) fun _ _ _ => nofun)
  | delivered record reply =>
      exact h.silent rfl rfl (hnot (.delivered record reply) fun _ _ _ => nofun)
  | sendUnconfirmed | failed | sendFailed | time | uuid4 | uniform | emit
  | ack | retry =>
      exact h.silent rfl rfl fun _ _ _ => Iff.rfl

end Shelved

section Runs

variable {R : World → (op : Op) → op.Reply → World → Prop}

/-- The backend in an environment narrowed by `R`, where every acceptance has
a fresh id and writes the chunks of an event. -/
abbrev FreshMachine (R : World → (op : Op) → op.Reply → World → Prop) :
    Machine Op Op.Reply :=
  (d1Machine.within R).restrict fun w op => FreshProposals w op ∧ Formed op

/-- A state of a run with fresh ids. -/
abbrev FreshReach (R : World → (op : Op) → op.Reply → World → Prop)
    (w : World) : Prop :=
  (FreshMachine R).Reach Service.anyCall w

theorem FreshReach.shelved (h : FreshReach R w) : Shelved w := by
  refine Machine.Reach.induction (P := Shelved) ?_ ?_ h
  · rintro w rfl
    exact .initial
  · rintro w op reply w' - hw - ⟨⟨hfresh, hformed⟩, hexec, -⟩
    exact hw.exec hfresh hformed hexec

theorem formed_body (request : Request) : request.body.CallsOnly Formed := by
  refine (callsOnly_body request).mono fun op hop => ?_
  have hother : ∀ op, NoBatch op → Formed op := by
    intro op hop
    cases op with
    | d1 call =>
        cases call with
        | acceptBatch => exact hop.elim
        | _ => trivial
    | _ => trivial
  rcases hop with hop | ⟨service, event, key, proposed, -, hop⟩
  · exact hother op hop
  · rcases hop with hplain | ⟨id, chunks, nowMs, hcut, rfl⟩
    · exact hother op hplain.noBatch
    · exact ⟨event, rfl, hcut⟩

/-- The requests in that environment. -/
abbrev freshService (maxima : ℕ → Prop)
    (R : World → (op : Op) → op.Reply → World → Prop) :
    Service (FreshMachine R) :=
  ((d1Service maxima).within R).restrict fun w op =>
    FreshProposals w op ∧ Formed op

/-- A run with fresh ids is a run of the service in that environment. -/
theorem reachable_fresh {maxima : ℕ → Prop}
    {cfg : ((d1Service maxima).within R).Config}
    (h : Service.Reachable FreshProposals cfg) :
    Service.Reachable (S := freshService maxima R) Service.anyCall
      ⟨cfg.state, cfg.threads⟩ :=
  (h.guarded fun _ request _ => formed_body request).1.restrict

end Runs

end Hooklane.Cloudflare
