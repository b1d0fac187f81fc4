import Hooklane.Queue.Discipline

/-!
# The messages that were accepted

Each committed enqueue is one acceptance: a new event and the fields of its
message.  No event is accepted twice, and every stream entry of an event
carries the fields of its acceptance, however often it was requeued.
-/

namespace Hooklane

open Redis Support

/-- The event that a call accepts, with its message. -/
def acceptance : (call : RedisCall) → Except String call.Value →
    Option (UUID × Fields)
  | .enqueue e eventType payload acceptedAt, result =>
      onOk result (some (e, messageFields e eventType payload acceptedAt))
  | .idempotentEnqueue e _ eventType payload _ acceptedAt, result =>
      (createdBy result e).map fun e =>
        (e, messageFields e eventType payload acceptedAt)
  | _, _ => none

/-- The acceptance that was committed in this step. -/
def Record.acceptance : Record → Option (UUID × Fields)
  | .executed _ call result => Hooklane.acceptance call result
  | .delivered _ _ => none

/-- All acceptances, in order. -/
def World.acceptances (w : World) : List (UUID × Fields) :=
  w.history.filterMap Record.acceptance

variable {lib : Stdlib} {group : String} {w : World} {L : Ledger} {e : UUID}
  {fields : Fields}

theorem acceptance_fst (call : RedisCall) (result : Except String call.Value) :
    (acceptance call result).map Prod.fst = accepted call result := by
  cases call with
  | enqueue e eventType payload acceptedAt => cases result <;> rfl
  | idempotentEnqueue e digest eventType payload fingerprint acceptedAt =>
      simp [acceptance, accepted, Function.comp_def]
  | _ => rfl

theorem acceptances_run (w : World) (call : RedisCall) (now : UInt64) :
    (w.run call now).acceptances =
      w.acceptances ++ (acceptance call (call.script now w.store).1).toList := by
  rw [World.acceptances, World.run, List.filterMap_append]
  rfl

@[simp]
theorem acceptances_deliver (w : World) (event : QueuedEvent)
    (reply : SinkReply) : (w.deliver event reply).acceptances = w.acceptances := by
  simp [World.acceptances, World.deliver, Record.acceptance]

theorem accepted_iff_acceptances :
    w.Accepted e ↔ e ∈ w.acceptances.map Prod.fst := by
  have hrecord : ∀ record : Record,
      record.acceptance.map Prod.fst = record.accepted := by
    intro record
    cases record with
    | executed before call result => exact acceptance_fst call result
    | delivered event reply => rfl
  rw [World.acceptances, List.map_filterMap, List.mem_filterMap]
  simp only [hrecord]
  rfl

section Step

variable {parses : Fields → Prop} {db : Store} {call : RedisCall}
  {now : UInt64}

/-- A call that accepts an event appends its message and writes its status
hash; the event was unknown before. -/
theorem acceptance_run (h : Represents parses group db L)
    (hacc : acceptance call (call.script now db).1 = some (e, fields)) :
    L e = none ∧ Carries fields e ∧ ∃ id st,
      (streamAt db .events).append now fields = some (id, st) ∧
      (call.script now db).2 .events = some (.stream st) ∧
      (call.script now db).2 (.event e.text) =
        some (.hash (initialHash e id)) := by
  cases call with
  | enqueue e' eventType payload acceptedAt =>
      rcases enqueue_run h e' now eventType payload acceptedAt with
        ⟨msg, hrun⟩ | ⟨hnone, id, st, happend, hrun⟩
      · simp [acceptance, RedisCall.script, hrun, onOk] at hacc
      · rw [RedisCall.script, hrun] at hacc ⊢
        obtain ⟨rfl, rfl⟩ := Prod.mk.inj (Option.some.inj hacc)
        exact ⟨hnone, carries_messageFields _ _ _ _, id, st, happend,
          by simp, by simp⟩
  | idempotentEnqueue e' digest eventType payload fingerprint acceptedAt =>
      by_cases hrecord : db (.idempotency digest) = none
      · rcases idempotentEnqueue_fresh h e' now digest eventType payload
          fingerprint acceptedAt hrecord with
          ⟨msg, hrun⟩ | ⟨hnone, id, st, happend, hrun⟩
        · simp [acceptance, RedisCall.script, hrun, createdBy] at hacc
        · rw [RedisCall.script, hrun] at hacc ⊢
          obtain ⟨rfl, rfl⟩ := Prod.mk.inj (Option.some.inj hacc)
          exact ⟨hnone, carries_messageFields _ _ _ _, id, st, happend,
            by simp, by simp⟩
      · obtain ⟨r, hrun, hr⟩ := idempotentEnqueue_existing h e' now digest
          eventType payload fingerprint acceptedAt hrecord
        simp [acceptance, RedisCall.script, hrun, hr] at hacc
  | _ => simp [acceptance] at hacc

end Step

/-- What holds of the acceptances in every run. -/
structure Original (w : World) : Prop where
  once : (w.acceptances.map Prod.fst).Nodup
  carries : ∀ e fields, (e, fields) ∈ w.acceptances → Carries fields e
  entry : ∀ e fields, (e, fields) ∈ w.acceptances →
    ∃ entry ∈ (streamAt w.store .events).entries, entry.fields = fields

theorem original_initial : Original World.initial := by
  constructor <;> simp [World.acceptances, World.initial]

theorem Original.deliver (h : Original w) (event : QueuedEvent)
    (reply : SinkReply) : Original (w.deliver event reply) := by
  refine ⟨?_, ?_, ?_⟩
  · rw [acceptances_deliver]
    exact h.once
  · rw [acceptances_deliver]
    exact h.carries
  · rw [acceptances_deliver]
    exact h.entry

theorem Original.run (h : Original w) (hL : Accounted lib group w L)
    {call : RedisCall} (hmay : May lib group w (.redis call)) (now : UInt64) :
    Original (w.run call now) := by
  obtain ⟨L', hmoves⟩ := moves_run hL.represents hmay now
  have hkept : ∀ e fields, (e, fields) ∈ w.acceptances →
      ∃ entry ∈ (streamAt (w.run call now).store .events).entries,
        entry.fields = fields := by
    intro e fields hmem
    obtain ⟨entry, hentry, hfields⟩ := h.entry e fields hmem
    exact ⟨entry, hmoves.grows.entries.subset hentry, hfields⟩
  cases hacc : acceptance call (call.script now w.store).1 with
  | none =>
      have hsame : (w.run call now).acceptances = w.acceptances := by
        rw [acceptances_run, hacc]
        exact List.append_nil _
      refine ⟨?_, ?_, ?_⟩
      · rw [hsame]
        exact h.once
      · rw [hsame]
        exact h.carries
      · rw [hsame]
        exact hkept
  | some p =>
      obtain ⟨e, fields⟩ := p
      obtain ⟨hnone, hcarries, id, st, happend, hevents, -⟩ :=
        acceptance_run hL.represents hacc
      have hmore : (w.run call now).acceptances =
          w.acceptances ++ [(e, fields)] := by
        rw [acceptances_run, hacc]
        rfl
      have hnew : e ∉ w.acceptances.map Prod.fst := by
        rw [← accepted_iff_acceptances, hL.accepted, hnone]
        simp
      refine ⟨?_, ?_, ?_⟩
      · rw [hmore, List.map_append, List.nodup_append]
        refine ⟨h.once, by simp, ?_⟩
        intro x hx y hy hxy
        obtain rfl : y = e := List.mem_singleton.mp hy
        exact hnew (hxy ▸ hx)
      · intro e' fields' hmem
        rw [hmore, List.mem_append, List.mem_singleton] at hmem
        rcases hmem with hold | hlast
        · exact h.carries e' fields' hold
        · obtain ⟨rfl, rfl⟩ := Prod.mk.inj hlast
          exact hcarries
      · intro e' fields' hmem
        rw [hmore, List.mem_append, List.mem_singleton] at hmem
        rcases hmem with hold | hlast
        · exact hkept e' fields' hold
        · obtain ⟨rfl, rfl⟩ := Prod.mk.inj hlast
          obtain ⟨-, hentries, -, -⟩ := Stream.append_eq_some happend
          have hst : streamAt (w.run call now).store .events = st :=
            streamAt_eq (Or.inr hevents)
          refine ⟨⟨id, fields'⟩, ?_, rfl⟩
          rw [hst, hentries]
          exact List.mem_append_right _ List.mem_cons_self

theorem reach_original {G : World → Op → Prop}
    (h : redisMachine.Reach (fun w op => May lib group w op ∧ G w op) w) :
    Original w := by
  refine reach_invariant (I := Original) (G := G) original_initial ?_ ?_ h
  · exact fun w event reply hw => hw.deliver event reply
  · exact fun w L call now hL hmay _ hw => hw.run hL hmay now

namespace Original

/-- The account of an accepted event keeps the message. -/
theorem account (h : Original w) (hL : Accounted lib group w L)
    (hacc : (e, fields) ∈ w.acceptances) :
    ∃ a, L e = some a ∧ a.fields = fields := by
  obtain ⟨entry, hentry, rfl⟩ := h.entry e fields hacc
  obtain ⟨a, ha, hfields, -⟩ := hL.represents.stream.account_of_entry hentry
    (h.carries e _ hacc)
  exact ⟨a, ha, hfields.symm⟩

/-- An event has one acceptance. -/
theorem unique (h : Original w) {fields' : Fields}
    (hacc : (e, fields) ∈ w.acceptances)
    (hacc' : (e, fields') ∈ w.acceptances) : fields = fields' := by
  have hpair := List.inj_on_of_nodup_map h.once hacc hacc' rfl
  exact (Prod.mk.inj hpair).2

/-- Every account stems from an acceptance. -/
theorem acceptance (h : Original w) (hL : Accounted lib group w L)
    {a : Account} (ha : L e = some a) : (e, a.fields) ∈ w.acceptances := by
  have hmem : e ∈ w.acceptances.map Prod.fst :=
    accepted_iff_acceptances.mp ((hL.accepted e).mpr ⟨a, ha⟩)
  obtain ⟨⟨e', fields⟩, hacc, rfl⟩ := List.mem_map.mp hmem
  obtain ⟨b, hb, hfields⟩ := h.account hL hacc
  rw [ha] at hb
  obtain rfl := Option.some.inj hb
  rw [hfields]
  exact hacc

/-- Every entry of the events stream carries the message of the event it
names. -/
theorem message (h : Original w) (hL : Accounted lib group w L)
    {entry : Entry} (hentry : entry ∈ (streamAt w.store .events).entries) :
    ∃ e, (e, entry.fields) ∈ w.acceptances := by
  obtain ⟨e, a, ha, hfields, -⟩ := hL.represents.stream.carried entry hentry
  rw [hfields]
  exact ⟨e, h.acceptance hL ha⟩

end Original

end Hooklane
