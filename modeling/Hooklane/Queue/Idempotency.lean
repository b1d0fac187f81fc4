import Hooklane.Queue.Acceptances
import Hooklane.Queue.Frames
import Hooklane.Queue.Origins
import Hooklane.Support.Narrowing
import Hooklane.Support.Outcome

/-!
# What an Idempotency-Key stands for

The answers of the idempotent enqueue script under one key form a list: the
first one creates an event, and every later one names that event and compares
its own fingerprint with the recorded one.
-/

namespace Hooklane

open Redis Support

/-- An answer of the idempotent enqueue script, with its arguments. -/
structure KeyAnswer where
  decision : Decision
  storedId : String
  eventId : UUID
  eventType : String
  payload : String
  fingerprint : String
  acceptedAt : String

/-- The answer of a call under a key. -/
def keyAnswer (digest : String) : (call : RedisCall) →
    Except String call.Value → Option KeyAnswer
  | .idempotentEnqueue eventId keyDigest eventType payload fingerprint
      acceptedAt, result =>
      match result with
      | .ok (decision, storedId) =>
          if keyDigest = digest then
            some { decision, storedId, eventId, eventType, payload, fingerprint,
                   acceptedAt }
          else none
      | .error _ => none
  | _, _ => none

/-- The answer under a key in this step, also when its reply was lost. -/
def Record.keyAnswer (digest : String) : Record → Option KeyAnswer
  | .executed _ call result => Hooklane.keyAnswer digest call result
  | .delivered _ _ => none

/-- All answers under a key, in order. -/
def World.keyAnswers (w : World) (digest : String) : List KeyAnswer :=
  w.history.filterMap (Record.keyAnswer digest)

/-- The idempotency record of a created event. -/
def keyRecord (e : UUID) (fingerprint : String) : Hash :=
  Hash.setAll ∅ [("event_id", e.text), ("fingerprint", fingerprint)]

/-- The answers under a key and the record under it. -/
inductive Decided (db : Store) (digest : String) : List KeyAnswer → Prop where
  | unused (absent : db (.idempotency digest) = none) : Decided db digest []
  | used (first : KeyAnswer) (later : List KeyAnswer)
      (record : db (.idempotency digest) =
        some (.hash (keyRecord first.eventId first.fingerprint)))
      (created : first.decision = .created)
      (stored : first.storedId = first.eventId.text)
      (repeated : ∀ a ∈ later, a.storedId = first.storedId ∧
        a.decision = if first.fingerprint = a.fingerprint then .reused
          else .conflict) :
      Decided db digest (first :: later)

variable {lib : Stdlib} {group : String} {w w' : World} {L : Ledger}
  {e : UUID} {digest : String}

theorem keyAnswers_run (w : World) (call : RedisCall) (now : UInt64)
    (digest : String) :
    (w.run call now).keyAnswers digest = w.keyAnswers digest ++
      (keyAnswer digest call (call.script now w.store).1).toList := by
  rw [World.keyAnswers, World.run, List.filterMap_append]
  rfl

@[simp]
theorem keyAnswers_deliver (w : World) (event : QueuedEvent) (reply : SinkReply)
    (digest : String) :
    (w.deliver event reply).keyAnswers digest = w.keyAnswers digest := by
  simp [World.keyAnswers, World.deliver, Record.keyAnswer]

section Script

variable {parses : Fields → Prop} {db : Store}

@[simp]
theorem keyRecord_fingerprint (e : UUID) (fingerprint : String) :
    (keyRecord e fingerprint).lookup "fingerprint" = some fingerprint := by
  rw [keyRecord, setAll_cons, setAll_cons, setAll_nil, AList.lookup_insert]

@[simp]
theorem keyRecord_eventId (e : UUID) (fingerprint : String) :
    (keyRecord e fingerprint).lookup "event_id" = some e.text := by
  rw [keyRecord, setAll_cons, setAll_cons, setAll_nil,
    AList.lookup_insert_ne (by simp), AList.lookup_insert]

/-- Under a known key the script compares the fingerprints and writes
nothing. -/
theorem idempotentEnqueue_known (h : Represents parses group db L)
    {fingerprint : String}
    (hrecord : db (.idempotency digest) =
      some (.hash (keyRecord e fingerprint)))
    (e' : UUID) (now : UInt64)
    (eventType payload fingerprint' acceptedAt : String) :
    idempotentEnqueueScript now e' digest eventType payload fingerprint'
        acceptedAt db =
      (.ok (if fingerprint = fingerprint' then .reused else .conflict, e.text),
        db) := by
  obtain ⟨k, hk⟩ : ∃ k, typeOf (.event e'.text) db = (.ok k, db) := ⟨_, rfl⟩
  rcases holdsStream_typeOf h.events with htype | htype <;>
    by_cases hsame : fingerprint = fingerprint' <;>
      simp [idempotentEnqueueScript, Script.bind_apply, htype, hk,
        typeOf_run _ hrecord, Value.kind, hget_run hrecord, hsame]

/-- Only the idempotent enqueue under a key writes the record of the key. -/
theorem keyRecord_kept (db : Store) (call : RedisCall) (now : UInt64)
    (hcall : ∀ e eventType payload fingerprint acceptedAt, call ≠
      .idempotentEnqueue e digest eventType payload fingerprint acceptedAt) :
    (call.script now db).2 (.idempotency digest) =
      db (.idempotency digest) := by
  refine key_kept fun write hwrite hkey => ?_
  cases call with
  | idempotentEnqueue e' digest' eventType payload fingerprint acceptedAt =>
      rcases hwrite with rfl | ⟨_, _, rfl, -⟩ | ⟨_, _, rfl⟩
      · simp [Write.key] at hkey
      · simp [Write.key] at hkey
      · obtain rfl : digest' = digest := by simpa [Write.key] using hkey
        exact hcall _ _ _ _ _ rfl
  | _ =>
      cases write <;> obtain rfl := hkey <;> simp [RedisCall.MayWrite] at hwrite

theorem keyAnswer_none (call : RedisCall) (result : Except String call.Value)
    (hcall : ∀ e eventType payload fingerprint acceptedAt, call ≠
      .idempotentEnqueue e digest eventType payload fingerprint acceptedAt) :
    keyAnswer digest call result = none := by
  cases call with
  | idempotentEnqueue e' digest' eventType payload fingerprint acceptedAt =>
      have hne : digest' ≠ digest := by
        rintro rfl
        exact hcall _ _ _ _ _ rfl
      cases result with
      | ok value => simp [keyAnswer, hne]
      | error msg => rfl
  | _ => rfl

theorem call_of_keyAnswer {call : RedisCall}
    {result : Except String call.Value} {a : KeyAnswer}
    (h : keyAnswer digest call result = some a) :
    call = .idempotentEnqueue a.eventId digest a.eventType a.payload
      a.fingerprint a.acceptedAt := by
  cases call with
  | idempotentEnqueue e digest' eventType payload fingerprint acceptedAt =>
      cases result with
      | ok value =>
          simp only [keyAnswer, Option.ite_none_right_eq_some,
            Option.some.injEq] at h
          obtain ⟨rfl, rfl⟩ := h
          rfl
      | error msg => simp [keyAnswer] at h
  | _ => simp [keyAnswer] at h

/-- One call keeps what a key stands for. -/
theorem Decided.run {answers : List KeyAnswer}
    (h : Decided db digest answers) (hrep : Represents parses group db L)
    (call : RedisCall) (now : UInt64) :
    Decided (call.script now db).2 digest
      (answers ++ (keyAnswer digest call (call.script now db).1).toList) := by
  by_cases hcall : ∀ e eventType payload fingerprint acceptedAt, call ≠
      .idempotentEnqueue e digest eventType payload fingerprint acceptedAt
  · have hkept := keyRecord_kept db call now hcall
    rw [keyAnswer_none call _ hcall, Option.toList_none, List.append_nil]
    cases h with
    | unused absent => exact .unused (hkept.trans absent)
    | used first later record created stored repeated =>
        exact .used first later (hkept.trans record) created stored repeated
  push Not at hcall
  obtain ⟨e, eventType, payload, fingerprint, acceptedAt, rfl⟩ := hcall
  cases h with
  | unused absent =>
      rcases idempotentEnqueue_fresh hrep e now digest eventType payload
        fingerprint acceptedAt absent with
        ⟨msg, hrun⟩ | ⟨-, id, st, -, hrun⟩
      · rw [RedisCall.script, hrun]
        exact .unused absent
      · rw [RedisCall.script, hrun, List.nil_append, keyAnswer]
        simp only [if_true, Option.toList_some]
        exact .used _ _ (Function.update_self _ _ _) rfl rfl (by simp)
  | used first later record created stored repeated =>
      rw [RedisCall.script, idempotentEnqueue_known hrep record, keyAnswer]
      simp only [if_true, Option.toList_some, List.cons_append]
      refine .used first _ record created stored fun a ha => ?_
      rw [List.mem_append, List.mem_singleton] at ha
      rcases ha with ha | rfl
      · exact repeated a ha
      · exact ⟨stored.symm, rfl⟩

end Script

/-- In every run each key stands for one event at most. -/
theorem reach_decided {G : World → Op → Prop}
    (h : redisMachine.Reach (fun w op => May lib group w op ∧ G w op) w)
    (digest : String) : Decided w.store digest (w.keyAnswers digest) := by
  refine reach_invariant (G := G)
    (I := fun w => Decided w.store digest (w.keyAnswers digest)) ?_ ?_ ?_ h
  · exact .unused rfl
  · intro w event reply hw
    rw [keyAnswers_deliver]
    exact hw
  · intro w L call now hL _ _ hw
    rw [keyAnswers_run]
    exact hw.run hL.represents call now

/-- A created answer is an acceptance. -/
theorem acceptance_of_created {a : KeyAnswer}
    (ha : a ∈ w.keyAnswers digest) (hcreated : a.decision = .created) :
    (a.eventId, messageFields a.eventId a.eventType a.payload a.acceptedAt) ∈
      w.acceptances := by
  obtain ⟨record, hrecord, hanswer⟩ := List.mem_filterMap.mp ha
  refine List.mem_filterMap.mpr ⟨record, hrecord, ?_⟩
  cases record with
  | delivered event reply => simp [Record.keyAnswer] at hanswer
  | executed before call result =>
      obtain rfl := call_of_keyAnswer hanswer
      cases result with
      | error msg => simp [Record.keyAnswer, keyAnswer] at hanswer
      | ok value =>
          obtain ⟨decision, storedId⟩ := value
          have hdecision : decision = a.decision := by
            simp only [Record.keyAnswer, keyAnswer, if_true,
              Option.some.injEq] at hanswer
            rw [← hanswer]
          rw [hcreated] at hdecision
          subst hdecision
          rfl

end Hooklane
