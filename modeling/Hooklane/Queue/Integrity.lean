import Hooklane.Domain.Numerals
import Hooklane.Domain.Reordering
import Hooklane.Queue.Acceptances
import Hooklane.Queue.Frames
import Mathlib.Data.List.TakeWhile

/-!
# Messages are never altered

The message of an accepted event is read back as it was written, the
dead-letter script copies it as a whole, and no worker ever finds one that it
cannot parse.
-/

namespace Hooklane

open Redis Script Support

variable {lib : Stdlib} {group : String} {w : World} {L : Ledger} {e : UUID}
  {fields : Fields}

section Reading

/-- The message of an event that was accepted for `event` at `acceptedAtMs`. -/
def eventMessage (e : UUID) (event : EventRequest) (acceptedAtMs : ℤ) : Fields :=
  messageFields e event.eventType event.payloadJson (toString acceptedAtMs)

/-- The workers read back what was accepted. -/
theorem parseMessage_eventMessage {event : EventRequest}
    (hlib : lib.ReadsBack (.obj event.payload)) (e : UUID) {acceptedAtMs : ℤ}
    (hbound : acceptedAtMs.natAbs < 10 ^ maxStrDigits) (m : String) :
    ∃ event' : EventRequest, event'.Same event ∧
      RedisEventStore.parseMessage lib m (eventMessage e event acceptedAtMs) =
        some ⟨m, e, event', acceptedAtMs⟩ := by
  obtain ⟨value, event', hloads, hvalidate, hsame⟩ :=
    EventRequest.validate_readsBack hlib
  refine ⟨event', hsame, ?_⟩
  have hnumber : pyInt 10 acceptedAtMs.repr.toList = some acceptedAtMs :=
    pyInt_toString hbound
  simp [RedisEventStore.parseMessage, RedisEventStore.parseNext,
    RedisEventStore.buildMessage, RedisEventStore.fieldOf, eventMessage,
    messageFields, lastFieldValue, fieldValue, hloads, hvalidate,
    UUID.parse_text, hnumber, Except.toOption]

end Reading

section DeadLetter

/-- The record that the dead-letter script writes for an event. -/
def deadLetterRecord (fields : Fields) (errorClass : String) (attempts : ℕ)
    (m : String) : Fields :=
  fields ++ [("error_class", errorClass), ("attempt_count", toString attempts),
    ("source_stream_id", m)]

variable {parses : Fields → Prop} {db : Store} {now : UInt64}

/-- The writes of the dead-letter script leave one record. -/
theorem deadLetterWrites_records {m errorClass attemptCount id : String}
    {st : Stream} (hst : HoldsStream (db .deadLetter) st)
    (hok : (deadLetterWrites now (.event e.text) e.text m group errorClass
      attemptCount fields db).1 = .ok id) :
    recordsAt (deadLetterWrites now (.event e.text) e.text m group errorClass
        attemptCount fields db).2 .deadLetter =
      recordsAt db .deadLetter ++ [fields ++ [("error_class", errorClass),
        ("attempt_count", attemptCount), ("source_stream_id", m)]] := by
  rcases xaddUnpacked_run hst now (fields ++ [("error_class", errorClass),
      ("attempt_count", attemptCount), ("source_stream_id", m)])
    with ⟨message, -, hfull⟩ | ⟨streamId, added, -, happend, hxadd⟩
  · rw [deadLetterWrites, Script.bind_error hfull] at hok
    cases hok
  · rw [← streamAt_eq hst] at happend
    rw [deadLetterWrites, Script.bind_ok hxadd]
    -- What follows the append does not touch the dead-letter stream.
    have hrest : Script.Writes (fun w => w.key ≠ Key.deadLetter) (do
        let acknowledged ← xack .events group m
        if acknowledged ≠ 1 then
          Script.fail "ERR dead-lettered stream message was not acknowledged"
        else
          hset (.event e.text)
            [("status", EventStatus.deadLetter.value),
              ("last_error_class", errorClass),
              ("dead_letter_stream_id", streamId.text)]
          zrem .retries e.text
          return streamId.text : StoreScript String) := by
      refine (writes_xack (by simp [Write.key])).bind fun _ =>
        writes_ite (writes_fail _) ?_
      exact (writes_hset (by simp) (by simp [Write.key])).bind fun _ =>
        (writes_zrem (by simp [Write.key])).bind fun _ =>
          writes_pure _
    have hkept := (hrest (Function.update db .deadLetter
      (some (.stream added)))).untouched fun _ hw => hw
    rw [recordsAt, streamAt, hkept, Function.update_self]
    have hadded : Function.update db .deadLetter (some (.stream added))
        .deadLetter = some (.stream added) := Function.update_self _ _ _
    have hrecords := recordsAt_append happend hadded
    rw [← hrecords, recordsAt, streamAt_update_self]

/-- The dead-letter script copies the message of its event and adds the number
of attempts, which is positive. -/
theorem moveToDeadLetter_recorded (h : Represents parses group db L)
    {m errorClass id : String}
    (hok : (moveToDeadLetterScript now e m group errorClass db).1 = .ok id) :
    ∃ a, L e = some a ∧ m = a.current.text ∧ 1 ≤ a.attempts ∧
      recordsAt (moveToDeadLetterScript now e m group errorClass db).2
          .deadLetter =
        recordsAt db .deadLetter ++
          [deadLetterRecord a.fields errorClass a.attempts m] := by
  cases ha : L e with
  | none =>
      simp [moveToDeadLetterScript, Script.bind_apply, typeOf,
        h.status.absent ha] at hok
  | some a =>
      rw [moveToDeadLetter_run h ha] at hok ⊢
      obtain ⟨f, hkey, hshow⟩ := h.status.hash e a ha
      by_cases hm : m = a.current.text
      swap
      · simp [moveDelivering, Script.bind_apply, hget_run hkey, hshow.streamId,
          Ne.symm hm] at hok
      subst hm
      by_cases hdelivering : a.status = .delivering
      swap
      · simp [moveDelivering, Script.bind_apply, hget_run hkey, hshow.streamId,
          hshow.status, value_ne hdelivering] at hok
      by_cases hcount : (luaNumber a.attempts.repr).elim true
          lessThanOne
      · simp [moveDelivering, Script.bind_apply, hget_run hkey, hshow.streamId,
          hshow.status, hshow.eventId, hshow.attempts, hdelivering, hcount]
          at hok
      have hpos : 1 ≤ a.attempts := by
        have hnumber : luaNumber a.attempts.repr = some (.finite a.attempts) :=
          luaNumber_natRepr a.attempts
        rw [hnumber, Option.elim_some] at hcount
        exact one_le_of_not_lessThanOne hcount
      have hrange := xrange_run (h.events_some ha) a.current
      have hfind := Stream.find_eq_some_of_mem (h.stream.current e a ha)
      have hcontent := (h.stream.content e a ha).2
      rcases xpending_cases (h.events_some ha) group a.current with
        hpend | hpend | ⟨g, hg, hpending, hpend⟩
      · simp [moveDelivering, Script.bind_apply, hget_run hkey, hshow.streamId,
          hshow.status, hshow.eventId, hshow.attempts, hdelivering, hcount,
          hpend] at hok
      · simp [moveDelivering, Script.bind_apply, hget_run hkey, hshow.streamId,
          hshow.status, hshow.eventId, hshow.attempts, hdelivering, hcount,
          hpend, hrange] at hok
      · have hrun : moveDelivering now (.event e.text) a.current.text group
            errorClass db =
            deadLetterWrites now (.event e.text) e.text a.current.text group
              errorClass a.attempts.repr a.fields db := by
          simp [moveDelivering, Script.bind_apply, hget_run hkey,
            hshow.streamId, hshow.status, hshow.eventId, hshow.attempts,
            hdelivering, hcount, hpend, hrange, hfind, hcontent]
        rw [hrun] at hok ⊢
        exact ⟨a, rfl, rfl, hpos, deadLetterWrites_records h.deadLetter hok⟩

end DeadLetter

section Invariant

/-- An enqueue is sent for a request that Python can build and whose payload
`json.loads` reads back. -/
def Op.Readable (lib : Stdlib) : Op → Prop
  | .redis (.enqueue _ eventType payload acceptedAt)
  | .redis (.idempotentEnqueue _ _ eventType payload _ acceptedAt) =>
      ∃ (event : EventRequest) (acceptedAtMs : ℤ), event.WellFormed ∧
        lib.ReadsBack (.obj event.payload) ∧ eventType = event.eventType ∧
        payload = event.payloadJson ∧ acceptedAt = toString acceptedAtMs ∧
        acceptedAtMs.natAbs < 10 ^ maxStrDigits
  | _ => True

/-- The message was accepted for a request that is read back. -/
def Intelligible (lib : Stdlib) (e : UUID) (fields : Fields) : Prop :=
  ∃ (event : EventRequest) (acceptedAtMs : ℤ), event.WellFormed ∧
    lib.ReadsBack (.obj event.payload) ∧
    fields = eventMessage e event acceptedAtMs ∧
    acceptedAtMs.natAbs < 10 ^ maxStrDigits

theorem Intelligible.parses (h : Intelligible lib e fields) :
    Parses lib fields := by
  obtain ⟨event, acceptedAtMs, -, hlib, rfl, hbound⟩ := h
  obtain ⟨event', -, hparse⟩ := parseMessage_eventMessage hlib e hbound ""
  exact parses_of_parseMessage hparse

/-- Every message is intelligible, the dead-letter stream holds copies of
messages, and the quarantine stream is empty. -/
structure Intact (lib : Stdlib) (w : World) : Prop where
  intelligible : ∀ e fields, (e, fields) ∈ w.acceptances →
    Intelligible lib e fields
  deadLetters : ∀ record ∈ recordsAt w.store .deadLetter,
    ∃ e fields errorClass attempts m, (e, fields) ∈ w.acceptances ∧
      1 ≤ attempts ∧ record = deadLetterRecord fields errorClass attempts m
  quarantine : recordsAt w.store .quarantine = []

theorem intact_initial : Intact lib World.initial := by
  constructor <;> simp [World.acceptances, World.initial, recordsAt, streamAt,
    Stream.empty]

theorem Intact.deliver (h : Intact lib w) (event : QueuedEvent)
    (reply : SinkReply) : Intact lib (w.deliver event reply) := by
  refine ⟨?_, ?_, h.quarantine⟩
  · rw [acceptances_deliver]
    exact h.intelligible
  · rw [acceptances_deliver]
    exact h.deadLetters

theorem intelligible_of_acceptance {call : RedisCall}
    {result : Except String call.Value}
    (hcall : Op.Readable lib (.redis call))
    (hacc : acceptance call result = some (e, fields)) :
    Intelligible lib e fields := by
  cases call with
  | enqueue e' eventType payload acceptedAt =>
      obtain ⟨event, acceptedAtMs, hevent, hlib, rfl, rfl, rfl, hbound⟩ := hcall
      cases result with
      | ok value =>
          obtain ⟨rfl, rfl⟩ := Prod.mk.inj (Option.some.inj hacc)
          exact ⟨event, acceptedAtMs, hevent, hlib, rfl, hbound⟩
      | error msg => simp [acceptance, onOk] at hacc
  | idempotentEnqueue e' digest eventType payload fingerprint acceptedAt =>
      obtain ⟨event, acceptedAtMs, hevent, hlib, rfl, rfl, rfl, hbound⟩ := hcall
      obtain ⟨e'', hcreated, hpair⟩ := Option.map_eq_some_iff.mp hacc
      obtain ⟨rfl, rfl⟩ := Prod.mk.inj hpair
      exact ⟨event, acceptedAtMs, hevent, hlib, rfl, hbound⟩
  | _ => simp [acceptance] at hacc

/-- The dead-letter stream after a call. -/
theorem deadLetters_run (h : Represents (Parses lib) group w.store L)
    (call : RedisCall) (now : UInt64)
    (hmay : May lib group w (.redis call)) :
    recordsAt (w.run call now).store .deadLetter =
        recordsAt w.store .deadLetter ∨
      ∃ e a errorClass m, L e = some a ∧ 1 ≤ a.attempts ∧
        recordsAt (w.run call now).store .deadLetter =
          recordsAt w.store .deadLetter ++
            [deadLetterRecord a.fields errorClass a.attempts m] := by
  obtain ⟨L', hmoves⟩ := moves_run h hmay now
  have heffect := hmoves.effect
  generalize accepted call (call.script now w.store).1 = acc at heffect
  generalize hfin : finished w.store call (call.script now w.store).1 = fin
    at heffect
  cases heffect with
  | silent same => exact Or.inl same.deadLetter
  | accept e id fields fresh same => exact Or.inl same.deadLetter
  | advance e a a' known move same => exact Or.inl same.deadLetter
  | finish e ending a a' known move recorded =>
      cases ending with
      | complete => exact Or.inl (SameRecords.deadLetter recorded)
      | quarantine => exact Or.inl recorded.1
      | deadLetter =>
          cases call with
          | moveToDeadLetter e' m g errorClass =>
              obtain rfl : g = group := hmay
              cases hresult : (RedisCall.script now
                  (.moveToDeadLetter e' m g errorClass) w.store).1 with
              | error msg => simp [hresult, finished, onOk] at hfin
              | ok id =>
                  obtain ⟨b, hb, -, hpos, hrecords⟩ :=
                    moveToDeadLetter_recorded h hresult
                  exact Or.inr ⟨e', b, errorClass, m, hb, hpos, hrecords⟩
          | completeDelivery e' m g =>
              cases hresult : (RedisCall.script now
                (.completeDelivery e' m g) w.store).1 <;>
                simp [hresult, finished, onOk] at hfin
          | quarantineMessage m g reason =>
              cases hresult : (RedisCall.script now
                (.quarantineMessage m g reason) w.store).1 <;>
                simp [hresult, finished, onOk] at hfin
          | _ => simp [finished] at hfin

theorem Intact.run (h : Intact lib w) (horiginal : Original w)
    (hL : Accounted lib group w L) {call : RedisCall}
    (hmay : May lib group w (.redis call))
    (hcall : Op.Readable lib (.redis call)) (now : UInt64) :
    Intact lib (w.run call now) := by
  have hmore := acceptances_run w call now
  refine ⟨?_, ?_, ?_⟩
  · intro e fields hacc
    rw [hmore, List.mem_append, Option.mem_toList] at hacc
    rcases hacc with hold | hnew
    · exact h.intelligible e fields hold
    · exact intelligible_of_acceptance hcall hnew
  · intro record hrecord
    have hold : record ∈ recordsAt w.store .deadLetter → ∃ e fields errorClass
        attempts m, (e, fields) ∈ (w.run call now).acceptances ∧
          1 ≤ attempts ∧
          record = deadLetterRecord fields errorClass attempts m := by
      intro hrecord
      obtain ⟨e, fields, errorClass, attempts, m, hacc, hrest⟩ :=
        h.deadLetters record hrecord
      refine ⟨e, fields, errorClass, attempts, m, ?_, hrest⟩
      rw [hmore]
      exact List.mem_append_left _ hacc
    rcases deadLetters_run hL.represents call now hmay with
      hsame | ⟨e, a, errorClass, m, ha, hpos, hrecords⟩
    · rw [hsame] at hrecord
      exact hold hrecord
    · rw [hrecords, List.mem_append, List.mem_singleton] at hrecord
      rcases hrecord with hrecord | rfl
      · exact hold hrecord
      · refine ⟨e, a.fields, errorClass, a.attempts, m, ?_, hpos, rfl⟩
        rw [hmore]
        exact List.mem_append_left _ (horiginal.acceptance hL ha)
  · obtain ⟨L', hmoves⟩ := moves_run hL.represents hmay now
    have heffect := hmoves.effect
    generalize accepted call (call.script now w.store).1 = acc at heffect
    generalize finished w.store call (call.script now w.store).1 = fin
      at heffect
    cases heffect with
    | silent same => exact same.quarantine.trans h.quarantine
    | accept e id fields fresh same => exact same.quarantine.trans h.quarantine
    | advance e a a' known move same =>
        exact same.quarantine.trans h.quarantine
    | finish e ending a a' known move recorded =>
        cases move with
        | complete _ pending parsed =>
            exact (SameRecords.quarantine recorded).trans h.quarantine
        | deadLetter _ pending delivering =>
            exact recorded.1.trans h.quarantine
        | quarantine _ pending unknown =>
            -- The workers can parse every message that was accepted.
            have hintelligible :=
              h.intelligible e a.fields (horiginal.acceptance hL known)
            exact absurd hintelligible.parses unknown

theorem reach_intact
    (h : redisMachine.Reach
      (fun w op => May lib group w op ∧ op.Readable lib) w) : Intact lib w := by
  have hboth : Original w ∧ Intact lib w := by
    refine reach_invariant (G := fun _ op => op.Readable lib)
      (I := fun w => Original w ∧ Intact lib w) ?_ ?_ ?_ h
    · exact ⟨original_initial, intact_initial⟩
    · rintro w event reply ⟨horiginal, hintact⟩
      exact ⟨horiginal.deliver event reply, hintact.deliver event reply⟩
    · rintro w L call now hL hmay hcall ⟨horiginal, hintact⟩
      exact ⟨horiginal.run hL hmay now,
        hintact.run horiginal hL hmay hcall now⟩
  exact hboth.2

end Invariant

end Hooklane
