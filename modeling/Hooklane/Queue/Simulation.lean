import Hooklane.Queue.System

/-!
# Every permitted call is simulated by the ledger

`May` is the discipline that the programs keep: a worker only acts for a
message that was handed out and that parses, it only completes an event that
the sink accepted, and it only schedules a retry after a delivery was started.
Under this discipline each script moves the ledger by one effect.
-/

namespace Hooklane

open Redis Support

variable {lib : Stdlib} {group : String} {db db' : Store} {L : Ledger}
  {e : UUID} {m : String}

/-- A worker of the group holds the message `m` of event `e`, or has held
it. -/
def Held (lib : Stdlib) (group : String) (db : Store) (e : UUID)
    (m : String) : Prop :=
  ∃ fields queuedEvent, HandedOut group db m fields ∧
    RedisEventStore.parseMessage lib m fields = some queuedEvent ∧
    queuedEvent.eventId = e

/-- The message `m` was handed out and does not parse. -/
def Malformed (lib : Stdlib) (group : String) (db : Store) (m : String) :
    Prop :=
  ∃ fields, HandedOut group db m fields ∧
    RedisEventStore.parseMessage lib m fields = none

/-- A field of the status hash of an event. -/
def statusField (db : Store) (e : UUID) (field : String) : Option String :=
  match db (.event e.text) with
  | some (.hash h) => h.lookup field
  | _ => none

/-- The message with a given id is pending in the group. -/
def isPending (group : String) (db : Store) (m : String) : Bool :=
  (StreamId.parse m).any fun id =>
    decide ((streamAt db .events).custody group id = .pending)

/-- The call acts for a message that is no longer pending although the status
hash still names it. -/
def Late (group : String) (db : Store) : RedisCall → Prop
  | .startDelivery e m | .scheduleRetry e m _ _ =>
      statusField db e "stream_id" = some m ∧ isPending group db m = false
  | _ => False

instance (group : String) (db : Store) :
    DecidablePred (Late group db) := fun call =>
  match call with
  | .startDelivery _ _ | .scheduleRetry _ _ _ _ => instDecidableAnd
  | .xgroupCreate _ | .enqueue _ _ _ _ | .idempotentEnqueue _ _ _ _ _ _
  | .hgetall _ | .xreadgroup _ _ | .claimStalePending _ _ _ | .xrange _
  | .completeDelivery _ _ _ | .releaseDueRetry _ _ | .quarantineMessage _ _ _
  | .moveToDeadLetter _ _ _ _ | .existsStream | .xinfoGroups | .xlen
  | .xrangeFirst | .xpendingFirst _ | .xrangeAfter _ => instDecidableFalse

/-- The discipline of the API and the workers. -/
def May (lib : Stdlib) (group : String) (w : World) : Op → Prop
  | .redis (.xgroupCreate g) => g = group
  | .redis (.xreadgroup g _) => g = group
  | .redis (.claimStalePending g _ _) => g = group
  | .redis (.releaseDueRetry g _) => g = group
  | .redis (.startDelivery e m) => Held lib group w.store e m
  | .redis (.completeDelivery e m g) =>
      g = group ∧ Held lib group w.store e m ∧ w.Succeeded e
  | .redis (.scheduleRetry e m _ _) =>
      Held lib group w.store e m ∧ Started w.store e
  | .redis (.moveToDeadLetter _ _ g _) => g = group
  | .redis (.quarantineMessage m g _) =>
      g = group ∧ Malformed lib group w.store m
  | _ => True

section Parsing

theorem bind_eq_ok {α β : Type} {x : Except ParseError α}
    {f : α → Except ParseError β} {b : β} (h : x >>= f = .ok b) :
    ∃ a, x = .ok a ∧ f a = .ok b := by
  cases x with
  | ok a => exact ⟨a, rfl, h⟩
  | error error => cases h

theorem orMalformed_eq_ok {α : Type} {x : Option α} {a : α}
    (h : orMalformed x = .ok a) : x = some a := by
  cases x with
  | some b => rw [Except.ok.inj h]
  | none => cases h

theorem fieldOf_eq_ok {fields : Fields} {name text : String}
    (h : RedisEventStore.fieldOf fields name = .ok text) :
    lastFieldValue fields name = some text := by
  rw [RedisEventStore.fieldOf] at h
  cases hfield : lastFieldValue fields name with
  | some value => rw [hfield] at h; exact congrArg some (Except.ok.inj h)
  | none => rw [hfield] at h; cases h

/-- The id of the message only goes into the result. -/
theorem parseMessage_eq (m : String) (fields : Fields) :
    RedisEventStore.parseMessage lib m fields =
      (RedisEventStore.parseMessage lib "" fields).map
        fun queuedEvent => { queuedEvent with streamId := m } := by
  have hnext : RedisEventStore.parseNext lib m fields =
      (fun queuedEvent : QueuedEvent => { queuedEvent with streamId := m }) <$>
        RedisEventStore.parseNext lib "" fields := by
    simp [RedisEventStore.parseNext, RedisEventStore.buildMessage, map_bind]
  rw [RedisEventStore.parseMessage, hnext, RedisEventStore.parseMessage]
  cases RedisEventStore.parseNext lib "" fields <;> rfl

theorem parses_of_parseMessage {fields : Fields} {queuedEvent : QueuedEvent}
    (h : RedisEventStore.parseMessage lib m fields = some queuedEvent) :
    Parses lib fields := by
  rw [parseMessage_eq] at h
  rw [Parses]
  cases hparse : RedisEventStore.parseMessage lib "" fields with
  | none => simp [hparse] at h
  | some _ => rfl

theorem not_parses_of_parseMessage {fields : Fields}
    (h : RedisEventStore.parseMessage lib m fields = none) :
    ¬Parses lib fields := by
  rw [parseMessage_eq, Option.map_eq_none_iff] at h
  simp [Parses, h]

theorem parseMessage_spec {fields : Fields} {queuedEvent : QueuedEvent}
    (h : RedisEventStore.parseMessage lib m fields = some queuedEvent) :
    queuedEvent.streamId = m ∧ ∃ text,
      lastFieldValue fields "event_id" = some text ∧
      UUID.parse text = some queuedEvent.eventId := by
  have hnext : RedisEventStore.parseNext lib m fields = .ok queuedEvent := by
    rw [RedisEventStore.parseMessage] at h
    cases hparse : RedisEventStore.parseNext lib m fields with
    | ok other => rw [hparse] at h; exact congrArg _ (Option.some.inj h)
    | error error => rw [hparse] at h; cases h
  obtain ⟨_, _, hnext⟩ := bind_eq_ok hnext
  obtain ⟨_, _, hnext⟩ := bind_eq_ok hnext
  obtain ⟨_, _, hnext⟩ := bind_eq_ok hnext
  obtain ⟨_, _, hnext⟩ := bind_eq_ok hnext
  obtain ⟨text, htext, hnext⟩ := bind_eq_ok hnext
  obtain ⟨eventId, hid, hnext⟩ := bind_eq_ok hnext
  obtain ⟨_, _, hnext⟩ := bind_eq_ok hnext
  obtain ⟨_, _, hnext⟩ := bind_eq_ok hnext
  obtain rfl := Except.ok.inj hnext
  exact ⟨rfl, text, fieldOf_eq_ok htext, orMalformed_eq_ok hid⟩

end Parsing

section Held

/-- What a held message says about the account of its event. -/
theorem Held.account (hheld : Held lib group db e m)
    (h : Represents (Parses lib) group db L) :
    ∃ a, L e = some a ∧ Parses lib a.fields ∧
      (m = a.current.text → a.custody ≠ .unread) := by
  obtain ⟨fields, queuedEvent, ⟨entry, hentry, rfl, rfl, hcustody⟩, hparse,
    rfl⟩ := hheld
  obtain ⟨e', a, ha, hfields, -⟩ := h.stream.carried entry hentry
  obtain ⟨-, text, htext, hid⟩ := parseMessage_spec hparse
  have he : e' = queuedEvent.eventId := by
    rw [hfields, (h.stream.content e' a ha).2, Option.some.injEq] at htext
    rw [← htext, UUID.parse_text, Option.some.injEq] at hid
    exact hid
  subst he
  refine ⟨a, ha, hfields ▸ parses_of_parseMessage hparse, ?_⟩
  intro hm
  rw [← h.stream.custody _ a ha, ← StreamId.text_injective hm]
  exact hcustody

theorem HandedOut.grows {fields : Fields} (hout : HandedOut group db m fields)
    (hgrows : Stream.Grows group (streamAt db .events)
      (streamAt db' .events)) :
    HandedOut group db' m fields := by
  obtain ⟨entry, hentry, hid, hfields, hcustody⟩ := hout
  exact ⟨entry, hgrows.entries.subset hentry, hid, hfields,
    hgrows.held entry hentry hcustody⟩

theorem Held.grows (hheld : Held lib group db e m)
    (hgrows : Stream.Grows group (streamAt db .events)
      (streamAt db' .events)) :
    Held lib group db' e m := by
  obtain ⟨fields, queuedEvent, hout, hparse, he⟩ := hheld
  exact ⟨fields, queuedEvent, hout.grows hgrows, hparse, he⟩

theorem Malformed.grows (hbad : Malformed lib group db m)
    (hgrows : Stream.Grows group (streamAt db .events)
      (streamAt db' .events)) :
    Malformed lib group db' m := by
  obtain ⟨fields, hout, hparse⟩ := hbad
  exact ⟨fields, hout.grows hgrows, hparse⟩

theorem started_iff (h : Represents (Parses lib) group db L) {a : Account}
    (ha : L e = some a) : Started db e ↔ 1 ≤ a.attempts := by
  obtain ⟨f, hkey, hshow⟩ := h.status.hash e a ha
  constructor
  · rintro ⟨f', n, hkey', hn, hpos⟩
    rw [hkey] at hkey'
    obtain rfl : f = f' := by simpa using hkey'
    rw [hshow.attempts, Option.some.injEq] at hn
    have hvalue := congrArg decimalValue hn
    rw [decimalValue_natRepr, decimalValue_natRepr, Option.some.injEq] at hvalue
    rw [hvalue]
    exact hpos
  · exact fun hpos => ⟨f, a.attempts, hkey, hshow.attempts, hpos⟩

end Held

section Calls

variable {w : World}

/-- The status hash of an event with an account. -/
theorem statusField_eq (h : Represents (Parses lib) group db L) {a : Account}
    (ha : L e = some a) :
    statusField db e "status" = some a.status.value ∧
    statusField db e "attempt_count" = some (toString a.attempts) ∧
    statusField db e "stream_id" = some a.current.text := by
  obtain ⟨f, hkey, hshow⟩ := h.status.hash e a ha
  simp only [statusField, hkey]
  exact ⟨hshow.status, hshow.attempts, hshow.streamId⟩

theorem isPending_text (group : String) (db : Store) (id : StreamId) :
    isPending group db id.text =
      decide ((streamAt db .events).custody group id = .pending) := by
  simp [isPending]

/-- A worker is late when the copy named by the status hash was
acknowledged. -/
theorem late_of_acknowledged (h : Represents (Parses lib) group db L)
    {a : Account} (ha : L e = some a) (hm : m = a.current.text)
    (hacked : a.custody = .acknowledged) :
    statusField db e "stream_id" = some m ∧ isPending group db m = false := by
  subst hm
  refine ⟨(statusField_eq h ha).2.2, ?_⟩
  rw [isPending_text, h.stream.custody e a ha, hacked]
  rfl

theorem simulated_of_readOnly {α : Type} {script : StoreScript α} {late : Prop}
    (h : Represents (Parses lib) group db L) (hread : script.ReadOnly) :
    Simulated (Parses lib) group late db (script db).2 L none none := by
  rw [hread db]
  exact simulated_same h

/-- A permitted call moves the ledger by one effect. -/
theorem call_simulated (h : Represents (Parses lib) group w.store L)
    (call : RedisCall) (hmay : May lib group w (.redis call)) (now : UInt64) :
    Simulated (Parses lib) group (Late group w.store call) w.store
      (call.script now w.store).2 L
      (accepted call (call.script now w.store).1)
      (finished w.store call (call.script now w.store).1) := by
  cases call with
  | xgroupCreate g =>
      obtain rfl : g = group := hmay
      exact xgroupCreate_simulated h
  | enqueue e eventType payload acceptedAt =>
      exact enqueue_simulated h e now eventType payload acceptedAt
  | idempotentEnqueue e digest eventType payload fingerprint acceptedAt =>
      exact idempotentEnqueue_simulated h e now digest eventType payload
        fingerprint acceptedAt
  | hgetall e => exact simulated_of_readOnly h (readOnly_hgetall _)
  | xreadgroup g consumer =>
      obtain rfl : g = group := hmay
      exact (xreadgroup_simulated _ h now consumer).1
  | claimStalePending g consumer minIdle =>
      obtain rfl : g = group := hmay
      exact (claimStalePending_simulated _ h now consumer minIdle).1
  | xrange m => exact simulated_of_readOnly h (readOnly_xrange _ m)
  | startDelivery e m =>
      obtain ⟨a, ha, hparses, hheld⟩ := Held.account hmay h
      exact (startDelivery_simulated h ha hparses hheld
        fun hm hacked => late_of_acknowledged h ha hm hacked).1
  | completeDelivery e m g =>
      obtain ⟨rfl, hheld, -⟩ := hmay
      obtain ⟨a, ha, hparses, -⟩ := hheld.account h
      exact completeDelivery_simulated h ha hparses m
  | scheduleRetry e m errorClass dueAtMs =>
      obtain ⟨hheld, hstarted⟩ := hmay
      obtain ⟨a, ha, hparses, hcustody⟩ := hheld.account h
      exact scheduleRetry_simulated h ha hparses hcustody
        (fun hm hacked => late_of_acknowledged h ha hm hacked)
        ((started_iff h ha).mp hstarted) errorClass dueAtMs
  | releaseDueRetry g nowMs =>
      obtain rfl : g = group := hmay
      exact releaseDueRetry_simulated h now nowMs
  | quarantineMessage m g reason =>
      obtain ⟨rfl, fields, ⟨entry, hentry, rfl, rfl, -⟩, hparse⟩ := hmay
      exact quarantineMessage_simulated h hentry
        (not_parses_of_parseMessage hparse) now reason
  | moveToDeadLetter e m g errorClass =>
      obtain rfl : g = group := hmay
      exact moveToDeadLetter_simulated h e now m errorClass
  | existsStream => exact simulated_same h
  | xinfoGroups => exact simulated_of_readOnly h (readOnly_xinfoGroups _)
  | xlen => exact simulated_of_readOnly h (readOnly_xlen _)
  | xrangeFirst => exact simulated_of_readOnly h (readOnly_xrangeFirst _)
  | xpendingFirst g =>
      exact simulated_of_readOnly h (readOnly_xpendingFirst _ g)
  | xrangeAfter m => exact simulated_of_readOnly h (readOnly_xrangeAfter _ m)

end Calls

end Hooklane
