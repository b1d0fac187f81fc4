import Hooklane.Cloudflare.Effects
import Hooklane.Support.Interleaving

/-!
# The store keeps the journals

`May` is the discipline that the programs keep: a delivery service claims and
gives up under its own bound, it settles only under a token that was issued to
it, `delivered` follows a success of the sink, an outbox row is dispatched
after a confirmed send, and a message is acknowledged when its event is
finished.  Under this discipline the rows of `events` stand where the journals
say, and the outbox and the queue keep a reference to every open event.
-/

namespace Hooklane.Cloudflare

open Support

variable {maxima : ℕ → Prop} {w w' : World} {db : Database} {e : UUID}

/-- The bounds that delivery services work under. -/
def Bound (maxima : ℕ → Prop) (m : ℕ) : Prop :=
  maxima m ∧ 1 ≤ m

/-- The discipline of the services and handlers. -/
def May (maxima : ℕ → Prop) (w : World) : Op → Prop
  | .d1 (.claimDelivery _ _ _ _ m) => Bound maxima m
  | .d1 (.deadLetterExhausted _ _ m) => Bound maxima m
  | .d1 (.updateTerminal e status _ _ token) =>
      Granted (Bound maxima) (w.journal e) status token ∧
        (status = .delivered → w.Succeeded e)
  | .d1 (.markDispatched e _ _) => w.Sent e
  | .ack message =>
      ∃ e : UUID, w.messages[message]? = some e.text ∧ w.Finished e
  | _ => True

/-- Where an event stands according to its row. -/
def World.lifecycle (w : World) (e : UUID) : Option Lifecycle :=
  (w.db.events.lookup e).map EventRow.lifecycle

theorem World.finished_iff :
    w.Finished e ↔ ∃ l, w.lifecycle e = some l ∧ l.status.Terminal := by
  constructor
  · rintro ⟨row, hrow, hterminal⟩
    exact ⟨row.lifecycle, by rw [World.lifecycle, hrow, Option.map_some],
      hterminal⟩
  · rintro ⟨l, hl, hterminal⟩
    obtain ⟨row, hrow, rfl⟩ := Option.map_eq_some_iff.mp hl
    exact ⟨row, hrow, hterminal⟩

/-- The journals of a configuration are well formed and lead where the rows
say. -/
def Journaled (maxima : ℕ → Prop) (w : World) : Prop :=
  ∀ e, Journal (Bound maxima) (w.journal e) (w.lifecycle e)

section Histories

variable {call : D1Call} {value : call.Value}

theorem journal_ran_none (h : call.entry w.db value = none) :
    (w.ran call value db).journal e = w.journal e := by
  simp [World.journal, World.ran, Record.entry, h]

theorem journal_ran {eventId : UUID} {entry : Entry}
    (h : call.entry w.db value = some (eventId, entry)) :
    (w.ran call value db).journal e =
      if e = eventId then entry :: w.journal e else w.journal e := by
  by_cases he : eventId = e
  · subst he
    simp [World.journal, World.ran, Record.entry, h]
  · simp [World.journal, World.ran, Record.entry, h, he, Ne.symm he]

theorem lifecycle_ran {eventId : UUID} {row : EventRow}
    (h : db.events = w.db.events.insert eventId row) :
    (w.ran call value db).lifecycle e =
      if e = eventId then some row.lifecycle else w.lifecycle e := by
  by_cases he : e = eventId
  · subst he
    simp [World.lifecycle, World.ran, h]
  · simp [World.lifecycle, World.ran, h, he, AList.lookup_insert_ne he]

/-- A call adds at most one record, at the front. -/
theorem exec_record {op : Op} {reply : op.Reply}
    (h : World.Exec w op reply w') :
    w'.history = w.history ∨ ∃ record, w'.history = record :: w.history := by
  cases h with
  | answered | replyLost => exact .inr ⟨_, rfl⟩
  | sendConfirmed | delivered => exact .inr ⟨_, rfl⟩
  | failed | sendUnconfirmed | sendFailed | time | uuid4 | uniform | emit
  | ack | retry => exact .inl rfl

/-- Entries are only added, and at the front. -/
theorem exec_history {op : Op} {reply : op.Reply}
    (h : World.Exec w op reply w') : w.history <:+ w'.history := by
  obtain heq | ⟨record, heq⟩ := exec_record h
  · exact heq ▸ List.suffix_rfl
  · exact heq ▸ List.suffix_cons record _

/-- A call adds at most one entry to the log of an event. -/
theorem exec_journal {op : Op} {reply : op.Reply}
    (h : World.Exec w op reply w') (e : UUID) :
    w'.journal e = w.journal e ∨
      ∃ entry, w'.journal e = entry :: w.journal e := by
  obtain heq | ⟨record, heq⟩ := exec_record h
  · exact .inl (by rw [World.journal, World.journal, heq])
  · simp only [World.journal, heq, List.filterMap_cons]
    cases Record.entry e record with
    | none => exact .inl rfl
    | some entry => exact .inr ⟨entry, rfl⟩

theorem journal_suffix (h : w.history <:+ w'.history) (e : UUID) :
    w.journal e <:+ w'.journal e := by
  obtain ⟨new, hnew⟩ := h
  exact ⟨new.filterMap (Record.entry e), by
    rw [World.journal, World.journal, ← hnew, List.filterMap_append]⟩

end Histories

section Journals

/-- One event moves by one entry, and the others stay. -/
theorem Journaled.ran {call : D1Call} {value : call.Value} {eventId : UUID}
    {entry : Entry} {row : EventRow} (hw : Journaled maxima w)
    (hentry : call.entry w.db value = some (eventId, entry))
    (hwritten : db.events = w.db.events.insert eventId row)
    (hmove : Journal (Bound maxima) (entry :: w.journal eventId)
      (some row.lifecycle)) :
    Journaled maxima (w.ran call value db) := by
  intro e
  rw [journal_ran hentry, lifecycle_ran hwritten]
  split
  · next he =>
    subst he
    exact hmove
  · exact hw e

theorem Journaled.statement {call : D1Call} {value : call.Value}
    (hw : Journaled maxima w) (hmay : May maxima w (.d1 call))
    (hrun : call.statement w.db = some (value, db)) :
    Journaled maxima (w.ran call value db) := by
  have hfound : ∀ {e : UUID} {row : EventRow},
      w.db.events.lookup e = some row →
      Journal (Bound maxima) (w.journal e) (some row.lifecycle) := by
    intro e row hrow
    have h := hw e
    rwa [World.lifecycle, hrow, Option.map_some] at h
  cases eventsEffect hrun with
  | silent quiet same =>
      intro e
      rw [journal_ran_none quiet]
      have h := hw e
      rwa [World.lifecycle, ← same] at h
  | @accepted proposed eventType fingerprint chunks key nowMs fresh written =>
      have hnone := hw proposed
      rw [World.lifecycle, AList.lookup_eq_none.mpr fresh] at hnone
      exact hw.ran (if_pos ⟨fresh, by simp⟩) written hnone.accepted
  | @claimed eventId token _ _ m row row' found claimable updated written =>
      have hmove : Journal (Bound maxima)
          (.claimed token (row.lifecycle.claim m token).attemptCount ::
            w.journal eventId) (some (row.lifecycle.claim m token)) :=
        (hfound found).claimed hmay claimable
      rw [← updated] at hmove
      exact hw.ran rfl written hmove
  | settled found running owner updated written =>
      refine hw.ran rfl written ?_
      rw [updated]
      exact (hfound found).settled running owner hmay.1
  | exhausted found waiting used updated written =>
      refine hw.ran rfl written ?_
      rw [updated]
      exact (hfound found).exhausted waiting hmay used

theorem Journaled.exec {op : Op} {reply : op.Reply}
    (hw : Journaled maxima w) (hmay : May maxima w op)
    (hexec : World.Exec w op reply w') : Journaled maxima w' := by
  cases hexec with
  | answered call value returned db run => exact hw.statement hmay run
  | replyLost call value db run => exact hw.statement hmay run
  | sendConfirmed | delivered => exact hw
  | failed | sendUnconfirmed | sendFailed | time | uuid4 | uniform | emit
  | ack | retry => exact hw

end Journals

section Persistence

/-- A finished event keeps its row's status and attempts, and nothing more
happens to it. -/
theorem lifecycle_exec {op : Op} {reply : op.Reply} {l : Lifecycle}
    (hw : Journaled maxima w) (hmay : May maxima w op)
    (hexec : World.Exec w op reply w') (hl : w.lifecycle e = some l)
    (hterminal : l.status.Terminal) :
    w'.lifecycle e = some l ∧ w'.journal e = w.journal e := by
  have hbefore := hw e
  rw [hl] at hbefore
  have hafter := hw.exec hmay hexec e
  obtain ⟨later, hlater⟩ := journal_suffix (exec_history hexec) e
  rw [← hlater] at hafter
  obtain ⟨rfl, hsame⟩ := hbefore.terminal_final hterminal hafter
  exact ⟨hsame, hlater.symm⟩

theorem World.Finished.exec {op : Op} {reply : op.Reply}
    (hw : Journaled maxima w) (hmay : May maxima w op)
    (hexec : World.Exec w op reply w') (h : w.Finished e) : w'.Finished e := by
  obtain ⟨l, hl, hterminal⟩ := World.finished_iff.mp h
  exact World.finished_iff.mpr
    ⟨l, (lifecycle_exec hw hmay hexec hl hterminal).1, hterminal⟩

theorem World.Succeeded.exec {op : Op} {reply : op.Reply}
    (hexec : World.Exec w op reply w') (h : w.Succeeded e) :
    w'.Succeeded e := by
  obtain ⟨record, hrecord, he⟩ := h
  exact ⟨record, (exec_history hexec).subset hrecord, he⟩

theorem World.Sent.exec {op : Op} {reply : op.Reply}
    (hexec : World.Exec w op reply w') (h : w.Sent e) : w'.Sent e :=
  (exec_history hexec).subset h

/-- The queue forgets no message and moves none. -/
theorem messages_exec {op : Op} {reply : op.Reply}
    (hexec : World.Exec w op reply w') : w.messages <+: w'.messages := by
  cases hexec with
  | sendConfirmed | sendUnconfirmed => exact List.prefix_append _ _
  | answered | replyLost | failed | sendFailed | delivered | time | uuid4
  | uniform | emit | ack | retry => exact List.prefix_rfl

theorem message_exec {op : Op} {reply : op.Reply} {n : ℕ} {body : String}
    (hexec : World.Exec w op reply w') (h : w.messages[n]? = some body) :
    w'.messages[n]? = some body := by
  obtain ⟨new, hnew⟩ := messages_exec hexec
  obtain ⟨hlt, -⟩ := List.getElem?_eq_some_iff.mp h
  rw [← hnew, List.getElem?_append_left hlt]
  exact h

end Persistence

/-- What holds of the tables, the queue and the history in every run. -/
structure Invariant (maxima : ℕ → Prop) (w : World) : Prop where
  journaled : Journaled maxima w
  delivered : ∀ e l, w.lifecycle e = some l → l.status = .delivered →
    w.Succeeded e
  paired : Paired w.db
  dispatched : ∀ e, outboxState w.db e = some .sent → w.Sent e
  stored : ∀ e, w.Sent e → e.text ∈ w.messages
  references : ∀ body ∈ w.messages, ∃ e : UUID, body = e.text
  acked : ∀ n ∈ w.acked, ∃ e : UUID, w.messages[n]? = some e.text ∧
    w.Finished e

namespace Invariant

theorem initial : Invariant maxima {} where
  journaled := fun _ => .empty
  delivered := nofun
  paired := by simp [Paired, outboxState]
  dispatched := nofun
  stored := nofun
  references := nofun
  acked := nofun

/-- A statement adds the event it accepts, and no other. -/
theorem mem_events_iff {call : D1Call} {value : call.Value}
    {before : Database} (h : EventsEffect before db call value) :
    e ∈ db.events ↔
      e ∈ before.events ∨ call.entry before value = some (e, .accepted) := by
  cases h with
  | silent quiet same => simp [same, quiet]
  | accepted fresh written =>
      rw [written, AList.mem_insert, D1Call.entry, if_pos ⟨fresh, by simp⟩]
      simp [or_comm, eq_comm]
  | claimed found _ _ written | settled found _ _ _ written
  | exhausted found _ _ _ written =>
      rw [written, AList.mem_insert]
      constructor
      · rintro (rfl | hmem)
        · exact Or.inl (AList.lookup_isSome.mp (by rw [found]; rfl))
        · exact Or.inl hmem
      · rintro (hmem | hentry)
        · exact Or.inr hmem
        · cases hentry

theorem paired_ran {call : D1Call} {value : call.Value}
    (hpaired : Paired w.db) (hrun : call.statement w.db = some (value, db)) :
    Paired db := by
  intro e
  rw [mem_events_iff (eventsEffect hrun), hpaired e]
  cases outboxEffect hpaired hrun with
  | silent quiet same => simp [quiet, same]
  | accepted proposed entry written =>
      rw [entry, written]
      by_cases he : e = proposed <;> simp [he, eq_comm]
  | dispatched eventId nowMs claimToken dispatch quiet pending written =>
      rw [written]
      by_cases he : e = eventId <;> simp [he, quiet, pending]

/-- Only `markDispatched` turns an outbox row to `sent`. -/
theorem dispatched_ran {call : D1Call} {value : call.Value}
    (h : Invariant maxima w) (hmay : May maxima w (.d1 call))
    (hrun : call.statement w.db = some (value, db))
    (hsent : outboxState db e = some .sent) : w.Sent e := by
  cases outboxEffect h.paired hrun with
  | silent quiet same => exact h.dispatched e (same ▸ hsent)
  | accepted proposed entry written =>
      rw [written] at hsent
      split at hsent
      · cases hsent
      · exact h.dispatched e hsent
  | dispatched eventId nowMs claimToken dispatch quiet pending written =>
      rw [written] at hsent
      split at hsent
      · next he =>
        subst dispatch he
        exact hmay
      · exact h.dispatched e hsent

/-- Only a granted update turns a row to `delivered`. -/
theorem delivered_ran {call : D1Call} {value : call.Value} {l : Lifecycle}
    (h : Invariant maxima w) (hmay : May maxima w (.d1 call))
    (hrun : call.statement w.db = some (value, db))
    (hl : (w.ran call value db).lifecycle e = some l)
    (hdelivered : l.status = .delivered) : w.Succeeded e := by
  cases eventsEffect hrun with
  | silent quiet same =>
      rw [World.lifecycle, World.ran, same] at hl
      exact h.delivered e l hl hdelivered
  | accepted fresh written =>
      rw [lifecycle_ran written] at hl
      split at hl
      · obtain rfl := Option.some.inj hl
        cases hdelivered
      · exact h.delivered e l hl hdelivered
  | claimed found claimable updated written =>
      rw [lifecycle_ran written] at hl
      split at hl
      · obtain rfl := Option.some.inj hl
        rw [updated] at hdelivered
        cases hdelivered
      · exact h.delivered e l hl hdelivered
  | settled found running owner updated written =>
      rw [lifecycle_ran written] at hl
      split at hl
      · next he =>
        obtain rfl := Option.some.inj hl
        rw [updated] at hdelivered
        exact he ▸ hmay.2 hdelivered
      · exact h.delivered e l hl hdelivered
  | exhausted found waiting used updated written =>
      rw [lifecycle_ran written] at hl
      split at hl
      · obtain rfl := Option.some.inj hl
        rw [updated] at hdelivered
        cases hdelivered
      · exact h.delivered e l hl hdelivered

theorem statement {call : D1Call} {value : call.Value}
    (h : Invariant maxima w) (hmay : May maxima w (.d1 call))
    (hrun : call.statement w.db = some (value, db))
    (hexec : World.Exec w (.d1 call) none (w.ran call value db)) :
    Invariant maxima (w.ran call value db) where
  journaled := h.journaled.statement hmay hrun
  delivered := fun e l hl hdelivered =>
    (h.delivered_ran hmay hrun hl hdelivered).exec hexec
  paired := paired_ran h.paired hrun
  dispatched := fun e hsent =>
    World.Sent.exec hexec (h.dispatched_ran hmay hrun hsent)
  stored := by
    intro e hsent
    rcases List.mem_cons.mp hsent with heq | hsent
    · cases heq
    · exact h.stored e hsent
  references := h.references
  acked := by
    intro n hn
    obtain ⟨e, hmessage, hfinished⟩ := h.acked n hn
    exact ⟨e, hmessage, hfinished.exec h.journaled hmay hexec⟩

theorem send (h : Invariant maxima w) (eventId : UUID) :
    Invariant maxima (w.stored eventId) where
  journaled := h.journaled
  delivered := h.delivered
  paired := h.paired
  dispatched := h.dispatched
  stored := fun e hsent => List.mem_append_left _ (h.stored e hsent)
  references := by
    intro body hbody
    rcases List.mem_append.mp hbody with hbody | hbody
    · exact h.references body hbody
    · exact ⟨eventId, List.mem_singleton.mp hbody⟩
  acked := by
    intro n hn
    obtain ⟨e, hmessage, hfinished⟩ := h.acked n hn
    exact ⟨e, message_exec (.sendUnconfirmed eventId) hmessage, hfinished⟩

theorem confirm (h : Invariant maxima w) (eventId : UUID) :
    Invariant maxima (w.sent eventId) where
  journaled := h.journaled
  delivered := fun e l hl hdelivered =>
    (h.delivered e l hl hdelivered).exec (.sendConfirmed eventId)
  paired := h.paired
  dispatched := fun e hsent =>
    World.Sent.exec (.sendConfirmed eventId) (h.dispatched e hsent)
  stored := by
    intro e hsent
    rcases List.mem_cons.mp hsent with heq | hsent
    · obtain rfl := Record.sent.inj heq
      exact List.mem_append_right _ (List.mem_singleton_self _)
    · exact List.mem_append_left _ (h.stored e hsent)
  references := (h.send eventId).references
  acked := (h.send eventId).acked

theorem deliver (h : Invariant maxima w) (record : EventRecord)
    (reply : SinkReply) : Invariant maxima (w.delivered record reply) where
  journaled := h.journaled
  delivered := fun e l hl hdelivered =>
    (h.delivered e l hl hdelivered).exec (.delivered record reply)
  paired := h.paired
  dispatched := fun e hsent =>
    World.Sent.exec (.delivered record reply) (h.dispatched e hsent)
  stored := by
    intro e hsent
    rcases List.mem_cons.mp hsent with heq | hsent
    · cases heq
    · exact h.stored e hsent
  references := h.references
  acked := h.acked

/-- Every permitted call keeps the invariant. -/
theorem exec {op : Op} {reply : op.Reply} (h : Invariant maxima w)
    (hmay : May maxima w op) (hexec : World.Exec w op reply w') :
    Invariant maxima w' := by
  cases hexec with
  | answered call value returned db run agrees =>
      exact h.statement hmay run (.replyLost call value db run)
  | replyLost call value db run =>
      exact h.statement hmay run (.replyLost call value db run)
  | sendConfirmed eventId => exact h.confirm eventId
  | sendUnconfirmed eventId => exact h.send eventId
  | delivered record reply => exact h.deliver record reply
  | ack message =>
      refine { h with acked := ?_ }
      intro n hn
      rcases List.mem_cons.mp hn with rfl | hn
      · exact hmay
      · exact h.acked n hn
  | retry message => exact { h with }
  | failed | sendFailed | time | uuid4 | uniform | emit => exact h

end Invariant

/-- Every state reached by permitted calls satisfies the invariant, whatever
else restricts the calls. -/
theorem reach_invariant {G : World → Op → Prop}
    (h : (d1Machine.restrict G).Reach (May maxima) w) :
    Invariant maxima w := by
  refine Machine.Reach.induction (P := Invariant maxima) ?_ ?_ h
  · rintro w rfl
    exact .initial
  · rintro w op reply w' - hw hmay ⟨-, hexec⟩
    exact hw.exec hmay hexec

end Hooklane.Cloudflare
