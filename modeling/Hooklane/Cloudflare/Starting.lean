import Hooklane.Cloudflare.Guarantees
import Hooklane.Cloudflare.Acceptance
import Hooklane.Support.Amid

/-!
# What a start of a delivery meets

`mark_delivery_started` claims the row and, where the claim selects nothing,
looks at the row a second time to say why.  Between the two statements the row
may have moved: an owner may have finished its attempt, so that a row that was
busy at the claim waits again at the look.
-/

namespace Hooklane.Cloudflare

open Support ProgE

variable {M : ℕ} {e : UUID} {w w' : World} {store : D1EventStore}

section Lasting

variable {maxima : ℕ → Prop} {G : World → Op → Prop}

/-- What is stored for an event is never rewritten. -/
theorem lasting_content (e : UUID) (c : EventContent) :
    Lasting G maxima fun w => content w.db e = some c := by
  refine lasting_of_exec fun w op reply w' _ _ hexec h => ?_
  have hran : ∀ (call : D1Call) (value : call.Value) (db : Database),
      call.statement w.db = some (value, db) → content db e = some c := by
    intro call value db hrun
    cases call with
    | acceptBatch proposed eventType chunks fingerprint keyHash nowMs =>
        rcases (acceptBatch_cases hrun).1 with
          ⟨-, -, -, -, -, -, hsame⟩ | ⟨hfresh, -, hwritten⟩
        · rw [content, hsame]
          exact h
        · have hne : e ≠ proposed := by
            rintro rfl
            exact hfresh (content_ne_none.mp (by simp [h]))
          rw [content, hwritten, AList.lookup_insert_ne hne]
          exact h
    | _ =>
        rw [(sameContent_statement (by simp) hrun).content]
        exact h
  cases hexec with
  | answered call value returned db run agrees => exact hran call value db run
  | replyLost call value db run => exact hran call value db run
  | _ => exact h

/-- The event is finished, or it waits without an attempt left. -/
def Spent (M : ℕ) (e : UUID) (w : World) : Prop :=
  ∃ l, w.lifecycle e = some l ∧
    (l.status.Terminal ∨ l.Waiting ∧ M ≤ l.attemptCount)

theorem spent_statement {call : D1Call} {value : call.Value} {db : Database}
    (hmay : May (· = M) w (.d1 call))
    (hrun : call.statement w.db = some (value, db)) (h : Spent M e w) :
    Spent M e (w.ran call value db) := by
  obtain ⟨l, hl, hspent⟩ := h
  have hrow : ∀ {row : EventRow}, w.db.events.lookup e = some row →
      row.lifecycle = l := fun {row} hrow =>
    Option.some.inj ((lifecycle_of_row hrow).symm.trans hl)
  cases eventsEffect hrun with
  | silent quiet same =>
      refine ⟨l, ?_, hspent⟩
      rw [World.lifecycle, World.ran, same]
      exact hl
  | @accepted proposed eventType fingerprint chunks keyHash nowMs fresh
      written =>
      have hne : e ≠ proposed := by
        rintro rfl
        rw [World.lifecycle, AList.lookup_eq_none.mpr fresh] at hl
        cases hl
      refine ⟨l, ?_, hspent⟩
      rw [lifecycle_ran written, if_neg hne]
      exact hl
  | @claimed eventId token leaseUntilMs nowMs m row row' found claimable
      updated written =>
      by_cases he : e = eventId
      · subst he
        rw [hrow found] at claimable
        obtain rfl : m = M := hmay.1
        rcases hspent with hterminal | ⟨hwaiting, hused⟩
        · exact absurd hterminal claimable.not_terminal
        · rcases claimable with ⟨-, hlt⟩ | ⟨hrunning, -⟩
          · exact absurd hlt (Nat.not_lt.mpr hused)
          · exact absurd hrunning hwaiting.ne_delivering
      · refine ⟨l, ?_, hspent⟩
        rw [lifecycle_ran written, if_neg he]
        exact hl
  | @settled eventId status nowMs reason token row row' found running owner
      updated written =>
      by_cases he : e = eventId
      · subst he
        have hrunning : l.status = .delivering := by
          rw [← hrow found]
          exact running
        rcases hspent with hterminal | ⟨hwaiting, -⟩
        · rw [hrunning] at hterminal
          simp [EventStatus.Terminal] at hterminal
        · exact absurd hrunning hwaiting.ne_delivering
      · refine ⟨l, ?_, hspent⟩
        rw [lifecycle_ran written, if_neg he]
        exact hl
  | @exhausted eventId nowMs m row row' found waiting used updated written =>
      by_cases he : e = eventId
      · subst he
        refine ⟨row'.lifecycle, ?_, Or.inl ?_⟩
        · rw [lifecycle_ran written, if_pos rfl]
        · rw [updated]
          exact Or.inr rfl
      · refine ⟨l, ?_, hspent⟩
        rw [lifecycle_ran written, if_neg he]
        exact hl

/-- Where every start has the same bound, no attempt comes back. -/
theorem lasting_spent (e : UUID) : Lasting G (· = M) (Spent M e) := by
  refine lasting_of_exec fun w op reply w' _ hmay hexec h => ?_
  cases hexec with
  | answered call value returned db run agrees =>
      exact spent_statement hmay run h
  | replyLost call value db run => exact spent_statement hmay run h
  | _ => exact h

end Lasting

section Runs

/-- The backend, in which every call may be executed. -/
abbrev openMachine : Machine Op Op.Reply :=
  d1Machine.restrict Service.anyCall

/-- A run of one program amid permitted calls of the others, whose starts are
bounded as `maxima` says. -/
abbrev AmidStarts (maxima : ℕ → Prop) {α : Type} (p : App α) (w : World)
    (own : List (Own openMachine)) (r : Except Raised α) (w' : World) : Prop :=
  ProgE.Amid (M := openMachine) (May maxima) p w own r w'

/-- A run of one program amid permitted calls of the others, who all start
deliveries with the bound `M`. -/
abbrev AmidOthers (M : ℕ) {α : Type} (p : App α) (w : World)
    (own : List (Own openMachine)) (r : Except Raised α) (w' : World) : Prop :=
  ProgE.Amid (M := openMachine) (May (· = M)) p w own r w'

/-- A call to D1 was not confirmed. -/
def Op.Failed : (op : Op) → op.Reply → Prop
  | .d1 _, none => True
  | _, _ => False

/-- Every statement that the run sent to D1 was answered. -/
def Served (own : List (Own openMachine)) : Prop :=
  ∀ o ∈ own, ¬o.op.Failed o.reply

/-- The text of an event's payload: its chunks, or the legacy column. -/
def payloadText (db : Database) (e : UUID) : Option String := do
  let row ← db.events.lookup e
  let (chunks, _) ← selectPayloadChunks e db
  if chunks ≠ [] then some (String.join chunks)
  else if row.payloadJson ≠ "" then some row.payloadJson
  else none

/-- The request that an event's rows hold. -/
def storedRequest (lib : Stdlib) (db : Database) (e : UUID) :
    Option EventRequest := do
  let row ← db.events.lookup e
  let text ← payloadText db e
  let payload ← lib.readJson text
  EventRequest.validate row.eventType payload

/-- The payload rows of an event can be loaded, parsed and validated. -/
def PayloadIntact (lib : Stdlib) (db : Database) (e : UUID) : Prop :=
  (storedRequest lib db e).isSome

/-- The event waits and may be claimed again. -/
def AttemptsLeft (M : ℕ) (db : Database) (e : UUID) : Prop :=
  ∃ row, db.events.lookup e = some row ∧ row.lifecycle.Waiting ∧
    row.attemptCount < M

abbrev ReachedBy (maxima : ℕ → Prop) (w : World) : Prop :=
  Reached (Service.anyCall (M := d1Machine)) maxima w

abbrev OnwardBy (maxima : ℕ → Prop) (w w' : World) : Prop :=
  Onward (Service.anyCall (M := d1Machine)) maxima w w'

abbrev OpenReached (M : ℕ) (w : World) : Prop :=
  Reached (Service.anyCall (M := d1Machine)) (· = M) w

abbrev OpenOnward (M : ℕ) (w w' : World) : Prop :=
  Onward (Service.anyCall (M := d1Machine)) (· = M) w w'

variable {maxima : ℕ → Prop} {own : List (Own openMachine)}
  {c : EventContent}

theorem onward_ran {call : D1Call} {value returned : call.Value}
    {db : Database} (hmay : May maxima w (.d1 call))
    (hrun : call.statement w.db = some (value, db))
    (hagrees : call.Agrees returned value) :
    OnwardBy maxima w (w.ran call value db) :=
  Machine.Later.move (M := openMachine) hmay
    ⟨trivial, .answered call value returned db hrun hagrees⟩

/-- An answered statement of the run. -/
theorem AmidStarts.execute {call : D1Call} {r : Except Raised call.Value}
    (h : AmidStarts maxima (App.execute call) w own r w') (hserved : Served own) :
    ∃ t value returned db, OnwardBy maxima w t ∧
      call.statement t.db = some (value, db) ∧ call.Agrees returned value ∧
      OnwardBy maxima (t.ran call value db) w' ∧
      own = [⟨t, .d1 call, some returned⟩] ∧ r = .ok returned := by
  rcases ProgE.Amid.of_bind h with ⟨raised, t, hp, -, -⟩ |
    ⟨first, reply, t, rest, hp, hf, rfl⟩
  · obtain ⟨_, _, _, -, -, -, -, hok⟩ := ProgE.Amid.of_perform hp
    cases hok
  · obtain ⟨s, reply', s', hbefore, hexec, hafter, rfl, hreply⟩ :=
      ProgE.Amid.of_perform hp
    obtain rfl := Except.ok.inj hreply
    cases reply with
    | none => exact absurd trivial (hserved _ List.mem_cons_self)
    | some returned =>
        obtain ⟨rfl, rfl, hlast⟩ := ProgE.Amid.of_pure hf
        cases hexec.2 with
        | answered call value returned db run agrees =>
            exact ⟨s, value, returned, db, hbefore, run, agrees,
              hafter.trans hlast, rfl, rfl⟩

theorem lookup_of_content {db : Database} (h : content db e = some c) :
    ∃ row, db.events.lookup e = some row ∧ row.content = c :=
  Option.map_eq_some_iff.mp h

/-- The state that the run reads is that of the row. -/
theorem AmidStarts.readState {r : Except Raised (EventStatus × ℕ)}
    (h : AmidStarts maxima (D1EventStore.readState e) w own r w')
    (hserved : Served own) (hw : ReachedBy maxima w)
    (hstored : content w.db e = some c) :
    ∃ t row, OnwardBy maxima w t ∧ t.db.events.lookup e = some row ∧
      OnwardBy maxima t w' ∧ own = [⟨t, .d1 (.selectState e),
        some (some (row.status, row.attemptCount))⟩] ∧
      r = .ok (row.status, row.attemptCount) := by
  rcases ProgE.Amid.of_bind h with ⟨raised, t, hp, -, -⟩ |
    ⟨first, found, t, rest, hp, hf, rfl⟩
  · obtain ⟨_, _, _, _, -, -, -, -, -, hok⟩ :=
      AmidStarts.execute hp hserved
    cases hok
  · have hfirst : Served first := fun o ho =>
      hserved o (List.mem_append_left _ ho)
    obtain ⟨s, value, returned, db, hbefore, hrun, rfl, hafter, rfl, hfound⟩ :=
      AmidStarts.execute hp hfirst
    obtain rfl := Except.ok.inj hfound
    obtain ⟨row, hrow, -⟩ := lookup_of_content
      (lasting_content e c w s hw hbefore hstored)
    have hselect : (D1Call.selectState e).statement s.db =
        some (some (row.status, row.attemptCount), s.db) := by
      change some ((s.db.events.lookup e).map _, s.db) = _
      rw [hrow]
      rfl
    rw [hselect] at hrun
    obtain ⟨rfl, rfl⟩ := Prod.mk.inj (Option.some.inj hrun)
    obtain ⟨rfl, rfl, hlast⟩ := ProgE.Amid.of_pure hf
    have hmove : OnwardBy maxima s (s.ran (.selectState e) _ s.db) :=
      onward_ran trivial hselect rfl
    exact ⟨s, row, hbefore, hrow, (hmove.trans hafter).trans hlast, rfl, rfl⟩

/-- No look of the run at the row finds the event waiting with attempts
left. -/
def NeverWaiting (M : ℕ) (e : UUID) (own : List (Own openMachine)) : Prop :=
  ∀ o ∈ own, o.op = .d1 (.selectState e) → ¬AttemptsLeft M o.state.db e

theorem neverWaiting_append {first rest : List (Own openMachine)} :
    NeverWaiting M e (first ++ rest) ↔
      NeverWaiting M e first ∧ NeverWaiting M e rest :=
  List.forall_mem_append

theorem neverWaiting_of_ne (h : ∀ o ∈ own, o.op ≠ .d1 (.selectState e)) :
    NeverWaiting M e own :=
  fun o ho hop => absurd hop (h o ho)

theorem attemptsLeft_iff {db : Database} {row : EventRow}
    (hrow : db.events.lookup e = some row) :
    AttemptsLeft M db e ↔ row.lifecycle.Waiting ∧ row.attemptCount < M := by
  constructor
  · rintro ⟨row', hrow', hleft⟩
    rw [hrow] at hrow'
    obtain rfl := Option.some.inj hrow'
    exact hleft
  · exact fun hleft => ⟨row, hrow, hleft⟩

/-- The look at a row finds no answer only when the event waits. -/
theorem unclaimed_none_iff {row : EventRow} :
    D1EventStore.unclaimed (row.status, row.attemptCount) = none ↔
      row.lifecycle.Waiting := by
  obtain ⟨_, _, status, _, _, _, _, _, _, _, _⟩ := row
  cases status <;>
    simp [D1EventStore.unclaimed, EventStatus.Terminal, Lifecycle.Waiting,
      EventRow.lifecycle]

/-- A look that finds a waiting event is the only one of its run. -/
theorem neverWaiting_look {t : World} {row : EventRow}
    {reply : (Op.d1 (.selectState e)).Reply}
    (hrow : t.db.events.lookup e = some row) :
    NeverWaiting M e [⟨t, .d1 (.selectState e), reply⟩] ↔
      ¬(row.lifecycle.Waiting ∧ row.attemptCount < M) := by
  rw [← attemptsLeft_iff hrow]
  simp [NeverWaiting]

theorem Served.append {first rest : List (Own openMachine)}
    (h : Served (first ++ rest)) : Served first ∧ Served rest :=
  List.forall_mem_append.mp h

/-- After an update that gives up a spent event selects nothing, the event is
finished. -/
theorem finished_of_unselected {nowMs : ℤ} {changed : ℕ} {db : Database}
    (h : Spent M e w) (hrun : (D1Call.deadLetterExhausted e nowMs M).statement
      w.db = some (changed, db)) (hchanged : changed ≠ 1) :
    w.Finished e := by
  obtain ⟨l, hl, hspent⟩ := h
  obtain ⟨row, hrow, rfl⟩ := Option.map_eq_some_iff.mp hl
  rcases hspent with hterminal | ⟨hwaiting, hused⟩
  · exact ⟨row, hrow, hterminal⟩
  · obtain ⟨result, hupdate, rfl⟩ := map_eq_some hrun
    have hselected : ((row.status = .queued || row.status = .retryScheduled) &&
        M ≤ row.attemptCount : Bool) = true := by
      simp only [Bool.and_eq_true, Bool.or_eq_true, decide_eq_true_eq]
      exact ⟨hwaiting, hused⟩
    refine absurd ?_ hchanged
    have hwritten : (updateWhere w.db.events e
        (fun row => (row.status = .queued || row.status = .retryScheduled) &&
          M ≤ row.attemptCount)
        (fun row => { row with
          status := .deadLetter
          updatedAtMs := nowMs
          lastReason := some "maximum_attempts" })).1 = result := by
      exact (Prod.mk.inj (Option.some.inj hupdate)).1
    rw [updateWhere, hrow] at hwritten
    simp only [hselected, if_true] at hwritten
    rw [← hwritten]
    rfl

/-- An intact payload, told from the row and its chunks. -/
theorem PayloadIntact.text {lib : Stdlib} {db : Database} {row : EventRow}
    {chunks : List String} (h : PayloadIntact lib db e)
    (hrow : db.events.lookup e = some row)
    (hchunks : selectPayloadChunks e db = some (chunks, db)) :
    ∃ text payload event, lib.readJson text = some payload ∧
      EventRequest.validate row.eventType payload = some event ∧
      (if chunks ≠ [] then some (String.join chunks)
       else if row.payloadJson ≠ "" then some row.payloadJson
       else none) = some text := by
  obtain ⟨event, hevent⟩ := Option.isSome_iff_exists.mp h
  obtain ⟨row', hrow', hevent⟩ := Option.bind_eq_some_iff.mp hevent
  rw [hrow] at hrow'
  obtain rfl := Option.some.inj hrow'
  obtain ⟨text, htext, hevent⟩ := Option.bind_eq_some_iff.mp hevent
  obtain ⟨payload, hloads, hvalidate⟩ := Option.bind_eq_some_iff.mp hevent
  refine ⟨text, payload, event, hloads, hvalidate, ?_⟩
  simpa only [payloadText, hrow, hchunks, Option.bind_eq_bind,
    Option.bind_some] using htext

/-- A text that can be parsed is loaded when the payload is intact. -/
theorem AmidOthers.loadPayloadJson {lib : Stdlib} {r : Except Raised String}
    (h : AmidOthers M (D1EventStore.loadPayloadJson e c.payloadJson) w own r w')
    (hserved : Served own) (hw : OpenReached M w)
    (hstored : content w.db e = some c)
    (hintact : ∀ o ∈ own, o.op = .d1 (.selectPayloadChunks e) →
      PayloadIntact lib o.state.db e) :
    (∃ text payload event, r = .ok text ∧ lib.readJson text = some payload ∧
      EventRequest.validate c.eventType payload = some event) ∧
    NeverWaiting M e own := by
  rcases ProgE.Amid.of_bind h with ⟨raised, t, hp, -, -⟩ |
    ⟨first, chunks, t, rest, hp, hf, rfl⟩
  · obtain ⟨_, _, _, _, -, -, -, -, -, hok⟩ := AmidStarts.execute hp hserved
    cases hok
  obtain ⟨s, value, returned, db, hbefore, hrun, rfl, -, rfl, hok⟩ :=
    AmidStarts.execute hp hserved.append.1
  obtain rfl := Except.ok.inj hok
  have hchunks : selectPayloadChunks e s.db = some (chunks, s.db) := by
    obtain ⟨hvalue, rfl⟩ := Prod.mk.inj (Option.some.inj hrun)
    rw [← hvalue]
    rfl
  obtain ⟨row, hrow, rfl⟩ := lookup_of_content
    (lasting_content e c w s hw hbefore hstored)
  obtain ⟨text, payload, event, hloads, hvalidate, htext⟩ :=
    (hintact _ (List.mem_append_left _ List.mem_cons_self) rfl).text hrow
      hchunks
  have hnever : NeverWaiting M e [⟨s, .d1 (.selectPayloadChunks e),
      some chunks⟩] := neverWaiting_of_ne (by simp)
  have hpure : AmidOthers M (pure text : App String) t rest r w' := by
    split at htext
    · next hne =>
      obtain rfl := Option.some.inj htext
      rwa [if_pos hne] at hf
    · next hempty =>
      split at htext
      · next hlegacy =>
        obtain rfl := Option.some.inj htext
        have hlegacy' : row.content.payloadJson ≠ "" := hlegacy
        rwa [if_neg hempty, if_pos hlegacy'] at hf
      · cases htext
  obtain ⟨rfl, rfl, -⟩ := ProgE.Amid.of_pure hpure
  rw [List.append_nil]
  exact ⟨⟨text, payload, event, rfl, hloads, hvalidate⟩, hnever⟩

/-- The record of a claimed row is loaded when its payload is intact. -/
theorem AmidOthers.loadRecord {row : EventRow} {r : Except Raised EventRecord}
    (h : AmidOthers M (store.loadRecord e row) w own r w')
    (hserved : Served own) (hw : OpenReached M w)
    (hstored : content w.db e = some row.content)
    (hintact : ∀ o ∈ own, o.op = .d1 (.selectPayloadChunks e) →
      PayloadIntact store.lib o.state.db e) :
    (∃ record, r = .ok record) ∧ NeverWaiting M e own := by
  rcases ProgE.Amid.of_bind h with ⟨raised, t, hp, -, -⟩ |
    ⟨first, text, t, rest, hp, hf, rfl⟩
  · obtain ⟨⟨_, _, _, hok, -⟩, -⟩ :=
      AmidOthers.loadPayloadJson hp hserved hw hstored hintact
    cases hok
  obtain ⟨⟨text', payload, event, hok, hloads, hvalidate⟩, hnever⟩ :=
    AmidOthers.loadPayloadJson hp hserved.append.1 hw hstored
      fun o ho => hintact o (List.mem_append_left _ ho)
  obtain rfl := Except.ok.inj hok
  have hevent : EventRequest.validate row.eventType payload = some event :=
    hvalidate
  simp only [hloads, hevent, Option.bind_eq_bind, Option.bind_some] at hf
  obtain ⟨rfl, rfl, -⟩ := ProgE.Amid.of_pure hf
  rw [List.append_nil]
  exact ⟨⟨_, rfl⟩, hnever⟩

/-- A start that finds a spent event gives it up, or finds it finished. -/
theorem AmidOthers.giveUp {nowMs : ℤ} {attempts : ℕ}
    {r : Except Raised DeliveryStart}
    (h : AmidOthers M (do
      let changed ← App.execute (.deadLetterExhausted e nowMs M)
      if changed = 1 then
        return { disposition := .terminal, status := .deadLetter,
                 attemptCount := attempts }
      else
        let current ← D1EventStore.readState e
        match D1EventStore.unclaimed current with
        | some start => return start
        | none => throw .persistenceUnavailable) w own r w')
    (hserved : Served own) (hM : 1 ≤ M) (hw : OpenReached M w)
    (hspent : Spent M e w) (hstored : content w.db e = some c) :
    (∃ start, r = .ok start) ∧ NeverWaiting M e own := by
  rcases ProgE.Amid.of_bind h with ⟨raised, t, hp, -, -⟩ |
    ⟨first, changed, t, rest, hp, hf, rfl⟩
  · obtain ⟨_, _, _, _, -, -, -, -, -, hok⟩ := AmidStarts.execute hp hserved
    cases hok
  obtain ⟨hfirst, hrest⟩ := hserved.append
  obtain ⟨s, value, returned, db, hbefore, hrun, rfl, hafter, rfl, hok⟩ :=
    AmidStarts.execute hp hfirst
  obtain rfl := Except.ok.inj hok
  have hupdate : NeverWaiting M e [⟨s, .d1 (.deadLetterExhausted e nowMs M),
      some changed⟩] := neverWaiting_of_ne (by simp)
  rw [neverWaiting_append]
  split at hf
  · obtain ⟨rfl, rfl, -⟩ := ProgE.Amid.of_pure hf
    exact ⟨⟨_, rfl⟩, hupdate, by simp [NeverWaiting]⟩
  · next hchanged =>
    have hs : OpenReached M s := hw.later hbefore
    have hfinished : s.Finished e :=
      finished_of_unselected (lasting_spent e w s hw hbefore hspent) hrun
        hchanged
    have hmay : May (· = M) s (.d1 (.deadLetterExhausted e nowMs M)) :=
      ⟨rfl, hM⟩
    have hmove : OpenOnward M s t := (onward_ran hmay hrun rfl).trans hafter
    have ht : OpenReached M t := hs.later hmove
    have hstored' : content t.db e = some c :=
      lasting_content e c w t hw (hbefore.trans hmove) hstored
    rcases ProgE.Amid.of_bind hf with ⟨raised, u, hp, -, -⟩ |
      ⟨look, current, u, last, hp, hf, rfl⟩
    · obtain ⟨_, _, -, -, -, -, hok⟩ :=
        AmidStarts.readState hp hrest ht hstored'
      cases hok
    obtain ⟨hlook, -⟩ := hrest.append
    obtain ⟨v, row, hbefore', hrow, -, rfl, hok⟩ :=
      AmidStarts.readState hp hlook ht hstored'
    obtain rfl := Except.ok.inj hok
    obtain ⟨row', hrow', hterminal⟩ :=
      lasting_finished e s v hs (hmove.trans hbefore') hfinished
    rw [hrow] at hrow'
    obtain rfl := Option.some.inj hrow'
    have hdone : D1EventStore.unclaimed (row.status, row.attemptCount) =
        some { disposition := .terminal, status := row.status,
               attemptCount := row.attemptCount } := if_pos hterminal
    have hbusy : ¬row.lifecycle.Waiting := by
      rw [← unclaimed_none_iff, hdone]
      nofun
    rw [hdone] at hf
    obtain ⟨rfl, rfl, -⟩ := ProgE.Amid.of_pure hf
    refine ⟨⟨_, rfl⟩, hupdate, ?_⟩
    rw [List.append_nil, neverWaiting_look hrow]
    exact fun hleft => hbusy hleft.1

/-- What a start answers whose claim selected nothing. -/
theorem AmidOthers.startUnclaimed {nowMs : ℤ} {r : Except Raised DeliveryStart}
    (h : AmidOthers M (D1EventStore.startUnclaimed e nowMs M) w own r w')
    (hserved : Served own) (hM : 1 ≤ M) (hw : OpenReached M w)
    (hstored : content w.db e = some c) :
    (∃ start, r = .ok start) ↔ NeverWaiting M e own := by
  rcases ProgE.Amid.of_bind h with ⟨raised, t, hp, -, -⟩ |
    ⟨first, snapshot, t, rest, hp, hf, rfl⟩
  · obtain ⟨_, _, -, -, -, -, hok⟩ :=
      AmidStarts.readState hp hserved hw hstored
    cases hok
  obtain ⟨hfirst, hrest⟩ := hserved.append
  obtain ⟨s, row, hbefore, hrow, hafter, rfl, hok⟩ :=
    AmidStarts.readState hp hfirst hw hstored
  obtain rfl := Except.ok.inj hok
  rw [neverWaiting_append, neverWaiting_look hrow]
  cases hstart : D1EventStore.unclaimed (row.status, row.attemptCount) with
  | some start =>
      rw [hstart] at hf
      obtain ⟨rfl, rfl, -⟩ := ProgE.Amid.of_pure hf
      have hbusy : ¬row.lifecycle.Waiting := by
        rw [← unclaimed_none_iff, hstart]
        nofun
      simp [hbusy, NeverWaiting]
  | none =>
      have hwaiting := unclaimed_none_iff.mp hstart
      rw [hstart] at hf
      dsimp only at hf
      split at hf
      · next hused =>
        have hnone : ¬(row.lifecycle.Waiting ∧ row.attemptCount < M) :=
          fun hleft => Nat.not_lt.mpr hused hleft.2
        have hs : OpenReached M s := hw.later hbefore
        have hspent : Spent M e t :=
          lasting_spent e s t hs hafter
            ⟨row.lifecycle, lifecycle_of_row hrow, Or.inr ⟨hwaiting, hused⟩⟩
        have hstored' : content t.db e = some c :=
          lasting_content e c w t hw (hbefore.trans hafter) hstored
        obtain ⟨hok, hnever⟩ :=
          giveUp hf hrest hM (hs.later hafter) hspent hstored'
        exact ⟨fun _ => ⟨hnone, hnever⟩, fun _ => hok⟩
      · next hleft =>
        obtain ⟨rfl, rfl, -⟩ := ProgE.Amid.of_throw hf
        have hlt : row.attemptCount < M := Nat.lt_of_not_le hleft
        simp [hwaiting, hlt]

/-- A question to the clock or to the random source. -/
theorem AmidStarts.asked {op : Op} {α : Type} {f : op.Reply → α}
    {r : Except Raised α} (hop : Neutral op) (hlook : op ≠ .d1 (.selectState e))
    (h : AmidStarts maxima (do
      let reply ← App.request op
      return f reply) w own r w') :
    (∃ a, r = .ok a) ∧ OnwardBy maxima w w' ∧ NeverWaiting M e own := by
  rcases ProgE.Amid.of_bind h with ⟨raised, t, hp, -, -⟩ |
    ⟨first, reply, t, rest, hp, hf, rfl⟩
  · obtain ⟨_, _, _, -, -, -, -, hok⟩ := ProgE.Amid.of_perform hp
    cases hok
  · obtain ⟨s, reply', s', hbefore, hexec, hafter, rfl, -⟩ :=
      ProgE.Amid.of_perform hp
    obtain ⟨rfl, rfl, hlast⟩ := ProgE.Amid.of_pure hf
    have hmove : OnwardBy maxima s s' :=
      Machine.Later.move (M := openMachine) (may_of_neutral op s hop) hexec
    refine ⟨⟨_, rfl⟩, ((hbefore.trans hmove).trans hafter).trans hlast, ?_⟩
    rw [List.append_nil]
    exact neverWaiting_of_ne (by simpa using hlook)

theorem AmidStarts.nowMs {r : Except Raised ℤ}
    (h : AmidStarts maxima App.nowMs w own r w') :
    (∃ now, r = .ok now) ∧ OnwardBy maxima w w' ∧ NeverWaiting M e own :=
  asked (f := fun now => truncate (now * 1000)) (show Neutral .time from trivial)
    nofun h

theorem AmidStarts.uuid4Hex {r : Except Raised String}
    (h : AmidStarts maxima App.uuid4Hex w own r w') :
    (∃ token, r = .ok token) ∧ OnwardBy maxima w w' ∧ NeverWaiting M e own :=
  asked (f := fun id : UUID => String.ofList (id.digits.map UUID.hexDigit))
    (show Neutral .uuid4 from trivial) nofun h

/-- A row that a claim returns still holds what was stored. -/
theorem claimed_content {token : String} {leaseUntilMs nowMs : ℤ}
    {db db' : Database} {row : EventRow} (hstored : content db e = some c)
    (hrun : (D1Call.claimDelivery e token leaseUntilMs nowMs M).statement db =
      some (some row, db')) : row.content = c := by
  rcases updateEvent_cases hrun with ⟨row₀, hrow, -, hresult, -⟩ | ⟨hnone, -⟩
  · obtain rfl := Option.some.inj hresult
    rw [content_of_row hrow] at hstored
    exact Option.some.inj hstored
  · cases hnone

/-- A start amid other owners answers unless it looks at a waiting event. -/
theorem AmidOthers.markDeliveryStarted {r : Except Raised DeliveryStart}
    (h : AmidOthers M (store.markDeliveryStarted e M) w own r w')
    (hserved : Served own) (hw : OpenReached M w)
    (hstored : content w.db e = some c)
    (hintact : ∀ o ∈ own, o.op = .d1 (.selectPayloadChunks e) →
      PayloadIntact store.lib o.state.db e) :
    (∃ start, r = .ok start) ↔ 1 ≤ M ∧ NeverWaiting M e own := by
  unfold D1EventStore.markDeliveryStarted at h
  split at h
  · obtain ⟨rfl, rfl, -⟩ := ProgE.Amid.of_throw h
    have hM : ¬1 ≤ M := by omega
    simp [hM]
  have hM : 1 ≤ M := by omega
  rcases ProgE.Amid.of_bind h with ⟨raised, t, hp, -, -⟩ |
    ⟨clock, now, t₁, rest₁, hclock, h₁, rfl⟩
  · obtain ⟨⟨_, hok⟩, -⟩ := AmidStarts.nowMs (M := M) (e := e) hp
    cases hok
  obtain ⟨-, hlater₁, hnever₁⟩ := AmidStarts.nowMs (M := M) (e := e) hclock
  rcases ProgE.Amid.of_bind h₁ with ⟨raised, t, hp, -, -⟩ |
    ⟨chance, token, t₂, rest₂, hchance, h₂, rfl⟩
  · obtain ⟨⟨_, hok⟩, -⟩ := AmidStarts.uuid4Hex (M := M) (e := e) hp
    cases hok
  obtain ⟨-, hlater₂, hnever₂⟩ := AmidStarts.uuid4Hex (M := M) (e := e) hchance
  rw [neverWaiting_append, neverWaiting_append, and_iff_right hnever₁,
    and_iff_right hnever₂, and_iff_right hM]
  have hserved₂ : Served rest₂ := hserved.append.2.append.2
  have hlater : OpenOnward M w t₂ := hlater₁.trans hlater₂
  rcases ProgE.Amid.of_bind h₂ with ⟨raised, t, hp, -, -⟩ |
    ⟨claim, claimed, t₃, rest₃, hclaim, h₃, rfl⟩
  · obtain ⟨_, _, _, _, -, -, -, -, -, hok⟩ := AmidStarts.execute hp hserved₂
    cases hok
  obtain ⟨s, value, returned, db, hbefore, hrun, rfl, hafter, rfl, hok⟩ :=
    AmidStarts.execute hclaim hserved₂.append.1
  obtain rfl := Except.ok.inj hok
  have hmay : May (· = M) s
      (.d1 (.claimDelivery e token (now + 30000) now M)) := ⟨rfl, hM⟩
  have hmove : OpenOnward M s t₃ := (onward_ran hmay hrun rfl).trans hafter
  have hbegin : OpenOnward M w s := hlater.trans hbefore
  have hthen : content t₃.db e = some c :=
    lasting_content e c w t₃ hw (hbegin.trans hmove) hstored
  have ht₃ : OpenReached M t₃ := hw.later (hbegin.trans hmove)
  rw [neverWaiting_append, and_iff_right (neverWaiting_of_ne (by simp))]
  cases claimed with
  | none => exact AmidOthers.startUnclaimed h₃ hserved₂.append.2 hM ht₃ hthen
  | some row =>
      obtain rfl := claimed_content
        (lasting_content e c w s hw hbegin hstored) hrun
      have hintact₃ : ∀ o ∈ rest₃, o.op = .d1 (.selectPayloadChunks e) →
          PayloadIntact store.lib o.state.db e :=
        fun o ho => hintact o (by simp [ho])
      rcases ProgE.Amid.of_bind h₃ with ⟨raised, t, hp, -, -⟩ |
        ⟨load, record, t₄, rest₄, hload, h₄, rfl⟩
      · obtain ⟨⟨_, hok⟩, -⟩ := AmidOthers.loadRecord hp hserved₂.append.2 ht₃
          hthen hintact₃
        cases hok
      obtain ⟨-, hnever⟩ := AmidOthers.loadRecord hload
        hserved₂.append.2.append.1 ht₃ hthen
        fun o ho => hintact₃ o (List.mem_append_left _ ho)
      obtain ⟨rfl, rfl, -⟩ := ProgE.Amid.of_pure h₄
      rw [List.append_nil]
      exact iff_of_true ⟨_, rfl⟩ hnever

end Runs

end Hooklane.Cloudflare
