import Hooklane.Cloudflare.Guarantees
import Hooklane.Support.Amid
import Hooklane.Support.Leasing

/-!
# The outbox row of an event as leased work

The outbox row of an event is an item of work in the sense of
`Hooklane.Support.Leasing`: the acceptance opens it, a repair claims it under
its token, a failed send releases it, and whoever marks it dispatched closes
it.  The immediate path of `accept` closes it without a token.  Every executed
statement either leaves the row as it is or makes one allowed entry in its log.
-/

namespace Hooklane.Cloudflare

open Support

variable {db db' : Database} {e : UUID} {w w' : World} {maxima : ℕ → Prop}
  {G : World → Op → Prop}

/-- What happens to an outbox row. -/
abbrev OutboxEntry := LeaseEntry String ℤ

/-- What an executed statement did to the outbox row of an event. -/
def D1Call.outboxEntry (before : Database) (e : UUID) :
    (call : D1Call) → call.Value → Option OutboxEntry
  | .acceptBatch proposed _ _ _ _ _, value =>
      if proposed = e ∧ proposed ∉ before.events ∧
          value.any fun row => row.eventId = proposed then
        some .opened
      else none
  | .claimOutbox claimToken leaseUntilMs nowMs _, rows =>
      if e ∈ rows.map Prod.fst then
        some (.claimed claimToken leaseUntilMs nowMs)
      else none
  | .markDispatched eventId _ claimToken, changed =>
      if eventId = e ∧ changed = 1 then some (.closed claimToken) else none
  | .releaseOutboxClaim eventId claimToken _, changed =>
      if eventId = e ∧ changed = 1 then some (.released claimToken) else none
  | _, _ => none

def Record.outboxEntry (e : UUID) : Record → Option OutboxEntry
  | .executed before call value => call.outboxEntry before e value
  | .sent _ => none
  | .delivered _ _ => none

/-- Everything that happened to the outbox row of an event, newest first. -/
def World.outboxLog (w : World) (e : UUID) : List OutboxEntry :=
  w.history.filterMap (Record.outboxEntry e)

/-- The row shows where its event's dispatch stands. -/
def Shows : Option OutboxRow → Standing String ℤ → Prop
  | none, .absent => True
  | some row, .free =>
      row.state = .pending ∧ row.sendAttemptCount = 0 ∧ row.claimToken = none
  | some row, .held claimToken leaseUntilMs =>
      row.state = .pending ∧ row.sendAttemptCount = 0 ∧
        row.claimToken = some claimToken ∧
        row.leaseUntilMs = some leaseUntilMs
  | some row, .closed => row.state = .sent ∧ row.sendAttemptCount = 1
  | _, _ => False

section Rows

variable {row : OutboxRow} {s : Standing String ℤ}

/-- A pending row is free or held. -/
theorem Shows.pending (h : Shows (some row) s) (hpending : row.state = .pending) :
    row.sendAttemptCount = 0 ∧
      (s = .free ∧ row.claimToken = none ∨
        ∃ claimToken leaseUntilMs, s = .held claimToken leaseUntilMs ∧
          row.claimToken = some claimToken ∧
          row.leaseUntilMs = some leaseUntilMs) := by
  cases s with
  | absent => exact h.elim
  | free => exact ⟨h.2.1, Or.inl ⟨rfl, h.2.2⟩⟩
  | held claimToken leaseUntilMs =>
      exact ⟨h.2.1, Or.inr ⟨claimToken, leaseUntilMs, rfl, h.2.2⟩⟩
  | closed =>
      rw [h.1] at hpending
      cases hpending

theorem Shows.closed (h : Shows (some row) s) (hsent : row.state = .sent) :
    s = .closed := by
  cases s with
  | absent => exact h.elim
  | free | held =>
      rw [h.1] at hsent
      cases hsent
  | closed => rfl

/-- A row that a repair may claim is free or its lease has ended. -/
theorem Shows.allowed_claim {nowMs : ℤ} (h : Shows (some row) s)
    (hclaimable : row.claimable nowMs = true) (claimToken : String)
    (leaseUntilMs : ℤ) :
    (.claimed claimToken leaseUntilMs nowMs : OutboxEntry).Allowed s ∧
      Shows (some (row.claimed claimToken leaseUntilMs nowMs))
        (.held claimToken leaseUntilMs) := by
  simp only [OutboxRow.claimable, Bool.and_eq_true, Bool.or_eq_true,
    decide_eq_true_eq] at hclaimable
  obtain ⟨hpending, hopen⟩ := hclaimable
  obtain ⟨hcount, hstanding⟩ := h.pending hpending
  refine ⟨?_, hpending, hcount, rfl, rfl⟩
  rcases hstanding with ⟨rfl, -⟩ | ⟨holder, until', rfl, htoken, hlease⟩
  · trivial
  · rcases hopen with hnone | hexpired
    · rw [htoken] at hnone
      cases hnone
    · rw [hlease] at hexpired
      have hended : until' ≤ nowMs := of_decide_eq_true hexpired
      exact hended

/-- The guards of `mark_dispatched` are those of closing. -/
theorem Shows.allowed_close {claimToken : Option String}
    (h : Shows (some row) s) (hpending : row.state = .pending)
    (hguard : row.claimToken = claimToken) :
    (.closed claimToken : OutboxEntry).Allowed s := by
  obtain ⟨-, hstanding⟩ := h.pending hpending
  rcases hstanding with ⟨rfl, hnone⟩ | ⟨holder, until', rfl, htoken, -⟩
  · obtain rfl := hnone.symm.trans hguard
    trivial
  · obtain rfl := htoken.symm.trans hguard
    rfl

/-- The guard of `release_outbox_claim` is that of releasing. -/
theorem Shows.allowed_release {claimToken : String} (h : Shows (some row) s)
    (hpending : row.state = .pending)
    (hguard : row.claimToken = some claimToken) :
    (.released claimToken : OutboxEntry).Allowed s := by
  obtain ⟨-, hstanding⟩ := h.pending hpending
  rcases hstanding with ⟨rfl, hnone⟩ | ⟨holder, until', rfl, htoken, -⟩
  · rw [hnone] at hguard
    cases hguard
  · exact (Option.some.inj (htoken.symm.trans hguard)).symm

end Rows

section Claims

/-- The rows of a claim have distinct ids. -/
theorem claimableOutbox_nodup (db : Database) (nowMs limit : ℤ) :
    ((claimableOutbox db nowMs limit).map Sigma.fst).Nodup := by
  have hrows : ((db.outbox.entries.filter fun entry =>
      entry.2.claimable nowMs).map Sigma.fst).Nodup :=
    List.NodupKeys.sublist List.filter_sublist db.outbox.nodupKeys
  unfold claimableOutbox
  dsimp only
  split
  · exact ((List.perm_insertionSort _ _).map _).nodup_iff.mpr hrows
  · exact (((List.perm_insertionSort _ _).map _).nodup_iff.mpr hrows).sublist
      ((List.take_sublist _ _).map _)

theorem claimable_of_mem {nowMs limit : ℤ} {entry : (_ : UUID) × OutboxRow}
    (h : entry ∈ claimableOutbox db nowMs limit) :
    entry.2.claimable nowMs = true := by
  unfold claimableOutbox at h
  dsimp only at h
  split at h
  · rw [List.mem_insertionSort] at h
    exact (List.mem_filter.mp h).2
  · have hsorted := List.mem_of_mem_take h
    rw [List.mem_insertionSort] at hsorted
    exact (List.mem_filter.mp hsorted).2

variable {claimToken : String} {leaseUntilMs nowMs : ℤ}
  {rows : List ((_ : UUID) × OutboxRow)}

theorem claimRows_of_not_mem (h : e ∉ rows.map Sigma.fst) :
    (claimRows claimToken leaseUntilMs nowMs rows db).outbox.lookup e =
      db.outbox.lookup e := by
  induction rows generalizing db with
  | nil => rfl
  | cons entry rest ih =>
      rw [List.map_cons, List.mem_cons, not_or] at h
      refine (ih h.2).trans ?_
      exact AList.lookup_insert_ne h.1

/-- A claimed row belongs to its owner from then on. -/
theorem claimRows_of_mem {row : OutboxRow} (hnodup : (rows.map Sigma.fst).Nodup)
    (h : ⟨e, row⟩ ∈ rows) :
    (claimRows claimToken leaseUntilMs nowMs rows db).outbox.lookup e =
      some (row.claimed claimToken leaseUntilMs nowMs) := by
  induction rows generalizing db with
  | nil => cases h
  | cons entry rest ih =>
      rw [List.map_cons, List.nodup_cons] at hnodup
      rcases List.mem_cons.mp h with rfl | h
      · refine (claimRows_of_not_mem hnodup.1).trans ?_
        exact AList.lookup_insert _
      · exact ih hnodup.2 h

end Claims

section Statements

/-- What a statement does to the outbox row of an event: nothing, or what an
allowed entry says. -/
inductive RowEffect (db db' : Database) (e : UUID) (s : Standing String ℤ) :
    Option OutboxEntry → Prop where
  | silent (same : db'.outbox.lookup e = db.outbox.lookup e) :
      RowEffect db db' e s none
  | made {entry : OutboxEntry} (allowed : entry.Allowed s)
      (shown : Shows (db'.outbox.lookup e) entry.standing) :
      RowEffect db db' e s (some entry)

variable {s : Standing String ℤ} {call : D1Call} {value : call.Value}

/-- A closed row is left as it is. -/
theorem RowEffect.of_closed {made : Option OutboxEntry}
    (h : RowEffect db db' e s made) (hs : s = .closed) :
    db'.outbox.lookup e = db.outbox.lookup e := by
  subst hs
  cases h with
  | silent same => exact same
  | made allowed shown => exact absurd allowed LeaseEntry.not_allowed_closed

theorem rowEffect_acceptBatch {proposed : UUID} {eventType fingerprint : String}
    {chunks : List String} {keyHash : Option String} {nowMs : ℤ}
    {value : Option AcceptedRow} (hpaired : Paired db)
    (hshows : Shows (db.outbox.lookup e) s)
    (h : acceptBatch proposed eventType chunks fingerprint keyHash nowMs db =
      some (value, db')) :
    RowEffect db db' e s ((D1Call.acceptBatch proposed eventType chunks
      fingerprint keyHash nowMs).outboxEntry db e value) := by
  obtain ⟨hevents, houtbox⟩ := acceptBatch_cases h
  rcases hevents with ⟨key, id, row, -, hfound, rfl, hsame⟩ |
    ⟨hfresh, rfl, hwritten⟩
  · have hquiet : ¬(proposed = e ∧ proposed ∉ db.events ∧
        (some (AcceptedRow.mk id row.requestFingerprint row.status
          row.attemptCount)).any fun row => row.eventId = proposed) := by
      rintro ⟨-, hnew, hid⟩
      have hid : id = proposed := by simpa using hid
      exact hnew (hid ▸ eventWithKey_mem hfound)
    rw [D1Call.outboxEntry, if_neg hquiet]
    refine .silent ?_
    rw [houtbox, if_neg]
    rintro ⟨hmem, hnot⟩
    rw [hsame, hpaired] at hmem
    exact hmem (outboxState_eq_none.mpr hnot)
  · have hnot : proposed ∉ db.outbox := by
      rw [← outboxState_eq_none]
      by_contra hsome
      exact hfresh ((hpaired proposed).mpr hsome)
    have hmem : proposed ∈ db'.events := by
      rw [hwritten, AList.mem_insert]
      exact Or.inl rfl
    rw [if_pos ⟨hmem, hnot⟩] at houtbox
    by_cases he : proposed = e
    · subst he
      rw [D1Call.outboxEntry, if_pos ⟨rfl, hfresh, by simp⟩]
      rw [AList.lookup_eq_none.mpr hnot] at hshows
      refine .made ?_ ?_
      · cases s with
        | absent => trivial
        | free | held | closed => exact hshows.elim
      · rw [houtbox, AList.lookup_insert]
        exact ⟨rfl, rfl, rfl⟩
    · rw [D1Call.outboxEntry, if_neg (fun hc => he hc.1)]
      refine .silent ?_
      rw [houtbox, AList.lookup_insert_ne (Ne.symm he)]

theorem rowEffect_claimOutbox {claimToken : String}
    {leaseUntilMs nowMs limit : ℤ} {value : List (UUID × ℕ)}
    (hshows : Shows (db.outbox.lookup e) s)
    (h : claimOutbox claimToken leaseUntilMs nowMs limit db =
      some (value, db')) :
    RowEffect db db' e s ((D1Call.claimOutbox claimToken leaseUntilMs nowMs
      limit).outboxEntry db e value) := by
  obtain ⟨rfl, rfl⟩ := Prod.mk.inj (Option.some.inj h)
  let rows := claimableOutbox db nowMs limit
  have hids : (rows.map fun entry => (entry.1, entry.2.sendAttemptCount)).map
      Prod.fst = rows.map Sigma.fst := by
    rw [List.map_map]
    rfl
  simp only [D1Call.outboxEntry]
  rw [hids]
  by_cases he : e ∈ rows.map Sigma.fst
  · rw [if_pos he]
    obtain ⟨⟨id, row⟩, hentry, rfl⟩ := List.mem_map.mp he
    rw [mem_claimableOutbox hentry] at hshows
    obtain ⟨hallowed, hshown⟩ := hshows.allowed_claim
      (claimable_of_mem hentry) claimToken leaseUntilMs
    refine .made hallowed ?_
    rw [claimRows_of_mem (claimableOutbox_nodup db nowMs limit) hentry]
    exact hshown
  · rw [if_neg he]
    exact .silent (claimRows_of_not_mem he)

/-- An update of a pending row makes an entry for its event only. -/
theorem rowEffect_update {eventId : UUID} {selected : OutboxRow → Bool}
    {update : OutboxRow → OutboxRow} {result : Option OutboxRow}
    {entry : OutboxEntry} (hshows : Shows (db.outbox.lookup e) s)
    (hallowed : ∀ row, Shows (some row) s → selected row = true →
      entry.Allowed s ∧ Shows (some (update row)) entry.standing)
    (h : updateOutbox eventId selected update db = some (result, db')) :
    RowEffect db db' e s
      (if eventId = e ∧ changes result = 1 then some entry else none) := by
  rcases updateOutbox_cases h with ⟨row, hrow, hselected, rfl, rfl⟩ | ⟨rfl, rfl⟩
  · by_cases he : eventId = e
    · subst he
      rw [if_pos ⟨rfl, rfl⟩]
      rw [hrow] at hshows
      obtain ⟨hentry, hshown⟩ := hallowed row hshows hselected
      refine .made hentry ?_
      rw [AList.lookup_insert]
      exact hshown
    · rw [if_neg (fun hc => he hc.1)]
      exact .silent (AList.lookup_insert_ne (Ne.symm he))
  · rw [if_neg (fun hc => absurd hc.2 (by simp [changes]))]
    exact .silent rfl

theorem rowEffect (hpaired : Paired db)
    (hshows : Shows (db.outbox.lookup e) s)
    (h : call.statement db = some (value, db')) :
    RowEffect db db' e s (call.outboxEntry db e value) := by
  cases call with
  | acceptBatch => exact rowEffect_acceptBatch hpaired hshows h
  | selectEvent | selectPayloadChunks | selectState | selectOutbox =>
      obtain ⟨-, rfl⟩ := Prod.mk.inj (Option.some.inj h)
      exact .silent rfl
  | claimOutbox => exact rowEffect_claimOutbox hshows h
  | markDispatched eventId nowMs claimToken =>
      obtain ⟨result, hrun, rfl⟩ := map_eq_some h
      refine rowEffect_update hshows (fun row hrow hselected => ?_) hrun
      simp only [Bool.and_eq_true, decide_eq_true_eq] at hselected
      refine ⟨hrow.allowed_close hselected.1 hselected.2, rfl, ?_⟩
      rw [(hrow.pending hselected.1).1]
  | releaseOutboxClaim eventId claimToken nowMs =>
      obtain ⟨result, hrun, rfl⟩ := map_eq_some h
      refine rowEffect_update hshows (fun row hrow hselected => ?_) hrun
      simp only [Bool.and_eq_true, decide_eq_true_eq] at hselected
      exact ⟨hrow.allowed_release hselected.1 hselected.2, hselected.1,
        (hrow.pending hselected.1).1, rfl⟩
  | claimDelivery =>
      rcases updateEvent_cases h with ⟨-, -, -, -, rfl⟩ | ⟨-, rfl⟩ <;>
        exact .silent rfl
  | deadLetterExhausted | updateTerminal =>
      obtain ⟨result, hrun, rfl⟩ := map_eq_some h
      rcases updateEvent_cases hrun with ⟨-, -, -, -, rfl⟩ | ⟨-, rfl⟩ <;>
        exact .silent rfl

end Statements

section Logs

/-- Every outbox row shows where its orderly log leads. -/
def Leased (w : World) : Prop :=
  ∀ e, Shows (w.db.outbox.lookup e) (standing (w.outboxLog e)) ∧
    Orderly (w.outboxLog e)

theorem outboxLog_ran {call : D1Call} {value : call.Value} {db : Database} :
    (w.ran call value db).outboxLog e =
      (call.outboxEntry w.db e value).toList ++ w.outboxLog e := by
  have hrecord : Record.outboxEntry e (.executed w.db call value) =
      call.outboxEntry w.db e value := rfl
  cases hentry : call.outboxEntry w.db e value with
  | none => exact List.filterMap_cons_none (hrecord.trans hentry)
  | some entry => exact List.filterMap_cons_some (hrecord.trans hentry)

theorem Leased.ran {call : D1Call} {value : call.Value} {db : Database}
    (h : Leased w) (hpaired : Paired w.db)
    (hrun : call.statement w.db = some (value, db)) :
    Leased (w.ran call value db) := by
  intro e
  obtain ⟨hshows, horderly⟩ := h e
  have heffect := rowEffect hpaired hshows hrun
  rw [outboxLog_ran]
  cases hentry : call.outboxEntry w.db e value with
  | none =>
      rw [hentry] at heffect
      cases heffect with
      | silent same =>
          refine ⟨?_, horderly⟩
          rw [World.ran, same]
          exact hshows
  | some entry =>
      rw [hentry] at heffect
      cases heffect with
      | made allowed shown => exact ⟨shown, horderly, allowed⟩

theorem Leased.exec {op : Op} {reply : op.Reply} (h : Leased w)
    (hpaired : Paired w.db) (hexec : World.Exec w op reply w') : Leased w' := by
  cases hexec with
  | answered call value returned db run agrees => exact h.ran hpaired run
  | replyLost call value db run => exact h.ran hpaired run
  | _ => exact h

theorem reach_leased (h : Reached G maxima w) : Leased w := by
  refine Machine.Reach.induction (P := Leased) ?_ ?_ h
  · rintro w rfl e
    exact ⟨trivial, trivial⟩
  · rintro w op reply w' hw hleased - ⟨-, hexec⟩
    exact hleased.exec (reach_invariant hw).paired hexec

/-- A row whose event is dispatched is never written again. -/
theorem lasting_dispatched (e : UUID) (row : OutboxRow) :
    Lasting G maxima fun w =>
      Leased w ∧ w.db.outbox.lookup e = some row ∧ row.state = .sent := by
  refine lasting_of_exec fun w op reply w' hinv _ hexec h => ?_
  obtain ⟨hleased, hrow, hsent⟩ := h
  refine ⟨hleased.exec hinv.paired hexec, ?_, hsent⟩
  have hran : ∀ (call : D1Call) (value : call.Value) (db : Database),
      call.statement w.db = some (value, db) →
      db.outbox.lookup e = some row := by
    intro call value db hrun
    have heffect := rowEffect hinv.paired (hleased e).1 hrun
    have hshows := (hleased e).1
    rw [hrow] at hshows
    exact (heffect.of_closed (hshows.closed hsent)).trans hrow
  cases hexec with
  | answered call value returned db run agrees => exact hran call value db run
  | replyLost call value db run => exact hran call value db run
  | _ => exact hrow

end Logs

section Tokens

/-- The token of an executed claim. -/
def Record.outboxToken : Record → Option String
  | .executed _ (.claimOutbox claimToken _ _ _) _ => some claimToken
  | _ => none

/-- The tokens of all claims of the outbox, newest first. -/
def World.outboxTokens (w : World) : List String :=
  w.history.filterMap Record.outboxToken

/-- No claim of the outbox uses the token of an earlier one. -/
def DistinctClaims (w : World) : Op → Prop
  | .d1 (.claimOutbox claimToken _ _ _) => claimToken ∉ w.outboxTokens
  | _ => True

instance (w : World) : DecidablePred (DistinctClaims w) := fun op =>
  match op with
  | .d1 (.claimOutbox token _ _ _) =>
      inferInstanceAs (Decidable (token ∉ w.outboxTokens))
  | .d1 (.acceptBatch ..) | .d1 (.selectEvent _)
  | .d1 (.selectPayloadChunks _) | .d1 (.selectState _)
  | .d1 (.selectOutbox _) | .d1 (.claimDelivery ..) | .d1 (.markDispatched ..)
  | .d1 (.releaseOutboxClaim ..) | .d1 (.deadLetterExhausted ..)
  | .d1 (.updateTerminal ..) | .time | .uuid4 | .uniform .. | .queueSend _
  | .deliver _ | .emit _ | .ack _ | .retry .. => instDecidableTrue

theorem outboxToken_of_entry {record : Record} {token : String}
    (h : (record.outboxEntry e).bind LeaseEntry.claimToken = some token) :
    record.outboxToken = some token := by
  obtain ⟨entry, hentry, htoken⟩ := Option.bind_eq_some_iff.mp h
  cases entry with
  | opened | released | closed => cases htoken
  | claimed token' leaseUntilMs nowMs =>
      obtain rfl := Option.some.inj htoken
      cases record with
      | executed before call value =>
          cases call with
          | claimOutbox =>
              obtain ⟨-, heq⟩ := Option.ite_none_right_eq_some.mp hentry
              obtain ⟨rfl, -, -⟩ := LeaseEntry.claimed.inj (Option.some.inj heq)
              rfl
          | acceptBatch | markDispatched | releaseOutboxClaim =>
              obtain ⟨-, heq⟩ := Option.ite_none_right_eq_some.mp hentry
              cases heq
          | _ => cases hentry
      | sent | delivered => cases hentry

/-- The claims of one event are among all claims. -/
theorem claimTokens_sublist (w : World) (e : UUID) :
    (claimTokens (w.outboxLog e)).Sublist w.outboxTokens := by
  rw [claimTokens, World.outboxLog, World.outboxTokens, List.filterMap_filterMap]
  induction w.history with
  | nil => exact List.Sublist.refl _
  | cons record history ih =>
      rw [List.filterMap_cons, List.filterMap_cons]
      cases hentry : (record.outboxEntry e).bind LeaseEntry.claimToken with
      | none =>
          cases record.outboxToken with
          | none => exact ih
          | some token => exact ih.cons token
      | some token =>
          rw [outboxToken_of_entry hentry]
          exact ih.cons_cons token

theorem reach_distinctClaims (hG : ∀ w op, G w op → DistinctClaims w op)
    (h : Reached G maxima w) (e : UUID) :
    (claimTokens (w.outboxLog e)).Nodup := by
  have hall : w.outboxTokens.Nodup := by
    refine Machine.Reach.induction
      (P := fun w : World => w.outboxTokens.Nodup) ?_ ?_ h
    · rintro w rfl
      exact List.nodup_nil
    · rintro w op reply w' - hw - ⟨hop, hexec⟩
      have hran : ∀ (call : D1Call) (value : call.Value) (db : Database),
          DistinctClaims w (.d1 call) →
          (w.ran call value db).outboxTokens.Nodup := by
        intro call value db hcall
        cases call with
        | claimOutbox => exact List.nodup_cons.mpr ⟨hcall, hw⟩
        | _ => exact hw
      cases hexec with
      | answered call value returned db => exact hran call value db (hG _ _ hop)
      | replyLost call value db => exact hran call value db (hG _ _ hop)
      | _ => exact hw
  exact hall.sublist (claimTokens_sublist w e)

end Tokens

section Guards

theorem db_of_exec {call : D1Call} {reply : (Op.d1 call).Reply}
    (h : World.Exec w (.d1 call) reply w') :
    w'.db = w.db ∨ ∃ value, call.statement w.db = some (value, w'.db) := by
  cases h with
  | answered call value returned db run agrees => exact Or.inr ⟨value, run⟩
  | replyLost call value db run => exact Or.inr ⟨value, run⟩
  | failed => exact Or.inl rfl

/-- A pending row that does not show the token is not dispatched under it. -/
theorem markDispatched_unselected {nowMs : ℤ} {claimToken : Option String}
    {reply : (Op.d1 (.markDispatched e nowMs claimToken)).Reply}
    (hguard : ∀ row, w.db.outbox.lookup e = some row → row.state = .pending →
      row.claimToken ≠ claimToken)
    (h : World.Exec w (.d1 (.markDispatched e nowMs claimToken)) reply w') :
    w'.db = w.db := by
  rcases db_of_exec h with hsame | ⟨value, hrun⟩
  · exact hsame
  obtain ⟨result, hupdate, -⟩ := map_eq_some hrun
  rcases updateOutbox_cases hupdate with ⟨row, hrow, hselected, -, -⟩ | ⟨-, hsame⟩
  · simp only [Bool.and_eq_true, decide_eq_true_eq] at hselected
    exact absurd hselected.2 (hguard row hrow hselected.1)
  · exact hsame

/-- A pending row that does not show the token is not released under it. -/
theorem releaseOutboxClaim_unselected {nowMs : ℤ} {claimToken : String}
    {reply : (Op.d1 (.releaseOutboxClaim e claimToken nowMs)).Reply}
    (hguard : ∀ row, w.db.outbox.lookup e = some row → row.state = .pending →
      row.claimToken ≠ some claimToken)
    (h : World.Exec w (.d1 (.releaseOutboxClaim e claimToken nowMs)) reply
      w') : w'.db = w.db := by
  rcases db_of_exec h with hsame | ⟨value, hrun⟩
  · exact hsame
  obtain ⟨result, hupdate, -⟩ := map_eq_some hrun
  rcases updateOutbox_cases hupdate with ⟨row, hrow, hselected, -, -⟩ | ⟨-, hsame⟩
  · simp only [Bool.and_eq_true, decide_eq_true_eq] at hselected
    exact absurd hselected.2 (hguard row hrow hselected.1)
  · exact hsame

end Guards

end Hooklane.Cloudflare
