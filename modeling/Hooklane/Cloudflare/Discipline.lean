import Hooklane.Cloudflare.Tokens

/-!
# The services keep the discipline

What a service has learned from a reply lasts: an issued token stays issued, a
finished event stays finished, a confirmed send and a success of the sink stay
in the history.  `Post` says what a request's result tells about the state in
which it is read, however much later that is.
-/

namespace Hooklane.Cloudflare

open Support ProgE

variable {maxima : ℕ → Prop} {G : World → Op → Prop} {w w' : World} {e : UUID}

/-- The environment in which a request finds itself: permitted calls that also
meet `G`. -/
abbrev Reached (G : World → Op → Prop) (maxima : ℕ → Prop) (w : World) :
    Prop :=
  (d1Machine.restrict G).Reach (May maxima) w

/-- Permitted calls that meet `G` lead from one state to another. -/
abbrev Onward (G : World → Op → Prop) (maxima : ℕ → Prop) (w w' : World) :
    Prop :=
  (d1Machine.restrict G).Later (May maxima) w w'

/-- A program keeps the discipline, ends with `Q` and raises only what `E`
allows. -/
abbrev Keeps (G : World → Op → Prop) (maxima : ℕ → Prop) {α : Type}
    (p : App α) (Q : α → World → Prop) (E : Raised → Prop) (w : World) :
    Prop :=
  EnsuresElse (M := d1Machine.restrict G) (May maxima) p Q E w

/-- A fact that permitted calls cannot undo. -/
def Lasting (G : World → Op → Prop) (maxima : ℕ → Prop)
    (F : World → Prop) : Prop :=
  ∀ w w', Reached G maxima w → Onward G maxima w w' → F w → F w'

section Lasting

theorem lasting_of_exec {F : World → Prop}
    (hF : ∀ (w : World) (op : Op) (reply : op.Reply) (w' : World),
      Invariant maxima w → May maxima w op → World.Exec w op reply w' →
      F w → F w') : Lasting G maxima F := by
  intro w w' hw hlater
  refine Machine.Later.stable (P := F) ?_ hw hlater
  rintro s op reply s' hs hFs hmay ⟨-, hexec⟩
  exact hF s op reply s' (reach_invariant hs) hmay hexec hFs

theorem lasting_true : Lasting G maxima fun _ => True :=
  fun _ _ _ _ _ => trivial

theorem Lasting.and {F F' : World → Prop} (hF : Lasting G maxima F)
    (hF' : Lasting G maxima F') : Lasting G maxima fun w => F w ∧ F' w :=
  fun w w' hw hlater h => ⟨hF w w' hw hlater h.1, hF' w w' hw hlater h.2⟩

theorem Lasting.imp {F : World → Prop} (c : Prop)
    (hF : c → Lasting G maxima F) : Lasting G maxima fun w => c → F w :=
  fun w w' hw hlater h hc => hF hc w w' hw hlater (h hc)

theorem lasting_finished (e : UUID) :
    Lasting G maxima fun w => w.Finished e :=
  lasting_of_exec fun _ _ _ _ hinv hmay hexec h =>
    h.exec hinv.journaled hmay hexec

theorem lasting_succeeded (e : UUID) :
    Lasting G maxima fun w => w.Succeeded e :=
  lasting_of_exec fun _ _ _ _ _ _ hexec h => h.exec hexec

theorem lasting_sent (e : UUID) : Lasting G maxima fun w => w.Sent e :=
  lasting_of_exec fun _ _ _ _ _ _ hexec h => h.exec hexec

theorem lasting_message (n : ℕ) (body : String) :
    Lasting G maxima fun w => w.messages[n]? = some body :=
  lasting_of_exec fun _ _ _ _ _ _ hexec h => message_exec hexec h

/-- A token was issued for an attempt of an event. -/
def Issued (e : UUID) (token : String) (attempt : ℕ) (w : World) : Prop :=
  (token, attempt) ∈ claims (w.journal e)

theorem lasting_issued (e : UUID) (token : String) (attempt : ℕ) :
    Lasting G maxima (Issued e token attempt) :=
  lasting_of_exec fun _ _ _ _ _ _ hexec h =>
    mem_claims.mpr ((journal_suffix (exec_history hexec) e).subset
      (mem_claims.mp h))

/-- The event is finished with this lifecycle. -/
def Closed (e : UUID) (l : Lifecycle) (w : World) : Prop :=
  w.lifecycle e = some l ∧ l.status.Terminal

theorem lasting_closed (e : UUID) (l : Lifecycle) :
    Lasting G maxima (Closed e l) :=
  lasting_of_exec fun _ _ _ _ hinv hmay hexec h =>
    ⟨(lifecycle_exec hinv.journaled hmay hexec h.1 h.2).1, h.2⟩

/-- The event is finished with this status; with distinct tokens and one
bound, also with this number of attempts. -/
def Answered (G : World → Op → Prop) (maxima : ℕ → Prop) (e : UUID)
    (status : EventStatus) (attemptCount : ℕ) (w : World) : Prop :=
  ∃ l, Closed e l w ∧ l.status = status ∧
    (Strict G maxima → l.attemptCount = attemptCount)

theorem lasting_answered (e : UUID) (status : EventStatus)
    (attemptCount : ℕ) :
    Lasting G maxima (Answered G maxima e status attemptCount) := by
  rintro w w' hw hlater ⟨l, hclosed, hanswer⟩
  exact ⟨l, lasting_closed e l w w' hw hlater hclosed, hanswer⟩

end Lasting

section Calls

variable {E : Raised → Prop} {F : World → Prop}

/-- Calls that are always permitted. -/
def Neutral : Op → Prop
  | .d1 (.claimDelivery ..) | .d1 (.deadLetterExhausted ..)
  | .d1 (.updateTerminal ..) | .d1 (.markDispatched ..) | .ack _ => False
  | _ => True

theorem may_of_neutral (op : Op) (w : World) (h : Neutral op) :
    May maxima w op := by
  cases op with
  | d1 call =>
      cases call <;> trivial
  | ack => exact absurd h (by simp [Neutral])
  | _ => trivial

/-- A neutral call keeps what lasts. -/
theorem keeps_request {op : Op} (hop : Neutral op)
    (hF : Lasting G maxima F) (hw : Reached G maxima w) (h : F w) :
    Keeps G maxima (App.request op) (fun _ => F) E w := by
  apply ensuresElse_perform
  · exact fun w' _ _ => may_of_neutral op w' hop
  · intro s hlater hs reply t hexec t' hlater' _
    have hstep : Onward G maxima s t :=
      Machine.Later.move (may_of_neutral op s hop) hexec
    exact hF w t' hw ((hlater.trans hstep).trans hlater') h

theorem keeps_pure {α : Type} {a : α} {Q : α → World → Prop}
    (hQ : Lasting G maxima (Q a)) (hw : Reached G maxima w) (h : Q a w) :
    Keeps G maxima (pure a : App α) Q E w :=
  ensuresElse_pure fun w' hlater _ => hQ w w' hw hlater h

theorem keeps_emit {transition : String} {attempt : ℕ} {reason : String}
    (hF : Lasting G maxima F) (hw : Reached G maxima w) (h : F w) :
    Keeps G maxima (App.emit transition e attempt reason) (fun _ => F) E w :=
  keeps_request trivial hF hw h

theorem keeps_nowMs (hF : Lasting G maxima F) (hw : Reached G maxima w)
    (h : F w) : Keeps G maxima App.nowMs (fun _ => F) E w :=
  (keeps_request (show Neutral .time from trivial) hF hw h).bind fun _ _ hw' h' =>
    keeps_pure hF hw' h'

theorem keeps_uuid4Hex (hF : Lasting G maxima F) (hw : Reached G maxima w)
    (h : F w) : Keeps G maxima App.uuid4Hex (fun _ => F) E w :=
  (keeps_request (show Neutral .uuid4 from trivial) hF hw h).bind fun _ _ hw' h' =>
    keeps_pure hF hw' h'

/-- One call to D1: permitted when it is issued, and its value tells what the
statement did. -/
theorem keeps_execute {call : D1Call} {Q : call.Value → World → Prop}
    (hE : E .persistenceUnavailable)
    (hmay : ∀ w', Reached G maxima w' → Onward G maxima w w' →
      May maxima w' (.d1 call))
    (hQ : ∀ w' value returned db, Reached G maxima w' →
      Onward G maxima w w' → Reached G maxima (w'.ran call value db) →
      Onward G maxima w (w'.ran call value db) →
      call.statement w'.db = some (value, db) → call.Agrees returned value →
      Q returned (w'.ran call value db))
    (hlasting : ∀ value, Lasting G maxima (Q value)) :
    Keeps G maxima (App.execute call) Q E w := by
  have hreply : Keeps G maxima (App.request (.d1 call))
      (fun reply w' => ∀ value, reply = some value → Q value w') E w := by
    apply ensuresElse_perform
    · exact fun s hlater hs => hmay s hs hlater
    · rintro s hlater hs reply t ⟨hG, hexec⟩ t' hlater' - value hvalue
      have hstep : Onward G maxima s t :=
        Machine.Later.move (hmay s hs hlater) ⟨hG, hexec⟩
      have ht := hs.later hstep
      refine hlasting value t t' ht hlater' ?_
      cases hexec with
      | answered call value' returned db run agrees =>
          obtain rfl := Option.some.inj hvalue
          exact hQ s value' returned db hs hlater ht (hlater.trans hstep) run
            agrees
      | replyLost | failed => cases hvalue
  refine hreply.bind fun reply w' hw' h => ?_
  cases reply with
  | some value => exact keeps_pure (hlasting value) hw' (h value rfl)
  | none => exact ensuresElse_throw hE

/-- A neutral statement keeps what lasts. -/
theorem keeps_execute_neutral {call : D1Call} (hE : E .persistenceUnavailable)
    (hcall : Neutral (.d1 call)) (hF : Lasting G maxima F)
    (hw : Reached G maxima w) (h : F w) :
    Keeps G maxima (App.execute call) (fun _ => F) E w :=
  keeps_execute hE (fun w' _ _ => may_of_neutral _ w' hcall)
    (fun _ _ _ _ _ _ _ hlater _ _ => hF w _ hw hlater h) fun _ => hF

end Calls

section Store

variable {E : Raised → Prop} {F : World → Prop} {store : D1EventStore}

theorem keeps_loadPayloadJson {legacy : String} (hE : E .persistenceUnavailable)
    (hF : Lasting G maxima F) (hw : Reached G maxima w) (h : F w) :
    Keeps G maxima (D1EventStore.loadPayloadJson e legacy) (fun _ => F) E
      w := by
  have hneutral : Neutral (.d1 (.selectPayloadChunks e)) := trivial
  refine (keeps_execute_neutral hE hneutral hF hw h).bind ?_
  intro chunks w' hw' h'
  split
  · exact keeps_pure hF hw' h'
  · split
    · exact keeps_pure hF hw' h'
    · exact ensuresElse_throw hE

/-- The record that is loaded for a row. -/
def RecordOf (e : UUID) (row : EventRow) (record : EventRecord) : Prop :=
  record.eventId = e ∧ record.status = row.status ∧
    record.attemptCount = row.attemptCount

theorem keeps_loadRecord {row : EventRow} (hE : E .persistenceUnavailable)
    (hF : Lasting G maxima F) (hw : Reached G maxima w) (h : F w) :
    Keeps G maxima (store.loadRecord e row)
      (fun record w' => F w' ∧ RecordOf e row record) E w := by
  refine (keeps_loadPayloadJson hE hF hw h).bind ?_
  intro payloadJson w' hw' h'
  dsimp only
  split
  · refine keeps_pure ?_ hw' ⟨h', rfl, rfl, rfl⟩
    exact hF.and fun _ _ _ _ h => h
  · exact ensuresElse_throw hE

theorem keeps_getStatus (hE : E .persistenceUnavailable) :
    Keeps G maxima (store.getStatus e)
      (fun current w' => ∀ record, current = some record →
        record.status.Terminal →
        Answered G maxima e record.status record.attemptCount w') E w := by
  have hread : Keeps G maxima (App.execute (.selectEvent e))
      (fun found w' => ∀ row, found = some row → row.status.Terminal →
        Closed e row.lifecycle w') E w := by
    refine keeps_execute hE (fun _ _ _ => trivial) ?_ ?_
    · rintro w' value found db - - - - hrun rfl row rfl hterminal
      obtain ⟨hrow, rfl⟩ := Prod.mk.inj (Option.some.inj hrun)
      refine ⟨?_, hterminal⟩
      change (w'.db.events.lookup e).map EventRow.lifecycle = _
      rw [hrow, Option.map_some]
    · intro found w₁ w₂ hw₁ hlater h row hrow hterminal
      exact lasting_closed e row.lifecycle w₁ w₂ hw₁ hlater
        (h row hrow hterminal)
  refine hread.bind fun found w' hw' h => ?_
  cases found with
  | none =>
      refine keeps_pure ?_ hw' (fun _ hnone => nomatch hnone)
      exact fun _ _ _ _ _ _ hnone => nomatch hnone
  | some row =>
      have hlasting : Lasting G maxima fun w => row.status.Terminal →
          Closed e row.lifecycle w :=
        Lasting.imp _ fun _ => lasting_closed e _
      refine (keeps_loadRecord hE hlasting hw' (h row rfl)).bind ?_
      rintro record w₁ hw₁ ⟨hclosed, -, hstatus, hattempt⟩
      refine keeps_pure ?_ hw₁ ?_
      · intro w₂ w₃ hw₂ hlater h' record' hrecord' hterminal
        exact lasting_answered e _ _ w₂ w₃ hw₂ hlater
          (h' record' hrecord' hterminal)
      · rintro _ ⟨⟩ hterminal
        rw [hstatus] at hterminal ⊢
        exact ⟨row.lifecycle, hclosed hterminal, rfl, fun _ => hattempt.symm⟩

/-- The event was finished before, with this lifecycle, if one is known. -/
def Known (e : UUID) (known : Option Lifecycle) (w : World) : Prop :=
  ∀ l, known = some l → Closed e l w

theorem lasting_known (e : UUID) (known : Option Lifecycle) :
    Lasting G maxima (Known e known) := by
  intro w w' hw hlater h l hl
  exact lasting_closed e l w w' hw hlater (h l hl)

/-- What `mark_delivery_started` may raise when the event was finished
before. -/
def StartRaises (known : Option Lifecycle) (raised : Raised) : Prop :=
  known ≠ none → raised = .persistenceUnavailable

/-- What the state read for an event tells. -/
structure StateRead (e : UUID) (known : Option Lifecycle)
    (state : EventStatus × ℕ) (w : World) : Prop where
  terminal : state.1.Terminal →
    ∃ l, Closed e l w ∧ state = (l.status, l.attemptCount)
  agrees : ∀ l, known = some l → state = (l.status, l.attemptCount)
  known : Known e known w

theorem lasting_stateRead (e : UUID) (known : Option Lifecycle)
    (state : EventStatus × ℕ) :
    Lasting G maxima (StateRead e known state) := by
  intro w w' hw hlater h
  refine ⟨fun hterminal => ?_, h.agrees,
    lasting_known e known w w' hw hlater h.known⟩
  obtain ⟨l, hclosed, hstate⟩ := h.terminal hterminal
  exact ⟨l, lasting_closed e l w w' hw hlater hclosed, hstate⟩

theorem keeps_readState {known : Option Lifecycle}
    (hw : Reached G maxima w) (hknown : Known e known w) :
    Keeps G maxima (D1EventStore.readState e) (StateRead e known)
      (StartRaises known) w := by
  have hread : Keeps G maxima (App.execute (.selectState e))
      (fun found w' => (found = none → known = none) ∧
        ∀ state, found = some state → StateRead e known state w')
      (StartRaises known) w := by
    refine keeps_execute (fun _ => rfl) (fun _ _ _ => trivial) ?_ ?_
    · rintro w' value found db hw' hlater - - hrun rfl
      have hthen := lasting_known e known w w' hw hlater hknown
      obtain ⟨hfound, rfl⟩ := Prod.mk.inj (Option.some.inj hrun)
      have hstate : found = (w'.lifecycle e).map
          fun l => (l.status, l.attemptCount) := by
        rw [← hfound, World.lifecycle, Option.map_map]
        rfl
      refine ⟨fun hnone => ?_, fun state hsome =>
        ⟨fun hterminal => ?_, ?_, hthen⟩⟩
      · rw [hnone] at hstate
        by_contra hne
        obtain ⟨l, hl⟩ := Option.ne_none_iff_exists'.mp hne
        rw [(hthen l hl).1] at hstate
        cases hstate
      · rw [hsome] at hstate
        obtain ⟨l, hl, rfl⟩ := Option.map_eq_some_iff.mp hstate.symm
        exact ⟨l, ⟨hl, hterminal⟩, rfl⟩
      · intro l hl
        rw [hsome, (hthen l hl).1] at hstate
        exact Option.some.inj hstate
    · rintro found w₁ w₂ hw₁ hlater ⟨hnone, h⟩
      refine ⟨hnone, fun state hsome => ?_⟩
      exact lasting_stateRead e known state w₁ w₂ hw₁ hlater (h state hsome)
  refine hread.bind fun found w' hw' h => ?_
  cases found with
  | some state =>
      exact keeps_pure (lasting_stateRead e known state) hw' (h.2 state rfl)
  | none => exact ensuresElse_throw fun hne => absurd (h.1 rfl) hne

/-- What the result of `mark_delivery_started` tells. -/
structure StartAnswered (G : World → Op → Prop) (maxima : ℕ → Prop) (e : UUID)
    (known : Option Lifecycle) (start : DeliveryStart) (w : World) : Prop where
  terminal : start.disposition = .terminal →
    Answered G maxima e start.status start.attemptCount w
  started : ∀ record token, start.record = some record →
    start.deliveryToken = some token →
    record.eventId = e ∧ Issued e token record.attemptCount w
  known : ∀ l, known = some l → start.disposition = .terminal ∧
    start.status = l.status ∧ start.attemptCount = l.attemptCount

theorem lasting_startAnswered (e : UUID) (known : Option Lifecycle)
    (start : DeliveryStart) :
    Lasting G maxima (StartAnswered G maxima e known start) := by
  rintro w w' hw hlater ⟨hterminal, hstarted, hknown⟩
  refine ⟨fun h => ?_, fun record token hrecord htoken => ?_, hknown⟩
  · exact lasting_answered e _ _ w w' hw hlater (hterminal h)
  · obtain ⟨hid, hissued⟩ := hstarted record token hrecord htoken
    exact ⟨hid, lasting_issued e _ _ w w' hw hlater hissued⟩

/-- The answer for a row that was not claimed. -/
theorem startAnswered_unclaimed {known : Option Lifecycle}
    {state : EventStatus × ℕ} {start : DeliveryStart}
    (h : StateRead e known state w)
    (hstart : D1EventStore.unclaimed state = some start) :
    StartAnswered G maxima e known start w := by
  unfold D1EventStore.unclaimed at hstart
  split at hstart
  · next hterminal =>
    obtain rfl := Option.some.inj hstart
    obtain ⟨l, hclosed, rfl⟩ := h.terminal hterminal
    refine ⟨fun _ => ⟨l, hclosed, rfl, fun _ => rfl⟩, nofun, ?_⟩
    intro l' hl'
    obtain ⟨hstatus, hattempt⟩ := Prod.mk.inj (h.agrees l' hl')
    exact ⟨rfl, hstatus, hattempt⟩
  · next hopen =>
    split at hstart
    · obtain rfl := Option.some.inj hstart
      refine ⟨nofun, nofun, ?_⟩
      intro l' hl'
      rw [h.agrees l' hl'] at hopen
      exact absurd (h.known l' hl').2 hopen
    · cases hstart

/-- With nothing to answer, nothing was known. -/
theorem known_none_of_unclaimed {known : Option Lifecycle}
    {state : EventStatus × ℕ} (h : StateRead e known state w)
    (hstart : D1EventStore.unclaimed state = none) : known = none := by
  by_contra hne
  obtain ⟨l, hl⟩ := Option.ne_none_iff_exists'.mp hne
  have hterminal := (h.known l hl).2
  rw [D1EventStore.unclaimed, h.agrees l hl, if_pos hterminal] at hstart
  cases hstart

/-- Giving up an event finishes it; with distinct tokens and one bound that
never happens. -/
theorem keeps_deadLetterExhausted {m : ℕ} {nowMs : ℤ}
    (hE : E .persistenceUnavailable) (hm : Bound maxima m) :
    Keeps G maxima (App.execute (.deadLetterExhausted e nowMs m))
      (fun changed w' => changed = 1 →
        ∃ l, Closed e l w' ∧ l.status = .deadLetter ∧ ¬Strict G maxima)
      E w := by
  refine keeps_execute hE (fun _ _ _ => hm) ?_ ?_
  · rintro w' value changed db hw' - - - hrun rfl rfl
    cases eventsEffect hrun with
    | silent quiet => cases quiet
    | @exhausted _ _ _ row row' found waiting used updated written =>
        have hl : w'.lifecycle e = some row.lifecycle := by
          rw [World.lifecycle, found, Option.map_some]
        refine ⟨row'.lifecycle, ⟨?_, ?_⟩, ?_, ?_⟩
        · rw [lifecycle_ran written, if_pos rfl]
        · rw [updated]
          exact Or.inr rfl
        · rw [updated]
        · intro hs
          exact absurd (hs.waiting_lt hw' hl waiting hm) (Nat.not_lt.mpr used)
  · intro changed w₁ w₂ hw₁ hlater h hchanged
    obtain ⟨l, hclosed, hrest⟩ := h hchanged
    exact ⟨l, lasting_closed e l w₁ w₂ hw₁ hlater hclosed, hrest⟩

theorem keeps_startUnclaimed {m : ℕ} {nowMs : ℤ} {known : Option Lifecycle}
    (hm : Bound maxima m) (hw : Reached G maxima w)
    (hknown : Known e known w) :
    Keeps G maxima (D1EventStore.startUnclaimed e nowMs m)
      (StartAnswered G maxima e known) (StartRaises known) w := by
  refine (keeps_readState hw hknown).bind fun snapshot w₁ hw₁ hsnapshot => ?_
  cases hstart : D1EventStore.unclaimed snapshot with
  | some start =>
      exact keeps_pure (lasting_startAnswered e known start) hw₁
        (startAnswered_unclaimed hsnapshot hstart)
  | none =>
      obtain rfl := known_none_of_unclaimed hsnapshot hstart
      have hraise : ∀ {w : World}, Keeps G maxima
          (throw .persistenceUnavailable : App DeliveryStart)
          (StartAnswered G maxima e none) (StartRaises none) w :=
        ensuresElse_throw fun _ => rfl
      dsimp only
      split
      · refine (keeps_deadLetterExhausted (fun _ => rfl) hm).bind ?_
        intro changed w₂ hw₂ hchanged
        split
        · next hone =>
          obtain ⟨l, hclosed, hstatus, hnot⟩ := hchanged hone
          refine keeps_pure (lasting_startAnswered e none _) hw₂ ?_
          refine ⟨fun _ => ⟨l, hclosed, hstatus, fun hs => absurd hs hnot⟩,
            nofun, nofun⟩
        · have hnothing : Known e none w₂ := nofun
          refine (keeps_readState hw₂ hnothing).bind ?_
          intro current w₃ hw₃ hcurrent
          cases hagain : D1EventStore.unclaimed current with
          | some start =>
              exact keeps_pure (lasting_startAnswered e none start) hw₃
                (startAnswered_unclaimed hcurrent hagain)
          | none => exact hraise
      · exact hraise

theorem Lifecycle.Claimable.not_terminal {l : Lifecycle} {m : ℕ}
    (h : l.Claimable m) : ¬l.status.Terminal := by
  rcases h with ⟨hstatus | hstatus, -⟩ | ⟨hstatus, -⟩ <;>
    simp [hstatus, EventStatus.Terminal]

theorem keeps_markDeliveryStarted {m : ℕ} {known : Option Lifecycle}
    (hm : maxima m) (hpositive : 1 ≤ m) (hw : Reached G maxima w)
    (hknown : Known e known w) :
    Keeps G maxima (store.markDeliveryStarted e m)
      (StartAnswered G maxima e known) (StartRaises known) w := by
  unfold D1EventStore.markDeliveryStarted
  rw [if_neg (by omega)]
  have hlast : Lasting G maxima (Known e known) := lasting_known e known
  refine (keeps_nowMs hlast hw hknown).bind fun nowMs w₁ hw₁ h₁ => ?_
  refine (keeps_uuid4Hex hlast hw₁ h₁).bind fun token w₂ hw₂ h₂ => ?_
  have hclaim : Keeps G maxima
      (App.execute (.claimDelivery e token (nowMs + 30000) nowMs m))
      (fun claimed w' => Known e known w' ∧ ∀ row, claimed = some row →
        known = none ∧ Issued e token row.attemptCount w')
      (StartRaises known) w₂ := by
    refine keeps_execute (fun _ => rfl) (fun _ _ _ => ⟨hm, hpositive⟩) ?_ ?_
    · rintro w' value claimed db hw' hbefore - hlater hrun rfl
      refine ⟨hlast w₂ _ hw₂ hlater h₂, ?_⟩
      rintro row rfl
      cases eventsEffect hrun with
      | silent quiet => cases quiet
      | @claimed _ _ _ _ _ row₀ _ found claimable updated written =>
          refine ⟨?_, ?_⟩
          · by_contra hne
            obtain ⟨l, hl⟩ := Option.ne_none_iff_exists'.mp hne
            obtain ⟨hlife, hterminal⟩ := hlast w₂ w' hw₂ hbefore h₂ l hl
            rw [World.lifecycle, found] at hlife
            obtain rfl := Option.some.inj hlife
            exact claimable.not_terminal hterminal
          · rw [Issued, journal_ran rfl, if_pos rfl]
            exact List.mem_cons_self
    · rintro claimed w' w'' hw' hlater ⟨hk, hrow⟩
      refine ⟨hlast w' w'' hw' hlater hk, fun row hsome => ?_⟩
      obtain ⟨hnone, hissued⟩ := hrow row hsome
      exact ⟨hnone, lasting_issued e token _ w' w'' hw' hlater hissued⟩
  refine hclaim.bind fun claimed w₃ hw₃ h₃ => ?_
  cases claimed with
  | none => exact keeps_startUnclaimed ⟨hm, hpositive⟩ hw₃ h₃.1
  | some row =>
      obtain ⟨rfl, hissued⟩ := h₃.2 row rfl
      refine (keeps_loadRecord (fun _ => rfl) (lasting_issued e token _) hw₃
        hissued).bind ?_
      rintro record w₄ hw₄ ⟨hissued', hid, -, hattempt⟩
      refine keeps_pure (lasting_startAnswered e none _) hw₄ ?_
      refine ⟨?_, ?_, ?_⟩
      · intro hnone
        cases hnone
      · rintro record' token' ⟨⟩ ⟨⟩
        exact ⟨hid, hattempt ▸ hissued'⟩
      · rintro _ ⟨⟩

/-- Settling an attempt that the caller was given. -/
theorem keeps_updateTerminal {status : EventStatus} {reason : Option String}
    {token : String} {attempt : ℕ}
    (hstatus : status.Terminal ∨ status = .retryScheduled)
    (hretry : status = .retryScheduled → ∃ m, Bound maxima m ∧ attempt < m)
    (hw : Reached G maxima w) (hissued : Issued e token attempt w)
    (hdelivered : status = .delivered → w.Succeeded e) :
    Keeps G maxima (D1EventStore.updateTerminal e status reason token)
      (fun moved w' => moved = true → status.Terminal →
        Answered G maxima e status attempt w') (fun _ => True) w := by
  have hlast : Lasting G maxima fun w =>
      Issued e token attempt w ∧ (status = .delivered → w.Succeeded e) :=
    (lasting_issued e token attempt).and
      (Lasting.imp _ fun _ => lasting_succeeded e)
  refine (keeps_nowMs hlast hw ⟨hissued, hdelivered⟩).bind ?_
  intro nowMs w₁ hw₁ h₁
  have hupdate : Keeps G maxima
      (App.execute (.updateTerminal e status nowMs reason token))
      (fun changed w' => changed = 1 → status.Terminal →
        Answered G maxima e status attempt w') (fun _ => True) w₁ := by
    refine keeps_execute trivial ?_ ?_ ?_
    · intro w' _ hlater
      obtain ⟨hissued', hdelivered'⟩ := hlast w₁ w' hw₁ hlater h₁
      exact ⟨⟨hstatus, attempt, hissued', hretry⟩, hdelivered'⟩
    · rintro w' value changed db hw' hlater - - hrun rfl rfl hterminal
      have hissued' := (hlast w₁ w' hw₁ hlater h₁).1
      cases eventsEffect hrun with
      | silent quiet => cases quiet
      | @settled _ _ _ _ _ row row' found running owner updated written =>
          have hl : w'.lifecycle e = some row.lifecycle := by
            rw [World.lifecycle, found, Option.map_some]
          refine ⟨row'.lifecycle, ⟨?_, ?_⟩, ?_, fun hs => ?_⟩
          · rw [lifecycle_ran written, if_pos rfl]
          · rw [updated]
            exact hterminal
          · rw [updated]
            rfl
          · rw [updated]
            exact (hs.attempt_eq hw' hl owner hissued').symm
    · intro changed
      exact Lasting.imp _ fun _ => Lasting.imp _ fun _ =>
        lasting_answered e status attempt
  refine hupdate.bind fun changed w₂ hw₂ h₂ => ?_
  refine keeps_pure ?_ hw₂ fun hone => h₂ (by simpa using hone)
  exact Lasting.imp _ fun _ => Lasting.imp _ fun _ =>
    lasting_answered e status attempt

end Store

section Delivery

variable {service : DeliveryService}

/-- An acknowledgement tells that the event is finished, and how. -/
def ResultAnswered (G : World → Op → Prop) (maxima : ℕ → Prop) (e : UUID)
    (result : DeliveryResult) (w : World) : Prop :=
  result.disposition = .ack →
    Answered G maxima e result.status result.attemptCount w

theorem lasting_resultAnswered (e : UUID) (result : DeliveryResult) :
    Lasting G maxima (ResultAnswered G maxima e result) :=
  Lasting.imp _ fun _ => lasting_answered e _ _

theorem keeps_currentResult :
    Keeps G maxima (service.currentResult e) (ResultAnswered G maxima e)
      (fun _ => True) w := by
  refine (keeps_getStatus trivial).bind fun current w' hw' h => ?_
  cases current with
  | none => exact ensuresElse_throw trivial
  | some record =>
      dsimp only
      split
      · next hterminal =>
        exact keeps_pure (lasting_resultAnswered e _) hw' fun _ =>
          h record rfl hterminal
      · exact keeps_pure (lasting_resultAnswered e _) hw' nofun

theorem keeps_staleResult {attemptCount : ℕ} (hw : Reached G maxima w) :
    Keeps G maxima (service.staleResult e attemptCount)
      (ResultAnswered G maxima e) (fun _ => True) w :=
  (keeps_emit lasting_true hw trivial).bind fun _ _ _ _ => keeps_currentResult

/-- The answer after a trace is written. -/
theorem keeps_answer {result : DeliveryResult} {transition reason : String}
    {attempt : ℕ} (hw : Reached G maxima w)
    (h : ResultAnswered G maxima e result w) :
    Keeps G maxima
      (do App.emit transition e attempt reason
          return result)
      (ResultAnswered G maxima e) (fun _ => True) w :=
  (keeps_emit (lasting_resultAnswered e result) hw h).bind
    fun _ _ hw' h' => keeps_pure (lasting_resultAnswered e result) hw' h'

theorem keeps_retryDelaySeconds {attemptCount : ℕ}
    (hw : Reached G maxima w) :
    Keeps G maxima (DeliveryService.retryDelaySeconds attemptCount)
      (fun _ _ => True) (fun _ => True) w := by
  unfold DeliveryService.retryDelaySeconds
  split
  · exact ensuresElse_throw trivial
  · have hneutral : Neutral (.uniform (3 / 4) (5 / 4)) := trivial
    exact (keeps_request hneutral lasting_true hw trivial).bind
      fun _ _ hw' _ => keeps_pure lasting_true hw' trivial

variable {record : EventRecord} {token : String}

theorem keeps_afterSuccess (hw : Reached G maxima w)
    (hissued : Issued e token record.attemptCount w)
    (hsucceeded : w.Succeeded e) :
    Keeps G maxima (service.afterSuccess e record token)
      (ResultAnswered G maxima e) (fun _ => True) w := by
  refine (keeps_updateTerminal (Or.inl (Or.inl rfl)) nofun hw hissued
    fun _ => hsucceeded).bind fun moved w' hw' h => ?_
  cases moved with
  | false => exact keeps_staleResult hw'
  | true => exact keeps_answer hw' fun _ => h rfl (Or.inl rfl)

theorem keeps_afterFailure {errorClass : DeliveryErrorClass}
    (hservice : maxima service.maximumAttempts) (hw : Reached G maxima w)
    (hissued : Issued e token record.attemptCount w) :
    Keeps G maxima (service.afterFailure e record token errorClass)
      (ResultAnswered G maxima e) (fun _ => True) w := by
  unfold DeliveryService.afterFailure
  split
  · refine (keeps_updateTerminal (Or.inl (Or.inr rfl)) nofun hw hissued
      nofun).bind fun moved w' hw' h => ?_
    cases moved with
    | false => exact keeps_staleResult hw'
    | true => exact keeps_answer hw' fun _ => h rfl (Or.inr rfl)
  · next hretry =>
    rw [not_or, not_le] at hretry
    refine (keeps_updateTerminal (Or.inr rfl)
      (fun _ => ⟨_, ⟨hservice, service.positive⟩, hretry.2⟩) hw hissued
      nofun).bind fun moved w' hw' h => ?_
    cases moved with
    | false => exact keeps_staleResult hw'
    | true =>
        exact (keeps_retryDelaySeconds hw').bind fun _ _ hw'' _ =>
          keeps_answer hw'' nofun

theorem keeps_deliverStarted (hservice : maxima service.maximumAttempts)
    (hw : Reached G maxima w) (hid : record.eventId = e)
    (hissued : Issued e token record.attemptCount w) :
    Keeps G maxima (service.deliverStarted e record token)
      (ResultAnswered G maxima e) (fun _ => True) w := by
  have hlast : Lasting G maxima (Issued e token record.attemptCount) :=
    lasting_issued e token _
  refine (keeps_emit hlast hw hissued).bind fun _ w₁ hw₁ h₁ => ?_
  have hsink : Keeps G maxima (App.request (.deliver record))
      (fun reply w' => Issued e token record.attemptCount w' ∧
        (reply = .success → w'.Succeeded e)) (fun _ => True) w₁ := by
    apply ensuresElse_perform
    · exact fun _ _ _ => trivial
    · rintro s hlater hs reply t ⟨hG, hexec⟩ t' hlater' -
      have hmay : May maxima s (.deliver record) := trivial
      have hstep : Onward G maxima s t := Machine.Later.move hmay ⟨hG, hexec⟩
      refine ⟨hlast w₁ t' hw₁ ((hlater.trans hstep).trans hlater') h₁, ?_⟩
      rintro rfl
      cases hexec with
      | delivered =>
          apply lasting_succeeded e _ t' (hs.later hstep) hlater'
          exact ⟨record, List.mem_cons_self, hid⟩
  refine hsink.bind fun reply w₂ hw₂ h₂ => ?_
  cases reply with
  | success => exact keeps_afterSuccess hw₂ h₂.1 (h₂.2 rfl)
  | failed errorClass => exact keeps_afterFailure hservice hw₂ h₂.1
  | raised => exact ensuresElse_throw trivial

theorem keeps_process (hservice : maxima service.maximumAttempts)
    (hw : Reached G maxima w) :
    Keeps G maxima (service.process e) (ResultAnswered G maxima e)
      (fun _ => True) w := by
  have hnothing : Known e none w := nofun
  have hstart : Keeps G maxima
      (service.store.markDeliveryStarted e service.maximumAttempts)
      (StartAnswered G maxima e none) (StartRaises none) w :=
    keeps_markDeliveryStarted hservice service.positive hw hnothing
  refine (hstart.mono (fun _ _ _ h => h) fun _ _ => trivial).bind ?_
  intro start w' hw' h
  split
  · next hterminal => exact keeps_answer hw' fun _ => h.terminal hterminal
  · split
    · exact keeps_answer hw' nofun
    · split
      · next record token hrecord htoken =>
        obtain ⟨hid, hissued⟩ := h.started record token hrecord htoken
        exact keeps_deliverStarted hservice hw' hid hissued
      · exact ensuresElse_throw trivial

end Delivery

section Acceptance

variable {α : Type}

/-- A program that keeps the discipline, whatever its result. -/
abbrev Safe (G : World → Op → Prop) (maxima : ℕ → Prop) (p : App α)
    (w : World) : Prop :=
  Keeps G maxima p (fun _ _ => True) (fun _ => True) w

theorem safe_pure {a : α} : Safe G maxima (pure a : App α) w :=
  ensuresElse_pure fun _ _ _ => trivial

theorem safe_execute {call : D1Call} (hw : Reached G maxima w)
    (hcall : Neutral (.d1 call) := by trivial) :
    Safe G maxima (App.execute call) w :=
  keeps_execute_neutral trivial hcall lasting_true hw trivial

theorem safe_emit {transition reason : String} {attempt : ℕ}
    (hw : Reached G maxima w) :
    Safe G maxima (App.emit transition e attempt reason) w :=
  keeps_emit lasting_true hw trivial

/-- What is known after a `try` block that ended normally. -/
theorem keeps_orElseNone {caught : Raised → Bool} {p : App α}
    {Q : α → World → Prop} (hQ : ∀ a, Lasting G maxima (Q a))
    (hp : Keeps G maxima p Q (fun _ => True) w) :
    Keeps G maxima (App.orElseNone caught p)
      (fun result w' => ∀ a, result = some a → Q a w') (fun _ => True) w := by
  have hlasting : ∀ result, Lasting G maxima
      fun w => ∀ a, result = some a → Q a w := by
    intro result w₁ w₂ hw₁ hlater h a ha
    exact hQ a w₁ w₂ hw₁ hlater (h a ha)
  refine (Ensures.tryCatch (EnsuresElse.ensures (hp.bind ?_)) ?_ ?_).ensuresElse
  · intro a w' hw' h
    refine keeps_pure (hlasting (some a)) hw' ?_
    rintro _ ⟨⟩
    exact h
  · intro result w₁ w₂ hw₁ hlater h
    exact hlasting result w₁ w₂ hw₁ hlater h
  · intro raised w' hw'
    split
    · exact ensures_pure fun _ _ _ _ hnone => nomatch hnone
    · exact ensures_throw

theorem keeps_queueSend :
    Keeps G maxima (App.request (.queueSend e))
      (fun confirmed w' => confirmed = true → w'.Sent e) (fun _ => True)
      w := by
  apply ensuresElse_perform
  · exact fun _ _ _ => trivial
  · rintro s hlater hs reply t ⟨hG, hexec⟩ t' hlater' - rfl
    have hmay : May maxima s (.queueSend e) := trivial
    have ht := hs.later (Machine.Later.move hmay ⟨hG, hexec⟩)
    cases hexec with
    | sendConfirmed =>
        exact lasting_sent e _ t' ht hlater' List.mem_cons_self

theorem safe_markDispatched {token : Option String}
    (hw : Reached G maxima w) (hsent : w.Sent e) :
    Safe G maxima (D1EventStore.markDispatched e token) w := by
  refine (keeps_nowMs (lasting_sent e) hw hsent).bind ?_
  intro nowMs w' hw' h'
  refine (keeps_execute trivial ?_ (fun _ _ _ _ _ _ _ _ _ _ => trivial)
    fun _ => lasting_true).bind fun _ _ _ _ => safe_pure
  exact fun w'' _ hlater => lasting_sent e w' w'' hw' hlater h'

/-- A `try` block around a safe program is safe. -/
theorem safe_orElseNone {caught : Raised → Bool} {p : App α}
    (hp : Safe G maxima p w) :
    Safe G maxima (App.orElseNone caught p) w :=
  (keeps_orElseNone (fun _ => lasting_true) hp).mono (fun _ _ _ _ => trivial)
    fun _ h => h

theorem safe_dispatch {record : AcceptanceRecord} (hw : Reached G maxima w) :
    Safe G maxima (AcceptanceService.dispatch record) w := by
  refine (safe_emit hw).bind fun _ w₁ hw₁ _ => ?_
  refine keeps_queueSend.bind fun confirmed w₂ hw₂ h₂ => ?_
  have hanswer : ∀ {w : World} {transition reason : String},
      Reached G maxima w → Safe G maxima
        (do App.emit transition record.eventId 0 reason
            return record) w :=
    fun hw => (safe_emit hw).bind fun _ _ _ _ => safe_pure
  cases confirmed with
  | false => exact hanswer hw₂
  | true =>
      refine (safe_orElseNone (safe_markDispatched hw₂ (h₂ rfl))).bind ?_
      intro dispatched w₃ hw₃ _
      cases dispatched with
      | none => exact hanswer hw₃
      | some moved => cases moved <;> exact hanswer hw₃

theorem safe_storeAccept {proposed : UUID} {event : EventRequest}
    {keyHash : Option String} {fingerprint : String}
    (hw : Reached G maxima w) :
    Safe G maxima (D1EventStore.accept proposed event keyHash fingerprint)
      w := by
  refine (keeps_nowMs lasting_true hw trivial).bind fun nowMs w₁ hw₁ _ => ?_
  split
  · exact ensuresElse_throw trivial
  · refine (safe_execute hw₁).bind fun found w₂ hw₂ _ => ?_
    split
    · exact ensuresElse_throw trivial
    · split
      · exact ensuresElse_throw trivial
      · exact safe_pure

theorem safe_accept {service : AcceptanceService} {event : EventRequest}
    {key : Option String} {proposed : Option UUID}
    (hw : Reached G maxima w) :
    Safe G maxima (service.accept event key proposed) w := by
  have hid : Safe G maxima (AcceptanceService.proposedOrNew proposed) w := by
    cases proposed with
    | some id => exact safe_pure
    | none => exact keeps_request trivial lasting_true hw trivial
  refine hid.bind fun id w₁ hw₁ _ => ?_
  refine (safe_storeAccept hw₁).bind fun record w₂ hw₂ _ => ?_
  split
  · exact (safe_emit hw₂).bind fun _ _ _ _ => safe_pure
  · exact safe_dispatch hw₂

theorem safe_repairOne {token : String} {outbox : OutboxRecord} :
    Safe G maxima (AcceptanceService.repairOne token outbox) w := by
  refine keeps_queueSend.bind fun confirmed w₁ hw₁ h₁ => ?_
  have hanswer : ∀ {w : World} {transition reason : String} {attempt : ℕ}
      {answer : Bool}, Reached G maxima w → Safe G maxima
        (do App.emit transition outbox.eventId attempt reason
            return answer) w :=
    fun hw => (safe_emit hw).bind fun _ _ _ _ => safe_pure
  cases confirmed with
  | false =>
      have hrelease : Safe G maxima
          (D1EventStore.releaseOutboxClaim outbox.eventId token) w₁ :=
        (keeps_nowMs lasting_true hw₁ trivial).bind fun _ _ hw' _ =>
          (safe_execute hw').bind fun _ _ _ _ => safe_pure
      exact (safe_orElseNone hrelease).bind fun _ _ hw' _ => hanswer hw'
  | true =>
      refine (safe_orElseNone (safe_markDispatched hw₁ (h₁ rfl))).bind ?_
      intro dispatched w₂ hw₂ _
      cases dispatched with
      | none => exact hanswer hw₂
      | some moved => cases moved <;> exact hanswer hw₂

theorem safe_repairAll {token : String} {outboxes : List OutboxRecord}
    {repaired deferred : ℕ} (hw : Reached G maxima w) :
    Safe G maxima
      (AcceptanceService.repairAll token outboxes repaired deferred) w := by
  induction outboxes generalizing repaired deferred w with
  | nil => exact safe_pure
  | cons outbox rest ih =>
      refine safe_repairOne.bind fun moved w' hw' _ => ?_
      split <;> exact ih hw'

theorem safe_repair {limit : ℤ} (hw : Reached G maxima w) :
    Safe G maxima (AcceptanceService.repair limit) w := by
  refine (keeps_uuid4Hex lasting_true hw trivial).bind fun token w₁ hw₁ _ => ?_
  have hclaim : Safe G maxima
      (D1EventStore.claimOutbox limit token outboxLeaseMs) w₁ :=
    (keeps_nowMs lasting_true hw₁ trivial).bind fun _ _ hw' _ =>
      (safe_execute hw').bind fun _ _ _ _ => safe_pure
  exact hclaim.bind fun _ _ hw₂ _ => safe_repairAll hw₂

end Acceptance

section Worker

variable {service : DeliveryService}

theorem safe_handleMessage {message : Message}
    (hservice : maxima service.maximumAttempts) (hw : Reached G maxima w)
    (hmessage : w.messages[message.id]? = some message.eventId) :
    Safe G maxima (Worker.handleMessage service message) w := by
  obtain ⟨eventId, htext⟩ := (reach_invariant hw).references message.eventId
    (List.mem_of_getElem? hmessage)
  unfold Worker.handleMessage
  rw [htext, UUID.parse_text]
  have hlast : Lasting G maxima fun w =>
      w.messages[message.id]? = some message.eventId :=
    lasting_message message.id message.eventId
  have hprocess : Keeps G maxima (service.process eventId)
      (fun result w' => w'.messages[message.id]? = some message.eventId ∧
        ResultAnswered G maxima eventId result w') (fun _ => True) w :=
    (keeps_process hservice hw).frame hlast hw hmessage
  refine (keeps_orElseNone (fun result => hlast.and
    (lasting_resultAnswered eventId result)) hprocess).bind ?_
  intro answer w' hw' h
  have hretry : ∀ delay, Safe G maxima
      (App.request (.retry message.id delay)) w' :=
    fun _ => keeps_request trivial lasting_true hw' trivial
  cases answer with
  | none => exact hretry none
  | some result =>
      obtain ⟨hplace, hanswer⟩ := h result rfl
      dsimp only
      split
      · next hack =>
        obtain ⟨l, hclosed, -⟩ := hanswer hack
        have hfinished := World.finished_iff.mpr ⟨l, hclosed⟩
        refine ensuresElse_perform ?_ fun _ _ _ _ _ _ _ _ _ => trivial
        intro s hlater _
        exact ⟨eventId, htext ▸ hlast w' s hw' hlater hplace,
          lasting_finished eventId w' s hw' hlater hfinished⟩
      · exact hretry _

/-- The messages of a batch are messages of the queue. -/
def Queued (batch : List Message) (w : World) : Prop :=
  ∀ m ∈ batch, w.messages[m.id]? = some m.eventId

theorem lasting_queued (batch : List Message) :
    Lasting G maxima (Queued batch) := by
  intro w w' hw hlater h m hm
  exact lasting_message m.id m.eventId w w' hw hlater (h m hm)

theorem safe_queue {batch : List Message}
    (hservice : maxima service.maximumAttempts) (hw : Reached G maxima w)
    (hbatch : Queued batch w) :
    Safe G maxima (Worker.queue service batch) w := by
  induction batch generalizing w with
  | nil => exact safe_pure
  | cons message rest ih =>
      have hrest : Queued rest w :=
        fun m hm => hbatch m (List.mem_cons_of_mem _ hm)
      have hhead := safe_handleMessage hservice hw
        (hbatch message List.mem_cons_self)
      rw [Worker.queue]
      -- What the first message's program does in detail is not needed.
      generalize Worker.handleMessage service message = p at hhead ⊢
      exact (hhead.frame (lasting_queued rest) hw hrest).bind
        fun _ _ hw' h => ih hw' h.1

end Worker

/-- What a request's result tells. -/
def Post (G : World → Op → Prop) (maxima : ℕ → Prop) :
    (request : Request) → request.Result → World → Prop
  | .process _ e, result, w => ∀ answer, result = .ok answer →
      ResultAnswered G maxima e answer w
  | .markDeliveryStarted _ e finished, result, w => finished = true →
      ∃ l, Closed e l w ∧ ((∃ start, result = .ok start ∧
        start.disposition = .terminal ∧ start.status = l.status ∧
        start.attemptCount = l.attemptCount) ∨
        result = .error .persistenceUnavailable)
  | .accept .., _, _ | .repair _, _, _ | .queue .., _, _
  | .getStatus .., _, _ => True

/-- Every request of the Cloudflare backend keeps the discipline. -/
theorem d1Service_disciplined (maxima : ℕ → Prop) (G : World → Op → Prop) :
    Service.Disciplined (S := (d1Service maxima).restrict G) (May maxima)
      (Post G maxima) := by
  intro request w hw henabled
  have hsafe : ∀ {α : Type} {p : App α}, Safe G maxima p w →
      p.run.Ensures (M := d1Machine.restrict G) (May maxima)
        (fun _ _ => True) w :=
    fun hp => Prog.Ensures.mono hp fun _ _ _ _ => trivial
  cases request with
  | accept service event key proposed => exact hsafe (safe_accept hw)
  | repair limit => exact hsafe (safe_repair hw)
  | queue service batch =>
      exact hsafe (safe_queue henabled.1 hw henabled.2)
  | getStatus store eventId =>
      refine hsafe ?_
      exact (keeps_getStatus trivial).mono (fun _ _ _ _ => trivial)
        fun _ h => h
  | process service eventId =>
      exact Prog.Ensures.mono (keeps_process henabled hw)
        fun _ _ _ hr => hr.1
  | markDeliveryStarted service eventId finished =>
      obtain ⟨hm, hfinished⟩ := henabled
      cases finished with
      | false =>
          have hnothing : Known eventId none w := nofun
          have hstart : Keeps G maxima
              (service.store.markDeliveryStarted eventId
                service.maximumAttempts)
              (StartAnswered G maxima eventId none) (StartRaises none) w :=
            keeps_markDeliveryStarted hm service.positive hw hnothing
          exact Prog.Ensures.mono hstart fun _ _ _ _ => nofun
      | true =>
          obtain ⟨l, hclosed⟩ := World.finished_iff.mp (hfinished rfl)
          have hknown : Known eventId (some l) w := by
            rintro _ ⟨⟩
            exact hclosed
          have hstart : Keeps G maxima
              (service.store.markDeliveryStarted eventId
                service.maximumAttempts)
              (StartAnswered G maxima eventId (some l)) (StartRaises (some l))
              w :=
            keeps_markDeliveryStarted hm service.positive hw hknown
          refine Prog.Ensures.mono (Prog.Ensures.frame hstart
            (lasting_closed eventId l) hw hclosed) ?_
          rintro result w' - ⟨hclosed', hr⟩ -
          cases result with
          | ok start =>
              have hanswer := (hr.1 start rfl).known l rfl
              exact ⟨l, hclosed', Or.inl ⟨start, rfl, hanswer⟩⟩
          | error raised =>
              have hraised := hr.2 raised rfl (Option.some_ne_none l)
              exact ⟨l, hclosed', Or.inr (hraised ▸ rfl)⟩

end Hooklane.Cloudflare
