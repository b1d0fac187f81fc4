import Hooklane.Queue.Simulation

/-!
# Invariants of whole runs

One permitted call is inverted once, in `exists_moves`; the invariants that
relate the ledger to the history and to the record streams are derived from
that inversion by cases on the effect.
-/

namespace Hooklane

open Redis Support

variable {lib : Stdlib} {group : String} {w w' : World} {L L' : Ledger}
  {e : UUID} {acc : Option UUID} {fin : Option (UUID × Ending)}

/-- A call that acts for a message that is no longer pending. -/
def LateCall (group : String) (w : World) : Op → Prop
  | .redis call => Late group w.store call
  | _ => False

/-- One permitted call: how the ledger and the history move. -/
structure Moves (lib : Stdlib) (group : String) (late : Prop) (w w' : World)
    (L L' : Ledger) (acc : Option UUID) (fin : Option (UUID × Ending)) :
    Prop where
  represents : Represents (Parses lib) group w'.store L'
  grows : Stream.Grows group (streamAt w.store .events)
    (streamAt w'.store .events)
  effect : Effect (Parses lib) late w.store w'.store L acc fin L'
  history : w.history <+: w'.history
  accepted : ∀ e, w'.Accepted e ↔ w.Accepted e ∨ acc = some e
  finished : w'.finished = w.finished ++ fin.toList
  succeeded : ∀ e, fin = some (e, .complete) → w.Succeeded e

theorem moves_refl {late : Prop} (h : Represents (Parses lib) group w.store L) :
    Moves lib group late w w L L none none where
  represents := h
  grows := Stream.Grows.refl _
  effect := .silent (SameRecords.refl _)
  history := List.prefix_rfl
  accepted := by simp
  finished := by simp
  succeeded := by simp

theorem moves_deliver {late : Prop}
    (h : Represents (Parses lib) group w.store L) (event : QueuedEvent)
    (reply : SinkReply) :
    Moves lib group late w (w.deliver event reply) L L none none where
  represents := h
  grows := Stream.Grows.refl _
  effect := .silent (SameRecords.refl _)
  history := List.prefix_append _ _
  accepted := by simp [World.Accepted, World.deliver, Record.accepted]
  finished := by simp [World.finished, World.deliver, Record.finished]
  succeeded := by simp

/-- Only `mark_delivered` completes an event. -/
theorem completeDelivery_of_finished {db : Store} {call : RedisCall}
    {result : Except String call.Value}
    (h : finished db call result = some (e, .complete)) :
    ∃ m g, call = .completeDelivery e m g := by
  cases call with
  | completeDelivery e' m g =>
      cases result with
      | ok n =>
          obtain rfl : e' = e := by simpa [finished, onOk] using h
          exact ⟨m, g, rfl⟩
      | error msg => simp [finished, onOk] at h
  | moveToDeadLetter e' m g c =>
      cases result <;> simp [finished, onOk] at h
  | quarantineMessage m g c =>
      cases result <;> simp [finished, onOk] at h
  | _ => simp [finished] at h

theorem moves_run (h : Represents (Parses lib) group w.store L)
    {call : RedisCall} (hmay : May lib group w (.redis call)) (now : UInt64) :
    ∃ L', Moves lib group (Late group w.store call) w (w.run call now) L L'
      (accepted call (call.script now w.store).1)
      (finished w.store call (call.script now w.store).1) := by
  obtain ⟨L', hrep, hgrows, heffect⟩ := call_simulated h call hmay now
  refine ⟨L', hrep, hgrows, heffect, List.prefix_append _ _, ?_, ?_, ?_⟩
  · intro e
    simp only [World.Accepted, World.run, List.mem_append, List.mem_singleton]
    constructor
    · rintro ⟨record, hold | rfl, hrecord⟩
      · exact Or.inl ⟨record, hold, hrecord⟩
      · exact Or.inr hrecord
    · rintro (⟨record, hold, hrecord⟩ | hnew)
      · exact ⟨record, Or.inl hold, hrecord⟩
      · exact ⟨_, Or.inr rfl, hnew⟩
  · rw [World.finished, World.run, List.filterMap_append]
    rfl
  · intro e hfin
    obtain ⟨m, g, rfl⟩ := completeDelivery_of_finished hfin
    exact hmay.2.2

/-- Everything that one permitted call can do. -/
theorem exists_moves (h : Represents (Parses lib) group w.store L)
    {op : Op} {reply : op.Reply} (hmay : May lib group w op)
    (hexec : World.Exec w op reply w') :
    ∃ L' acc fin, Moves lib group (LateCall group w op) w w' L L' acc fin := by
  cases hexec with
  | answered call now =>
      obtain ⟨L', hmoves⟩ := moves_run h hmay now
      exact ⟨L', _, _, hmoves⟩
  | replyLost call now =>
      obtain ⟨L', hmoves⟩ := moves_run h hmay now
      exact ⟨L', _, _, hmoves⟩
  | delivered event reply => exact ⟨L, _, _, moves_deliver h event reply⟩
  | _ => exact ⟨L, _, _, moves_refl h⟩

section Evidence

/-- What the finished events leave behind. -/
def Evidence (w : World) (e : UUID) : Ending → Prop
  | .complete => w.Succeeded e
  | .deadLetter => ∃ fields ∈ recordsAt w.store .deadLetter,
      fieldValue fields "event_id" = some e.text ∧
      ∃ m, lastFieldValue fields "source_stream_id" = some m ∧
        eventOf w.store m = some e
  | .quarantine => ∃ fields ∈ recordsAt w.store .quarantine,
      ∃ m, fieldValue fields "source_stream_id" = some m ∧
        eventOf w.store m = some e

theorem eventOf_grows {db db' : Store} {m : String}
    (hgrows : Stream.Grows group (streamAt db .events)
      (streamAt db' .events)) (h : eventOf db m = some e) :
    eventOf db' m = some e := by
  simp only [eventOf, Option.bind_eq_bind, Option.bind_eq_some_iff] at h ⊢
  obtain ⟨id, hid, entry, hfind, text, htext, hparse⟩ := h
  obtain ⟨hmem, rfl⟩ := Stream.mem_of_find hfind
  exact ⟨entry.id, hid, entry,
    Stream.find_eq_some_of_mem (hgrows.entries.subset hmem), text, htext,
    hparse⟩

/-- No script removes a record. -/
theorem Effect.records_subset {parses : Fields → Prop} {late : Prop}
    {db db' : Store} (h : Effect parses late db db' L acc fin L') :
    recordsAt db .deadLetter ⊆ recordsAt db' .deadLetter ∧
      recordsAt db .quarantine ⊆ recordsAt db' .quarantine := by
  have hsame : SameRecords db db' →
      recordsAt db .deadLetter ⊆ recordsAt db' .deadLetter ∧
        recordsAt db .quarantine ⊆ recordsAt db' .quarantine := by
    intro h
    rw [h.deadLetter, h.quarantine]
    exact ⟨List.Subset.refl _, List.Subset.refl _⟩
  cases h with
  | silent same => exact hsame same
  | accept e id fields fresh same => exact hsame same
  | advance e a a' known move same => exact hsame same
  | finish e ending a a' known move recorded =>
      cases ending with
      | complete => exact hsame recorded
      | deadLetter =>
          obtain ⟨hquarantine, errorClass, attemptCount, hdead⟩ := recorded
          rw [hquarantine, hdead]
          exact ⟨List.subset_append_left _ _, List.Subset.refl _⟩
      | quarantine =>
          obtain ⟨hdead, rest, hquarantine⟩ := recorded
          rw [hquarantine, hdead]
          exact ⟨List.Subset.refl _, List.subset_append_left _ _⟩

theorem Evidence.moves {late : Prop} {ending : Ending} (h : Evidence w e ending)
    (hmoves : Moves lib group late w w' L L' acc fin) :
    Evidence w' e ending := by
  obtain ⟨hdead, hquarantine⟩ := hmoves.effect.records_subset
  cases ending with
  | complete =>
      obtain ⟨event, hevent, he⟩ := h
      exact ⟨event, hmoves.history.subset hevent, he⟩
  | deadLetter =>
      obtain ⟨fields, hfields, hid, m, hm, hof⟩ := h
      exact ⟨fields, hdead hfields, hid, m, hm, eventOf_grows hmoves.grows hof⟩
  | quarantine =>
      obtain ⟨fields, hfields, m, hm, hof⟩ := h
      exact ⟨fields, hquarantine hfields, m, hm,
        eventOf_grows hmoves.grows hof⟩

theorem fieldValue_append_left {fields : Fields} {name text : String}
    (h : fieldValue fields name = some text) (rest : Fields) :
    fieldValue (fields ++ rest) name = some text := by
  rw [fieldValue, Option.map_eq_some_iff] at h ⊢
  obtain ⟨field, hfind, htext⟩ := h
  exact ⟨field, by rw [List.find?_append, hfind]; rfl, htext⟩

/-- A finishing step leaves its evidence. -/
theorem evidence_of_finished {late : Prop} {ending : Ending}
    (h : Represents (Parses lib) group w.store L)
    (hmoves : Moves lib group late w w' L L' acc (some (e, ending))) :
    Evidence w' e ending := by
  obtain ⟨hrep, hgrows, heffect, hhistory, -, -, hsucceeded⟩ := hmoves
  cases heffect with
  | finish e ending a a' known move recorded =>
      have hold := eventOf_entry (h.stream.current e a known)
        (h.stream.content e a known)
      have hof : eventOf w'.store a.current.text = some e :=
        eventOf_grows hgrows hold
      cases ending with
      | complete =>
          obtain ⟨event, hevent, he⟩ := hsucceeded e rfl
          exact ⟨event, hhistory.subset hevent, he⟩
      | deadLetter =>
          obtain ⟨-, errorClass, attemptCount, hdead⟩ := recorded
          refine ⟨a.fields ++ [("error_class", errorClass),
            ("attempt_count", attemptCount),
            ("source_stream_id", a.current.text)], ?_, ?_, a.current.text, ?_,
            hof⟩
          · rw [hdead]
            exact List.mem_append_right _ List.mem_cons_self
          · exact fieldValue_append_left (h.stream.content e a known).1 _
          · simp [lastFieldValue, fieldValue]
      | quarantine =>
          obtain ⟨-, rest, hquarantine⟩ := recorded
          refine ⟨("source_stream_id", a.current.text) :: rest, ?_,
            a.current.text, ?_, hof⟩
          · rw [hquarantine]
            exact List.mem_append_right _ List.mem_cons_self
          · simp [fieldValue]

end Evidence

section Accounted

/-- The ledger, the history and the record streams agree. -/
structure Accounted (lib : Stdlib) (group : String) (w : World) (L : Ledger) :
    Prop where
  represents : Represents (Parses lib) group w.store L
  accepted : ∀ e, w.Accepted e ↔ ∃ a, L e = some a
  finished : ∀ e, e ∈ w.finished.map Prod.fst ↔
    ∃ a, L e = some a ∧ a.custody = .acknowledged
  once : (w.finished.map Prod.fst).Nodup
  evidence : ∀ e ending, (e, ending) ∈ w.finished → Evidence w e ending
  deadLetters : (recordsAt w.store .deadLetter).map
      (fun fields => fieldValue fields "event_id") =
    (w.finished.filter fun p => p.2 = .deadLetter).map
      fun p => some p.1.text

theorem accounted_initial :
    Accounted lib group World.initial fun _ => none where
  represents := Represents.empty
  accepted := by simp [World.Accepted, World.initial]
  finished := by simp [World.finished, World.initial]
  once := by simp [World.finished, World.initial]
  evidence := by simp [World.finished, World.initial]
  deadLetters := rfl

/-- An effect that finishes nothing acknowledges no current copy. -/
theorem Effect.acknowledged_iff {parses : Fields → Prop} {late : Prop}
    {db db' : Store} (h : Effect parses late db db' L acc none L') (e : UUID) :
    (∃ a, L' e = some a ∧ a.custody = .acknowledged) ↔
      ∃ a, L e = some a ∧ a.custody = .acknowledged := by
  cases h with
  | silent same => rfl
  | accept e' id fields fresh same =>
      by_cases he : e = e'
      · subst he
        simp [fresh, Account.initial]
      · rw [Ledger.set_of_ne L _ he]
  | advance e' a a' known move same =>
      by_cases he : e = e'
      · subst he
        simp [known, move.acknowledged_iff]
      · rw [Ledger.set_of_ne L _ he]

theorem Effect.exists_iff {parses : Fields → Prop} {late : Prop}
    {db db' : Store} (h : Effect parses late db db' L acc fin L') (e : UUID) :
    (∃ a, L' e = some a) ↔ (∃ a, L e = some a) ∨ acc = some e := by
  cases h with
  | silent same => simp
  | accept e' id fields fresh same =>
      by_cases he : e = e'
      · subst he
        simp
      · simp [Ledger.set_of_ne L _ he, Ne.symm he]
  | advance e' a a' known move same =>
      by_cases he : e = e'
      · subst he
        simp [known]
      · simp [Ledger.set_of_ne L _ he]
  | finish e' ending a a' known move recorded =>
      by_cases he : e = e'
      · subst he
        simp [known]
      · simp [Ledger.set_of_ne L _ he]

theorem Accounted.moves {late : Prop} (h : Accounted lib group w L)
    (hmoves : Moves lib group late w w' L L' acc fin) :
    Accounted lib group w' L' := by
  have haccepted : ∀ e, w'.Accepted e ↔ ∃ a, L' e = some a := by
    intro e
    rw [hmoves.accepted, hmoves.effect.exists_iff, h.accepted]
  have hevidence : ∀ e ending, (e, ending) ∈ w'.finished →
      Evidence w' e ending := by
    intro e ending hmem
    rw [hmoves.finished, List.mem_append] at hmem
    rcases hmem with hold | hnew
    · exact (h.evidence e ending hold).moves hmoves
    · rw [Option.mem_toList] at hnew
      subst hnew
      exact evidence_of_finished h.represents hmoves
  cases fin with
  | none =>
      have hfin : w'.finished = w.finished := by
        rw [hmoves.finished]
        exact List.append_nil _
      refine ⟨hmoves.represents, haccepted, ?_, ?_, hevidence, ?_⟩
      · intro e
        rw [hfin, h.finished, hmoves.effect.acknowledged_iff]
      · rw [hfin]
        exact h.once
      · rw [hfin, ← h.deadLetters]
        cases hmoves.effect with
        | silent same => rw [same.deadLetter]
        | accept e id fields fresh same => rw [same.deadLetter]
        | advance e a a' known move same => rw [same.deadLetter]
  | some p =>
      obtain ⟨hrep, hgrows, heffect, hhistory, -, hfin, -⟩ := hmoves
      cases heffect with
      | finish e ending a a' known move recorded =>
          obtain ⟨hpending, hacked⟩ := move.acknowledged
          have hnew : e ∉ w.finished.map Prod.fst := by
            rw [h.finished]
            rintro ⟨b, hb, hcustody⟩
            rw [known] at hb
            obtain rfl := Option.some.inj hb
            rw [hpending] at hcustody
            exact absurd hcustody (by simp)
          refine ⟨hrep, haccepted, ?_, ?_, hevidence, ?_⟩
          · intro e'
            rw [hfin, List.map_append, List.mem_append, h.finished]
            by_cases he : e' = e
            · subst he
              simp [hacked]
            · simp [Ledger.set_of_ne L _ he, he]
          · rw [hfin, List.map_append, List.nodup_append]
            refine ⟨h.once, by simp, ?_⟩
            intro x hx y hy hxy
            subst hxy
            simp only [Option.toList_some, List.map_cons, List.map_nil,
              List.mem_singleton] at hy
            exact hnew (hy ▸ hx)
          · rw [hfin, List.filter_append, List.map_append, ← h.deadLetters]
            cases ending with
            | complete =>
                rw [SameRecords.deadLetter recorded]
                simp
            | deadLetter =>
                obtain ⟨-, errorClass, attemptCount, hdead⟩ := recorded
                rw [hdead, List.map_append]
                have hid := fieldValue_append_left
                  (h.represents.stream.content e a known).1
                  [("error_class", errorClass),
                    ("attempt_count", attemptCount),
                    ("source_stream_id", a.current.text)]
                simp [hid]
            | quarantine =>
                rw [recorded.1]
                simp

/-- Every run of permitted calls keeps the books. -/
theorem reach_accounted {w : World}
    (h : redisMachine.Reach (May lib group) w) :
    ∃ L, Accounted lib group w L := by
  refine Machine.Reach.induction (P := fun w => ∃ L, Accounted lib group w L)
    ?_ ?_ h
  · rintro w rfl
    exact ⟨_, accounted_initial⟩
  · rintro w op reply w' - ⟨L, hL⟩ hmay hexec
    obtain ⟨L', acc, fin, hmoves⟩ := exists_moves hL.represents hmay hexec
    exact ⟨L', hL.moves hmoves⟩

/-- An invariant of runs of permitted calls: the sink keeps it, and so does
every script on the keyspaces that occur. -/
theorem reach_invariant {I : World → Prop} {G : World → Op → Prop}
    (hinit : I World.initial)
    (hdeliver : ∀ w event reply, I w → I (w.deliver event reply))
    (hrun : ∀ w L call now, Accounted lib group w L →
      May lib group w (.redis call) → G w (.redis call) → I w →
      I (w.run call now)) {w : World}
    (h : redisMachine.Reach (fun w op => May lib group w op ∧ G w op) w) :
    I w := by
  have hboth : (∃ L, Accounted lib group w L) ∧ I w := by
    refine Machine.Reach.induction
      (P := fun w => (∃ L, Accounted lib group w L) ∧ I w) ?_ ?_ h
    · rintro w rfl
      exact ⟨⟨_, accounted_initial⟩, hinit⟩
    · rintro w op reply w' - ⟨⟨L, hL⟩, hI⟩ ⟨hmay, hguard⟩ hexec
      obtain ⟨L', acc, fin, hmoves⟩ := exists_moves hL.represents hmay hexec
      refine ⟨⟨L', hL.moves hmoves⟩, ?_⟩
      cases hexec with
      | answered call now => exact hrun w L call now hL hmay hguard hI
      | replyLost call now => exact hrun w L call now hL hmay hguard hI
      | delivered event reply => exact hdeliver w event reply hI
      | _ => exact hI
  exact hboth.2

end Accounted

end Hooklane
