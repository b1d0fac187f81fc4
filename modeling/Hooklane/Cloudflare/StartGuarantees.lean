import Hooklane.Cloudflare.Starting

/-!
# What a start of a delivery guarantees

A start whose statements are all answered, for an event whose payload can be
loaded, answers `STARTED`, `BUSY` or `TERMINAL` unless it is overtaken: an
owner gives the event back after the start's claim selected nothing and before
the start looks at the row.  Then it raises `PersistenceUnavailable`, although
nothing failed.  A start of a finished event cannot be overtaken.
-/

namespace Hooklane.Cloudflare

open Support ProgE

variable {M : ℕ} {e : UUID} {w w' : World} {store : D1EventStore}

section Threads

/-- A finished start of the system is a run amid the others. -/
theorem amid_of_reachable {cfg : (d1Service (· = M)).Config}
    (hreach : Service.Reachable Service.anyCall cfg) {service : DeliveryService}
    {finished : Bool} {r : Except Raised DeliveryStart}
    (hthread : (⟨.markDeliveryStarted service e finished, .pure r⟩ :
      (d1Service (· = M)).Thread) ∈ cfg.threads) :
    ∃ w own, OpenReached M w ∧
      AmidOthers M (service.store.markDeliveryStarted e M) w own r
        cfg.state := by
  obtain ⟨w, own, hw, henabled, hrun⟩ := hreach.restrict.amid
    (d1Service_disciplined (· = M) (Service.anyCall (M := d1Machine))) hthread
  obtain rfl : service.maximumAttempts = M := henabled.1
  exact ⟨w, own, hw, hrun⟩

end Threads

section Overtaken

theorem onward_refl (w : World) : OpenOnward M w w :=
  Machine.Later.refl (M := openMachine) w

theorem amid_execute {call : D1Call} {value : call.Value} {db : Database}
    {t : World} (hlater : OpenOnward M w t)
    (hrun : call.statement t.db = some (value, db)) :
    AmidOthers M (App.execute call) w [⟨t, .d1 call, some value⟩] (.ok value)
      (t.ran call value db) := by
  have hcall : AmidOthers M (App.request (.d1 call)) w
      [⟨t, .d1 call, some value⟩] (.ok (some value)) (t.ran call value db) :=
    amid_perform hlater
      ⟨trivial, .answered call value value db hrun (call.agrees_refl value)⟩
  exact ProgE.Amid.bind hcall (amid_pure value (Machine.Later.refl _))

theorem amid_nowMs (w : World) (now : ℚ) :
    AmidOthers M App.nowMs w [⟨w, .time, now⟩] (.ok (truncate (now * 1000)))
      w :=
  have htime : AmidOthers M (App.request .time) w [⟨w, .time, now⟩] (.ok now)
      w := amid_perform (onward_refl w) ⟨trivial, .time now⟩
  ProgE.Amid.bind htime (amid_pure _ (onward_refl w))

theorem amid_uuid4Hex (w : World) (id : UUID) :
    AmidOthers M App.uuid4Hex w [⟨w, .uuid4, id⟩]
      (.ok (String.ofList (id.digits.map UUID.hexDigit))) w :=
  have hid : AmidOthers M (App.request .uuid4) w [⟨w, .uuid4, id⟩] (.ok id)
      w := amid_perform (onward_refl w) ⟨trivial, .uuid4 id⟩
  ProgE.Amid.bind hid (amid_pure _ (onward_refl w))

/-- A claim of a row that may not be claimed changes nothing. -/
theorem claimDelivery_unselected (token : String) (leaseUntilMs : ℤ) {nowMs : ℤ}
    {db : Database} {row : EventRow} (hrow : db.events.lookup e = some row)
    (hbusy : row.claimable nowMs M = false) :
    (D1Call.claimDelivery e token leaseUntilMs nowMs M).statement db =
      some (none, db) := by
  change claimDelivery e token leaseUntilMs nowMs M db = _
  simp [claimDelivery, updateEvent, updateWhere, hrow, hbusy]

/-- The owner of a running attempt may give the event back. -/
theorem exists_retry {row : EventRow} {token : String}
    (hw : OpenReached M w) (hrow : w.db.events.lookup e = some row)
    (hrunning : row.status = .delivering)
    (howner : row.deliveryToken = some token) (hleft : row.attemptCount < M) :
    ∃ w' row', OpenOnward M w w' ∧ w'.db.events.lookup e = some row' ∧
      row'.status = .retryScheduled ∧ row'.attemptCount = row.attemptCount := by
  let row' : EventRow :=
    { row with
      status := .retryScheduled
      updatedAtMs := 0
      lastReason := some "retryable"
      deliveryToken := none
      deliveryLeaseUntilMs := none }
  let call : D1Call :=
    .updateTerminal e .retryScheduled 0 (some "retryable") token
  let db : Database := { w.db with events := w.db.events.insert e row' }
  have hrun : call.statement w.db = some (1, db) := by
    change (updateTerminal e .retryScheduled 0 (some "retryable") token
      w.db).map (fun p => (changes p.1, p.2)) = _
    simp [updateTerminal, updateEvent, updateWhere, hrow, hrunning, howner,
      changes, db, row']
  have hjournal := (reach_invariant hw).journaled e
  rw [lifecycle_of_row hrow] at hjournal
  obtain ⟨rest, hclaims⟩ := hjournal.owner_claims howner
  have hmay : May (· = M) w (.d1 call) := by
    refine ⟨⟨Or.inr rfl, row.attemptCount, ?_, fun _ => ⟨M, ?_, hleft⟩⟩, ?_⟩
    · rw [hclaims]
      exact List.mem_cons_self
    · exact ⟨rfl, Nat.one_le_of_lt hleft⟩
    · intro hdelivered
      cases hdelivered
  exact ⟨w.ran call 1 db, row', onward_ran hmay hrun rfl,
    AList.lookup_insert _, rfl, rfl⟩

/-- The answer to the look at a row with attempts left. -/
def lookAnswer (row : EventRow) : Except Raised DeliveryStart :=
  match D1EventStore.unclaimed (row.status, row.attemptCount) with
  | some start => .ok start
  | none => .error .persistenceUnavailable

/-- What is left after a start at `now` whose claim selected nothing. -/
def missed (M : ℕ) (e : UUID) (now : ℚ) (id : UUID) (w : World) : World :=
  w.ran (.claimDelivery e (String.ofList (id.digits.map UUID.hexDigit))
    (truncate (now * 1000) + 30000) (truncate (now * 1000)) M) none w.db

theorem onward_missed {now : ℚ} {id : UUID} {row : EventRow} (hM : 1 ≤ M)
    (hrow : w.db.events.lookup e = some row)
    (hbusy : row.claimable (truncate (now * 1000)) M = false) :
    OpenOnward M w (missed M e now id w) :=
  have hmay : ∀ token leaseUntilMs nowMs, May (· = M) w
      (.d1 (.claimDelivery e token leaseUntilMs nowMs M)) :=
    fun _ _ _ => ⟨rfl, hM⟩
  onward_ran (hmay _ _ _) (claimDelivery_unselected _ _ hrow hbusy) rfl

theorem amid_look (nowMs : ℤ) {row : EventRow} {t : World}
    (hlater : OpenOnward M w t) (hrow : t.db.events.lookup e = some row)
    (hleft : row.attemptCount < M) :
    ∃ w', AmidOthers M (D1EventStore.startUnclaimed e nowMs M) w
      [⟨t, .d1 (.selectState e), some (some (row.status, row.attemptCount))⟩]
      (lookAnswer row) w' := by
  have hselect : (D1Call.selectState e).statement t.db =
      some (some (row.status, row.attemptCount), t.db) := by
    change some ((t.db.events.lookup e).map _, t.db) = _
    rw [hrow]
    rfl
  let t' := t.ran (.selectState e) (some (row.status, row.attemptCount)) t.db
  have hread : AmidOthers M (D1EventStore.readState e) w
      [⟨t, .d1 (.selectState e), some (some (row.status, row.attemptCount))⟩]
      (.ok (row.status, row.attemptCount)) t' :=
    ProgE.Amid.bind (amid_execute hlater hselect)
      (amid_pure _ (onward_refl t'))
  refine ⟨t', ProgE.Amid.bind hread ?_⟩
  unfold lookAnswer
  cases D1EventStore.unclaimed (row.status, row.attemptCount) with
  | some start => exact amid_pure _ (onward_refl t')
  | none =>
      dsimp only
      rw [if_neg (Nat.not_le.mpr hleft)]
      exact amid_throw _ (onward_refl t')

/-- A start at `now` whose claim selects nothing, the moves of others, and the
look at the row. -/
theorem exists_look (store : D1EventStore) (now : ℚ) (id : UUID)
    {row row' : EventRow} (hM : 1 ≤ M) (hrow : w.db.events.lookup e = some row)
    (hbusy : row.claimable (truncate (now * 1000)) M = false)
    (hlater : OpenOnward M (missed M e now id w) w')
    (hrow' : w'.db.events.lookup e = some row')
    (hleft : row'.attemptCount < M) :
    ∃ own w'', AmidOthers M (store.markDeliveryStarted e M) w own
        (lookAnswer row') w'' ∧ Served own ∧
      ∀ o ∈ own, o.op ≠ .d1 (.selectPayloadChunks e) := by
  obtain ⟨w'', hlook⟩ :=
    amid_look (truncate (now * 1000)) hlater hrow' hleft
  let token := String.ofList (id.digits.map UUID.hexDigit)
  have hclaim : AmidOthers M (App.execute (.claimDelivery e token
      (truncate (now * 1000) + 30000) (truncate (now * 1000)) M)) w _ _ _ :=
    amid_execute (onward_refl w) (claimDelivery_unselected _ _ hrow hbusy)
  have hrun : AmidOthers M (store.markDeliveryStarted e M) w
      ([⟨w, .time, now⟩] ++ ([⟨w, .uuid4, id⟩] ++
        ([⟨w, .d1 (.claimDelivery e token (truncate (now * 1000) + 30000)
            (truncate (now * 1000)) M), some none⟩] ++
          [⟨w', .d1 (.selectState e),
            some (some (row'.status, row'.attemptCount))⟩])))
      (lookAnswer row') w'' := by
    unfold D1EventStore.markDeliveryStarted
    rw [if_neg (by omega)]
    exact ProgE.Amid.bind (amid_nowMs w now)
      (ProgE.Amid.bind (amid_uuid4Hex w id) (ProgE.Amid.bind hclaim hlook))
  exact ⟨_, w'', hrun, by simp [Served, Op.Failed], by simp⟩

end Overtaken

section Terminal

variable {maxima : ℕ → Prop} {cfg cfg' : (d1Service maxima).Config}
  {own : List (Own openMachine)}

/-- A finished event cannot be claimed. -/
theorem claimable_of_terminal {row : EventRow} (h : row.status.Terminal)
    (nowMs : ℤ) (M : ℕ) : row.claimable nowMs M = false := by
  rcases h with h | h
  · simp [EventRow.claimable, h]
  · simp [EventRow.claimable, h]

theorem unclaimed_of_terminal {row : EventRow} (h : row.status.Terminal) :
    D1EventStore.unclaimed (row.status, row.attemptCount) =
      some { disposition := .terminal, status := row.status,
             attemptCount := row.attemptCount } :=
  if_pos h

/-- A start of a finished event whose statements are all answered tells its
state, whatever the others do. -/
theorem AmidStarts.markDeliveryStarted {l : Lifecycle}
    {r : Except Raised DeliveryStart} (hM : Bound maxima M)
    (h : AmidStarts maxima (store.markDeliveryStarted e M) w own r w')
    (hserved : Served own) (hw : ReachedBy maxima w) (hclosed : Closed e l w) :
    r = .ok { disposition := .terminal, status := l.status,
              attemptCount := l.attemptCount } := by
  unfold D1EventStore.markDeliveryStarted at h
  rw [if_neg (Nat.not_lt.mpr hM.2)] at h
  rcases ProgE.Amid.of_bind h with ⟨raised, t, hp, -, -⟩ |
    ⟨clock, now, t₁, rest₁, hclock, h₁, rfl⟩
  · obtain ⟨⟨_, hok⟩, -⟩ := AmidStarts.nowMs (M := M) (e := e) hp
    cases hok
  obtain ⟨-, hlater₁, -⟩ := AmidStarts.nowMs (M := M) (e := e) hclock
  rcases ProgE.Amid.of_bind h₁ with ⟨raised, t, hp, -, -⟩ |
    ⟨chance, token, t₂, rest₂, hchance, h₂, rfl⟩
  · obtain ⟨⟨_, hok⟩, -⟩ := AmidStarts.uuid4Hex (M := M) (e := e) hp
    cases hok
  obtain ⟨-, hlater₂, -⟩ := AmidStarts.uuid4Hex (M := M) (e := e) hchance
  have hserved₂ : Served rest₂ := hserved.append.2.append.2
  rcases ProgE.Amid.of_bind h₂ with ⟨raised, t, hp, -, -⟩ |
    ⟨claim, claimed, t₃, rest₃, hclaim, h₃, rfl⟩
  · obtain ⟨_, _, _, _, -, -, -, -, -, hok⟩ := AmidStarts.execute hp hserved₂
    cases hok
  obtain ⟨s, value, returned, db, hbefore, hrun, rfl, hafter, rfl, hok⟩ :=
    AmidStarts.execute hclaim hserved₂.append.1
  obtain rfl := Except.ok.inj hok
  have hmay : May maxima s
      (.d1 (.claimDelivery e token (now + 30000) now M)) := hM
  have hbegin : OnwardBy maxima w s := (hlater₁.trans hlater₂).trans hbefore
  -- The claim meets the finished row and selects nothing.
  have hclosed₁ : Closed e l s := lasting_closed e l w s hw hbegin hclosed
  obtain ⟨row, hrow, hstatus, -⟩ := row_of_lifecycle hclosed₁.1
  have hunselected := claimDelivery_unselected token (now + 30000) hrow
    (claimable_of_terminal (hstatus ▸ hclosed₁.2) now M)
  rw [hunselected] at hrun
  obtain ⟨rfl, rfl⟩ := Prod.mk.inj (Option.some.inj hrun)
  have hmove : OnwardBy maxima s t₃ :=
    (onward_ran hmay hunselected rfl).trans hafter
  have hs : ReachedBy maxima s := hw.later hbegin
  have hstored : content t₃.db e = some row.content :=
    lasting_content e row.content s t₃ hs hmove (content_of_row hrow)
  -- So does the look at the row.
  rcases ProgE.Amid.of_bind h₃ with ⟨raised, t, hp, -, -⟩ |
    ⟨look, snapshot, t₄, rest₄, hlook, h₄, rfl⟩
  · obtain ⟨_, _, -, -, -, -, hok⟩ := AmidStarts.readState hp
      hserved₂.append.2 (hs.later hmove) hstored
    cases hok
  obtain ⟨u, row', hbefore', hrow', -, -, hok⟩ := AmidStarts.readState hlook
    hserved₂.append.2.append.1 (hs.later hmove) hstored
  obtain rfl := Except.ok.inj hok
  have hclosed₂ : Closed e l u :=
    lasting_closed e l s u hs (hmove.trans hbefore') hclosed₁
  obtain rfl : row'.lifecycle = l :=
    Option.some.inj ((lifecycle_of_row hrow').symm.trans hclosed₂.1)
  rw [unclaimed_of_terminal hclosed₂.2] at h₄
  exact (ProgE.Amid.of_pure h₄).1


/-- Terminal states are final: no later statement changes the status or the
attempts of a delivered or given up event or claims it, and every later start
is answered with `TERMINAL` and the row's values, or raises
`PersistenceUnavailable`.  It is answered when its statements are, whatever
the others do in between. -/
theorem terminal_row_final
    (hreach : Service.Reachable Service.anyCall cfg)
    (hsteps : Service.Steps Service.anyCall cfg cfg') {row : EventRow}
    (hrow : cfg.state.db.events.lookup e = some row)
    (hterminal : row.status = .delivered ∨ row.status = .deadLetter) :
    (∃ row', cfg'.state.db.events.lookup e = some row' ∧
      row'.status = row.status ∧ row'.attemptCount = row.attemptCount) ∧
    cfg'.state.journal e = cfg.state.journal e ∧
    (∀ (service : DeliveryService) (result : Except Raised DeliveryStart),
      (⟨.markDeliveryStarted service e true, .pure result⟩ :
        (d1Service maxima).Thread) ∈ cfg'.threads →
      (∃ start, result = .ok start ∧ start.disposition = .terminal ∧
        start.status = row.status ∧ start.attemptCount = row.attemptCount) ∨
      result = .error .persistenceUnavailable) ∧
    ∀ (service : DeliveryService) (own : List (Own openMachine))
      (result : Except Raised DeliveryStart) (w' : World),
      maxima service.maximumAttempts →
      AmidStarts maxima (service.store.markDeliveryStarted e
        service.maximumAttempts) cfg'.state own result w' → Served own →
      ∃ start, result = .ok start ∧ start.disposition = .terminal ∧
        start.status = row.status ∧ start.attemptCount = row.attemptCount := by
  have hl : cfg.state.lifecycle e = some row.lifecycle :=
    lifecycle_of_row hrow
  have hreached := reached_of_reachable hreach
  have hlater := onward_of_steps hreach hsteps
  have hkept : Lasting (Service.anyCall (M := d1Machine)) maxima fun w =>
      Closed e row.lifecycle w ∧ w.journal e = cfg.state.journal e := by
    refine lasting_of_exec fun w op reply w' hw hmay hexec h => ?_
    obtain ⟨hlife, hjournal⟩ :=
      lifecycle_exec hw.journaled hmay hexec h.1.1 h.1.2
    exact ⟨⟨hlife, h.1.2⟩, hjournal.trans h.2⟩
  obtain ⟨hclosed, hjournal⟩ := hkept _ _ hreached hlater
    ⟨⟨hl, hterminal⟩, rfl⟩
  refine ⟨row_of_lifecycle hclosed.1, hjournal, ?_, ?_⟩
  · intro service result hthread
    obtain ⟨l, hclosed', hanswer⟩ :=
      post_of_reachable (hreach.steps hsteps) hthread rfl
    obtain rfl : row.lifecycle = l :=
      Option.some.inj (hclosed.1.symm.trans hclosed'.1)
    exact hanswer
  · intro service own result w' hmaximum hrun hserved
    exact ⟨_, AmidStarts.markDeliveryStarted ⟨hmaximum, service.positive⟩ hrun
      hserved (steps_reached hreach hsteps) hclosed, rfl, rfl, rfl⟩

/-- The disposition that a start on its own has returned. -/
def lateDisposition {M : ℕ} (cfg : (d1Service (· = M)).Config) (i : ℕ) :
    Option DeliveryStartDisposition :=
  match cfg.threads[i]? with
  | some ⟨.markDeliveryStarted .., .pure (.ok start)⟩ => some start.disposition
  | _ => none

/-- After the event was delivered, another start begins. -/
def withLateStart (cfg : (d1Service (· = 5)).Config) :
    (d1Service (· = 5)).Config :=
  let request := .markDeliveryStarted sampleService sampleEvent true
  ⟨cfg.state, cfg.threads ++ [⟨request, (d1Service (· = 5)).body request⟩]⟩

def lateSchedule : List (SampleAction 5) :=
  [.act 2 (.number 90), .act 2 (.uuid (UUID.ofNat 8)), .act 2 .ran,
    .act 2 .ran]

/-- A delivered event is started again and keeps its row. -/
theorem terminal_row_final_example :
    ∃ (cfg cfg' : (d1Service (· = 5)).Config) (row row' : EventRow),
      cfg.state.db.events.lookup sampleEvent = some row ∧
      row.status = .delivered ∧ row.attemptCount = 1 ∧
      lateDisposition cfg' 2 = some .terminal ∧
      cfg'.state.db.events.lookup sampleEvent = some row' ∧
      row'.status = row.status ∧ row'.attemptCount = row.attemptCount := by
  have hrun : ((d1Oracle.play Service.anyCall sampleStart
      deliveredSchedule).bind fun cfg =>
        (d1Oracle.play Service.anyCall (withLateStart cfg) lateSchedule).map
          fun cfg' => (publicRow cfg.state, lateDisposition cfg' 2)) =
      some (some (.delivered, 1), some .terminal) := by
    decide +kernel
  obtain ⟨cfg, hplay, hlate⟩ := Option.bind_eq_some_iff.mp hrun
  obtain ⟨cfg', hplay', heq⟩ := Option.map_eq_some_iff.mp hlate
  obtain ⟨hpublic, hdisposition⟩ := Prod.mk.inj heq
  obtain ⟨row, hrow, hstatus, hattempts⟩ := row_of_publicRow hpublic
  have hreach : Service.Reachable Service.anyCall cfg :=
    Oracle.reachable_of_play rfl hplay
  have hstart : Service.Step Service.anyCall cfg (withLateStart cfg) :=
    .start cfg _ ⟨rfl, fun _ => ⟨row, hrow, Or.inl hstatus⟩⟩
  have hsteps : Service.Steps Service.anyCall cfg cfg' :=
    Relation.ReflTransGen.head hstart (Oracle.steps_of_play hplay')
  obtain ⟨⟨row', hrow', hsame⟩, -⟩ :=
    terminal_row_final hreach hsteps hrow (Or.inl hstatus)
  exact ⟨cfg, cfg', row, row', hrow, hstatus, hattempts, hdisposition, hrow',
    hsame⟩

end Terminal

section Answers

/-- A start whose statements are all answered, and that finds an intact payload
where it reads one, returns `STARTED`, `BUSY` or `TERMINAL` if and only if its
bound is positive and no look at the row finds the event waiting with attempts
left. -/
theorem start_answers_iff {cfg : (d1Service (· = M)).Config}
    (hreach : Service.Reachable Service.anyCall cfg)
    (hstored : e ∈ cfg.state.db.events) {own : List (Own openMachine)}
    {r : Except Raised DeliveryStart}
    (hrun : AmidOthers M (store.markDeliveryStarted e M) cfg.state own r w')
    (hserved : Served own)
    (hintact : ∀ o ∈ own, o.op = .d1 (.selectPayloadChunks e) →
      PayloadIntact store.lib o.state.db e) :
    (∃ start, r = .ok start) ↔ 1 ≤ M ∧ NeverWaiting M e own := by
  obtain ⟨c, hc⟩ := Option.ne_none_iff_exists'.mp (content_ne_none.mpr hstored)
  exact AmidOthers.markDeliveryStarted hrun hserved
    (reached_of_reachable hreach) hc hintact

theorem sampleProcess_enabled (w : World) :
    (d1Service (· = 5)).Enabled w (.process sampleService sampleEvent) :=
  rfl

/-- The event is stored, and a delivery claims it at time 2. -/
def runningSchedule : List (SampleAction 5) :=
  storedSchedule ++
    [.start (.process sampleService sampleEvent) sampleProcess_enabled,
      .act 1 (.number 2), .act 1 (.uuid (UUID.ofNat 7)), .act 1 .ran]

/-- What the row of the event shows of a claim. -/
def claimedRow (w : World) : Option (Lifecycle × Option ℤ) :=
  (w.db.events.lookup sampleEvent).map fun row =>
    (row.lifecycle, row.deliveryLeaseUntilMs)

/-- A reached state in which an attempt of the event is running and its
payload is intact. -/
theorem exists_running : ∃ (cfg : (d1Service (· = 5)).Config) (row : EventRow),
    Service.Reachable Service.anyCall cfg ∧
      cfg.state.db.events.lookup sampleEvent = some row ∧
      row.status = .delivering ∧ row.attemptCount = 1 ∧
      row.deliveryToken = some (sampleToken 7) ∧
      row.deliveryLeaseUntilMs = some 32000 ∧
      PayloadIntact sampleLib cfg.state.db sampleEvent := by
  have hplay : (d1Oracle.play Service.anyCall sampleStart runningSchedule).map
      (fun cfg => (claimedRow cfg.state,
        (storedRequest sampleLib cfg.state.db sampleEvent).isSome)) =
      some (some (⟨.delivering, 1, some (sampleToken 7)⟩, some 32000),
        true) := by
    decide +kernel
  obtain ⟨cfg, hreach, heq⟩ := reachable_of_sample hplay
  obtain ⟨hclaimed, hintact⟩ := Prod.mk.inj heq
  obtain ⟨row, hrow, heq⟩ := Option.map_eq_some_iff.mp hclaimed
  obtain ⟨hlife, hlease⟩ := Prod.mk.inj heq
  obtain ⟨hstatus, hattempts, htoken⟩ := Lifecycle.mk.inj hlife
  exact ⟨cfg, row, hreach, hrow, hstatus, hattempts, htoken, hlease, hintact⟩

/-- Before its lease ends a running attempt cannot be claimed. -/
theorem running_unclaimable {row : EventRow} (hstatus : row.status = .delivering)
    (hlease : row.deliveryLeaseUntilMs = some 32000) :
    row.claimable (truncate (3 * 1000)) 5 = false := by
  have hnow : expired (some 32000) (truncate (3 * 1000)) = false := by
    decide +kernel
  simp [EventRow.claimable, hstatus, hlease, hnow]

/-- A second start of the running attempt, whose payload is intact, is
answered. -/
theorem start_answers_iff_example :
    ∃ (cfg : (d1Service (· = 5)).Config) (own : List (Own openMachine))
      (r : Except Raised DeliveryStart) (w' : World),
      PayloadIntact sampleLib cfg.state.db sampleEvent ∧
      AmidOthers 5 (sampleStore.markDeliveryStarted sampleEvent 5) cfg.state
        own r w' ∧
      ((∃ start, r = .ok start) ↔ 1 ≤ 5 ∧ NeverWaiting 5 sampleEvent own) := by
  obtain ⟨cfg, row, hreach, hrow, hstatus, hattempts, -, hlease, hintact⟩ :=
    exists_running
  have hbusy := running_unclaimable hstatus hlease
  obtain ⟨own, w', hrun, hserved, hunread⟩ := exists_look (M := 5)
    sampleStore 3 (UUID.ofNat 8) (by decide) hrow hbusy (onward_refl _) hrow
    (by rw [hattempts]; decide)
  have hstored : sampleEvent ∈ cfg.state.db.events :=
    AList.lookup_isSome.mp (by rw [hrow]; rfl)
  exact ⟨cfg, own, _, w', hintact, hrun, start_answers_iff hreach hstored hrun
    hserved fun o ho hop => absurd hop (hunread o ho)⟩

/-- A start that is overtaken by the owner of the running attempt, who gives
the event back for a retry, raises `PersistenceUnavailable` although every
statement was answered. -/
theorem start_overtaken :
    ∃ (cfg : (d1Service (· = 5)).Config) (own : List (Own openMachine))
      (w' : World),
      Service.Reachable Service.anyCall cfg ∧
      sampleEvent ∈ cfg.state.db.events ∧
      PayloadIntact sampleLib cfg.state.db sampleEvent ∧
      AmidOthers 5 (sampleStore.markDeliveryStarted sampleEvent 5) cfg.state
        own (.error .persistenceUnavailable) w' ∧ Served own ∧
      ∀ o ∈ own, o.op = .d1 (.selectPayloadChunks sampleEvent) →
        PayloadIntact sampleLib o.state.db sampleEvent := by
  obtain ⟨cfg, row, hreach, hrow, hstatus, hattempts, htoken, hlease, hintact⟩ :=
    exists_running
  have hbusy := running_unclaimable hstatus hlease
  have hmissed : OpenReached 5
      (missed 5 sampleEvent 3 (UUID.ofNat 8) cfg.state) :=
    (reached_of_reachable hreach).later
      (onward_missed (by decide) hrow hbusy)
  have hleft : row.attemptCount < 5 := by
    rw [hattempts]
    decide
  obtain ⟨w', row', hlater, hrow', hretry, hsame⟩ :=
    exists_retry hmissed hrow hstatus htoken hleft
  obtain ⟨own, w'', hrun, hserved, hunread⟩ := exists_look
    sampleStore _ _ (by decide) hrow hbusy hlater hrow'
    (by rw [hsame]; exact hleft)
  have hanswer : lookAnswer row' = .error .persistenceUnavailable := by
    have hnone := unclaimed_none_iff.mpr (Or.inr hretry)
    rw [lookAnswer, hnone]
  rw [hanswer] at hrun
  exact ⟨cfg, own, w'', hreach, AList.lookup_isSome.mp (by rw [hrow]; rfl),
    hintact, hrun, hserved, fun o ho hop => absurd hop (hunread o ho)⟩

end Answers

end Hooklane.Cloudflare
