import Hooklane.Queue.StaleClaims

/-!
# What a claim of stale messages guarantees

The guarantee holds exactly as far as the window of the scan reaches.  A
backlog of waiting retries, of any length up to 1000, shows that both sides of
this condition occur.
-/

namespace Hooklane

open Redis Support ProgE

section Backlog

/-- Small numbers give distinct ids. -/
theorem ofNat_inj {j k : ℕ} (hj : j < 4096) (hk : k < 4096)
    (h : UUID.ofNat j = UUID.ofNat k) : j = k := by
  have hdigits := congrArg UUID.digits h
  have hdigit : ∀ i, (hi : i < 32) → j / 16 ^ (31 - i) % 16 =
      k / 16 ^ (31 - i) % 16 := by
    intro i hi
    have hget := congrArg (fun l : List (Fin 16) => (l[i]?).map Fin.val) hdigits
    simpa [UUID.ofNat, List.getElem?_reverse, hi] using hget
  have h0 := hdigit 31 (by decide)
  have h1 := hdigit 30 (by decide)
  have h2 := hdigit 29 (by decide)
  norm_num at h0 h1 h2
  omega

/-- The message that every event of the backlog carries. -/
def backlogFields (e : UUID) : Fields :=
  messageFields e exampleRequest.eventType "{}" "1000"

theorem backlogFields_parse (e : UUID) (m : String) :
    RedisEventStore.parseMessage exampleLib m (backlogFields e) =
      some ⟨m, e, exampleRequest, 1000⟩ := by
  have hnumber : pyInt 10 ['1', '0', '0', '0'] = some 1000 := by decide
  have hvalidate : EventRequest.validate "order.created" (.obj []) =
      some exampleRequest := rfl
  simp [RedisEventStore.parseMessage, RedisEventStore.parseNext,
    RedisEventStore.buildMessage, RedisEventStore.fieldOf, backlogFields,
    messageFields, lastFieldValue, fieldValue, exampleLib, hnumber,
    UUID.parse_text, hvalidate, exampleRequest, Except.toOption]

/-- The stream and the group of a keyspace in which every message is
pending. -/
structure AllPending (n : ℕ) (db : Store) (st : Stream) (g : Redis.Group) :
    Prop where
  events : db .events = some (.stream st)
  group : st.groups.lookup "hooklane-workers" = some g
  length : g.pending.keys.length = n
  room : st.lastId.ms.toNat ≤ n
  pending : ∀ entry ∈ st.entries, entry.id ∈ g.pending

/-- The ids of the events after the first `n` are unused. -/
def Unused (n : ℕ) (db : Store) : Prop :=
  ∀ k, n < k → k ≤ 1000 → db (.event (UUID.ofNat k).text) = none

/-- `n` events wait for a retry, and nothing else was enqueued. -/
structure Backlog (n : ℕ) (w : World) : Prop where
  reach : redisMachine.Reach (May exampleLib "hooklane-workers") w
  messages : ∃ st g, AllPending n w.store st g
  waiting : ∀ entry ∈ (streamAt w.store .events).entries,
    MessageHas w.store entry.id .retryScheduled
  unused : Unused n w.store

/-- Behind `n` waiting retries, the message `id` was read and not started. -/
structure OneOpen (n : ℕ) (w : World) (id : StreamId) : Prop where
  reach : redisMachine.Reach (May exampleLib "hooklane-workers") w
  messages : ∃ st g, AllPending (n + 1) w.store st g
  waiting : ∀ entry ∈ (streamAt w.store .events).entries, entry.id < id ∧
      MessageHas w.store entry.id .retryScheduled ∨
    entry = ⟨id, backlogFields (UUID.ofNat (n + 1))⟩
  opened : ⟨id, backlogFields (UUID.ofNat (n + 1))⟩ ∈
    (streamAt w.store .events).entries
  record : w.store (.event (UUID.ofNat (n + 1)).text) =
    some (.hash (initialHash (UUID.ofNat (n + 1)) id))
  unused : Unused (n + 1) w.store

theorem reach_run {w : World}
    (h : redisMachine.Reach (May exampleLib "hooklane-workers") w)
    (call : RedisCall) (now : UInt64)
    (hmay : May exampleLib "hooklane-workers" w (.redis call)) :
    redisMachine.Reach (May exampleLib "hooklane-workers") (w.run call now) :=
  h.later (.single ⟨.redis call, _, hmay, .answered call now⟩)

theorem exists_backlog_zero : ∃ w, Backlog 0 w := by
  have hinit : redisMachine.Reach (May exampleLib "hooklane-workers")
      World.initial := ⟨_, rfl, .refl _⟩
  refine ⟨World.initial.run (.xgroupCreate "hooklane-workers") 0,
    reach_run hinit _ _ rfl, ⟨Stream.empty.createGroup "hooklane-workers", _,
      rfl, Stream.lookup_setGroup _ _ _, rfl, Nat.le_refl _, ?_⟩, ?_, ?_⟩
  · intro entry hentry
    cases hentry
  · intro entry hentry
    cases hentry
  · intro k _ _
    rfl

theorem ms_of_append {st st' : Stream} {fields : Fields} {id : StreamId}
    (h : st.append 0 fields = some (id, st')) :
    id.ms.toNat ≤ st.lastId.ms.toNat + 1 := by
  unfold Stream.append at h
  split at h
  · cases h
  · next next hnext =>
    obtain ⟨rfl, -⟩ := Prod.mk.inj (Option.some.inj h)
    unfold StreamId.next at hnext
    split at hnext
    · obtain rfl := Option.some.inj hnext
      exact Nat.zero_le _
    · split at hnext
      · obtain rfl := Option.some.inj hnext
        exact Nat.le_succ _
      · split at hnext
        · obtain rfl := Option.some.inj hnext
          rw [UInt64.toNat_add]
          exact (Nat.mod_le _ _)
        · cases hnext

theorem enqueue_fresh {db : Store} {st : Stream} {e : UUID}
    (hevents : db .events = some (.stream st))
    (hunused : db (.event e.text) = none)
    (hroom : st.lastId ≠ StreamId.greatest) :
    ∃ id st', st.append 0 (backlogFields e) = some (id, st') ∧
      enqueueScript 0 e exampleRequest.eventType "{}" "1000" db =
        (.ok id.text, Function.update (Function.update db .events
          (some (.stream st'))) (.event e.text)
          (some (.hash (initialHash e id)))) := by
  rcases xadd_run (Or.inr hevents) 0 (backlogFields e) with
    ⟨hfull, -⟩ | ⟨id, st', happend, hxadd⟩
  · exact absurd (Stream.append_eq_none.mp hfull) hroom
  · refine ⟨id, st', happend, ?_⟩
    have hset := hset_absent (k := .event e.text)
      (d := Function.update db .events (some (.stream st')))
      (by simpa using hunused)
    rw [backlogFields, messageFields] at hxadd
    simp [enqueueScript, Script.bind_apply, typeOf_run _ hevents,
      typeOf_absent hunused, Value.kind, hxadd, hset, initialHash]

theorem nextUnread_of_allPending {n : ℕ} {db : Store} {st st' : Stream}
    {g : Redis.Group} {id : StreamId} {fields : Fields}
    (h : AllPending n db st g) (htidy : st.Tidy "hooklane-workers")
    (happend : st.append 0 fields = some (id, st')) :
    (∀ entry ∈ st.entries, entry.id < id) ∧
      st'.nextUnread g = some ⟨id, fields⟩ := by
  obtain ⟨hlast, hentries, -, -⟩ := Stream.append_eq_some happend
  have hread : ∀ entry ∈ st.entries, entry.id ≤ g.lastDelivered :=
    fun entry hentry => htidy.pending_le g h.group _ (h.pending entry hentry)
  have hcursor := lt_of_le_of_lt (htidy.delivered_le g h.group) hlast
  refine ⟨fun entry hentry => (hread entry hentry).trans_lt hcursor, ?_⟩
  rw [Stream.nextUnread, hentries, List.find?_append,
    List.find?_eq_none.mpr fun entry hentry => by
      simpa using hread entry hentry]
  simp [hcursor]

/-- The status of a message stays while the stream grows and the record of its
event is not touched. -/
theorem MessageHas.of_record {db db' : Store} {id : StreamId} {e : UUID}
    {status : EventStatus} (h : MessageHas db id status)
    (hentries : ∀ entry ∈ (streamAt db .events).entries,
      entry ∈ (streamAt db' .events).entries)
    (hothers : ∀ key, key ≠ e.text → db' (.event key) = db (.event key))
    (hrecord : statusField db e "status" = some status.value →
      statusField db' e "status" = some status.value) :
    MessageHas db' id status := by
  obtain ⟨entry, hentry, hid, e', hfield, hstatus⟩ := h
  refine ⟨entry, hentries entry hentry, hid, e', hfield, ?_⟩
  by_cases he : e' = e
  · subst he
    exact hrecord hstatus
  · rw [statusField, hothers _ fun h => he (UUID.text_injective h)]
    exact hstatus

theorem text_ne_of_lt {j k : ℕ} (hj : j < k) (hk : k ≤ 1000) :
    (UUID.ofNat k).text ≠ (UUID.ofNat j).text := fun h =>
  hj.ne' (ofNat_inj (by omega) (by omega) (UUID.text_injective h))

/-- One more event is enqueued and read. -/
theorem Backlog.read {n : ℕ} {w : World} (h : Backlog n w) (hn : n < 1000) :
    ∃ w' id, OneOpen n w' id := by
  obtain ⟨st, g, hall⟩ := h.messages
  let e := UUID.ofNat (n + 1)
  have hunused : w.store (.event e.text) = none := h.unused _ (by omega) hn
  have hroom : st.lastId ≠ StreamId.greatest := by
    intro hlast
    have hms := hlast ▸ hall.room
    have hgreatest : StreamId.greatest.ms.toNat = 18446744073709551615 := rfl
    omega
  obtain ⟨id, st', happend, hrun⟩ := enqueue_fresh hall.events hunused hroom
  obtain ⟨L, hL⟩ := reach_accounted h.reach
  have hst : streamAt w.store .events = st := streamAt_eq (Or.inr hall.events)
  obtain ⟨hbefore, hnext⟩ := nextUnread_of_allPending hall
    (hst ▸ hL.represents.stream.tidy) happend
  obtain ⟨-, hentries, hlast, hgroups⟩ := Stream.append_eq_some happend
  -- the store after the enqueue
  let w₁ := w.run (.enqueue e exampleRequest.eventType "{}" "1000") 0
  have hstore₁ : w₁.store = Function.update (Function.update w.store .events
      (some (.stream st'))) (.event e.text) (some (.hash (initialHash e id))) :=
    congrArg Prod.snd hrun
  have hevents₁ : w₁.store .events = some (.stream st') := by
    rw [hstore₁]
    simp
  have hst₁ : streamAt w₁.store .events = st' := streamAt_eq (Or.inr hevents₁)
  -- and after the read
  let w₂ := w₁.run (.xreadgroup "hooklane-workers" "worker-1") 0
  have hstream : w₁.store .events =
      some (.stream (streamAt w₁.store .events)) := by rw [hst₁, hevents₁]
  have hgroup : (streamAt w₁.store .events).groups.lookup
      "hooklane-workers" = some g := by rw [hst₁, hgroups, hall.group]
  have hread := xreadgroup_run hstream hgroup 0 "worker-1"
    (by rw [hst₁]; exact hnext)
  rw [hst₁] at hread
  have hstore₂ : w₂.store = Function.update w₁.store .events (some (.stream
      (st'.setGroup "hooklane-workers" (g.deliver id "worker-1" 0)))) :=
    congrArg Prod.snd hread
  have hst₂ : streamAt w₂.store .events =
      st'.setGroup "hooklane-workers" (g.deliver id "worker-1" 0) := by
    rw [hstore₂, streamAt_update_self]
  have hentries₂ : (streamAt w₂.store .events).entries =
      st.entries ++ [⟨id, backlogFields e⟩] := by
    rw [hst₂]
    exact hentries
  have hrecord : ∀ key, key ≠ e.text →
      w₂.store (.event key) = w.store (.event key) := by
    intro key hne
    rw [hstore₂, hstore₁]
    simp [hne]
  have hfresh : id ∉ g.pending := by
    intro hpending
    obtain ⟨entry, hentry, rfl⟩ :=
      (hst ▸ hL.represents.stream.tidy).pending_mem g hall.group id hpending
    exact lt_irrefl _ (hbefore entry hentry)
  have hreach₁ : redisMachine.Reach (May exampleLib "hooklane-workers") w₁ :=
    reach_run h.reach _ _ trivial
  have hall₂ : AllPending (n + 1) w₂.store
      (st'.setGroup "hooklane-workers" (g.deliver id "worker-1" 0))
      (g.deliver id "worker-1" 0) := by
    refine ⟨?_, Stream.lookup_setGroup _ _ _, ?_, ?_, ?_⟩
    · rw [hstore₂, Function.update_self]
    · rw [Redis.Group.deliver, AList.keys_insert, List.length_cons,
        List.erase_of_not_mem fun h => hfresh (AList.mem_keys.mpr h),
        hall.length]
    · show st'.lastId.ms.toNat ≤ n + 1
      have hms := ms_of_append happend
      have hbound := hall.room
      rw [hlast]
      omega
    · intro entry hentry
      have hmem : entry ∈ st.entries ++ [⟨id, backlogFields e⟩] :=
        hentries ▸ hentry
      refine (AList.mem_insert _).mpr ?_
      rcases List.mem_append.mp hmem with hold | hnew
      · exact Or.inr (hall.pending entry hold)
      · exact Or.inl (List.mem_singleton.mp hnew ▸ rfl)
  refine ⟨w₂, id, reach_run hreach₁ _ _ rfl, ⟨_, _, hall₂⟩, ?_, ?_, ?_, ?_⟩
  · intro entry hentry
    rw [hentries₂] at hentry
    rcases List.mem_append.mp hentry with hold | hnew
    · refine Or.inl ⟨hbefore entry hold, ?_⟩
      refine (h.waiting entry (hst ▸ hold)).of_record (e := e) ?_ hrecord ?_
      · intro other hother
        rw [hentries₂]
        exact List.mem_append_left _ (hst ▸ hother)
      · intro hstatus
        rw [statusField, hunused] at hstatus
        cases hstatus
    · exact Or.inr (List.mem_singleton.mp hnew)
  · rw [hentries₂]
    exact List.mem_append_right _ (List.mem_singleton.mpr rfl)
  · rw [hstore₂, hstore₁]
    simp [e]
  · intro k hlow hhigh
    rw [hrecord _ (text_ne_of_lt hlow hhigh)]
    exact h.unused k (by omega) hhigh

/-- The reader of the open message holds it. -/
theorem OneOpen.held {n : ℕ} {w : World} {id : StreamId}
    (h : OneOpen n w id) : Held exampleLib "hooklane-workers" w.store
      (UUID.ofNat (n + 1)) id.text := by
  obtain ⟨st, g, hall⟩ := h.messages
  refine ⟨_, _, ⟨_, h.opened, rfl, rfl, ?_⟩, backlogFields_parse _ _, rfl⟩
  have hst : streamAt w.store .events = st := streamAt_eq (Or.inr hall.events)
  have hpending := hall.pending _ (hst ▸ h.opened)
  rw [hst, (Stream.custody_eq_pending hall.group).mpr hpending]
  exact nofun

theorem startDelivery_initial {db : Store} {e : UUID} {id : StreamId}
    (hkey : db (.event e.text) = some (.hash (initialHash e id))) :
    countDelivery e id.text db = (.ok 1, Function.update db
      (.event e.text) (some (.hash (((initialHash e id).insert "status"
        EventStatus.delivering.value).insert "attempt_count" "1")))) := by
  have hshow := hashShows_initial e id []
  have hset : countDelivery e id.text db =
      hincrby (.event e.text) "attempt_count" 1
        (Function.update db (.event e.text) (some (.hash
          ((initialHash e id).insert "status"
            EventStatus.delivering.value)))) := by
    have hstream : (initialHash e id).lookup "stream_id" = some id.text :=
      hshow.streamId
    simp [countDelivery, Script.bind_apply, hget_run hkey,
      hset_run hkey, hstream]
  have hcount : ((initialHash e id).insert "status"
      EventStatus.delivering.value).lookup "attempt_count" =
        some (toString 0) := by
    rw [AList.lookup_insert_ne (by decide)]
    exact hshow.attempts
  rw [hset, hincrby_run (Function.update_self ..) hcount (by decide),
    if_pos (by decide), Function.update_idem]
  rfl

/-- The open event is started, and its retry is scheduled. -/
theorem OneOpen.schedule {n : ℕ} {w : World} {id : StreamId}
    (h : OneOpen n w id) : ∃ w', Backlog (n + 1) w' := by
  obtain ⟨st, g, hall⟩ := h.messages
  let e := UUID.ofNat (n + 1)
  have hst : streamAt w.store .events = st := streamAt_eq (Or.inr hall.events)
  let w₁ := w.run (.startDelivery e id.text) 0
  have hstore₁ : w₁.store = Function.update w.store (.event e.text)
      (some (.hash (((initialHash e id).insert "status"
        EventStatus.delivering.value).insert "attempt_count" "1"))) :=
    congrArg Prod.snd (startDelivery_initial h.record)
  have hreach₁ : redisMachine.Reach (May exampleLib "hooklane-workers") w₁ :=
    reach_run h.reach _ _ h.held
  have hst₁ : streamAt w₁.store .events = streamAt w.store .events := by
    rw [hstore₁, streamAt_update_of_ne _ _ (by simp)]
  have hkey₁ : w₁.store (.event e.text) = some (.hash (((initialHash e
      id).insert "status" EventStatus.delivering.value).insert
        "attempt_count" "1")) := by
    rw [hstore₁, Function.update_self]
  have hheld₁ : Held exampleLib "hooklane-workers" w₁.store e id.text :=
    h.held.grows (hst₁ ▸ Stream.Grows.refl _)
  have hstarted : Started w₁.store e :=
    ⟨_, 1, hkey₁, AList.lookup_insert _, le_rfl⟩
  let w₂ := w₁.run (.scheduleRetry e id.text "timeout" 0) 0
  obtain ⟨L, hL⟩ := reach_accounted hreach₁
  obtain ⟨a, ha, -, -⟩ := hheld₁.account hL.represents
  have hcurrent : id.text = a.current.text := by
    have hstream := (statusField_eq hL.represents ha).2.2
    rw [statusField, hkey₁] at hstream
    simpa [initialHash] using hstream
  obtain ⟨f, hkey, -, ⟨hne, -⟩ | ⟨-, hrun⟩⟩ :=
    scheduleRetry_run hL.represents ha id.text "timeout" 0
  · exact absurd hcurrent hne
  · have hstore₂ : w₂.store = Function.update (Function.update w₁.store
        (.event e.text) (some (.hash (scheduledHash f "timeout"))))
        .retries (some (.zset ((retrySet w₁.store).insert e.text
          (((0 : ℤ) : ℚ) : Score)))) := congrArg Prod.snd hrun
    have hevents₂ : w₂.store .events = w.store .events := by
      rw [hstore₂, hstore₁]
      simp
    have hst₂ : streamAt w₂.store .events = streamAt w.store .events := by
      rw [streamAt, streamAt, hevents₂]
    have hrecord : ∀ key, key ≠ e.text →
        w₂.store (.event key) = w.store (.event key) := by
      intro key hne
      rw [hstore₂, hstore₁]
      simp [hne]
    have hstatus : statusField w₂.store e "status" =
        some EventStatus.retryScheduled.value := by
      rw [statusField, hstore₂]
      simp [scheduledHash]
    refine ⟨w₂, reach_run hreach₁ _ _ ⟨hheld₁, hstarted⟩, ⟨st, g,
      hevents₂.trans hall.events, hall.group, hall.length, hall.room,
      hall.pending⟩, ?_, ?_⟩
    · intro entry hentry
      rw [hst₂] at hentry
      rcases h.waiting entry hentry with ⟨-, hwaiting⟩ | rfl
      · exact hwaiting.of_record (e := e) (fun _ hother => hst₂ ▸ hother)
          hrecord fun _ => hstatus
      · refine ⟨_, hst₂ ▸ hentry, rfl, e, ?_, hstatus⟩
        exact (carries_messageFields e _ _ _).1
    · intro k hlow hhigh
      rw [hrecord _ (text_ne_of_lt hlow hhigh)]
      exact h.unused k hlow hhigh

theorem exists_backlog {n : ℕ} (hn : n ≤ 1000) : ∃ w, Backlog n w := by
  induction n with
  | zero => exact exists_backlog_zero
  | succ n ih =>
      obtain ⟨w, hw⟩ := ih (by omega)
      obtain ⟨w', id, hw'⟩ := hw.read (by omega)
      exact hw'.schedule

theorem OneOpen.mem_pending_iff {n : ℕ} {w : World} {id other : StreamId}
    (h : OneOpen n w id) {st : Stream} {g : Redis.Group}
    (hall : AllPending (n + 1) w.store st g) (hother : other ∈ g.pending) :
    other < id ∧ MessageHas w.store other .retryScheduled ∨ other = id := by
  obtain ⟨L, hL⟩ := reach_accounted h.reach
  have hst : streamAt w.store .events = st := streamAt_eq (Or.inr hall.events)
  obtain ⟨entry, hentry, rfl⟩ := (hst ▸ hL.represents.stream.tidy).pending_mem g
    hall.group other hother
  rcases h.waiting entry (hst ▸ hentry) with hwaiting | rfl
  · exact Or.inl hwaiting
  · exact Or.inr rfl

/-- With no idle time required, the open message is the only abandoned one, and
all `n` waiting ones come before it. -/
theorem OneOpen.oldest {n : ℕ} {w : World} {id : StreamId}
    (h : OneOpen n w id) (now : UInt64) :
    OldestAbandoned "hooklane-workers" 0 now w.store id ∧
      staleBefore "hooklane-workers" 0 now w.store id = n := by
  obtain ⟨st, g, hall⟩ := h.messages
  have hst : streamAt w.store .events = st := streamAt_eq (Or.inr hall.events)
  have hid : id ∈ g.pending := hall.pending _ (hst ▸ h.opened)
  have hlookup : ∀ other, pendingEntry w.store "hooklane-workers" other =
      g.pending.lookup other := by
    intro other
    rw [pendingEntry, hst, hall.group]
    rfl
  have hready : MessageHas w.store id .queued := by
    refine ⟨_, h.opened, rfl, UUID.ofNat (n + 1),
      (carries_messageFields _ _ _ _).1, ?_⟩
    rw [statusField, h.record]
    exact (hashShows_initial _ id []).status
  obtain ⟨held, hheld⟩ := Option.isSome_iff_exists.mp
    (AList.lookup_isSome.mpr hid)
  refine ⟨⟨⟨⟨held, (hlookup id).trans hheld, Nat.zero_le _⟩, Or.inl hready⟩,
    fun other hother => ?_⟩, ?_⟩
  · obtain ⟨held', hheld', -⟩ := hother.1
    have hmem := AList.lookup_isSome.mp
      (Option.isSome_of_eq_some ((hlookup other).symm.trans hheld'))
    rcases h.mem_pending_iff hall hmem with ⟨-, hwaiting⟩ | rfl
    · exact absurd hwaiting hother.not_waiting
    · exact le_rfl
  · have hstale : staleIds "hooklane-workers" 0 now w.store = g.pendingIds := by
      rw [staleIds, hst, hall.group]
      refine List.filter_eq_self.mpr fun other hother => ?_
      obtain ⟨held', hheld'⟩ := Option.isSome_iff_exists.mp
        (AList.lookup_isSome.mpr (Redis.Group.mem_pendingIds.mp hother))
      simp [hheld']
    have hnodup : g.pendingIds.Nodup :=
      (List.perm_insertionSort _ _).nodup_iff.mpr (AList.keys_nodup _)
    have hlength : g.pendingIds.length = n + 1 :=
      (List.perm_insertionSort _ _).length_eq.trans hall.length
    have hrest : g.pendingIds.countP (fun other => ¬decide (other < id)) = 1 := by
      rw [← List.count_eq_one_of_mem hnodup (Redis.Group.mem_pendingIds.mpr hid),
        List.count]
      refine List.countP_congr fun other hother => ?_
      rcases h.mem_pending_iff hall (Redis.Group.mem_pendingIds.mp hother) with
        ⟨hlt, -⟩ | rfl
      · simp [hlt, hlt.ne]
      · simp
    have hsplit := List.length_eq_countP_add_countP
      (fun other => decide (other < id)) (l := g.pendingIds)
    rw [staleBefore, hstale]
    omega

/-- Any number of waiting retries up to 1000 can precede an abandoned
delivery. -/
theorem exists_abandoned {n : ℕ} (hn : n < 1000) (now : UInt64) :
    ∃ w id, redisMachine.Reach (May exampleLib "hooklane-workers") w ∧
      OldestAbandoned "hooklane-workers" 0 now w.store id ∧
      staleBefore "hooklane-workers" 0 now w.store id = n := by
  obtain ⟨w, hw⟩ := exists_backlog hn.le
  obtain ⟨w', id, hw'⟩ := hw.read hn
  exact ⟨w', id, hw'.reach, hw'.oldest now⟩

end Backlog

/-- A claim takes the oldest abandoned delivery if and only if fewer than 100
stale messages come before it. -/
theorem claim_takes_oldest_abandoned {lib : Stdlib} {group : String} {w : World}
    (store : RedisEventStore) (hreach : redisMachine.Reach (May lib group) w)
    (consumer : String) (minIdle : ℕ) (now : UInt64) :
    (∀ r w', Prog.Runs AvailableMachine
        (store.claimStalePending group consumer minIdle).run w r w' →
      Begins group consumer minIdle now w w' →
        TakesOldest group consumer minIdle now w r w') ↔
      WindowReaches group minIdle now w.store := by
  obtain ⟨L, hL⟩ := reach_accounted hreach
  exact ⟨windowReaches_of_takesOldest hL.represents,
    fun hreaches r w' hrun hbegins =>
      takesOldest_of_reaches hL.represents hreaches hrun hbegins⟩

/-- With 99 retries waiting before it, an abandoned delivery is still within
reach. -/
theorem claim_takes_oldest_abandoned_example : ∃ w id,
    OldestAbandoned "hooklane-workers" 0 1000 w.store id ∧
    staleBefore "hooklane-workers" 0 1000 w.store id = 99 ∧
    ((∀ r w', Prog.Runs AvailableMachine (exampleStore.claimStalePending
          "hooklane-workers" "worker-2" 0).run w r w' →
        Begins "hooklane-workers" "worker-2" 0 1000 w w' →
          TakesOldest "hooklane-workers" "worker-2" 0 1000 w r w') ↔
      WindowReaches "hooklane-workers" 0 1000 w.store) := by
  obtain ⟨w, id, hreach, hoid, hbefore⟩ :=
    exists_abandoned (n := 99) (by decide) 1000
  exact ⟨w, id, hoid, hbefore,
    claim_takes_oldest_abandoned exampleStore hreach "worker-2" 0 1000⟩

/-- With 100 retries waiting before it, an abandoned delivery is not
claimed. -/
theorem abandoned_not_claimed :
    ¬∀ (lib : Stdlib) (store : RedisEventStore) (group consumer : String)
      (minIdle : ℕ) (now : UInt64) (w : World),
      redisMachine.Reach (May lib group) w →
      ∀ r w', Prog.Runs AvailableMachine
          (store.claimStalePending group consumer minIdle).run w r w' →
        Begins group consumer minIdle now w w' →
          TakesOldest group consumer minIdle now w r w' := by
  intro hclaim
  obtain ⟨w, id, hreach, hoid, hbefore⟩ :=
    exists_abandoned (n := 100) (by decide) 1000
  obtain ⟨L, hL⟩ := reach_accounted hreach
  have hreaches := windowReaches_of_takesOldest hL.represents
    (hclaim exampleLib exampleStore "hooklane-workers" "worker-2" 0 1000 w
      hreach)
  exact absurd (hreaches id hoid) (by omega)

end Hooklane
