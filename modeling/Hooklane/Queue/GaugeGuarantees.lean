import Hooklane.Queue.Acceptances
import Hooklane.Queue.Gauges
import Hooklane.Queue.RetryGuarantees
import Mathlib.Tactic.Linarith

/-!
# What the queue gauges say

Depth and pending count describe the backlog in every reachable state.  The age
is taken from message ids, and a requeue gives an old event a new id; it is the
age of the oldest waiting event exactly as long as some message of the backlog
is not younger than that event.
-/

namespace Hooklane

open Redis Support ProgE

section Ages

variable {st : Stream} {group : String}

/-- When the event of a message was first enqueued: the millisecond part of the
first id under which the stream carries the event. -/
def firstEnqueuedMs (st : Stream) (entry : Entry) : Option ℕ :=
  (st.entries.find? fun first => decide (fieldValue first.fields "event_id" =
    fieldValue entry.fields "event_id")).map fun first => first.id.ms.toNat

/-- The earliest first enqueue among the events with an unacknowledged
message. -/
def oldestEventMs (st : Stream) (group : String) : Option ℕ :=
  ((st.unacknowledged group).filterMap (firstEnqueuedMs st)).min?

/-- The age of the oldest event with an unacknowledged message. -/
def oldestEventAge (st : Stream) (group : String) (now : ℚ) : ℚ :=
  match oldestEventMs st group with
  | none => 0
  | some t => max 0 (now - (t : ℚ) / 1000)

/-- The gauges as they describe the backlog at the time `now`. -/
def backlogGauges (st : Stream) (group : String) (now : ℚ) : MetricCall :=
  .setQueueState (st.unacknowledged group).length
    (oldestEventAge st group now) (st.pendingCount group)

/-- No event of the backlog is older than all of its messages, as far as the
clock can tell. -/
def AgesKept (st : Stream) (group : String) (now : ℚ) : Prop :=
  ∀ entry ∈ st.unacknowledged group, ∀ t, firstEnqueuedMs st entry = some t →
    (∃ other ∈ st.unacknowledged group, other.id.ms.toNat ≤ t) ∨
      now ≤ (t : ℚ) / 1000

/-- The first id of a message's event is the message's own or an earlier
one. -/
theorem firstEnqueuedMs_spec {entry : Entry} (h : entry ∈ st.entries) :
    ∃ t, firstEnqueuedMs st entry = some t ∧ t ≤ entry.id.ms.toNat := by
  cases hfirst : st.entries.find? fun first =>
      decide (fieldValue first.fields "event_id" =
        fieldValue entry.fields "event_id") with
  | none => simpa using List.find?_eq_none.mp hfirst entry h
  | some first =>
      refine ⟨first.id.ms.toNat, by rw [firstEnqueuedMs, hfirst]; rfl, ?_⟩
      obtain ⟨-, before, rest, hsplit, hbefore⟩ :=
        List.find?_eq_some_iff_append.mp hfirst
      have hle : first.id ≤ entry.id := by
        have hsorted := st.sorted
        rw [hsplit] at h hsorted
        rcases List.mem_append.mp h with hmem | hmem
        · have hnone := hbefore entry hmem
          simp at hnone
        · rcases List.mem_cons.mp hmem with rfl | hmem
          · exact le_rfl
          · exact le_of_lt ((List.pairwise_cons.mp
              (List.pairwise_append.mp hsorted).2.1).1 entry hmem)
      rw [le_iff_lt_or_eq, StreamId.lt_iff] at hle
      rcases hle with (hlt | ⟨heq, -⟩) | heq
      · exact le_of_lt hlt
      · exact le_of_eq heq
      · rw [heq]

/-- The first message of the backlog has the least id. -/
theorem head_unacknowledged_le {entry other : Entry}
    (h : (st.unacknowledged group).head? = some entry)
    (hother : other ∈ st.unacknowledged group) :
    entry.id.ms.toNat ≤ other.id.ms.toNat := by
  have hsorted : (st.unacknowledged group).Pairwise fun a b => a.id < b.id :=
    st.sorted.filter _
  obtain ⟨rest, hrest⟩ := List.head?_eq_some_iff.mp h
  rw [hrest] at hother hsorted
  rcases List.mem_cons.mp hother with rfl | hmem
  · exact le_rfl
  · have hlt := (List.pairwise_cons.mp hsorted).1 other hmem
    rw [StreamId.lt_iff] at hlt
    omega

theorem oldestEventMs_eq_none_iff :
    oldestEventMs st group = none ↔ (st.unacknowledged group).head? = none := by
  rw [oldestEventMs, List.min?_eq_none_iff, List.filterMap_eq_nil_iff,
    List.head?_eq_none_iff, List.eq_nil_iff_forall_not_mem]
  refine forall₂_congr fun entry hentry => ?_
  obtain ⟨t, ht, -⟩ := firstEnqueuedMs_spec (List.mem_filter.mp hentry).1
  simp [ht]

/-- Two ages agree when the times do, or when neither has passed. -/
theorem age_eq_iff {t first : ℕ} (h : t ≤ first) (now : ℚ) :
    max 0 (now - (first : ℚ) / 1000) = max 0 (now - (t : ℚ) / 1000) ↔
      first ≤ t ∨ now ≤ (t : ℚ) / 1000 := by
  have hle : (t : ℚ) / 1000 ≤ (first : ℚ) / 1000 := by
    gcongr
  constructor
  · intro heq
    by_cases hnow : now ≤ (t : ℚ) / 1000
    · exact Or.inr hnow
    · left
      rw [max_eq_right (sub_nonneg.mpr (le_of_not_ge hnow))] at heq
      rcases le_total (now - (first : ℚ) / 1000) 0 with hneg | hpos
      · rw [max_eq_left hneg] at heq
        linarith
      · rw [max_eq_right hpos, sub_right_inj, div_left_inj' (by norm_num)]
          at heq
        exact_mod_cast heq.le
  · rintro (hfirst | hnow)
    · rw [le_antisymm hfirst h]
    · rw [max_eq_left (by linarith), max_eq_left (by linarith)]

/-- The shown age is that of the oldest event exactly where the backlog has
kept its ages. -/
theorem shownAge_eq_iff (now : ℚ) :
    shownAge st group now = oldestEventAge st group now ↔
      AgesKept st group now := by
  cases hhead : (st.unacknowledged group).head? with
  | none =>
      have hempty := List.head?_eq_none_iff.mp hhead
      rw [shownAge, hhead, oldestEventAge, oldestEventMs_eq_none_iff.mpr hhead,
        AgesKept, hempty]
      simp
  | some entry =>
      cases hmin : oldestEventMs st group with
      | none =>
          rw [oldestEventMs_eq_none_iff, hhead] at hmin
          cases hmin
      | some t =>
          obtain ⟨hmem, hleast⟩ := List.min?_eq_some_iff.mp hmin
          obtain ⟨oldest, holdest, ht⟩ := List.mem_filterMap.mp hmem
          have hhead' : entry ∈ st.unacknowledged group :=
            List.mem_of_head? hhead
          have hbound : t ≤ entry.id.ms.toNat := by
            obtain ⟨t', ht', hle⟩ :=
              firstEnqueuedMs_spec (List.mem_filter.mp hhead').1
            exact (hleast t' (List.mem_filterMap.mpr ⟨entry, hhead', ht'⟩)).trans
              hle
          rw [shownAge, hhead, oldestEventAge, hmin, age_eq_iff hbound]
          constructor
          · intro hor e he t' ht'
            have hlater := hleast t' (List.mem_filterMap.mpr ⟨e, he, ht'⟩)
            rcases hor with hfirst | hnow
            · exact Or.inl ⟨entry, hhead', hfirst.trans hlater⟩
            · right
              refine hnow.trans ?_
              gcongr
          · intro hkept
            rcases hkept oldest holdest t ht with ⟨other, hother, hle⟩ | hnow
            · exact Or.inl ((head_unacknowledged_le hhead hother).trans hle)
            · exact Or.inr hnow

end Ages

section Gauges

variable {lib : Stdlib} {group : String}

/-- What a call does to the registry. -/
def registered (m : HooklaneMetrics) : (op : Op) → op.Reply → HooklaneMetrics
  | .metrics call, _ => m.record call
  | _, _ => m

/-- The server answers, and the clock reads `now`. -/
def ClockReads (now : WallTime) (_ : World × HooklaneMetrics) :
    (op : Op) → op.Reply → Prop
  | .redis _, reply => reply ≠ .error .connection
  | .clock, time => time = now
  | _, _ => True

theorem obliging_clockReads (now : WallTime) : Obliging (ClockReads now) where
  answers := by
    intro s call time
    cases (call.script time s.1.store).1 <;>
      simp [World.reply, ClockReads]
  arrives := fun _ _ _ h => h
  metrics := fun _ _ => trivial
  clock := fun _ => ⟨now, rfl⟩

/-- The stream of a reachable state, with the group in order. -/
theorem tidy_of_reachable {cfg : (redisService lib group).Config}
    (hreach : Service.Reachable Service.anyCall cfg) :
    HoldsStream (cfg.state.store .events) (streamAt cfg.state.store .events) ∧
      (streamAt cfg.state.store .events).Tidy group := by
  obtain ⟨-, hstate⟩ := hreach.sound (redisService_disciplined lib group)
  obtain ⟨L, hL⟩ := reach_accounted (hstate.mono fun _ _ h => h.1)
  exact ⟨hL.represents.events, hL.represents.stream.tidy⟩

/-- In every reachable state and at every time, a refresh that runs alone sets
the gauges to the size of the backlog, the size of the pending list and the
shown age. -/
theorem refreshes {cfg : (redisService lib group).Config}
    (hreach : Service.Reachable Service.anyCall cfg) (store : RedisEventStore)
    (hmetrics : store.observers.metrics = true) (now : WallTime)
    (m : HooklaneMetrics) :
    Gives registered (ClockReads now) (store.refreshQueueMetrics group)
      (fun r t => r = true ∧ t.2 = m.record
        (shownGauges (streamAt cfg.state.store .events) group now.seconds))
      (cfg.state, m) := by
  obtain ⟨hst, htidy⟩ := tidy_of_reachable hreach
  refine (gives_refreshQueueMetrics (I := (· = m)) (obliging_clockReads now)
    (fun _ _ _ h => h) (fun _ _ h => h) rfl hmetrics hst htidy).mono ?_
  intro r t ht
  obtain ⟨time, n, ⟨s, htime⟩, rfl, hgauges⟩ := ht.gauges
  obtain rfl : time = now := htime
  exact ⟨ht.result, hgauges⟩

/-- A refresh that runs alone describes the backlog exactly where the backlog
has kept its ages. -/
theorem gauges_describe_backlog_iff {cfg : (redisService lib group).Config}
    (hreach : Service.Reachable Service.anyCall cfg) (store : RedisEventStore)
    (hmetrics : store.observers.metrics = true) (now : WallTime)
    (m : HooklaneMetrics) :
    (∀ r t, (store.refreshQueueMetrics group).run.Runs
        (Serving registered (ClockReads now)) (cfg.state, m) r t →
      r = .ok true ∧ t.2 = m.record
        (backlogGauges (streamAt cfg.state.store .events) group now.seconds)) ↔
      AgesKept (streamAt cfg.state.store .events) group now.seconds := by
  refine (refreshes hreach store hmetrics now m).forall_runs_iff ?_
  rintro r t ⟨rfl, ht⟩
  rw [ht, ← shownAge_eq_iff]
  constructor
  · rintro ⟨-, hgauges⟩
    exact congrArg HooklaneMetrics.oldestQueuedAge hgauges
  · intro hage
    rw [shownGauges, backlogGauges, hage]
    exact ⟨rfl, rfl⟩

/-- A store with a metrics registry. -/
def meteredStore : RedisEventStore := ⟨exampleLib, ⟨true, false⟩⟩

/-- Ten seconds past the epoch. -/
def tenSeconds : WallTime := ⟨10, by norm_num⟩

/-- Ids, first enqueues and the size of the pending list after the requeue. -/
def requeuedBacklog (w : World) : List ℕ × Option ℕ × ℕ :=
  (((streamAt w.store .events).unacknowledged "hooklane-workers").map
      fun entry => entry.id.ms.toNat,
    oldestEventMs (streamAt w.store .events) "hooklane-workers",
    (streamAt w.store .events).pendingCount "hooklane-workers")

/-- Ten seconds in, an event that was enqueued at 1 second and requeued at 9
seconds is shown as 1 second old. -/
theorem oldest_age_understated :
    ¬∀ (lib : Stdlib) (group : String) (cfg : (redisService lib group).Config)
      (store : RedisEventStore) (now : WallTime) (m : HooklaneMetrics),
      Service.Reachable Service.anyCall cfg → store.observers.metrics = true →
      ∀ r t, (store.refreshQueueMetrics group).run.Runs
          (Serving registered (ClockReads now)) (cfg.state, m) r t →
        r = .ok true ∧ t.2 = m.record
          (backlogGauges (streamAt cfg.state.store .events) group now.seconds) := by
  intro hdescribed
  have hrun : (redisOracle.play Service.anyCall exampleStart
      retriedSchedule).map (fun cfg => requeuedBacklog cfg.state) =
      some ([9000], some 1000, 1) := by
    decide +kernel
  obtain ⟨cfg, hplay, hstate⟩ := Option.map_eq_some_iff.mp hrun
  rw [requeuedBacklog, Prod.mk.injEq, Prod.mk.injEq] at hstate
  obtain ⟨hids, holdest, -⟩ := hstate
  have hreach : Service.Reachable Service.anyCall cfg :=
    Oracle.reachable_of_play rfl hplay
  obtain ⟨r, t, hruns, b, rfl, -, ht⟩ :=
    (refreshes hreach meteredStore rfl tenSeconds {}).exists_runs
  obtain ⟨-, hgauges⟩ :=
    hdescribed _ _ cfg meteredStore tenSeconds {} hreach rfl _ t hruns
  have hage : shownAge (streamAt cfg.state.store .events) "hooklane-workers" 10
      = oldestEventAge (streamAt cfg.state.store .events) "hooklane-workers" 10 :=
    congrArg HooklaneMetrics.oldestQueuedAge (ht.symm.trans hgauges)
  obtain ⟨entry, hentry⟩ : ∃ entry,
      ((streamAt cfg.state.store .events).unacknowledged
        "hooklane-workers").head? = some entry ∧ entry.id.ms.toNat = 9000 :=
    Option.map_eq_some_iff.mp (by rw [← List.head?_map, hids]; rfl)
  rw [shownAge, hentry.1, oldestEventAge, holdest] at hage
  norm_num [hentry.2] at hage

/-- A reachable backlog of one requeued event, ten seconds in. -/
theorem gauges_describe_backlog_iff_example :
    ∃ cfg : (redisService exampleLib "hooklane-workers").Config,
      Service.Reachable Service.anyCall cfg ∧
      requeuedBacklog cfg.state = ([9000], some 1000, 1) ∧
      ((∀ r t, (meteredStore.refreshQueueMetrics "hooklane-workers").run.Runs
          (Serving registered (ClockReads tenSeconds)) (cfg.state, {}) r t →
        r = .ok true ∧ t.2 = HooklaneMetrics.record {}
          (backlogGauges (streamAt cfg.state.store .events)
            "hooklane-workers" 10)) ↔
        AgesKept (streamAt cfg.state.store .events) "hooklane-workers" 10) := by
  have hrun : (redisOracle.play Service.anyCall exampleStart
      retriedSchedule).map (fun cfg => requeuedBacklog cfg.state) =
      some ([9000], some 1000, 1) := by
    decide +kernel
  obtain ⟨cfg, hplay, hstate⟩ := Option.map_eq_some_iff.mp hrun
  have hreach : Service.Reachable Service.anyCall cfg :=
    Oracle.reachable_of_play rfl hplay
  exact ⟨cfg, hreach, hstate,
    gauges_describe_backlog_iff hreach meteredStore rfl tenSeconds {}⟩

end Gauges

section Conservation

variable {lib : Stdlib} {group : String} {w : World} {L : Ledger}

/-- The accepted events that were not finished yet. -/
def openEvents (w : World) : List UUID :=
  (w.acceptances.map Prod.fst).filter
    fun e => decide (e ∉ w.finished.map Prod.fst)

theorem entries_nodup (st : Stream) : st.entries.Nodup :=
  st.sorted.imp fun hlt heq => absurd (congrArg Entry.id heq) (ne_of_lt hlt)

/-- What is pending is not acknowledged. -/
theorem pendingCount_le {st : Stream} (htidy : st.Tidy group) :
    st.pendingCount group ≤ (st.unacknowledged group).length := by
  unfold Stream.pendingCount
  split
  · exact Nat.zero_le _
  · next g hg =>
    rw [Stream.length_unacknowledged htidy hg]
    exact Nat.le_add_right _ _

/-- Every message of the backlog is the current one of its event, and the event
is open. -/
theorem event_of_unacknowledged (hL : Accounted lib group w L) {entry : Entry}
    (h : entry ∈ (streamAt w.store .events).unacknowledged group) :
    ∃ e a, L e = some a ∧ entry.id = a.current ∧
      fieldValue entry.fields "event_id" = some e.text ∧
      a.custody ≠ .acknowledged := by
  obtain ⟨hmem, hcustody⟩ := List.mem_filter.mp h
  have hnot := of_decide_eq_true hcustody
  obtain ⟨e, a, ha, hfields, hother⟩ :=
    hL.represents.stream.carried entry hmem
  have hcurrent : entry.id = a.current :=
    by_contra fun hne => hnot (hother hne)
  refine ⟨e, a, ha, hcurrent, ?_, ?_⟩
  · rw [hfields]
    exact (hL.represents.stream.content e a ha).1
  · rw [← hL.represents.stream.custody e a ha, ← hcurrent]
    exact hnot

theorem mem_openEvents_iff (hL : Accounted lib group w L) (e : UUID) :
    e ∈ openEvents w ↔ ∃ a, L e = some a ∧ a.custody ≠ .acknowledged := by
  rw [openEvents, List.mem_filter, ← accepted_iff_acceptances, hL.accepted,
    decide_eq_true_eq, hL.finished]
  constructor
  · rintro ⟨⟨a, ha⟩, hopen⟩
    exact ⟨a, ha, fun hacked => hopen ⟨a, ha, hacked⟩⟩
  · rintro ⟨a, ha, hnot⟩
    refine ⟨⟨a, ha⟩, ?_⟩
    rintro ⟨b, hb, hacked⟩
    rw [ha] at hb
    exact hnot (Option.some.inj hb ▸ hacked)

/-- The backlog holds one message for each open event. -/
theorem unacknowledged_perm (hL : Accounted lib group w L)
    (horiginal : Original w) :
    (((streamAt w.store .events).unacknowledged group).map
      fun entry => fieldValue entry.fields "event_id").Perm
      ((openEvents w).map fun e => some e.text) := by
  have hentries : ((streamAt w.store .events).unacknowledged group).Nodup :=
    (entries_nodup (streamAt w.store .events)).filter _
  refine (List.perm_ext_iff_of_nodup ?_ ?_).mpr ?_
  · refine hentries.map_on fun x hx y hy hxy => ?_
    obtain ⟨e, a, ha, hid, hevent, -⟩ := event_of_unacknowledged hL hx
    obtain ⟨e', a', ha', hid', hevent', -⟩ := event_of_unacknowledged hL hy
    rw [hevent, hevent'] at hxy
    obtain rfl := UUID.text_injective (Option.some.inj hxy)
    rw [ha] at ha'
    obtain rfl := Option.some.inj ha'
    exact Stream.eq_of_id_eq (List.mem_filter.mp hx).1 (List.mem_filter.mp hy).1
      (hid.trans hid'.symm)
  · refine (horiginal.once.filter _).map fun e e' h => ?_
    exact UUID.text_injective (Option.some.inj h)
  · intro text
    simp only [List.mem_map, mem_openEvents_iff hL]
    constructor
    · rintro ⟨entry, hentry, rfl⟩
      obtain ⟨e, a, ha, -, hevent, hnot⟩ := event_of_unacknowledged hL hentry
      exact ⟨e, ⟨a, ha, hnot⟩, hevent.symm⟩
    · rintro ⟨e, ⟨a, ha, hnot⟩, rfl⟩
      have hstream := hL.represents.stream
      refine ⟨⟨a.current, a.fields⟩, List.mem_filter.mpr
        ⟨hstream.current e a ha, decide_eq_true ?_⟩, (hstream.content e a ha).1⟩
      rw [hstream.custody e a ha]
      exact hnot

/-- Open and finished events together are the accepted ones. -/
theorem length_openEvents (hL : Accounted lib group w L)
    (horiginal : Original w) :
    (openEvents w).length + w.finished.length = w.acceptances.length := by
  have hfinished : ((w.acceptances.map Prod.fst).filter
      fun e => decide (e ∈ w.finished.map Prod.fst)).Perm
      (w.finished.map Prod.fst) := by
    refine (List.perm_ext_iff_of_nodup (horiginal.once.filter _)
      hL.once).mpr fun e => ?_
    rw [List.mem_filter, ← accepted_iff_acceptances, hL.accepted,
      decide_eq_true_eq, hL.finished]
    constructor
    · exact And.right
    · rintro ⟨a, ha, hacked⟩
      exact ⟨⟨a, ha⟩, a, ha, hacked⟩
  have hsplit := List.length_eq_length_filter_add
    (l := w.acceptances.map Prod.fst)
    fun e => decide (e ∈ w.finished.map Prod.fst)
  have hlength := hfinished.length_eq
  rw [List.length_map] at hsplit hlength
  have hopen : (openEvents w).length = ((w.acceptances.map Prod.fst).filter
      fun e => !decide (e ∈ w.finished.map Prod.fst)).length := by
    simp only [openEvents, decide_not]
  omega

/-- The depth that a refresh sets counts the accepted events that were not
finished, each of which has one message in the backlog; the pending count is
a part of it. -/
theorem depth_counts_open_events {cfg : (redisService lib group).Config}
    (hreach : Service.Reachable Service.anyCall cfg) (store : RedisEventStore)
    (hmetrics : store.observers.metrics = true) (now : WallTime)
    (m : HooklaneMetrics) :
    (((streamAt cfg.state.store .events).unacknowledged group).map
      fun entry => fieldValue entry.fields "event_id").Perm
      ((openEvents cfg.state).map fun e => some e.text) ∧
    ∀ r t, (store.refreshQueueMetrics group).run.Runs
        (Serving registered (ClockReads now)) (cfg.state, m) r t →
      r = .ok true ∧ t.2.pendingMessages ≤ t.2.queueDepth ∧
      t.2.queueDepth + (World.finished cfg.state).length =
        (World.acceptances cfg.state).length := by
  obtain ⟨-, hstate⟩ := hreach.sound (redisService_disciplined lib group)
  obtain ⟨L, hL⟩ := reach_accounted (hstate.mono fun _ _ h => h.1)
  have horiginal := reach_original hstate
  have hperm := unacknowledged_perm hL horiginal
  have hlength := hperm.length_eq
  rw [List.length_map, List.length_map] at hlength
  refine ⟨hperm, fun r t hruns => ?_⟩
  obtain ⟨b, rfl, rfl, ht⟩ :=
    (refreshes hreach store hmetrics now m).alone.of_runs hruns
  rw [ht]
  refine ⟨rfl, pendingCount_le (tidy_of_reachable hreach).2, ?_⟩
  have htotal := length_openEvents hL horiginal
  rw [← hlength] at htotal
  exact htotal

/-- A requeued event is open, and the depth counts it. -/
theorem depth_counts_open_events_example :
    ∃ cfg : (redisService exampleLib "hooklane-workers").Config,
      Service.Reachable Service.anyCall cfg ∧
      openEvents cfg.state = [exampleEvent] ∧
      ∀ r t, (meteredStore.refreshQueueMetrics "hooklane-workers").run.Runs
          (Serving registered (ClockReads tenSeconds)) (cfg.state, {}) r t →
        r = .ok true ∧ t.2.pendingMessages ≤ t.2.queueDepth ∧
        t.2.queueDepth + (World.finished cfg.state).length =
          (World.acceptances cfg.state).length := by
  have hrun : (redisOracle.play Service.anyCall exampleStart
      retriedSchedule).map (fun cfg => openEvents cfg.state) =
      some [exampleEvent] := by
    decide +kernel
  obtain ⟨cfg, hplay, hstate⟩ := Option.map_eq_some_iff.mp hrun
  have hreach : Service.Reachable Service.anyCall cfg :=
    Oracle.reachable_of_play rfl hplay
  exact ⟨cfg, hreach, hstate,
    (depth_counts_open_events hreach meteredStore rfl tenSeconds {}).2⟩

end Conservation

end Hooklane
