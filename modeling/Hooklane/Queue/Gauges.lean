import Hooklane.Domain.Metrics
import Hooklane.Queue.Invariant
import Hooklane.Queue.Serving

/-!
# The queue gauges

What `refresh_queue_metrics` reports while nothing else acts on the server.
The messages that the group has not acknowledged are its pending entries
followed by the entries after its cursor, so the first id of each part decides
the age that is shown.
-/

namespace Redis

namespace Stream

/-- The entries that the group has not acknowledged; without the group, all
of them. -/
def unacknowledged (st : Stream) (group : String) : List Entry :=
  st.entries.filter fun entry =>
    decide (st.custody group entry.id ≠ .acknowledged)

/-- The size of the group's pending list. -/
def pendingCount (st : Stream) (group : String) : ℕ :=
  match st.groups.lookup group with
  | none => 0
  | some g => g.pending.keys.length

/-- The entries after the group's cursor. -/
def unread (st : Stream) (g : Group) : List Entry :=
  st.entries.filter fun entry => decide (g.lastDelivered < entry.id)

variable {st : Stream} {group : String} {g : Group} {entry : Entry}

/-- Where nothing that meets `p` comes after something that meets `q`, the list
of both is the one list after the other. -/
theorem filter_or_of_pairwise {α : Type} {p q : α → Bool} {l : List α}
    (hdisjoint : ∀ a, p a = true → q a = false)
    (h : l.Pairwise fun a b => q a = true → p b = false) :
    l.filter (fun a => p a || q a) = l.filter p ++ l.filter q := by
  induction l with
  | nil => rfl
  | cons a rest ih =>
      rw [List.pairwise_cons] at h
      have hrest := ih h.2
      cases hp : p a with
      | true => simp [hp, hdisjoint a hp, hrest]
      | false =>
          cases hq : q a with
          | false => simp [hp, hq, hrest]
          | true =>
              have hnone : rest.filter p = [] := by
                rw [List.filter_eq_nil_iff]
                intro b hb
                simp [h.1 b hb hq]
              rw [hnone, List.nil_append] at hrest
              simp [hp, hq, hnone, hrest]

theorem unacknowledged_of_no_group (h : st.groups.lookup group = none) :
    st.unacknowledged group = st.entries := by
  rw [unacknowledged, List.filter_eq_self]
  intro entry _
  simp [custody, h]

/-- The pending entries are those of the pending ids, in stream order. -/
theorem pendingEntries_ids (htidy : st.Tidy group)
    (hg : st.groups.lookup group = some g) :
    (st.entries.filter fun entry => decide (entry.id ∈ g.pending)).map Entry.id
      = g.pendingIds := by
  have hsorted : ((st.entries.filter fun entry =>
      decide (entry.id ∈ g.pending)).map Entry.id).Pairwise (· < ·) := by
    rw [List.pairwise_map]
    exact st.sorted.filter _
  have hpending : g.pendingIds.Pairwise (· ≤ ·) :=
    List.pairwise_insertionSort _ _
  have hnodup : g.pendingIds.Nodup :=
    (List.perm_insertionSort _ _).nodup_iff.mpr g.pending.nodupKeys
  have hmem : ∀ id, id ∈ (st.entries.filter fun entry =>
      decide (entry.id ∈ g.pending)).map Entry.id ↔ id ∈ g.pendingIds := by
    intro id
    rw [Group.mem_pendingIds, List.mem_map]
    constructor
    · rintro ⟨entry, hentry, rfl⟩
      exact of_decide_eq_true (List.mem_filter.mp hentry).2
    · intro hid
      obtain ⟨entry, hentry, rfl⟩ := htidy.pending_mem g hg id hid
      exact ⟨entry, List.mem_filter.mpr ⟨hentry, decide_eq_true hid⟩, rfl⟩
  refine List.Perm.eq_of_pairwise' (hsorted.imp le_of_lt) hpending ?_
  exact (List.perm_ext_iff_of_nodup (hsorted.imp ne_of_lt) hnodup).mpr hmem

/-- What the group has not acknowledged is what it holds, followed by what it
has not read. -/
theorem unacknowledged_eq (htidy : st.Tidy group)
    (hg : st.groups.lookup group = some g) :
    st.unacknowledged group =
      st.entries.filter (fun entry => decide (entry.id ∈ g.pending)) ++
        st.unread g := by
  have hle : ∀ entry : Entry, entry.id ∈ g.pending →
      entry.id ≤ g.lastDelivered :=
    fun entry => htidy.pending_le g hg entry.id
  rw [unread, ← filter_or_of_pairwise]
  · refine List.filter_congr fun entry _ => ?_
    rw [custody_eq hg]
    by_cases hpending : entry.id ∈ g.pending
    · simp [hpending]
    · by_cases hunread : g.lastDelivered < entry.id <;> simp [hpending, hunread]
  · intro entry hpending
    simpa using hle entry (of_decide_eq_true hpending)
  · refine st.sorted.imp fun {a b} hlt ha => ?_
    rw [decide_eq_false_iff_not]
    intro hb
    exact absurd (lt_of_lt_of_le hlt (hle b hb))
      (not_lt_of_ge (le_of_lt (of_decide_eq_true ha)))

theorem length_unacknowledged (htidy : st.Tidy group)
    (hg : st.groups.lookup group = some g) :
    (st.unacknowledged group).length =
      g.pending.keys.length + (st.unread g).length := by
  have hpending := congrArg List.length (pendingEntries_ids htidy hg)
  rw [List.length_map, Group.pendingIds, List.length_insertionSort] at hpending
  rw [unacknowledged_eq htidy hg, List.length_append, hpending]

/-- The ids of the first pending and of the first unread entry: the first id
that is not acknowledged comes first. -/
theorem head_unacknowledged (htidy : st.Tidy group)
    (hg : st.groups.lookup group = some g) :
    (g.pendingIds.head?.toList ++ ((st.unread g).head?.map Entry.id).toList).head?
      = (st.unacknowledged group).head?.map Entry.id := by
  rw [unacknowledged_eq htidy hg, ← pendingEntries_ids htidy hg,
    List.head?_append, List.head?_map, List.head?_append]
  cases (st.entries.filter fun entry => decide (entry.id ∈ g.pending)).head? with
  | some entry => rfl
  | none => cases (st.unread g).head? <;> rfl

end Stream

end Redis

namespace Hooklane

open Redis Support ProgE

section Reading

variable {st : Stream} {group : String} {g : Redis.Group} {db : Store}

/-- The row of `XINFO GROUPS` of one group. -/
def groupInfo (st : Stream) (name : String) (g : Redis.Group) : GroupInfo where
  name := name
  pending := g.pending.keys.length
  lag := (st.unread g).length
  lastDeliveredId := g.lastDelivered.text

theorem find_groupInfo (st : Stream) (group : String)
    (rows : List (Sigma fun _ : String => Redis.Group)) :
    (rows.map fun row => groupInfo st row.1 row.2).find?
        (fun info => decide (info.name = group)) =
      (rows.dlookup group).map (groupInfo st group) := by
  induction rows with
  | nil => rfl
  | cons row rest ih =>
      obtain ⟨name, g⟩ := row
      rw [List.map_cons]
      by_cases hname : name = group
      · subst hname
        rw [List.find?_cons, List.dlookup_cons_eq]
        simp [groupInfo]
      · rw [List.find?_cons, List.dlookup_cons_ne _ _ (Ne.symm hname), ← ih]
        simp [groupInfo, hname]

/-- The least of several ids that come in order is the first. -/
theorem oldestMs_texts {ids : List StreamId} (h : ids.Pairwise (· < ·)) :
    RedisEventStore.oldestMs (ids.map StreamId.text) =
      ids.head?.map fun id => id.ms.toNat := by
  have htexts : (ids.map StreamId.text).mapM parsePair =
      some (ids.map fun id => (id.ms.toNat, id.seq.toNat)) := by
    have hparse : ∀ id : StreamId,
        parsePair id.text = some (id.ms.toNat, id.seq.toNat) :=
      fun id => parsePair_natRepr _ _
    induction ids with
    | nil => rfl
    | cons id rest ih =>
        simp [List.mapM_cons, hparse, ih (List.pairwise_cons.mp h).2]
  rw [RedisEventStore.oldestMs, htexts]
  cases ids with
  | nil => rfl
  | cons id rest =>
      have hkeep : ∀ later : List StreamId, (∀ x ∈ later, id < x) →
          (later.map fun id => (id.ms.toNat, id.seq.toNat)).foldl
            (fun best p => if p.1 < best.1 ∨ p.1 = best.1 ∧ p.2 < best.2 then p
              else best) (id.ms.toNat, id.seq.toNat) =
            (id.ms.toNat, id.seq.toNat) := by
        intro later hlater
        induction later with
        | nil => rfl
        | cons x later ih =>
            have hnot := not_lt_of_gt (hlater x List.mem_cons_self)
            rw [StreamId.lt_iff] at hnot
            rw [List.map_cons, List.foldl_cons, if_neg hnot]
            exact ih fun y hy => hlater y (List.mem_cons_of_mem x hy)
      simp only [List.map_cons, hkeep rest (List.pairwise_cons.mp h).1,
        List.head?_cons, Option.map_some]

/-- What the snapshot's queries answer. -/
theorem reads_events (hst : db .events = some (.stream st)) (now : UInt64) :
    (RedisCall.existsStream.script now db).1 = .ok true ∧
    (RedisCall.xlen.script now db).1 = .ok st.entries.length ∧
    (RedisCall.xrangeFirst.script now db).1 =
      .ok (st.entries.head?.map fun entry => entry.id.text) ∧
    (RedisCall.xinfoGroups.script now db).1 =
      .ok (st.groups.entries.map fun row => groupInfo st row.1 row.2) := by
  have hread : readStream (κ := Key) .events db = (.ok (some st), db) := by
    rw [readStream, hst]
  refine ⟨?_, ?_, ?_, ?_⟩
  · simp [RedisCall.script, existsKey, hst]
  · simp only [RedisCall.script, xlen]
    rw [Script.bind_ok hread]
    rfl
  · simp only [RedisCall.script, xrangeFirst]
    rw [Script.bind_ok hread]
    rfl
  · simp only [RedisCall.script, xinfoGroups]
    rw [Script.bind_ok hread]
    rfl

/-- What the queries about one group answer. -/
theorem reads_group (hst : db .events = some (.stream st))
    (hg : st.groups.lookup group = some g) (now : UInt64) :
    ((RedisCall.xpendingFirst group).script now db).1 =
      .ok (g.pendingIds.head?.map StreamId.text) ∧
    ((RedisCall.xrangeAfter g.lastDelivered.text).script now db).1 =
      .ok ((st.unread g).head?.map fun entry => entry.id.text) := by
  have hread : readStream (κ := Key) .events db = (.ok (some st), db) := by
    rw [readStream, hst]
  constructor
  · have hgroup : readGroup (κ := Key) .events group db = (.ok (st, g), db) := by
      rw [readGroup, Script.bind_ok hread]
      simp [hg]
    simp only [RedisCall.script, xpendingFirst]
    rw [Script.bind_ok hgroup]
    rfl
  · have hid : readId (κ := Key) g.lastDelivered.text db =
        (.ok g.lastDelivered, db) := by
      rw [readId, StreamId.parse_text]
    simp only [RedisCall.script, xrangeAfter]
    rw [Script.bind_ok hread, Script.bind_ok hid, Stream.unread,
      List.head?_filter]
    rfl

/-- The calls of the snapshot. -/
def RedisCall.Snapshot : RedisCall → Prop
  | .existsStream | .xinfoGroups | .xlen | .xrangeFirst | .xpendingFirst _
  | .xrangeAfter _ => True
  | _ => False

theorem RedisCall.Snapshot.readOnly {call : RedisCall} (h : call.Snapshot)
    (now : UInt64) (db : Store) : (call.script now db).2 = db := by
  cases call with
  | existsStream => rfl
  | xinfoGroups => exact readOnly_xinfoGroups _ db
  | xlen => exact readOnly_xlen _ db
  | xrangeFirst => exact readOnly_xrangeFirst _ db
  | xpendingFirst group => exact readOnly_xpendingFirst _ group db
  | xrangeAfter after => exact readOnly_xrangeAfter _ after db
  | _ => exact h.elim

end Reading

section Snapshot

variable {N : Type} {after : N → (op : Op) → op.Reply → N}
  {R : World × N → (op : Op) → op.Reply → Prop} {I : N → Prop}
  {store : RedisEventStore} {group : String} {w : World} {n : N}
  {st : Stream} {g : Redis.Group}

/-- The world was only looked at, and the register still meets `I`. -/
structure Watched (I : N → Prop) (w : World) (t : World × N) : Prop where
  looked : w.Looked t.1
  register : I t.2

theorem Watched.trans {w w' : World} {t : World × N} (h : w.Looked w')
    (h' : Watched I w' t) : Watched I w t :=
  ⟨h.trans h'.looked, h'.register⟩

variable (hR : Obliging R)
  (hI : ∀ n call reply, I n → I (after n (.redis call) reply))

include hR hI

theorem gives_query (call : RedisCall) {value : call.Value}
    (hcall : call.Snapshot) (hn : I n)
    (hvalue : ∀ now, (call.script now w.store).1 = .ok value) :
    Gives after R (RedisEventStore.query call)
      (fun r t => r = call.receive value ∧ Watched I w t) (w, n) := by
  refine hR.gives_query hvalue fun now => ?_
  exact ⟨rfl, World.looked_run (hcall.readOnly now _), hI _ _ _ hn⟩

theorem gives_oldestPending (hn : I n)
    (hst : w.store .events = some (.stream st))
    (hg : st.groups.lookup group = some g) :
    Gives after R (RedisEventStore.oldestPending group (groupInfo st group g))
      (fun ids t => ids = g.pendingIds.head?.toList.map StreamId.text ∧
        Watched I w t) (w, n) := by
  have hlength : g.pendingIds.length = (groupInfo st group g).pending :=
    List.length_insertionSort _ _
  unfold RedisEventStore.oldestPending
  split
  · next hnone =>
    rw [hnone, List.length_eq_zero_iff] at hlength
    exact returns_pure ⟨by rw [hlength]; rfl, .refl w, hn⟩
  · refine (gives_query hR hI (.xpendingFirst group) trivial hn
      fun now => (reads_group hst hg now).1).bind ?_
    rintro _ t ⟨rfl, ht⟩
    refine returns_pure ⟨?_, ht⟩
    cases g.pendingIds.head? <;> rfl

theorem gives_oldestUnread (hn : I n)
    (hst : w.store .events = some (.stream st))
    (hg : st.groups.lookup group = some g) :
    Gives after R (RedisEventStore.oldestUnread (groupInfo st group g))
      (fun ids t => ids =
        ((st.unread g).head?.map Entry.id).toList.map StreamId.text ∧
        Watched I w t) (w, n) := by
  have hlength : (st.unread g).length = (groupInfo st group g).lag := rfl
  unfold RedisEventStore.oldestUnread
  split
  · next hnone =>
    rw [hnone, List.length_eq_zero_iff] at hlength
    exact returns_pure ⟨by rw [hlength]; rfl, .refl w, hn⟩
  · refine (gives_query hR hI (.xrangeAfter g.lastDelivered.text) trivial
      hn fun now => (reads_group hst hg now).2).bind ?_
    rintro _ t ⟨rfl, ht⟩
    refine returns_pure ⟨?_, ht⟩
    cases (st.unread g).head? <;> rfl

/-- What the snapshot says of the backlog: its size, the size of the pending
list, and ids of which the first is the first of the backlog. -/
def Summary (st : Stream) (group : String) (r : ℕ × ℕ × List String) : Prop :=
  ∃ ids : List StreamId, ids.Pairwise (· < ·) ∧
    ids.head? = (st.unacknowledged group).head?.map Entry.id ∧
    r = ((st.unacknowledged group).length, st.pendingCount group,
      ids.map StreamId.text)

omit hR hI in
theorem summary_of_group (htidy : st.Tidy group)
    (hg : st.groups.lookup group = some g) :
    Summary st group
      ((groupInfo st group g).pending + (groupInfo st group g).lag,
        (groupInfo st group g).pending,
        g.pendingIds.head?.toList.map StreamId.text ++
          ((st.unread g).head?.map Entry.id).toList.map StreamId.text) := by
  have hsorted : ((st.unacknowledged group).map Entry.id).Pairwise (· < ·) := by
    rw [List.pairwise_map]
    exact st.sorted.filter _
  refine ⟨g.pendingIds.head?.toList ++
    ((st.unread g).head?.map Entry.id).toList, ?_,
    Stream.head_unacknowledged htidy hg, ?_⟩
  · refine hsorted.sublist ?_
    rw [Stream.unacknowledged_eq htidy hg, List.map_append,
      Stream.pendingEntries_ids htidy hg, ← List.head?_map, ← List.take_one,
      ← List.take_one]
    exact (List.take_sublist _ _).append (List.take_sublist _ _)
  · rw [Stream.length_unacknowledged htidy hg, Stream.pendingCount, hg,
      List.map_append]
    rfl

theorem gives_queueSnapshot (hn : I n)
    (hst : w.store .events = some (.stream st)) (htidy : st.Tidy group) :
    Gives after R (RedisEventStore.queueSnapshot group)
      (fun r t => Summary st group r ∧ Watched I w t) (w, n) := by
  refine (gives_query hR hI .xinfoGroups trivial hn fun now =>
    (reads_events hst now).2.2.2).bind ?_
  rintro _ ⟨w', n'⟩ ⟨rfl, hwatched⟩
  have hst' : w'.store .events = some (.stream st) := by
    rw [hwatched.looked.store, hst]
  have hrow := find_groupInfo st group st.groups.entries
  dsimp only
  rw [hrow]
  cases hg : st.groups.lookup group with
  | none =>
      rw [show st.groups.entries.dlookup group = none from hg]
      have hall := Stream.unacknowledged_of_no_group hg
      have hcount : st.pendingCount group = 0 := by
        rw [Stream.pendingCount, hg]
      refine (gives_query hR hI .xlen trivial hwatched.register fun now =>
        (reads_events hst' now).2.1).bind ?_
      rintro _ ⟨w'', n''⟩ ⟨rfl, hwatched'⟩
      have hlooked := hwatched.looked.trans hwatched'.looked
      split
      · next hempty =>
        refine returns_pure ⟨⟨[], List.Pairwise.nil, ?_, ?_⟩, hlooked,
          hwatched'.register⟩
        · rw [hall, List.length_eq_zero_iff.mp hempty]
          rfl
        · rw [hall, hcount]
          rfl
      · have hst'' : w''.store .events = some (.stream st) := by
          rw [hlooked.store, hst]
        refine (gives_query hR hI .xrangeFirst trivial hwatched'.register
          fun now => (reads_events hst'' now).2.2.1).bind ?_
        rintro _ t ⟨rfl, hwatched''⟩
        refine returns_pure ⟨⟨(st.entries.head?.map Entry.id).toList, ?_, ?_,
          ?_⟩, hwatched''.trans hlooked⟩
        · cases st.entries.head? <;> simp
        · rw [hall]
          cases st.entries.head? <;> rfl
        · rw [hall, hcount]
          cases st.entries.head? <;> rfl
  | some g =>
      rw [show st.groups.entries.dlookup group = some g from hg]
      refine (gives_oldestPending hR hI hwatched.register hst' hg).bind ?_
      rintro _ ⟨w'', n''⟩ ⟨rfl, hwatched'⟩
      have hlooked := hwatched.looked.trans hwatched'.looked
      have hst'' : w''.store .events = some (.stream st) := by
        rw [hlooked.store, hst]
      refine (gives_oldestUnread hR hI hwatched'.register hst'' hg).bind ?_
      rintro _ t ⟨rfl, hwatched''⟩
      exact returns_pure ⟨summary_of_group htidy hg, hwatched''.trans hlooked⟩

/-- The age that is shown: the time since the millisecond of the first id that
is not acknowledged. -/
def shownAge (st : Stream) (group : String) (now : ℚ) : ℚ :=
  match (st.unacknowledged group).head? with
  | none => 0
  | some entry => max 0 (now - (entry.id.ms.toNat : ℚ) / 1000)

omit hR hI in
theorem shownAge_nonneg (now : ℚ) : 0 ≤ shownAge st group now := by
  unfold shownAge
  split
  · exact le_rfl
  · exact le_max_left _ _

/-- The gauges as they are set at the time `now`. -/
def shownGauges (st : Stream) (group : String) (now : ℚ) : MetricCall :=
  .setQueueState (st.unacknowledged group).length (shownAge st group now)
    (st.pendingCount group)

/-- A refresh set the gauges at a time that the clock could show, and did
nothing else. -/
structure Refreshed (after : N → (op : Op) → op.Reply → N)
    (R : World × N → (op : Op) → op.Reply → Prop) (I : N → Prop)
    (st : Stream) (group : String) (w : World) (r : Bool) (t : World × N) :
    Prop where
  result : r = true
  looked : w.Looked t.1
  gauges : ∃ time n, (∃ s, R s .clock time) ∧ I n ∧
    t.2 = after n (.metrics (shownGauges st group time.seconds)) ()

omit hI in
/-- The gauges are set and the refresh returns. -/
theorem gives_setQueueState (st : Stream) (group : String)
    (hmetrics : store.observers.metrics = true) {t : World × N} (ht : Watched I w t)
    {time : WallTime}
    (htime : ∃ s, R s .clock time) :
    Gives after R (do
        App.metric store.observers (shownGauges st group time.seconds)
        return true)
      (Refreshed after R I st group w) t := by
  have haccepted : (shownGauges st group time.seconds).accepted = true :=
    decide_eq_true (shownAge_nonneg time.seconds)
  refine (hR.gives_metric (Q := fun _ t => Refreshed after R I st group w true t)
    haccepted ?_ ?_).bind fun _ t h => returns_pure h
  · exact fun _ => ⟨rfl, ht.looked, time, t.2, htime, ht.register, rfl⟩
  · intro hoff
    rw [hmetrics] at hoff
    cases hoff

theorem gives_refreshQueueMetrics
    (hclock : ∀ n time, I n → I (after n .clock time)) (hn : I n)
    (hmetrics : store.observers.metrics = true)
    (hst : HoldsStream (w.store .events) st) (htidy : st.Tidy group) :
    Gives after R (store.refreshQueueMetrics group)
      (Refreshed after R I st group w) (w, n) := by
  unfold RedisEventStore.refreshQueueMetrics
  rw [hmetrics]
  refine Returns.tryCatch ?_
  obtain ⟨time₀, htime₀⟩ := hR.clock (w, n)
  rcases hst with ⟨hnone, rfl⟩ | hst
  · have habsent : ∀ now, (RedisCall.existsStream.script now w.store).1 =
        .ok false := by
      intro now
      simp [RedisCall.script, existsKey, hnone]
    refine (gives_query hR hI .existsStream trivial hn habsent).bind ?_
    rintro _ t ⟨rfl, ht⟩
    exact gives_setQueueState hR .empty group hmetrics ht ⟨_, htime₀⟩
  · refine (gives_query hR hI .existsStream trivial hn fun now =>
      (reads_events hst now).1).bind ?_
    rintro _ ⟨w', n'⟩ ⟨rfl, hwatched⟩
    have hst' : w'.store .events = some (.stream st) := by
      rw [hwatched.looked.store, hst]
    refine (gives_queueSnapshot hR hI hwatched.register hst' htidy).bind ?_
    rintro _ ⟨w'', n''⟩ ⟨⟨ids, hsorted, hhead, rfl⟩, hwatched'⟩
    have hw := hwatched'.trans hwatched.looked
    dsimp only
    cases ids with
    | nil =>
        have hage : ∀ time, shownAge st group time = 0 := by
          intro time
          rw [shownAge, List.head?_eq_none_iff.mpr]
          simpa using hhead.symm
        rw [List.map_nil, if_pos rfl, ← hage time₀.seconds]
        exact gives_setQueueState hR st group hmetrics hw ⟨_, htime₀⟩
    | cons id rest =>
        obtain ⟨entry, hentry, hid⟩ := Option.map_eq_some_iff.mp hhead.symm
        rw [if_neg (by simp), oldestMs_texts hsorted]
        refine (hR.gives_clock (Q := fun time t => (∃ s, R s .clock time) ∧
          Watched I w t) ?_).bind ?_
        · exact fun time htime => ⟨⟨_, htime⟩, hw.looked,
            hclock _ _ hw.register⟩
        · rintro time t ⟨htime, ht⟩
          have hage : shownAge st group time.seconds =
              max 0 (time.seconds - (id.ms.toNat : ℚ) / 1000) := by
            rw [shownAge, hentry, ← hid]
          rw [← hage]
          exact gives_setQueueState hR st group hmetrics ht htime

end Snapshot

end Hooklane
