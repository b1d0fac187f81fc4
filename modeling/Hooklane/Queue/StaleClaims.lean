import Hooklane.Queue.Claiming
import Hooklane.Queue.Frames
import Hooklane.Queue.Guarantees
import Hooklane.Redis.Failure

/-!
# Which stale message a claim takes

The claim script looks at a window of the pending messages that have been idle
for long enough, oldest first, and passes over those that wait for a retry.
An abandoned delivery behind a full window of waiting retries is not claimed.
-/

namespace Hooklane

open Redis Support ProgE

section Windows

variable {α : Type} [LinearOrder α] {l : List α} {x y : α}

/-- An element of a sorted list lies in the window of the first `n` if and
only if fewer than `n` elements come before it. -/
theorem mem_take_iff_countP (hsorted : l.Pairwise (· < ·)) (hx : x ∈ l)
    (n : ℕ) : x ∈ l.take n ↔ l.countP (fun y => decide (y < x)) < n := by
  induction l generalizing n with
  | nil => cases hx
  | cons a l ih =>
      obtain ⟨hfirst, hrest⟩ := List.pairwise_cons.mp hsorted
      cases n with
      | zero => simp
      | succ n =>
          rcases List.mem_cons.mp hx with rfl | hmem
          · have hnone : l.countP (fun y => decide (y < x)) = 0 :=
              List.countP_eq_zero.mpr fun y hy => by
                simpa using le_of_lt (hfirst y hy)
            simp [hnone]
          · have hlt := hfirst x hmem
            rw [List.take_succ_cons, List.mem_cons, ih hrest hmem,
              List.countP_cons_of_pos (by simpa using hlt)]
            simp [hlt.ne']

/-- What lies in the window comes before what lies behind it. -/
theorem lt_of_mem_take (hsorted : l.Pairwise (· < ·)) {n : ℕ}
    (hy : y ∈ l.take n) (hx : x ∈ l) (hbehind : x ∉ l.take n) : y < x := by
  rw [← List.take_append_drop n l, List.pairwise_append] at hsorted
  refine hsorted.2.2 y hy x ?_
  rw [← List.take_append_drop n l] at hx
  exact (List.mem_append.mp hx).resolve_left hbehind

end Windows

/-- The message `id` belongs to an event with the given status. -/
def MessageHas (db : Store) (id : StreamId) (status : EventStatus) : Prop :=
  ∃ entry ∈ (streamAt db .events).entries, entry.id = id ∧
    ∃ e : UUID, fieldValue entry.fields "event_id" = some e.text ∧
      statusField db e "status" = some status.value

/-- The message is pending and has been idle for at least `minIdle`. -/
def Stale (group : String) (minIdle : ℕ) (now : UInt64) (db : Store)
    (id : StreamId) : Prop :=
  ∃ held, pendingEntry db group id = some held ∧
    minIdle ≤ Group.idle held now

/-- A stale message of an event that is to be delivered. -/
def Abandoned (group : String) (minIdle : ℕ) (now : UInt64) (db : Store)
    (id : StreamId) : Prop :=
  Stale group minIdle now db id ∧
    (MessageHas db id .queued ∨ MessageHas db id .delivering)

/-- The abandoned message with the smallest stream id. -/
def OldestAbandoned (group : String) (minIdle : ℕ) (now : UInt64) (db : Store)
    (id : StreamId) : Prop :=
  Abandoned group minIdle now db id ∧
    ∀ other, Abandoned group minIdle now db other → id ≤ other

/-- The stale messages in stream order. -/
def staleIds (group : String) (minIdle : ℕ) (now : UInt64) (db : Store) :
    List StreamId :=
  match (streamAt db .events).groups.lookup group with
  | none => []
  | some g => g.pendingIds.filter fun id =>
      (g.pending.lookup id).any fun held =>
        decide (minIdle ≤ Group.idle held now)

/-- How many stale messages come before `id`. -/
def staleBefore (group : String) (minIdle : ℕ) (now : UInt64) (db : Store)
    (id : StreamId) : ℕ :=
  (staleIds group minIdle now db).countP fun other => decide (other < id)

/-- Fewer stale messages than the script examines come before the oldest
abandoned one. -/
def WindowReaches (group : String) (minIdle : ℕ) (now : UInt64)
    (db : Store) : Prop :=
  ∀ id, OldestAbandoned group minIdle now db id →
    staleBefore group minIdle now db id < 100

/-- The consumer to which a message was handed out last. -/
def owner (db : Store) (group : String) (id : StreamId) : Option String :=
  (pendingEntry db group id).map Delivery.consumer

section Scan

variable {lib : Stdlib} {group consumer : String} {minIdle : ℕ} {now : UInt64}
  {db : Store} {L : Ledger} {id : StreamId} {a : Account} {g : Group}

theorem mem_staleIds :
    id ∈ staleIds group minIdle now db ↔ Stale group minIdle now db id := by
  unfold staleIds Stale pendingEntry
  cases (streamAt db .events).groups.lookup group with
  | none => simp
  | some g =>
      simp only [Option.bind_some, List.mem_filter, Group.mem_pendingIds]
      cases hheld : g.pending.lookup id with
      | none => simp
      | some held =>
          have hpending := AList.lookup_isSome.mp
            (Option.isSome_of_eq_some hheld)
          simp [hpending]

theorem pairwise_staleIds :
    (staleIds group minIdle now db).Pairwise (· < ·) := by
  unfold staleIds
  split
  · exact .nil
  · next g hg =>
    refine List.Pairwise.filter _ ?_
    have hnodup : g.pendingIds.Nodup :=
      (List.perm_insertionSort _ _).nodup_iff.mpr (AList.keys_nodup _)
    exact ((List.pairwise_insertionSort (· ≤ ·) _).and hnodup).imp
      fun h => lt_of_le_of_ne h.1 h.2

/-- The status of a message is that of the account it belongs to. -/
theorem messageHas_iff (h : Represents (Parses lib) group db L)
    (ha : AccountAt L id a) (status : EventStatus) :
    MessageHas db id status ↔ a.status = status := by
  obtain ⟨rfl, e, ha⟩ := ha
  have hentry := h.stream.current e a ha
  have hcontent := (h.stream.content e a ha).1
  have hstatus := (statusField_eq h ha).1
  constructor
  · rintro ⟨entry, hmem, hid, e', hfield, hvalue⟩
    obtain rfl := Stream.eq_of_id_eq hmem hentry hid
    obtain rfl := UUID.text_injective
      (Option.some.inj (hcontent.symm.trans hfield))
    exact EventStatus.value_inj.mp
      (Option.some.inj (hstatus.symm.trans hvalue))
  · rintro rfl
    exact ⟨_, hentry, rfl, e, hcontent, hstatus⟩

/-- What the claim script does in a keyspace that represents a ledger. -/
inductive Scanned (group consumer : String) (minIdle : ℕ) (now : UInt64)
    (db : Store) : Except String (Option (String × Disposition)) → Store → Prop
  | failed (message : String) (absent : staleIds group minIdle now db = []) :
      Scanned group consumer minIdle now db (.error message) db
  | nothing (waiting : ∀ id ∈ (staleIds group minIdle now db).take 100,
        MessageHas db id .retryScheduled) :
      Scanned group consumer minIdle now db (.ok none) db
  | claimed {db' : Store} (before : List StreamId) (id : StreamId)
      (after : List StreamId)
      (window : (staleIds group minIdle now db).take 100 =
        before ++ id :: after)
      (waiting : ∀ other ∈ before, MessageHas db other .retryScheduled)
      (ready : MessageHas db id .queued ∨ MessageHas db id .delivering)
      (owned : owner db' group id = some consumer)
      (others : ∀ other, other ≠ id →
        owner db' group other = owner db group other) :
      Scanned group consumer minIdle now db
        (.ok (some (id.text, .delivery))) db'

theorem messageHas_of_account (h : Represents (Parses lib) group db L)
    {status : EventStatus}
    (ha : ∃ a, AccountAt L id a ∧ a.status = status) :
    MessageHas db id status := by
  obtain ⟨a, hat, hstatus⟩ := ha
  exact (messageHas_iff h hat status).mpr hstatus

theorem pendingEntry_reassign (db : Store) (st : Stream) (held : Delivery)
    (other : StreamId) :
    pendingEntry (Function.update db .events (some (.stream
      (st.setGroup group (g.reassign id consumer now held))))) group other =
      if other = id then some ⟨consumer, now, held.count + 1⟩
      else g.pending.lookup other := by
  rw [pendingEntry, streamAt_update_self, Stream.lookup_setGroup,
    Option.bind_some, Group.reassign]
  split
  · next heq => rw [heq, AList.lookup_insert]
  · next hne => rw [AList.lookup_insert_ne hne]

theorem claimStalePending_scanned (h : Represents (Parses lib) group db L)
    (now : UInt64) (consumer : String) (minIdle : ℕ) :
    Scanned group consumer minIdle now db
      (claimStalePendingScript now group consumer minIdle db).1
      (claimStalePendingScript now group consumer minIdle db).2 := by
  rcases h.events with ⟨hnone, hempty⟩ | hevents
  · have hrun : ∃ message, claimStalePendingScript now group consumer minIdle
        db = (.error message, db) :=
      ⟨_, by simp [claimStalePendingScript, Script.bind_apply, typeOf, hnone]; rfl⟩
    obtain ⟨message, hmessage⟩ := hrun
    rw [hmessage]
    refine .failed message ?_
    rw [staleIds, hempty]
    rfl
  · have htype := typeOf_run _ hevents
    cases hg : (streamAt db .events).groups.lookup group with
    | none =>
        have hrun : claimStalePendingScript now group consumer minIdle db =
            (.error noGroup, db) := by
          simp [claimStalePendingScript, Script.bind_apply, htype, Value.kind,
            xpendingIdle, readGroup_absent h.events hg]
        rw [hrun]
        refine .failed noGroup ?_
        rw [staleIds, hg]
    | some g =>
        have hrun : claimStalePendingScript now group consumer minIdle db =
            claimFirst now group consumer minIdle
              ((g.idlePending now minIdle 100).map StreamId.text) db := by
          simp [claimStalePendingScript, Script.bind_apply, htype, Value.kind,
            xpendingIdle, readGroup_run hevents hg]
        have hwindow : g.idlePending now minIdle 100 =
            (staleIds group minIdle now db).take 100 := by
          rw [staleIds, hg, Group.idlePending]
          refine congrArg (List.take 100) (List.filter_congr fun id _ => ?_)
          cases g.pending.lookup id <;> rfl
        rw [hrun]
        rcases claimFirst_run h hevents hg now consumer minIdle
          (g.idlePending now minIdle 100)
          (fun id hid => Group.lookup_of_mem_idlePending hid) with
          ⟨hall, hnothing⟩ | ⟨before, id, after, held, hsplit, hbefore,
            hready, hheld, hclaim⟩
        · rw [hnothing]
          refine .nothing fun id hid => ?_
          exact messageHas_of_account h (hall id (hwindow ▸ hid))
        · rw [hclaim]
          refine .claimed before id after (hwindow ▸ hsplit) ?_ ?_ ?_ ?_
          · exact fun other hother =>
              messageHas_of_account h (hbefore other hother)
          · obtain ⟨a, hat, hstatus | hstatus⟩ := hready
            · exact Or.inl (messageHas_of_account h ⟨a, hat, hstatus⟩)
            · exact Or.inr (messageHas_of_account h ⟨a, hat, hstatus⟩)
          · rw [owner, pendingEntry_reassign, if_pos rfl]
            rfl
          · intro other hne
            rw [owner, pendingEntry_reassign, if_neg hne, owner, pendingEntry,
              hg]
            rfl

/-- No message belongs to two statuses. -/
theorem MessageHas.unique {status status' : EventStatus}
    (h : MessageHas db id status) (h' : MessageHas db id status') :
    status = status' := by
  obtain ⟨entry, hentry, rfl, e, hfield, hvalue⟩ := h
  obtain ⟨entry', hentry', hid, e', hfield', hvalue'⟩ := h'
  obtain rfl := Stream.eq_of_id_eq hentry' hentry hid
  obtain rfl := UUID.text_injective
    (Option.some.inj (hfield.symm.trans hfield'))
  exact EventStatus.value_inj.mp (Option.some.inj (hvalue.symm.trans hvalue'))

theorem Abandoned.not_waiting (h : Abandoned group minIdle now db id) :
    ¬MessageHas db id .retryScheduled := by
  intro hwaiting
  rcases h.2 with hready | hready
  · exact nomatch hready.unique hwaiting
  · exact nomatch hready.unique hwaiting

/-- The window contains the oldest abandoned message exactly if few enough
stale messages come before it. -/
theorem mem_window_iff (h : Stale group minIdle now db id) :
    id ∈ (staleIds group minIdle now db).take 100 ↔
      staleBefore group minIdle now db id < 100 :=
  mem_take_iff_countP pairwise_staleIds (mem_staleIds.mpr h) 100

theorem exists_oldestAbandoned (h : Abandoned group minIdle now db id) :
    ∃ oldest, OldestAbandoned group minIdle now db oldest := by
  classical
  cases hfind : (staleIds group minIdle now db).find? fun id =>
      decide (Abandoned group minIdle now db id) with
  | none =>
      have hnot := List.find?_eq_none.mp hfind id (mem_staleIds.mpr h.1)
      exact absurd (decide_eq_true h) hnot
  | some oldest =>
      obtain ⟨hoid, before, after, hsplit, hbefore⟩ :=
        List.find?_eq_some_iff_append.mp hfind
      refine ⟨oldest, of_decide_eq_true hoid, fun other hother => ?_⟩
      have hsorted : (before ++ oldest :: after).Pairwise (· < ·) :=
        hsplit ▸ pairwise_staleIds
      rw [List.pairwise_append, List.pairwise_cons] at hsorted
      have hmem := mem_staleIds.mpr hother.1
      rw [hsplit, List.mem_append, List.mem_cons] at hmem
      rcases hmem with hmem | rfl | hmem
      · have hnot := hbefore other hmem
        simp [hother] at hnot
      · exact le_rfl
      · exact le_of_lt (hsorted.2.1.1 other hmem)

variable {result : Except String (Option (String × Disposition))}
  {db' : Store}

/-- A message that the scan passed over or claimed is not the oldest abandoned
one behind it. -/
theorem Scanned.oldest (h : Scanned group consumer minIdle now db result db')
    (hid : OldestAbandoned group minIdle now db id)
    (hreach : staleBefore group minIdle now db id < 100) :
    result = .ok (some (id.text, .delivery)) ∧
      owner db' group id = some consumer := by
  have hwindow := (mem_window_iff hid.1.1).mpr hreach
  cases h with
  | failed message absent =>
      rw [absent] at hwindow
      cases hwindow
  | nothing waiting => exact absurd (waiting id hwindow) hid.1.not_waiting
  | claimed before first after window waiting ready owned others =>
      have hfirst : first = id := by
        rw [window, List.mem_append, List.mem_cons] at hwindow
        rcases hwindow with hbefore | rfl | hafter
        · exact absurd (waiting id hbefore) hid.1.not_waiting
        · rfl
        · -- The claimed message would be an older abandoned one.
          have hsorted := pairwise_staleIds.sublist
            (List.take_sublist 100 (staleIds group minIdle now db))
          rw [window, List.pairwise_append, List.pairwise_cons] at hsorted
          have hmem : first ∈ staleIds group minIdle now db :=
            List.mem_of_mem_take (window ▸ List.mem_append_right _
              List.mem_cons_self)
          exact absurd (hid.2 first ⟨mem_staleIds.mp hmem, ready⟩)
            (not_le.mpr (hsorted.2.1.1 id hafter))
      subst hfirst
      exact ⟨rfl, owned⟩

/-- Nothing is claimed when the oldest abandoned message lies behind the
window. -/
theorem Scanned.behind (h : Scanned group consumer minIdle now db result db')
    (hid : OldestAbandoned group minIdle now db id)
    (hbehind : ¬staleBefore group minIdle now db id < 100) :
    result = .ok none := by
  have hmem := mem_staleIds.mpr hid.1.1
  cases h with
  | failed message absent =>
      rw [absent] at hmem
      cases hmem
  | nothing waiting => rfl
  | claimed before first after window waiting ready owned others =>
      have hfirst : first ∈ (staleIds group minIdle now db).take 100 :=
        window ▸ List.mem_append_right _ List.mem_cons_self
      have hlt := lt_of_mem_take pairwise_staleIds hfirst hmem
        fun h => hbehind ((mem_window_iff hid.1.1).mp h)
      exact absurd (hid.2 first
        ⟨mem_staleIds.mp (List.mem_of_mem_take hfirst), ready⟩)
        (not_le.mpr hlt)

theorem Scanned.unchanged
    (h : Scanned group consumer minIdle now db result db')
    (hresult : result = .ok none) : db' = db := by
  cases h with
  | failed | claimed => cases hresult
  | nothing waiting => rfl

/-- A message that waits for a retry stays with its owner. -/
theorem Scanned.kept (h : Scanned group consumer minIdle now db result db')
    (hid : MessageHas db id .retryScheduled) :
    owner db' group id = owner db group id ∧
      ∀ disposition, result ≠ .ok (some (id.text, disposition)) := by
  cases h with
  | failed | nothing => exact ⟨rfl, nofun⟩
  | claimed before first after window waiting ready owned others =>
      have hne : id ≠ first := by
        rintro rfl
        rcases ready with hready | hready
        · exact nomatch hready.unique hid
        · exact nomatch hready.unique hid
      refine ⟨others id hne, fun disposition heq => hne ?_⟩
      obtain ⟨htext, -⟩ := Prod.mk.inj (Option.some.inj (Except.ok.inj heq))
      exact (StreamId.text_injective htext).symm

end Scan

section Others

open Script

variable {group group' : String} {id : StreamId} {db : Store} {m : String}

/-- What the group knows about the message `id` is `held`. -/
def Knows (group : String) (id : StreamId) (held : Option Delivery)
    (db : Store) : Prop :=
  pendingEntry db group id = held

theorem keeps_of_elsewhere {α : Type} {P : Write Key → Prop}
    {script : StoreScript α} {held : Option Delivery} (h : script.Writes P)
    (hkey : ∀ w, P w → w.key ≠ Key.events) :
    script.Keeps (Knows group id held) := by
  refine h.keeps fun w d d' hw hstep hd => ?_
  rw [Knows, pendingEntry, streamAt, hstep.others _ (hkey w hw).symm]
  exact hd

/-- `XACK` of another message. -/
theorem keeps_xack {held : Option Delivery}
    (hm : StreamId.parse m ≠ some id) :
    (xack Key.events group' m).Keeps (Knows group id held) := by
  intro db hknows
  rcases xack_none_or_one Key.events group' m db with
    ⟨r, hrun, -⟩ | ⟨st, g, other, hevents, hg, hparse, hrun⟩
  · rw [hrun]
    exact hknows
  · rw [hrun, Knows, pendingEntry, streamAt_update_self]
    rw [Knows, pendingEntry, streamAt_eq (Or.inr hevents)] at hknows
    have hne : id ≠ other := by
      rintro rfl
      exact hm hparse
    by_cases hgroup : group = group'
    · subst hgroup
      rw [hg] at hknows
      rw [Stream.lookup_setGroup, ← hknows]
      exact AList.lookup_erase_ne hne
    · rw [Stream.setGroup, AList.lookup_insert_ne hgroup]
      exact hknows

theorem keeps_quarantineMessage {held : Option Delivery} {now : UInt64}
    {reasonCode : String} (hm : StreamId.parse m ≠ some id) :
    (quarantineMessageScript now m group' reasonCode).Keeps
      (Knows group id held) := by
  have hwrites : ∀ eventId safe, (quarantineWrites now m group' reasonCode
      eventId safe).Keeps (Knows group id held) := by
    intro eventId safe
    refine (keeps_of_elsewhere (writes_xadd rfl)
      (P := fun w => w = .append .quarantine _) ?_).bind fun _ =>
        (keeps_xack hm).bind fun _ => keeps_ite (readOnly_fail _).keeps ?_
    · rintro w rfl
      exact nofun
    · split
      · refine (keeps_of_elsewhere (writes_hset (by simp) ?_)
          (P := fun w => ∃ text, w.key = Key.event text) ?_).bind
          fun _ => (readOnly_pure _).keeps
        · exact fun _ _ => ⟨_, rfl⟩
        · rintro w ⟨text, hw⟩
          rw [hw]
          exact nofun
      · exact (readOnly_pure _).keeps
  have hsafe : ∀ text, (safeToQuarantine text m).ReadOnly := by
    intro text
    refine (readOnly_typeOf _).bind fun _ =>
      readOnly_ite (readOnly_pure _) ?_
    exact (readOnly_hget _ _).bind fun _ => (readOnly_hget _ _).bind fun _ =>
      (readOnly_hget _ _).bind fun _ => readOnly_pure _
  refine (readOnly_typeOf _).keeps.bind fun _ =>
    (readOnly_typeOf _).keeps.bind fun _ => keeps_ite (readOnly_fail _).keeps
      (keeps_ite (readOnly_fail _).keeps ?_)
  refine (readOnly_xpending _ _ _).keeps.bind fun _ =>
    (readOnly_xrange _ _).keeps.bind fun _ => ?_
  split
  · split
    · exact (hsafe _).keeps.bind fun _ => hwrites _ _
    · exact hwrites _ _
  · exact (readOnly_fail _).keeps

end Others

section Methods

variable {lib : Stdlib} {w : World} {store : RedisEventStore}
  {group consumer : String} {minIdle : ℕ} {now : UInt64}

/-- What a claim does after its script answered `m`: it reads the stream and
quarantines at most `m`. -/
def AfterClaim (m : String) : Op → Prop
  | .redis (.quarantineMessage m' _ _) => m' = m
  | .redis (.xrange _) => True
  | .redis _ => False
  | _ => True

theorem knows_exec {id : StreamId} {held : Option Delivery} {m : String}
    (hm : StreamId.parse m ≠ some id) (w : World) (op : Op) (reply : op.Reply)
    (w' : World) (hop : AfterClaim m op) (h : AvailableMachine.exec w op reply w')
    (hknows : Knows group id held w.store) : Knows group id held w'.store := by
  have hcall : ∀ call now, op = .redis call →
      Knows group id held (w.run call now).store := by
    rintro call now rfl
    cases call with
    | quarantineMessage m' group' reasonCode =>
        obtain rfl : m' = m := hop
        exact keeps_quarantineMessage hm _ hknows
    | xrange text =>
        have hread := readOnly_xrange Key.events text w.store
        have hsame : (w.run (.xrange text) now).store = w.store := hread
        rw [hsame]
        exact hknows
    | _ => exact hop.elim
  cases h.1 with
  | answered call now => exact hcall call now rfl
  | replyLost call now => exact hcall call now rfl
  | _ => exact hknows

theorem callsOnly_quarantine {m reasonCode : String} :
    CallsOnly (AfterClaim m)
      (store.quarantineMalformedMessage m group reasonCode) :=
  callsOnly_bind (callsOnly_attempt (fun _ => trivial) (fun _ => trivial)
    store (show AfterClaim m (.redis (.quarantineMessage m group reasonCode))
      from rfl))
    fun _ => callsOnly_recordQueueQuarantine (fun _ => trivial)
      (fun _ => trivial) store _

/-- How a claim that ran alone relates to the answer of its script. -/
structure FollowsScript (group consumer : String) (minIdle : ℕ) (now : UInt64)
    (w : World) (r : Except Raised (Option QueuedEvent)) (w' : World) :
    Prop where
  begins : Begins group consumer minIdle now w w'
  nothing : (claimStalePendingScript now group consumer minIdle w.store).1 =
    .ok none → r = .ok none ∧
      w'.store = (claimStalePendingScript now group consumer minIdle w.store).2
  failed : ∀ message,
    (claimStalePendingScript now group consumer minIdle w.store).1 =
      .error message → r ≠ .ok none
  others : ∀ id : StreamId, (∀ disposition,
      (claimStalePendingScript now group consumer minIdle w.store).1 ≠
        .ok (some (id.text, disposition))) →
    owner w'.store group id = owner
      (claimStalePendingScript now group consumer minIdle w.store).2 group id

theorem begins_of_prefix {w' : World}
    (h : (w.run (.claimStalePending group consumer minIdle) now).history <+:
      w'.history) : Begins group consumer minIdle now w w' := by
  obtain ⟨rest, hrest⟩ := h
  refine ⟨rest, ?_⟩
  rw [← hrest, World.run, List.append_assoc]
  rfl

variable (group) in
/-- After the claim of `id`, the owners of the other messages stay. -/
theorem alone_afterClaim {α : Type} {p : App α} {w₁ t : World} (id : StreamId)
    (hp : CallsOnly (AfterClaim id.text) p)
    (hpre : w₁.history <+: t.history) (hsame : t.store = w₁.store) :
    AloneEnds p (fun _ w' => w₁.history <+: w'.history ∧
      ∀ other, other ≠ id →
        owner w'.store group other = owner w₁.store group other) t := by
  refine (Prog.CallsOnly.alone (M := AvailableMachine)
    (I := fun t => w₁.history <+: t.history ∧ ∀ other, other ≠ id →
      Knows group other (pendingEntry w₁.store group other) t.store)
    ?_ hp.run ⟨hpre, fun _ _ => by rw [hsame]; rfl⟩).mono ?_
  · rintro t op reply t' hop hexec ⟨hpre, hknows⟩
    refine ⟨hpre.trans hexec.1.history, fun other hne =>
      knows_exec ?_ t op reply t' hop hexec (hknows other hne)⟩
    rw [StreamId.parse_text]
    exact fun h => hne (Option.some.inj h).symm
  · rintro r w' ⟨hpre, hknows⟩
    refine ⟨hpre, fun other hne => ?_⟩
    rw [owner, hknows other hne]
    rfl

theorem alone_followsScript :
    AloneEnds (store.claimStalePending group consumer minIdle) (fun r w' =>
      ∃ now, FollowsScript group consumer minIdle now w r w') w := by
  refine alone_claimCall.bind ?_ ?_
  · rintro answer _ ⟨now, rfl, ⟨_, ⟨⟩, hscript⟩ | ⟨_, _, h, -⟩⟩
    · have hanswer : (claimStalePendingScript now group consumer minIdle
          w.store).1 = .ok answer := hscript
      cases answer with
      | none =>
          refine alone_pure ⟨now, begins_of_prefix List.prefix_rfl,
            fun _ => ⟨rfl, rfl⟩, fun message h => ?_, fun _ _ => rfl⟩
          rw [hanswer] at h
          cases h
      | some claimed =>
          obtain ⟨m, disposition⟩ := claimed
          obtain ⟨st, g, entry, held, -, -, hentry, rfl, -, -, hstore⟩ :=
            claimStalePending_cases hanswer
          have hevents : (w.run (.claimStalePending group consumer minIdle)
              now).store .events = some (.stream (st.setGroup group
                (g.reassign entry.id consumer now held))) := by
            show (claimStalePendingScript now group consumer minIdle
              w.store).2 .events = _
            rw [hstore, Function.update_self]
          refine (alone_xrange hevents hentry).bind ?_ fun _ _ h =>
            nomatch h.2.2
          rintro _ w₂ ⟨hpre, hsame, h⟩
          obtain rfl := Except.ok.inj h
          refine (alone_afterClaim group entry.id ?_ hpre hsame).mono ?_
          · dsimp only
            split
            · exact callsOnly_bind callsOnly_quarantine fun _ => callsOnly_pure _
            · exact store.callsOnly_orQuarantine callsOnly_quarantine _
          · rintro r w' ⟨hpre, hothers⟩
            refine ⟨now, begins_of_prefix hpre, fun h => ?_, fun _ h => ?_,
              fun id hother => hothers id ?_⟩
            · rw [hanswer] at h
              cases h
            · rw [hanswer] at h
              cases h
            · rintro rfl
              exact hother disposition hanswer
    · cases h
  · rintro raised _ ⟨now, rfl, ⟨_, h, -⟩ | ⟨_, message, -, hscript⟩⟩
    · cases h
    · have hanswer : (claimStalePendingScript now group consumer minIdle
          w.store).1 = .error message := hscript
      refine ⟨now, begins_of_prefix List.prefix_rfl, fun h => ?_,
        fun _ _ => nofun, fun _ _ => rfl⟩
      rw [hanswer] at h
      cases h

/-- What a claim at server time `now` is to do: it comes back with nothing only
if no delivery was abandoned, it claims the oldest abandoned one, and messages
that wait for a retry keep their owners. -/
structure TakesOldest (group consumer : String) (minIdle : ℕ) (now : UInt64)
    (w : World) (r : Except Raised (Option QueuedEvent)) (w' : World) :
    Prop where
  nothing : r = .ok none →
    (streamAt w'.store .quarantine).entries =
      (streamAt w.store .quarantine).entries →
    ∀ id, ¬Abandoned group minIdle now w.store id
  oldest : ∀ id, OldestAbandoned group minIdle now w.store id →
    Claims group consumer minIdle id.text w w' ∧
      owner (claimStalePendingScript now group consumer minIdle w.store).2
        group id = some consumer
  kept : ∀ id, MessageHas w.store id .retryScheduled →
    owner w'.store group id = owner w.store group id

/-- The history says which answer the script gave. -/
theorem Begins.answer_eq {now' : UInt64} {w' : World}
    (h : Begins group consumer minIdle now w w')
    (h' : Begins group consumer minIdle now' w w') :
    (claimStalePendingScript now group consumer minIdle w.store).1 =
      (claimStalePendingScript now' group consumer minIdle w.store).1 := by
  obtain ⟨rest, hrest⟩ := h
  obtain ⟨rest', hrest'⟩ := h'
  rw [hrest] at hrest'
  have hhead := (List.cons.inj (List.append_cancel_left hrest')).1
  exact eq_of_heq (Record.executed.inj hhead).2.2

theorem takesOldest_of_reaches {L : Ledger}
    (h : Represents (Parses lib) group w.store L)
    (hreaches : WindowReaches group minIdle now w.store)
    {r : Except Raised (Option QueuedEvent)} {w' : World}
    (hrun : Prog.Runs AvailableMachine
      (store.claimStalePending group consumer minIdle).run w r w')
    (hbegins : Begins group consumer minIdle now w w') :
    TakesOldest group consumer minIdle now w r w' := by
  have hscan := claimStalePending_scanned h now consumer minIdle
  have holdest : ∀ id, OldestAbandoned group minIdle now w.store id →
      Claims group consumer minIdle id.text w w' := by
    intro id hid
    obtain ⟨rest, hrest⟩ := hbegins
    rw [(hscan.oldest hid (hreaches id hid)).1] at hrest
    exact ⟨_, rest, hrest⟩
  refine ⟨fun hr hsame id hid => ?_, fun id hid =>
    ⟨holdest id hid, (hscan.oldest hid (hreaches id hid)).2⟩,
    fun id hid => ?_⟩
  · -- A claimed message is returned, quarantined or refused, or not parsed.
    obtain ⟨oldest, hoid⟩ := exists_oldestAbandoned hid
    obtain ⟨entry, -, -, hend⟩ := (alone_claimStalePending h.quarantine).of_runs
      hrun _ (holdest oldest hoid)
    cases hend with
    | returned => cases hr
    | refused | raised => cases hr
    | quarantined bad room done =>
        obtain ⟨newId, fields, hadded, -⟩ := done.recorded
        rw [hsame] at hadded
        simpa using congrArg List.length hadded
  · obtain ⟨now', hfollows⟩ := alone_followsScript.of_runs hrun
    obtain ⟨hsame, hother⟩ :=
      (claimStalePending_scanned h now' consumer minIdle).kept hid
    exact (hfollows.others id hother).trans hsame

/-- When every claim takes the oldest abandoned message, the window reaches
it. -/
theorem windowReaches_of_takesOldest {L : Ledger}
    (h : Represents (Parses lib) group w.store L)
    (hall : ∀ r w', Prog.Runs AvailableMachine
        (store.claimStalePending group consumer minIdle).run w r w' →
      Begins group consumer minIdle now w w' →
        TakesOldest group consumer minIdle now w r w') :
    WindowReaches group minIdle now w.store := by
  intro id hid
  by_contra hbehind
  obtain ⟨r, w', hrun, hbegins⟩ :=
    exists_begins w store group consumer minIdle now
  obtain ⟨now', hfollows⟩ := alone_followsScript.of_runs hrun
  have hnone :=
    (claimStalePending_scanned h now consumer minIdle).behind hid hbehind
  rw [hbegins.answer_eq hfollows.begins] at hnone
  obtain ⟨hr, hstore⟩ := hfollows.nothing hnone
  refine (hall r w' hrun hbegins).nothing hr ?_ id hid.1
  rw [hstore, (claimStalePending_scanned h now' consumer minIdle).unchanged
    hnone]

end Methods

end Hooklane
