import Hooklane.Queue.Ledger

/-!
# How the keyspace represents the ledger

`Represents` ties the raw keyspace to the accounts: which status hash, stream
entries and retry-schedule members stand for which account.  It has three
parts, one for the status hashes, one for the events stream and one for the
schedule, and each part has its own update lemmas.
-/

namespace Hooklane

open Redis

/-- The stream under a key; empty when there is none. -/
def streamAt (db : Store) (key : Key) : Stream :=
  match db key with
  | some (.stream st) => st
  | _ => .empty

/-- The retry schedule; empty when there is none. -/
def retrySet (db : Store) : ZSet :=
  match db .retries with
  | some (.zset z) => z
  | _ => ∅

/-- A key holds a stream, an absent key counting as the empty one. -/
def HoldsStream (v : Option Value) (st : Stream) : Prop :=
  v = none ∧ st = .empty ∨ v = some (.stream st)

/-- A key holds a sorted set, an absent key counting as the empty one. -/
def HoldsZSet (v : Option Value) (z : ZSet) : Prop :=
  v = none ∧ z = ∅ ∨ v = some (.zset z)

theorem streamAt_eq {db : Store} {key : Key} {st : Stream}
    (h : HoldsStream (db key) st) : streamAt db key = st := by
  rcases h with ⟨hv, rfl⟩ | hv <;> rw [streamAt, hv]

theorem retrySet_eq {db : Store} {z : ZSet}
    (h : HoldsZSet (db .retries) z) : retrySet db = z := by
  rcases h with ⟨hv, rfl⟩ | hv <;> rw [retrySet, hv]

/-- The message fields of an event, as the enqueue scripts write them. -/
def Carries (fields : Fields) (e : UUID) : Prop :=
  fieldValue fields "event_id" = some e.text ∧
    lastFieldValue fields "event_id" = some e.text

theorem Carries.unique {fields : Fields} {e e' : UUID}
    (h : Carries fields e) (h' : Carries fields e') : e = e' := by
  have htext : some e.text = some e'.text := h.1.symm.trans h'.1
  exact UUID.text_injective (Option.some.inj htext)

/-- A status hash shows an account. -/
structure HashShows (h : Hash) (e : UUID) (a : Account) : Prop where
  eventId : h.lookup "event_id" = some e.text
  status : h.lookup "status" = some a.status.value
  attempts : h.lookup "attempt_count" = some (toString a.attempts)
  streamId : h.lookup "stream_id" = some a.current.text
  bounded : (a.attempts : ℤ) < int64Bound

/-- The status hashes show the ledger. -/
structure StatusShows (db : Store) (L : Ledger) : Prop where
  known : ∀ key v, db (.event key) = some v →
    ∃ e a, key = e.text ∧ L e = some a
  hash : ∀ e a, L e = some a →
    ∃ h, db (.event e.text) = some (.hash h) ∧ HashShows h e a

/-- The events stream shows the ledger. -/
structure StreamShows (group : String) (st : Stream) (L : Ledger) : Prop where
  tidy : st.Tidy group
  current : ∀ e a, L e = some a → ⟨a.current, a.fields⟩ ∈ st.entries
  custody : ∀ e a, L e = some a → st.custody group a.current = a.custody
  carried : ∀ entry ∈ st.entries, ∃ e a, L e = some a ∧
    entry.fields = a.fields ∧
    (entry.id ≠ a.current → st.custody group entry.id = .acknowledged)
  content : ∀ e a, L e = some a → Carries a.fields e

/-- The retry schedule shows the ledger. -/
structure ScheduleShows (z : ZSet) (L : Ledger) : Prop where
  members : ∀ m ∈ z, ∃ e a, m = e.text ∧ L e = some a
  scheduled : ∀ e a, L e = some a → (a.scheduled = true ↔ e.text ∈ z)

/-- The keyspace represents the ledger, and every account is valid. -/
structure Represents (parses : Fields → Prop) (group : String) (db : Store)
    (L : Ledger) : Prop where
  events : HoldsStream (db .events) (streamAt db .events)
  retries : HoldsZSet (db .retries) (retrySet db)
  deadLetter : HoldsStream (db .deadLetter) (streamAt db .deadLetter)
  quarantine : HoldsStream (db .quarantine) (streamAt db .quarantine)
  status : StatusShows db L
  stream : StreamShows group (streamAt db .events) L
  schedule : ScheduleShows (retrySet db) L
  valid : ∀ e a, L e = some a → a.Valid parses

/-- The ledger with one account replaced. -/
def Ledger.set (L : Ledger) (e : UUID) (a : Account) : Ledger :=
  Function.update L e (some a)

@[simp]
theorem Ledger.set_self (L : Ledger) (e : UUID) (a : Account) :
    L.set e a e = some a := by
  rw [Ledger.set, Function.update_self]

theorem Ledger.set_of_ne (L : Ledger) {e e' : UUID} (a : Account)
    (h : e' ≠ e) : L.set e a e' = L e' := by
  rw [Ledger.set, Function.update_of_ne h]

/-- A property of all accounts survives the replacement of one. -/
theorem Ledger.forall_set {L : Ledger} {e : UUID} {a' : Account}
    {P : UUID → Account → Prop}
    (hself : P e a') (hother : ∀ e' a, e' ≠ e → L e' = some a → P e' a) :
    ∀ e' a, L.set e a' e' = some a → P e' a := by
  intro e' a ha
  by_cases he : e' = e
  · subst e'
    rw [Ledger.set_self] at ha
    obtain rfl := Option.some.inj ha
    exact hself
  · rw [Ledger.set_of_ne L a' he] at ha
    exact hother e' a he ha

/-- An account that exists still exists after a replacement. -/
theorem Ledger.exists_set {L : Ledger} {e e' : UUID} {a b : Account}
    (h : L e' = some a) : ∃ c, L.set e b e' = some c := by
  by_cases he : e' = e
  · subst e'
    exact ⟨b, Ledger.set_self L e b⟩
  · exact ⟨a, (Ledger.set_of_ne L b he).trans h⟩

namespace StatusShows

variable {db db' : Store} {L : Ledger} {e : UUID} {a' : Account} {f : Hash}

theorem congr (h : StatusShows db L)
    (hsame : ∀ key, db' (.event key) = db (.event key)) :
    StatusShows db' L := by
  refine ⟨?_, ?_⟩
  · intro key v hv
    rw [hsame] at hv
    exact h.known key v hv
  · intro e a ha
    rw [hsame]
    exact h.hash e a ha

theorem absent (h : StatusShows db L) (he : L e = none) :
    db (.event e.text) = none := by
  cases hv : db (.event e.text) with
  | none => rfl
  | some v =>
      obtain ⟨e', a, htext, ha⟩ := h.known _ v hv
      rw [← UUID.text_injective htext, he] at ha
      exact absurd ha (by simp)

theorem set (h : StatusShows db L)
    (hkey : db' (.event e.text) = some (.hash f)) (hf : HashShows f e a')
    (hsame : ∀ key, key ≠ e.text → db' (.event key) = db (.event key)) :
    StatusShows db' (L.set e a') := by
  refine ⟨?_, ?_⟩
  · intro key v hv
    by_cases hkeyText : key = e.text
    · exact ⟨e, a', hkeyText, Ledger.set_self L e a'⟩
    · rw [hsame key hkeyText] at hv
      obtain ⟨e', a, htext, ha⟩ := h.known key v hv
      obtain ⟨b, hb⟩ := Ledger.exists_set (e := e) (b := a') ha
      exact ⟨e', b, htext, hb⟩
  · apply Ledger.forall_set
    · exact ⟨f, hkey, hf⟩
    · intro e' a he ha
      rw [hsame e'.text fun htext => he (UUID.text_injective htext)]
      exact h.hash e' a ha

end StatusShows

namespace StreamShows

variable {group : String} {st st' : Stream} {L : Ledger} {e : UUID}
  {a a' : Account}

/-- Two events never live in the same copy. -/
theorem current_inj (h : StreamShows group st L) {e' : UUID} {b : Account}
    (ha : L e = some a) (hb : L e' = some b) (hid : a.current = b.current) :
    e = e' := by
  have hentry := Stream.eq_of_id_eq (h.current e a ha) (h.current e' b hb) hid
  rw [Entry.mk.injEq] at hentry
  have hb' := h.content e' b hb
  rw [← hentry.2] at hb'
  exact (h.content e a ha).unique hb'

/-- The account of the event that an entry carries. -/
theorem account_of_entry (h : StreamShows group st L) {entry : Entry}
    (hentry : entry ∈ st.entries) (hcarries : Carries entry.fields e) :
    ∃ a, L e = some a ∧ entry.fields = a.fields ∧
      (entry.id ≠ a.current → st.custody group entry.id = .acknowledged) := by
  obtain ⟨e', a, ha, hfields, hid⟩ := h.carried entry hentry
  have hcontent := h.content e' a ha
  rw [← hfields] at hcontent
  obtain rfl := hcarries.unique hcontent
  exact ⟨a, ha, hfields, hid⟩

/-- The stream is only looked at through its entries, the custody of these
and the accounts' copies. -/
theorem congr (h : StreamShows group st L) (htidy : st'.Tidy group)
    (hentries : st'.entries = st.entries)
    (hcustody : ∀ entry ∈ st.entries,
      st'.custody group entry.id = st.custody group entry.id) :
    StreamShows group st' L := by
  refine ⟨htidy, ?_, ?_, ?_, h.content⟩
  · intro e a ha
    rw [hentries]
    exact h.current e a ha
  · intro e a ha
    rw [hcustody ⟨a.current, a.fields⟩ (h.current e a ha)]
    exact h.custody e a ha
  · intro entry hentry
    rw [hentries] at hentry
    rw [hcustody entry hentry]
    exact h.carried entry hentry

/-- One copy changes custody, and the account follows it. -/
theorem set (h : StreamShows group st L) (ha : L e = some a)
    (htidy : st'.Tidy group) (hentries : st'.entries = st.entries)
    (hcurrent : a'.current = a.current) (hfields : a'.fields = a.fields)
    (hself : st'.custody group a.current = a'.custody)
    (hother : ∀ entry ∈ st.entries, entry.id ≠ a.current →
      st'.custody group entry.id = st.custody group entry.id) :
    StreamShows group st' (L.set e a') := by
  refine ⟨htidy, ?_, ?_, ?_, ?_⟩
  · rw [hentries]
    apply Ledger.forall_set
    · rw [hcurrent, hfields]
      exact h.current e a ha
    · intro e' b _ hb
      exact h.current e' b hb
  · apply Ledger.forall_set
    · rw [hcurrent]
      exact hself
    · intro e' b he hb
      have hne : b.current ≠ a.current :=
        fun hid => he (h.current_inj hb ha hid)
      rw [hother ⟨b.current, b.fields⟩ (h.current e' b hb) hne]
      exact h.custody e' b hb
  · intro entry hentry
    rw [hentries] at hentry
    obtain ⟨e', b, hb, hbfields, hbid⟩ := h.carried entry hentry
    by_cases he : e' = e
    · subst e'
      rw [ha] at hb
      obtain rfl := Option.some.inj hb
      refine ⟨e, a', Ledger.set_self L e a', hbfields.trans hfields.symm, ?_⟩
      intro hne
      rw [hcurrent] at hne
      rw [hother entry hentry hne]
      exact hbid hne
    · refine ⟨e', b, (Ledger.set_of_ne L a' he).trans hb, hbfields, ?_⟩
      intro hne
      have hentryNe : entry.id ≠ a.current := by
        intro hid
        have hentryEq := Stream.eq_of_id_eq hentry (h.current e a ha) hid
        have hcarries := h.content e' b hb
        rw [← hbfields, hentryEq] at hcarries
        exact he (hcarries.unique (h.content e a ha))
      rw [hother entry hentry hentryNe]
      exact hbid hne
  · apply Ledger.forall_set
    · rw [hfields]
      exact h.content e a ha
    · intro e' b _ hb
      exact h.content e' b hb

/-- A new event is enqueued: its first copy is the new entry. -/
theorem accept (h : StreamShows group st L) (hnone : L e = none)
    {now : UInt64} {fields : Fields} {id : StreamId}
    (hcarries : Carries fields e)
    (happend : st.append now fields = some (id, st')) :
    StreamShows group st' (L.set e (.initial id fields)) := by
  obtain ⟨-, hentries, -, -⟩ := Stream.append_eq_some happend
  have hne : ∀ e' b, L e' = some b → e' ≠ e := by
    rintro e' b hb rfl
    rw [hnone] at hb
    exact absurd hb (by simp)
  refine ⟨Stream.tidy_append h.tidy happend, ?_, ?_, ?_, ?_⟩
  · rw [hentries]
    apply Ledger.forall_set
    · simp [Account.initial]
    · intro e' b _ hb
      exact List.mem_append_left _ (h.current e' b hb)
  · apply Ledger.forall_set
    · exact Stream.custody_append_new h.tidy happend
    · intro e' b _ hb
      rw [Stream.custody_append_old happend]
      exact h.custody e' b hb
  · intro entry hentry
    rw [hentries, List.mem_append, List.mem_singleton] at hentry
    rcases hentry with hold | rfl
    · obtain ⟨e', b, hb, hbfields, hbid⟩ := h.carried entry hold
      refine ⟨e', b, ?_, hbfields, ?_⟩
      · rw [Ledger.set_of_ne L _ (hne e' b hb), hb]
      · rw [Stream.custody_append_old happend]
        exact hbid
    · exact ⟨e, _, Ledger.set_self L e _, rfl, fun hid => absurd rfl hid⟩
  · apply Ledger.forall_set
    · exact hcarries
    · intro e' b _ hb
      exact h.content e' b hb

/-- The current copy is acknowledged while a new copy is appended. -/
theorem requeue (h : StreamShows group st L) (ha : L e = some a)
    {now : UInt64} {id : StreamId} {g : Group} {added : Stream}
    (happend : st.append now a.fields = some (id, added))
    (hg : added.groups.lookup group = some g)
    (hpending : a.current ∈ g.pending)
    (hcurrent : a'.current = id) (hcustody : a'.custody = .unread)
    (hfields : a'.fields = a.fields) :
    StreamShows group (added.setGroup group (g.ack a.current))
      (L.set e a') := by
  obtain ⟨hlt, hentries, -, -⟩ := Stream.append_eq_some happend
  have hfresh : ∀ entry ∈ st.entries, entry.id ≠ id := by
    intro entry hentry
    exact ne_of_lt (lt_of_le_of_lt (st.bounded entry hentry) hlt)
  have htidy := Stream.tidy_append h.tidy happend
  have hcopy := h.current e a ha
  have hnew : (added.setGroup group (g.ack a.current)).custody group id =
      .unread := by
    rw [Stream.custody_ack_other hg (hfresh _ hcopy).symm]
    exact Stream.custody_append_new h.tidy happend
  have hacked :
      (added.setGroup group (g.ack a.current)).custody group a.current =
        .acknowledged :=
    Stream.custody_ack_self htidy hg hpending
  have hother : ∀ other, other ≠ a.current →
      (added.setGroup group (g.ack a.current)).custody group other =
        st.custody group other := by
    intro other hne
    rw [Stream.custody_ack_other hg hne, Stream.custody_append_old happend]
  have hset : (added.setGroup group (g.ack a.current)).entries =
      st.entries ++ [⟨id, a.fields⟩] := hentries
  refine ⟨Stream.tidy_ack htidy hg a.current, ?_, ?_, ?_, ?_⟩
  · rw [hset]
    apply Ledger.forall_set
    · rw [hcurrent, hfields]
      simp
    · intro e' b _ hb
      exact List.mem_append_left _ (h.current e' b hb)
  · apply Ledger.forall_set
    · rw [hcurrent, hcustody]
      exact hnew
    · intro e' b he hb
      rw [hother _ fun hid => he (h.current_inj hb ha hid)]
      exact h.custody e' b hb
  · intro entry hentry
    rw [hset, List.mem_append, List.mem_singleton] at hentry
    rcases hentry with hold | rfl
    · obtain ⟨e', b, hb, hbfields, hbid⟩ := h.carried entry hold
      by_cases he : e' = e
      · subst e'
        rw [ha] at hb
        obtain rfl := Option.some.inj hb
        refine ⟨e, a', Ledger.set_self L e a', hbfields.trans hfields.symm, ?_⟩
        intro _
        by_cases hid : entry.id = a.current
        · rw [hid]
          exact hacked
        · rw [hother _ hid]
          exact hbid hid
      · refine ⟨e', b, (Ledger.set_of_ne L a' he).trans hb, hbfields, ?_⟩
        intro hne
        by_cases hid : entry.id = a.current
        · rw [hid]
          exact hacked
        · rw [hother _ hid]
          exact hbid hne
    · refine ⟨e, a', Ledger.set_self L e a', hfields.symm, ?_⟩
      exact fun hid => absurd hcurrent.symm hid
  · apply Ledger.forall_set
    · rw [hfields]
      exact h.content e a ha
    · intro e' b _ hb
      exact h.content e' b hb

end StreamShows

namespace ScheduleShows

variable {z : ZSet} {L : Ledger} {e : UUID} {a a' : Account}

theorem members_set (h : ScheduleShows z L) (m : String) (hm : m ∈ z) :
    ∃ e' b, m = e'.text ∧ L.set e a' e' = some b := by
  obtain ⟨e', b, htext, hb⟩ := h.members m hm
  obtain ⟨c, hc⟩ := Ledger.exists_set (e := e) (b := a') hb
  exact ⟨e', c, htext, hc⟩

/-- The schedule and the flag of every account stay as they are. -/
theorem set_same (h : ScheduleShows z L)
    (hself : a'.scheduled = true ↔ e.text ∈ z) :
    ScheduleShows z (L.set e a') := by
  refine ⟨h.members_set, ?_⟩
  apply Ledger.forall_set
  · exact hself
  · intro e' b _ hb
    exact h.scheduled e' b hb

theorem set_insert (h : ScheduleShows z L) (score : Score)
    (hflag : a'.scheduled = true) :
    ScheduleShows (z.insert e.text score) (L.set e a') := by
  refine ⟨?_, ?_⟩
  · intro m hm
    rcases (AList.mem_insert z).mp hm with rfl | hm
    · exact ⟨e, a', rfl, Ledger.set_self L e a'⟩
    · exact h.members_set m hm
  · apply Ledger.forall_set
    · simp [hflag]
    · intro e' b he hb
      have hne : e'.text ≠ e.text := fun htext => he (UUID.text_injective htext)
      rw [h.scheduled e' b hb, AList.mem_insert]
      simp [hne]

theorem set_erase (h : ScheduleShows z L) (hflag : a'.scheduled = false) :
    ScheduleShows (z.erase e.text) (L.set e a') := by
  refine ⟨?_, ?_⟩
  · intro m hm
    exact h.members_set m (AList.mem_erase.mp hm).2
  · apply Ledger.forall_set
    · simp [hflag]
    · intro e' b he hb
      have hne : e'.text ≠ e.text := fun htext => he (UUID.text_injective htext)
      rw [h.scheduled e' b hb, AList.mem_erase]
      simp [hne]

end ScheduleShows

namespace Represents

variable {parses : Fields → Prop} {group : String} {db db' : Store}
  {L L' : Ledger}

/-- The keyspace before the first event is accepted. -/
theorem empty : Represents parses group (fun _ => none) fun _ => none where
  events := Or.inl ⟨rfl, rfl⟩
  retries := Or.inl ⟨rfl, rfl⟩
  deadLetter := Or.inl ⟨rfl, rfl⟩
  quarantine := Or.inl ⟨rfl, rfl⟩
  status := ⟨by simp, by simp⟩
  stream := ⟨Stream.tidy_empty group, by simp, by simp,
    by simp [streamAt, Stream.empty], by simp⟩
  schedule := ⟨fun m hm => absurd hm (AList.notMem_empty m), by simp⟩
  valid := by simp

/-- Assemble the representation after a script has run. -/
theorem build {s : Stream} {z : ZSet}
    (hevents : HoldsStream (db' .events) s)
    (hretries : HoldsZSet (db' .retries) z)
    (hdeadLetter : ∃ dl, HoldsStream (db' .deadLetter) dl)
    (hquarantine : ∃ q, HoldsStream (db' .quarantine) q)
    (hstatus : StatusShows db' L') (hstream : StreamShows group s L')
    (hschedule : ScheduleShows z L')
    (hvalid : ∀ e a, L' e = some a → a.Valid parses) :
    Represents parses group db' L' := by
  obtain ⟨dl, hdl⟩ := hdeadLetter
  obtain ⟨q, hq⟩ := hquarantine
  have hst := streamAt_eq hevents
  have hz := retrySet_eq hretries
  have hdlst := streamAt_eq hdl
  have hqst := streamAt_eq hq
  refine ⟨?_, ?_, ?_, ?_, hstatus, ?_, ?_, hvalid⟩
  · rw [hst]
    exact hevents
  · rw [hz]
    exact hretries
  · rw [hdlst]
    exact hdl
  · rw [hqst]
    exact hq
  · rw [hst]
    exact hstream
  · rw [hz]
    exact hschedule

theorem valid_set (h : Represents parses group db L) {e : UUID} {a' : Account}
    (ha' : a'.Valid parses) :
    ∀ e' b, L.set e a' e' = some b → b.Valid parses := by
  apply Ledger.forall_set
  · exact ha'
  · intro e' b _ hb
    exact h.valid e' b hb

/-- Assemble the representation after a script that changed one account. -/
theorem set (h : Represents parses group db L) {e : UUID} {a' : Account}
    {s : Stream} {z : ZSet} {f : Hash}
    (hevents : HoldsStream (db' .events) s)
    (hretries : HoldsZSet (db' .retries) z)
    (hdeadLetter : ∃ dl, HoldsStream (db' .deadLetter) dl)
    (hquarantine : ∃ q, HoldsStream (db' .quarantine) q)
    (hkey : db' (.event e.text) = some (.hash f)) (hf : HashShows f e a')
    (hsame : ∀ key, key ≠ e.text → db' (.event key) = db (.event key))
    (hstream : StreamShows group s (L.set e a'))
    (hschedule : ScheduleShows z (L.set e a'))
    (hvalid : a'.Valid parses) :
    Represents parses group db' (L.set e a') :=
  build hevents hretries hdeadLetter hquarantine
    (h.status.set hkey hf hsame) hstream hschedule (h.valid_set hvalid)

/-- The stream exists once an event was accepted. -/
theorem events_some (h : Represents parses group db L) {e : UUID} {a : Account}
    (ha : L e = some a) :
    db .events = some (.stream (streamAt db .events)) := by
  rcases h.events with ⟨-, hempty⟩ | hsome
  · have hcopy := h.stream.current e a ha
    rw [hempty] at hcopy
    exact absurd hcopy (by simp [Stream.empty])
  · exact hsome

/-- The stream exists and has the group once a copy was handed out. -/
theorem exists_group (h : Represents parses group db L) {id : StreamId}
    (hheld : (streamAt db .events).custody group id ≠ .unread) :
    ∃ g, db .events = some (.stream (streamAt db .events)) ∧
      (streamAt db .events).groups.lookup group = some g := by
  obtain ⟨g, hg⟩ := Stream.exists_group_of_custody hheld
  refine ⟨g, ?_, hg⟩
  rcases h.events with ⟨-, hempty⟩ | hsome
  · rw [hempty] at hg
    exact absurd hg (by simp [Stream.empty])
  · exact hsome

end Represents

end Hooklane
