import Hooklane.Redis.Text
import Mathlib.Data.List.AList
import Mathlib.Data.List.Sort
import Mathlib.Data.Prod.Lex
import Mathlib.Order.Lattice

/-!
# Streams and consumer groups

A stream is an append-only list of entries with strictly increasing ids.  A
consumer group remembers the last id it handed out and the entries it handed
out but did not see acknowledged.  Relative to one group an entry is unread,
pending or acknowledged; the lemmas below say how each command moves entries
between these three.
-/

namespace Redis

/-- `streamID`: two unsigned 64-bit numbers, ordered lexicographically. -/
structure StreamId where
  ms : UInt64
  seq : UInt64
deriving DecidableEq, Repr

namespace StreamId

def key (id : StreamId) : ℕ ×ₗ ℕ :=
  toLex (id.ms.toNat, id.seq.toNat)

theorem key_injective : Function.Injective key := by
  rintro ⟨ms, seq⟩ ⟨ms', seq'⟩ h
  have hpair : (ms.toNat, seq.toNat) = (ms'.toNat, seq'.toNat) :=
    toLex.injective h
  rw [Prod.mk.injEq] at hpair
  rw [UInt64.toNat.inj hpair.1, UInt64.toNat.inj hpair.2]

instance : LinearOrder StreamId :=
  LinearOrder.lift' key key_injective

theorem lt_iff {a b : StreamId} :
    a < b ↔ a.ms.toNat < b.ms.toNat ∨
      a.ms.toNat = b.ms.toNat ∧ a.seq.toNat < b.seq.toNat := by
  change toLex (a.ms.toNat, a.seq.toNat) < toLex (b.ms.toNat, b.seq.toNat) ↔ _
  rw [Prod.Lex.toLex_lt_toLex]

theorem zero_le (id : StreamId) : (⟨0, 0⟩ : StreamId) ≤ id := by
  rw [← not_lt, lt_iff]
  simp

/-- The text form in which ids travel through commands and hash fields. -/
def text (id : StreamId) : String :=
  toString id.ms.toNat ++ "-" ++ toString id.seq.toNat

/-- Read an id; a text that does not fit in the server's buffer of 127 bytes
is rejected, and so are parts that do not fit in 64 bits. -/
def parse (text : String) : Option StreamId :=
  (parsePair text).bind fun pair =>
    -- Digits and a dash take one byte each.
    if text.toList.length ≤ 127 ∧ pair.1 < UInt64.size ∧
        pair.2 < UInt64.size then
      some ⟨UInt64.ofNat pair.1, UInt64.ofNat pair.2⟩
    else none

@[simp]
theorem parse_text (id : StreamId) : parse id.text = some id := by
  have hms : id.ms.toNat < UInt64.size := id.ms.toNat_lt
  have hseq : id.seq.toNat < UInt64.size := id.seq.toNat_lt
  have hlength : id.text.toList.length ≤ 127 := by
    have hleft := length_toDigits_le hms
    have hright := length_toDigits_le hseq
    rw [text, toList_pair, List.length_append, List.length_cons]
    omega
  rw [parse, text, parsePair_natRepr, Option.bind_some, ← text,
    if_pos ⟨hlength, hms, hseq⟩]
  simp

theorem text_injective : Function.Injective text := by
  intro a b h
  have hparse : parse a.text = parse b.text := by rw [h]
  rw [parse_text, parse_text] at hparse
  exact Option.some.inj hparse

@[simp]
theorem text_inj {a b : StreamId} : a.text = b.text ↔ a = b :=
  text_injective.eq_iff

/-- `streamNextID`: the server clock, or the successor of the last id when the
clock has not moved past it; `none` once the last possible id is used. -/
def next (last : StreamId) (now : UInt64) : Option StreamId :=
  if last.ms < now then some ⟨now, 0⟩
  else if last.seq.toNat + 1 < UInt64.size then some ⟨last.ms, last.seq + 1⟩
  else if last.ms.toNat + 1 < UInt64.size then some ⟨last.ms + 1, 0⟩
  else none

/-- The last possible id. -/
def greatest : StreamId := ⟨18446744073709551615, 18446744073709551615⟩

theorem next_eq_none {last : StreamId} {now : UInt64} :
    last.next now = none ↔ last = greatest := by
  have hms : last.ms.toNat < UInt64.size := last.ms.toNat_lt
  have hseq : last.seq.toNat < UInt64.size := last.seq.toNat_lt
  have hnow : now.toNat < UInt64.size := now.toNat_lt
  have hlast : last = greatest ↔ last.ms.toNat + 1 = UInt64.size ∧
      last.seq.toNat + 1 = UInt64.size := by
    obtain ⟨ms, seq⟩ := last
    rw [greatest, StreamId.mk.injEq, ← UInt64.toNat_inj, ← UInt64.toNat_inj]
    simp only [UInt64.toNat_ofNat, UInt64.size] at hms hseq ⊢
    omega
  rw [hlast]
  unfold next
  split
  · next h =>
    have hlt : last.ms.toNat < now.toNat := h
    simp only [reduceCtorEq, false_iff]
    omega
  · split
    · simp only [reduceCtorEq, false_iff]
      omega
    · split
      · simp only [reduceCtorEq, false_iff]
        omega
      · simp only [true_iff]
        omega

theorem lt_of_next {last id : StreamId} {now : UInt64}
    (h : last.next now = some id) : last < id := by
  rw [lt_iff]
  unfold next at h
  split at h
  · next hnow =>
    obtain rfl := Option.some.inj h
    exact Or.inl hnow
  · split at h
    · next hseq =>
      obtain rfl := Option.some.inj h
      have : (last.seq + 1).toNat = last.seq.toNat + 1 := by
        rw [UInt64.toNat_add]
        exact Nat.mod_eq_of_lt hseq
      exact Or.inr ⟨rfl, by simp only [this]; omega⟩
    · split at h
      · next hms =>
        obtain rfl := Option.some.inj h
        have : (last.ms + 1).toNat = last.ms.toNat + 1 := by
          rw [UInt64.toNat_add]
          exact Nat.mod_eq_of_lt hms
        exact Or.inl (by simp only [this]; omega)
      · exact absurd h (by simp)

end StreamId

/-- One stream entry: its id and its field/value pairs in order. -/
structure Entry where
  id : StreamId
  fields : List (String × String)
deriving DecidableEq, Repr

/-- Who holds a pending entry, since when, and how often it was handed out. -/
structure Delivery where
  consumer : String
  deliveredAt : UInt64
  count : ℕ
deriving DecidableEq, Repr

/-- A consumer group: the last id it handed out, and its pending entries. -/
structure Group where
  lastDelivered : StreamId
  pending : AList fun _ : StreamId => Delivery

/-- A stream value.  Entry ids increase strictly, start above `0-0` and never
pass the last generated id. -/
structure Stream where
  entries : List Entry
  lastId : StreamId
  groups : AList fun _ : String => Group
  sorted : entries.Pairwise fun a b => a.id < b.id
  positive : ∀ entry ∈ entries, ⟨0, 0⟩ < entry.id
  bounded : ∀ entry ∈ entries, entry.id ≤ lastId

/-- Where an entry stands relative to a consumer group. -/
inductive Custody where
  | unread
  | pending
  | acknowledged
deriving DecidableEq, Repr

namespace Stream

/-- The stream that `XADD` or `XGROUP CREATE ... MKSTREAM` creates. -/
def empty : Stream where
  entries := []
  lastId := ⟨0, 0⟩
  groups := ∅
  sorted := List.Pairwise.nil
  positive := by simp
  bounded := by simp

/-- `XADD key * ...`: append an entry under a fresh id. -/
def append (st : Stream) (now : UInt64) (fields : List (String × String)) :
    Option (StreamId × Stream) :=
  match h : st.lastId.next now with
  | none => none
  | some id => some (id,
      { entries := st.entries ++ [⟨id, fields⟩]
        lastId := id
        groups := st.groups
        sorted := by
          have hlt := StreamId.lt_of_next h
          rw [List.pairwise_append]
          refine ⟨st.sorted, List.pairwise_singleton _ _, ?_⟩
          intro a ha b hb
          rw [List.mem_singleton] at hb
          subst b
          exact lt_of_le_of_lt (st.bounded a ha) hlt
        positive := by
          have hlt := StreamId.lt_of_next h
          intro entry hentry
          rcases List.mem_append.mp hentry with hold | hnew
          · exact st.positive entry hold
          · rw [List.mem_singleton] at hnew
            subst entry
            exact lt_of_le_of_lt (StreamId.zero_le st.lastId) hlt
        bounded := by
          have hlt := StreamId.lt_of_next h
          intro entry hentry
          rcases List.mem_append.mp hentry with hold | hnew
          · exact le_of_lt (lt_of_le_of_lt (st.bounded entry hold) hlt)
          · rw [List.mem_singleton] at hnew
            subst entry
            exact le_rfl })

theorem append_eq_some {st st' : Stream} {now : UInt64}
    {fields : List (String × String)} {id : StreamId}
    (h : st.append now fields = some (id, st')) :
    st.lastId < id ∧ st'.entries = st.entries ++ [⟨id, fields⟩] ∧
      st'.lastId = id ∧ st'.groups = st.groups := by
  unfold append at h
  split at h
  · exact absurd h (by simp)
  · next hnext =>
    rw [Option.some.injEq, Prod.mk.injEq] at h
    obtain ⟨rfl, rfl⟩ := h
    exact ⟨StreamId.lt_of_next hnext, rfl, rfl, rfl⟩

theorem append_eq_none {st : Stream} {now : UInt64}
    {fields : List (String × String)} :
    st.append now fields = none ↔ st.lastId = StreamId.greatest := by
  rw [← @StreamId.next_eq_none _ now]
  unfold append
  split
  · next hnext => simp [hnext]
  · next id hnext => simp [hnext]

/-- The entry with a given id. -/
def find (st : Stream) (id : StreamId) : Option Entry :=
  st.entries.find? fun entry => entry.id = id

theorem mem_of_find {st : Stream} {id : StreamId} {entry : Entry}
    (h : st.find id = some entry) : entry ∈ st.entries ∧ entry.id = id := by
  refine ⟨List.mem_of_find?_eq_some h, ?_⟩
  simpa using List.find?_some h

theorem eq_of_id_eq {st : Stream} {a b : Entry}
    (ha : a ∈ st.entries) (hb : b ∈ st.entries) (hid : a.id = b.id) :
    a = b := by
  have hnodup : (st.entries.map Entry.id).Nodup := by
    rw [List.Nodup, List.pairwise_map]
    exact st.sorted.imp fun h => ne_of_lt h
  exact List.inj_on_of_nodup_map hnodup ha hb hid

theorem find_eq_some_of_mem {st : Stream} {entry : Entry}
    (h : entry ∈ st.entries) : st.find entry.id = some entry := by
  cases hfind : st.find entry.id with
  | none =>
      have hnone := List.find?_eq_none.mp hfind entry h
      simp at hnone
  | some other =>
      obtain ⟨hmem, hid⟩ := mem_of_find hfind
      rw [eq_of_id_eq hmem h hid]

/-- The custody of an id relative to a group; without the group every entry is
unread. -/
def custody (st : Stream) (group : String) (id : StreamId) : Custody :=
  match st.groups.lookup group with
  | none => .unread
  | some g =>
      if id ∈ g.pending then .pending
      else if g.lastDelivered < id then .unread
      else .acknowledged

/-- A group as the server keeps it while nobody moves its cursor by hand or
deletes entries: it has handed out only existing entries, in order. -/
structure Tidy (st : Stream) (group : String) : Prop where
  delivered_le : ∀ g, st.groups.lookup group = some g →
    g.lastDelivered ≤ st.lastId
  pending_le : ∀ g, st.groups.lookup group = some g →
    ∀ id, id ∈ g.pending → id ≤ g.lastDelivered
  pending_mem : ∀ g, st.groups.lookup group = some g →
    ∀ id, id ∈ g.pending → ∃ entry ∈ st.entries, entry.id = id

theorem tidy_empty (group : String) : empty.Tidy group where
  delivered_le := by simp [empty]
  pending_le := by simp [empty]
  pending_mem := by simp [empty]

section Append

variable {st st' : Stream} {now : UInt64} {fields : List (String × String)}
  {id : StreamId} {group : String}

theorem custody_append_old (h : st.append now fields = some (id, st'))
    (other : StreamId) : st'.custody group other = st.custody group other := by
  obtain ⟨-, -, -, hgroups⟩ := append_eq_some h
  rw [custody, custody, hgroups]

theorem custody_append_new (htidy : st.Tidy group)
    (h : st.append now fields = some (id, st')) :
    st'.custody group id = .unread := by
  rw [custody_append_old h]
  obtain ⟨hlt, -, -, -⟩ := append_eq_some h
  unfold custody
  split
  · rfl
  · next g hg =>
    have hdelivered := htidy.delivered_le g hg
    have hcursor : g.lastDelivered < id := lt_of_le_of_lt hdelivered hlt
    have hnot : id ∉ g.pending := by
      intro hmem
      exact absurd (htidy.pending_le g hg id hmem) (not_le_of_gt hcursor)
    rw [if_neg hnot, if_pos hcursor]

theorem tidy_append (htidy : st.Tidy group)
    (h : st.append now fields = some (id, st')) : st'.Tidy group := by
  obtain ⟨hlt, hentries, hlast, hgroups⟩ := append_eq_some h
  refine ⟨?_, ?_, ?_⟩
  · intro g hg
    rw [hgroups] at hg
    rw [hlast]
    exact le_of_lt (lt_of_le_of_lt (htidy.delivered_le g hg) hlt)
  · intro g hg
    rw [hgroups] at hg
    exact htidy.pending_le g hg
  · intro g hg other hother
    rw [hgroups] at hg
    obtain ⟨entry, hentry, hid⟩ := htidy.pending_mem g hg other hother
    exact ⟨entry, by rw [hentries]; exact List.mem_append_left _ hentry, hid⟩

end Append

/-- Replace one consumer group. -/
def setGroup (st : Stream) (group : String) (g : Group) : Stream where
  entries := st.entries
  lastId := st.lastId
  groups := st.groups.insert group g
  sorted := st.sorted
  positive := st.positive
  bounded := st.bounded

@[simp]
theorem lookup_setGroup (st : Stream) (group : String) (g : Group) :
    (st.setGroup group g).groups.lookup group = some g :=
  AList.lookup_insert _

theorem custody_setGroup (st : Stream) (group : String) (g : Group)
    (id : StreamId) :
    (st.setGroup group g).custody group id =
      if id ∈ g.pending then .pending
      else if g.lastDelivered < id then .unread
      else .acknowledged := by
  rw [custody, lookup_setGroup]

/-- `XGROUP CREATE key group 0-0`: a new group that has handed out nothing. -/
def createGroup (st : Stream) (group : String) : Stream :=
  st.setGroup group ⟨⟨0, 0⟩, ∅⟩

theorem custody_createGroup {st : Stream} {group : String}
    (hnone : st.groups.lookup group = none) {entry : Entry}
    (hentry : entry ∈ st.entries) :
    (st.createGroup group).custody group entry.id =
      st.custody group entry.id := by
  have hold : st.custody group entry.id = .unread := by
    rw [custody, hnone]
  have hpos := st.positive entry hentry
  rw [createGroup, custody_setGroup, hold]
  simp [hpos]

theorem tidy_createGroup (st : Stream) (group : String) :
    (st.createGroup group).Tidy group := by
  refine ⟨?_, ?_, ?_⟩
  · intro g hg
    rw [createGroup, lookup_setGroup] at hg
    obtain rfl := Option.some.inj hg
    exact StreamId.zero_le _
  · intro g hg id hid
    rw [createGroup, lookup_setGroup] at hg
    obtain rfl := Option.some.inj hg
    exact absurd hid (AList.notMem_empty id)
  · intro g hg id hid
    rw [createGroup, lookup_setGroup] at hg
    obtain rfl := Option.some.inj hg
    exact absurd hid (AList.notMem_empty id)

end Stream

namespace Group

/-- `XACK`: drop an entry from the pending list. -/
def ack (g : Group) (id : StreamId) : Group :=
  { g with pending := g.pending.erase id }

/-- `XREADGROUP`: hand an unread entry to a consumer. -/
def deliver (g : Group) (id : StreamId) (consumer : String) (now : UInt64) :
    Group where
  lastDelivered := id
  pending := g.pending.insert id ⟨consumer, now, 1⟩

/-- `XCLAIM`: move a pending entry to another consumer. -/
def reassign (g : Group) (id : StreamId) (consumer : String) (now : UInt64)
    (held : Delivery) : Group :=
  { g with pending := g.pending.insert id ⟨consumer, now, held.count + 1⟩ }

/-- Pending ids in stream order. -/
def pendingIds (g : Group) : List StreamId :=
  g.pending.keys.insertionSort (· ≤ ·)

theorem mem_pendingIds {g : Group} {id : StreamId} :
    id ∈ g.pendingIds ↔ id ∈ g.pending := by
  rw [pendingIds, List.mem_insertionSort, AList.mem_keys]

/-- Milliseconds since an entry was last handed out. -/
def idle (held : Delivery) (now : UInt64) : ℕ :=
  now.toNat - held.deliveredAt.toNat

/-- `XPENDING key group IDLE minIdle - + count`. -/
def idlePending (g : Group) (now : UInt64) (minIdle count : ℕ) :
    List StreamId :=
  (g.pendingIds.filter fun id =>
    match g.pending.lookup id with
    | some held => decide (minIdle ≤ idle held now)
    | none => false).take count

theorem lookup_of_mem_idlePending {g : Group} {now : UInt64}
    {minIdle count : ℕ} {id : StreamId}
    (h : id ∈ g.idlePending now minIdle count) :
    ∃ held, g.pending.lookup id = some held ∧ minIdle ≤ idle held now := by
  obtain ⟨-, hidle⟩ := List.mem_filter.mp (List.mem_of_mem_take h)
  split at hidle
  · next held hheld => exact ⟨held, hheld, of_decide_eq_true hidle⟩
  · cases hidle

theorem mem_of_mem_idlePending {g : Group} {now : UInt64} {minIdle count : ℕ}
    {id : StreamId} (h : id ∈ g.idlePending now minIdle count) :
    id ∈ g.pending := by
  obtain ⟨held, hheld, -⟩ := lookup_of_mem_idlePending h
  exact AList.lookup_isSome.mp (Option.isSome_iff_exists.mpr ⟨held, hheld⟩)

end Group

namespace Stream

section Handover

variable {st : Stream} {group : String} {g : Group}

theorem tidy_setGroup {g' : Group}
    (hcursor : g'.lastDelivered ≤ st.lastId)
    (hle : ∀ id, id ∈ g'.pending → id ≤ g'.lastDelivered)
    (hmem : ∀ id, id ∈ g'.pending → ∃ entry ∈ st.entries, entry.id = id) :
    (st.setGroup group g').Tidy group := by
  refine ⟨?_, ?_, ?_⟩ <;>
  · intro g hg
    rw [lookup_setGroup] at hg
    obtain rfl := Option.some.inj hg
    assumption

theorem custody_eq (hg : st.groups.lookup group = some g) (id : StreamId) :
    st.custody group id =
      if id ∈ g.pending then .pending
      else if g.lastDelivered < id then .unread
      else .acknowledged := by
  rw [custody, hg]

theorem custody_eq_pending (hg : st.groups.lookup group = some g)
    {id : StreamId} : st.custody group id = .pending ↔ id ∈ g.pending := by
  rw [custody_eq hg]
  split
  · next h => simp [h]
  · next h =>
    split <;> simp [h]

theorem exists_group_of_custody {id : StreamId}
    (h : st.custody group id ≠ .unread) :
    ∃ g, st.groups.lookup group = some g := by
  cases hg : st.groups.lookup group with
  | none => exact absurd (by rw [custody, hg]) h
  | some g => exact ⟨g, rfl⟩

theorem custody_ack_self (htidy : st.Tidy group)
    (hg : st.groups.lookup group = some g) {id : StreamId}
    (hid : id ∈ g.pending) :
    (st.setGroup group (g.ack id)).custody group id = .acknowledged := by
  have hle := htidy.pending_le g hg id hid
  rw [custody_setGroup, if_neg (by simp [Group.ack])]
  rw [if_neg (by simpa [Group.ack] using hle)]

theorem custody_ack_other (hg : st.groups.lookup group = some g)
    {id other : StreamId} (hne : other ≠ id) :
    (st.setGroup group (g.ack id)).custody group other =
      st.custody group other := by
  have hiff : other ∈ (g.ack id).pending ↔ other ∈ g.pending := by
    simp [Group.ack, AList.mem_erase, hne]
  rw [custody_setGroup, custody_eq hg]
  exact if_congr hiff rfl rfl

theorem tidy_ack (htidy : st.Tidy group)
    (hg : st.groups.lookup group = some g) (id : StreamId) :
    (st.setGroup group (g.ack id)).Tidy group := by
  apply tidy_setGroup
  · exact htidy.delivered_le g hg
  · intro other hother
    exact htidy.pending_le g hg other (AList.mem_erase.mp hother).2
  · intro other hother
    exact htidy.pending_mem g hg other (AList.mem_erase.mp hother).2

/-- The next entry that `XREADGROUP` hands out. -/
def nextUnread (st : Stream) (g : Group) : Option Entry :=
  st.entries.find? fun entry => decide (g.lastDelivered < entry.id)

theorem nextUnread_spec {entry : Entry} (h : st.nextUnread g = some entry) :
    entry ∈ st.entries ∧ g.lastDelivered < entry.id := by
  refine ⟨List.mem_of_find?_eq_some h, ?_⟩
  simpa using List.find?_some h

/-- No entry lies strictly between the cursor and the next unread entry. -/
theorem nextUnread_first {entry other : Entry}
    (h : st.nextUnread g = some entry) (hother : other ∈ st.entries)
    (hlt : g.lastDelivered < other.id) : entry.id ≤ other.id := by
  obtain ⟨-, before, after, hsplit, hbefore⟩ := List.find?_eq_some_iff_append.mp h
  rw [hsplit] at hother
  rcases List.mem_append.mp hother with hmem | hmem
  · have := hbefore other hmem
    simp [hlt] at this
  · rcases List.mem_cons.mp hmem with rfl | hmem
    · exact le_rfl
    · have hsorted := st.sorted
      rw [hsplit, List.pairwise_append, List.pairwise_cons] at hsorted
      exact le_of_lt (hsorted.2.1.1 other hmem)

variable {entry : Entry} {consumer : String} {now : UInt64}

theorem custody_deliver_self {id : StreamId} :
    (st.setGroup group (g.deliver id consumer now)).custody group id =
      .pending := by
  rw [custody_setGroup, if_pos (by simp [Group.deliver])]

theorem custody_deliver_other
    (hg : st.groups.lookup group = some g)
    (hnext : st.nextUnread g = some entry) {other : Entry}
    (hother : other ∈ st.entries) (hne : other.id ≠ entry.id) :
    (st.setGroup group (g.deliver entry.id consumer now)).custody group
      other.id = st.custody group other.id := by
  obtain ⟨-, hcursor⟩ := nextUnread_spec hnext
  rw [custody_setGroup, custody_eq hg]
  by_cases hpending : other.id ∈ g.pending
  · rw [if_pos hpending, if_pos (by simp [Group.deliver, hpending])]
  · rw [if_neg hpending, if_neg (by simp [Group.deliver, hpending, hne])]
    by_cases hunread : g.lastDelivered < other.id
    · have hle := nextUnread_first hnext hother hunread
      have hlt : entry.id < other.id := lt_of_le_of_ne hle (Ne.symm hne)
      rw [if_pos hunread]
      exact if_pos hlt
    · have hread : other.id < entry.id :=
        lt_of_le_of_lt (not_lt.mp hunread) hcursor
      rw [if_neg hunread]
      exact if_neg (not_lt.mpr (le_of_lt hread))

theorem tidy_deliver (htidy : st.Tidy group)
    (hg : st.groups.lookup group = some g)
    (hnext : st.nextUnread g = some entry) :
    (st.setGroup group (g.deliver entry.id consumer now)).Tidy group := by
  obtain ⟨hmem, hcursor⟩ := nextUnread_spec hnext
  apply tidy_setGroup
  · exact st.bounded entry hmem
  · intro other hother
    rcases (AList.mem_insert _).mp hother with rfl | hold
    · exact le_rfl
    · exact le_of_lt
        (lt_of_le_of_lt (htidy.pending_le g hg other hold) hcursor)
  · intro other hother
    rcases (AList.mem_insert _).mp hother with rfl | hold
    · exact ⟨entry, hmem, rfl⟩
    · exact htidy.pending_mem g hg other hold

variable {id : StreamId} {held : Delivery}

theorem mem_reassign (hid : id ∈ g.pending) (other : StreamId) :
    other ∈ (g.reassign id consumer now held).pending ↔ other ∈ g.pending := by
  rw [Group.reassign, AList.mem_insert]
  constructor
  · rintro (rfl | h)
    · exact hid
    · exact h
  · exact Or.inr

theorem custody_reassign (hg : st.groups.lookup group = some g)
    (hid : id ∈ g.pending) (other : StreamId) :
    (st.setGroup group (g.reassign id consumer now held)).custody group other =
      st.custody group other := by
  rw [custody_setGroup, custody_eq hg]
  simp only [mem_reassign hid]
  rfl

theorem tidy_reassign (htidy : st.Tidy group)
    (hg : st.groups.lookup group = some g) (hid : id ∈ g.pending) :
    (st.setGroup group (g.reassign id consumer now held)).Tidy group := by
  apply tidy_setGroup
  · exact htidy.delivered_le g hg
  · intro other hother
    exact htidy.pending_le g hg other ((mem_reassign hid other).mp hother)
  · intro other hother
    exact htidy.pending_mem g hg other ((mem_reassign hid other).mp hother)

end Handover

/-- What every command of this development does to a stream: entries are only
added at the end, and no entry becomes unread again. -/
structure Grows (group : String) (st st' : Stream) : Prop where
  entries : st.entries <+: st'.entries
  held : ∀ entry ∈ st.entries, st.custody group entry.id ≠ .unread →
    st'.custody group entry.id ≠ .unread

namespace Grows

variable {group : String} {st st' st'' : Stream} {g : Group} {id : StreamId}

theorem refl (st : Stream) : Grows group st st :=
  ⟨List.prefix_rfl, fun _ _ h => h⟩

theorem trans (h : Grows group st st') (h' : Grows group st' st'') :
    Grows group st st'' := by
  refine ⟨h.entries.trans h'.entries, ?_⟩
  intro entry hentry hheld
  exact h'.held entry (h.entries.subset hentry) (h.held entry hentry hheld)

theorem append {now : UInt64} {fields : List (String × String)}
    (h : st.append now fields = some (id, st')) : Grows group st st' := by
  obtain ⟨-, hentries, -, -⟩ := append_eq_some h
  refine ⟨?_, ?_⟩
  · rw [hentries]
    exact List.prefix_append _ _
  · intro entry _ hheld
    rw [custody_append_old h]
    exact hheld

theorem createGroup (hnone : st.groups.lookup group = none) :
    Grows group st (st.createGroup group) := by
  refine ⟨List.prefix_rfl, ?_⟩
  intro entry hentry hheld
  rw [custody_createGroup hnone hentry]
  exact hheld

theorem ack (htidy : st.Tidy group) (hg : st.groups.lookup group = some g)
    (hid : id ∈ g.pending) :
    Grows group st (st.setGroup group (g.ack id)) := by
  refine ⟨List.prefix_rfl, ?_⟩
  intro entry _ hheld
  by_cases hne : entry.id = id
  · rw [hne, custody_ack_self htidy hg hid]
    simp
  · rw [custody_ack_other hg hne]
    exact hheld

theorem deliver {entry : Entry} {consumer : String} {now : UInt64}
    (hg : st.groups.lookup group = some g)
    (hnext : st.nextUnread g = some entry) :
    Grows group st (st.setGroup group (g.deliver entry.id consumer now)) := by
  refine ⟨List.prefix_rfl, ?_⟩
  intro other hother hheld
  by_cases hne : other.id = entry.id
  · rw [hne, custody_deliver_self]
    simp
  · rw [custody_deliver_other hg hnext hother hne]
    exact hheld

theorem reassign {consumer : String} {now : UInt64} {held : Delivery}
    (hg : st.groups.lookup group = some g) (hid : id ∈ g.pending) :
    Grows group st
      (st.setGroup group (g.reassign id consumer now held)) := by
  refine ⟨List.prefix_rfl, ?_⟩
  intro entry _ hheld
  rw [custody_reassign hg hid]
  exact hheld

end Grows

end Stream

end Redis
