import Hooklane.Queue.Representation

/-!
# Commands on a represented keyspace

The scripts read a handful of keys whose contents the representation fixes.
These lemmas evaluate each command on such a key, so that a script is run by
rewriting with them; nothing below unfolds a command again.
-/

namespace Hooklane

open Redis

variable {d : Store} {k : Key} {h : Hash} {st : Stream} {z : ZSet}

@[simp]
theorem setAll_nil (h : Hash) : Hash.setAll h [] = h := rfl

@[simp]
theorem setAll_cons (h : Hash) (p : String × String)
    (ps : List (String × String)) :
    Hash.setAll h (p :: ps) = Hash.setAll (h.insert p.1 p.2) ps := rfl

section Hashes

theorem typeOf_run (v : Value) (hv : d k = some v) :
    typeOf k d = (.ok v.kind, d) := by
  rw [typeOf, hv]
  rfl

theorem typeOf_absent (hv : d k = none) :
    typeOf k d = (.ok .none, d) := by
  rw [typeOf, hv]
  rfl

theorem hget_run (hkey : d k = some (.hash h)) (field : String) :
    hget k field d = (.ok (h.lookup field), d) := by
  simp [hget, readHash, hkey, Script.bind_apply]

theorem hset_run (hkey : d k = some (.hash h))
    (pairs : List (String × String)) :
    hset k pairs d =
      (.ok (), Function.update d k (some (.hash (Hash.setAll h pairs)))) := by
  simp [hset, readHash, hkey, Script.bind_apply, put]

theorem hset_absent (hkey : d k = none) (pairs : List (String × String)) :
    hset k pairs d =
      (.ok (), Function.update d k (some (.hash (Hash.setAll ∅ pairs)))) := by
  simp [hset, readHash, hkey, Script.bind_apply, put]

/-- `HDEL` of a field next to one that stays. -/
theorem hdel_run (hkey : d k = some (.hash h)) (field : String)
    {kept : String} (hkept : kept ∈ h) (hne : kept ≠ field) :
    hdel k field d =
      (.ok (), Function.update d k (some (.hash (h.erase field)))) := by
  have hmem : kept ∈ h.erase field := AList.mem_erase.mpr ⟨hne, hkept⟩
  have hkeys : (h.erase field).keys ≠ [] :=
    List.ne_nil_of_mem (AList.mem_keys.mpr hmem)
  rw [hdel, Script.bind_ok (a := some h) (d := d)]
  · exact congrFun (if_neg hkeys) d
  · rw [readHash, hkey]

/-- `HINCRBY` by one on a counter that holds a natural number: refused, with
nothing written, when the counter is full. -/
theorem hincrby_run (hkey : d k = some (.hash h)) {field : String} {n : ℕ}
    (hfield : h.lookup field = some (toString n))
    (hbound : (n : ℤ) < int64Bound) :
    hincrby k field 1 d =
      if (n : ℤ) + 1 < int64Bound then
        (.ok ((n : ℤ) + 1), Function.update d k
          (some (.hash (h.insert field (toString (n + 1))))))
      else (.error wouldOverflow, d) := by
  have hll : string2ll (toString n) = some (n : ℤ) := string2ll_natRepr hbound
  have hlow : -int64Bound ≤ (n : ℤ) + 1 := by
    unfold int64Bound
    omega
  have htext : toString ((n : ℤ) + 1) = toString (n + 1) := rfl
  rw [hincrby, Script.bind_ok (a := some h) (d := d)]
  · simp only [Option.getD_some, hfield, hll, hlow, true_and, htext]
    split <;> rfl
  · rw [readHash, hkey]

/-- `HINCRBY` by one on a counter with any content. -/
theorem hincrby_ok_iff (field : String) (hkey : d k = some (.hash h)) :
    (∃ n, (hincrby k field 1 d).1 = .ok n) ↔
      ∀ text, h.lookup field = some text →
        ∃ n, string2ll text = some n ∧ n + 1 < int64Bound := by
  have hread : readHash k d = (.ok (some h), d) := by rw [readHash, hkey]
  rw [hincrby, Script.bind_ok hread]
  dsimp only [Option.getD_some]
  cases hfield : h.lookup field with
  | none => exact ⟨fun _ => nofun, fun _ => ⟨1, rfl⟩⟩
  | some text =>
      cases hll : string2ll text with
      | none => simp [hll, Script.fail]
      | some n =>
          have hlow : -int64Bound ≤ n + 1 := by
            have := le_of_string2ll hll
            omega
          by_cases hhigh : n + 1 < int64Bound
          · simp [hll, hlow, hhigh, Script.bind_apply, put]
          · simp [hll, hhigh, Script.fail]

end Hashes

section Schedule

/-- `ZREM` on the retry schedule. -/
theorem zrem_run (hz : HoldsZSet (d .retries) z) (m : String) :
    ∃ v, zrem .retries m d = (.ok (), Function.update d .retries v) ∧
      HoldsZSet v (z.erase m) := by
  rcases hz with ⟨hnone, rfl⟩ | hsome
  · refine ⟨d .retries, ?_, Or.inl ⟨hnone, ?_⟩⟩
    · rw [Function.update_eq_self, zrem, Script.bind_ok (a := none) (d := d)]
      · rfl
      · rw [readZSet, hnone]
    · apply AList.ext
      rfl
  · have hread : readZSet .retries d = (.ok (some z), d) := by
      rw [readZSet, hsome]
    by_cases hkeys : (z.erase m).keys = []
    · refine ⟨none, ?_, Or.inl ⟨rfl, ?_⟩⟩
      · rw [zrem, Script.bind_ok hread]
        exact congrFun (if_pos hkeys) d
      · apply AList.ext
        exact List.map_eq_nil_iff.mp hkeys
    · refine ⟨some (.zset (z.erase m)), ?_, Or.inr rfl⟩
      rw [zrem, Script.bind_ok hread]
      exact congrFun (if_neg hkeys) d

/-- `ZADD` on the retry schedule. -/
theorem zadd_run (hz : HoldsZSet (d .retries) z) (score : Score)
    (m : String) :
    zadd .retries score m d = (.ok (),
      Function.update d .retries (some (.zset (z.insert m score)))) := by
  rcases hz with ⟨hnone, rfl⟩ | hsome
  · simp [zadd, readZSet, hnone, Script.bind_apply, put]
  · simp [zadd, readZSet, hsome, Script.bind_apply, put]

end Schedule

section Streams

variable {group : String} {g : Group} {id : StreamId}

/-- `XADD`: the stream is full, or the entry is appended. -/
theorem xadd_run (hst : HoldsStream (d k) st) (now : UInt64)
    (fields : Fields) :
    st.append now fields = none ∧ xadd now k fields d = (.error exhausted, d) ∨
    ∃ id st', st.append now fields = some (id, st') ∧
      xadd now k fields d =
        (.ok id.text, Function.update d k (some (.stream st'))) := by
  have hread : ∃ v, readStream k d = (.ok v, d) ∧ v.getD .empty = st := by
    rcases hst with ⟨hnone, rfl⟩ | hsome
    · exact ⟨none, by rw [readStream, hnone], rfl⟩
    · exact ⟨some st, by rw [readStream, hsome], rfl⟩
  obtain ⟨v, hv, hvst⟩ := hread
  rw [xadd, Script.bind_ok hv, hvst]
  cases happend : st.append now fields with
  | none => exact Or.inl ⟨rfl, rfl⟩
  | some added => exact Or.inr ⟨added.1, added.2, rfl, rfl⟩

/-- An append of unpacked fields fails before it writes, or it is an append. -/
theorem xaddUnpacked_run {key : Key} {db : Store} (hst : HoldsStream (db key) st)
    (now : UInt64) (fields : Fields) :
    (∃ message, (Unpackable fields → st.append now fields = none) ∧
      xaddUnpacked now key fields db = (.error message, db)) ∨
    ∃ id st', Unpackable fields ∧ st.append now fields = some (id, st') ∧
      xaddUnpacked now key fields db =
        (.ok id.text, Function.update db key (some (.stream st'))) := by
  unfold xaddUnpacked
  split
  · next hfits =>
    rcases xadd_run hst now fields with
      ⟨hnone, hfull⟩ | ⟨id, st', happend, hxadd⟩
    · exact Or.inl ⟨exhausted, fun _ => hnone, hfull⟩
    · exact Or.inr ⟨id, st', hfits, happend, hxadd⟩
  · next hlong =>
    exact Or.inl ⟨_, fun hfits => absurd hfits hlong, rfl⟩

theorem readId_run {text : String} (hid : StreamId.parse text = some id) :
    readId text d = (.ok id, d) := by
  rw [readId, hid]

theorem readStream_run (hst : d k = some (.stream st)) :
    readStream k d = (.ok (some st), d) := by
  rw [readStream, hst]

theorem xack_parsed (hst : d k = some (.stream st))
    (hg : st.groups.lookup group = some g) {text : String}
    (hid : StreamId.parse text = some id) :
    xack k group text d =
      if id ∈ g.pending then
        (.ok 1, Function.update d k
          (some (.stream (st.setGroup group (g.ack id)))))
      else (.ok 0, d) := by
  rw [xack, Script.bind_ok (readStream_run hst),
    Script.bind_ok (readId_run hid)]
  simp only [hg]
  split <;> rfl

theorem xack_run (hst : d k = some (.stream st))
    (hg : st.groups.lookup group = some g) (id : StreamId) :
    xack k group id.text d =
      if id ∈ g.pending then
        (.ok 1, Function.update d k
          (some (.stream (st.setGroup group (g.ack id)))))
      else (.ok 0, d) :=
  xack_parsed hst hg (StreamId.parse_text id)

theorem xack_absent (hst : d k = some (.stream st))
    (hg : st.groups.lookup group = none) (id : StreamId) :
    xack k group id.text d = (.ok 0, d) := by
  rw [xack, Script.bind_ok (readStream_run hst),
    Script.bind_ok (readId_run (StreamId.parse_text id))]
  simp only [hg]
  rfl

/-- `XACK` succeeds exactly on a pending entry. -/
theorem xack_cases (hst : d k = some (.stream st)) (group : String)
    (id : StreamId) :
    (∃ g, st.groups.lookup group = some g ∧ id ∈ g.pending ∧
      xack k group id.text d = (.ok 1, Function.update d k
        (some (.stream (st.setGroup group (g.ack id)))))) ∨
    st.custody group id ≠ .pending ∧
      xack k group id.text d = (.ok 0, d) := by
  cases hg : st.groups.lookup group with
  | none =>
      refine Or.inr ⟨?_, xack_absent hst hg id⟩
      rw [Stream.custody, hg]
      simp
  | some g =>
      by_cases hid : id ∈ g.pending
      · refine Or.inl ⟨g, rfl, hid, ?_⟩
        rw [xack_run hst hg, if_pos hid]
      · refine Or.inr ⟨?_, ?_⟩
        · rw [ne_eq, Stream.custody_eq_pending hg]
          exact hid
        · rw [xack_run hst hg, if_neg hid]

theorem readGroup_run (hst : d k = some (.stream st))
    (hg : st.groups.lookup group = some g) :
    readGroup k group d = (.ok (st, g), d) := by
  rw [readGroup, Script.bind_ok (readStream_run hst)]
  simp only [hg]
  rfl

theorem readGroup_absent (hst : HoldsStream (d k) st)
    (hg : st.groups.lookup group = none) :
    readGroup k group d = (.error noGroup, d) := by
  rcases hst with ⟨hnone, -⟩ | hsome
  · rw [readGroup, Script.bind_ok (a := none) (d := d)]
    · rfl
    · rw [readStream, hnone]
  · rw [readGroup, Script.bind_ok (readStream_run hsome)]
    simp only [hg]
    rfl

theorem xpending_parsed (hst : d k = some (.stream st))
    (hg : st.groups.lookup group = some g) {text : String}
    (hid : StreamId.parse text = some id) :
    xpending k group text d =
      (.ok (if id ∈ g.pending then [id.text] else []), d) := by
  rw [xpending, Script.bind_ok (readId_run hid),
    Script.bind_ok (readGroup_run hst hg)]
  rfl

theorem xpending_run (hst : d k = some (.stream st))
    (hg : st.groups.lookup group = some g) (id : StreamId) :
    xpending k group id.text d =
      (.ok (if id ∈ g.pending then [id.text] else []), d) :=
  xpending_parsed hst hg (StreamId.parse_text id)

/-- `XPENDING` without the group fails; with it, it lists a pending id. -/
theorem xpending_cases (hst : d k = some (.stream st)) (group : String)
    (id : StreamId) :
    xpending k group id.text d = (.error noGroup, d) ∨
    xpending k group id.text d = (.ok [], d) ∨
    ∃ g, st.groups.lookup group = some g ∧ id ∈ g.pending ∧
      xpending k group id.text d = (.ok [id.text], d) := by
  cases hg : st.groups.lookup group with
  | none =>
      left
      rw [xpending, Script.bind_ok (readId_run (StreamId.parse_text id)),
        Script.bind_error (readGroup_absent (Or.inr hst) hg)]
  | some g =>
      rw [xpending_run hst hg]
      by_cases hid : id ∈ g.pending
      · exact Or.inr (Or.inr ⟨g, rfl, hid, by rw [if_pos hid]⟩)
      · exact Or.inr (Or.inl (by rw [if_neg hid]))

theorem xrange_parsed (hst : d k = some (.stream st)) {text : String}
    (hid : StreamId.parse text = some id) :
    xrange k text d =
      (.ok ((st.find id).map fun entry =>
        (entry.id.text, entry.fields)).toList, d) := by
  rw [xrange, Script.bind_ok (readStream_run hst),
    Script.bind_ok (readId_run hid)]
  rfl

theorem xrange_run (hst : d k = some (.stream st)) (id : StreamId) :
    xrange k id.text d =
      (.ok ((st.find id).map fun entry =>
        (entry.id.text, entry.fields)).toList, d) :=
  xrange_parsed hst (StreamId.parse_text id)

end Streams

end Hooklane
