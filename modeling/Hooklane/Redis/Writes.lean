import Hooklane.Redis.Keyspace
import Mathlib.Logic.Relation

/-!
# What a script may write

A script is observed through the fields of its hashes, the entries of its
streams and the scores of its sorted sets.  `Script.Writes P` states that every
write of the script satisfies `P`, whatever the keyspace and whichever way the
script ends; an observation that no such write changes is then the same before
and after.
-/

namespace Redis

open Relation

variable {κ : Type}

/-- A field of the hash under a key. -/
def fieldAt (db : Keyspace κ) (key : κ) (field : String) : Option String :=
  match db key with
  | some (.hash h) => h.lookup field
  | _ => none

/-- The entries of the stream under a key. -/
def entriesAt (db : Keyspace κ) (key : κ) : List Entry :=
  match db key with
  | some (.stream st) => st.entries
  | _ => []

/-- The score of a member of the sorted set under a key. -/
def scoreAt (db : Keyspace κ) (key : κ) (member : String) : Option Score :=
  match db key with
  | some (.zset z) => z.lookup member
  | _ => none

/-- One write; the id of an appended entry is the server's choice. -/
inductive Write (κ : Type) where
  | hset (key : κ) (field text : String)
  | hdel (key : κ) (field : String)
  | append (key : κ) (fields : List (String × String))
  | regroup (key : κ)
  | zadd (key : κ) (score : Score) (member : String)
  | zrem (key : κ) (member : String)

namespace Write

def key : Write κ → κ
  | .hset key _ _ | .hdel key _ | .append key _ | .regroup key
  | .zadd key _ _ | .zrem key _ => key

/-- What the write does to its own key. -/
def Effect (db db' : Keyspace κ) : Write κ → Prop
  | .hset key field text => ∀ g, fieldAt db' key g =
      if g = field then some text else fieldAt db key g
  | .hdel key field => ∀ g, fieldAt db' key g =
      if g = field then none else fieldAt db key g
  | .append key fields =>
      ∃ id, entriesAt db' key = entriesAt db key ++ [⟨id, fields⟩]
  | .regroup key => entriesAt db' key = entriesAt db key
  | .zadd key score member => ∀ m, scoreAt db' key m =
      if m = member then some score else scoreAt db key m
  | .zrem key member => ∀ m, scoreAt db' key m =
      if m = member then none else scoreAt db key m

/-- One write changes its own key and nothing else. -/
structure Step (w : Write κ) (db db' : Keyspace κ) : Prop where
  effect : w.Effect db db'
  others : ∀ other, other ≠ w.key → db' other = db other

end Write

/-- Any number of writes satisfying `P`. -/
def Wrote (P : Write κ → Prop) : Keyspace κ → Keyspace κ → Prop :=
  ReflTransGen fun db db' => ∃ w, P w ∧ w.Step db db'

section Observations

variable {P : Write κ → Prop} {db db' : Keyspace κ} {key : κ}

theorem fieldAt_congr (h : db' key = db key) (field : String) :
    fieldAt db' key field = fieldAt db key field := by
  rw [fieldAt, fieldAt, h]

theorem entriesAt_congr (h : db' key = db key) :
    entriesAt db' key = entriesAt db key := by
  rw [entriesAt, entriesAt, h]

theorem scoreAt_congr (h : db' key = db key) (member : String) :
    scoreAt db' key member = scoreAt db key member := by
  rw [scoreAt, scoreAt, h]

/-- What every write of the kind keeps is kept. -/
theorem Wrote.invariant {I : Keyspace κ → Prop} (h : Wrote P db db')
    (hstep : ∀ w d d', P w → w.Step d d' → I d → I d') (hI : I db) :
    I db' := by
  induction h with
  | refl => exact hI
  | tail _ hlast ih =>
      obtain ⟨w, hw, hwstep⟩ := hlast
      exact hstep w _ _ hw hwstep ih

/-- A key that is never written to. -/
theorem Wrote.untouched (h : Wrote P db db') (hP : ∀ w, P w → w.key ≠ key) :
    db' key = db key :=
  h.invariant (I := fun d => d key = db key)
    (fun w _ _ hw hstep hd => (hstep.others _ (hP w hw).symm).trans hd) rfl

/-- A hash field keeps its text or takes one that was written. -/
theorem Wrote.fieldAt_cases {field : String} (h : Wrote P db db')
    (hkind : ∀ w, P w → w.key = key →
      (∃ g text, w = .hset key g text) ∨ ∃ g, w = .hdel key g) :
    fieldAt db' key field = fieldAt db key field ∨
      (∃ text, P (.hset key field text) ∧ fieldAt db' key field = some text) ∨
      P (.hdel key field) ∧ fieldAt db' key field = none := by
  refine h.invariant (I := fun d => fieldAt d key field = fieldAt db key field ∨
    (∃ text, P (.hset key field text) ∧ fieldAt d key field = some text) ∨
    P (.hdel key field) ∧ fieldAt d key field = none) ?_ (Or.inl rfl)
  intro w d d' hw hstep hd
  by_cases hkey : w.key = key
  · rcases hkind w hw hkey with ⟨g, text, rfl⟩ | ⟨g, rfl⟩
    · have heffect := hstep.effect field
      by_cases hg : field = g
      · rw [if_pos hg] at heffect
        exact Or.inr (Or.inl ⟨text, hg ▸ hw, heffect⟩)
      · rw [if_neg hg] at heffect
        rw [heffect]
        exact hd
    · have heffect := hstep.effect field
      by_cases hg : field = g
      · rw [if_pos hg] at heffect
        exact Or.inr (Or.inr ⟨hg ▸ hw, heffect⟩)
      · rw [if_neg hg] at heffect
        rw [heffect]
        exact hd
  · rw [fieldAt_congr (hstep.others _ (Ne.symm hkey))]
    exact hd

/-- A stream to which nothing is appended. -/
theorem Wrote.entriesAt (h : Wrote P db db')
    (hkind : ∀ w, P w → w.key = key → w = .regroup key) :
    entriesAt db' key = entriesAt db key := by
  refine h.invariant
    (I := fun d => Redis.entriesAt d key = Redis.entriesAt db key) ?_ rfl
  intro w d d' hw hstep hd
  by_cases hkey : w.key = key
  · obtain rfl := hkind w hw hkey
    exact Eq.trans hstep.effect hd
  · rw [entriesAt_congr (hstep.others _ (Ne.symm hkey))]
    exact hd

/-- A member keeps its score, takes one that was written, or is removed. -/
theorem Wrote.scoreAt_cases {member : String} (h : Wrote P db db')
    (hkind : ∀ w, P w → w.key = key →
      (∃ score m, w = .zadd key score m) ∨ ∃ m, w = .zrem key m) :
    scoreAt db' key member = scoreAt db key member ∨
      (∃ score, P (.zadd key score member) ∧
        scoreAt db' key member = some score) ∨
      scoreAt db' key member = none := by
  refine h.invariant (I := fun d =>
    scoreAt d key member = scoreAt db key member ∨
    (∃ score, P (.zadd key score member) ∧
      scoreAt d key member = some score) ∨
    scoreAt d key member = none) ?_ (Or.inl rfl)
  intro w d d' hw hstep hd
  by_cases hkey : w.key = key
  · rcases hkind w hw hkey with ⟨score, m, rfl⟩ | ⟨m, rfl⟩ <;>
    · have heffect := hstep.effect member
      split at heffect
      · next hm =>
        subst hm
        first
        | exact Or.inr (Or.inl ⟨score, hw, heffect⟩)
        | exact Or.inr (Or.inr heffect)
      · rw [heffect]
        exact hd
  · rw [scoreAt_congr (hstep.others _ (Ne.symm hkey))]
    exact hd

end Observations

namespace Script

variable {α β : Type} {P Q : Write κ → Prop} {m : Script κ α}

/-- Every write of the script satisfies `P` when it starts from `db`. -/
def WritesFrom (P : Write κ → Prop) (db : Keyspace κ) (m : Script κ α) : Prop :=
  Wrote P db (m db).2

/-- Every write of the script satisfies `P`. -/
def Writes (P : Write κ → Prop) (m : Script κ α) : Prop :=
  ∀ db, m.WritesFrom P db

theorem ReadOnly.writes (h : m.ReadOnly) : m.Writes P := fun db => by
  rw [WritesFrom, h db]
  exact .refl

/-- The script keeps `I`, whichever way it ends. -/
def Keeps (I : Keyspace κ → Prop) (m : Script κ α) : Prop :=
  ∀ db, I db → I (m db).2

theorem Writes.keeps {I : Keyspace κ → Prop} (h : m.Writes P)
    (hstep : ∀ w d d', P w → w.Step d d' → I d → I d') : m.Keeps I :=
  fun db => (h db).invariant hstep

theorem ReadOnly.keeps {I : Keyspace κ → Prop} (h : m.ReadOnly) :
    m.Keeps I := fun db hI => (h db).symm ▸ hI

theorem keeps_ite {I : Keyspace κ → Prop} {c : Prop} [Decidable c]
    {m m' : Script κ α} (hm : m.Keeps I) (hm' : m'.Keeps I) :
    (if c then m else m').Keeps I := by
  split
  · exact hm
  · exact hm'

theorem Keeps.bind {I : Keyspace κ → Prop} {f : α → Script κ β}
    (hm : m.Keeps I) (hf : ∀ a, (f a).Keeps I) : (m >>= f).Keeps I := by
  intro db hI
  have hfirst := hm db hI
  rw [bind_apply]
  split
  · next a d hrun =>
    rw [hrun] at hfirst
    exact hf a d hfirst
  · next message d hrun =>
    rw [hrun] at hfirst
    exact hfirst

theorem writes_pure (a : α) : (Pure.pure a : Script κ α).Writes P :=
  fun _ => .refl

theorem writes_fail (message : String) : (fail message : Script κ α).Writes P :=
  fun _ => .refl

theorem writesFrom_ite {c : Prop} [Decidable c] {m m' : Script κ α}
    {db : Keyspace κ} (hm : c → m.WritesFrom P db)
    (hm' : ¬c → m'.WritesFrom P db) :
    (if c then m else m').WritesFrom P db := by
  split
  · next hc => exact hm hc
  · next hc => exact hm' hc

theorem Writes.bind {f : α → Script κ β} (hm : m.Writes P)
    (hf : ∀ a, (f a).Writes P) : (m >>= f).Writes P := by
  intro db
  have hfirst := hm db
  rw [WritesFrom] at hfirst ⊢
  rw [bind_apply]
  rcases hrun : m db with ⟨r, db'⟩
  rw [hrun] at hfirst
  cases r with
  | ok a => exact hfirst.trans (hf a db')
  | error e => exact hfirst

end Script

section Reads

open Script

variable {β : Type} {P : Write κ → Prop} {db : Keyspace κ} {key : κ}

theorem writes_typeOf : (typeOf key).Writes P :=
  fun _ => .refl

/-- A hash is read before it is written. -/
theorem wrote_readHash {f : Option Hash → Script κ β}
    (hf : ∀ h, (∀ field, fieldAt db key field =
      h.bind fun h : Hash => h.lookup field) → (f h).WritesFrom P db) :
    (readHash key >>= f).WritesFrom P db := by
  rw [WritesFrom, bind_apply, readHash]
  cases hv : db key with
  | none => exact hf none fun field => by rw [fieldAt, hv]; rfl
  | some v =>
      cases v with
      | hash h => exact hf (some h) fun field => by rw [fieldAt, hv]; rfl
      | string | list | set | zset | stream => exact .refl

theorem wrote_readZSet {f : Option ZSet → Script κ β}
    (hf : ∀ z, (∀ m, scoreAt db key m = z.bind fun z : ZSet => z.lookup m) →
      (f z).WritesFrom P db) : (readZSet key >>= f).WritesFrom P db := by
  rw [WritesFrom, bind_apply, readZSet]
  cases hv : db key with
  | none => exact hf none fun m => by rw [scoreAt, hv]; rfl
  | some v =>
      cases v with
      | zset z => exact hf (some z) fun m => by rw [scoreAt, hv]; rfl
      | string | list | set | hash | stream => exact .refl

theorem wrote_readStream {f : Option Stream → Script κ β}
    (hf : ∀ st, entriesAt db key = (st.getD .empty).entries →
      (f st).WritesFrom P db) : (readStream key >>= f).WritesFrom P db := by
  rw [WritesFrom, bind_apply, readStream]
  cases hv : db key with
  | none => exact hf none (by rw [entriesAt, hv]; rfl)
  | some v =>
      cases v with
      | stream st => exact hf (some st) (by rw [entriesAt, hv]; rfl)
      | string | list | set | hash | zset => exact .refl

theorem wrote_readId {text : String} {f : StreamId → Script κ β}
    (hf : ∀ id, (f id).WritesFrom P db) :
    (readId text >>= f).WritesFrom P db := by
  rw [WritesFrom, bind_apply, readId]
  cases StreamId.parse text with
  | none => exact .refl
  | some id => exact hf id

theorem wrote_readGroup {group : String} {f : Stream × Group → Script κ β}
    (hf : ∀ st g, entriesAt db key = st.entries →
      (f (st, g)).WritesFrom P db) :
    (readGroup key group >>= f).WritesFrom P db := by
  rw [WritesFrom]
  cases hv : db key with
  | none =>
      simpa [bind_apply, readGroup, readStream, hv] using .refl
  | some v =>
      cases v with
      | stream st =>
          cases hg : st.groups.lookup group with
          | none => simpa [bind_apply, readGroup, readStream, hv, hg] using .refl
          | some g =>
              have hrun : Wrote P db (f (st, g) db).2 :=
                hf st g (by rw [entriesAt, hv])
              simpa [bind_apply, readGroup, readStream, hv, hg] using hrun
      | string | list | set | hash | zset =>
          simpa [bind_apply, readGroup, readStream, hv] using .refl

end Reads

section Commands

open Script

variable [DecidableEq κ] {P : Write κ → Prop} {key : κ} {db : Keyspace κ}

omit [DecidableEq κ] in
theorem writes_hget (field : String) : (hget key field).Writes P :=
  ((readOnly_readHash key).bind fun _ => readOnly_pure _).writes

theorem wrote_update {v : Option Value} (w : Write κ) (hw : P w)
    (h : w.Effect db (Function.update db w.key v)) :
    Wrote P db (Function.update db w.key v) :=
  .single ⟨w, hw, h, fun _ hne => Function.update_of_ne hne _ _⟩

@[simp]
theorem fieldAt_update_hash (h : Hash) (field : String) :
    fieldAt (Function.update db key (some (.hash h))) key field =
      h.lookup field := by
  rw [fieldAt, Function.update_self]

@[simp]
theorem entriesAt_update_stream (st : Stream) :
    entriesAt (Function.update db key (some (.stream st))) key =
      st.entries := by
  rw [entriesAt, Function.update_self]

@[simp]
theorem scoreAt_update_zset (z : ZSet) (m : String) :
    scoreAt (Function.update db key (some (.zset z))) key m = z.lookup m := by
  rw [scoreAt, Function.update_self]

/-- One field is written into a hash that is read as `h`. -/
theorem wrote_insert {h : Hash} {field text : String}
    (hh : ∀ g, fieldAt db key g = h.lookup g)
    (hP : P (.hset key field text)) :
    Wrote P db (Function.update db key
      (some (.hash (h.insert field text)))) := by
  refine wrote_update (.hset key field text) hP fun g => ?_
  rw [Write.key, fieldAt_update_hash]
  split
  · next hg => rw [hg, AList.lookup_insert]
  · next hg => rw [AList.lookup_insert_ne hg, hh]

theorem wrote_setAll {pairs : List (String × String)} (hpairs : pairs ≠ [])
    {h : Hash} (hh : ∀ g, fieldAt db key g = h.lookup g)
    (hP : ∀ pair ∈ pairs, P (.hset key pair.1 pair.2)) :
    Wrote P db (Function.update db key (some (.hash (h.setAll pairs)))) := by
  induction pairs generalizing h db with
  | nil => exact absurd rfl hpairs
  | cons pair rest ih =>
      have hfirst := wrote_insert hh (hP pair List.mem_cons_self)
      by_cases hrest : rest = []
      · subst hrest
        exact hfirst
      · have hread : ∀ g, fieldAt (Function.update db key
            (some (.hash (h.insert pair.1 pair.2)))) key g =
              (h.insert pair.1 pair.2).lookup g :=
          fun g => fieldAt_update_hash _ g
        have hlater := ih hrest hread
          fun p hp => hP p (List.mem_cons_of_mem _ hp)
        rw [Function.update_idem] at hlater
        exact hfirst.trans hlater

theorem writes_hset {pairs : List (String × String)} (hpairs : pairs ≠ [])
    (hP : ∀ pair ∈ pairs, P (.hset key pair.1 pair.2)) :
    (hset key pairs).Writes P := fun db =>
  wrote_readHash fun h hh => by
    refine wrote_setAll hpairs (fun g => ?_) hP
    rw [hh g]
    cases h <;> rfl

theorem writes_hincrby {field : String} {delta : ℤ}
    (hP : ∀ text, P (.hset key field text)) :
    (hincrby key field delta).Writes P := fun db =>
  wrote_readHash fun h hh => by
    have hread : ∀ g, fieldAt db key g = (h.getD ∅).lookup g := fun g => by
      rw [hh g]
      cases h <;> rfl
    dsimp only
    split
    · exact wrote_insert hread (hP _)
    · split
      · exact .refl
      · split
        · exact wrote_insert hread (hP _)
        · exact .refl

theorem writes_hdel {field : String} (hP : P (.hdel key field)) :
    (hdel key field).Writes P := fun db =>
  wrote_readHash fun h hh => by
    cases h with
    | none => exact .refl
    | some h =>
        have herase : ∀ g, (h.erase field).lookup g =
            if g = field then none else fieldAt db key g := by
          intro g
          split
          · next hg => rw [hg, AList.lookup_erase]
          · next hg => rw [AList.lookup_erase_ne hg, hh g]; rfl
        refine writesFrom_ite (fun hempty => ?_) fun _ => ?_
        · refine wrote_update (.hdel key field) hP fun g => ?_
          rw [← herase g]
          have hnone : (h.erase field).lookup g = none := by
            rw [AList.lookup_eq_none, AList.mem_keys, hempty]
            exact List.not_mem_nil
          rw [hnone, Write.key, fieldAt, Function.update_self]
        · refine wrote_update (.hdel key field) hP fun g => ?_
          rw [← herase g, Write.key, fieldAt_update_hash]

theorem writes_zadd {score : Score} {m : String}
    (hP : P (.zadd key score m)) : (zadd key score m).Writes P := fun db =>
  wrote_readZSet fun z hz => by
    refine wrote_update (.zadd key score m) hP fun m' => ?_
    rw [Write.key, scoreAt_update_zset]
    split
    · next hm => rw [hm, AList.lookup_insert]
    · next hm =>
      rw [AList.lookup_insert_ne hm, hz m']
      cases z <;> rfl

theorem writes_zrem {m : String} (hP : P (.zrem key m)) :
    (zrem key m).Writes P := fun db =>
  wrote_readZSet fun z hz => by
    cases z with
    | none => exact .refl
    | some z =>
        have herase : ∀ m', (z.erase m).lookup m' =
            if m' = m then none else scoreAt db key m' := by
          intro m'
          split
          · next hm => rw [hm, AList.lookup_erase]
          · next hm => rw [AList.lookup_erase_ne hm, hz m']; rfl
        refine writesFrom_ite (fun hempty => ?_) fun _ => ?_
        · refine wrote_update (.zrem key m) hP fun m' => ?_
          rw [← herase m']
          have hnone : (z.erase m).lookup m' = none := by
            rw [AList.lookup_eq_none, AList.mem_keys, hempty]
            exact List.not_mem_nil
          rw [hnone, Write.key, scoreAt, Function.update_self]
        · refine wrote_update (.zrem key m) hP fun m' => ?_
          rw [← herase m', Write.key, scoreAt_update_zset]

theorem writes_xadd {now : UInt64} {fields : List (String × String)}
    (hP : P (.append key fields)) : (xadd now key fields).Writes P :=
  fun db => wrote_readStream fun st hst => by
    split
    · exact .refl
    · next id st' happend =>
      refine wrote_update (.append key fields) hP ⟨id, ?_⟩
      rw [Write.key, entriesAt_update_stream,
        (Stream.append_eq_some happend).2.1, hst]

/-- A stream whose entries stay is written back. -/
theorem wrote_regroup {st : Stream} (hst : entriesAt db key = st.entries)
    (hP : P (.regroup key)) :
    Wrote P db (Function.update db key (some (.stream st))) := by
  refine wrote_update (.regroup key) hP ?_
  rw [Write.Effect, Write.key, entriesAt_update_stream, hst]

theorem writes_xack {group text : String} (hP : P (.regroup key)) :
    (xack key group text).Writes P := fun db =>
  wrote_readStream fun st hst => wrote_readId fun id => by
    cases st with
    | none => exact .refl
    | some st =>
        dsimp only
        split
        · exact .refl
        · split
          · exact wrote_regroup hst hP
          · exact .refl

theorem writes_xclaim {now : UInt64} {group consumer text : String}
    {minIdle : ℕ} (hP : P (.regroup key)) :
    (xclaim now key group consumer minIdle text).Writes P := fun db =>
  wrote_readGroup fun st g hst => wrote_readId fun id => by
    split
    · exact .refl
    · split
      · exact wrote_regroup hst hP
      · split
        · exact wrote_regroup hst hP
        · exact .refl

theorem writes_xreadgroup {now : UInt64} {group consumer : String}
    (hP : P (.regroup key)) : (xreadgroup now key group consumer).Writes P :=
  fun db => wrote_readGroup fun st g hst => by
    dsimp only
    split
    · exact .refl
    · exact wrote_regroup hst hP

theorem writes_xgroupCreate {group : String} (hP : P (.regroup key)) :
    (xgroupCreate key group).Writes P := fun db =>
  wrote_readStream fun st hst => by
    split
    · exact .refl
    · exact wrote_regroup hst hP

end Commands

end Redis
