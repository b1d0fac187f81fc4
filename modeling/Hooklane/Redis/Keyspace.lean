import Hooklane.Redis.Stream
import Mathlib.Algebra.Order.Field.Rat
import Mathlib.Data.Rat.Cast.Defs
import Mathlib.Order.WithBotTop
import Mathlib.Data.List.Sort

/-!
# The keyspace, commands and scripts

A keyspace maps keys to typed values.  A script is a sequence of commands that
runs alone: it either returns a reply or ends in an error, and an error does
not undo what the script wrote before it.  Sorted-set scores are extended
rationals, which contain every score a double can hold.

Commands follow the server's documented behaviour, including the errors they
raise on a key of another type, on a missing consumer group and on a malformed
id.
-/

namespace Redis

abbrev Hash := AList fun _ : String => String

abbrev Score := WithBot (WithTop ℚ)

abbrev ZSet := AList fun _ : String => Score

inductive Value where
  | string (text : String)
  | list (items : List String)
  | set (members : List String)
  | hash (fields : Hash)
  | zset (members : ZSet)
  | stream (value : Stream)

/-- The answer of `TYPE`. -/
inductive Kind where
  | none
  | string
  | list
  | set
  | zset
  | hash
  | stream
deriving DecidableEq, Repr

def Value.kind : Value → Kind
  | .string _ => .string
  | .list _ => .list
  | .set _ => .set
  | .hash _ => .hash
  | .zset _ => .zset
  | .stream _ => .stream

abbrev Keyspace (κ : Type) := κ → Option Value

/-- A script: a reply or an error, and the keyspace it leaves behind. -/
def Script (κ α : Type) := Keyspace κ → Except String α × Keyspace κ

namespace Script

variable {κ α β : Type}

def pure (a : α) : Script κ α := fun db => (.ok a, db)

def bind (m : Script κ α) (f : α → Script κ β) : Script κ β := fun db =>
  match m db with
  | (.ok a, db') => f a db'
  | (.error e, db') => (.error e, db')

instance : Monad (Script κ) where
  pure := Script.pure
  bind := Script.bind

/-- `return redis.error_reply(...)`, or a command that raises. -/
def fail (message : String) : Script κ α := fun db => (.error message, db)

@[simp]
theorem pure_apply (a : α) (db : Keyspace κ) :
    (Pure.pure a : Script κ α) db = (.ok a, db) := rfl

@[simp]
theorem fail_apply (message : String) (db : Keyspace κ) :
    (fail message : Script κ α) db = (.error message, db) := rfl

theorem bind_apply (m : Script κ α) (f : α → Script κ β) (db : Keyspace κ) :
    (m >>= f) db =
      match m db with
      | (.ok a, db') => f a db'
      | (.error e, db') => (.error e, db') := rfl

theorem bind_ok {m : Script κ α} {a : α} {db d : Keyspace κ}
    (h : m db = (.ok a, d)) (f : α → Script κ β) :
    (m >>= f) db = f a d := by
  rw [bind_apply, h]

theorem bind_error {m : Script κ α} {e : String} {db d : Keyspace κ}
    (h : m db = (.error e, d)) (f : α → Script κ β) :
    (m >>= f) db = (.error e, d) := by
  rw [bind_apply, h]

/-- A script that returns has come through each of its parts. -/
theorem bind_returns {m : Script κ α} {f : α → Script κ β} {db : Keyspace κ}
    {b : β} (h : ((m >>= f) db).1 = .ok b) :
    ∃ a, (m db).1 = .ok a ∧ (f a (m db).2).1 = .ok b := by
  rw [bind_apply] at h
  rcases hrun : m db with ⟨r, db'⟩
  rw [hrun] at h
  cases r with
  | ok a => exact ⟨a, rfl, h⟩
  | error e => cases h

@[simp]
theorem ite_apply (c : Prop) [Decidable c] (m m' : Script κ α)
    (db : Keyspace κ) :
    (if c then m else m') db = if c then m db else m' db := by
  split <;> rfl

/-- The script writes nothing. -/
def ReadOnly (m : Script κ α) : Prop := ∀ db, (m db).2 = db

theorem readOnly_pure (a : α) : ReadOnly (Pure.pure a : Script κ α) :=
  fun _ => rfl

theorem readOnly_fail (message : String) :
    ReadOnly (fail message : Script κ α) :=
  fun _ => rfl

theorem ReadOnly.bind {m : Script κ α} {f : α → Script κ β}
    (hm : m.ReadOnly) (hf : ∀ a, (f a).ReadOnly) : (m >>= f).ReadOnly := by
  intro db
  have hdb := hm db
  rw [bind_apply]
  rcases hrun : m db with ⟨r, db'⟩
  rw [hrun] at hdb
  cases r with
  | ok a => exact (hf a db').trans hdb
  | error e => exact hdb

end Script

section Commands

variable {κ : Type} [DecidableEq κ]

def wrongType : String :=
  "WRONGTYPE Operation against a key holding the wrong kind of value"

def noGroup : String :=
  "NOGROUP No such key or consumer group"

def busyGroup : String := "BUSYGROUP Consumer Group name already exists"

def invalidId : String :=
  "ERR Invalid stream ID specified as stream command argument"

def exhausted : String :=
  "ERR The stream has exhausted the last possible ID, unable to add more items"

def notInteger : String := "ERR hash value is not an integer"

def wouldOverflow : String := "ERR increment or decrement would overflow"

/-- Store a value under a key. -/
def put (key : κ) (value : Value) : Script κ Unit := fun db =>
  (.ok (), Function.update db key (some value))

/-- `TYPE`. -/
def typeOf (key : κ) : Script κ Kind := fun db =>
  (.ok ((db key).elim .none Value.kind), db)

/-- `EXISTS`. -/
def existsKey (key : κ) : Script κ Bool := fun db =>
  (.ok (db key).isSome, db)

def readHash (key : κ) : Script κ (Option Hash) := fun db =>
  match db key with
  | none => (.ok none, db)
  | some (.hash h) => (.ok (some h), db)
  | some _ => (.error wrongType, db)

def readZSet (key : κ) : Script κ (Option ZSet) := fun db =>
  match db key with
  | none => (.ok none, db)
  | some (.zset z) => (.ok (some z), db)
  | some _ => (.error wrongType, db)

def readStream (key : κ) : Script κ (Option Stream) := fun db =>
  match db key with
  | none => (.ok none, db)
  | some (.stream st) => (.ok (some st), db)
  | some _ => (.error wrongType, db)

/-- `HGET key field`. -/
def hget (key : κ) (field : String) : Script κ (Option String) := do
  let h ← readHash key
  return h.bind fun h => h.lookup field

/-- `HGETALL key`. -/
def hgetall (key : κ) : Script κ Hash := do
  let h ← readHash key
  return h.getD ∅

def Hash.setAll (h : Hash) (pairs : List (String × String)) : Hash :=
  pairs.foldl (fun h pair => h.insert pair.1 pair.2) h

/-- `HSET key field value ...`. -/
def hset (key : κ) (pairs : List (String × String)) : Script κ Unit := do
  let h ← readHash key
  put key (.hash (Hash.setAll (h.getD ∅) pairs))

/-- `HINCRBY key field delta`. -/
def hincrby (key : κ) (field : String) (delta : ℤ) : Script κ ℤ := do
  let h ← readHash key
  let fields := h.getD ∅
  match fields.lookup field with
  | none =>
      put key (.hash (fields.insert field (toString delta)))
      return delta
  | some text =>
      match string2ll text with
      | none => Script.fail notInteger
      | some value =>
          if -int64Bound ≤ value + delta ∧ value + delta < int64Bound then do
            put key (.hash (fields.insert field (toString (value + delta))))
            return value + delta
          else Script.fail wouldOverflow

/-- `HDEL key field`; a hash left empty is removed. -/
def hdel (key : κ) (field : String) : Script κ Unit := do
  match ← readHash key with
  | none => return ()
  | some h =>
      let h' := h.erase field
      if h'.keys = [] then
        fun db => (.ok (), Function.update db key none)
      else put key (.hash h')

/-- `ZADD key score member`. -/
def zadd (key : κ) (score : Score) (member : String) : Script κ Unit := do
  let z ← readZSet key
  put key (.zset ((z.getD ∅).insert member score))

/-- `ZREM key member`; a sorted set left empty is removed. -/
def zrem (key : κ) (member : String) : Script κ Unit := do
  match ← readZSet key with
  | none => return ()
  | some z =>
      let z' := z.erase member
      if z'.keys = [] then
        fun db => (.ok (), Function.update db key none)
      else put key (.zset z')

/-- Members with a score of at most `max`, in (score, member) order. -/
def ZSet.upTo (z : ZSet) (max : Score) : List String :=
  ((z.entries.filter fun m => decide (m.2 ≤ max)).insertionSort
    fun a b => a.2 < b.2 ∨ a.2 = b.2 ∧ a.1 ≤ b.1).map Sigma.fst

/-- `ZRANGEBYSCORE key -inf max LIMIT 0 1`. -/
def zrangebyscore (key : κ) (max : Score) : Script κ (List String) := do
  let z ← readZSet key
  return ((z.getD ∅).upTo max).take 1

/-- `XADD key * field value ...`. -/
def xadd (now : UInt64) (key : κ) (fields : List (String × String)) :
    Script κ String := do
  let st ← readStream key
  match (st.getD .empty).append now fields with
  | none => Script.fail exhausted
  | some (id, st') => do
      put key (.stream st')
      return id.text

def readId (text : String) : Script κ StreamId := fun db =>
  match StreamId.parse text with
  | some id => (.ok id, db)
  | none => (.error invalidId, db)

/-- `XACK key group id`: the number of entries acknowledged. -/
def xack (key : κ) (group idText : String) : Script κ ℕ := do
  let st ← readStream key
  let id ← readId idText
  match st with
  | none => return 0
  | some st =>
      match st.groups.lookup group with
      | none => return 0
      | some g =>
          if id ∈ g.pending then do
            put key (.stream (st.setGroup group (g.ack id)))
            return 1
          else return 0

def readGroup (key : κ) (group : String) : Script κ (Stream × Group) := do
  match ← readStream key with
  | none => Script.fail noGroup
  | some st =>
      match st.groups.lookup group with
      | none => Script.fail noGroup
      | some g => return (st, g)

/-- `XPENDING key group id id 1`: the ids it lists. -/
def xpending (key : κ) (group idText : String) : Script κ (List String) := do
  let id ← readId idText
  let (_, g) ← readGroup key group
  return if id ∈ g.pending then [id.text] else []

/-- `XPENDING key group IDLE minIdle - + count`: the ids it lists. -/
def xpendingIdle (now : UInt64) (key : κ) (group : String)
    (minIdle count : ℕ) : Script κ (List String) := do
  let (_, g) ← readGroup key group
  return (g.idlePending now minIdle count).map StreamId.text

/-- `XRANGE key id id`: the entry with that id, if it exists. -/
def xrange (key : κ) (idText : String) :
    Script κ (List (String × List (String × String))) := do
  let st ← readStream key
  let id ← readId idText
  return ((st.bind fun st => st.find id).map
    fun entry => (entry.id.text, entry.fields)).toList

/-- `XCLAIM key group consumer minIdle id`: the ids it claims.  A pending id
whose entry no longer exists is dropped from the pending list. -/
def xclaim (now : UInt64) (key : κ) (group consumer : String) (minIdle : ℕ)
    (idText : String) : Script κ (List String) := do
  let (st, g) ← readGroup key group
  let id ← readId idText
  match g.pending.lookup id with
  | none => return []
  | some held =>
      if st.find id = none then do
        put key (.stream (st.setGroup group (g.ack id)))
        return []
      else if minIdle ≤ Group.idle held now then do
        put key (.stream (st.setGroup group (g.reassign id consumer now held)))
        return [id.text]
      else return []

/-- `XREADGROUP GROUP group consumer COUNT 1 STREAMS key >`. -/
def xreadgroup (now : UInt64) (key : κ) (group consumer : String) :
    Script κ (Option (String × List (String × String))) := do
  let (st, g) ← readGroup key group
  match st.nextUnread g with
  | none => return none
  | some entry => do
      put key (.stream (st.setGroup group (g.deliver entry.id consumer now)))
      return some (entry.id.text, entry.fields)

/-- `XGROUP CREATE key group 0-0 MKSTREAM`. -/
def xgroupCreate (key : κ) (group : String) : Script κ Unit := do
  let st ← readStream key
  match (st.getD .empty).groups.lookup group with
  | some _ => Script.fail busyGroup
  | none => put key (.stream ((st.getD .empty).createGroup group))

/-- One row of `XINFO GROUPS`.  The lag is the number of entries after the
group's cursor. -/
structure GroupInfo where
  name : String
  pending : ℕ
  lag : ℕ
  lastDeliveredId : String

/-- `XINFO GROUPS key`. -/
def xinfoGroups (key : κ) : Script κ (List GroupInfo) := do
  match ← readStream key with
  | none => Script.fail "ERR no such key"
  | some st =>
      return st.groups.entries.map fun g =>
        { name := g.1
          pending := g.2.pending.keys.length
          lag := (st.entries.filter fun entry =>
            decide (g.2.lastDelivered < entry.id)).length
          lastDeliveredId := g.2.lastDelivered.text }

/-- `XLEN key`. -/
def xlen (key : κ) : Script κ ℕ := do
  let st ← readStream key
  return (st.getD .empty).entries.length

/-- `XRANGE key - + COUNT 1`: the id it lists. -/
def xrangeFirst (key : κ) : Script κ (Option String) := do
  let st ← readStream key
  return (st.getD .empty).entries.head?.map fun entry => entry.id.text

/-- `XRANGE key (after + COUNT 1`: the id it lists. -/
def xrangeAfter (key : κ) (after : String) : Script κ (Option String) := do
  let st ← readStream key
  let id ← readId after
  return ((st.getD .empty).entries.find? fun entry =>
    decide (id < entry.id)).map fun entry => entry.id.text

/-- `XPENDING key group - + 1`: the id it lists. -/
def xpendingFirst (key : κ) (group : String) : Script κ (Option String) := do
  let (_, g) ← readGroup key group
  return g.pendingIds.head?.map StreamId.text

section ReadOnly

open Script

omit [DecidableEq κ]

variable (key : κ)

theorem readOnly_readHash : (readHash key).ReadOnly := by
  intro db
  unfold readHash
  split <;> rfl

theorem readOnly_readStream : (readStream key).ReadOnly := by
  intro db
  unfold readStream
  split <;> rfl

theorem readOnly_readId (text : String) :
    (readId text : Script κ StreamId).ReadOnly := by
  intro db
  unfold readId
  split <;> rfl

theorem readOnly_readGroup (group : String) :
    (readGroup key group).ReadOnly := by
  refine (readOnly_readStream key).bind fun st => ?_
  cases st with
  | none => exact readOnly_fail _
  | some st =>
      dsimp only
      split
      · exact readOnly_fail _
      · exact readOnly_pure _

theorem readOnly_hgetall : (hgetall key).ReadOnly :=
  (readOnly_readHash key).bind fun _ => readOnly_pure _

theorem readOnly_xrange (text : String) : (xrange key text).ReadOnly :=
  (readOnly_readStream key).bind fun _ =>
    (readOnly_readId text).bind fun _ => readOnly_pure _

theorem readOnly_xinfoGroups : (xinfoGroups key).ReadOnly := by
  refine (readOnly_readStream key).bind fun st => ?_
  cases st with
  | none => exact readOnly_fail _
  | some st => exact readOnly_pure _

theorem readOnly_xlen : (xlen key).ReadOnly :=
  (readOnly_readStream key).bind fun _ => readOnly_pure _

theorem readOnly_xrangeFirst : (xrangeFirst key).ReadOnly :=
  (readOnly_readStream key).bind fun _ => readOnly_pure _

theorem readOnly_xrangeAfter (after : String) :
    (xrangeAfter key after).ReadOnly :=
  (readOnly_readStream key).bind fun _ =>
    (readOnly_readId after).bind fun _ => readOnly_pure _

theorem readOnly_xpendingFirst (group : String) :
    (xpendingFirst key group).ReadOnly :=
  (readOnly_readGroup key group).bind fun _ => readOnly_pure _

end ReadOnly

end Commands

end Redis
