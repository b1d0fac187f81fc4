import Hooklane.Redis.Keyspace

/-!
# Scripts that fail without a write

The server keeps what a script wrote before its error, so a script is atomic
only if every check comes before the first write and nothing after it can
fail.  The rules below follow this order: reads may fail at any time, the first
write may fail while it has written nothing, and the rest must succeed.
-/

namespace Redis

namespace Script

variable {κ α β : Type} {m m' : Script κ α} {f : α → Script κ β}
  {db d : Keyspace κ}

/-- If the script fails on this keyspace, it leaves it as it was. -/
def FailsClean (m : Script κ α) (db : Keyspace κ) : Prop :=
  ∀ message, (m db).1 = .error message → (m db).2 = db

/-- The script ends in a reply on this keyspace. -/
def Succeeds (m : Script κ α) (db : Keyspace κ) : Prop :=
  ∃ a, (m db).1 = .ok a

theorem succeeds_of_run {a : α} (h : m db = (.ok a, d)) : m.Succeeds db :=
  ⟨a, by rw [h]⟩

theorem succeeds_pure (a : α) : (Pure.pure a : Script κ α).Succeeds db :=
  ⟨a, rfl⟩

theorem succeeds_bind {a : α} (h : m db = (.ok a, d))
    (hf : (f a).Succeeds d) : (m >>= f).Succeeds db := by
  rw [Succeeds, bind_ok h]
  exact hf

theorem Succeeds.failsClean (h : m.Succeeds db) : m.FailsClean db := by
  obtain ⟨a, ha⟩ := h
  intro message hmessage
  rw [ha] at hmessage
  cases hmessage

theorem ReadOnly.failsClean (h : m.ReadOnly) : m.FailsClean db :=
  fun _ _ => h db

theorem failsClean_fail (message : String) :
    (fail message : Script κ α).FailsClean db :=
  (readOnly_fail message).failsClean

theorem failsClean_ite {c : Prop} [Decidable c]
    (hm : c → m.FailsClean db) (hm' : ¬c → m'.FailsClean db) :
    (if c then m else m').FailsClean db := by
  split
  · next h => exact hm h
  · next h => exact hm' h

theorem readOnly_ite {c : Prop} [Decidable c] (hm : m.ReadOnly)
    (hm' : m'.ReadOnly) : (if c then m else m').ReadOnly := by
  split
  · exact hm
  · exact hm'

/-- A read may come before anything. -/
theorem ReadOnly.bind_failsClean (hm : m.ReadOnly)
    (hf : ∀ a, m db = (.ok a, db) → (f a).FailsClean db) :
    (m >>= f).FailsClean db := by
  have hdb := hm db
  rcases hrun : m db with ⟨r, d⟩
  rw [hrun] at hdb
  obtain rfl : d = db := hdb
  cases r with
  | ok a =>
      rw [FailsClean, bind_ok hrun]
      exact hf a hrun
  | error message =>
      rw [FailsClean, bind_error hrun]
      exact fun _ _ => rfl

/-- After a write the rest of the script must succeed. -/
theorem FailsClean.bind_succeeds (hm : m.FailsClean db)
    (hf : ∀ a d, m db = (.ok a, d) → (f a).Succeeds d) :
    (m >>= f).FailsClean db := by
  rcases hrun : m db with ⟨r, d⟩
  cases r with
  | ok a =>
      obtain ⟨b, hb⟩ := hf a d hrun
      intro message hmessage
      rw [bind_ok hrun, hb] at hmessage
      cases hmessage
  | error message =>
      have hd := hm message (by rw [hrun])
      rw [FailsClean, bind_error hrun]
      rw [hrun] at hd
      exact fun _ _ => hd

end Script

section Contents

variable {κ : Type} {db d : Keyspace κ}

/-- Two values of one key with the same contents; the order of a hash's fields
does not count. -/
def Alike : Option Value → Option Value → Prop
  | some (.hash h), some (.hash h') =>
      ∀ field, h.lookup field = h'.lookup field
  | v, v' => v = v'

theorem Alike.refl (v : Option Value) : Alike v v := by
  cases v with
  | none => rfl
  | some v => cases v <;> first | rfl | exact fun _ => rfl

/-- Every key holds what it held. -/
def SameContents (db d : Keyspace κ) : Prop := ∀ key, Alike (db key) (d key)

theorem SameContents.refl (db : Keyspace κ) : SameContents db db :=
  fun key => Alike.refl (db key)

variable [DecidableEq κ] {key : κ} {h : Hash}

/-- Writing one field changes nothing exactly when the field had that text. -/
theorem sameContents_insert_iff (hkey : db key = some (.hash h))
    {field text : String} :
    SameContents db (Function.update db key
        (some (.hash (h.insert field text)))) ↔
      h.lookup field = some text := by
  constructor
  · intro hsame
    have hhash := hsame key
    rw [hkey, Function.update_self] at hhash
    rw [hhash field, AList.lookup_insert]
  · intro htext other
    by_cases hother : other = key
    · subst hother
      rw [hkey, Function.update_self]
      intro g
      by_cases hg : g = field
      · rw [hg, htext, AList.lookup_insert]
      · rw [AList.lookup_insert_ne hg]
    · rw [Function.update_of_ne hother]
      exact Alike.refl _

end Contents

section Commands

open Script

variable {κ : Type} {db : Keyspace κ} {key : κ}

theorem readOnly_typeOf (key : κ) : (typeOf key).ReadOnly := fun _ => rfl

theorem readOnly_readZSet (key : κ) : (readZSet key).ReadOnly := by
  intro db
  unfold readZSet
  split <;> rfl

variable [DecidableEq κ]

omit [DecidableEq κ] in
theorem readOnly_hget (key : κ) (field : String) :
    (hget key field).ReadOnly :=
  (readOnly_readHash key).bind fun _ => readOnly_pure _

omit [DecidableEq κ] in
theorem readOnly_xpending (key : κ) (group text : String) :
    (xpending key group text).ReadOnly :=
  (readOnly_readId text).bind fun _ =>
    (readOnly_readGroup key group).bind fun _ => readOnly_pure _

/-- `XADD` raises, or adds an entry and keeps the groups of the stream. -/
theorem xadd_cases (now : UInt64) (key : κ) (fields : List (String × String))
    (db : Keyspace κ) :
    (∃ message, xadd now key fields db = (.error message, db)) ∨
    ∃ id st', xadd now key fields db =
        (.ok id, Function.update db key (some (.stream st'))) ∧
      ∀ st, db key = some (.stream st) → st'.groups = st.groups := by
  have hread : (∃ message, readStream key db = (.error message, db)) ∨
      ∃ st, readStream key db = (.ok st, db) ∧ st.map Value.stream = db key := by
    rw [readStream]
    cases hv : db key with
    | none => exact Or.inr ⟨none, rfl, rfl⟩
    | some v => cases v <;> simp
  rcases hread with ⟨message, hrun⟩ | ⟨st, hrun, hst⟩
  · exact Or.inl ⟨message, bind_error hrun _⟩
  · rw [xadd, bind_ok hrun]
    cases happend : (st.getD .empty).append now fields with
    | none => exact Or.inl ⟨_, rfl⟩
    | some added =>
        refine Or.inr ⟨added.1.text, added.2, rfl, fun st₀ hst₀ => ?_⟩
        obtain rfl : st = some st₀ := by
          cases st with
          | none => simp [hst₀] at hst
          | some st => simpa [hst₀] using hst
        exact (Stream.append_eq_some happend).2.2.2

theorem failsClean_xadd (now : UInt64) (key : κ)
    (fields : List (String × String)) :
    (xadd now key fields).FailsClean db := by
  rcases xadd_cases now key fields db with ⟨message, hrun⟩ | ⟨id, st', hrun, -⟩
  · rw [FailsClean, hrun]
    exact fun _ _ => rfl
  · exact (succeeds_of_run hrun).failsClean

theorem xadd_ok {now : UInt64} {fields : List (String × String)} {id : String}
    {d : Keyspace κ} (h : xadd now key fields db = (.ok id, d)) :
    ∃ st', d = Function.update db key (some (.stream st')) ∧
      ∀ st, db key = some (.stream st) → st'.groups = st.groups := by
  rcases xadd_cases now key fields db with ⟨message, hrun⟩ | ⟨_, st', hrun, hst⟩
  · rw [hrun] at h
    cases h
  · rw [hrun] at h
    exact ⟨st', (Prod.mk.inj h).2.symm, hst⟩

/-- `XACK` raises or acknowledges nothing, or it acknowledges one entry. -/
theorem xack_none_or_one (key : κ) (group text : String) (db : Keyspace κ) :
    (∃ r, xack key group text db = (r, db) ∧ r ≠ .ok 1) ∨
    ∃ st g id, db key = some (.stream st) ∧
      st.groups.lookup group = some g ∧ StreamId.parse text = some id ∧
      xack key group text db = (.ok 1, Function.update db key
        (some (.stream (st.setGroup group (g.ack id))))) := by
  cases hv : db key with
  | none =>
      left
      cases hid : StreamId.parse text <;>
        simp [xack, bind_apply, readStream, readId, hv, hid]
  | some v =>
      cases v with
      | stream st =>
          cases hid : StreamId.parse text with
          | none => simp [xack, bind_apply, readStream, readId, hv, hid]
          | some id =>
              cases hg : st.groups.lookup group with
              | none =>
                  simp [xack, bind_apply, readStream, readId, hv, hid, hg]
              | some g =>
                  by_cases hpending : id ∈ g.pending
                  · refine Or.inr ⟨st, g, id, rfl, hg, rfl, ?_⟩
                    simp [xack, bind_apply, readStream, readId, hv, hid, hg,
                      hpending, put]
                  · left
                    simp [xack, bind_apply, readStream, readId, hv, hid, hg,
                      hpending]
      | string | list | set | hash | zset =>
          simp [xack, bind_apply, readStream, hv]

omit [DecidableEq κ] in
/-- One listed id is pending. -/
theorem pending_of_xpending {group text x : String}
    (h : xpending key group text db = (.ok [x], db)) :
    ∃ st g id, db key = some (.stream st) ∧
      st.groups.lookup group = some g ∧ StreamId.parse text = some id ∧
      id ∈ g.pending := by
  cases hid : StreamId.parse text with
  | none => simp [xpending, bind_apply, readId, hid] at h
  | some id =>
      cases hv : db key with
      | none => simp [xpending, bind_apply, readGroup, readStream, readId, hid,
          hv] at h
      | some v =>
          cases v with
          | stream st =>
              cases hg : st.groups.lookup group with
              | none => simp [xpending, bind_apply, readGroup, readStream,
                  readId, hid, hv, hg] at h
              | some g =>
                  refine ⟨st, g, id, rfl, hg, rfl, ?_⟩
                  by_contra hpending
                  simp [xpending, bind_apply, readGroup, readStream, readId,
                    hid, hv, hg, hpending] at h
          | string | list | set | hash | zset =>
              simp [xpending, bind_apply, readGroup, readStream, readId, hid,
                hv] at h

theorem failsClean_xreadgroup (now : UInt64) (key : κ)
    (group consumer : String) :
    (xreadgroup now key group consumer).FailsClean db := by
  refine (readOnly_readGroup key group).bind_failsClean fun found _ => ?_
  obtain ⟨st, g⟩ := found
  dsimp only
  cases st.nextUnread g with
  | none => exact (readOnly_pure _).failsClean
  | some entry => exact Succeeds.failsClean ⟨_, rfl⟩

theorem failsClean_xgroupCreate (key : κ) (group : String) :
    (xgroupCreate key group).FailsClean db := by
  refine (readOnly_readStream key).bind_failsClean fun st _ => ?_
  cases (st.getD .empty).groups.lookup group with
  | none => exact Succeeds.failsClean ⟨_, rfl⟩
  | some g => exact failsClean_fail _

end Commands

end Redis
