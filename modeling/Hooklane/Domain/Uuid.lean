import Hooklane.Domain.PyText
import Mathlib.Data.List.Induction
import Mathlib.Tactic.Ring

/-!
# Event identifiers

A `UUID` is its 32 hexadecimal digits.  `UUID.text` is the form that `str`
writes and that every Redis key, stream field and hash field carries;
`UUID.parse` is the constructor `UUID(text)`; `isUuid` is the check the Lua
scripts perform.
-/

namespace Hooklane

structure UUID where
  digits : List (Fin 16)
  length_eq : digits.length = 32
deriving DecidableEq

namespace UUID

def hexDigit (d : Fin 16) : Char := Nat.digitChar d

theorem hexValue_hexDigit (d : Fin 16) : hexValue (hexDigit d) = some d := by
  revert d
  decide

theorem hexDigit_ne_dash (d : Fin 16) : hexDigit d ≠ '-' := by
  revert d
  decide

/-- The digits of a number below 2^128, most significant first. -/
def ofNat (n : ℕ) : UUID where
  digits := (List.range 32).reverse.map fun i =>
    ⟨n / 16 ^ i % 16, Nat.mod_lt _ (by decide)⟩
  length_eq := by simp

/-- Hexadecimal digits in groups of 8, 4, 4, 4 and 12. -/
def chars (u : UUID) : List Char :=
  let hex := u.digits.map hexDigit
  hex.take 8 ++ '-' :: ((hex.drop 8).take 4 ++ '-' :: ((hex.drop 12).take 4 ++
    '-' :: ((hex.drop 16).take 4 ++ '-' :: hex.drop 20)))

/-- `str(uuid)`. -/
def text (u : UUID) : String := String.ofList u.chars

/-- `UUID(text)`, or `none` where it raises `ValueError`. -/
def parse (text : String) : Option UUID :=
  let bare := removeAll "uuid:".toList (removeAll "urn:".toList text.toList)
  let hex := (stripBy (fun c => c == '{' || c == '}') bare).filter (· ≠ '-')
  if hex.length ≠ 32 then none
  else
    match pyInt 16 hex with
    | some n => if 0 ≤ n then some (ofNat n.toNat) else none
    | none => none

theorem hexDigit_ne_underscore (d : Fin 16) : hexDigit d ≠ '_' := by
  revert d
  decide

theorem hexDigit_ne_bracket (d : Fin 16) :
    hexDigit d ≠ 'u' ∧ hexDigit d ≠ '{' ∧ hexDigit d ≠ '}' := by
  revert d
  decide

theorem hexDigit_plain (d : Fin 16) : PlainChar (hexDigit d) := by
  have h : ((hexDigit d).toNat < 127 ∧ isAsciiSpace (hexDigit d) = false) ∧
      hexDigit d ≠ '-' ∧ hexDigit d ≠ '+' := by
    revert d
    decide
  exact ⟨h.1.1, h.1.2, h.2.1, h.2.2⟩

theorem hexDigit_ne_x (d : Fin 16) : hexDigit d ≠ 'x' ∧ hexDigit d ≠ 'X' := by
  revert d
  decide

theorem digitsOf_hex : ∀ ds : List (Fin 16), ds ≠ [] →
    digitsOf 16 (ds.map hexDigit) = some ds := by
  intro ds
  induction ds with
  | nil => simp
  | cons d rest ih =>
    intro _
    have hd : (d : ℕ) < 16 := d.isLt
    cases rest with
    | nil => simp [digitsOf, hexValue_hexDigit]
    | cons d' rest =>
      have hne : hexDigit d' ≠ '_' := hexDigit_ne_underscore d'
      have ih' := ih (by simp)
      rw [List.map_cons] at ih' ⊢
      rw [List.map_cons]
      rw [digitsOf]
      · simp [hexValue_hexDigit, ih']
      · simp
      · intro c' rest' h; simp at h; exact hne h.1

theorem digitsValue_append (ds : List (Fin 16)) (d : Fin 16) :
    digitsValue 16 (ds ++ [d]) = 16 * digitsValue 16 ds + d := by
  simp [digitsValue]

theorem digits_digitsValue (ds : List (Fin 16)) :
    ((List.range ds.length).reverse.map fun i =>
      (⟨digitsValue 16 ds / 16 ^ i % 16, Nat.mod_lt _ (by decide)⟩ :
        Fin 16)) = ds := by
  induction ds using List.reverseRecOn with
  | nil => rfl
  | append_singleton ds d ih =>
    have hlow : (16 * digitsValue 16 ds + d) % 16 = d := by omega
    have hhigh : ∀ i, (16 * digitsValue 16 ds + d) / 16 ^ (i + 1) =
        digitsValue 16 ds / 16 ^ i := by
      intro i
      rw [pow_succ', ← Nat.div_div_eq_div_mul]
      congr 1
      omega
    rw [List.length_append, List.length_singleton, List.range_succ_eq_map,
      List.reverse_cons, List.map_append, digitsValue_append]
    congr 1
    · conv_rhs => rw [← ih]
      rw [← List.map_reverse, List.map_map]
      apply List.map_congr_left
      intro i _
      simp [hhigh]
    · simp [hlow]

theorem join_groups {α : Type} (l : List α) :
    l.take 8 ++ ((l.drop 8).take 4 ++ ((l.drop 12).take 4 ++
      ((l.drop 16).take 4 ++ l.drop 20))) = l := by
  have h₁ := List.take_append_drop 4 (l.drop 16)
  have h₂ := List.take_append_drop 4 (l.drop 12)
  have h₃ := List.take_append_drop 4 (l.drop 8)
  simp only [List.drop_drop] at h₁ h₂ h₃
  rw [h₁, h₂, h₃, List.take_append_drop]

theorem ne_dash_of_mem {u : UUID} {c : Char}
    (h : c ∈ u.digits.map hexDigit) : c ≠ '-' := by
  obtain ⟨d, -, rfl⟩ := List.mem_map.mp h
  exact hexDigit_ne_dash d

theorem filter_chars (u : UUID) :
    u.chars.filter (· ≠ '-') = u.digits.map hexDigit := by
  have hkeep : ∀ l, l ⊆ u.digits.map hexDigit → l.filter (· ≠ '-') = l := by
    intro l hl
    rw [List.filter_eq_self]
    intro c hc
    simpa using ne_dash_of_mem (hl hc)
  have htake : ∀ m n, ((u.digits.map hexDigit).drop m).take n ⊆
      u.digits.map hexDigit := by
    intro m n c hc
    exact List.mem_of_mem_drop (List.mem_of_mem_take hc)
  conv_rhs => rw [← join_groups (u.digits.map hexDigit)]
  simp only [chars, List.filter_append, List.filter_cons]
  rw [hkeep _ (List.take_subset _ _), hkeep _ (htake 8 4), hkeep _ (htake 12 4),
    hkeep _ (htake 16 4), hkeep _ (List.drop_subset _ _)]
  simp

theorem mem_chars {u : UUID} {c : Char} (h : c ∈ u.chars) :
    c = '-' ∨ ∃ d, c = hexDigit d := by
  by_cases hdash : c = '-'
  · exact Or.inl hdash
  · have hmem : c ∈ u.chars.filter (· ≠ '-') := by
      rw [List.mem_filter]
      exact ⟨h, by simpa using hdash⟩
    rw [filter_chars] at hmem
    obtain ⟨d, -, rfl⟩ := List.mem_map.mp hmem
    exact Or.inr ⟨d, rfl⟩

theorem length_chars (u : UUID) : u.chars.length = 36 := by
  have h := u.length_eq
  simp [chars, h]

@[simp]
theorem toList_text (u : UUID) : u.text.toList = u.chars :=
  String.toList_ofList

theorem pyInt_hex (u : UUID) :
    pyInt 16 (u.digits.map hexDigit) = some (digitsValue 16 u.digits : ℤ) := by
  have hne : u.digits ≠ [] := by
    intro h
    have := u.length_eq
    simp [h] at this
  have hbase : dropBasePrefix 16 (u.digits.map hexDigit) =
      u.digits.map hexDigit := by
    unfold dropBasePrefix
    split
    · next x rest heq =>
      have hx : x ∈ u.digits.map hexDigit := by rw [heq]; simp
      obtain ⟨d, -, rfl⟩ := List.mem_map.mp hx
      rw [if_neg (by simpa using hexDigit_ne_x d), heq]
    · next x rest _ heq =>
      have hx : x ∈ u.digits.map hexDigit := by rw [heq]; simp
      obtain ⟨d, -, rfl⟩ := List.mem_map.mp hx
      rw [if_neg (by simpa using hexDigit_ne_x d), heq]
    · rfl
  refine pyInt_plain (fun c hc => ?_) (hbase.symm ▸ digitsOf_hex _ hne)
    (Or.inl rfl)
  obtain ⟨d, -, rfl⟩ := List.mem_map.mp hc
  exact hexDigit_plain d

theorem parse_text (u : UUID) : parse u.text = some u := by
  have hplain : ∀ c ∈ u.chars, c ≠ 'u' ∧ c ≠ '{' ∧ c ≠ '}' := by
    intro c hc
    rcases mem_chars hc with rfl | ⟨d, rfl⟩
    · decide
    · exact hexDigit_ne_bracket d
  have hu : 'u' ∉ u.chars := fun h => (hplain _ h).1 rfl
  have hbare : removeAll "uuid:".toList
      (removeAll "urn:".toList u.text.toList) = u.chars := by
    rw [toList_text]
    change removeAll ('u' :: _) (removeAll ('u' :: _) u.chars) = u.chars
    rw [removeAll_eq_self hu, removeAll_eq_self hu]
  have hstrip : stripBy (fun c => c == '{' || c == '}') u.chars = u.chars := by
    apply stripBy_eq_self
    intro c hc
    simp [hplain c hc]
  have hdigits : ofNat (digitsValue 16 u.digits) = u := by
    have h := digits_digitsValue u.digits
    rw [u.length_eq] at h
    cases u
    simpa [ofNat] using h
  simp only [parse, hbare, hstrip, filter_chars, List.length_map, u.length_eq,
    pyInt_hex]
  simp [hdigits]

theorem text_injective : Function.Injective text := by
  intro a b h
  have hparse : parse a.text = parse b.text := by rw [h]
  rw [parse_text, parse_text] at hparse
  exact Option.some.inj hparse

end UUID

/-- The `is_uuid` helper of the Lua scripts. -/
def isUuid (text : String) : Bool :=
  let cs := text.toList
  let compact := cs.filter (· ≠ '-')
  cs.length == 36 &&
    (cs[8]? == some '-' && cs[13]? == some '-' &&
      cs[18]? == some '-' && cs[23]? == some '-') &&
    (compact.length == 32 && compact.all fun c => (hexValue c).isSome)

@[simp]
theorem isUuid_text (u : UUID) : isUuid u.text = true := by
  have h := u.length_eq
  have hpos : u.chars[8]? = some '-' ∧ u.chars[13]? = some '-' ∧
      u.chars[18]? = some '-' ∧ u.chars[23]? = some '-' := by
    simp [UUID.chars, h]
  have hhex : (u.digits.map UUID.hexDigit).all
      (fun c => (hexValue c).isSome) = true := by
    simp [UUID.hexValue_hexDigit]
  simp only [isUuid, UUID.toList_text, UUID.length_chars,
    UUID.filter_chars, hpos, hhex]
  simp [h]

end Hooklane
