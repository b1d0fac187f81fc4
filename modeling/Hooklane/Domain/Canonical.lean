import Hooklane.Domain.Events

/-!
# The canonical text determines the value

Two values have the same canonical text exactly when they are equal up to the
order of the members of their objects.  A text is read from its start: no
value's text continues another one's, because a value is followed by a comma, a
closing bracket or nothing.
-/

namespace Hooklane.Json

section Canonical

mutual

/-- The value with the members of every object in the order of their keys. -/
def canonical : Json → Json
  | .null => .null
  | .bool value => .bool value
  | .int n => .int n
  | .float literal => .float literal
  | .str text => .str text
  | .arr items => .arr (canonicalItems items)
  | .obj fields =>
      .obj ((canonicalMembers fields).insertionSort fun a b => a.1 ≤ b.1)

def canonicalItems : List Json → List Json
  | [] => []
  | item :: rest => canonical item :: canonicalItems rest

def canonicalMembers : List (String × Json) → List (String × Json)
  | [] => []
  | (key, value) :: rest => (key, canonical value) :: canonicalMembers rest

end

/-- Equality of JSON values, where the order of members does not matter. -/
def Equiv (a b : Json) : Prop :=
  a.canonical = b.canonical

/-- The members in the order of their keys. -/
def sortFields (fields : List (String × Json)) : List (String × Json) :=
  fields.insertionSort fun a b => a.1 ≤ b.1

/-- The text of one member. -/
def memberText (m : String × Json) : List Char :=
  dumpsString m.1 ++ ':' :: dumpsChars m.2

theorem canonicalItems_eq (items : List Json) :
    canonicalItems items = items.map canonical := by
  induction items with
  | nil => rfl
  | cons item rest ih => rw [canonicalItems, ih, List.map_cons]

theorem canonicalMembers_eq (fields : List (String × Json)) :
    canonicalMembers fields = fields.map fun m => (m.1, m.2.canonical) := by
  induction fields with
  | nil => rfl
  | cons m rest ih =>
      obtain ⟨key, value⟩ := m
      rw [canonicalMembers, ih, List.map_cons]

/-- Sorting looks at the keys only. -/
theorem sort_map {β : Type} (f : Json → β) (fields : List (String × Json)) :
    ((fields.map fun m => (m.1, f m.2)).insertionSort fun a b => a.1 ≤ b.1) =
      (sortFields fields).map fun m => (m.1, f m.2) := by
  refine (List.map_insertionSort
    (r := fun a b : String × Json => a.1 ≤ b.1)
    (s := fun a b : String × β => a.1 ≤ b.1) _ _ ?_).symm
  exact fun _ _ _ _ => Iff.rfl

theorem canonical_obj (fields : List (String × Json)) :
    canonical (.obj fields) =
      .obj ((sortFields fields).map fun m => (m.1, m.2.canonical)) := by
  rw [canonical, canonicalMembers_eq, sort_map]

theorem dumpsItems_eq (items : List Json) :
    dumpsItems items = items.map dumpsChars := by
  induction items with
  | nil => rfl
  | cons item rest ih => rw [dumpsItems, ih, List.map_cons]

theorem dumpsMembers_eq (fields : List (String × Json)) :
    dumpsMembers fields = fields.map fun m => (m.1, dumpsChars m.2) := by
  induction fields with
  | nil => rfl
  | cons m rest ih =>
      obtain ⟨key, value⟩ := m
      rw [dumpsMembers, ih, List.map_cons]

theorem dumpsChars_arr (items : List Json) :
    dumpsChars (.arr items) =
      '[' :: (commaSep (items.map dumpsChars) ++ [']']) := by
  rw [dumpsChars, dumpsItems_eq]

theorem dumpsChars_obj (fields : List (String × Json)) :
    dumpsChars (.obj fields) =
      '{' :: (commaSep ((sortFields fields).map memberText) ++ ['}']) := by
  rw [dumpsChars, dumpsMembers_eq, sortMembers, sort_map, List.map_map]
  rfl

/-- Induction over a value, with all items and members at once. -/
theorem induction {P : Json → Prop} (null : P .null)
    (bool : ∀ value, P (.bool value)) (int : ∀ n, P (.int n))
    (float : ∀ literal, P (.float literal)) (str : ∀ text, P (.str text))
    (arr : ∀ items, (∀ item ∈ items, P item) → P (.arr items))
    (obj : ∀ fields, (∀ m ∈ fields, P m.2) → P (.obj fields)) :
    ∀ value, P value
  | .null => null
  | .bool value => bool value
  | .int n => int n
  | .float literal => float literal
  | .str text => str text
  | .arr items => arr items fun item _ =>
      induction null bool int float str arr obj item
  | .obj fields => obj fields fun m _ =>
      induction null bool int float str arr obj m.2
termination_by value => sizeOf value
decreasing_by
  · have := List.sizeOf_lt_of_mem ‹item ∈ items›
    simp only [Json.arr.sizeOf_spec]
    omega
  · have := List.sizeOf_lt_of_mem ‹m ∈ fields›
    obtain ⟨key, value⟩ := m
    simp only [Json.obj.sizeOf_spec, Prod.mk.sizeOf_spec] at this ⊢
    omega

end Canonical

section Strings

/-- The value of a hexadecimal digit in lower case. -/
def hexValue (c : Char) : ℕ :=
  if c.isDigit then c.toNat - '0'.toNat else c.toNat - 'a'.toNat + 10

/-- The first character of an escaped text, and what follows it. -/
def readChar : List Char → Option (Char × List Char)
  | '\\' :: 'u' :: '0' :: '0' :: high :: low :: rest =>
      some (Char.ofNat (16 * hexValue high + hexValue low), rest)
  | '\\' :: 'n' :: rest => some ('\n', rest)
  | '\\' :: 'r' :: rest => some ('\r', rest)
  | '\\' :: 't' :: rest => some ('\t', rest)
  | '\\' :: 'b' :: rest => some (Char.ofNat 0x08, rest)
  | '\\' :: 'f' :: rest => some (Char.ofNat 0x0c, rest)
  | '\\' :: c :: rest => some (c, rest)
  | c :: rest => some (c, rest)
  | [] => none

theorem control_hex (n : Fin 32) :
    Char.ofNat (16 * hexValue (hexChar (n.val / 16)) +
      hexValue (hexChar n.val)) = Char.ofNat n.val := by
  revert n
  decide

theorem readChar_escapeChar (c : Char) (rest : List Char) :
    readChar (escapeChar c ++ rest) = some (c, rest) := by
  unfold escapeChar
  split
  · next h => rw [h]; rfl
  split
  · next h => rw [h]; rfl
  split
  · next h => rw [h]; rfl
  split
  · next h => rw [h]; rfl
  split
  · next h => rw [h]; rfl
  split
  · next h =>
    have hc : Char.ofNat 0x08 = c := by rw [← h, Char.ofNat_toNat]
    exact congrArg (fun d => some (d, rest)) hc
  split
  · next h =>
    have hc : Char.ofNat 0x0c = c := by rw [← h, Char.ofNat_toNat]
    exact congrArg (fun d => some (d, rest)) hc
  split
  · next h =>
    have hhex := control_hex ⟨c.toNat, h⟩
    rw [Char.ofNat_toNat] at hhex
    simp [readChar, hhex]
  · next hquote hslash _ _ _ _ _ _ =>
    simp only [List.singleton_append]
    unfold readChar
    split <;> simp_all

theorem escapeChar_ne_quote (c : Char) (x rest : List Char) :
    '"' :: x ≠ escapeChar c ++ rest := by
  unfold escapeChar
  intro h
  split at h
  · cases h
  · next hquote =>
    repeat' split at h
    all_goals first
      | exact hquote (List.head_eq_of_cons_eq h).symm
      | cases h

/-- A quoted text ends at its closing quote. -/
theorem dumpsString_unique {a b : String} {r s : List Char}
    (h : dumpsString a ++ r = dumpsString b ++ s) : a = b ∧ r = s := by
  have hbody : ∀ xs ys : List Char,
      xs.flatMap escapeChar ++ '"' :: r = ys.flatMap escapeChar ++ '"' :: s →
      xs = ys ∧ r = s := by
    intro xs
    induction xs with
    | nil =>
        rintro (_ | ⟨y, ys⟩) h
        · exact ⟨rfl, List.tail_eq_of_cons_eq h⟩
        · rw [List.flatMap_cons, List.append_assoc] at h
          exact absurd h (escapeChar_ne_quote _ _ _)
    | cons x xs ih =>
        rintro (_ | ⟨y, ys⟩) h
        · rw [List.flatMap_cons, List.append_assoc] at h
          exact absurd h.symm (escapeChar_ne_quote _ _ _)
        · rw [List.flatMap_cons, List.flatMap_cons, List.append_assoc,
            List.append_assoc] at h
          have hread := congrArg readChar h
          rw [readChar_escapeChar, readChar_escapeChar] at hread
          obtain ⟨rfl, hrest⟩ := Prod.mk.inj (Option.some.inj hread)
          obtain ⟨rfl, hrs⟩ := ih ys hrest
          exact ⟨rfl, hrs⟩
  rw [dumpsString, dumpsString, List.cons_append, List.cons_append,
    List.append_assoc, List.append_assoc] at h
  obtain ⟨hab, hrs⟩ := hbody _ _ (List.tail_eq_of_cons_eq h)
  exact ⟨String.toList_inj.mp hab, hrs⟩

end Strings

section Scalars

/-- The shape of the texts that `json.dumps` writes for floats: a decimal with
a point or an exponent, or one of the three special values. -/
def FloatText (literal : String) : Prop :=
  literal ∈ ["NaN", "Infinity", "-Infinity"] ∨
    (∀ c ∈ literal.toList, c.isDigit ∨ c ∈ ['-', '+', '.', 'e']) ∧
      (∃ c, literal.toList.head? = some c ∧ (c.isDigit ∨ c = '-')) ∧
      ∃ c ∈ literal.toList, c ∈ ['.', 'e']

/-- A value that Python can build: the keys of an object are distinct. -/
inductive WellFormed : Json → Prop where
  | null : WellFormed .null
  | bool (value : Bool) : WellFormed (.bool value)
  | int (n : ℤ) : WellFormed (.int n)
  | float (literal : String) (text : FloatText literal) :
      WellFormed (.float literal)
  | str (text : String) : WellFormed (.str text)
  | arr (items : List Json) (all : ∀ item ∈ items, WellFormed item) :
      WellFormed (.arr items)
  | obj (fields : List (String × Json))
      (distinct : (fields.map Prod.fst).Nodup)
      (all : ∀ m ∈ fields, WellFormed m.2) : WellFormed (.obj fields)

/-- An object with two members. -/
theorem WellFormed.pair {key key' : String} {a b : Json} (hne : key ≠ key')
    (ha : a.WellFormed) (hb : b.WellFormed) :
    (Json.obj [(key, a), (key', b)]).WellFormed := by
  refine .obj _ (by simpa using hne) fun m hm => ?_
  rcases List.mem_pair.mp hm with rfl | rfl
  · exact ha
  · exact hb

/-- A text of digits and signs. -/
def IntText (cs : List Char) : Prop :=
  ∀ c ∈ cs, c.isDigit ∨ c = '-'

theorem toString_int_cases (n : ℤ) :
    (∃ m : ℕ, n = m ∧ (toString n).toList = Nat.toDigits 10 m) ∨
      ∃ m : ℕ, n = -(m + 1 : ℕ) ∧
        (toString n).toList = '-' :: Nat.toDigits 10 (m + 1) := by
  cases n with
  | ofNat m => exact Or.inl ⟨m, rfl, Nat.toList_repr⟩
  | negSucc m =>
      refine Or.inr ⟨m, rfl, ?_⟩
      have htext : toString (Int.negSucc m) = "-" ++ toString (m + 1) := rfl
      rw [htext, String.toList_append]
      exact congrArg (List.cons '-') Nat.toList_repr

theorem isDigit_of_mem_digits {m : ℕ} {c : Char}
    (h : c ∈ Nat.toDigits 10 m) : c.isDigit = true :=
  Nat.isDigit_of_mem_toDigits (by decide) (by decide) h

theorem intText_toString (n : ℤ) : IntText (toString n).toList := by
  rcases toString_int_cases n with ⟨m, -, htext⟩ | ⟨m, -, htext⟩
  · rw [htext]
    exact fun c hc => Or.inl (isDigit_of_mem_digits hc)
  · rw [htext]
    intro c hc
    rcases List.mem_cons.mp hc with rfl | hc
    · exact Or.inr rfl
    · exact Or.inl (isDigit_of_mem_digits hc)

theorem toString_int_ne_nil (n : ℤ) : (toString n).toList ≠ [] := by
  rcases toString_int_cases n with ⟨m, -, htext⟩ | ⟨m, -, htext⟩
  · rw [htext]
    exact Nat.toDigits_ne_nil
  · rw [htext]
    exact List.cons_ne_nil _ _

theorem digits_injective {m k : ℕ}
    (h : Nat.toDigits 10 m = Nat.toDigits 10 k) : m = k := by
  have hvalue := congrArg (fun cs => Nat.ofDigitChars 10 cs 0) h
  simpa [Nat.ofDigitChars_ten_toDigits] using hvalue

theorem digits_ne_minus {m : ℕ} {rest : List Char} :
    Nat.toDigits 10 m ≠ '-' :: rest := by
  intro h
  have hdigit : ('-').isDigit = true :=
    isDigit_of_mem_digits (h ▸ List.mem_cons_self)
  exact absurd hdigit (by decide)

theorem toString_int_injective {m n : ℤ}
    (h : (toString m).toList = (toString n).toList) : m = n := by
  rcases toString_int_cases m with ⟨a, rfl, ha⟩ | ⟨a, rfl, ha⟩ <;>
    rcases toString_int_cases n with ⟨b, rfl, hb⟩ | ⟨b, rfl, hb⟩ <;>
    rw [ha, hb] at h
  · rw [digits_injective h]
  · exact absurd h digits_ne_minus
  · exact absurd h.symm digits_ne_minus
  · rw [digits_injective (List.tail_eq_of_cons_eq h)]

/-- How a text begins that is a number or a keyword. -/
def BeginsNumber (cs : List Char) : Prop :=
  ∃ c, cs.head? = some c ∧ (c.isDigit ∨ c ∈ ['-', 'N', 'I'])

theorem beginsNumber_int (n : ℤ) : BeginsNumber (toString n).toList := by
  have htext := intText_toString n
  cases hlist : (toString n).toList with
  | nil => exact absurd hlist (toString_int_ne_nil n)
  | cons c rest =>
      rw [hlist] at htext
      exact ⟨c, rfl, (htext c List.mem_cons_self).imp_right (by simp_all)⟩

theorem beginsNumber_float {literal : String} (h : FloatText literal) :
    BeginsNumber literal.toList := by
  rcases h with h | ⟨-, ⟨c, hhead, hc⟩, -⟩
  · simp only [List.mem_cons, List.not_mem_nil, or_false] at h
    rcases h with rfl | rfl | rfl
    · exact ⟨'N', rfl, by decide⟩
    · exact ⟨'I', rfl, by decide⟩
    · exact ⟨'-', rfl, by decide⟩
  · exact ⟨c, hhead, hc.imp_right (by simp_all)⟩

theorem floatText_not_int {literal : String} (h : FloatText literal) :
    ¬IntText literal.toList := by
  intro hint
  rcases h with h | ⟨-, -, c, hmem, hc⟩
  · simp only [List.mem_cons, List.not_mem_nil, or_false] at h
    rcases h with rfl | rfl | rfl
    · exact absurd (hint 'N' (by decide)) (by decide)
    · exact absurd (hint 'I' (by decide)) (by decide)
    · exact absurd (hint 'I' (by decide)) (by decide)
  · have hdigit := hint c hmem
    simp only [List.mem_cons, List.not_mem_nil, or_false] at hc
    rcases hc with rfl | rfl <;> exact absurd hdigit (by decide)

/-- The values that are written as keywords. -/
def Keyword : Json → Prop
  | .null | .bool _ => True
  | _ => False

/-- The values that are written as numbers. -/
def Number : Json → Prop
  | .int _ | .float _ => True
  | _ => False

/-- A value that is neither a string nor a list nor an object. -/
def Scalar (a : Json) : Prop :=
  a.Keyword ∨ a.Number

variable {a b : Json}

theorem Keyword.text (h : a.Keyword) :
    dumpsChars a ∈ ["null".toList, "true".toList, "false".toList] := by
  cases a with
  | null => decide
  | bool value => cases value <;> decide
  | int | float | str | arr | obj => exact h.elim

theorem Number.text (ha : a.WellFormed) (h : a.Number) :
    BeginsNumber (dumpsChars a) := by
  cases ha with
  | int n => exact beginsNumber_int n
  | float literal htext => exact beginsNumber_float htext
  | null | bool | str | arr | obj => exact h.elim

theorem keyword_not_number {cs : List Char}
    (h : cs ∈ ["null".toList, "true".toList, "false".toList]) :
    ¬BeginsNumber cs := by
  rintro ⟨c, hhead, hc⟩
  simp only [List.mem_cons, List.not_mem_nil, or_false] at h
  rcases h with rfl | rfl | rfl <;>
    · obtain rfl := Option.some.inj hhead
      exact absurd hc (by decide)

theorem keyword_injective (ha : a.Keyword) (hb : b.Keyword)
    (h : dumpsChars a = dumpsChars b) : a = b := by
  cases a with
  | null =>
      cases b with
      | null => rfl
      | bool value => cases value <;> exact absurd h (by decide)
      | int | float | str | arr | obj => exact hb.elim
  | bool value =>
      cases b with
      | null => cases value <;> exact absurd h (by decide)
      | bool value' =>
          cases value <;> cases value' <;>
            first | rfl | exact absurd h (by decide)
      | int | float | str | arr | obj => exact hb.elim
  | int | float | str | arr | obj => exact ha.elim

theorem number_injective (hwa : a.WellFormed) (hwb : b.WellFormed)
    (ha : a.Number) (hb : b.Number) (h : dumpsChars a = dumpsChars b) :
    a = b := by
  have hint : ∀ n : ℤ, IntText (dumpsChars (.int n)) := intText_toString
  cases hwa with
  | int n =>
      cases hwb with
      | int m =>
          have hnm : n = m := toString_int_injective h
          rw [hnm]
      | float literal htext =>
          have hfloat : ¬IntText (dumpsChars (.float literal)) :=
            floatText_not_int htext
          exact absurd (h ▸ hint n) hfloat
      | null | bool | str | arr | obj => exact hb.elim
  | float literal htext =>
      have hfloat : ¬IntText (dumpsChars (.float literal)) :=
        floatText_not_int htext
      cases hwb with
      | int m => exact absurd (h ▸ hint m) hfloat
      | float literal' =>
          have hlist : literal.toList = literal'.toList := h
          rw [String.toList_inj.mp hlist]
      | null | bool | str | arr | obj => exact hb.elim
  | null | bool | str | arr | obj => exact ha.elim

theorem scalar_injective (hwa : a.WellFormed) (hwb : b.WellFormed)
    (ha : a.Scalar) (hb : b.Scalar) (h : dumpsChars a = dumpsChars b) :
    a = b := by
  rcases ha with ha | ha <;> rcases hb with hb | hb
  · exact keyword_injective ha hb h
  · exact absurd (h ▸ hb.text hwb) (keyword_not_number ha.text)
  · exact absurd (h ▸ ha.text hwa) (keyword_not_number hb.text)
  · exact number_injective hwa hwb ha hb h

end Scalars

section Values

variable {a b : Json}

/-- The characters that end a value. -/
def Delimiter (c : Char) : Prop :=
  c = ',' ∨ c = ']' ∨ c = '}'

instance : DecidablePred Delimiter := fun c =>
  inferInstanceAs (Decidable (c = ',' ∨ c = ']' ∨ c = '}'))

/-- What may follow a value. -/
def Ends (rest : List Char) : Prop :=
  ∀ c, rest.head? = some c → Delimiter c

theorem not_delimiter_of_digit {c : Char} (h : c.isDigit = true) :
    ¬Delimiter c := by
  rintro (rfl | rfl | rfl) <;> exact absurd h (by decide)

theorem not_delimiter_of_all {t : List Char}
    (h : t.all (fun c => decide ¬Delimiter c) = true) :
    ∀ c ∈ t, ¬Delimiter c :=
  fun c hc => of_decide_eq_true (List.all_eq_true.mp h c hc)

/-- No character of a scalar is a delimiter. -/
theorem scalar_free (ha : a.WellFormed) (hscalar : a.Scalar) :
    ∀ c ∈ dumpsChars a, ¬Delimiter c := by
  cases ha with
  | null => exact not_delimiter_of_all rfl
  | bool value => cases value <;> exact not_delimiter_of_all rfl
  | int n =>
      intro c hc
      rcases intText_toString n c hc with hdigit | rfl
      · exact not_delimiter_of_digit hdigit
      · decide
  | float literal htext =>
      intro c hc
      rcases htext with hspecial | ⟨hall, -, -⟩
      · simp only [List.mem_cons, List.not_mem_nil, or_false] at hspecial
        change c ∈ literal.toList at hc
        rcases hspecial with rfl | rfl | rfl <;>
          exact not_delimiter_of_all rfl c hc
      · rcases hall c hc with hdigit | hsign
        · exact not_delimiter_of_digit hdigit
        · simp only [List.mem_cons, List.not_mem_nil, or_false] at hsign
          rcases hsign with rfl | rfl | rfl | rfl <;> decide
  | str | arr | obj => exact hscalar.elim False.elim False.elim

/-- Every value begins with a character that ends no value. -/
theorem dumpsChars_head (ha : a.WellFormed) :
    ∃ c rest, dumpsChars a = c :: rest ∧ ¬Delimiter c ∧
      (a.Scalar → c ∉ ['"', '[', '{']) := by
  have hscalar : a.Scalar → ∃ c rest, dumpsChars a = c :: rest ∧
      ¬Delimiter c ∧ (a.Scalar → c ∉ ['"', '[', '{']) := by
    intro hscalar
    have hfree := scalar_free ha hscalar
    have hhead : ∃ c, (dumpsChars a).head? = some c ∧ c ∉ ['"', '[', '{'] := by
      rcases hscalar with hkeyword | hnumber
      · have htext := hkeyword.text
        simp only [List.mem_cons, List.not_mem_nil, or_false] at htext
        rcases htext with h | h | h
        · exact ⟨'n', by rw [h]; rfl, by decide⟩
        · exact ⟨'t', by rw [h]; rfl, by decide⟩
        · exact ⟨'f', by rw [h]; rfl, by decide⟩
      · obtain ⟨c, hhead, hc⟩ := hnumber.text ha
        refine ⟨c, hhead, fun hmem => ?_⟩
        simp only [List.mem_cons, List.not_mem_nil, or_false] at hmem
        rcases hmem with rfl | rfl | rfl <;> exact absurd hc (by decide)
    obtain ⟨c, hhead, hc⟩ := hhead
    cases hlist : dumpsChars a with
    | nil =>
        rw [hlist] at hhead
        cases hhead
    | cons d rest =>
        rw [hlist] at hhead hfree
        obtain rfl := Option.some.inj hhead
        exact ⟨d, rest, rfl, hfree d List.mem_cons_self, fun _ => hc⟩
  cases ha with
  | null | bool => exact hscalar (Or.inl trivial)
  | int | float => exact hscalar (Or.inr trivial)
  | str text => exact ⟨'"', _, rfl, by decide, fun h => h.elim False.elim False.elim⟩
  | arr items => exact ⟨'[', _, rfl, by decide, fun h => h.elim False.elim False.elim⟩
  | obj fields => exact ⟨'{', _, rfl, by decide, fun h => h.elim False.elim False.elim⟩

/-- A text without delimiters ends where the delimiter stands. -/
theorem free_unique {t u r s : List Char} (ht : ∀ c ∈ t, ¬Delimiter c)
    (hu : ∀ c ∈ u, ¬Delimiter c) (hr : Ends r) (hs : Ends s)
    (h : t ++ r = u ++ s) : t = u ∧ r = s := by
  induction t generalizing u with
  | nil =>
      cases u with
      | nil => exact ⟨rfl, h⟩
      | cons d u =>
          exact absurd (hr d (congrArg List.head? h)) (hu d List.mem_cons_self)
  | cons c t ih =>
      cases u with
      | nil =>
          exact absurd (hs c (congrArg List.head? h.symm))
            (ht c List.mem_cons_self)
      | cons d u =>
          obtain rfl : c = d := List.head_eq_of_cons_eq h
          obtain ⟨rfl, hrs⟩ := ih (fun c hc => ht c (List.mem_cons_of_mem _ hc))
            (fun c hc => hu c (List.mem_cons_of_mem _ hc))
            (List.tail_eq_of_cons_eq h)
          exact ⟨rfl, hrs⟩

/-- What follows the first part of a list or an object. -/
def commaTail : List (List Char) → List Char
  | [] => []
  | rest => ',' :: commaSep rest

theorem commaSep_cons (part : List Char) (rest : List (List Char)) :
    commaSep (part :: rest) = part ++ commaTail rest := by
  cases rest with
  | nil => simp [commaSep, commaTail]
  | cons => rfl

/-- The parts of a list can be told apart when each part can be told from what
follows it. -/
theorem commaSep_unique {α β : Type} {w : α → List Char} {f : α → β}
    {close : Char} (hclose : Delimiter close) (hcomma : close ≠ ',')
    {xs ys : List α} {r s : List Char}
    (hw : ∀ x ∈ xs, ∀ y ∈ ys, ∀ r s, Ends r → Ends s → w x ++ r = w y ++ s →
      f x = f y ∧ r = s)
    (hhead : ∀ x, x ∈ xs ∨ x ∈ ys → ∃ c rest, w x = c :: rest ∧ ¬Delimiter c)
    (h : commaSep (xs.map w) ++ close :: r =
      commaSep (ys.map w) ++ close :: s) :
    xs.map f = ys.map f ∧ r = s := by
  have hends : ∀ (zs : List α) (t : List Char),
      Ends (commaTail (zs.map w) ++ close :: t) := by
    rintro (_ | ⟨z, zs⟩) t c hc
    · obtain rfl := Option.some.inj hc
      exact hclose
    · obtain rfl := Option.some.inj hc
      exact Or.inl rfl
  induction xs generalizing ys with
  | nil =>
      cases ys with
      | nil => exact ⟨rfl, List.tail_eq_of_cons_eq h⟩
      | cons y ys =>
          obtain ⟨c, rest, hy, hc⟩ := hhead y (Or.inr List.mem_cons_self)
          rw [List.map_cons, commaSep_cons, hy] at h
          exact absurd (List.head_eq_of_cons_eq h ▸ hclose) hc
  | cons x xs ih =>
      cases ys with
      | nil =>
          obtain ⟨c, rest, hx, hc⟩ := hhead x (Or.inl List.mem_cons_self)
          rw [List.map_cons, commaSep_cons, hx] at h
          exact absurd (List.head_eq_of_cons_eq h ▸ hclose) hc
      | cons y ys =>
          rw [List.map_cons, List.map_cons, commaSep_cons, commaSep_cons,
            List.append_assoc, List.append_assoc] at h
          obtain ⟨hxy, hrest⟩ := hw x List.mem_cons_self y List.mem_cons_self
            _ _ (hends xs r) (hends ys s) h
          have hfirst : xs.map f = ys.map f ∧ r = s := by
            cases xs with
            | nil =>
                cases ys with
                | nil => exact ⟨rfl, List.tail_eq_of_cons_eq hrest⟩
                | cons => exact absurd (List.head_eq_of_cons_eq hrest) hcomma
            | cons x' xs =>
                cases ys with
                | nil =>
                    exact absurd (List.head_eq_of_cons_eq hrest).symm hcomma
                | cons y' ys =>
                    refine ih ?_ ?_ (List.tail_eq_of_cons_eq hrest)
                    · exact fun a ha b hb => hw a (List.mem_cons_of_mem _ ha) b
                        (List.mem_cons_of_mem _ hb)
                    · exact fun a ha => hhead a
                        (ha.imp (List.mem_cons_of_mem _)
                          (List.mem_cons_of_mem _))
          exact ⟨by rw [List.map_cons, List.map_cons, hxy, hfirst.1], hfirst.2⟩

/-- The text of a scalar is the text of no other value. -/
theorem scalar_unique (ha : a.WellFormed) (hb : b.WellFormed)
    (hsa : a.Scalar) {r s : List Char} (hr : Ends r) (hs : Ends s)
    (h : dumpsChars a ++ r = dumpsChars b ++ s) : a.Equiv b ∧ r = s := by
  obtain ⟨c, rest, hc, -, hopen⟩ := dumpsChars_head ha
  have hne := hopen hsa
  have hsb : b.Scalar := by
    rw [hc] at h
    cases hb with
    | null | bool => exact Or.inl trivial
    | int | float => exact Or.inr trivial
    | str | arr | obj =>
        rw [List.head_eq_of_cons_eq h] at hne
        exact absurd hne (by decide)
  obtain ⟨htext, hrs⟩ := free_unique (scalar_free ha hsa)
    (scalar_free hb hsb) hr hs h
  rw [scalar_injective ha hb hsa hsb htext]
  exact ⟨rfl, hrs⟩

theorem canonical_arr (items : List Json) :
    canonical (.arr items) = .arr (items.map canonical) := by
  rw [canonical, canonicalItems_eq]

theorem mem_sortFields {fields : List (String × Json)} {m : String × Json} :
    m ∈ sortFields fields ↔ m ∈ fields :=
  List.mem_insertionSort _

/-- The text of `a` is not the beginning of another value's text. -/
def Unique (a : Json) : Prop :=
  ∀ b : Json, b.WellFormed → ∀ r s, Ends r → Ends s →
    dumpsChars a ++ r = dumpsChars b ++ s → a.Equiv b ∧ r = s

theorem arr_unique {items items' : List Json}
    (hitems : ∀ item ∈ items, item.WellFormed)
    (hitems' : ∀ item ∈ items', item.WellFormed)
    (hunique : ∀ item ∈ items, Unique item) {r s : List Char}
    (h : dumpsChars (.arr items) ++ r = dumpsChars (.arr items') ++ s) :
    (Json.arr items).Equiv (.arr items') ∧ r = s := by
  rw [dumpsChars_arr, dumpsChars_arr, List.cons_append, List.cons_append,
    List.append_assoc, List.append_assoc] at h
  have hlist : items.map canonical = items'.map canonical ∧ r = s := by
    refine commaSep_unique (Or.inr (Or.inl rfl)) (by decide) ?_ ?_
      (List.tail_eq_of_cons_eq h)
    · exact fun x hx y hy => hunique x hx y (hitems' y hy)
    · rintro x (hx | hx)
      · obtain ⟨c, rest, hc, hfree, -⟩ := dumpsChars_head (hitems x hx)
        exact ⟨c, rest, hc, hfree⟩
      · obtain ⟨c, rest, hc, hfree, -⟩ := dumpsChars_head (hitems' x hx)
        exact ⟨c, rest, hc, hfree⟩
  rw [Equiv, canonical_arr, canonical_arr, hlist.1]
  exact ⟨rfl, hlist.2⟩

theorem obj_unique {fields fields' : List (String × Json)}
    (hfields' : ∀ m ∈ fields', m.2.WellFormed)
    (hunique : ∀ m ∈ fields, Unique m.2) {r s : List Char}
    (h : dumpsChars (.obj fields) ++ r = dumpsChars (.obj fields') ++ s) :
    (Json.obj fields).Equiv (.obj fields') ∧ r = s := by
  rw [dumpsChars_obj, dumpsChars_obj, List.cons_append, List.cons_append,
    List.append_assoc, List.append_assoc] at h
  have hlist : ((sortFields fields).map fun m => (m.1, m.2.canonical)) =
      ((sortFields fields').map fun m => (m.1, m.2.canonical)) ∧ r = s := by
    refine commaSep_unique (Or.inr (Or.inr rfl)) (by decide) ?_ ?_
      (List.tail_eq_of_cons_eq h)
    · intro x hx y hy r s hr hs hxy
      rw [memberText, memberText, List.append_assoc, List.append_assoc] at hxy
      obtain ⟨hkey, hvalue⟩ := dumpsString_unique hxy
      obtain ⟨hequiv, hrs⟩ := hunique x (mem_sortFields.mp hx) y.2
        (hfields' y (mem_sortFields.mp hy)) r s hr hs
        (List.tail_eq_of_cons_eq hvalue)
      exact ⟨Prod.ext hkey hequiv, hrs⟩
    · exact fun x _ => ⟨'"', _, rfl, by decide⟩
  rw [Equiv, canonical_obj, canonical_obj, hlist.1]
  exact ⟨rfl, hlist.2⟩

theorem not_scalar_cases (h : ¬a.Scalar) :
    (∃ text, a = .str text) ∨ (∃ items, a = .arr items) ∨
      ∃ fields, a = .obj fields := by
  cases a with
  | null | bool => exact absurd (Or.inl trivial) h
  | int | float => exact absurd (Or.inr trivial) h
  | str text => exact Or.inl ⟨text, rfl⟩
  | arr items => exact Or.inr (Or.inl ⟨items, rfl⟩)
  | obj fields => exact Or.inr (Or.inr ⟨fields, rfl⟩)

/-- The text of a value tells the value, up to the order of members, and where
the value ends. -/
theorem dumpsChars_unique (a : Json) (ha : a.WellFormed) : Unique a := by
  have hflip : ∀ {a b : Json} {r s : List Char}, a.WellFormed → b.WellFormed →
      b.Scalar → Ends r → Ends s → dumpsChars a ++ r = dumpsChars b ++ s →
      a.Equiv b ∧ r = s := by
    intro a b r s ha hb hsb hr hs h
    obtain ⟨hab, hrs⟩ := scalar_unique hb ha hsb hs hr h.symm
    exact ⟨hab.symm, hrs.symm⟩
  induction a using Json.induction with
  | null | bool =>
      exact fun b hb r s hr hs h =>
        scalar_unique ha hb (Or.inl trivial) hr hs h
  | int | float =>
      exact fun b hb r s hr hs h =>
        scalar_unique ha hb (Or.inr trivial) hr hs h
  | str text =>
      intro b hb r s hr hs h
      by_cases hsb : b.Scalar
      · exact hflip ha hb hsb hr hs h
      obtain ⟨text', rfl⟩ | ⟨items', rfl⟩ | ⟨fields', rfl⟩ :=
        not_scalar_cases hsb
      · obtain ⟨rfl, hrs⟩ := dumpsString_unique h
        exact ⟨rfl, hrs⟩
      · exact absurd (List.head_eq_of_cons_eq h) (by decide)
      · exact absurd (List.head_eq_of_cons_eq h) (by decide)
  | arr items ih =>
      intro b hb r s hr hs h
      by_cases hsb : b.Scalar
      · exact hflip ha hb hsb hr hs h
      obtain ⟨text', rfl⟩ | ⟨items', rfl⟩ | ⟨fields', rfl⟩ :=
        not_scalar_cases hsb
      · exact absurd (List.head_eq_of_cons_eq h) (by decide)
      · cases ha with
        | arr _ all =>
          cases hb with
          | arr _ all' =>
            exact arr_unique all all' (fun x hx => ih x hx (all x hx)) h
      · exact absurd (List.head_eq_of_cons_eq h) (by decide)
  | obj fields ih =>
      intro b hb r s hr hs h
      by_cases hsb : b.Scalar
      · exact hflip ha hb hsb hr hs h
      obtain ⟨text', rfl⟩ | ⟨items', rfl⟩ | ⟨fields', rfl⟩ :=
        not_scalar_cases hsb
      · exact absurd (List.head_eq_of_cons_eq h) (by decide)
      · exact absurd (List.head_eq_of_cons_eq h) (by decide)
      · cases ha with
        | obj _ distinct all =>
          cases hb with
          | obj _ distinct' all' =>
            exact obj_unique all' (fun x hx => ih x hx (all x hx)) h

theorem sortFields_idem (fields : List (String × Json)) :
    sortFields (sortFields fields) = sortFields fields := by
  let r : String × Json → String × Json → Prop := fun a b => a.1 ≤ b.1
  have : Std.Total r := ⟨fun a b => le_total a.1 b.1⟩
  have : IsTrans (String × Json) r := ⟨fun _ _ _ => le_trans⟩
  exact (List.pairwise_insertionSort r fields).insertionSort_eq

/-- The order of members does not show in the text. -/
theorem dumpsChars_canonical (a : Json) :
    dumpsChars a.canonical = dumpsChars a := by
  induction a using Json.induction with
  | null | bool | int | float | str => rfl
  | arr items ih =>
      rw [canonical_arr, dumpsChars_arr, dumpsChars_arr, List.map_map]
      congr 3
      exact List.map_congr_left ih
  | obj fields ih =>
      rw [canonical_obj, dumpsChars_obj, dumpsChars_obj]
      have hsorted : sortFields ((sortFields fields).map fun m =>
          (m.1, m.2.canonical)) =
          (sortFields fields).map fun m => (m.1, m.2.canonical) := by
        rw [sortFields, sort_map, sortFields_idem]
      rw [hsorted, List.map_map]
      congr 3
      refine List.map_congr_left fun m hm => ?_
      simp only [Function.comp, memberText, ih m (mem_sortFields.mp hm)]

theorem Equiv.dumps (h : a.Equiv b) : a.dumps = b.dumps := by
  rw [Json.dumps, Json.dumps, ← dumpsChars_canonical a, h,
    dumpsChars_canonical b]

/-- Values have one text exactly when they are equal up to the order of
members. -/
theorem dumps_eq_iff (ha : a.WellFormed) (hb : b.WellFormed) :
    a.dumps = b.dumps ↔ a.Equiv b := by
  refine ⟨fun h => ?_, Equiv.dumps⟩
  have hlist := congrArg String.toList h
  simp only [Json.dumps, String.toList_ofList] at hlist
  have hnil : Ends [] := fun _ h => nomatch h
  exact (dumpsChars_unique a ha b hb [] [] hnil hnil
    (by simpa using hlist)).1

end Values

end Hooklane.Json

namespace Hooklane

/-- `json.loads` reads back what `json.dumps` writes for the value. -/
def Stdlib.ReadsBack (lib : Stdlib) (value : Json) : Prop :=
  ∃ value', lib.jsonLoads value.dumps = .ok value' ∧ value'.Equiv value

namespace EventRequest

/-- The payload is one that Python can build. -/
def WellFormed (event : EventRequest) : Prop :=
  (Json.obj event.payload).WellFormed

/-- The same request, up to the order of members. -/
def Same (a b : EventRequest) : Prop :=
  a.eventType = b.eventType ∧ (Json.obj a.payload).Equiv (.obj b.payload)

variable {event event' : EventRequest} {lib : Stdlib}

theorem sortFields_request (x y : Json) :
    Json.sortFields [("event_type", x), ("payload", y)] =
      [("event_type", x), ("payload", y)] := by
  have hle : ("event_type" : String) ≤ "payload" := by decide
  simp [Json.sortFields, hle]

theorem canonicalRequest_eq_iff (h : event.WellFormed)
    (h' : event'.WellFormed) :
    event.canonicalRequest = event'.canonicalRequest ↔ event.Same event' := by
  have hwf : ∀ event : EventRequest, event.WellFormed → (Json.obj
      [("event_type", .str event.eventType),
        ("payload", .obj event.payload)]).WellFormed := by
    exact fun event h => .pair (by decide) (.str _) h
  rw [canonicalRequest, canonicalRequest,
    Json.dumps_eq_iff (hwf event h) (hwf event' h'), Json.Equiv,
    Json.canonical_obj, Json.canonical_obj, sortFields_request,
    sortFields_request]
  simp [Same, Json.Equiv, Json.canonical]

/-- With a hash that does not collide the fingerprint tells the request. -/
theorem fingerprint_eq_iff (hsha : Function.Injective lib.sha256)
    (h : event.WellFormed) (h' : event'.WellFormed) :
    event.fingerprint lib = event'.fingerprint lib ↔ event.Same event' :=
  hsha.eq_iff.trans (canonicalRequest_eq_iff h h')

/-- A value equal to an object is an object. -/
theorem obj_of_equiv {value : Json} {fields : List (String × Json)}
    (h : value.Equiv (.obj fields)) : ∃ fields', value = .obj fields' := by
  cases value with
  | obj fields' => exact ⟨fields', rfl⟩
  | null | bool | int | float | str => exact Json.noConfusion h
  | arr items =>
      rw [Json.Equiv, Json.canonical_arr, Json.canonical_obj] at h
      exact Json.noConfusion h

/-- The request that was stored is read back. -/
theorem validate_readsBack (hlib : lib.ReadsBack (.obj event.payload)) :
    ∃ value event', lib.jsonLoads event.payloadJson = .ok value ∧
      validate event.eventType value = some event' ∧ event'.Same event := by
  obtain ⟨value, hloads, hequiv⟩ := hlib
  obtain ⟨fields, rfl⟩ := obj_of_equiv hequiv
  refine ⟨_, ⟨event.eventType, fields, event.valid⟩, hloads, ?_, rfl, hequiv⟩
  rw [validate, dif_pos event.valid]

end EventRequest

end Hooklane
