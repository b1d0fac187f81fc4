import Mathlib.Data.Int.Notation
import Mathlib.Data.Nat.Notation
import Mathlib.Data.List.Basic

/-!
# Python's text functions

`str.strip` and `int(text, base)` as CPython computes them.  `int` accepts
surrounding white space, a sign, a base prefix for base sixteen, single
underscores between digits and the decimal digits of every script; in base ten
it refuses more than 4300 digits.
-/

namespace Hooklane

/-- Characters for which `str.isspace` holds. -/
def isSpace (c : Char) : Bool :=
  let n := c.toNat
  (0x09 ≤ n && n ≤ 0x0d) || (0x1c ≤ n && n ≤ 0x20) || n == 0x85 || n == 0xa0 ||
    n == 0x1680 || (0x2000 ≤ n && n ≤ 0x200a) || n == 0x2028 || n == 0x2029 ||
    n == 0x202f || n == 0x205f || n == 0x3000

/-- Drop the characters satisfying `p` from both ends. -/
def stripBy (p : Char → Bool) (cs : List Char) : List Char :=
  ((cs.dropWhile p).reverse.dropWhile p).reverse

/-- `str.strip()`. -/
def strip (cs : List Char) : List Char := stripBy isSpace cs

/-- The value of an ASCII digit in bases up to sixteen. -/
def hexValue (c : Char) : Option (Fin 16) :=
  let n := c.toNat
  if h : 48 ≤ n ∧ n ≤ 57 then some ⟨n - 48, by omega⟩
  else if h : 97 ≤ n ∧ n ≤ 102 then some ⟨n - 87, by omega⟩
  else if h : 65 ≤ n ∧ n ≤ 70 then some ⟨n - 55, by omega⟩
  else none

/-- Digits of a base, with single underscores allowed between them. -/
def digitsOf (base : ℕ) : List Char → Option (List (Fin 16))
  | [] => none
  | [c] => (hexValue c).bind fun d => if d < base then some [d] else none
  | c :: '_' :: c' :: rest => do
      let d ← hexValue c
      let ds ← digitsOf base (c' :: rest)
      if d < base then some (d :: ds) else none
  | c :: rest => do
      let d ← hexValue c
      let ds ← digitsOf base rest
      if d < base then some (d :: ds) else none

def digitsValue (base : ℕ) (ds : List (Fin 16)) : ℕ :=
  ds.foldl (fun n d => base * n + d) 0

/-- Base sixteen allows a `0x` prefix, optionally followed by an underscore. -/
def dropBasePrefix (base : ℕ) : List Char → List Char
  | '0' :: x :: '_' :: rest =>
      if base = 16 ∧ (x = 'x' ∨ x = 'X') then rest else '0' :: x :: '_' :: rest
  | '0' :: x :: rest =>
      if base = 16 ∧ (x = 'x' ∨ x = 'X') then rest else '0' :: x :: rest
  | cs => cs

/-- Where the ten digits of each script begin, beyond ASCII (category Nd of
Unicode 15.0). -/
def decimalZeros : List ℕ :=
  [0x660, 0x6f0, 0x7c0, 0x966, 0x9e6, 0xa66, 0xae6, 0xb66, 0xbe6, 0xc66, 0xce6,
    0xd66, 0xde6, 0xe50, 0xed0, 0xf20, 0x1040, 0x1090, 0x17e0, 0x1810, 0x1946,
    0x19d0, 0x1a80, 0x1a90, 0x1b50, 0x1bb0, 0x1c40, 0x1c50, 0xa620, 0xa8d0,
    0xa900, 0xa9d0, 0xa9f0, 0xaa50, 0xabf0, 0xff10, 0x104a0, 0x10d30, 0x11066,
    0x110f0, 0x11136, 0x111d0, 0x112f0, 0x11450, 0x114d0, 0x11650, 0x116c0,
    0x11730, 0x118e0, 0x11950, 0x11c50, 0x11d50, 0x11da0, 0x11f50, 0x16a60,
    0x16ac0, 0x16b50, 0x1d7ce, 0x1d7d8, 0x1d7e2, 0x1d7ec, 0x1d7f6, 0x1e140,
    0x1e2f0, 0x1e4f0, 0x1e950, 0x1fbf0]

/-- `_PyUnicode_TransformDecimalAndSpaceToASCII` on one character; `none` for
one that no number contains. -/
def toAscii (c : Char) : Option Char :=
  if c.toNat < 127 then some c
  else if isSpace c then some ' '
  else
    (decimalZeros.find? fun first => first ≤ c.toNat && c.toNat < first + 10).map
      fun first => Nat.digitChar (c.toNat - first)

/-- The white space of ASCII that `int` skips. -/
def isAsciiSpace (c : Char) : Bool :=
  c == ' ' || (0x09 ≤ c.toNat && c.toNat ≤ 0x0d)

/-- The most digits that `int` reads in a base that is no power of two. -/
def maxStrDigits : ℕ := 4300

/-- `int(text, base)`, or `none` where it raises `ValueError`. -/
def pyInt (base : ℕ) (text : List Char) : Option ℤ :=
  let magnitude (cs : List Char) : Option ℤ := do
    let ds ← digitsOf base (dropBasePrefix base cs)
    if base = 16 ∨ ds.length ≤ maxStrDigits then some (digitsValue base ds)
    else none
  (text.mapM toAscii).bind fun ascii =>
    match stripBy isAsciiSpace ascii with
    | '-' :: cs => (magnitude cs).map fun n => -n
    | '+' :: cs => magnitude cs
    | cs => magnitude cs

/-- Neither white space nor a sign, and left alone by `toAscii`. -/
structure PlainChar (c : Char) : Prop where
  ascii : c.toNat < 127
  space : isAsciiSpace c = false
  minus : c ≠ '-'
  plus : c ≠ '+'

/-- Remove every occurrence of a nonempty pattern, left to right
(`str.replace(pattern, "")`). -/
def removeAll (pattern : List Char) (cs : List Char) : List Char :=
  go cs.length cs
where
  /-- At most one step per remaining character. -/
  go : ℕ → List Char → List Char
    | 0, cs => cs
    | _ + 1, [] => []
    | n + 1, c :: rest =>
        if pattern.isPrefixOf (c :: rest) then
          go n ((c :: rest).drop pattern.length)
        else c :: go n rest

theorem removeAll_eq_self {c : Char} {pattern cs : List Char} (h : c ∉ cs) :
    removeAll (c :: pattern) cs = cs := by
  have hgo : ∀ n cs, c ∉ cs → removeAll.go (c :: pattern) n cs = cs := by
    intro n
    induction n with
    | zero => intro cs _; rfl
    | succ n ih =>
        intro cs hcs
        cases cs with
        | nil => rfl
        | cons d rest =>
            rw [List.mem_cons, not_or] at hcs
            have hhead : (c == d) = false := by simpa using hcs.1
            rw [removeAll.go, ih rest hcs.2]
            simp [List.isPrefixOf, hhead]
  exact hgo _ cs h

theorem stripBy_eq_self {p : Char → Bool} {cs : List Char}
    (h : ∀ c ∈ cs, p c = false) : stripBy p cs = cs := by
  have hdrop : ∀ l : List Char, (∀ c ∈ l, p c = false) → l.dropWhile p = l := by
    intro l hl
    cases l with
    | nil => rfl
    | cons c rest =>
        have hc := hl c List.mem_cons_self
        rw [List.dropWhile_cons_of_neg (by simp [hc])]
  rw [stripBy, hdrop cs h, hdrop _ (by simpa using h), List.reverse_reverse]

theorem mapM_toAscii {cs : List Char} (h : ∀ c ∈ cs, c.toNat < 127) :
    cs.mapM toAscii = some cs := by
  induction cs with
  | nil => rfl
  | cons c cs ih =>
      have hc : toAscii c = some c := if_pos (h c List.mem_cons_self)
      rw [List.mapM_cons, hc, ih fun d hd => h d (List.mem_cons_of_mem _ hd)]
      rfl

/-- A text without sign and white space is read as its digits are. -/
theorem pyInt_plain {base : ℕ} {cs : List Char} {ds : List (Fin 16)}
    (hplain : ∀ c ∈ cs, PlainChar c)
    (hdigits : digitsOf base (dropBasePrefix base cs) = some ds)
    (hlength : base = 16 ∨ ds.length ≤ maxStrDigits) :
    pyInt base cs = some (digitsValue base ds : ℤ) := by
  have hascii := mapM_toAscii fun c hc => (hplain c hc).ascii
  have hstrip : stripBy isAsciiSpace cs = cs :=
    stripBy_eq_self fun c hc => (hplain c hc).space
  simp only [pyInt, hascii, Option.bind_some, hstrip]
  split
  · next rest =>
    exact absurd rfl (hplain '-' List.mem_cons_self).minus
  · next rest =>
    exact absurd rfl (hplain '+' List.mem_cons_self).plus
  · rw [hdigits]
    exact if_pos hlength

/-- The same behind a minus sign. -/
theorem pyInt_minus {base : ℕ} {cs : List Char} {ds : List (Fin 16)}
    (hplain : ∀ c ∈ cs, PlainChar c)
    (hdigits : digitsOf base (dropBasePrefix base cs) = some ds)
    (hlength : base = 16 ∨ ds.length ≤ maxStrDigits) :
    pyInt base ('-' :: cs) = some (-(digitsValue base ds : ℤ)) := by
  have hascii : ('-' :: cs).mapM toAscii = some ('-' :: cs) := by
    refine mapM_toAscii fun c hc => ?_
    rcases List.mem_cons.mp hc with rfl | hc
    · decide
    · exact (hplain c hc).ascii
  have hstrip : stripBy isAsciiSpace ('-' :: cs) = '-' :: cs := by
    refine stripBy_eq_self fun c hc => ?_
    rcases List.mem_cons.mp hc with rfl | hc
    · decide
    · exact (hplain c hc).space
  have hmagnitude : (if base = 16 ∨ ds.length ≤ maxStrDigits then
      some (digitsValue base ds : ℤ) else none) = some ↑(digitsValue base ds) :=
    if_pos hlength
  simp only [pyInt, hascii, Option.bind_some, hstrip, hdigits]
  exact congrArg (Option.map fun n => -n) hmagnitude

end Hooklane
