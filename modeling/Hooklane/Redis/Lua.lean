import Hooklane.Redis.Text
import Hooklane.Support.Double
import Mathlib.Data.List.TakeWhile
import Mathlib.Tactic.NormNum

/-!
# Numbers of Lua

Scripts run in Lua 5.1, whose numbers are doubles.  `tonumber` reads a text by
the C function `strtod`, and a number that a script returns is converted to a
64-bit integer.
-/

namespace Redis

open Support

/-- `number < 1`, for a number that is yet to be rounded.  The midpoint between
one and the double before it is rounded to one. -/
def lessThanOne : Double → Bool
  | .nan => false
  | .infinite negative => negative
  | .finite value => decide (value < 1 - 1 / 2 ^ 54)

theorem one_le_of_not_lessThanOne {n : ℕ}
    (h : ¬lessThanOne (.finite n) = true) : 1 ≤ n := by
  rw [lessThanOne, decide_eq_true_eq] at h
  refine Nat.one_le_iff_ne_zero.mpr fun hzero => h ?_
  rw [hzero]
  norm_num

section Reading

/-- `isspace` of the C locale. -/
def isCSpace (c : Char) : Bool :=
  c == ' ' || (0x09 ≤ c.toNat && c.toNat ≤ 0x0d)

/-- Whether a minus sign stands in front, and what follows the sign. -/
def takeSign : List Char → Bool × List Char
  | '-' :: cs => (true, cs)
  | '+' :: cs => (false, cs)
  | cs => (false, cs)

/-- What follows a word, whose letters may be of either case. -/
def dropWord (word : String) (cs : List Char) : Option (List Char) :=
  let letters := word.toList
  if (cs.take letters.length).map Char.toLower = letters then
    some (cs.drop letters.length)
  else none

/-- A digit of base ten or sixteen. -/
def isDigitOf (base : ℕ) (c : Char) : Bool :=
  c.isDigit || (base == 16 && (('a' ≤ c.toLower) && (c.toLower ≤ 'f')))

def digitValue (c : Char) : ℕ :=
  if c.isDigit then c.toNat - '0'.toNat else c.toLower.toNat - 'a'.toNat + 10

def digitsNumber (base : ℕ) (cs : List Char) : ℕ :=
  cs.foldl (fun n c => base * n + digitValue c) 0

/-- Digits with at most one point between them: their number without the
point, how many stand behind it, and the rest of the text. -/
def takeMantissa (base : ℕ) (cs : List Char) : Option (ℕ × ℕ × List Char) :=
  let (whole, rest) := cs.span (isDigitOf base)
  let (fraction, rest) :=
    match rest with
    | '.' :: tail => tail.span (isDigitOf base)
    | rest => ([], rest)
  if whole ++ fraction = [] then none
  else some (digitsNumber base (whole ++ fraction), fraction.length, rest)

/-- An exponent, which counts only if a digit follows its mark and sign. -/
def takeExponent (mark : Char) : List Char → ℤ × List Char
  | [] => (0, [])
  | c :: cs =>
      let (negative, digits) := takeSign cs
      let (digits, rest) := digits.span Char.isDigit
      let magnitude : ℤ := digitsNumber 10 digits
      if c.toLower = mark ∧ digits ≠ [] then
        (if negative then -magnitude else magnitude, rest)
      else (0, c :: cs)

/-- A numeral whose exponent scales by powers of `scale`. -/
def takeNumeral (base scale : ℕ) (mark : Char) (cs : List Char) :
    Option (Double × List Char) := do
  let (number, places, rest) ← takeMantissa base cs
  let (exponent, rest) := takeExponent mark rest
  return (.finite (number * (scale : ℚ) ^ exponent / (base : ℚ) ^ places), rest)

/-- The characters in parentheses that may follow `nan`. -/
def dropPayload : List Char → List Char
  | '(' :: cs =>
      match cs.dropWhile fun c => c.isAlphanum || c == '_' with
      | ')' :: rest => rest
      | _ => '(' :: cs
  | cs => cs

/-- `strtod` behind the sign: the number and the text it leaves. -/
def takeUnsigned (cs : List Char) : Option (Double × List Char) :=
  let infinity := (dropWord "infinity" cs <|> dropWord "inf" cs).map
    fun rest => (Double.infinite false, rest)
  let nan := (dropWord "nan" cs).map
    fun rest => (Double.nan, dropPayload rest)
  let hex := (dropWord "0x" cs).bind (takeNumeral 16 2 'p')
  infinity <|> nan <|> hex <|> takeNumeral 10 10 'e' cs

/-- `tonumber`, less the rounding to a double.  The text ends at its first null
character, and nothing but white space may follow the number. -/
def luaNumber (text : String) : Option Double :=
  let cs := text.toList.takeWhile fun c => c.toNat ≠ 0
  let (negative, cs) := takeSign (cs.dropWhile isCSpace)
  match takeUnsigned cs with
  | some (number, rest) =>
      if rest.all isCSpace then some (if negative then number.neg else number)
      else none
  | none => none

theorem digitsNumber_toDigits (n : ℕ) :
    digitsNumber 10 (Nat.toDigits 10 n) = n := by
  have hfold : ∀ (cs : List Char) (m : ℕ), (∀ c ∈ cs, c.isDigit = true) →
      cs.foldl (fun n c => 10 * n + digitValue c) m =
        Nat.ofDigitChars 10 cs m := by
    intro cs
    induction cs with
    | nil => exact fun _ _ => rfl
    | cons c cs ih =>
        intro m hdigits
        have hc : digitValue c = c.toNat - '0'.toNat :=
          if_pos (hdigits c List.mem_cons_self)
        rw [List.foldl_cons, hc]
        exact ih _ fun d hd => hdigits d (List.mem_cons_of_mem _ hd)
  have hdigits : ∀ c ∈ Nat.toDigits 10 n, c.isDigit = true :=
    fun c hc => Nat.isDigit_of_mem_toDigits (by decide) (by decide) hc
  rw [digitsNumber, hfold _ 0 hdigits, Nat.ofDigitChars_ten_toDigits]

theorem toNat_of_isDigit {c : Char} (h : c.isDigit = true) :
    48 ≤ c.toNat ∧ c.toNat ≤ 57 := by
  simpa [Char.isDigit, UInt32.le_iff_toNat_le] using h

theorem toLower_of_isDigit {c : Char} (h : c.isDigit = true) :
    c.toLower = c := by
  have hrange := toNat_of_isDigit h
  have hupper : ¬(c.val ≥ 65 ∧ c.val ≤ 90) := by
    rw [ge_iff_le, UInt32.le_iff_toNat_le, UInt32.le_iff_toNat_le]
    exact fun hletter => absurd hletter.1 (by simp; omega)
  exact dif_neg hupper

/-- Digits alone spell no word. -/
theorem dropWord_of_isDigit (word : String) (letter : Char) {cs : List Char}
    (hmem : letter ∈ word.toList) (hletter : letter.isDigit = false)
    (hdigits : ∀ c ∈ cs, c.isDigit = true) : dropWord word cs = none := by
  refine if_neg fun hsame => ?_
  rw [← hsame] at hmem
  obtain ⟨c, hc, rfl⟩ := List.mem_map.mp hmem
  have hdigit := hdigits c (List.mem_of_mem_take hc)
  rw [toLower_of_isDigit hdigit, hdigit] at hletter
  cases hletter

/-- `tonumber` on a natural number. -/
theorem luaNumber_natRepr (n : ℕ) :
    luaNumber (toString n) = some (.finite n) := by
  have hlist : (toString n).toList = Nat.toDigits 10 n := Nat.toList_repr
  have hdigits : ∀ c ∈ Nat.toDigits 10 n, c.isDigit = true :=
    fun c hc => Nat.isDigit_of_mem_toDigits (by decide) (by decide) hc
  have hends : (Nat.toDigits 10 n).takeWhile (fun c => c.toNat ≠ 0) =
      Nat.toDigits 10 n := by
    refine List.takeWhile_eq_self_iff.mpr fun c hc => ?_
    have hrange := toNat_of_isDigit (hdigits c hc)
    rw [decide_eq_true_eq]
    omega
  have hstart : takeSign ((Nat.toDigits 10 n).dropWhile isCSpace) =
      (false, Nat.toDigits 10 n) := by
    cases hcs : Nat.toDigits 10 n with
    | nil => exact absurd hcs Nat.toDigits_ne_nil
    | cons c cs =>
        have hc := hdigits c (hcs ▸ List.mem_cons_self)
        have hspace : isCSpace c = false := by
          have hrange := toNat_of_isDigit hc
          have hblank : c ≠ ' ' := by
            rintro rfl
            cases hc
          simp only [isCSpace, Bool.or_eq_false_iff, Bool.and_eq_false_iff,
            decide_eq_false_iff_not, beq_eq_false_iff_ne]
          exact ⟨hblank, by omega⟩
        rw [List.dropWhile_cons_of_neg (by simp [hspace])]
        unfold takeSign
        split
        · next heq =>
          obtain ⟨rfl, -⟩ := List.cons.inj heq
          cases hc
        · next heq =>
          obtain ⟨rfl, -⟩ := List.cons.inj heq
          cases hc
        · rfl
  have hspan : (Nat.toDigits 10 n).span (isDigitOf 10) =
      (Nat.toDigits 10 n, []) := by
    have hall : ∀ c ∈ Nat.toDigits 10 n, isDigitOf 10 c = true :=
      fun c hc => by simp [isDigitOf, hdigits c hc]
    rw [List.span_eq_takeWhile_dropWhile, List.takeWhile_eq_self_iff.mpr hall,
      List.dropWhile_eq_nil_iff.mpr hall]
  have hmantissa : takeMantissa 10 (Nat.toDigits 10 n) = some (n, 0, []) := by
    rw [takeMantissa, hspan]
    simp [digitsNumber_toDigits]
  have hnumber : takeUnsigned (Nat.toDigits 10 n) =
      some (.finite n, []) := by
    rw [takeUnsigned,
      dropWord_of_isDigit "infinity" 'i' (by decide) rfl hdigits,
      dropWord_of_isDigit "inf" 'i' (by decide) rfl hdigits,
      dropWord_of_isDigit "nan" 'n' (by decide) rfl hdigits,
      dropWord_of_isDigit "0x" 'x' (by decide) rfl hdigits]
    simp [takeNumeral, hmantissa, takeExponent]
  rw [luaNumber, hlist]
  simp only [hends, hstart, hnumber]
  rfl

end Reading

section Returning

/-- A number as an integer reply.  A double keeps 53 bits, ties going to the
even neighbour; converting 2^63 back gives the smallest integer (x86-64). -/
def luaInteger (n : ℤ) : ℤ :=
  let unit := 2 ^ (n.natAbs.log2 - 52)
  let quotient := n.natAbs / unit
  let remainder := n.natAbs % unit
  let rounded :=
    if unit < 2 * remainder ∨ unit = 2 * remainder ∧ quotient % 2 = 1 then
      (quotient + 1) * unit
    else quotient * unit
  let value := n.sign * (rounded : ℤ)
  if value = int64Bound then -int64Bound else value

/-- Up to 2^53 nothing is lost. -/
theorem luaInteger_eq {n : ℤ} (h : n.natAbs ≤ 2 ^ 53) : luaInteger n = n := by
  have hunit : n.natAbs % 2 ^ (n.natAbs.log2 - 52) = 0 := by
    rcases Nat.lt_or_eq_of_le h with hlt | heq
    · -- Below 2^53 the unit is one.
      have hlog : n.natAbs.log2 - 52 = 0 := by
        rcases Nat.eq_zero_or_pos n.natAbs with hzero | hpos
        · rw [hzero]
          rfl
        · have hbits := (Nat.log2_lt hpos.ne').mpr hlt
          omega
      rw [hlog]
      exact Nat.mod_one _
    · rw [heq]
      decide
  have hrounded : n.natAbs / 2 ^ (n.natAbs.log2 - 52) *
      2 ^ (n.natAbs.log2 - 52) = n.natAbs :=
    Nat.div_mul_cancel (Nat.dvd_of_mod_eq_zero hunit)
  have hsmall : n ≠ int64Bound := by
    rintro rfl
    exact absurd h (by decide)
  have hvalue : n.sign * (n.natAbs : ℤ) = n := Int.sign_mul_natAbs n
  have hexact : ¬(2 ^ (n.natAbs.log2 - 52) < 2 * 0 ∨
      2 ^ (n.natAbs.log2 - 52) = 2 * 0 ∧
        n.natAbs / 2 ^ (n.natAbs.log2 - 52) % 2 = 1) := by
    have hpos := Nat.two_pow_pos (n.natAbs.log2 - 52)
    omega
  simp only [luaInteger, hunit, if_neg hexact, hrounded, hvalue]
  exact if_neg hsmall

end Returning

end Redis
