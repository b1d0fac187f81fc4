import Hooklane.Domain.PyText
import Mathlib.Data.List.Sort
import Mathlib.Data.String.Basic

/-!
# JSON values and their canonical text

`Json.dumps` is `json.dumps` with `ensure_ascii=False`, `separators=(",", ":")`
and `sort_keys=True`, the one form in which both backends write a payload.  A
float is carried by the text that `json.dumps` writes for it.
-/

namespace Hooklane

inductive Json where
  | null
  | bool (value : Bool)
  | int (value : ℤ)
  | float (literal : String)
  | str (value : String)
  | arr (items : List Json)
  | obj (fields : List (String × Json))

namespace Json

def hexChar (n : ℕ) : Char := Nat.digitChar (n % 16)

/-- Quotes, backslashes and control characters are escaped, nothing else. -/
def escapeChar (c : Char) : List Char :=
  if c = '"' then ['\\', '"']
  else if c = '\\' then ['\\', '\\']
  else if c = '\n' then ['\\', 'n']
  else if c = '\r' then ['\\', 'r']
  else if c = '\t' then ['\\', 't']
  else if c.toNat = 0x08 then ['\\', 'b']
  else if c.toNat = 0x0c then ['\\', 'f']
  else if c.toNat < 0x20 then
    ['\\', 'u', '0', '0', hexChar (c.toNat / 16), hexChar c.toNat]
  else [c]

def dumpsString (text : String) : List Char :=
  '"' :: (text.toList.flatMap escapeChar ++ ['"'])

/-- Join the parts with commas. -/
def commaSep : List (List Char) → List Char
  | [] => []
  | [part] => part
  | part :: rest => part ++ ',' :: commaSep rest

/-- Members in the order of their keys. -/
def sortMembers (members : List (String × List Char)) :
    List (String × List Char) :=
  members.insertionSort fun a b => a.1 ≤ b.1

mutual

def dumpsChars : Json → List Char
  | .null => "null".toList
  | .bool true => "true".toList
  | .bool false => "false".toList
  | .int n => (toString n).toList
  | .float literal => literal.toList
  | .str text => dumpsString text
  | .arr items => '[' :: (commaSep (dumpsItems items) ++ [']'])
  | .obj fields =>
      '{' :: (commaSep ((sortMembers (dumpsMembers fields)).map
        fun m => dumpsString m.1 ++ ':' :: m.2) ++ ['}'])

def dumpsItems : List Json → List (List Char)
  | [] => []
  | item :: rest => dumpsChars item :: dumpsItems rest

def dumpsMembers : List (String × Json) → List (String × List Char)
  | [] => []
  | (key, value) :: rest => (key, dumpsChars value) :: dumpsMembers rest

end

/-- `json.dumps(value, ensure_ascii=False, separators=(",", ":"),
sort_keys=True)`. -/
def dumps (value : Json) : String := String.ofList (dumpsChars value)

end Json

/-- Why a text cannot be read: `malformed` for the exceptions that are handled
like `ValueError`, or the `RecursionError` of a text nested too deeply. -/
inductive ParseError where
  | malformed
  | recursion
deriving DecidableEq, Repr

/-- A step of a parsing whose failure is handled like `ValueError`. -/
def orMalformed {α : Type} : Option α → Except ParseError α
  | some a => .ok a
  | none => .error .malformed

@[simp]
theorem orMalformed_some {α : Type} (a : α) : orMalformed (some a) = .ok a :=
  rfl

@[simp]
theorem ok_bind {α β : Type} (a : α) (f : α → Except ParseError β) :
    (Except.ok a >>= f) = f a :=
  rfl

/-- Functions of the libraries that the code calls and the model leaves open:
the hexadecimal SHA-256 digest of a text, and `json.loads` with the check that
pydantic makes of its result as a `JsonValue`. -/
structure Stdlib where
  jsonLoads : String → Except ParseError Json
  sha256 : String → String

/-- `json.loads` where every exception is handled alike. -/
def Stdlib.readJson (lib : Stdlib) (text : String) : Option Json :=
  (lib.jsonLoads text).toOption

theorem Stdlib.readJson_of_ok {lib : Stdlib} {text : String} {value : Json}
    (h : lib.jsonLoads text = .ok value) : lib.readJson text = some value := by
  rw [readJson, h]
  rfl

end Hooklane
