import GrowTeam.JsonText
import Mathlib.Algebra.Order.Floor.Semiring
import Mathlib.Data.Int.Log
import Mathlib.Data.List.DropRight
import Mathlib.Data.List.Sort
import Mathlib.Data.Nat.Digits.Defs
import Mathlib.Data.Rat.Floor

/-!
# The canonical JSON of the runner and of the server

`canonical` of the runner and `canonical_json` of the server, from a JSON value to
the bytes that are hashed.  A value is what both parsers make of one JSON text:
strings are sequences of UTF-16 code units, whose points are the server's string;
a number without fraction or exponent is an integer, any other a double.
-/

namespace GrowTeam.Canonical

open Utf16 JsonText

/-! ## Numbers -/

/-- The absolute value of a finite double: `mantissa * 2 ^ exponent`. -/
structure Magnitude where
  mantissa : ℕ
  exponent : ℤ
  mantissa_lt : mantissa < 2 ^ 53
  exponent_ge : -1074 ≤ exponent
  exponent_le : exponent ≤ 971

inductive Double
  | finite (negative : Bool) (magnitude : Magnitude)
  | infinite (negative : Bool)

def maxSafeInteger : ℕ := 9007199254740991

namespace Magnitude

def value (m : Magnitude) : ℚ := m.mantissa * (2 : ℚ) ^ m.exponent

/-- The magnitude as an integer, if it is one. -/
def integral? (m : Magnitude) : Option ℕ :=
  if 0 ≤ m.exponent then some (m.mantissa * 2 ^ m.exponent.toNat)
  else if m.mantissa % 2 ^ m.exponent.natAbs = 0 then some (m.mantissa / 2 ^ m.exponent.natAbs)
  else none

end Magnitude

def Double.isFinite : Double → Bool
  | .finite _ _ => true
  | .infinite _ => false

/-- The integer that a double is, if `Number.isSafeInteger` holds of it. -/
def Double.safeInteger? : Double → Option ℤ
  | .finite negative m =>
    match m.integral? with
    | some n => if n ≤ maxSafeInteger then some (if negative then -n else n) else none
    | none => none
  | .infinite _ => none

/-- An integer as the runner reads it: beyond the safe integers it is rounded to a double,
which is not a safe integer either. -/
def safeInteger? (n : ℤ) : Option ℤ := if n.natAbs ≤ maxSafeInteger then some n else none

def decimal (n : ℕ) : Text :=
  if n = 0 then [48] else (Nat.digits 10 n).reverse.map fun d => 48 + d

def integerText (n : ℤ) : Text := if n < 0 then 45 :: decimal n.natAbs else decimal n.natAbs

/-! ### `float.__repr__` -/

variable (r : ℚ)

/-- The nearest integer, the even one of two. -/
def roundEven : ℕ :=
  if r - ⌊r⌋₊ < 1 / 2 then ⌊r⌋₊
  else if 1 / 2 < r - ⌊r⌋₊ then ⌊r⌋₊ + 1
  else if ⌊r⌋₊ % 2 = 0 then ⌊r⌋₊
  else ⌊r⌋₊ + 1

/-- The double nearest to a positive number. -/
def nearest : ℚ :=
  roundEven (r / 2 ^ max (Int.log 2 r - 52) (-1074)) * 2 ^ max (Int.log 2 r - 52) (-1074)

/-- The two integers around a number, the nearer one first. -/
def around : List ℕ :=
  if roundEven r = ⌊r⌋₊ then [⌊r⌋₊, ⌊r⌋₊ + 1] else [⌊r⌋₊ + 1, ⌊r⌋₊]

/-- The decimals `c * 10 ^ p` around a positive number, those of few digits first. -/
def decimals : List (ℕ × ℤ) :=
  (List.range 17).flatMap fun k =>
    (around (r / 10 ^ (Int.log 10 r - k))).map fun c => (c, Int.log 10 r - k)

/-- The fewest digits that are read back as the double `r`, and the place of their point. -/
def shortest : Text × ℤ :=
  match (decimals r).find? fun d => nearest (d.1 * 10 ^ d.2) = r with
  | some (c, p) => ((decimal c).rdropWhile fun d => d = 48, (decimal c).length + p)
  | none => ([48], 1)

def exponentText (e : ℤ) : Text :=
  (if e < 0 then 45 else 43) :: (if e.natAbs < 10 then 48 :: decimal e.natAbs else decimal e.natAbs)

/-- The digits with a decimal point, and with an exponent if the point is far away. -/
def pointed (digits : Text) (point : ℤ) : Text :=
  if point ≤ -4 ∨ 16 < point then
    (if digits.length ≤ 1 then digits else digits.take 1 ++ 46 :: digits.drop 1) ++
      101 :: exponentText (point - 1)
  else if point ≤ 0 then 48 :: 46 :: List.replicate point.natAbs 48 ++ digits
  else if point < digits.length then
    digits.take point.toNat ++ 46 :: digits.drop point.toNat
  else digits ++ List.replicate (point.toNat - digits.length) 48 ++ [46, 48]

def floatRepr : Double → Text
  | .finite negative m =>
    (if negative then [45] else []) ++
      if m.mantissa = 0 then pointed [48] 1
      else pointed (shortest m.value).1 (shortest m.value).2
  | .infinite negative => (if negative then [45] else []) ++ text "inf"

/-! ## Values -/

inductive Json
  | null
  | bool (b : Bool)
  | integer (n : ℤ)
  | float (x : Double)
  | string (s : List CodeUnit)
  | array (items : List Json)
  | object (members : List (List CodeUnit × Json))

/-- What a value is built from: its numbers, its strings, and the keys of each object. -/
inductive Part
  | integer (n : ℤ)
  | float (x : Double)
  | string (s : List CodeUnit)
  | keys (keys : List (List CodeUnit))

mutual

def Json.parts : Json → List Part
  | .null => []
  | .bool _ => []
  | .integer n => [.integer n]
  | .float x => [.float x]
  | .string s => [.string s]
  | .array items => itemParts items
  | .object members => .keys (members.map Prod.fst) :: memberParts members

def itemParts : List Json → List Part
  | [] => []
  | v :: rest => v.parts ++ itemParts rest

def memberParts : List (List CodeUnit × Json) → List Part
  | [] => []
  | (k, v) :: rest => .string k :: v.parts ++ memberParts rest

end

/-- A JSON value: the keys of each object are distinct, since both parsers keep the last of
several equal ones. -/
structure Value where
  json : Json
  distinct : ∀ keys, Part.keys keys ∈ json.parts → keys.Nodup

/-- Members in an order of their keys. -/
def sorted {α : Type} (le : List CodeUnit → List CodeUnit → Bool)
    (members : List (List CodeUnit × α)) : List (List CodeUnit × α) :=
  members.insertionSort fun a b => le a.1 b.1 = true

/-! ## The runner -/

/-- `requireThat(Number.isSafeInteger(value), …)` and then `JSON.stringify(value)`. -/
def canonicalNumber : Option ℤ → Except String Text
  | some n => .ok (integerText n)
  | none => .error "Unsafe protocol number"

/-- `JSON.stringify` of a string: character by character, lone surrogates escaped. -/
def stringify (s : List CodeUnit) : Text := quote (decode s)

def unitsLe (s t : List CodeUnit) : Bool := s ≤ t

/-- `Object.keys(value).sort()`, with what belongs to each key: in the order of code units. -/
def sortKeys {α : Type} (members : List (List CodeUnit × α)) : List (List CodeUnit × α) :=
  sorted unitsLe members

mutual

/-- The members are converted before they are sorted; the order of the results is that of
their keys either way, and the only error is the one of `canonicalNumber`. -/
def canonical : Json → Except String Text
  | .null => .ok (text "null")
  | .bool b => .ok (if b then text "true" else text "false")
  | .integer n => canonicalNumber (safeInteger? n)
  | .float x => canonicalNumber x.safeInteger?
  | .string s => .ok (stringify s)
  | .array items => do
    let texts ← canonicalItems items
    return 91 :: commas texts ++ [93]
  | .object members => do
    let texts ← canonicalMembers members
    return 123 :: commas ((sortKeys texts).map fun m => stringify m.1 ++ 58 :: m.2) ++ [125]

def canonicalItems : List Json → Except String (List Text)
  | [] => return []
  | v :: rest => do
    let t ← canonical v
    let texts ← canonicalItems rest
    return t :: texts

def canonicalMembers :
    List (List CodeUnit × Json) → Except String (List (List CodeUnit × Text))
  | [] => return []
  | (k, v) :: rest => do
    let t ← canonical v
    let texts ← canonicalMembers rest
    return (k, t) :: texts

end

/-- `Hash.update` of a string: its UTF-8 bytes, a lone surrogate as the replacement character. -/
def update (t : Text) : ByteArray :=
  (String.ofList (t.map fun p => if isSurrogate p then Char.ofNat 0xFFFD else Char.ofNat p)).toUTF8

/-- The bytes that `digest` hashes. -/
def digestInput (v : Value) : Except String ByteArray := (canonical v.json).map update

/-! ## The server -/

/-- A character inside a string with `ensure_ascii=False`. -/
def escapeBasestring (p : ℕ) : Text :=
  match shortEscape p with
  | some letter => [92, letter]
  | none => if p < 32 then unicodeEscape p else [p]

/-- `json.encoder.encode_basestring`. -/
def encodeBasestring (s : List ℕ) : Text := 34 :: s.flatMap escapeBasestring ++ [34]

/-- A number that is not an integer, with `allow_nan=False`. -/
def floatstr (x : Double) : Except String Text :=
  if x.isFinite then .ok (floatRepr x)
  else .error "Out of range float values are not JSON compliant"

def pointsLe (s t : List CodeUnit) : Bool := decode s ≤ decode t

/-- `sort_keys=True`: in the order of code points. -/
def sortItems {α : Type} (members : List (List CodeUnit × α)) : List (List CodeUnit × α) :=
  sorted pointsLe members

mutual

/-- `json.dumps` with the arguments of `canonical_json`. -/
def dumps : Json → Except String Text
  | .null => .ok (text "null")
  | .bool b => .ok (if b then text "true" else text "false")
  | .integer n => .ok (integerText n)
  | .float x => floatstr x
  | .string s => .ok (encodeBasestring (decode s))
  | .array items => do
    let texts ← dumpsItems items
    return 91 :: commas texts ++ [93]
  | .object members => do
    let texts ← dumpsMembers members
    return 123 :: commas ((sortItems texts).map fun m =>
      encodeBasestring (decode m.1) ++ 58 :: m.2) ++ [125]

def dumpsItems : List Json → Except String (List Text)
  | [] => return []
  | v :: rest => do
    let t ← dumps v
    let texts ← dumpsItems rest
    return t :: texts

def dumpsMembers :
    List (List CodeUnit × Json) → Except String (List (List CodeUnit × Text))
  | [] => return []
  | (k, v) :: rest => do
    let t ← dumps v
    let texts ← dumpsMembers rest
    return (k, t) :: texts

end

/-- `str.encode`: a lone surrogate is an error. -/
def encode (t : Text) : Except String ByteArray :=
  if t.any isSurrogate then .error "surrogates not allowed"
  else .ok (String.ofList (t.map Char.ofNat)).toUTF8

def canonicalJson (v : Value) : Except String ByteArray := do
  let t ← dumps v.json
  encode t

/-- Both reject, or both hash the same bytes. -/
def SameOutcome : Except String ByteArray → Except String ByteArray → Prop
  | .ok a, .ok b => a = b
  | .error _, .error _ => True
  | _, _ => False

instance : ∀ a b, Decidable (SameOutcome a b)
  | .ok a, .ok b => inferInstanceAs (Decidable (a = b))
  | .error _, .error _ => .isTrue trivial
  | .ok _, .error _ => .isFalse id
  | .error _, .ok _ => .isFalse id

def SameBytes (v : Value) : Prop := SameOutcome (digestInput v) (canonicalJson v)

instance (v : Value) : Decidable (SameBytes v) :=
  inferInstanceAs (Decidable (SameOutcome (digestInput v) (canonicalJson v)))

end GrowTeam.Canonical
