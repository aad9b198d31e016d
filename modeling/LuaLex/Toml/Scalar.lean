import LuaLex.Toml.Item

/-!
# TOML words

Values that are written as one word: booleans, numbers and dates. A word is judged as a whole.
-/

namespace LuaLex.Toml

/-! ## Numbers -/

/-- Digits, with single underscores between them. -/
def isDigits (isDigit : Char → Bool) : List Char → Bool
  | [] => false
  | [c] => isDigit c
  | c :: '_' :: rest => isDigit c && isDigits isDigit rest
  | c :: rest => isDigit c && isDigits isDigit rest

/-- The value of a hexadecimal digit, in either case. -/
def digitValue (c : Char) : Nat :=
  if c.isDigit then c.toNat - '0'.toNat
  else if 'a' ≤ c then c.toNat - 'a'.toNat + 10
  else c.toNat - 'A'.toNat + 10

/-- The number that digits spell in a base; underscores do not count. -/
def digitsValue (base : Nat) (digits : List Char) : Nat :=
  (digits.filter (· != '_')).foldl (fun n c => n * base + digitValue c) 0

/-- Whether a character is a digit of hexadecimal numbers. -/
def isHexDigit (c : Char) : Bool :=
  c.isDigit || ('a' ≤ c && c ≤ 'f') || ('A' ≤ c && c ≤ 'F')

/-- Whether a character is a digit of octal numbers. -/
def isOctalDigit (c : Char) : Bool := '0' ≤ c && c ≤ '7'

/-- Whether a character is a digit of binary numbers. -/
def isBinaryDigit (c : Char) : Bool := c == '0' || c == '1'

/-- A word without its sign, and whether the sign was a minus. -/
def unsigned : List Char → Bool × List Char
  | '-' :: rest => (true, rest)
  | '+' :: rest => (false, rest)
  | word => (false, word)

/-- Decimal digits without a leading zero. -/
def isWhole (digits : List Char) : Bool :=
  digits == ['0'] || (isDigits Char.isDigit digits && digits.head? != some '0')

/-- The first number that 64 bits with a sign do not hold. -/
def integerLimit : Nat := Nat.pow 2 63

/-- Integers: decimal with a sign or without, or without one in another base, within 64 bits. -/
def isInteger : List Char → Bool
  | '0' :: 'x' :: digits => isDigits isHexDigit digits && digitsValue 16 digits < integerLimit
  | '0' :: 'o' :: digits => isDigits isOctalDigit digits && digitsValue 8 digits < integerLimit
  | '0' :: 'b' :: digits => isDigits isBinaryDigit digits && digitsValue 2 digits < integerLimit
  | word =>
    let (negative, digits) := unsigned word
    isWhole digits &&
      digitsValue 10 digits < if negative then integerLimit + 1 else integerLimit

/-- The least number that rounds to infinity as a floating-point number of 64 bits. -/
def floatLimit : Nat := Nat.pow 2 1024 - Nat.pow 2 970

/-- Whether the decimal number `mantissa` times ten to the power `exponent` is too large for a
floating-point number of 64 bits. -/
def overflows (mantissa : Nat) (exponent : Int) : Bool :=
  let magnitude := (Nat.toDigits 10 mantissa).length + exponent
  if mantissa = 0 || magnitude < 300 then false
  else if 320 < magnitude then true
  else floatLimit * Nat.pow 10 (-exponent).toNat ≤ mantissa * Nat.pow 10 exponent.toNat

/-- An exponent behind its letter: digits with a sign or without. -/
def exponent? (word : List Char) : Option Int :=
  let (negative, digits) := unsigned word
  if isDigits Char.isDigit digits then
    let value : Int := digitsValue 10 digits
    some (if negative then -value else value)
  else none

/-- What stands behind the whole part of a number: a fraction, an exponent or both. -/
def fractionAndExponent? : List Char → Option (List Char × Int)
  | '.' :: rest =>
    let (digits, rest) := rest.span fun c => c.isDigit || c == '_'
    if isDigits Char.isDigit digits then
      match rest with
      | [] => some (digits, 0)
      | c :: power => if c == 'e' || c == 'E' then (exponent? power).map (digits, ·) else none
    else none
  | c :: power => if c == 'e' || c == 'E' then (exponent? power).map ([], ·) else none
  | [] => none

/-- Floating-point numbers, and the words for infinity and for no number. A positive number that is
too large is refused. -/
def isFloat (word : List Char) : Bool :=
  let (negative, digits) := unsigned word
  if digits == ['i', 'n', 'f'] || digits == ['n', 'a', 'n'] then true
  else
    let (whole, rest) := digits.span fun c => c.isDigit || c == '_'
    match fractionAndExponent? rest with
    | none => false
    | some (fraction, exponent) =>
      let places := (fraction.filter (· != '_')).length
      isWhole whole &&
        (negative || !overflows (digitsValue 10 (whole ++ fraction)) (exponent - places))

/-! ## Dates -/

/-- The value of exactly these decimal digits. -/
def fixedDigits? (digits : List Char) : Option Nat :=
  if digits.all Char.isDigit then some (digitsValue 10 digits) else none

/-- The number of days in a month. -/
def daysIn (year month : Nat) : Nat :=
  if month = 2 then
    if year % 4 = 0 ∧ (year % 100 ≠ 0 ∨ year % 400 = 0) then 29 else 28
  else if month = 4 ∨ month = 6 ∨ month = 9 ∨ month = 11 then 30
  else 31

/-- A date: year, month and day, with hyphens between them. -/
def isDate : List Char → Bool
  | [y₁, y₂, y₃, y₄, '-', m₁, m₂, '-', d₁, d₂] =>
    match fixedDigits? [y₁, y₂, y₃, y₄], fixedDigits? [m₁, m₂], fixedDigits? [d₁, d₂] with
    | some year, some month, some day =>
      1 ≤ month && month ≤ 12 && 1 ≤ day && day ≤ daysIn year month
    | _, _, _ => false
  | _ => false

/-- Two digits below a bound. -/
def isTwoDigits (bound : Nat) (a b : Char) : Bool :=
  match fixedDigits? [a, b] with
  | some n => n < bound
  | none => false

/-- What is left of a word behind the time of day it begins with: hours, minutes, seconds and
perhaps a fraction of a second. -/
def afterTime? : List Char → Option (List Char)
  | h₁ :: h₂ :: ':' :: m₁ :: m₂ :: ':' :: s₁ :: s₂ :: rest =>
    if isTwoDigits 24 h₁ h₂ && isTwoDigits 60 m₁ m₂ && isTwoDigits 61 s₁ s₂ then
      match rest with
      | '.' :: fraction =>
        let (digits, rest) := fraction.span Char.isDigit
        if digits.isEmpty then none else some rest
      | _ => some rest
    else none
  | _ => none

/-- A time of day. -/
def isTime (word : List Char) : Bool := afterTime? word == some []

/-- An offset from universal time. -/
def isOffset : List Char → Bool
  | ['Z'] | ['z'] => true
  | [sign, h₁, h₂, ':', m₁, m₂] =>
    (sign == '+' || sign == '-') && isTwoDigits 24 h₁ h₂ && isTwoDigits 60 m₁ m₂
  | _ => false

/-- A time of day, with an offset or without. -/
def isTimeWithOffset (word : List Char) : Bool :=
  match afterTime? word with
  | some rest => rest.isEmpty || isOffset rest
  | none => false

/-- A date with a time behind it, the letter between them in either case. -/
def isDateTime (word : List Char) : Bool :=
  isDate (word.take 10) &&
    match word.drop 10 with
    | c :: time => (c == 'T' || c == 't') && isTimeWithOffset time
    | [] => false

/-! ## Words -/

/-- The characters words are made of. -/
def isWordChar (c : Char) : Bool :=
  c.isAlphanum || c == '_' || c == '+' || c == '-' || c == '.' || c == ':'

/-- What a word stands for. -/
def ofWord? (word : List Char) : Option Item :=
  if word == ['t', 'r', 'u', 'e'] then some (.boolean true)
  else if word == ['f', 'a', 'l', 's', 'e'] then some (.boolean false)
  else if isInteger word || isFloat word then some .number
  else if isDate word || isTime word || isDateTime word then some .dateTime
  else none

/-- Reads a word. A date may have its time behind a single space. -/
def readWord : Reader Item := do
  let word ← Reader.takeWhile isWordChar
  match ofWord? word with
  | none => Reader.fail
  | some item =>
    match ← get with
    | ' ' :: c :: _ =>
      if isDate word && c.isDigit then
        Reader.expect [' ']
        let time ← Reader.takeWhile isWordChar
        if isTimeWithOffset time then return .dateTime else Reader.fail
      else return item
    | _ => return item

end LuaLex.Toml
