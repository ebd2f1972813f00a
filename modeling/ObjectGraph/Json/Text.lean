/-!
# The body of a JSON string

A string is written between quotes. `encode` writes its body; `pieces?` takes a
body apart into characters and sixteen-bit units, and fails exactly on bodies that
JSON forbids; `decode?` also asks that the units pair up into characters.
-/
namespace ObjectGraph.Json

def hexDigit (n : Nat) : Char := Nat.digitChar n

/-- The value of a hexadecimal digit of either case. -/
def hexValue? (c : Char) : Option Nat :=
  if '0' ≤ c ∧ c ≤ '9' then some (c.toNat - '0'.toNat)
  else if 'a' ≤ c ∧ c ≤ 'f' then some (c.toNat - 'a'.toNat + 10)
  else if 'A' ≤ c ∧ c ≤ 'F' then some (c.toNat - 'A'.toNat + 10)
  else none

/-- The letter after the backslash and the character that the escape stands for. -/
def shortEscape? : Char → Option Char
  | '"' => some '"'
  | '\\' => some '\\'
  | '/' => some '/'
  | 'b' => some '\x08'
  | 'f' => some '\x0c'
  | 'n' => some '\n'
  | 'r' => some '\r'
  | 't' => some '\t'
  | _ => none

/-- The written form of one character: short escapes where there is one, four
hexadecimal digits for the other controls, itself for all else. -/
def encodeChar (c : Char) : List Char :=
  if c = '"' then ['\\', '"']
  else if c = '\\' then ['\\', '\\']
  else if c = '\x08' then ['\\', 'b']
  else if c = '\x0c' then ['\\', 'f']
  else if c = '\n' then ['\\', 'n']
  else if c = '\r' then ['\\', 'r']
  else if c = '\t' then ['\\', 't']
  else if c.toNat < 0x20 then
    ['\\', 'u', '0', '0', hexDigit (c.toNat / 16), hexDigit (c.toNat % 16)]
  else [c]

def encode (s : List Char) : List Char := s.flatMap encodeChar

/-- A part of a body: a character, or the unit of a four-digit escape. -/
inductive Piece
  | char (c : Char)
  | unit (n : Nat)

def unit? (a b c d : Char) : Option Nat :=
  match hexValue? a, hexValue? b, hexValue? c, hexValue? d with
  | some a, some b, some c, some d => some (((a * 16 + b) * 16 + c) * 16 + d)
  | _, _, _, _ => none

def pieces? : List Char → Option (List Piece)
  | [] => some []
  | '\\' :: 'u' :: a :: b :: c :: d :: rest =>
    match unit? a b c d, pieces? rest with
    | some n, some tail => some (.unit n :: tail)
    | _, _ => none
  | ['\\'] => none
  | '\\' :: letter :: rest =>
    match shortEscape? letter, pieces? rest with
    | some c, some tail => some (.char c :: tail)
    | _, _ => none
  | c :: rest =>
    if c.toNat < 0x20 ∨ c = '"' then none else (pieces? rest).map (.char c :: ·)

def isHighUnit (n : Nat) : Bool := 0xD800 ≤ n && n < 0xDC00

def isLowUnit (n : Nat) : Bool := 0xDC00 ≤ n && n < 0xE000

/-- The character of a pair of units. -/
def pairChar (high low : Nat) : Char :=
  Char.ofNat (0x10000 + (high - 0xD800) * 0x400 + (low - 0xDC00))

/-- Fails on a unit of a pair that stands alone. -/
def assemble? : List Piece → Option (List Char)
  | [] => some []
  | .char c :: rest => (assemble? rest).map (c :: ·)
  | .unit high :: .unit low :: rest =>
    if isHighUnit high then
      if isLowUnit low then (assemble? rest).map (pairChar high low :: ·) else none
    else if isLowUnit high then none
    else (assemble? (.unit low :: rest)).map (Char.ofNat high :: ·)
  | .unit n :: rest =>
    if isHighUnit n || isLowUnit n then none else (assemble? rest).map (Char.ofNat n :: ·)

def decode? (body : List Char) : Option String :=
  (pieces? body).bind fun pieces => (assemble? pieces).map String.ofList

end ObjectGraph.Json
