import ObjectGraph.Json.Numeral
import ObjectGraph.Json.Tree

/-!
# Reading JSON

The reader is a machine that takes one character at a time. Its stack holds the
arrays and objects that are still open, its phase says what may come next, and its
mode holds the characters of a word, numeral or string that has not ended. Because
a text is read by one fold over its characters, reading two texts in a row is
reading their concatenation.
-/
namespace ObjectGraph.Json

/-- An open container; what it holds so far, newest first. -/
inductive Frame
  | array (items : List Tree)
  | object (members : List (List Char × Tree))
  | member (members : List (List Char × Tree)) (key : List Char)

/-- What may come next, white space aside. -/
inductive Phase
  | value
  | valueOrClose
  | keyOrClose
  | key
  | colon
  | commaOrClose
  | finished (tree : Tree)

inductive Mode
  | between
  | word (letters : List Char)
  | numeral (chars : List Char)
  | string (body : List Char)
  | escape (body : List Char)

structure Reader where
  stack : List Frame
  phase : Phase
  mode : Mode

namespace Reader

def start : Reader := ⟨[], .value, .between⟩

/-- A finished value goes into the innermost open container. -/
def accept (r : Reader) (tree : Tree) : Option Reader :=
  match r.phase, r.stack with
  | .value, [] => some ⟨[], .finished tree, .between⟩
  | .value, .array items :: rest => some ⟨.array (tree :: items) :: rest, .commaOrClose, .between⟩
  | .valueOrClose, .array items :: rest =>
    some ⟨.array (tree :: items) :: rest, .commaOrClose, .between⟩
  | .value, .member members key :: rest =>
    some ⟨.object ((key, tree) :: members) :: rest, .commaOrClose, .between⟩
  | _, _ => none

/-- A finished string is a key where a key may stand, else a value. -/
def acceptString (r : Reader) (body : List Char) : Option Reader :=
  if (pieces? body).isNone then none
  else
    match r.phase, r.stack with
    | .key, .object members :: rest => some ⟨.member members body :: rest, .colon, .between⟩
    | .keyOrClose, .object members :: rest => some ⟨.member members body :: rest, .colon, .between⟩
    | _, _ => r.accept (.string body)

def wordTree? (letters : List Char) : Option Tree :=
  if letters = ['n', 'u', 'l', 'l'] then some .null
  else if letters = ['t', 'r', 'u', 'e'] then some (.boolean true)
  else if letters = ['f', 'a', 'l', 's', 'e'] then some (.boolean false)
  else none

/-- Ends a word or numeral; an open string is no value. -/
def settle (r : Reader) : Option Reader :=
  match r.mode with
  | .between => some r
  | .word letters => (wordTree? letters.reverse).bind r.accept
  | .numeral chars =>
    if (Numeral.ofChars? chars.reverse).isSome then r.accept (.numeral chars.reverse) else none
  | .string _ => none
  | .escape _ => none

/-- The open container ends and becomes a value of the container around it. -/
def close (r : Reader) (bracket : Char) : Option Reader :=
  match r.phase, r.stack with
  | .commaOrClose, .array items :: rest => closeArray items rest
  | .valueOrClose, .array items :: rest => closeArray items rest
  | .commaOrClose, .object members :: rest => closeObject members rest
  | .keyOrClose, .object members :: rest => closeObject members rest
  | _, _ => none
where
  closeArray (items : List Tree) (rest : List Frame) : Option Reader :=
    if bracket = ']' then accept ⟨rest, .value, .between⟩ (.array items.reverse) else none
  closeObject (members : List (List Char × Tree)) (rest : List Frame) : Option Reader :=
    if bracket = '\x7d' then
      accept ⟨rest, .value, .between⟩ (.object (Members.ofList members.reverse))
    else none

def opens (r : Reader) (frame : Frame) (phase : Phase) : Option Reader :=
  match r.phase, r.stack with
  | .value, _ => some ⟨frame :: r.stack, phase, .between⟩
  | .valueOrClose, _ => some ⟨frame :: r.stack, phase, .between⟩
  | _, _ => none

def comma (r : Reader) : Option Reader :=
  match r.phase, r.stack with
  | .commaOrClose, .array _ :: _ => some { r with phase := .value }
  | .commaOrClose, .object _ :: _ => some { r with phase := .key }
  | _, _ => none

def colon (r : Reader) : Option Reader :=
  match r.phase with
  | .colon => some { r with phase := .value }
  | _ => none

def isSpace (c : Char) : Bool := c = ' ' || c = '\n' || c = '\t' || c = '\r'

def isNumeralChar (c : Char) : Bool :=
  c.isDigit || c = '-' || c = '+' || c = '.' || c = 'e' || c = 'E'

/-- A character outside words, numerals and strings. -/
def punctuate (r : Reader) (c : Char) : Option Reader :=
  if isSpace c then some r
  else if c = '"' then some { r with mode := .string [] }
  else if c = '[' then r.opens (.array []) .valueOrClose
  else if c = '\x7b' then r.opens (.object []) .keyOrClose
  else if c = ']' ∨ c = '\x7d' then r.close c
  else if c = ',' then r.comma
  else if c = ':' then r.colon
  else if c.isLower then some { r with mode := .word [c] }
  else if isNumeralChar c then some { r with mode := .numeral [c] }
  else none

def feed (r : Reader) (c : Char) : Option Reader :=
  match r.mode with
  | .between => r.punctuate c
  | .word letters =>
    if c.isLower then some { r with mode := .word (c :: letters) }
    else r.settle.bind fun r => r.punctuate c
  | .numeral chars =>
    if isNumeralChar c then some { r with mode := .numeral (c :: chars) }
    else r.settle.bind fun r => r.punctuate c
  | .string body =>
    if c = '"' then acceptString { r with mode := .between } body.reverse
    else if c = '\\' then some { r with mode := .escape body }
    else some { r with mode := .string (c :: body) }
  | .escape body => some { r with mode := .string (c :: '\\' :: body) }

def run (r : Reader) (cs : List Char) : Option Reader := cs.foldlM feed r

theorem run_append (r : Reader) (cs ds : List Char) :
    r.run (cs ++ ds) = (r.run cs).bind fun r => r.run ds := by
  simp [run, List.foldlM_append, Option.bind_eq_bind]

def finish (r : Reader) : Option Tree :=
  r.settle.bind fun r =>
    match r.phase with
    | .finished tree => some tree
    | _ => none

end Reader

/-- The tree of a text that is one JSON value between white space. -/
def Tree.read? (text : String) : Option Tree :=
  (Reader.start.run text.toList).bind Reader.finish

end ObjectGraph.Json
