import ObjectGraph.Proofs.NumeralText
import ObjectGraph.Proofs.StringLiterals

/-!
# Reading source text

What fragments are written in, read without knowing who wrote it. The reader takes one token at a
time. Its stack holds what has been opened and is not yet complete, its phase says what may come
next, and its mode holds the characters of a name or number that has not ended. A sign in front of
an expression applies to all that is appended to it, and a block is its last expression, after the
variables that it introduces.
-/
namespace ObjectGraph

/-- An expression. Parentheses leave no trace in it. -/
inductive Source
  | path (name : String)
  | numeral (chars : List Char)
  | text (s : String)
  | list (items : List Source)
  | call (function : String) (args : List Source)
  | method (receiver : Source) (name : String) (args : List Source)
  /-- The question mark that hands an error on to the caller. -/
  | attempt (e : Source)
  | not (e : Source)
  | borrow (e : Source)
  | letIn (name : String) (bound body : Source)
  | ite (test yes no : Source)

namespace Source

open Text (Token)
open Json.Reader (isSpace isNumeralChar)

/-! ## The reader -/

/-- What the items of a list are for. -/
inductive Listing
  | array
  | call (function : String)
  | method (receiver : Source) (name : String)

def Listing.close : Listing → List Source → Source
  | array, items => .list items
  | call function, items => .call function items
  | method receiver name, items => .method receiver name items

/-- The bracket that ends a list. -/
def Listing.bracket : Listing → Char
  | array => ']'
  | _ => ')'

/-- What has been opened; items so far are held newest first. -/
inductive Frame
  | not
  | borrow
  | group
  | items (listing : Listing) (done : List Source)
  | block
  | bound (name : String)
  | body (name : String) (value : Source)
  | test
  | yes (test : Source)
  | no (test yes : Source)

/-- What may come next: an expression, something behind one, or a fixed part of a form. -/
inductive Phase
  | operand
  | after (e : Source)
  | member (receiver : Source)
  | called (receiver : Source) (name : String)
  | binder
  | equals (name : String)
  | elseKey (test yes : Source)
  | elseBlock (test yes : Source)

structure State where
  stack : List Frame
  phase : Phase

inductive Mode
  | between
  | name (letters : List Char)
  | numeral (chars : List Char)

structure Reader where
  state : State
  mode : Mode

namespace State

def start : State := ⟨[], .operand⟩

/-- Where a variable may be introduced. -/
def inBlock : List Frame → Bool
  | .block :: _ => true
  | .body _ _ :: _ => true
  | .yes _ :: _ => true
  | .no _ _ :: _ => true
  | _ => false

/-- A complete expression, unless something is appended to it. -/
def accept (s : State) (e : Source) : Option State :=
  match s.phase with
  | .operand => some ⟨s.stack, .after e⟩
  | _ => none

/-- A keyword, a path or the name of a method or variable. -/
def word (s : State) (w : String) : Option State :=
  match s.phase with
  | .operand =>
    if w = "let" then if inBlock s.stack then some ⟨s.stack, .binder⟩ else none
    else if w = "if" then some ⟨.test :: s.stack, .operand⟩
    else some ⟨s.stack, .after (.path w)⟩
  | .member receiver => some ⟨s.stack, .called receiver w⟩
  | .binder => some ⟨s.stack, .equals w⟩
  | .elseKey test yes => if w = "else" then some ⟨s.stack, .elseBlock test yes⟩ else none
  | _ => none

/-- The signs in front of an expression to which nothing more is appended. -/
def signed : List Frame → Source → List Frame × Source
  | .not :: stack, e => signed stack (.not e)
  | .borrow :: stack, e => signed stack (.borrow e)
  | stack, e => (stack, e)

/-- The end of a block, whose variables are in scope up to here. -/
def closeBlock : List Frame → Source → Option State
  | .body name value :: stack, e => closeBlock stack (.letIn name value e)
  | .block :: stack, e => some ⟨stack, .after e⟩
  | .yes test :: stack, e => some ⟨stack, .elseKey test e⟩
  | .no test yes :: stack, e => some ⟨stack, .after (.ite test yes e)⟩
  | _, _ => none

/-- A mark behind an expression and its signs. -/
def delimit (c : Char) : List Frame × Source → Option State
  | (.group :: stack, e) => if c = ')' then some ⟨stack, .after e⟩ else none
  | (.items listing done :: stack, e) =>
    if c = ',' then some ⟨.items listing (e :: done) :: stack, .operand⟩
    else if c = listing.bracket then some ⟨stack, .after (listing.close (e :: done).reverse)⟩
    else none
  | (.bound name :: stack, e) => if c = ';' then some ⟨.body name e :: stack, .operand⟩ else none
  | (.test :: stack, e) => if c = '\x7b' then some ⟨.yes e :: stack, .operand⟩ else none
  | (stack, e) => if c = '\x7d' then closeBlock stack e else none

/-- A mark where an expression may stand; a list may end before it has begun. -/
def opening (s : State) (c : Char) : Option State :=
  if c = '!' then some ⟨.not :: s.stack, .operand⟩
  else if c = '&' then some ⟨.borrow :: s.stack, .operand⟩
  else if c = '(' then some ⟨.group :: s.stack, .operand⟩
  else if c = '[' then some ⟨.items .array [] :: s.stack, .operand⟩
  else if c = '\x7b' then some ⟨.block :: s.stack, .operand⟩
  else
    match s.stack with
    | .items listing [] :: stack =>
      if c = listing.bracket then some ⟨stack, .after (listing.close [])⟩ else none
    | _ => none

/-- A mark behind an expression; a parenthesis makes a call of a path. -/
def appending (stack : List Frame) (e : Source) (c : Char) : Option State :=
  if c = '?' then some ⟨stack, .after (.attempt e)⟩
  else if c = '.' then some ⟨stack, .member e⟩
  else if c = '(' then
    match e with
    | .path function => some ⟨.items (.call function) [] :: stack, .operand⟩
    | _ => none
  else delimit c (signed stack e)

def mark (s : State) (c : Char) : Option State :=
  match s.phase with
  | .operand => s.opening c
  | .after e => appending s.stack e c
  | .called receiver name =>
    if c = '(' then some ⟨.items (.method receiver name) [] :: s.stack, .operand⟩ else none
  | .equals name => if c = '=' then some ⟨.bound name :: s.stack, .operand⟩ else none
  | .elseBlock test yes =>
    if c = '\x7b' then some ⟨.no test yes :: s.stack, .operand⟩ else none
  | _ => none

end State

/-- The characters of names and of paths. -/
def isNameChar (c : Char) : Bool := c.isAlphanum || c = '_' || c = ':'

namespace Reader

/-- Ends a name or number. -/
def settle (r : Reader) : Option State :=
  match r.mode with
  | .between => some r.state
  | .name letters => r.state.word (String.ofList letters.reverse)
  | .numeral chars => r.state.accept (.numeral chars.reverse)

/-- A character outside names and numbers. -/
def punctuate (s : State) (c : Char) : Option Reader :=
  if c = '-' ∨ c.isDigit then some ⟨s, .numeral [c]⟩
  else if isSpace c then some ⟨s, .between⟩
  else if isNameChar c then some ⟨s, .name [c]⟩
  else (s.mark c).map (⟨·, .between⟩)

def feed (r : Reader) : Token → Option Reader
  | .literal s => r.settle.bind fun state => (state.accept (.text s)).map (⟨·, .between⟩)
  | .char c =>
    match r.mode with
    | .between => punctuate r.state c
    | .name letters =>
      if isNameChar c then some ⟨r.state, .name (c :: letters)⟩
      else r.settle.bind fun state => punctuate state c
    | .numeral chars =>
      if isNumeralChar c then some ⟨r.state, .numeral (c :: chars)⟩
      else r.settle.bind fun state => punctuate state c

def run (r : Reader) (tokens : List Token) : Option Reader := tokens.foldlM feed r

/-- The expression that is complete, with nothing left open. -/
def finish (r : Reader) : Option Source :=
  r.settle.bind fun state =>
    match state.phase with
    | .after e =>
      match State.signed state.stack e with
      | ([], e) => some e
      | _ => none
    | _ => none

end Reader

/-- The expression that a text is. -/
def read? (text : String) : Option Source := do
  let tokens ← Text.tokens? text.toList
  let r ← (⟨State.start, .between⟩ : Reader).run tokens
  r.finish

/-! ## Reading part by part -/

namespace Reader

theorem run_append (r : Reader) (front back : List Token) :
    r.run (front ++ back) = (r.run front).bind fun r => r.run back := by
  simp [run, List.foldlM_append, Option.bind_eq_bind]

@[simp] theorem run_cons (r : Reader) (t : Token) (tokens : List Token) :
    r.run (t :: tokens) = (r.feed t).bind fun r => r.run tokens := by
  simp [run, List.foldlM_cons]

/-- A name ends where a character comes that can be in none. -/
theorem feed_of_settle {r : Reader} {s : State} (h : r.settle = some s)
    (hnumeral : ∀ chars, r.mode ≠ .numeral chars) {c : Char} (hc : isNameChar c = false) :
    r.feed (.char c) = punctuate s c := by
  unfold feed
  cases hmode : r.mode with
  | between =>
    rw [settle, hmode, Option.some.injEq] at h
    rw [h]
  | name letters => simp [hc, h]
  | numeral chars => exact absurd hmode (hnumeral chars)

end Reader

variable {s t u : State} {a b : String}

/-- A text takes the reader from one state to another, wherever it ends. -/
def Passes (s : State) (a : String) (t : State) : Prop :=
  ∃ tokens, (∀ rest, Text.tokens? (a.toList ++ rest) = (Text.tokens? rest).map (tokens ++ ·)) ∧
    (⟨s, .between⟩ : Reader).run tokens = some ⟨t, .between⟩

/-- A text takes the reader from one state to another, once a name at its end is over. -/
def Takes (s : State) (a : String) (t : State) : Prop :=
  ∃ tokens r, (∀ rest, Text.tokens? (a.toList ++ rest) = (Text.tokens? rest).map (tokens ++ ·)) ∧
    (⟨s, .between⟩ : Reader).run tokens = some r ∧ r.settle = some t ∧
      ∀ chars, r.mode ≠ .numeral chars

theorem Passes.takes (h : Passes s a t) : Takes s a t := by
  obtain ⟨tokens, hspells, hrun⟩ := h
  exact ⟨tokens, _, hspells, hrun, rfl, nofun⟩

theorem passes_code (code : String) (hquote : '"' ∉ code.toList)
    (hrun : (⟨s, .between⟩ : Reader).run (code.toList.map .char) = some ⟨t, .between⟩) :
    Passes s code t :=
  ⟨code.toList.map .char, Text.tokens?_code hquote, hrun⟩

theorem passes_quote (text : String) (h : s.accept (.text text) = some t) :
    Passes s (Text.quote text) t := by
  refine ⟨[.literal text], Text.tokens?_quote text, ?_⟩
  rw [Reader.run_cons, Reader.feed]
  simp only [Reader.settle, Option.bind_some, h, Option.map_some]
  rfl

theorem tokens?_append {as bs : List Token}
    (ha : ∀ rest, Text.tokens? (a.toList ++ rest) = (Text.tokens? rest).map (as ++ ·))
    (hb : ∀ rest, Text.tokens? (b.toList ++ rest) = (Text.tokens? rest).map (bs ++ ·))
    (rest : List Char) :
    Text.tokens? ((a ++ b).toList ++ rest) = (Text.tokens? rest).map (as ++ bs ++ ·) := by
  rw [String.toList_append, List.append_assoc, ha, hb, Option.map_map]
  simp [Function.comp_def]

theorem Passes.append (ha : Passes s a t) (hb : Passes t b u) : Passes s (a ++ b) u := by
  obtain ⟨as, hspellsA, hrunA⟩ := ha
  obtain ⟨bs, hspellsB, hrunB⟩ := hb
  refine ⟨as ++ bs, tokens?_append hspellsA hspellsB, ?_⟩
  rw [Reader.run_append, hrunA, Option.bind_some, hrunB]

theorem Passes.code (ha : Passes s a t) (code : String) (hquote : '"' ∉ code.toList)
    (hrun : (⟨t, .between⟩ : Reader).run (code.toList.map .char) = some ⟨u, .between⟩) :
    Passes s (a ++ code) u :=
  ha.append (passes_code code hquote hrun)

theorem Passes.then (ha : Passes s a t) (hb : Takes t b u) : Takes s (a ++ b) u := by
  obtain ⟨as, hspellsA, hrunA⟩ := ha
  obtain ⟨bs, r, hspellsB, hrunB, hends⟩ := hb
  refine ⟨as ++ bs, r, tokens?_append hspellsA hspellsB, ?_, hends⟩
  rw [Reader.run_append, hrunA, Option.bind_some, hrunB]

/-- The code after a text begins with a character that ends a name. -/
theorem Takes.code (ha : Takes s a t) (code : String) (hquote : '"' ∉ code.toList)
    (hends : (code.toList.head?.any fun c => !isNameChar c) = true)
    (hrun : (⟨t, .between⟩ : Reader).run (code.toList.map .char) = some ⟨u, .between⟩) :
    Passes s (a ++ code) u := by
  obtain ⟨as, r, hspells, hrunA, hsettle, hnumeral⟩ := ha
  obtain ⟨c, rest, hcode, hc⟩ : ∃ c rest, code.toList = c :: rest ∧ isNameChar c = false := by
    cases hcode : code.toList with
    | nil => simp [hcode] at hends
    | cons c rest => exact ⟨c, rest, rfl, by simpa [hcode] using hends⟩
  refine ⟨as ++ code.toList.map .char, tokens?_append hspells (Text.tokens?_code hquote), ?_⟩
  rw [hcode, List.map_cons, Reader.run_cons] at hrun
  rw [Reader.run_append, hrunA, Option.bind_some, hcode, List.map_cons, Reader.run_cons,
    Reader.feed_of_settle hsettle hnumeral hc]
  exact hrun

/-- A text is read as an expression wherever one may stand. -/
def Denotes (a : String) (e : Source) : Prop :=
  ∀ stack, Takes ⟨stack, .operand⟩ a ⟨stack, .after e⟩

section

variable {stack : List Frame} {listing : Listing} {done : List Source} {e : Source}

/-- A borrowed item of a list, up to the item after it. -/
theorem Passes.borrowed (ha : Passes s a ⟨.borrow :: .items listing done :: stack, .operand⟩)
    (hb : Denotes b e) :
    Passes s (a ++ b ++ ", ") ⟨.items listing (.borrow e :: done) :: stack, .operand⟩ :=
  (ha.then (hb _)).code ", " (by decide) (by decide) rfl

/-- Two borrowed items of a list, up to the end of the second. -/
theorem Passes.borrowedPair (ha : Passes s a ⟨.borrow :: .items listing done :: stack, .operand⟩)
    (hb : Denotes b e) {b' : String} {e' : Source} (hb' : Denotes b' e') :
    Takes s (a ++ b ++ ", &" ++ b') ⟨.borrow :: .items listing (.borrow e :: done) :: stack,
      .after e'⟩ := by
  have hmiddle : Passes s (a ++ b ++ ", &")
      ⟨.borrow :: .items listing (.borrow e :: done) :: stack, .operand⟩ :=
    (ha.then (hb _)).code ", &" (by decide) (by decide) rfl
  exact hmiddle.then (hb' _)

end

/-- A name at the end of code is over with it. -/
theorem takes_code {code : String} {letters : List Char} (hquote : '"' ∉ code.toList)
    (hrun : (⟨s, .between⟩ : Reader).run (code.toList.map .char) = some ⟨u, .name letters⟩)
    (hword : u.word (String.ofList letters.reverse) = some t) : Takes s code t :=
  ⟨code.toList.map .char, _, Text.tokens?_code hquote, hrun, hword, nofun⟩

theorem run_numeral : ∀ {rest : List Char} (chars : List Char),
    (∀ c ∈ rest, isNumeralChar c = true) → (⟨s, .numeral chars⟩ : Reader).run (rest.map .char) =
      some ⟨s, .numeral (rest.reverse ++ chars)⟩
  | [], _, _ => rfl
  | c :: rest, chars, h => by
    obtain ⟨hc, hrest⟩ := List.forall_mem_cons.1 h
    have hfeed : (⟨s, .numeral chars⟩ : Reader).feed (.char c) =
        some ⟨s, .numeral (c :: chars)⟩ := if_pos hc
    rw [List.map_cons, Reader.run_cons, hfeed, Option.bind_some, run_numeral (c :: chars) hrest]
    simp

/-- A number and the code after it, which begins with a character that is in none. -/
theorem passes_numeral {numeral : String} {n : Json.Numeral}
    (hread : Json.Numeral.ofChars? numeral.toList = some n)
    (haccept : s.accept (.numeral numeral.toList) = some t) (code : String) {c : Char}
    {rest : List Char} (hcode : code.toList = c :: rest) (hc : isNumeralChar c = false)
    (hquote : '"' ∉ code.toList)
    (hrun : (⟨t, .between⟩ : Reader).run (code.toList.map .char) = some ⟨u, .between⟩) :
    Passes s (numeral ++ code) u := by
  obtain ⟨d, ds, hcons, hd, hds⟩ := Json.Numeral.exists_first_of_ofChars? hread
  have hrunNumeral : (⟨s, .between⟩ : Reader).run (numeral.toList.map .char) =
      some ⟨s, .numeral numeral.toList.reverse⟩ := by
    have hfeed : (⟨s, .between⟩ : Reader).feed (.char d) = some ⟨s, .numeral [d]⟩ := if_pos hd
    rw [hcons, List.map_cons, Reader.run_cons, hfeed, Option.bind_some, run_numeral [d] hds]
    simp
  have hfeed : (⟨s, .numeral numeral.toList.reverse⟩ : Reader).feed (.char c) =
      Reader.punctuate t c := by
    simp [Reader.feed, hc, Reader.settle, haccept]
  have hnumeral : '"' ∉ numeral.toList := by
    rw [hcons, List.mem_cons, not_or]
    refine ⟨?_, fun hmem => absurd (hds _ hmem) (by decide)⟩
    rintro rfl
    exact absurd hd (by decide)
  refine ⟨(numeral ++ code).toList.map .char, Text.tokens?_code ?_, ?_⟩
  · rw [String.toList_append, List.mem_append, not_or]
    exact ⟨hnumeral, hquote⟩
  · rw [hcode, List.map_cons, Reader.run_cons] at hrun
    rw [String.toList_append, List.map_append, Reader.run_append, hrunNumeral, Option.bind_some,
      hcode, List.map_cons, Reader.run_cons, hfeed]
    exact hrun

end Source
end ObjectGraph
