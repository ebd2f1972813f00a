import ObjectGraph.Command

/-!
# The command line

Options may stand before, between and after the expression, in long form, in short
form and in clusters. Options with a value take it after an equals sign, directly after
a short form, or from the next argument unless that looks like an option. Only the
options for variables and for verbosity may be repeated.
-/
namespace ObjectGraph.CommandLine

inductive Verb
  | eval
  | source
  deriving DecidableEq

/-- Options with a value. -/
inductive Setting
  | input
  | binding
  | nullDefault
  | routine

/-- Options without a value. -/
inductive Switch
  | allowAll
  | pretty
  | verbose

inductive OptionKind
  | setting (s : Setting)
  | switch (s : Switch)

/-- The arguments given so far. -/
structure Given where
  expression : Option String
  input : Option String
  bindings : List String
  nullDefault : Option String
  routine : Option String
  allowAll : Bool
  pretty : Bool

namespace Given

def nothing : Given := ⟨none, none, [], none, none, false, false⟩

def once (current : Option String) (value : String) : Option (Option String) :=
  match current with
  | none => some (some value)
  | some _ => none

/-- Fails when a setting that stands only once is repeated. -/
def set? (g : Given) (value : String) : Setting → Option Given
  | .input => (once g.input value).map fun input => { g with input }
  | .binding => some { g with bindings := g.bindings ++ [value] }
  | .nullDefault => (once g.nullDefault value).map fun nullDefault => { g with nullDefault }
  | .routine => (once g.routine value).map fun routine => { g with routine }

def switch? (g : Given) : Switch → Option Given
  | .allowAll => if g.allowAll then none else some { g with allowAll := true }
  | .pretty => if g.pretty then none else some { g with pretty := true }
  | .verbose => some g

/-- The expression is the only argument that is no option. -/
def expression? (g : Given) (text : String) : Option Given :=
  (once g.expression text).map fun expression => { g with expression }

end Given

def longOption? (verb : Verb) (name : String) : Option OptionKind :=
  match verb, name with
  | _, "input" => some (.setting .input)
  | _, "var" => some (.setting .binding)
  | _, "allow-all" => some (.switch .allowAll)
  | _, "verbose" => some (.switch .verbose)
  | .eval, "null-default" => some (.setting .nullDefault)
  | .eval, "pretty" => some (.switch .pretty)
  | .source, "routine" => some (.setting .routine)
  | _, _ => none

def shortOption? (verb : Verb) (letter : Char) : Option OptionKind :=
  match verb, letter with
  | _, 'i' => some (.setting .input)
  | _, 'v' => some (.switch .verbose)
  | .eval, 'p' => some (.switch .pretty)
  | _, _ => none

/-- A single hyphen is a value; anything longer after a hyphen looks like an option. -/
def looksLikeOption (arg : String) : Bool :=
  match arg.toList with
  | '-' :: _ :: _ => true
  | _ => false

/-- Reads a cluster of short options; a setting at its end may still want a value. -/
def cluster? (verb : Verb) : List Char → Given → Option (Given × Option Setting)
  | [], g => some (g, none)
  | letter :: rest, g =>
    match shortOption? verb letter with
    | some (.switch s) => (g.switch? s).bind fun g => cluster? verb rest g
    | some (.setting s) =>
      match rest with
      | [] => some (g, some s)
      | '=' :: value => (g.set? (String.ofList value) s).map fun g => (g, none)
      | value => (g.set? (String.ofList value) s).map fun g => (g, none)
    | none => none

/-- Reads a long option, without its two hyphens. -/
def long? (verb : Verb) (text : List Char) (g : Given) : Option (Given × Option Setting) :=
  let (name, value) := match Text.splitOnce? '=' text with
    | some (name, value) => (name, some (String.ofList value))
    | none => (text, none)
  match longOption? verb (String.ofList name), value with
  | some (.setting s), some value => (g.set? value s).map fun g => (g, none)
  | some (.setting s), none => some (g, some s)
  | some (.switch s), none => (g.switch? s).map fun g => (g, none)
  | _, _ => none

/-- Reads one argument; the result may be a setting that wants its value. -/
def argument? (verb : Verb) (arg : String) (g : Given) : Option (Given × Option Setting) :=
  match arg.toList with
  | '-' :: '-' :: text => long? verb text g
  | '-' :: letter :: rest => cluster? verb (letter :: rest) g
  | _ => (g.expression? arg).map fun g => (g, none)

/-- Reads the arguments; `wanting` is a setting whose value comes next, and after two
hyphens every argument is an expression. -/
def arguments? (verb : Verb) : List String → Option Setting → Bool → Given → Option Given
  | [], none, _, g => some g
  | [], some _, _, _ => none
  | arg :: rest, some s, literal, g =>
    if looksLikeOption arg then none
    else (g.set? arg s).bind fun g => arguments? verb rest none literal g
  | arg :: rest, none, true, g =>
    (g.expression? arg).bind fun g => arguments? verb rest none true g
  | arg :: rest, none, false, g =>
    if arg = "--" then arguments? verb rest none true g
    else
      (argument? verb arg g).bind fun (g, wanting) => arguments? verb rest wanting false g

inductive Request
  | version
  | eval (task : Command.Task) (nullDefault : Option String) (pretty : Bool)
  | source (task : Command.Task) (routine : Option String)

def request? (verb : Verb) (g : Given) : Option Request :=
  g.expression.map fun expression =>
    let task : Command.Task := ⟨expression, g.input, g.bindings, g.allowAll⟩
    match verb with
    | .eval => .eval task g.nullDefault g.pretty
    | .source => .source task g.routine

/-- A cluster before the command: verbosity, and perhaps the question for the version. -/
def leading? : List Char → Option Bool
  | [] => some false
  | 'v' :: rest => leading? rest
  | 'V' :: _ => some true
  | _ => none

/-- The request of an argument list; nothing for one that makes no sense. -/
def read? : List String → Option Request
  | [] => none
  | "eval" :: rest => (arguments? .eval rest none false .nothing).bind (request? .eval)
  | "source" :: rest => (arguments? .source rest none false .nothing).bind (request? .source)
  | "--version" :: _ => some .version
  | "--verbose" :: rest => read? rest
  | arg :: rest =>
    match arg.toList with
    | '-' :: letter :: letters =>
      match leading? (letter :: letters) with
      | some true => some .version
      | some false => read? rest
      | none => none
    | _ => none

/-- Whether the request takes its root from the standard input. -/
def Request.readsInput : Request → Bool
  | version => false
  | eval task _ _ => task.input.isNone
  | source task _ => task.input.isNone

inductive Outcome
  | printed (text : String)
  | failed (error : CommandError)
  /-- The arguments make no sense. -/
  | misused

/-- An input given as an option, or else the standard input unless it is blank. -/
def input (given : Option String) (stdin : ByteArray) : Except CommandError (Option String) :=
  match given with
  | some text => .ok (some text)
  | none =>
    match String.fromUTF8? stdin with
    | some text => .ok (if Text.isBlank text then none else some text)
    | none => .error (.io "stream did not contain valid UTF-8")

def answer (request : Request) (stdin : ByteArray) : Except CommandError String :=
  match request with
  | .version => .ok "ogel 0.1.0"
  | .eval task nullDefault pretty => do
    let input ← input task.input stdin
    let json ← Command.evaluate { task with input } nullDefault
    return if pretty then json.pretty else json.compact
  | .source task routine => do
    let input ← input task.input stdin
    let (text, _) ← Command.generate { task with input } routine
    return text

def readsInput (args : List String) : Bool := ((read? args).map Request.readsInput).getD false

/-- What a call with these arguments and this standard input comes to. -/
def run (args : List String) (stdin : ByteArray) : Outcome :=
  match read? args with
  | none => .misused
  | some request =>
    match answer request stdin with
    | .ok text => .printed (text ++ "\n")
    | .error error => .failed error

end ObjectGraph.CommandLine
