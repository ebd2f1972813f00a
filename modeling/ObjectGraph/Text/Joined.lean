/-!
# Joining and searching text
-/
namespace ObjectGraph.Text

/-- The parts with a separator between neighbours. -/
def joined (separator : String) : List String → String
  | [] => ""
  | [part] => part
  | part :: next :: rest => part ++ separator ++ joined separator (next :: rest)

@[simp] theorem joined_nil (separator : String) : joined separator [] = "" := rfl

@[simp] theorem joined_singleton (separator part : String) : joined separator [part] = part := rfl

@[simp] theorem joined_cons_cons (separator part next : String) (rest : List String) :
    joined separator (part :: next :: rest) =
      part ++ separator ++ joined separator (next :: rest) := rfl

/-- Whether the needle occurs in the text as a run of neighbouring characters. -/
def occursIn (needle : List Char) : List Char → Bool
  | [] => needle.isEmpty
  | c :: rest => needle.isPrefixOf (c :: rest) || occursIn needle rest

theorem occursIn_iff (needle text : List Char) :
    occursIn needle text = true ↔ needle <:+: text := by
  induction text with
  | nil => simp [occursIn]
  | cons c rest ih => simp [occursIn, ih, List.infix_cons_iff]

def contains (text needle : String) : Bool := occursIn needle.toList text.toList

@[simp] theorem contains_iff (text needle : String) :
    contains text needle = true ↔ needle.toList <:+: text.toList :=
  occursIn_iff _ _

/-- The two sides of the first occurrence of a separator. -/
def splitOnce? (separator : Char) : List Char → Option (List Char × List Char)
  | [] => none
  | c :: rest =>
    if c = separator then some ([], rest)
    else (splitOnce? separator rest).map fun (before, after) => (c :: before, after)

end ObjectGraph.Text
