import ObjectGraph.Proofs.FragmentShape
import ObjectGraph.Proofs.NumeralCharacters
import ObjectGraph.Proofs.StringLiterals

/-!
# Literals in a fragment

The text of a fragment is read as code around string literals. The literals are the names and
strings in the fragment, in their order, and the code around them is the same whatever they are:
no name gets out of its literal.
-/
namespace ObjectGraph

namespace Text

def Token.rename (g : String → String) : Token → Token
  | char c => char c
  | literal s => literal (g s)

/-- What the literals stand for, in their order. -/
def literals : List Token → List String
  | [] => []
  | .char _ :: tokens => literals tokens
  | .literal s :: tokens => s :: literals tokens

theorem literals_append (as bs : List Token) :
    literals (as ++ bs) = literals as ++ literals bs := by
  induction as with
  | nil => rfl
  | cons a as ih => cases a <;> simp [literals, ih]

theorem literals_code (code : List Char) : literals (code.map .char) = [] := by
  induction code with
  | nil => rfl
  | cons c code ih => exact ih

theorem rename_code (g : String → String) (code : List Char) :
    (code.map Token.char).map (·.rename g) = code.map .char := by
  simp [Token.rename, Function.comp_def]

/-- A text with names in it, which may be replaced: it is read as code around literals of these
names, and what comes after it is read on its own. -/
def Spells (text : (String → String) → String) (names : List String) : Prop :=
  ∃ tokens, literals tokens = names ∧ ∀ g rest,
    tokens? ((text g).toList ++ rest) = (tokens? rest).map (tokens.map (·.rename g) ++ ·)

namespace Spells

variable {t u : (String → String) → String} {names more : List String}

theorem code {text : String} (h : '"' ∉ text.toList) : Spells (fun _ => text) [] := by
  refine ⟨text.toList.map .char, literals_code _, fun g rest => ?_⟩
  rw [tokens?_code h, rename_code]

theorem quote (name : String) : Spells (fun g => Text.quote (g name)) [name] :=
  ⟨[.literal name], rfl, fun g rest => tokens?_quote (g name) rest⟩

theorem append (ht : Spells t names) (hu : Spells u more) :
    Spells (fun g => t g ++ u g) (names ++ more) := by
  obtain ⟨as, has, hreadT⟩ := ht
  obtain ⟨bs, hbs, hreadU⟩ := hu
  refine ⟨as ++ bs, ?_, fun g rest => ?_⟩
  · rw [literals_append, has, hbs]
  · rw [String.toList_append, List.append_assoc, hreadT, hreadU, Option.map_map]
    simp [Function.comp_def]

/-- Code in front of a text with names. -/
theorem after {front : String} (h : '"' ∉ front.toList) (ht : Spells t names) :
    Spells (fun g => front ++ t g) names :=
  (code h).append ht

/-- Code behind a text with names. -/
theorem before {back : String} (ht : Spells t names) (h : '"' ∉ back.toList) :
    Spells (fun g => t g ++ back) names := by
  have happend := ht.append (code h)
  rwa [List.append_nil] at happend

end Spells
end Text

open Text (Spells)

namespace Fragment

mutual
/-- The names and strings in a fragment, in the order of its text. -/
def strings : Fragment → List String
  | string s => [s]
  | group f => f.strings
  | clone place => place.strings
  | var name => [name]
  | property place name => place.strings ++ [name]
  | index place key => place.strings ++ key.strings
  | subscript place _ => place.strings
  | call place name args => place.strings ++ [name] ++ stringsAll args
  | not operand => operand.strings
  | guard _ first rest => first.strings ++ rest.strings
  | equal left right => left.strings ++ right.strings
  | differ left right => left.strings ++ right.strings
  | boxed f => f.strings
  | _ => []
termination_by structural f => f

def stringsAll : List Fragment → List String
  | [] => []
  | f :: fs => f.strings ++ stringsAll fs
termination_by structural fs => fs
end

mutual
/-- The fragment with its names and strings replaced. -/
def rename (g : String → String) : Fragment → Fragment
  | blank => blank
  | nullValue => nullValue
  | truth b => truth b
  | integer n => integer n
  | float x => float x
  | string s => string (g s)
  | rootPlace => rootPlace
  | targetPlace => targetPlace
  | group f => group (f.rename g)
  | clone place => clone (place.rename g)
  | var name => var (g name)
  | property place name => property (place.rename g) (g name)
  | index place key => index (place.rename g) (key.rename g)
  | subscript place s => subscript (place.rename g) s
  | call place name args => call (place.rename g) (g name) (renameAll g args)
  | not operand => not (operand.rename g)
  | guard op first rest => guard op (first.rename g) (rest.rename g)
  | equal left right => equal (left.rename g) (right.rename g)
  | differ left right => differ (left.rename g) (right.rename g)
  | boxed f => boxed (f.rename g)
termination_by structural f => f

def renameAll (g : String → String) : List Fragment → List Fragment
  | [] => []
  | f :: fs => f.rename g :: renameAll g fs
termination_by structural fs => fs
end

mutual
theorem rename_id : ∀ f : Fragment, f.rename id = f
  | string _ => rfl
  | group f => congrArg group f.rename_id
  | clone place => congrArg clone place.rename_id
  | var _ => rfl
  | property place _ => by rw [rename, place.rename_id, id]
  | index place key => by rw [rename, place.rename_id, key.rename_id]
  | subscript place _ => by rw [rename, place.rename_id]
  | call place _ args => by rw [rename, place.rename_id, renameAll_id args, id]
  | not operand => congrArg not operand.rename_id
  | guard _ first rest => by rw [rename, first.rename_id, rest.rename_id]
  | equal left right => by rw [rename, left.rename_id, right.rename_id]
  | differ left right => by rw [rename, left.rename_id, right.rename_id]
  | boxed f => congrArg boxed f.rename_id
  | blank => rfl
  | nullValue => rfl
  | truth _ => rfl
  | integer _ => rfl
  | float _ => rfl
  | rootPlace => rfl
  | targetPlace => rfl
termination_by structural f => f

theorem renameAll_id : ∀ fs : List Fragment, renameAll id fs = fs
  | [] => rfl
  | f :: fs => by rw [renameAll, f.rename_id, renameAll_id fs]
termination_by structural fs => fs
end

/-! ## The text of a fragment -/

mutual
/-- The fixed parts of the text have no quotes in them. -/
theorem spells_render : ∀ f : Fragment, Spells (fun g => (f.rename g).render) f.strings
  | blank => .code (by decide)
  | nullValue => .code (by decide)
  | truth b => .code (by cases b <;> decide)
  | integer n =>
    have hnumeral := Text.isNumeral_integer n.toInt
    .before (.after (by decide) (.code (hnumeral.not_mem (by decide)))) (by decide)
  | float x =>
    have hx := not_mem_floatText (by decide) (by decide) x
    .before (.after (by decide) (.code hx)) (by decide)
  | string s => .before (.after (by decide) (.quote s)) (by decide)
  | rootPlace => .code (by decide)
  | targetPlace => .code (by decide)
  | group f => .before (.after (by decide) (spells_render f)) (by decide)
  | clone place => .before (spells_render place) (by decide)
  | var name => .before (.after (by decide) (.quote name)) (by decide)
  | property place name =>
    have hplace := spells_render place
    .before (.append (.before (.after (by decide) hplace) (by decide)) (.quote name)) (by decide)
  | index place key =>
    have hplace := spells_render place
    .before (.append (.before (.after (by decide) hplace) (by decide)) (spells_render key))
      (by decide)
  | subscript place s =>
    have hplace := spells_render place
    have hpath : '"' ∉ (subscriptPath s).toList := by cases s <;> decide
    .before (.before (.before (.after (by decide) hplace) (by decide)) hpath) (by decide)
  | call place name args =>
    have hplace := spells_render place
    have hname : Spells (fun g => runtime ++ "::call_method(ctx, &" ++ (place.rename g).render ++
        ", " ++ Text.quote (g name)) (place.strings ++ [name]) :=
      .append (.before (.after (by decide) hplace) (by decide)) (.quote name)
    .before (.append (.before hname (by decide)) (spells_joined args)) (by decide)
  | not operand => .before (.after (by decide) (spells_render operand)) (by decide)
  | guard op first rest =>
    have hstop : '"' ∉ (stopText op).toList := by cases op <;> decide
    .before (.append (.before (.before (.before (.after (by decide) (spells_render first))
      (by decide)) hstop) (by decide)) (spells_render rest)) (by decide)
  | equal left right =>
    .before (.append (.before (.after (by decide) (spells_render left)) (by decide))
      (spells_render right)) (by decide)
  | differ left right =>
    .before (.append (.before (.after (by decide) (spells_render left)) (by decide))
      (spells_render right)) (by decide)
  | boxed f => .before (.after (by decide) (spells_render f)) (by decide)
termination_by structural f => f

theorem spells_joined : ∀ fs : List Fragment,
    Spells (fun g => Text.joined ", " (renderAll (renameAll g fs))) (stringsAll fs)
  | [] => .code (by decide)
  | [f] => by
    rw [stringsAll, stringsAll, List.append_nil]
    exact spells_render f
  | f :: next :: fs => .append (.before (spells_render f) (by decide)) (spells_joined (next :: fs))
termination_by structural fs => fs
end

theorem strings_asValue (f : Fragment) (hint : Option TypeHint) :
    (f.asValue hint).strings = f.strings := by
  unfold asValue
  split
  · rfl
  · split <;> rfl

theorem strings_orNull (f : Fragment) : f.orNull.strings = f.strings := by
  cases f <;> rfl

theorem strings_guards (op : Connective) : ∀ fs : List Fragment,
    (guards op fs).strings = stringsAll fs
  | [] => rfl
  | [f] => (List.append_nil f.strings).symm
  | f :: next :: fs => congrArg (f.strings ++ ·) (strings_guards op (next :: fs))

end Fragment

/-! ## The names of an expression -/

namespace Expr

mutual
/-- The names and string constants in an expression. -/
def strings : Expr → List String
  | const (.string s) => [s]
  | const _ => []
  | root => []
  | source => []
  | var name => [name]
  | property name => [name]
  | index key => key.strings
  | subscript _ => []
  | method name args => name :: stringsAll args
  | chain links => stringsAll links
  | not operand => operand.strings
  | logical _ operands => stringsAll operands
  | compare _ left right => left.strings ++ right.strings
termination_by structural e => e

def stringsAll : List Expr → List String
  | [] => []
  | e :: es => e.strings ++ stringsAll es
termination_by structural es => es
end

/-- The string that the expression itself puts into its fragment. -/
def ownString? : Expr → Option String
  | const (.string s) => some s
  | var name => some name
  | property name => some name
  | method name _ => some name
  | _ => none

mutual
/-- A fragment has no strings but those of its place and of the expression. -/
theorem Renders.mem_strings {e : Expr} {place f : Fragment} {s : String} : Renders e place f →
    s ∈ f.strings → s ∈ place.strings ∨ s ∈ e.strings
  | .const literal _, hs => by
    cases literal with
    | string t => exact .inr hs
    | _ => cases hs
  | .root _, hs => nomatch hs
  | .source _, hs => .inl hs
  | .var _ _, hs => .inr hs
  | .property _ _, hs => List.mem_append.1 hs
  | .index hkey hint place, hs => by
    rw [Fragment.strings, Fragment.strings_asValue, List.mem_append] at hs
    exact hs.imp_right fun hs => (hkey.mem_strings hs).resolve_left nofun
  | .subscript _ _, hs => .inl hs
  | .method name hargs place, hs => by
    rw [Fragment.strings, List.append_assoc, List.mem_append, List.singleton_append,
      List.mem_cons] at hs
    rw [strings, List.mem_cons]
    exact hs.imp_right (.imp_right fun hs => (hargs.mem_strings hs).resolve_left nofun)
  | .empty _, hs => nomatch hs
  | .chain hlinks, hs => hlinks.mem_strings hs
  | .not hoperand, hs => by
    rw [Fragment.strings, Fragment.strings_orNull] at hs
    exact hoperand.mem_strings hs
  | .logical op hoperands, hs => by
    rw [Fragment.strings_guards] at hs
    exact hoperands.mem_strings hs
  | .compare (l := l) (r := r) op hleft leftHint hright rightHint, hs => by
    have hparts : s ∈ l.strings ++ r.strings := by
      split at hs <;>
        simpa only [Fragment.strings, Fragment.strings_asValue] using hs
    rw [strings, List.mem_append]
    rcases List.mem_append.1 hparts with hs | hs
    · exact (hleft.mem_strings hs).imp_right .inl
    · exact (hright.mem_strings hs).imp_right .inr

theorem RendersAll.mem_strings {es : List Expr} {place : Fragment} {fs : List Fragment}
    {s : String} : RendersAll es place fs →
      s ∈ Fragment.stringsAll fs → s ∈ place.strings ∨ s ∈ stringsAll es
  | .nil _, hs => nomatch hs
  | .cons h hint hrest, hs => by
    rw [Fragment.stringsAll, Fragment.strings_asValue, List.mem_append] at hs
    rw [stringsAll, List.mem_append]
    rcases hs with hs | hs
    · exact (h.mem_strings hs).imp_right .inl
    · exact (hrest.mem_strings hs).imp_right .inr

theorem RendersLinks.mem_strings {links : List Expr} {place f : Fragment} {s : String} :
    RendersLinks links place f → s ∈ f.strings → s ∈ place.strings ∨ s ∈ stringsAll links
  | .last h, hs => by
    rw [stringsAll, stringsAll, List.append_nil]
    exact h.mem_strings hs
  | .link h hint hlinks, hs => by
    rw [stringsAll, List.mem_append]
    rcases hlinks.mem_strings hs with hs | hs
    · rw [Fragment.strings, Fragment.strings_asValue] at hs
      exact (h.mem_strings hs).imp_right .inl
    · exact .inr (.inr hs)
end

/-- Its own string is in the fragment, whatever the place. -/
theorem Renders.ownString_mem {e : Expr} {place f : Fragment} {s : String}
    (h : Renders e place f) (hs : e.ownString? = some s) : s ∈ f.strings := by
  cases h with
  | const literal =>
    cases literal with
    | string t =>
      cases hs
      exact List.mem_singleton_self s
    | _ => cases hs
  | var name =>
    cases hs
    exact List.mem_singleton_self s
  | property name =>
    cases hs
    simp [Fragment.strings]
  | method name =>
    cases hs
    simp [Fragment.strings]
  | _ => cases hs

end Expr

open Text in
/-- A quoted text is one literal for that text, whichever characters are written as code points: it
begins and ends with its only quotes without a backslash, what comes after it is read on its own,
and no other text is quoted like it. So a generated fragment is read as code around literals. They
are the strings in the fragment, all of them names or strings of the expression or of the place
where it is rendered, its own among them; and with other strings in their place only the literals
are others. -/
theorem names_survive_as_literals :
    (∀ s, quote s = quoteBy isPrintable s) ∧
    (∀ (plain : Char → Bool) (s : String),
      (∀ rest, tokens? ((quoteBy plain s).toList ++ rest) =
        (tokens? rest).map (.literal s :: ·)) ∧
      bareQuotes 0 (quoteBy plain s).toList = [0, (quoteBy plain s).toList.length - 1] ∧
      ∀ t, quoteBy plain s = quoteBy plain t → s = t) ∧
    ∀ {σ : Type} (classes : Registry σ) (e : Expr) (target : Value) {s s' : Session σ}
      {f : Fragment}, e.generate classes target s = (.ok f, s') →
        (∀ name, e.ownString? = some name → name ∈ f.strings) ∧
        (∀ name ∈ f.strings, name ∈ s.context.place.strings ∨ name ∈ e.strings) ∧
        ∃ tokens, literals tokens = f.strings ∧ tokens? f.render.toList = some tokens ∧
          ∀ g, tokens? (f.rename g).render.toList = some (tokens.map (·.rename g)) := by
  refine ⟨quote_eq_quoteBy, fun plain s => ⟨tokens?_quoteBy plain s, bareQuotes_quoteBy plain s,
    fun t h => quoteBy_injective plain h⟩, ?_⟩
  intro σ classes e target s s' f h
  have hrenders := e.renders_generate target h
  obtain ⟨tokens, hliterals, hread⟩ := f.spells_render
  have hall (g : String → String) :
      tokens? (f.rename g).render.toList = some (tokens.map (·.rename g)) := by
    simpa [tokens?, tokensFrom?] using hread g []
  have hid : tokens.map (·.rename id) = tokens := by
    refine (List.map_congr_left fun token _ => ?_).trans (List.map_id tokens)
    cases token <;> rfl
  refine ⟨fun name => hrenders.ownString_mem, fun name => hrenders.mem_strings, tokens,
    hliterals, ?_, hall⟩
  rw [← hid, ← hall id, f.rename_id]

/-- A name that looks like the end of its literal and code after it. -/
def Expr.hostileProperty : Expr := .property "a\")?; f(\"\\"

theorem names_survive_of_hostile_property :
    ∃ s', Expr.hostileProperty.generate (fun _ => ClassTable.empty) .null
        ⟨Context.new .null, World.start ()⟩ =
          (.ok (.property .targetPlace "a\")?; f(\"\\"), s') ∧
      ∃ tokens, Text.literals tokens = ["a\")?; f(\"\\"] ∧ Text.tokens? ("::ogel_lang::runtime" ++
        "::get_property(ctx, &target, \"a\\\")?; f(\\\"\\\\\")?").toList = some tokens := by
  have hgenerate : Expr.hostileProperty.generate (fun _ => ClassTable.empty) .null
      ⟨Context.new .null, World.start ()⟩ =
        (.ok (.property .targetPlace "a\")?; f(\"\\"), _) := rfl
  obtain ⟨-, -, tokens, hliterals, htokens, -⟩ := names_survive_as_literals.2.2 _ _ _ hgenerate
  exact ⟨_, hgenerate, tokens, hliterals, htokens⟩

end ObjectGraph
