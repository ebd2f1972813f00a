import ObjectGraph.Fragment
import ObjectGraph.Proofs.DoubleText
import ObjectGraph.Proofs.SourceText

/-!
# Reading fragments back
-/
namespace ObjectGraph
namespace Fragment

open Source (Passes Takes Denotes)

/-- The bindings that are borrowed values. -/
def isBinding : Fragment → Bool
  | rootPlace => true
  | targetPlace => true
  | _ => false

mutual
/-- Without blank parts, with the bindings only where something is read from them, and with no
doubles but those that are allowed. -/
def isWhole (allowed : Binary64 → Bool) : Fragment → Bool
  | blank => false
  | float x => allowed x
  | rootPlace => false
  | targetPlace => false
  | group f => f.isWhole allowed
  | clone place => place.isBinding || place.isWhole allowed
  | property place _ => place.isBinding || place.isWhole allowed
  | index place key => (place.isBinding || place.isWhole allowed) && key.isWhole allowed
  | subscript place _ => place.isBinding || place.isWhole allowed
  | call place _ args => (place.isBinding || place.isWhole allowed) && allWhole allowed args
  | not operand => operand.isWhole allowed
  | guard _ first rest => first.isWhole allowed && rest.isWhole allowed
  | equal left right => left.isWhole allowed && right.isWhole allowed
  | differ left right => left.isWhole allowed && right.isWhole allowed
  | boxed f => f.isWhole allowed
  | _ => true
termination_by structural f => f

def allWhole (allowed : Binary64 → Bool) : List Fragment → Bool
  | [] => true
  | f :: fs => f.isWhole allowed && allWhole allowed fs
termination_by structural fs => fs
end

variable {allowed : Binary64 → Bool}

/-- A fragment to read from. -/
def isOrigin (allowed : Binary64 → Bool) (f : Fragment) : Bool := f.isBinding || f.isWhole allowed

def floatSource (x : Binary64) : Source :=
  if x.isFinite then .numeral (Decimal.exact.text x).toList else .path (floatText x)

/-- The test that ends a guard. -/
def stopSource : Connective → Source
  | .and => .not (.call "::ogel_lang::ops::boolean_value" [.borrow (.path "v")])
  | .or => .call "::ogel_lang::ops::boolean_value" [.borrow (.path "v")]

mutual
/-- The expression that the text of a fragment is. A blank one has no text. -/
def source : Fragment → Source
  | blank => .path ""
  | nullValue => .path "::ogel_lang::Value::Null"
  | truth b => .path (Value.booleanText b)
  | integer n => .call "::ogel_lang::Value::Integer" [.numeral (toString n.toInt).toList]
  | float x => .call "::ogel_lang::Value::Float" [floatSource x]
  | string s => .call "::ogel_lang::Value::String" [.call "::std::string::String::from" [.text s]]
  | rootPlace => .path "root"
  | targetPlace => .path "target"
  | group f => f.source
  | clone place => .method place.source "clone" []
  | var name => .call "::ogel_lang::runtime::variable" [.path "ctx", .text name]
  | property place name =>
    .attempt (.call "::ogel_lang::runtime::get_property"
      [.path "ctx", .borrow place.source, .text name])
  | index place key =>
    .attempt (.call "::ogel_lang::runtime::get_index"
      [.path "ctx", .borrow place.source, .borrow key.source])
  | subscript place s =>
    .attempt (.call "::ogel_lang::runtime::get_subscript"
      [.path "ctx", .borrow place.source, .path (subscriptPath s)])
  | call place name args =>
    .attempt (.call "::ogel_lang::runtime::call_method"
      [.path "ctx", .borrow place.source, .text name, .borrow (.list (sourceAll args))])
  | not operand => .not (.call "::ogel_lang::ops::boolean_value" [.borrow operand.source])
  | guard op first rest =>
    .letIn "v" first.source (.ite (stopSource op) (.path "v") rest.source)
  | equal left right =>
    .call "::ogel_lang::ops::equals" [.borrow left.source, .borrow right.source]
  | differ left right =>
    .not (.call "::ogel_lang::ops::equals" [.borrow left.source, .borrow right.source])
  | boxed f => .call "::ogel_lang::Value::Boolean" [f.source]
termination_by structural f => f

def sourceAll : List Fragment → List Source
  | [] => []
  | f :: fs => f.source :: sourceAll fs
termination_by structural fs => fs
end

theorem isOrigin_of_isWhole {f : Fragment} (h : f.isWhole allowed = true) :
    f.isOrigin allowed = true := by
  rw [isOrigin, h, Bool.or_true]

theorem denotes_integer (n : Int64) : Denotes (integer n).render (integer n).source := by
  intro stack
  have hopen : Passes ⟨stack, .operand⟩ (valueType ++ "::Integer(")
      ⟨.items (.call "::ogel_lang::Value::Integer") [] :: stack, .operand⟩ :=
    Source.passes_code _ (by decide) rfl
  rw [render, String.append_assoc]
  exact (hopen.append (Source.passes_numeral (Json.Numeral.ofChars?_integer n.toInt) rfl ")" rfl
    rfl (by decide) rfl)).takes

theorem denotes_float (x : Binary64) : Denotes (float x).render (float x).source := by
  intro stack
  have hopen : Passes ⟨stack, .operand⟩ (valueType ++ "::Float(")
      ⟨.items (.call "::ogel_lang::Value::Float") [] :: stack, .operand⟩ :=
    Source.passes_code _ (by decide) rfl
  rw [render, source, floatSource]
  split_ifs with hfinite
  · obtain ⟨n, hread, -⟩ := Decimal.nearest_text Decimal.exact hfinite
    have htext : floatText x = Decimal.exact.text x := by
      simp [floatText, Decimal.isFinite_cases hfinite]
    rw [htext, String.append_assoc]
    exact (hopen.append (Source.passes_numeral hread rfl ")" rfl rfl (by decide) rfl)).takes
  · have hconstant : Denotes (floatText x) (.path (floatText x)) := by
      intro stack
      unfold floatText
      split_ifs with hnan hinfinite hnegative
      · exact Source.takes_code (by decide) rfl rfl
      · exact Source.takes_code (by decide) rfl rfl
      · exact Source.takes_code (by decide) rfl rfl
      · exact absurd (Decimal.isFinite_of_cases hnan hinfinite) hfinite
    exact ((hopen.then (hconstant _)).code ")" (by decide) (by decide) rfl).takes

theorem denotes_subscriptPath (s : Subscript) :
    Denotes (subscriptPath s) (.path (subscriptPath s)) := by
  intro stack
  cases s <;> exact Source.takes_code (by decide) rfl rfl

/-- The end of a guard, up to the operand that may follow. -/
theorem passes_stopText (op : Connective) (stack : List Source.Frame) :
    Passes ⟨.test :: stack, .operand⟩ (stopText op ++ " \x7b v \x7d else \x7b ")
      ⟨.no (stopSource op) (.path "v") :: stack, .operand⟩ := by
  cases op <;> exact Source.passes_code _ (by decide) rfl

mutual
/-- The text of a fragment is read, wherever an expression may stand, as its expression. -/
theorem denotes_render : ∀ (f : Fragment), f.isOrigin allowed = true → Denotes f.render f.source
  | blank, h => nomatch h
  | nullValue, _ => fun _ => Source.takes_code (by decide) rfl rfl
  | truth true, _ => fun _ => Source.takes_code (by decide) rfl rfl
  | truth false, _ => fun _ => Source.takes_code (by decide) rfl rfl
  | integer n, _ => denotes_integer n
  | float x, _ => denotes_float x
  | string s, _ => by
    intro stack
    have hopen : Passes ⟨stack, .operand⟩ (valueType ++ "::String(::std::string::String::from(")
        ⟨.items (.call "::std::string::String::from") [] ::
          .items (.call "::ogel_lang::Value::String") [] :: stack, .operand⟩ :=
      Source.passes_code _ (by decide) rfl
    exact ((hopen.append (Source.passes_quote s rfl)).code "))" (by decide) rfl).takes
  | rootPlace, _ => fun _ => Source.takes_code (by decide) rfl rfl
  | targetPlace, _ => fun _ => Source.takes_code (by decide) rfl rfl
  | group f, h => by
    intro stack
    have hopen : Passes ⟨stack, .operand⟩ "(" ⟨.group :: stack, .operand⟩ :=
      Source.passes_code _ (by decide) rfl
    have hinner := hopen.then (denotes_render f (isOrigin_of_isWhole h) _)
    exact (hinner.code ")" (by decide) (by decide) rfl).takes
  | clone place, h => by
    intro stack
    have hplace := denotes_render place h stack
    exact (hplace.code ".clone()" (by decide) (by decide) rfl).takes
  | var name, _ => by
    intro stack
    have hopen : Passes ⟨stack, .operand⟩ (runtime ++ "::variable(ctx, ")
        ⟨.items (.call "::ogel_lang::runtime::variable") [.path "ctx"] :: stack, .operand⟩ :=
      Source.passes_code _ (by decide) rfl
    exact ((hopen.append (Source.passes_quote name rfl)).code ")" (by decide) rfl).takes
  | property place name, h => by
    intro stack
    have hopen : Passes ⟨stack, .operand⟩ (runtime ++ "::get_property(ctx, &")
        ⟨.borrow :: .items (.call "::ogel_lang::runtime::get_property") [.path "ctx"] :: stack,
          .operand⟩ := Source.passes_code _ (by decide) rfl
    have hplace := hopen.borrowed (denotes_render place h)
    exact ((hplace.append (Source.passes_quote name rfl)).code ")?" (by decide) rfl).takes
  | index place key, h => by
    intro stack
    obtain ⟨hplace, hkey⟩ := Bool.and_eq_true_iff.1 h
    have hopen : Passes ⟨stack, .operand⟩ (runtime ++ "::get_index(ctx, &")
        ⟨.borrow :: .items (.call "::ogel_lang::runtime::get_index") [.path "ctx"] :: stack,
          .operand⟩ := Source.passes_code _ (by decide) rfl
    have hboth := hopen.borrowedPair (denotes_render place hplace)
      (denotes_render key (isOrigin_of_isWhole hkey))
    exact (hboth.code ")?" (by decide) (by decide) rfl).takes
  | subscript place s, h => by
    intro stack
    have hopen : Passes ⟨stack, .operand⟩ (runtime ++ "::get_subscript(ctx, &")
        ⟨.borrow :: .items (.call "::ogel_lang::runtime::get_subscript") [.path "ctx"] :: stack,
          .operand⟩ := Source.passes_code _ (by decide) rfl
    have hplace := hopen.borrowed (denotes_render place h)
    exact ((hplace.then (denotes_subscriptPath s _)).code ")?" (by decide) (by decide) rfl).takes
  | call place name args, h => by
    intro stack
    obtain ⟨hplace, hargs⟩ := Bool.and_eq_true_iff.1 h
    have hopen : Passes ⟨stack, .operand⟩ (runtime ++ "::call_method(ctx, &")
        ⟨.borrow :: .items (.call "::ogel_lang::runtime::call_method") [.path "ctx"] :: stack,
          .operand⟩ := Source.passes_code _ (by decide) rfl
    have hmiddle := hopen.borrowed (denotes_render place hplace)
    have hname : Passes ⟨stack, .operand⟩ _
        ⟨.items .array [] :: .borrow :: .items (.call "::ogel_lang::runtime::call_method")
          [.text name, .borrow place.source, .path "ctx"] :: stack, .operand⟩ :=
      (hmiddle.append (Source.passes_quote name rfl)).code ", &[" (by decide) rfl
    have htext : (call place name args).render = runtime ++ "::call_method(ctx, &" ++
        place.render ++ ", " ++ Text.quote name ++ ", &[" ++
        (Text.joined ", " (renderAll args) ++ "]") ++ ")?" := by
      change _ ++ Text.joined ", " (renderAll args) ++ ("]" ++ ")?") = _
      simp only [String.append_assoc]
    rw [htext]
    exact ((hname.append (passes_joined args hargs (.inr rfl))).code ")?" (by decide) rfl).takes
  | not operand, h => by
    intro stack
    have hopen : Passes ⟨stack, .operand⟩ ("(!" ++ ops ++ "::boolean_value(&(")
        ⟨.group :: .borrow :: .items (.call "::ogel_lang::ops::boolean_value") [] :: .not ::
          .group :: stack, .operand⟩ := Source.passes_code _ (by decide) rfl
    have hoperand := hopen.then (denotes_render operand (isOrigin_of_isWhole h) _)
    exact (hoperand.code ")))" (by decide) (by decide) rfl).takes
  | guard op first rest, h => by
    intro stack
    obtain ⟨hfirst, hrest⟩ := Bool.and_eq_true_iff.1 h
    have hopen : Passes ⟨stack, .operand⟩ "\x7b let v = "
        ⟨.bound "v" :: .block :: stack, .operand⟩ := Source.passes_code _ (by decide) rfl
    have htest : Passes ⟨stack, .operand⟩ _
        ⟨.test :: .body "v" first.source :: .block :: stack, .operand⟩ :=
      (hopen.then (denotes_render first (isOrigin_of_isWhole hfirst) _)).code "; if " (by decide)
        (by decide) rfl
    have hboth := (htest.append (passes_stopText op _)).then
      (denotes_render rest (isOrigin_of_isWhole hrest) _)
    have htext : (guard op first rest).render = "\x7b let v = " ++ first.render ++ "; if " ++
        (stopText op ++ " \x7b v \x7d else \x7b ") ++ rest.render ++ " \x7d \x7d" := by
      simp only [render, String.append_assoc]
    rw [htext]
    exact (hboth.code " \x7d \x7d" (by decide) (by decide) rfl).takes
  | equal left right, h => by
    intro stack
    obtain ⟨hleft, hright⟩ := Bool.and_eq_true_iff.1 h
    have hopen : Passes ⟨stack, .operand⟩ (ops ++ "::equals(&")
        ⟨.borrow :: .items (.call "::ogel_lang::ops::equals") [] :: stack, .operand⟩ :=
      Source.passes_code _ (by decide) rfl
    have hboth := hopen.borrowedPair (denotes_render left (isOrigin_of_isWhole hleft))
      (denotes_render right (isOrigin_of_isWhole hright))
    exact (hboth.code ")" (by decide) (by decide) rfl).takes
  | differ left right, h => by
    intro stack
    obtain ⟨hleft, hright⟩ := Bool.and_eq_true_iff.1 h
    have hopen : Passes ⟨stack, .operand⟩ ("(!" ++ ops ++ "::equals(&") ⟨.borrow ::
        .items (.call "::ogel_lang::ops::equals") [] :: .not :: .group :: stack, .operand⟩ :=
      Source.passes_code _ (by decide) rfl
    have hboth := hopen.borrowedPair (denotes_render left (isOrigin_of_isWhole hleft))
      (denotes_render right (isOrigin_of_isWhole hright))
    exact (hboth.code "))" (by decide) (by decide) rfl).takes
  | boxed f, h => by
    intro stack
    have hopen : Passes ⟨stack, .operand⟩ (valueType ++ "::Boolean(")
        ⟨.items (.call "::ogel_lang::Value::Boolean") [] :: stack, .operand⟩ :=
      Source.passes_code _ (by decide) rfl
    have hinner := hopen.then (denotes_render f (isOrigin_of_isWhole h) _)
    exact (hinner.code ")" (by decide) (by decide) rfl).takes
termination_by structural f => f

/-- The arguments of a call and the bracket that ends their list, behind those before them. -/
theorem passes_joined : ∀ (args : List Fragment), allWhole allowed args = true →
    ∀ {stack : List Source.Frame} {done : List Source}, args ≠ [] ∨ done = [] →
      Passes ⟨.items .array done :: stack, .operand⟩ (Text.joined ", " (renderAll args) ++ "]")
        ⟨stack, .after (.list (done.reverse ++ sourceAll args))⟩
  | [], _, _, _, hdone => by
    rw [hdone.resolve_left fun h => h rfl]
    exact Source.passes_code "]" (by decide) rfl
  | [last], h, stack, done, _ => by
    have hlast := isOrigin_of_isWhole (Bool.and_eq_true_iff.1 h).1
    have hall : done.reverse ++ sourceAll [last] = (last.source :: done).reverse := by
      rw [List.reverse_cons]
      rfl
    rw [hall]
    exact (denotes_render last hlast _).code "]" (by decide) (by decide) rfl
  | arg :: next :: args, h, stack, done, _ => by
    obtain ⟨harg, hargs⟩ := Bool.and_eq_true_iff.1 h
    have hfirst : Passes ⟨.items .array done :: stack, .operand⟩ (arg.render ++ ", ")
        ⟨.items .array (arg.source :: done) :: stack, .operand⟩ :=
      (denotes_render arg (isOrigin_of_isWhole harg) _).code ", " (by decide) (by decide) rfl
    have hothers : Passes ⟨.items .array (arg.source :: done) :: stack, .operand⟩ _ _ :=
      passes_joined (next :: args) hargs (.inl (List.cons_ne_nil _ _))
    have hall : done.reverse ++ sourceAll (arg :: next :: args) =
        (arg.source :: done).reverse ++ sourceAll (next :: args) := by
      rw [List.reverse_cons, List.append_assoc]
      rfl
    have htext : Text.joined ", " (renderAll (arg :: next :: args)) ++ "]" =
        arg.render ++ ", " ++ (Text.joined ", " (renderAll (next :: args)) ++ "]") := by
      simp only [renderAll, Text.joined_cons_cons, String.append_assoc]
    rw [hall, htext]
    exact hfirst.append hothers
termination_by structural args => args
end

end Fragment
end ObjectGraph
