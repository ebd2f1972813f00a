import ObjectGraph.Proofs.NumeralCharacters
import ObjectGraph.Proofs.Occurrences

/-!
# Calls in a fragment

Every variable that is read and every step of navigation is one call of a function under one path.
The text of a fragment has that path as often as the fragment has such calls, unless a name or a
text in it spells the path.
-/
namespace ObjectGraph
namespace Fragment

/-- The path of the functions for variables and navigation. -/
def helperPath : String := runtime ++ "::"

/-- Whether a text has the path in it. -/
def spells (text : String) : Bool := Text.contains text helperPath

mutual
/-- The calls of functions under the path. -/
def calls : Fragment → Nat
  | group f => f.calls
  | clone place => place.calls
  | var _ => 1
  | property place _ => place.calls + 1
  | index place key => place.calls + key.calls + 1
  | subscript place _ => place.calls + 1
  | call place _ args => place.calls + callsAll args + 1
  | not operand => operand.calls
  | guard _ first rest => first.calls + rest.calls
  | equal left right => left.calls + right.calls
  | differ left right => left.calls + right.calls
  | boxed f => f.calls
  | _ => 0
termination_by structural f => f

def callsAll : List Fragment → Nat
  | [] => 0
  | f :: fs => f.calls + callsAll fs
termination_by structural fs => fs
end

mutual
/-- Whether a name or a text in the fragment has the path in it. -/
def spellsPath : Fragment → Bool
  | string s => spells s
  | group f => f.spellsPath
  | clone place => place.spellsPath
  | var name => spells name
  | property place name => place.spellsPath || spells name
  | index place key => place.spellsPath || key.spellsPath
  | subscript place _ => place.spellsPath
  | call place name args => place.spellsPath || spells name || anySpellsPath args
  | not operand => operand.spellsPath
  | guard _ first rest => first.spellsPath || rest.spellsPath
  | equal left right => left.spellsPath || right.spellsPath
  | differ left right => left.spellsPath || right.spellsPath
  | boxed f => f.spellsPath
  | _ => false
termination_by structural f => f

def anySpellsPath : List Fragment → Bool
  | [] => false
  | f :: fs => f.spellsPath || anySpellsPath fs
termination_by structural fs => fs
end

/-! ## The path in texts -/

/-- How often the path occurs in a text. -/
def pathCount (text : String) : Nat := Text.count text helperPath

/-- The text begins with a character that is not in the path. -/
def opens (s : String) : Bool := s.toList.head?.any fun c => !helperPath.toList.contains c

/-- The text ends with a character that is not in the path. -/
def closes (s : String) : Bool := s.toList.getLast?.any fun c => !helperPath.toList.contains c

theorem exists_of_any {o : Option Char}
    (h : (o.any fun c => !helperPath.toList.contains c) = true) :
    ∃ c, o = some c ∧ c ∉ helperPath.toList := by
  cases o with
  | none => cases h
  | some c => exact ⟨c, rfl, by simpa using h⟩

theorem pathCount_append_of_opens (a : String) {b : String} (h : opens b = true) :
    pathCount (a ++ b) = pathCount a + pathCount b := by
  obtain ⟨c, hc, hnot⟩ := exists_of_any h
  simp only [pathCount, Text.count, String.toList_append]
  exact Text.occurrences_append_of_head (by decide) hnot hc

theorem pathCount_append_of_closes {a : String} (b : String) (h : closes a = true) :
    pathCount (a ++ b) = pathCount a + pathCount b := by
  obtain ⟨c, hc, hnot⟩ := exists_of_any h
  simp only [pathCount, Text.count, String.toList_append]
  exact Text.occurrences_append_of_getLast (by decide) hnot hc

theorem closes_append (a : String) {b : String} (h : closes b = true) :
    closes (a ++ b) = true := by
  obtain ⟨c, hc, hnot⟩ := exists_of_any h
  simp [closes, List.getLast?_append, hc, hnot]

/-- A text between two that delimit it. -/
theorem pathCount_between {a b : String} (text : String) (ha : closes a = true)
    (hb : opens b = true) :
    pathCount (a ++ text ++ b) = pathCount a + pathCount text + pathCount b := by
  rw [pathCount_append_of_opens _ hb, pathCount_append_of_closes _ ha]

theorem opens_quote (s : String) : opens (Text.quote s) = true := by
  have hquote : (!helperPath.toList.contains '"') = true := by decide
  rw [opens, Text.quote, String.toList_ofList]
  exact hquote

theorem pathCount_quote {s : String} (h : spells s = false) : pathCount (Text.quote s) = 0 := by
  have hall : (helperPath.toList.all fun c => Text.escape c = [c]) = true := by decide
  have hplain : Text.WrittenPlain helperPath.toList := fun c hc =>
    of_decide_eq_true (List.all_eq_true.1 hall c hc)
  have hquote : pathCount (Text.quote s) = pathCount s := Text.occurrences_quote hplain s
  rw [hquote]
  exact (Text.count_eq_zero_iff (by decide)).2 h

/-! ## Numbers -/

theorem pathCount_of_not_mem {text : String} (h : 'g' ∉ text.toList) : pathCount text = 0 :=
  Text.occurrences_of_not_mem (by decide) h

/-! ## The text of a fragment -/

mutual
/-- The fixed parts of the text have the path once for each call; what stands between them begins
and ends next to a character that is not in the path. -/
theorem pathCount_render : ∀ f : Fragment, f.spellsPath = false → pathCount f.render = f.calls
  | blank, _ => rfl
  | nullValue, _ => by decide
  | truth b, _ => by cases b <;> decide
  | integer n, _ => by
    have hn := pathCount_of_not_mem ((Text.isNumeral_integer n.toInt).not_mem (by decide))
    have hfixed : pathCount (valueType ++ "::Integer(") + pathCount ")" = 0 := by decide +kernel
    rw [render, pathCount_between _ (closes_append _ (by decide)) (by decide)]
    change _ = 0
    omega
  | float x, _ => by
    have hx := pathCount_of_not_mem (not_mem_floatText (by decide) (by decide) x)
    have hfixed : pathCount (valueType ++ "::Float(") + pathCount ")" = 0 := by decide +kernel
    rw [render, pathCount_between _ (closes_append _ (by decide)) (by decide)]
    change _ = 0
    omega
  | string s, h => by
    have hs := pathCount_quote h
    have hfixed : pathCount (valueType ++ "::String(::std::string::String::from(") +
      pathCount "))" = 0 := by decide +kernel
    rw [render, pathCount_between _ (closes_append _ (by decide)) (by decide)]
    change _ = 0
    omega
  | rootPlace, _ => by decide
  | targetPlace, _ => by decide
  | group f, h => by
    have hfixed : pathCount "(" + pathCount ")" = 0 := by decide +kernel
    rw [render, calls, pathCount_between _ (by decide) (by decide), pathCount_render f h]
    omega
  | clone place, h => by
    have hfixed : pathCount ".clone()" = 0 := by decide +kernel
    rw [render, calls, pathCount_append_of_opens _ (by decide), pathCount_render place h, hfixed]
    rfl
  | var name, h => by
    have hname := pathCount_quote h
    have hfixed : pathCount (runtime ++ "::variable(ctx, ") + pathCount ")" = 1 := by decide +kernel
    rw [render, calls, pathCount_between _ (closes_append _ (by decide)) (by decide)]
    omega
  | property place name, h => by
    simp only [spellsPath, Bool.or_eq_false_iff] at h
    have hname := pathCount_quote h.2
    have hfixed : pathCount (runtime ++ "::get_property(ctx, &") + pathCount ", " +
      pathCount ")?" = 1 := by decide +kernel
    rw [render, calls, pathCount_append_of_opens _ (by decide),
      pathCount_append_of_opens _ (opens_quote name),
      pathCount_between _ (closes_append _ (by decide)) (by decide), pathCount_render place h.1]
    omega
  | index place key, h => by
    simp only [spellsPath, Bool.or_eq_false_iff] at h
    have hfixed : pathCount (runtime ++ "::get_index(ctx, &") + pathCount ", &" +
      pathCount ")?" = 1 := by decide +kernel
    rw [render, calls, pathCount_between _ (closes_append _ (by decide)) (by decide),
      pathCount_between _ (closes_append _ (by decide)) (by decide), pathCount_render place h.1,
      pathCount_render key h.2]
    omega
  | subscript place s, h => by
    have hpath : pathCount (subscriptPath s) = 0 := by cases s <;> decide +kernel
    have hfixed : pathCount (runtime ++ "::get_subscript(ctx, &") + pathCount ", " +
      pathCount ")?" = 1 := by decide +kernel
    rw [render, calls, pathCount_between _ (closes_append _ (by decide)) (by decide),
      pathCount_between _ (closes_append _ (by decide)) (by decide), pathCount_render place h]
    omega
  | call place name args, h => by
    simp only [spellsPath, Bool.or_eq_false_iff] at h
    obtain ⟨⟨hplace, hname⟩, hargs⟩ := h
    have hquote := pathCount_quote hname
    have hfixed : pathCount (runtime ++ "::call_method(ctx, &") + pathCount ", " +
      pathCount ", &[" + pathCount "])?" = 1 := by decide +kernel
    rw [render, calls, pathCount_between _ (closes_append _ (by decide)) (by decide),
      pathCount_append_of_opens _ (by decide), pathCount_append_of_opens _ (opens_quote name),
      pathCount_between _ (closes_append _ (by decide)) (by decide),
      pathCount_render place hplace, pathCount_joined args hargs]
    omega
  | not operand, h => by
    have hfixed : pathCount ("(!" ++ ops ++ "::boolean_value(&(") + pathCount ")))" = 0 := by
      decide +kernel
    rw [render, calls, pathCount_between _ (closes_append _ (by decide)) (by decide),
      pathCount_render operand h]
    omega
  | guard op first rest, h => by
    simp only [spellsPath, Bool.or_eq_false_iff] at h
    have hstop : pathCount (stopText op) = 0 := by cases op <;> decide +kernel
    have hfixed : pathCount "\x7b let v = " + pathCount "; if " +
      pathCount " \x7b v \x7d else \x7b " + pathCount " \x7d \x7d" = 0 := by decide +kernel
    rw [render, calls, pathCount_between _ (closes_append _ (by decide)) (by decide),
      pathCount_between _ (closes_append _ (by decide)) (by decide),
      pathCount_between _ (by decide) (by decide), pathCount_render first h.1,
      pathCount_render rest h.2]
    omega
  | equal left right, h => by
    simp only [spellsPath, Bool.or_eq_false_iff] at h
    have hfixed : pathCount (ops ++ "::equals(&") + pathCount ", &" + pathCount ")" = 0 := by
      decide +kernel
    rw [render, calls, pathCount_between _ (closes_append _ (by decide)) (by decide),
      pathCount_between _ (closes_append _ (by decide)) (by decide), pathCount_render left h.1,
      pathCount_render right h.2]
    omega
  | differ left right, h => by
    simp only [spellsPath, Bool.or_eq_false_iff] at h
    have hfixed : pathCount ("(!" ++ ops ++ "::equals(&") + pathCount ", &" +
      pathCount "))" = 0 := by decide +kernel
    rw [render, calls, pathCount_between _ (closes_append _ (by decide)) (by decide),
      pathCount_between _ (closes_append _ (by decide)) (by decide), pathCount_render left h.1,
      pathCount_render right h.2]
    omega
  | boxed f, h => by
    have hfixed : pathCount (valueType ++ "::Boolean(") + pathCount ")" = 0 := by decide +kernel
    rw [render, calls, boxedText, pathCount_between _ (closes_append _ (by decide)) (by decide),
      pathCount_render f h]
    omega
termination_by structural f => f

theorem pathCount_joined : ∀ fs : List Fragment, anySpellsPath fs = false →
    pathCount (Text.joined ", " (renderAll fs)) = callsAll fs
  | [], _ => rfl
  | [f], h => by
    rw [anySpellsPath, Bool.or_eq_false_iff] at h
    exact pathCount_render f h.1
  | f :: g :: fs, h => by
    rw [anySpellsPath, Bool.or_eq_false_iff] at h
    have hrest := pathCount_joined (g :: fs) h.2
    rw [renderAll] at hrest ⊢
    rw [renderAll, Text.joined_cons_cons,
      pathCount_append_of_closes _ (closes_append _ (by decide)),
      pathCount_append_of_opens _ (by decide), hrest, pathCount_render f h.1]
    rfl
termination_by structural fs => fs
end

end Fragment
end ObjectGraph
