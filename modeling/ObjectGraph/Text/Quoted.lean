import ObjectGraph.Text.Printable

/-!
# Quoted text

A quoted text stands between two quotes. Inside, a quote, a backslash and the
characters with a short escape are escaped; every other character without a
printed form is written as its code point in hexadecimal. All else is written as
itself.
-/
namespace ObjectGraph.Text

/-- Lower-case hexadecimal digits, none for padding. -/
def hexDigits (n : Nat) : List Char := Nat.toDigits 16 n

theorem hexDigits_of_lt {n : Nat} (h : n < 16) : hexDigits n = [n.digitChar] :=
  Nat.toDigits_of_lt_base h

theorem hexDigits_of_le {n : Nat} (h : 16 ≤ n) :
    hexDigits n = hexDigits (n / 16) ++ [(n % 16).digitChar] :=
  Nat.toDigits_of_base_le (by decide) h

theorem length_hexDigits_pos (n : Nat) : 0 < (hexDigits n).length :=
  List.length_pos_iff.2 Nat.toDigits_ne_nil

theorem exists_of_mem_hexDigits {n : Nat} {c : Char} (h : c ∈ hexDigits n) :
    ∃ d < 16, c = d.digitChar := by
  induction n using Nat.strongRecOn with
  | ind n ih =>
    by_cases hn : n < 16
    · rw [hexDigits_of_lt hn, List.mem_singleton] at h
      exact ⟨n, hn, h⟩
    · rw [hexDigits_of_le (by omega), List.mem_append, List.mem_singleton] at h
      rcases h with h | h
      · exact ih (n / 16) (by omega) h
      · exact ⟨n % 16, by omega, h⟩

/-- The written form of one character. -/
def escape (c : Char) : List Char :=
  if c = '"' then ['\\', '"']
  else if c = '\\' then ['\\', '\\']
  else if c = '\n' then ['\\', 'n']
  else if c = '\r' then ['\\', 'r']
  else if c = '\t' then ['\\', 't']
  else if c = '\x00' then ['\\', '0']
  else if isPrintable c then [c]
  else ['\\', 'u', '\x7b'] ++ hexDigits c.toNat ++ ['\x7d']

def escapeAll (s : List Char) : List Char := s.flatMap escape

/-- The text between quotes. -/
def quote (s : String) : String :=
  String.ofList ('"' :: escapeAll s.toList ++ ['"'])

@[simp] theorem escapeAll_nil : escapeAll [] = [] := rfl

@[simp] theorem escapeAll_cons (c : Char) (s : List Char) :
    escapeAll (c :: s) = escape c ++ escapeAll s := by
  simp [escapeAll]

end ObjectGraph.Text
