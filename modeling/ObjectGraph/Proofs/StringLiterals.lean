import ObjectGraph.Json.Text
import ObjectGraph.Proofs.StringBodies
import ObjectGraph.Text.Quoted

/-!
# String literals in source text

Source text is read as characters and string literals. A quoted text is one literal, which stands
for that text and ends at its last character, whichever characters are written as code points. So
what comes after it is read as if it stood alone.
-/
namespace ObjectGraph.Text

/-! ## Reading -/

/-- A part of a source text. -/
inductive Token
  | char (c : Char)
  | literal (s : String)
  deriving DecidableEq

/-- The character that an escape of one letter stands for. -/
def letterEscape? : Char → Option Char
  | '"' => some '"'
  | '\\' => some '\\'
  | '\x27' => some '\x27'
  | 'n' => some '\n'
  | 'r' => some '\r'
  | 't' => some '\t'
  | '0' => some '\x00'
  | _ => none

/-- Surrogates and numbers beyond the last character are code points of no character. -/
def scalar? (n : Nat) : Option Char := if n.isValidChar then some (Char.ofNat n) else none

/-- Where the reader stands: between literals, or in a literal whose characters so far it holds,
newest first. -/
inductive Scan
  | outside
  | inside (body : List Char)
  | escaped (body : List Char)
  | opening (body : List Char)
  | point (body : List Char) (digits value : Nat)

/-- A literal ends at a quote without a backslash before it. A backslash begins an escape: a letter,
or one to six hexadecimal digits in braces. A carriage return stands in no literal. -/
def tokensFrom? : Scan → List Char → Option (List Token)
  | .outside, [] => some []
  | _, [] => none
  | .outside, c :: rest =>
    if c = '"' then tokensFrom? (.inside []) rest
    else (tokensFrom? .outside rest).map (.char c :: ·)
  | .inside body, c :: rest =>
    if c = '"' then (tokensFrom? .outside rest).map (.literal (String.ofList body.reverse) :: ·)
    else if c = '\\' then tokensFrom? (.escaped body) rest
    else if c = '\r' then none
    else tokensFrom? (.inside (c :: body)) rest
  | .escaped body, c :: rest =>
    if c = 'u' then tokensFrom? (.opening body) rest
    else (letterEscape? c).bind fun d => tokensFrom? (.inside (d :: body)) rest
  | .opening body, c :: rest =>
    if c = '\x7b' then tokensFrom? (.point body 0 0) rest else none
  | .point body digits value, c :: rest =>
    if c = '\x7d' then
      if digits = 0 then none
      else (scalar? value).bind fun d => tokensFrom? (.inside (d :: body)) rest
    else if digits = 6 then none
    else
      (Json.hexValue? c).bind fun h => tokensFrom? (.point body (digits + 1) (16 * value + h)) rest

/-- The characters and literals of a source text. -/
def tokens? (text : List Char) : Option (List Token) := tokensFrom? .outside text

/-- The positions, counted on from a first one, of the quotes that no backslash escapes. -/
def bareQuotes : Nat → List Char → List Nat
  | _, [] => []
  | i, '\\' :: _ :: rest => bareQuotes (i + 2) rest
  | i, c :: rest => if c = '"' then i :: bareQuotes (i + 1) rest else bareQuotes (i + 1) rest

/-! ## Written forms -/

/-- The written form of a character, where `plain` chooses the characters that are written as
themselves among those without an escape of their own. -/
def escapeBy (plain : Char → Bool) (c : Char) : List Char :=
  if c = '"' then ['\\', '"']
  else if c = '\\' then ['\\', '\\']
  else if c = '\n' then ['\\', 'n']
  else if c = '\r' then ['\\', 'r']
  else if c = '\t' then ['\\', 't']
  else if c = '\x00' then ['\\', '0']
  else if plain c then [c]
  else ['\\', 'u', '\x7b'] ++ hexDigits c.toNat ++ ['\x7d']

/-- The text between quotes, for any choice of the characters that are written as themselves. -/
def quoteBy (plain : Char → Bool) (s : String) : String :=
  String.ofList ('"' :: s.toList.flatMap (escapeBy plain) ++ ['"'])

theorem quote_eq_quoteBy (s : String) : quote s = quoteBy isPrintable s := rfl

/-- What may be written for a character in a literal. -/
inductive Written (c : Char) : List Char → Prop
  | letter {letter : Char} (h : letterEscape? letter = some c) : Written c ['\\', letter]
  | self (hquote : c ≠ '"') (hslash : c ≠ '\\') (hreturn : c ≠ '\r') : Written c [c]
  | point : Written c ('\\' :: 'u' :: '\x7b' :: (hexDigits c.toNat ++ ['\x7d']))

theorem written_escapeBy (plain : Char → Bool) (c : Char) : Written c (escapeBy plain c) := by
  unfold escapeBy
  iterate 6
    split
    · subst c
      exact .letter rfl
  split
  · next hquote hslash _ hreturn _ _ _ => exact .self hquote hslash hreturn
  · exact .point

/-! ## Code points -/

/-- Six digits are enough. -/
theorem length_hexDigits_le (c : Char) : (hexDigits c.toNat).length ≤ 6 := by
  have hvalid : c.toNat.isValidChar := c.valid
  exact (Nat.length_toDigits_le_iff (by decide) (by decide)).2 (by omega)

theorem hexValue?_digitChar {n : Nat} (h : n < 16) : Json.hexValue? n.digitChar = some n :=
  Json.hexValue?_hexDigit n h

theorem digitChar_ne {d : Nat} (h : d < 16) : d.digitChar ≠ '"' ∧ d.digitChar ≠ '\\' ∧
    d.digitChar ≠ '\x7d' := by
  have hall : ∀ d < 16, Nat.digitChar d ≠ '"' ∧ Nat.digitChar d ≠ '\\' ∧
    Nat.digitChar d ≠ '\x7d' := by decide
  exact hall d h

variable {body : List Char}

theorem tokensFrom?_digit {digits value d : Nat} (hdigits : digits < 6) (hd : d < 16)
    (rest : List Char) :
    tokensFrom? (.point body digits value) (d.digitChar :: rest) =
      tokensFrom? (.point body (digits + 1) (16 * value + d)) rest := by
  rw [tokensFrom?, if_neg (digitChar_ne hd).2.2, if_neg (by omega), hexValue?_digitChar hd,
    Option.bind_some]

/-- The digits are counted, and their value is the number that was written. -/
theorem tokensFrom?_hexDigits (n : Nat) (h : (hexDigits n).length ≤ 6) (rest : List Char) :
    tokensFrom? (.point body 0 0) (hexDigits n ++ rest) =
      tokensFrom? (.point body (hexDigits n).length n) rest := by
  induction n using Nat.strongRecOn generalizing rest with
  | ind n ih =>
    by_cases hn : n < 16
    · rw [hexDigits_of_lt hn, List.singleton_append, tokensFrom?_digit (by decide) hn]
      simp
    · rw [hexDigits_of_le (by omega), List.length_append, List.length_singleton] at h ⊢
      have hvalue : 16 * (n / 16) + n % 16 = n := Nat.div_add_mod n 16
      rw [List.append_assoc, ih (n / 16) (by omega) (by omega), List.singleton_append,
        tokensFrom?_digit (by omega) (by omega), hvalue]

theorem scalar?_toNat (c : Char) : scalar? c.toNat = some c := by
  have hvalid : c.toNat.isValidChar := c.valid
  rw [scalar?, if_pos hvalid, Char.ofNat_toNat]

/-! ## Reading what is written -/

theorem tokensFrom?_point (c : Char) (rest : List Char) :
    tokensFrom? (.inside body) ('\\' :: 'u' :: '\x7b' :: (hexDigits c.toNat ++ '\x7d' :: rest)) =
      tokensFrom? (.inside (c :: body)) rest := by
  have hpositive := length_hexDigits_pos c.toNat
  change tokensFrom? (.point body 0 0) _ = _
  rw [tokensFrom?_hexDigits _ (length_hexDigits_le c), tokensFrom?, if_pos rfl,
    if_neg (by omega), scalar?_toNat, Option.bind_some]

/-- After the written form of a character the reader holds that character and is in no escape. -/
theorem Written.tokensFrom? {c : Char} {written : List Char} (h : Written c written)
    (rest : List Char) :
    tokensFrom? (.inside body) (written ++ rest) = tokensFrom? (.inside (c :: body)) rest := by
  cases h with
  | @letter letter h =>
    have hletter : letter ≠ 'u' := by
      rintro rfl
      cases h
    change Text.tokensFrom? (.escaped body) (letter :: rest) = _
    rw [Text.tokensFrom?, if_neg hletter, h, Option.bind_some]
  | self hquote hslash hreturn =>
    rw [List.singleton_append, Text.tokensFrom?, if_neg hquote, if_neg hslash, if_neg hreturn]
  | point =>
    simpa using tokensFrom?_point c rest

theorem tokensFrom?_written (plain : Char → Bool) (s rest : List Char) :
    tokensFrom? (.inside body) (s.flatMap (escapeBy plain) ++ rest) =
      tokensFrom? (.inside (s.reverse ++ body)) rest := by
  induction s generalizing body with
  | nil => rfl
  | cons c s ih =>
    rw [List.flatMap_cons, List.append_assoc, (written_escapeBy plain c).tokensFrom?, ih]
    simp

theorem toList_quoteBy (plain : Char → Bool) (s : String) (rest : List Char) :
    (quoteBy plain s).toList ++ rest =
      '"' :: (s.toList.flatMap (escapeBy plain) ++ '"' :: rest) := by
  simp [quoteBy]

/-- A quoted text is one literal, and what comes after it is read on its own. -/
theorem tokens?_quoteBy (plain : Char → Bool) (s : String) (rest : List Char) :
    tokens? ((quoteBy plain s).toList ++ rest) = (tokens? rest).map (.literal s :: ·) := by
  rw [toList_quoteBy]
  change tokensFrom? (.inside []) _ = _
  rw [tokensFrom?_written, tokensFrom?, if_pos rfl, List.append_nil, List.reverse_reverse,
    String.ofList_toList]
  rfl

theorem tokens?_quote (s : String) (rest : List Char) :
    tokens? ((quote s).toList ++ rest) = (tokens? rest).map (.literal s :: ·) :=
  tokens?_quoteBy isPrintable s rest

/-- A text without quotes is read as its characters. -/
theorem tokens?_code {code : List Char} (h : '"' ∉ code) (rest : List Char) :
    tokens? (code ++ rest) = (tokens? rest).map (code.map .char ++ ·) := by
  induction code with
  | nil => simp
  | cons c code ih =>
    rw [List.mem_cons, not_or] at h
    obtain ⟨hc, hcode⟩ := h
    have hstep : tokens? (c :: code ++ rest) = (tokens? (code ++ rest)).map (.char c :: ·) :=
      if_neg (Ne.symm hc)
    rw [hstep, ih hcode, Option.map_map]
    rfl

theorem quoteBy_injective (plain : Char → Bool) : Function.Injective (quoteBy plain) := by
  intro s t h
  have hs := tokens?_quoteBy plain s []
  rw [h, tokens?_quoteBy plain t []] at hs
  simpa [tokens?, tokensFrom?, eq_comm] using hs

/-! ## Quotes without a backslash -/

theorem bareQuotes_of_ne {c : Char} (hquote : c ≠ '"') (hslash : c ≠ '\\') (i : Nat)
    (rest : List Char) : bareQuotes i (c :: rest) = bareQuotes (i + 1) rest := by
  rw [bareQuotes, if_neg hquote]
  rintro _ _ rfl
  exact absurd rfl hslash

theorem bareQuotes_of_forall {front : List Char} (h : ∀ c ∈ front, c ≠ '"' ∧ c ≠ '\\') (i : Nat)
    (rest : List Char) : bareQuotes i (front ++ rest) = bareQuotes (i + front.length) rest := by
  induction front generalizing i with
  | nil => rfl
  | cons c front ih =>
    obtain ⟨hc, hfront⟩ := List.forall_mem_cons.1 h
    rw [List.cons_append, bareQuotes_of_ne hc.1 hc.2, ih hfront, List.length_cons]
    congr 1
    omega

theorem Written.bareQuotes {c : Char} {written : List Char} (h : Written c written) (i : Nat)
    (rest : List Char) :
    bareQuotes i (written ++ rest) = bareQuotes (i + written.length) rest := by
  cases h with
  | letter => rfl
  | self hquote hslash => exact bareQuotes_of_ne hquote hslash i rest
  | point =>
    have hpoint : ∀ d ∈ '\x7b' :: (hexDigits c.toNat ++ ['\x7d']), d ≠ '"' ∧ d ≠ '\\' := by
      intro d hd
      simp only [List.mem_cons, List.mem_append, List.not_mem_nil, or_false] at hd
      rcases hd with rfl | hd | rfl
      · decide
      · obtain ⟨n, hn, rfl⟩ := exists_of_mem_hexDigits hd
        exact ⟨(digitChar_ne hn).1, (digitChar_ne hn).2.1⟩
      · decide
    change Text.bareQuotes (i + 2) (_ ++ rest) = _
    rw [bareQuotes_of_forall hpoint]
    congr 1
    simp only [List.length_cons]
    omega

theorem bareQuotes_written (plain : Char → Bool) (s : List Char) (i : Nat) (rest : List Char) :
    bareQuotes i (s.flatMap (escapeBy plain) ++ rest) =
      bareQuotes (i + (s.flatMap (escapeBy plain)).length) rest := by
  induction s generalizing i with
  | nil => rfl
  | cons c s ih =>
    rw [List.flatMap_cons, List.append_assoc, (written_escapeBy plain c).bareQuotes, ih,
      List.length_append]
    congr 1
    omega

/-- Only the first and the last character of a quoted text are quotes without a backslash. -/
theorem bareQuotes_quoteBy (plain : Char → Bool) (s : String) :
    bareQuotes 0 (quoteBy plain s).toList = [0, (quoteBy plain s).toList.length - 1] := by
  have htext := toList_quoteBy plain s []
  rw [List.append_nil] at htext
  rw [htext]
  change 0 :: bareQuotes 1 _ = _
  rw [bareQuotes_written]
  simp [bareQuotes, Nat.add_comm]

end ObjectGraph.Text
