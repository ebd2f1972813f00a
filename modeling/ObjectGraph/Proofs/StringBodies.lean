import ObjectGraph.Json.Text

/-!
# Bodies of JSON strings

What is written as the body of a string is read back as that string. Every character is written
as one piece, whatever its written form, and this piece stands for the character alone.
-/
namespace ObjectGraph.Json

theorem hexValue?_hexDigit : ∀ n < 16, hexValue? (hexDigit n) = some n := by
  decide

/-! ## One character -/

/-- The piece is read as the character, whatever comes after it. -/
def Piece.Means (piece : Piece) (c : Char) : Prop :=
  ∀ rest, assemble? (piece :: rest) = (assemble? rest).map (c :: ·)

theorem Piece.means_char (c : Char) : (Piece.char c).Means c := fun _ => rfl

theorem Piece.means_unit {c : Char} (h : c.toNat < 0x20) : (Piece.unit c.toNat).Means c := by
  have hhigh : isHighUnit c.toNat = false := by
    simp only [isHighUnit, Bool.and_eq_false_iff, decide_eq_false_iff_not]
    omega
  have hlow : isLowUnit c.toNat = false := by
    simp only [isLowUnit, Bool.and_eq_false_iff, decide_eq_false_iff_not]
    omega
  intro rest
  cases rest with
  | nil => simp [assemble?, hhigh, hlow]
  | cons next rest => cases next <;> simp [assemble?, hhigh, hlow]

theorem pieces?_shortEscape {letter c : Char} (h : shortEscape? letter = some c)
    (rest : List Char) :
    pieces? ('\\' :: letter :: rest) = (pieces? rest).map (.char c :: ·) := by
  have hletter : letter ≠ 'u' := by
    rintro rfl
    cases h
  rw [pieces?, h]
  · cases pieces? rest <;> rfl
  · rintro _ _ _ _ _ rfl
    exact absurd rfl hletter

theorem pieces?_control {n : Nat} (h : n < 0x20) (rest : List Char) :
    pieces? ('\\' :: 'u' :: '0' :: '0' :: hexDigit (n / 16) :: hexDigit (n % 16) :: rest) =
      (pieces? rest).map (.unit n :: ·) := by
  have hunit : unit? '0' '0' (hexDigit (n / 16)) (hexDigit (n % 16)) = some n := by
    have hzero : hexValue? '0' = some 0 := rfl
    simp only [unit?, hzero, hexValue?_hexDigit (n / 16) (by omega),
      hexValue?_hexDigit (n % 16) (by omega), Option.some.injEq]
    omega
  rw [pieces?, hunit]
  cases pieces? rest <;> rfl

theorem pieces?_self {c : Char} (hquote : c ≠ '"') (hslash : c ≠ '\\') (h : ¬ c.toNat < 0x20)
    (rest : List Char) : pieces? (c :: rest) = (pieces? rest).map (.char c :: ·) := by
  rw [pieces?, if_neg (by simp [hquote, h])]
  all_goals
    intros
    exact hslash ‹_›

/-- One piece is written for a character, and it means that character. -/
theorem pieces?_encodeChar (c : Char) : ∃ piece : Piece, piece.Means c ∧
    ∀ rest, pieces? (encodeChar c ++ rest) = (pieces? rest).map (piece :: ·) := by
  unfold encodeChar
  iterate 7
    split
    · subst c
      exact ⟨_, Piece.means_char _, pieces?_shortEscape rfl⟩
  split
  · next h => exact ⟨_, Piece.means_unit h, pieces?_control h⟩
  · next hquote hslash _ _ _ _ _ h =>
    exact ⟨_, Piece.means_char c, pieces?_self hquote hslash h⟩

/-! ## Whole strings -/

/-- Pieces are written for a string, and they make up that string. -/
theorem exists_pieces?_encode (s : List Char) :
    ∃ pieces, pieces? (encode s) = some pieces ∧ assemble? pieces = some s := by
  induction s with
  | nil => exact ⟨[], rfl, rfl⟩
  | cons c s ih =>
    obtain ⟨pieces, hpieces, hs⟩ := ih
    obtain ⟨piece, hmeans, hwritten⟩ := pieces?_encodeChar c
    refine ⟨piece :: pieces, ?_, ?_⟩
    · rw [encode, List.flatMap_cons, hwritten, ← encode, hpieces]
      rfl
    · rw [hmeans, hs]
      rfl

/-- The body of a written string is read back as that string. -/
@[simp] theorem decode?_encode (s : String) : decode? (encode s.toList) = some s := by
  obtain ⟨pieces, hpieces, hs⟩ := exists_pieces?_encode s.toList
  simp [decode?, hpieces, hs]

theorem isSome_pieces?_encode (s : List Char) : (pieces? (encode s)).isSome := by
  obtain ⟨pieces, hpieces, -⟩ := exists_pieces?_encode s
  rw [hpieces]
  rfl

end ObjectGraph.Json
