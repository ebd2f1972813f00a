import ObjectGraph.Proofs.NumeralText
import ObjectGraph.Proofs.ShortestDecimal

/-!
# Doubles from their texts

The text of a finite double, in any layout, is a numeral, and the double is the nearest one to the
number that the numeral stands for: writing loses nothing that correct reading would not restore.
-/
namespace ObjectGraph

namespace Json.Numeral

/-- All digits of the numeral, as one whole number. -/
def allDigits (n : Numeral) : Nat := digitsValue (n.whole ++ n.fraction.getD [])

/-- The weight of the last of these digits, as a power of ten. -/
def lastPlace (n : Numeral) : Int := n.exponent.getD 0 - (n.fraction.getD []).length

/-- The numeral as a number, up to its sign. -/
def toRat (n : Numeral) : ℚ := n.allDigits * 10 ^ n.lastPlace

/-- The double that the number is nearest to. -/
def nearest (n : Numeral) : Binary64 := Binary64.ofDecimal n.negative n.allDigits n.lastPlace

/-! ## Digits -/

/-- The number that the digits stand for. -/
def charsValue (ds : List Char) : Nat := digitsValue (ds.map digitValue)

theorem digitsValue_append (ds es : List Nat) :
    digitsValue (ds ++ es) = digitsValue ds * 10 ^ es.length + digitsValue es := by
  have hfold (start : Nat) : es.foldl (fun n d => 10 * n + d) start =
      start * 10 ^ es.length + digitsValue es := by
    unfold digitsValue
    induction es generalizing start with
    | nil => simp
    | cons e es ih =>
      rw [List.foldl_cons, List.foldl_cons, ih, ih (10 * 0 + e), List.length_cons, pow_succ]
      ring
  rw [digitsValue, List.foldl_append]
  exact hfold _

theorem charsValue_append (ds es : List Char) :
    charsValue (ds ++ es) = charsValue ds * 10 ^ es.length + charsValue es := by
  rw [charsValue, List.map_append, digitsValue_append, List.length_map]
  rfl

theorem charsValue_zeros (n : Nat) : charsValue (List.replicate n '0') = 0 := by
  induction n with
  | zero => rfl
  | succ n ih =>
    have hzero : charsValue ['0'] = 0 := rfl
    rw [List.replicate_succ, ← List.singleton_append, charsValue_append, ih, hzero, Nat.zero_mul]

theorem charsValue_toDigits (n : Nat) : charsValue (Nat.toDigits 10 n) = n := by
  rw [charsValue, digitsValue, List.foldl_map]
  exact Nat.ofDigitChars_eq_foldl.symm.trans Nat.ofDigitChars_ten_toDigits

/-- Digits up to the first character that is none. -/
theorem digits?_append {ds rest : List Char} (hne : ds ≠ []) (hds : ∀ c ∈ ds, c.isDigit = true)
    (hrest : ∀ c ∈ rest.head?, c.isDigit = false) :
    digits? (ds ++ rest) = some (ds.map digitValue, rest) := by
  have htake : (ds ++ rest).takeWhile Char.isDigit = ds := by
    rw [List.takeWhile_append_of_pos hds]
    cases rest with
    | nil => simp
    | cons c rest => simp [hrest c rfl]
  have hdrop : (ds ++ rest).dropWhile Char.isDigit = rest := by
    rw [List.dropWhile_append_of_pos hds]
    cases rest with
    | nil => rfl
    | cons c rest => simp [hrest c rfl]
  rw [digits?, htake, hdrop]
  cases ds with
  | nil => exact absurd rfl hne
  | cons d ds => rfl

/-- Digits that may stand before the point. -/
structure Whole (ds : List Char) : Prop where
  ne_nil : ds ≠ []
  digits : ∀ c ∈ ds, c.isDigit = true
  /-- A zero stands alone. -/
  leading : ∀ c rest, ds = c :: rest → rest ≠ [] → 0 < digitValue c

theorem Whole.zero : Whole ['0'] := by
  refine ⟨by simp, by simp, ?_⟩
  rintro c rest hcons hrest
  rw [List.cons.injEq] at hcons
  exact absurd hcons.2.symm hrest

/-- The first digits of a positive number, and what may be appended to them. -/
theorem Whole.of_toDigits {n : Nat} (hn : 0 < n) {front rest more : List Char}
    (hne : front ≠ []) (hsplit : Nat.toDigits 10 n = front ++ rest)
    (hmore : ∀ c ∈ more, c.isDigit = true) : Whole (front ++ more) := by
  have hdigits : ∀ c ∈ front, c.isDigit = true := fun c hc =>
    isDigit_of_mem_toDigits c (hsplit ▸ List.mem_append_left _ hc)
  refine ⟨by simp [hne], List.forall_mem_append.2 ⟨hdigits, hmore⟩, ?_⟩
  intro c tail hcons _
  obtain ⟨d, ds, hfirst, hpos⟩ := exists_toDigits hn
  cases front with
  | nil => exact absurd rfl hne
  | cons c' front =>
    rw [hfirst, List.cons_append, List.cons.injEq] at hsplit
    rw [List.cons_append, List.cons.injEq] at hcons
    rwa [← hcons.1, ← hsplit.1]

theorem whole?_append {ds rest : List Char} (hds : Whole ds)
    (hrest : ∀ c ∈ rest.head?, c.isDigit = false) :
    whole? (ds ++ rest) = some (ds.map digitValue, rest) := by
  rw [whole?, digits?_append hds.ne_nil hds.digits hrest]
  split
  · next second others left hleading =>
    cases ds with
    | nil => cases hleading
    | cons c ds =>
      simp only [List.map_cons, Option.some.injEq, Prod.mk.injEq, List.cons.injEq] at hleading
      have hpos := hds.leading c ds rfl (by rintro rfl; simp at hleading)
      omega
  · rfl

/-! ## The parts of a numeral -/

/-- A point and the digits after it, or neither. -/
def fractionChars : Option (List Char) → List Char
  | none => []
  | some ds => '.' :: ds

/-- The mark of the exponent and the exponent, or neither. -/
def exponentChars (plus : Bool) : Option Int → List Char
  | none => []
  | some e => 'e' :: ((if plus && 0 ≤ e then ['+'] else []) ++ (toString e).toList)

theorem not_isDigit_head_exponentChars (plus : Bool) (exponent : Option Int) :
    ∀ c ∈ (exponentChars plus exponent).head?, c.isDigit = false := by
  cases exponent with
  | none => simp [exponentChars]
  | some e => simp [exponentChars]

theorem not_isDigit_head_fractionChars {rest : List Char} (fraction : Option (List Char))
    (hrest : ∀ c ∈ rest.head?, c.isDigit = false) :
    ∀ c ∈ (fractionChars fraction ++ rest).head?, c.isDigit = false := by
  cases fraction with
  | none => exact hrest
  | some ds => simp [fractionChars]

theorem fraction?_append {fraction : Option (List Char)} {rest : List Char}
    (hfraction : ∀ ds ∈ fraction, ds ≠ [] ∧ ∀ c ∈ ds, c.isDigit = true)
    (hrest : ∀ c ∈ rest.head?, c.isDigit = false ∧ c ≠ '.') :
    fraction? (fractionChars fraction ++ rest) =
      some (fraction.map (·.map digitValue), rest) := by
  cases fraction with
  | none =>
    cases rest with
    | nil => rfl
    | cons c rest =>
      have hpoint := (hrest c rfl).2
      rw [fractionChars, List.nil_append, fraction?]
      · rfl
      · rintro after ⟨⟩
        exact hpoint rfl
  | some ds =>
    obtain ⟨hne, hdigits⟩ := hfraction ds rfl
    rw [fractionChars, List.cons_append, fraction?,
      digits?_append hne hdigits fun c hc => (hrest c hc).1]
    rfl

theorem exponentDigits?_toDigits (sign : Int) (n : Nat) :
    exponentDigits? sign (Nat.toDigits 10 n) = some (sign * n) := by
  have hvalue : digitsValue ((Nat.toDigits 10 n).map digitValue) = n := charsValue_toDigits n
  simp only [exponentDigits?, digits?_toDigits, hvalue]

theorem toDigits_ne_cons {c : Char} (hc : c.isDigit = false) (n : Nat) (rest : List Char) :
    Nat.toDigits 10 n ≠ c :: rest := by
  intro h
  have hdigit : c.isDigit = true := isDigit_of_mem_toDigits (n := n) c (h ▸ List.mem_cons_self)
  rw [hc] at hdigit
  cases hdigit

theorem exponent?_digits (n : Nat) :
    exponent? ('e' :: Nat.toDigits 10 n) = some (some (n : Int)) := by
  have hdigits := exponentDigits?_toDigits 1 n
  rw [one_mul] at hdigits
  unfold exponent?
  dsimp only
  rw [if_pos (.inl rfl)]
  split
  · next rest h => exact absurd h (toDigits_ne_cons rfl n rest)
  · next rest h => exact absurd h (toDigits_ne_cons rfl n rest)
  · rw [hdigits]
    rfl

theorem exponent?_exponentChars (plus : Bool) (exponent : Option Int) :
    exponent? (exponentChars plus exponent) = some exponent := by
  match exponent with
  | none => rfl
  | some (.ofNat n) =>
    rw [exponentChars, toList_ofNat]
    split
    · change (exponentDigits? 1 (Nat.toDigits 10 n)).map some = _
      rw [exponentDigits?_toDigits, one_mul]
      rfl
    · exact exponent?_digits n
  | some (.negSucc n) =>
    have hsign : ¬ (plus && decide (0 ≤ Int.negSucc n)) = true := by simp
    rw [exponentChars, toList_negSucc, if_neg hsign]
    change (exponentDigits? (-1) (Nat.toDigits 10 (n + 1))).map some = _
    rw [exponentDigits?_toDigits, neg_one_mul]
    rfl

/-- The parts of a numeral are read one after the other. -/
theorem unsigned?_append (negative plus : Bool) {whole : List Char} {fraction : Option (List Char)}
    (exponent : Option Int) (hwhole : Whole whole)
    (hfraction : ∀ ds ∈ fraction, ds ≠ [] ∧ ∀ c ∈ ds, c.isDigit = true) :
    unsigned? negative (whole ++ (fractionChars fraction ++ exponentChars plus exponent)) =
      some ⟨negative, whole.map digitValue, fraction.map (·.map digitValue), exponent⟩ := by
  have hmark : ∀ c ∈ (exponentChars plus exponent).head?, c.isDigit = false ∧ c ≠ '.' := by
    cases exponent with
    | none => simp [exponentChars]
    | some e => simp [exponentChars]
  have hexponent := not_isDigit_head_exponentChars plus exponent
  rw [unsigned?, whole?_append hwhole (not_isDigit_head_fractionChars fraction hexponent)]
  simp only [Option.bind_eq_bind, Option.bind_some, fraction?_append hfraction hmark,
    exponent?_exponentChars]
  rfl

end Json.Numeral

open Json (Numeral)

namespace Decimal

open Json.Numeral

/-! ## The layouts -/

variable (layout : Layout)

/-- The characters are a numeral for this number. -/
def Writes (cs : List Char) (r : ℚ) : Prop :=
  ∃ whole fraction exponent plus, Whole whole ∧
    (∀ ds ∈ fraction, ds ≠ [] ∧ ∀ c ∈ ds, c.isDigit = true) ∧
    cs = whole ++ (fractionChars fraction ++ exponentChars plus exponent) ∧
    (charsValue (whole ++ fraction.getD []) : ℚ) *
      10 ^ (exponent.getD 0 - (fraction.getD []).length : Int) = r

theorem isDigit_of_mem_zeros {n : Nat} : ∀ c ∈ List.replicate n '0', c.isDigit = true := by
  intro c hc
  rw [List.eq_of_mem_replicate hc]
  rfl

section

variable {d : Decimal} {ds : List Char} (hds : Nat.toDigits 10 d.digits = ds)

include hds

/-- All digits stand after the point, behind zeros. -/
theorem writes_after_point (hpoint : ds.length + d.exponent ≤ 0) :
    Writes (['0'] ++ ('.' :: (List.replicate (-(ds.length + d.exponent)).toNat '0' ++ ds)))
      d.toRat := by
  have hvalue : charsValue ds = d.digits := hds ▸ charsValue_toDigits d.digits
  have hzero : charsValue ['0'] = 0 := rfl
  refine ⟨['0'], some (List.replicate (-(ds.length + d.exponent)).toNat '0' ++ ds), none, false,
    Whole.zero, ?_, by simp [fractionChars, exponentChars], ?_⟩
  · rintro _ ⟨⟩
    have hne : ds ≠ [] := hds ▸ Nat.toDigits_ne_nil
    have hdigits : ∀ c ∈ ds, c.isDigit = true := hds ▸ isDigit_of_mem_toDigits
    exact ⟨by simp [hne], List.forall_mem_append.2 ⟨isDigit_of_mem_zeros, hdigits⟩⟩
  · rw [Option.getD_some, Option.getD_none, charsValue_append, charsValue_append,
      charsValue_zeros, hvalue, hzero, List.length_append, List.length_replicate, toRat]
    push_cast
    congr 1
    · ring
    · congr 1
      omega

/-- All digits stand before the point, in front of zeros. -/
theorem writes_before_point (hd : 0 < d.digits) {count : Nat} (hexponent : d.exponent = count)
    (fraction : Bool) :
    Writes (ds ++ List.replicate count '0' ++ if fraction then ['.', '0'] else []) d.toRat := by
  have hvalue : charsValue ds = d.digits := hds ▸ charsValue_toDigits d.digits
  have hscaled : (charsValue (ds ++ List.replicate count '0') : ℚ) = d.toRat := by
    rw [charsValue_append, charsValue_zeros, hvalue, List.length_replicate, toRat, hexponent,
      zpow_natCast]
    push_cast
    ring
  have hwhole : Whole (ds ++ List.replicate count '0') :=
    Whole.of_toDigits hd (hds ▸ Nat.toDigits_ne_nil) (hds.trans (List.append_nil ds).symm)
      isDigit_of_mem_zeros
  cases fraction with
  | true =>
    refine ⟨_, some ['0'], none, false, hwhole, by simp, by simp [fractionChars, exponentChars], ?_⟩
    have hzero : charsValue ['0'] = 0 := rfl
    rw [Option.getD_some, Option.getD_none, charsValue_append _ ['0'], hzero]
    push_cast
    rw [hscaled]
    simp
  | false =>
    refine ⟨_, none, none, false, hwhole, by simp, by simp [fractionChars, exponentChars], ?_⟩
    simpa using hscaled

/-- The point stands among the digits. -/
theorem writes_around_point (hd : 0 < d.digits) {point : Nat} (hfirst : 0 < point)
    (hlast : point < ds.length) (hpoint : ds.length + d.exponent = point) :
    Writes (ds.take point ++ ('.' :: ds.drop point)) d.toRat := by
  have hsplit := List.take_append_drop point ds
  have hfront : ds.take point ≠ [] := by
    rw [← List.length_pos_iff, List.length_take]
    omega
  have hback : ds.drop point ≠ [] := by
    rw [← List.length_pos_iff, List.length_drop]
    omega
  have hwhole : Whole (ds.take point ++ []) :=
    Whole.of_toDigits hd hfront (hds.trans hsplit.symm) (by simp)
  rw [List.append_nil] at hwhole
  refine ⟨_, some (ds.drop point), none, false, hwhole, ?_,
    by simp [fractionChars, exponentChars], ?_⟩
  · rintro _ ⟨⟩
    have hdigits : ∀ c ∈ ds, c.isDigit = true := hds ▸ isDigit_of_mem_toDigits
    exact ⟨hback, fun c hc => hdigits c (List.mem_of_mem_drop hc)⟩
  · have hvalue : charsValue ds = d.digits := hds ▸ charsValue_toDigits d.digits
    rw [Option.getD_some, Option.getD_none, hsplit, hvalue, List.length_drop, toRat]
    congr 2
    omega

end

theorem writes_positionalText {d : Decimal} (hd : 0 < d.digits) :
    Writes (layout.positionalText (Nat.toDigits 10 d.digits)
      ((Nat.toDigits 10 d.digits).length + d.exponent)).toList d.toRat := by
  obtain ⟨ds, hds⟩ : ∃ ds, Nat.toDigits 10 d.digits = ds := ⟨_, rfl⟩
  rw [hds, Layout.positionalText]
  split_ifs with hpoint hlength hpointZero
  · simpa [zeros] using writes_after_point hds hpoint
  · simpa [zeros] using writes_before_point hds hd (by omega) true
  · simpa [zeros] using writes_before_point hds hd (by omega) false
  · have hpointNat : (ds.length + d.exponent : Int) = (ds.length + d.exponent).toNat := by omega
    simpa using writes_around_point hds hd (by omega) (by omega) hpointNat

theorem toList_exponentText (c : Char) (rest : List Char) (exponent : Int) :
    (layout.exponentText (c :: rest) exponent).toList =
      [c] ++ (fractionChars (if rest = [] then none else some rest) ++
        exponentChars layout.plusSign (some exponent)) := by
  cases rest with
  | nil => simp [Layout.exponentText, fractionChars, exponentChars, apply_ite String.toList]
  | cons c' rest =>
    simp [Layout.exponentText, fractionChars, exponentChars, apply_ite String.toList]

theorem writes_exponentText {d : Decimal} (hd : 0 < d.digits) :
    Writes (layout.exponentText (Nat.toDigits 10 d.digits)
      ((Nat.toDigits 10 d.digits).length + d.exponent - 1)).toList d.toRat := by
  obtain ⟨c, rest, hcons, -⟩ := exists_toDigits hd
  have hvalue : charsValue (c :: rest) = d.digits := hcons ▸ charsValue_toDigits d.digits
  have hdigits : ∀ c' ∈ c :: rest, c'.isDigit = true := hcons ▸ isDigit_of_mem_toDigits
  have hwhole : Whole ([c] ++ []) := Whole.of_toDigits hd (List.cons_ne_nil c []) hcons (by simp)
  rw [hcons, toList_exponentText]
  refine ⟨[c], _, _, layout.plusSign, hwhole, ?_, rfl, ?_⟩
  · intro ds hds
    obtain ⟨hrest, rfl⟩ : rest ≠ [] ∧ rest = ds := by
      split_ifs at hds with hrest
      · cases hds
      · exact ⟨hrest, Option.some.inj hds⟩
    exact ⟨hrest, fun c' hc => hdigits c' (List.mem_cons_of_mem _ hc)⟩
  · have hgetD : (if rest = [] then none else some rest).getD [] = rest := by
      split_ifs with hrest
      · exact hrest.symm
      · rfl
    rw [hgetD, Option.getD_some, List.singleton_append, hvalue, List.length_cons, toRat]
    congr 2
    omega

theorem writes_decimalText {d : Decimal} (hd : 0 < d.digits) :
    Writes (layout.decimalText d).toList d.toRat := by
  unfold Layout.decimalText
  dsimp only
  split
  · exact writes_positionalText layout hd
  · exact writes_exponentText layout hd

/-- Such characters are read as a numeral for the number. -/
theorem Writes.unsigned? {cs : List Char} {r : ℚ} (h : Writes cs r) (negative : Bool) :
    ∃ n, Numeral.unsigned? negative cs = some n ∧ n.negative = negative ∧ n.toRat = r := by
  obtain ⟨whole, fraction, exponent, plus, hwhole, hfraction, rfl, rfl⟩ := h
  refine ⟨_, unsigned?_append negative plus exponent hwhole hfraction, rfl, ?_⟩
  cases fraction with
  | none => simp [Numeral.toRat, allDigits, lastPlace, charsValue]
  | some ds => simp [Numeral.toRat, allDigits, lastPlace, charsValue]

theorem ofDecimal_zero {x : Binary64} (hfinite : x.isFinite = true) (hzero : x.isZero = true)
    (exponent : Int) : Binary64.ofDecimal x.negative 0 exponent = x := by
  have hsignificand := x.isZero_iff.1 hzero
  have hexponent : x.exponent = -1074 := by
    have hnormal := x.normal_or_least
    omega
  have hpack := Binary64.pack_significand hfinite
  rw [hsignificand, hexponent] at hpack
  rw [Binary64.ofDecimal, Nat.zero_mul, Binary64.ofRatio, if_pos rfl, hpack]

/-- What stands behind the sign. -/
theorem nearest_unsigned (x : Binary64) (hfinite : x.isFinite = true) :
    ∃ n, Numeral.unsigned? x.negative
      (if x.isZero then (if layout.pointZero then "0.0" else "0")
        else layout.decimalText (shortest layout.tie x)).toList = some n ∧ n.nearest = x := by
  cases hzero : x.isZero with
  | true =>
    cases layout.pointZero with
    | true =>
      refine ⟨⟨x.negative, [0], some [0], none⟩, ?_, ofDecimal_zero hfinite hzero _⟩
      rw [if_pos rfl, if_pos rfl]
      rfl
    | false =>
      refine ⟨⟨x.negative, [0], none, none⟩, ?_, ofDecimal_zero hfinite hzero _⟩
      rw [if_pos rfl, if_neg Bool.false_ne_true]
      rfl
  | false =>
    have hnear := near_shortest layout.tie hzero
    have hdigits : 0 < (shortest layout.tie x).digits := by
      rw [Nat.pos_iff_ne_zero]
      intro hnone
      have hpos := hnear.pos hzero
      simp [toRat, hnone] at hpos
    obtain ⟨n, hread, hnegative, hrat⟩ :=
      (writes_decimalText layout hdigits).unsigned? x.negative
    refine ⟨n, hread, ?_⟩
    rw [← hrat] at hnear
    rw [Numeral.nearest, hnegative]
    exact hnear.ofDecimal hfinite hzero

/-- A finite double is the nearest one to what its text says. -/
theorem nearest_text {x : Binary64} (hfinite : x.isFinite = true) :
    ∃ n, Numeral.ofChars? (layout.text x).toList = some n ∧ n.nearest = x := by
  obtain ⟨n, hread, hnearest⟩ := nearest_unsigned layout x hfinite
  refine ⟨n, ?_, hnearest⟩
  simp only [Layout.text, isFinite_cases hfinite, Bool.false_eq_true, if_false]
  cases hnegative : x.negative with
  | true =>
    rw [hnegative] at hread
    rw [if_pos rfl, String.toList_append]
    exact hread
  | false =>
    rw [hnegative] at hread
    rw [if_neg Bool.false_ne_true, String.toList_append]
    obtain ⟨whole, tail, hsplit, hne, hdigits, -⟩ := exists_of_unsigned? hread
    refine (ofChars?_of_ne fun rest hminus => ?_).trans hread
    -- The characters begin with a digit, not with a sign.
    obtain ⟨c, whole, rfl⟩ := List.exists_cons_of_ne_nil hne
    have hfirst : c = '-' := by
      have hboth := hsplit.symm.trans hminus
      rw [List.cons_append, List.cons.injEq] at hboth
      exact hboth.1
    have hdigit := hdigits c List.mem_cons_self
    rw [hfirst] at hdigit
    cases hdigit

end Decimal
end ObjectGraph
