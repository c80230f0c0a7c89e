import Mathlib.Data.List.TakeDrop
import Nodal.Json.Literal

/-! # Written numbers read back

Digits are read as the number that they were written for, and a literal as itself. -/

namespace Nodal.Text

theorem digitsValue_toDigits (n : Nat) : digitsValue (Nat.toDigits 10 n) = n :=
  Nat.ofDigitChars_ten_toDigits

theorem all_isDigit_toDigits (n : Nat) : (Nat.toDigits 10 n).all isDigit :=
  List.all_eq_true.2 fun _ hc => Nat.isDigit_of_mem_toDigits (by decide) (by decide) hc

theorem head_toDigits_ne_zero {n : Nat} (hn : 0 < n) {c : Char} {cs : List Char}
    (h : Nat.toDigits 10 n = c :: cs) : c ≠ '0' := by
  induction n using Nat.strongRecOn generalizing cs with
  | ind n ih =>
    rcases Nat.lt_or_ge n 10 with hlt | hge
    · rw [Nat.toDigits_of_lt_base hlt] at h
      cases h
      simpa using Nat.ne_of_gt hn
    · rw [Nat.toDigits_of_base_le (by decide) hge] at h
      cases hd : Nat.toDigits 10 (n / 10) with
      | nil => exact absurd hd Nat.toDigits_ne_nil
      | cons d ds =>
        rw [hd] at h
        cases h
        exact ih (n / 10) (by omega) (by omega) hd

/-- A digit is no sign, no point and no mark. -/
theorem splitSign_digit {c : Char} (hc : isDigit c) (cs : List Char) :
    splitSign (c :: cs) = (false, c :: cs) := by
  unfold splitSign
  split
  · simp_all [isDigit]
  · simp_all [isDigit]
  · rfl

theorem toList_toString_ofNat (n : Nat) : (toString (Int.ofNat n)).toList = Nat.toDigits 10 n :=
  Nat.toList_repr

theorem toList_toString_negSucc (n : Nat) :
    (toString (Int.negSucc n)).toList = '-' :: Nat.toDigits 10 (n + 1) := by
  simp [Int.repr]

theorem exponent?_toString (e : Int) : exponent? ('e' :: (toString e).toList) = some e := by
  have hsign : ∀ n, splitSign (Nat.toDigits 10 n) = (false, Nat.toDigits 10 n) := by
    intro n
    have hall := all_isDigit_toDigits n
    cases hd : Nat.toDigits 10 n with
    | nil => rfl
    | cons c cs =>
      rw [hd, List.all_cons, Bool.and_eq_true] at hall
      exact splitSign_digit hall.1 cs
  have hempty : ∀ n, (Nat.toDigits 10 n).isEmpty = false := by simp
  cases e with
  | ofNat n =>
    rw [toList_toString_ofNat, exponent?, if_pos (.inl rfl), hsign]
    simp only [hempty, all_isDigit_toDigits, digitsValue_toDigits]
    rfl
  | negSucc n =>
    rw [toList_toString_negSucc, exponent?, if_pos (.inl rfl), splitSign]
    simp only [hempty, all_isDigit_toDigits, digitsValue_toDigits]
    rfl

end Nodal.Text

namespace Nodal.Json.Literal
open Text

/-- The digits of the literal are digits, without a zero in front of others. -/
structure Canonical (l : Literal) : Prop where
  whole : isWhole l.whole
  fraction : l.fraction.all isDigit

instance (l : Literal) : Decidable l.Canonical :=
  decidable_of_iff (isWhole l.whole ∧ l.fraction.all isDigit)
    ⟨fun h => ⟨h.1, h.2⟩, fun h => ⟨h.whole, h.fraction⟩⟩

theorem isWhole_cons {c : Char} {cs : List Char} (hall : (c :: cs).all isDigit)
    (hc : c = '0' → cs = []) : isWhole (c :: cs) := by
  unfold isWhole
  split
  · contradiction
  · rfl
  · rename_i d rest hne heq
    cases heq
    by_cases hzero : c = '0'
    · subst hzero
      simp_all
    · simp [hzero, hall]

theorem isWhole_toDigits (n : Nat) : isWhole (Nat.toDigits 10 n) := by
  have hall := all_isDigit_toDigits n
  cases hd : Nat.toDigits 10 n with
  | nil => exact absurd hd Nat.toDigits_ne_nil
  | cons c cs =>
    rw [hd] at hall
    refine isWhole_cons hall fun hc => ?_
    rcases Nat.eq_zero_or_pos n with rfl | hn
    · exact (by simpa using hd.symm : c = '0' ∧ cs = []).2
    · exact absurd hc (head_toDigits_ne_zero hn hd)

theorem all_isDigit_of_isWhole {cs : List Char} (h : isWhole cs) : cs.all isDigit ∧ cs ≠ [] := by
  unfold isWhole at h
  split at h
  · cases h
  · decide
  · rw [Bool.and_eq_true] at h
    exact ⟨h.2, List.cons_ne_nil _ _⟩

theorem canonical_ofNat (n : Nat) : (ofNat n).Canonical :=
  ⟨by rw [ofNat, Nat.toString_eq_repr, Nat.toList_repr]; exact isWhole_toDigits n, rfl⟩

/-! ## The text of a literal -/

theorem span_digits {ds rest : List Char} (hds : ds.all isDigit)
    (hrest : ∀ c ∈ rest.head?, ¬ isDigit c) : (ds ++ rest).span isDigit = (ds, rest) := by
  have hall := List.all_eq_true.1 hds
  rw [List.span_eq_takeWhile_dropWhile, List.takeWhile_append_of_pos hall,
    List.dropWhile_append_of_pos hall]
  cases rest with
  | nil => simp
  | cons c rest =>
    have hc : isDigit c = false := by simpa using hrest c rfl
    simp [hc]

/-- The exponent as it is written. -/
def exponentChars : Option Int → List Char
  | none => []
  | some e => 'e' :: (toString e).toList

theorem readExponent_exponentChars (e : Option Int) : readExponent (exponentChars e) = some e := by
  cases e with
  | none => rfl
  | some e =>
    rw [exponentChars, readExponent, exponent?_toString]
    · rfl
    · nofun

/-- The point and the fraction as they are written. -/
def fractionChars : List Char → List Char
  | [] => []
  | ds => '.' :: ds

theorem splitFraction_fractionChars {ds : List Char} (hds : ds.all isDigit) (e : Option Int) :
    splitFraction (fractionChars ds ++ exponentChars e) = some (ds, exponentChars e) := by
  have hmark : ∀ c ∈ (exponentChars e).head?, ¬ isDigit c := by
    cases e with
    | none => simp [exponentChars]
    | some e => simp [exponentChars, isDigit]
  cases ds with
  | nil => cases e <;> rfl
  | cons d ds =>
    have hchars : fractionChars (d :: ds) = '.' :: d :: ds := rfl
    rw [hchars, List.cons_append, splitFraction, span_digits hds hmark]
    rfl

theorem toList_render (l : Literal) : l.render.toList = (if l.negative then ['-'] else []) ++
    (l.whole ++ (fractionChars l.fraction ++ exponentChars l.exponent)) := by
  obtain ⟨negative, whole, fraction, exponent⟩ := l
  cases negative <;> cases fraction <;> cases exponent <;>
    simp [render, fractionChars, exponentChars]

/-- A literal that has been written is read as itself. -/
theorem ofChars?_render {l : Literal} (h : l.Canonical) : ofChars? l.render.toList = some l := by
  obtain ⟨hwhole, hne⟩ := all_isDigit_of_isWhole h.whole
  have hrest : ∀ c ∈ (fractionChars l.fraction ++ exponentChars l.exponent).head?, ¬ isDigit c := by
    cases l.fraction <;> cases l.exponent <;> simp [fractionChars, exponentChars, isDigit]
  have hspan := span_digits hwhole hrest
  obtain ⟨negative, whole, fraction, exponent⟩ := l
  rw [toList_render]
  cases negative with
  | true =>
    simp only [ofChars?, if_pos, List.cons_append, List.nil_append, hspan, h.whole,
      splitFraction_fractionChars h.fraction, Option.bind_eq_bind, Option.bind_some,
      readExponent_exponentChars]
    rfl
  | false =>
    -- A sign would be taken off first, but a digit is none.
    have hminus : ∀ rest,
        whole ++ (fractionChars fraction ++ exponentChars exponent) = '-' :: rest → False := by
      intro rest heq
      cases whole with
      | nil => exact hne rfl
      | cons c whole =>
        cases heq
        simp [isDigit] at hwhole
    rw [if_neg Bool.false_ne_true, List.nil_append, ofChars?]
    · simp only [hspan, h.whole, if_pos, splitFraction_fractionChars h.fraction,
        Option.bind_eq_bind, Option.bind_some, readExponent_exponentChars]
      rfl
    · exact hminus

/-! ## Natural numbers -/

theorem digitsValue_ofNat (n : Nat) : digitsValue (ofNat n).whole = n := by
  rw [ofNat, Nat.toString_eq_repr, Nat.toList_repr, digitsValue_toDigits]

theorem word?_ofNat {n : Nat} (h : n < UInt64.size) : (ofNat n).word? = some (UInt64.ofNat n) := by
  rw [word?, digitsValue_ofNat]
  simp [ofNat, isInteger, h]

theorem float?_ofNat {n : Nat} (h : n < UInt64.size) :
    (ofNat n).float? = some (UInt64.ofNat n).toFloat := by
  rw [float?, magnitude?, digitsValue_ofNat]
  simp [ofNat, isInteger, h]

end Nodal.Json.Literal
