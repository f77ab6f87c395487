import UtmTiles.Json.Printer
import UtmTiles.Json.Reader
import UtmTiles.Proofs.Decimal.Numeral
import UtmTiles.Proofs.Decimal.Shortest

/-!
# The texts of JSON numbers

A numeral is read as a number up to its end (`number?_numeral`), with a minus sign in front or without.
Whole numbers of 64 bits are read as they are (`ofNumeral?_int`). A finite double is written as a numeral
with a point or a power of ten (`exists_numeral_floatText`), so that what is read is a double or
nothing.
-/

namespace UtmTiles
namespace Json

open Decimal (IsDigits IsInteger IsPower EndsDigits Numeral isDigit spanDigits ofDigits splitSign
  spanDigits_of_endsDigits splitSign_of_isDigits)

/-- What may follow a value: the end of the text, of an array or of an object, or a further value. -/
def EndsValue (cs : List Char) : Prop := ∀ c ∈ cs.head?, c = ',' ∨ c = ']' ∨ c = '\x7d'

theorem EndsValue.ne {c d : Char} {cs : List Char} (h : EndsValue (c :: cs))
    (hd : d ≠ ',' ∧ d ≠ ']' ∧ d ≠ '\x7d') : c ≠ d := by
  rintro rfl
  rcases h c rfl with heq | heq | heq
  · exact hd.1 heq
  · exact hd.2.1 heq
  · exact hd.2.2 heq

theorem EndsValue.endsDigits {cs : List Char} (h : EndsValue cs) : EndsDigits cs := by
  intro c hc
  rcases h c hc with rfl | rfl | rfl <;> rfl

/-- A power of ten is read up to the end of the number. -/
theorem exponentPart?_append {cs rest : List Char} {e : Option ℤ} (h : IsPower cs e)
    (hrest : EndsValue rest) : exponentPart? (cs ++ rest) = some (e, rest) := by
  have hmarked (mark : Char) (hmark : mark = 'e' ∨ mark = 'E') (negative : Bool) (cs : List Char)
      {ds : List Char} (hds : IsDigits ds) (hsplit : splitSign (cs ++ rest) = (negative, ds ++ rest)) :
      exponentPart? (mark :: cs ++ rest) =
        some (some (if negative then -(ofDigits ds : ℤ) else ofDigits ds), rest) := by
    obtain _ | ⟨d, ds⟩ := ds
    · exact absurd rfl hds.ne_nil
    rcases hmark with rfl | rfl
    all_goals
      rw [List.cons_append, exponentPart?, hsplit]
      simp only [spanDigits_of_endsDigits hds.isDigit hrest.endsDigits]
  cases h with
  | none =>
    rw [List.nil_append]
    cases rest with
    | nil => rfl
    | cons c rest =>
      rw [exponentPart?.eq_def]
      split
      · next heq => exact absurd (List.head_eq_of_cons_eq heq) (hrest.ne (by decide))
      · next heq => exact absurd (List.head_eq_of_cons_eq heq) (hrest.ne (by decide))
      · rfl
  | integer hmark hinteger =>
    cases hinteger with
    | digits hds => exact hmarked _ hmark _ _ hds (splitSign_of_isDigits hds rest)
    | minus hds => exact hmarked _ hmark true ('-' :: _) hds rfl
  | plus hmark hds => exact hmarked _ hmark false ('+' :: _) hds rfl

/-- The digits of a numeral and their power of ten, as far as they are kept. -/
def scaled (n : Numeral) : Scaled :=
  let s := takeFraction n.fraction (takeWhole n.whole 0)
  { s with exponent := s.exponent + n.exponent.getD 0 }

/-- What a numeral is read as. -/
def ofNumeral? (negative : Bool) (n : Numeral) : Option Json :=
  if n.fraction = [] ∧ n.exponent = none then wholeNumber? negative (takeWhole n.whole 0)
  else ((scaled n).float? negative).map float

/-- A numeral is read up to its end. -/
theorem number?_numeral (negative : Bool) (n : Numeral) {rest : List Char} (hrest : EndsValue rest) :
    number? negative (n.toList ++ rest) = (ofNumeral? negative n).map (·, rest) := by
  obtain ⟨whole, fraction, power, exponent, hwhole, htrimmed, hfraction, hpower⟩ := n
  have hpart := exponentPart?_append hpower hrest
  have hempty : ¬ (whole.isEmpty = true ∨ (whole.head? = some '0' ∧ 1 < whole.length)) := by
    rintro (hnil | ⟨hzero, hlong⟩)
    · exact hwhole.ne_nil (List.isEmpty_iff.1 hnil)
    · rw [htrimmed hzero] at hlong
      exact absurd hlong (by decide)
  have hends : EndsDigits (power ++ rest) := (hpower.endsRun rfl rfl).append hrest.endsDigits
  cases fraction with
  | nil =>
    have hpoint : Text.EndsRun (fun c => decide (c = '.')) (power ++ rest) :=
      (hpower.endsRun rfl rfl).append fun c hc =>
        decide_eq_false fun heq => absurd (hrest c hc) (heq ▸ by decide)
    have hspan := spanDigits_of_endsDigits hwhole.isDigit hends
    show number? negative (whole ++ power ++ rest) = _
    rw [List.append_assoc, number?, hspan]
    simp only [if_neg hempty]
    split
    · next heq => exact absurd (hpoint '.' (heq ▸ rfl)) (by decide)
    · simp only [Option.bind_eq_bind, Option.bind_some, hpart]
      cases exponent with
      | none =>
        simp only [Option.isNone_none, and_self, if_true, ofNumeral?]
        exact Option.map_eq_bind.symm
      | some e =>
        simp only [Option.isNone_none, Option.isNone_some, Bool.false_eq_true, and_false, if_false,
          ofNumeral?, reduceCtorEq, Option.map_map]
        exact Option.map_eq_bind.symm
  | cons f fs =>
    have hpoint : EndsDigits ('.' :: (f :: fs ++ power ++ rest)) := Text.endsRun_cons rfl _
    have hspan := spanDigits_of_endsDigits hwhole.isDigit hpoint
    have hplaces := spanDigits_of_endsDigits hfraction hends
    show number? negative (whole ++ '.' :: (f :: fs ++ power) ++ rest) = _
    rw [List.append_assoc, List.cons_append, number?, hspan]
    simp only [if_neg hempty, List.append_assoc, hplaces, Option.bind_eq_bind, Option.bind_some, hpart,
      Option.isNone_some, Bool.false_eq_true, false_and, if_false, ofNumeral?, reduceCtorEq,
      Option.map_map]
    exact Option.map_eq_bind.symm

/-- A number's text, with a minus sign in front if it is negative. -/
def signed (negative : Bool) (cs : List Char) : List Char := if negative then '-' :: cs else cs

/-- A numeral is a token of its own. -/
theorem token?_numeral (negative : Bool) (n : Numeral) {rest : List Char} (hrest : EndsValue rest) :
    token? (signed negative n.toList ++ rest) =
      (ofNumeral? negative n).map fun v => (.atom v, rest) := by
  have hread := number?_numeral negative n hrest
  cases negative with
  | true =>
    show (number? true (n.toList ++ rest)).map _ = _
    rw [hread, Option.map_map]
    rfl
  | false =>
    obtain ⟨d, cs, htext⟩ := List.exists_cons_of_ne_nil n.isDigits_whole.ne_nil
    have hd : '0' ≤ d ∧ d ≤ '9' := n.isDigits_whole.isDigit d (htext ▸ List.mem_cons_self)
    have hstart : n.toList ++ rest = d :: (cs ++ n.afterWhole ++ rest) := by
      rw [Numeral.toList, htext, List.cons_append, List.cons_append]
    have hother {c : Char} {ds : List Char} (heq : n.toList ++ rest = c :: ds) :
        '0' ≤ c ∧ c ≤ '9' := List.head_eq_of_cons_eq (hstart.symm.trans heq) ▸ hd
    show token? (n.toList ++ rest) = _
    rw [token?.eq_def]
    split
    case h_12 => rw [hread, Option.map_map]; rfl
    all_goals next heq => exact absurd (hother heq) (by decide)

/-! ## Whole numbers -/

theorem takeWhole_of_le {ds : List Char} {n : ℕ}
    (h : ds.foldl (fun n c => 10 * n + Decimal.digitValue c) n ≤ maxDigits) :
    takeWhole ds n = ⟨ds.foldl (fun n c => 10 * n + Decimal.digitValue c) n, 0⟩ := by
  have hle (ds : List Char) (n : ℕ) : n ≤ ds.foldl (fun n c => 10 * n + Decimal.digitValue c) n := by
    induction ds generalizing n with
    | nil => exact le_rfl
    | cons d ds ih =>
      have hnext : n ≤ 10 * n + Decimal.digitValue d := by omega
      exact hnext.trans (ih _)
  induction ds generalizing n with
  | nil => rfl
  | cons d ds ih =>
    rw [List.foldl_cons] at h ⊢
    rw [takeWhole, if_neg (not_lt.2 ((hle ds _).trans h)), ih h]

/-- The whole number of a numeral. -/
def wholeNumeral (n : ℕ) : Numeral :=
  ⟨Nat.toDigits 10 n, [], [], none, Decimal.isDigits_toDigits n, Decimal.isTrimmed_toDigits n,
    fun _ hc => absurd hc List.not_mem_nil, .none⟩

theorem toList_wholeNumeral (n : ℕ) : (wholeNumeral n).toList = Nat.toDigits 10 n :=
  List.append_nil _

theorem ofNumeral?_wholeNumeral (negative : Bool) {n : ℕ} (h : n ≤ maxDigits) :
    ofNumeral? negative (wholeNumeral n) = wholeNumber? negative ⟨n, 0⟩ := by
  have hdigits := Decimal.ofDigits_toDigits n
  have htake : takeWhole (Nat.toDigits 10 n) 0 = ⟨n, 0⟩ := by
    rw [takeWhole_of_le (hdigits.trans_le h)]
    exact congrArg (Scaled.mk · 0) hdigits
  show (if [] = [] ∧ none = none then _ else _) = _
  rw [if_pos ⟨rfl, rfl⟩]
  exact congrArg (wholeNumber? negative) htake

/-- A whole number is written as a numeral. -/
theorem toList_compact_int (n : ℤ) :
    (compact (int n)).toList = signed (n < 0) (wholeNumeral n.natAbs).toList := by
  rw [toList_wholeNumeral]
  cases n with
  | ofNat n =>
    have hsign : ¬ Int.ofNat n < 0 := not_lt.2 (Int.natCast_nonneg n)
    rw [signed, if_neg (by rwa [decide_eq_true_iff])]
    exact Nat.toList_repr
  | negSucc n =>
    rw [signed, if_pos (decide_eq_true (Int.negSucc_lt_zero n))]
    show ("-" ++ Nat.repr (n + 1)).toList = _
    rw [String.toList_append, Nat.toList_repr]
    rfl

/-- A whole number of 64 bits is read as it is. -/
theorem ofNumeral?_int {n : ℤ} (hlow : -2 ^ 63 ≤ n) (hhigh : n < 2 ^ 64) :
    ofNumeral? (n < 0) (wholeNumeral n.natAbs) = some (int n) := by
  have hmax : n.natAbs ≤ maxDigits := by
    show n.natAbs ≤ 2 ^ 64 - 1
    omega
  rw [ofNumeral?_wholeNumeral _ hmax]
  unfold wholeNumber?
  rw [if_pos rfl]
  rcases lt_or_ge n 0 with hneg | hnonneg
  · have hrange : 0 < n.natAbs ∧ n.natAbs ≤ 0x8000000000000000 := by omega
    rw [decide_eq_true hneg]
    show (if _ then some (int (-(n.natAbs : ℤ))) else _) = _
    rw [if_pos hrange, Int.ofNat_natAbs_of_nonpos hneg.le, neg_neg]
  · rw [decide_eq_false (not_lt.2 hnonneg)]
    show some (int (n.natAbs : ℤ)) = _
    rw [Int.natAbs_of_nonneg hnonneg]

/-! ## Doubles -/

/-- A finite double is written as a numeral that is none of a whole number. -/
theorem exists_numeral_floatText {x : Float} (hx : x.isFinite = true) :
    ∃ (negative : Bool) (n : Numeral), (floatText x).toList = signed negative n.toList ∧
      (n.fraction ≠ [] ∨ n.exponent ≠ none) := by
  obtain ⟨p, hp, -⟩ := Binary64.parts?_eq hx
  have hunsigned : ∃ n : Numeral,
      (if p.mantissa = 0 then "0" ++ Decimal.Style.json.whole
        else (Decimal.shortest .even p).toText .json).toList = n.toList ∧
      (n.fraction ≠ [] ∨ n.exponent ≠ none) := by
    split
    · exact ⟨⟨['0'], ['0'], [], none, Decimal.isDigits_zero, fun _ => rfl, Decimal.isDigit_zeros 1,
        .none⟩, rfl, Or.inl (List.cons_ne_nil _ _)⟩
    · next hne =>
      have hdigits := Decimal.digits_shortest_pos (Binary64.isCanonical_of_parts hp)
        (Nat.pos_of_ne_zero hne) .even
      obtain ⟨n, htext, -, hmarked⟩ := Decimal.exists_numeral rfl Decimal.isPower_json hdigits
      refine ⟨n, htext, hmarked.imp And.left ?_⟩
      rintro ⟨e, -, he⟩
      rw [he]
      exact Option.some_ne_none e
  obtain ⟨n, htext, hmarked⟩ := hunsigned
  refine ⟨p.negative, n, ?_, hmarked⟩
  rw [floatText, if_pos hx, Decimal.render, hp]
  show (if p.negative = true then "-" ++ _ else _).toList = _
  unfold signed
  split
  · rw [String.toList_append, ← htext]
    rfl
  · exact htext

end Json
end UtmTiles
