import UtmTiles.Proofs.Decimal.Shortest
import UtmTiles.Proofs.Decimal.Text
import UtmTiles.Proofs.Text.Run

/-!
# Numerals

A numeral is the text of a number without sign: digits, possibly digits after a point, and possibly a
power of ten. Formats that mark whole numbers and write very large and very small numbers with a power
write numerals (`exists_numeral`). A numeral is read as the double nearest to its value
(`read?_numeral`), which for the text of a positive double is the double itself
(`exists_numeral_marked`).
-/

namespace UtmTiles
namespace Decimal

/-- The text of a power of ten; there may be none. -/
inductive IsPower : List Char → Option ℤ → Prop
  | none : IsPower [] none
  | integer {mark : Char} {cs : List Char} {n : ℤ} (hmark : mark = 'e' ∨ mark = 'E')
      (h : IsInteger cs n) : IsPower (mark :: cs) (some n)
  | plus {mark : Char} {ds : List Char} (hmark : mark = 'e' ∨ mark = 'E') (h : IsDigits ds) :
      IsPower (mark :: '+' :: ds) (some (ofDigits ds))

theorem IsPower.not_mem {cs : List Char} {e : Option ℤ} (h : IsPower cs e) {c : Char}
    (hdigit : ¬ ('0' ≤ c ∧ c ≤ '9')) (hmark : c ∉ ['.', 'e', 'E', '-', '+']) : c ∉ cs := by
  simp only [List.mem_cons, List.not_mem_nil, or_false, not_or] at hmark
  obtain ⟨-, he, hE, hminus, hplus⟩ := hmark
  have hletter {mark : Char} (hm : mark = 'e' ∨ mark = 'E') : c ≠ mark :=
    hm.elim (fun h => h ▸ he) fun h => h ▸ hE
  cases h with
  | none => exact List.not_mem_nil
  | integer hm hinteger =>
    exact List.not_mem_cons_of_ne_of_not_mem (hletter hm) (hinteger.not_mem hdigit hminus)
  | plus hm hds =>
    exact List.not_mem_cons_of_ne_of_not_mem (hletter hm)
      (List.not_mem_cons_of_ne_of_not_mem hplus (hds.not_mem hdigit))

/-- The parts of a number's text. A number without point has no digits in its fraction. -/
structure Numeral where
  whole : List Char
  fraction : List Char
  power : List Char
  exponent : Option ℤ
  isDigits_whole : IsDigits whole
  isTrimmed_whole : IsTrimmed whole
  isDigit_fraction : ∀ c ∈ fraction, '0' ≤ c ∧ c ≤ '9'
  isPower_power : IsPower power exponent

namespace Numeral

/-- What stands after the digits in front. -/
def afterWhole (n : Numeral) : List Char :=
  match n.fraction with
  | [] => n.power
  | fraction => '.' :: (fraction ++ n.power)

def toList (n : Numeral) : List Char := n.whole ++ n.afterWhole

/-- The digits taken together, and their power of ten. -/
def digits (n : Numeral) : ℕ := ofDigits (n.whole ++ n.fraction)

def scale (n : Numeral) : ℤ := n.exponent.getD 0 - n.fraction.length

theorem not_mem (n : Numeral) {c : Char} (hdigit : ¬ ('0' ≤ c ∧ c ≤ '9'))
    (hmark : c ∉ ['.', 'e', 'E', '-', '+']) : c ∉ n.toList := by
  have hfraction : c ∉ n.fraction := fun hc => hdigit (n.isDigit_fraction c hc)
  have hpower := n.isPower_power.not_mem hdigit hmark
  have hpoint : c ≠ '.' := List.ne_of_not_mem_cons hmark
  rw [toList, List.mem_append, not_or, afterWhole]
  refine ⟨n.isDigits_whole.not_mem hdigit, ?_⟩
  split
  · exact hpower
  · rw [List.mem_cons, List.mem_append]
    exact fun h => h.elim hpoint fun h => h.elim hfraction hpower

end Numeral

/-! ## Writing -/

/-- A decimal with all its places written out, in a style that marks whole numbers. -/
theorem exists_numeral_positional {style : Style} (hwhole : style.whole = ".0") {d : Decimal}
    (hpos : 0 < d.digits) : ∃ n : Numeral, (d.positional style).toList = n.toList ∧
      (n.digits * 10 ^ n.scale : ℚ) = d.digits * 10 ^ d.exponent ∧
      n.fraction ≠ [] ∧ n.power = [] ∧ n.exponent = none := by
  rcases positional_cases style hpos with
    ⟨ds, hds, htrimmed, htext, hvalue⟩ | ⟨ds, fs, hds, htrimmed, hfs, htext, hvalue⟩
  · refine ⟨⟨ds, ['0'], [], none, hds, htrimmed, isDigit_zeros 1, .none⟩, ?_, ?_,
      List.cons_ne_nil _ _, rfl, rfl⟩
    · rw [htext, hwhole]
      rfl
    · show (ofDigits (ds ++ ['0']) * 10 ^ (0 - ((1 : ℕ) : ℤ)) : ℚ) = _
      rw [zero_sub, ← hvalue]
      refine (ofDigits_append_mul_zpow ds ['0']).trans ?_
      rw [ofDigits_zero, Nat.cast_zero, zero_div, add_zero]
  · refine ⟨⟨ds, fs, [], none, hds, htrimmed, hfs.isDigit, .none⟩, ?_, ?_, hfs.ne_nil, rfl, rfl⟩
    · cases fs with
      | nil => exact absurd rfl hfs.ne_nil
      | cons f fs =>
        show _ = ds ++ '.' :: (f :: fs ++ [])
        rw [htext, List.append_nil]
    · show (ofDigits (ds ++ fs) * 10 ^ (0 - (fs.length : ℤ)) : ℚ) = _
      rw [zero_sub, ofDigits_append_mul_zpow, hvalue]

/-- A decimal with one digit before the point and a power of ten. -/
theorem exists_numeral_exponential {style : Style}
    (hpower : ∀ e, IsPower (style.power e).toList (some e)) {d : Decimal} (hpos : 0 < d.digits) :
    ∃ (n : Numeral) (e : ℤ), (d.exponential style).toList = n.toList ∧
      (n.digits * 10 ^ n.scale : ℚ) = d.digits * 10 ^ d.exponent ∧
      n.power = (style.power e).toList ∧ n.exponent = some e := by
  have hds := isDigits_toDigits d.digits
  have hvalue := ofDigits_toDigits d.digits
  have hhead := head?_toDigits_ne hpos
  have htext : (toString d.digits).toList = Nat.toDigits 10 d.digits := Nat.toList_repr
  unfold exponential
  rw [htext]
  generalize Nat.toDigits 10 d.digits = ds at *
  obtain _ | ⟨first, rest⟩ := ds
  · exact absurd rfl hds.ne_nil
  have hfirst : IsDigits [first] :=
    ⟨List.cons_ne_nil _ _, fun c hc => hds.isDigit c (List.mem_cons.2 (Or.inl (List.mem_singleton.1 hc)))⟩
  have hrest : ∀ c ∈ rest, '0' ≤ c ∧ c ≤ '9' := fun c hc => hds.isDigit c (List.mem_cons_of_mem _ hc)
  let e : ℤ := (first :: rest).length - 1 + d.exponent
  refine ⟨⟨[first], rest, _, _, hfirst, fun hzero => absurd hzero hhead, hrest, hpower e⟩, e,
    ?_, ?_, rfl, rfl⟩
  · cases rest with
    | nil =>
      show (String.ofList _ ++ style.power e).toList = _
      rw [String.toList_append, String.toList_ofList]
      rfl
    | cons next rest =>
      show (String.ofList _ ++ style.power e).toList = _
      rw [String.toList_append, String.toList_ofList]
      rfl
  · show ((ofDigits (first :: rest) : ℕ) * 10 ^ (e - rest.length) : ℚ) = _
    have hscale : e - rest.length = d.exponent := by
      simp only [e, List.length_cons]
      omega
    rw [hvalue, hscale]

/-- A positive decimal in a style that marks whole numbers. -/
theorem exists_numeral {style : Style} (hwhole : style.whole = ".0")
    (hpower : ∀ e, IsPower (style.power e).toList (some e)) {d : Decimal} (hpos : 0 < d.digits) :
    ∃ n : Numeral, (d.toText style).toList = n.toList ∧
      (n.digits * 10 ^ n.scale : ℚ) = d.digits * 10 ^ d.exponent ∧
      ((n.fraction ≠ [] ∧ n.power = [] ∧ n.exponent = none) ∨
        ∃ e, n.power = (style.power e).toList ∧ n.exponent = some e) := by
  unfold toText
  split
  · obtain ⟨n, htext, hvalue, hmarked⟩ := exists_numeral_positional hwhole hpos
    exact ⟨n, htext, hvalue, Or.inl hmarked⟩
  · obtain ⟨n, e, htext, hvalue, hmarked⟩ := exists_numeral_exponential hpower hpos
    exact ⟨n, htext, hvalue, Or.inr ⟨e, hmarked⟩⟩

theorem isPower_marked (e : ℤ) : IsPower (Style.marked.power e).toList (some e) := by
  show IsPower ("e" ++ e.repr).toList (some e)
  rw [String.toList_append]
  exact .integer (Or.inl rfl) (isInteger_repr e)

theorem isPower_json (e : ℤ) : IsPower (Style.json.power e).toList (some e) := by
  show IsPower (if e < 0 then "e" ++ e.repr else "e+" ++ e.repr).toList (some e)
  split
  · rw [String.toList_append]
    exact .integer (Or.inl rfl) (isInteger_repr e)
  · next hneg =>
    obtain ⟨n, rfl⟩ := Int.eq_ofNat_of_zero_le (not_lt.1 hneg)
    have h := IsPower.plus (Or.inl rfl) (isDigits_toDigits n)
    rw [ofDigits_toDigits] at h
    rw [String.toList_append]
    show IsPower ('e' :: '+' :: (Nat.repr n).toList) _
    rw [Nat.toList_repr]
    exact h

/-! ## Reading -/

/-- What stands behind digits does not go on with one. -/
def EndsDigits : List Char → Prop := Text.EndsRun isDigit

theorem spanDigits_of_endsDigits {ds rest : List Char} (hds : ∀ c ∈ ds, '0' ≤ c ∧ c ≤ '9')
    (hrest : EndsDigits rest) : spanDigits (ds ++ rest) = (ds, rest) := by
  have hdigits : ∀ c ∈ ds, isDigit c = true := fun c hc => decide_eq_true (hds c hc)
  rw [spanDigits, Text.takeWhile_run hdigits hrest, Text.dropWhile_run hdigits hrest]

/-- A power of ten starts with a letter. -/
theorem IsPower.endsRun {p : Char → Bool} {cs : List Char} {e : Option ℤ} (h : IsPower cs e)
    (he : p 'e' = false) (hE : p 'E' = false) : Text.EndsRun p cs := by
  have hletter {mark : Char} (hm : mark = 'e' ∨ mark = 'E') (cs : List Char) :
      Text.EndsRun p (mark :: cs) := by
    rcases hm with rfl | rfl
    · exact Text.endsRun_cons he cs
    · exact Text.endsRun_cons hE cs
  cases h with
  | none => exact Text.endsRun_nil
  | integer hm _ => exact hletter hm _
  | plus hm _ => exact hletter hm _

theorem splitSign_of_isDigits {ds : List Char} (h : IsDigits ds) (rest : List Char) :
    splitSign (ds ++ rest) = (false, ds ++ rest) := by
  obtain _ | ⟨d, ds⟩ := ds
  · exact absurd rfl h.ne_nil
  have hminus : '-' ∉ d :: ds := h.not_mem (by decide)
  have hplus : '+' ∉ d :: ds := h.not_mem (by decide)
  rw [List.cons_append, splitSign.eq_def]
  split
  · next heq => exact absurd (List.head_eq_of_cons_eq heq ▸ List.mem_cons_self) hminus
  · next heq => exact absurd (List.head_eq_of_cons_eq heq ▸ List.mem_cons_self) hplus
  · rfl

theorem exponent?_of_isPower {cs : List Char} {e : Option ℤ} (h : IsPower cs e) :
    exponent? cs = some (e.getD 0) := by
  have hmarked {mark : Char} (hmark : mark = 'e' ∨ mark = 'E') (negative : Bool) (cs : List Char)
      {ds : List Char} (hds : IsDigits ds) (hsplit : splitSign cs = (negative, ds)) :
      exponent? (mark :: cs) =
        some (if negative then -(ofDigits ds : ℤ) else ofDigits ds) := by
    rw [exponent?, if_pos hmark, hsplit]
    exact if_pos (areDigits_iff.2 hds)
  cases h with
  | none => rfl
  | integer hmark hinteger =>
    cases hinteger with
    | digits hds =>
      have hsplit := splitSign_of_isDigits hds []
      rw [List.append_nil] at hsplit
      exact hmarked hmark false _ hds hsplit
    | minus hds => exact hmarked hmark true ('-' :: _) hds rfl
  | plus hmark hds => exact hmarked hmark false ('+' :: _) hds rfl

theorem mantissa?_toList (n : Numeral) : mantissa? n.toList = some (n.whole, n.fraction, n.power) := by
  obtain ⟨whole, fraction, power, exponent, hwhole, htrimmed, hfraction, hpower⟩ := n
  have hends : EndsDigits power := hpower.endsRun rfl rfl
  have hempty : (whole.isEmpty && fraction.isEmpty) = false := by
    rw [List.isEmpty_eq_false_iff.2 hwhole.ne_nil, Bool.false_and]
  cases fraction with
  | nil =>
    have hne : ¬ (whole.isEmpty && ([] : List Char).isEmpty) = true := Bool.eq_false_iff.1 hempty
    show mantissa? (whole ++ power) = _
    rw [mantissa?, spanDigits_of_endsDigits hwhole.isDigit hends]
    cases hpower with
    | none => exact if_neg hne
    | integer hmark _ => rcases hmark with rfl | rfl <;> exact if_neg hne
    | plus hmark _ => rcases hmark with rfl | rfl <;> exact if_neg hne
  | cons f fs =>
    show mantissa? (whole ++ '.' :: (f :: fs ++ power)) = _
    have hpoint : EndsDigits ('.' :: (f :: fs ++ power)) := fun c hc => Option.mem_some.1 hc ▸ rfl
    rw [mantissa?, spanDigits_of_endsDigits hwhole.isDigit hpoint]
    simp only [spanDigits_of_endsDigits hfraction hends, hempty, Bool.false_eq_true, if_false]

/-- A numeral is read as the double nearest to its value. -/
theorem read?_numeral (n : Numeral) :
    read? (String.ofList n.toList) = some (nearest false n.digits n.scale) := by
  have hsplit : splitSign n.toList = (false, n.toList) := splitSign_of_isDigits n.isDigits_whole _
  rw [read?, String.toList_ofList, hsplit]
  obtain ⟨d, ds, htext⟩ := List.exists_cons_of_ne_nil n.isDigits_whole.ne_nil
  have hd := n.isDigits_whole.isDigit d (htext ▸ List.mem_cons_self)
  have hlower : d.toLower = d := by
    have hupper : ¬ (d.val ≥ 'A'.val ∧ d.val ≤ 'Z'.val) := fun h =>
      absurd (le_trans h.1 hd.2) (by decide)
    rw [Char.toLower, dif_neg hupper]
  -- a text that starts with a digit is no name of a double
  have hname {c : Char} {name : List Char} (hc : ¬ ('0' ≤ c ∧ c ≤ '9')) :
      String.ofList (n.toList.map Char.toLower) ≠ String.ofList (c :: name) := by
    intro heq
    rw [String.ofList_inj, Numeral.toList, htext, List.cons_append, List.map_cons, hlower] at heq
    exact hc (List.head_eq_of_cons_eq heq ▸ hd)
  have hinf : String.ofList (n.toList.map Char.toLower) ≠ "inf" := hname (by decide)
  have hinfinity : String.ofList (n.toList.map Char.toLower) ≠ "infinity" := hname (by decide)
  have hnan : String.ofList (n.toList.map Char.toLower) ≠ "nan" := hname (by decide)
  show unsigned? false n.toList = _
  unfold unsigned?
  simp only [hinf, hinfinity, hnan, or_self, if_false, mantissa?_toList,
    exponent?_of_isPower n.isPower_power, Option.bind_eq_bind, Option.bind_some]
  rfl

/-- A positive double of a configuration text is written as a numeral that is nearest to it. -/
theorem exists_numeral_marked {x : Float} (hfinite : x.isFinite = true)
    (hpos : 0 < Binary64.value x) : ∃ n : Numeral, (marked x).toList = n.toList ∧
      nearest false n.digits n.scale = x ∧
      ((n.fraction ≠ [] ∧ n.power = [] ∧ n.exponent = none) ∨
        ∃ e : ℤ, n.power = 'e' :: e.repr.toList ∧ n.exponent = some e) := by
  obtain ⟨p, hp, hcanonical, hsign, hmantissa, hproduct⟩ :=
    Binary64.exists_parts_of_pos hfinite hpos
  have hdigits := digits_shortest_pos hcanonical hmantissa .upper
  obtain ⟨n, htext, hvalue, hmarked⟩ := exists_numeral rfl isPower_marked hdigits
  have hrounded := rounded_shortest hcanonical hmantissa .upper
  rw [← hvalue] at hrounded
  have hnearest := isDoubleOf_nearest n.digits n.scale
  refine ⟨n, ?_, ?_, hmarked.imp_right ?_⟩
  · rw [← htext, marked, render, hp]
    simp only [hsign, if_neg hmantissa.ne', Bool.false_eq_true, if_false]
    rfl
  · exact (hnearest.isRounded_iff.1 ⟨⟨hfinite, hproduct.trans hrounded.symm⟩, hpos⟩).2.symm
  · rintro ⟨e, hpower, he⟩
    exact ⟨e, hpower.trans String.toList_append, he⟩

end Decimal
end UtmTiles
