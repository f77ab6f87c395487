import UtmTiles.Proofs.Toml.Number

/-!
# Values of written texts

What a text at the end of a line is read as (`ReadsAs`): booleans and positive doubles as themselves,
whole numbers if they have 64 bits, and quoted texts if all their characters have an escape.
-/

namespace UtmTiles
namespace Toml
namespace Reader

open Decimal (IsDigits IsInteger Numeral)

/-- What a text before the end of a line is read as; nothing if it has a fault. -/
def ReadsAs (text : List Char) (node : Option Node) : Prop :=
  ∀ fuel rest, (value (fuel + 1) (text ++ '\n' :: rest)).toOption = node.map (·, '\n' :: rest)

/-! ## Values and their first tokens -/

section Tokens

variable {fuel : ℕ} {cs rest : List Char}

theorem value_of_word {w : List Char} (h : Token.next cs = .ok (some (.word w, rest))) :
    value (fuel + 1) cs = wordValue w rest := by
  rw [value, bind_of_ok (next_of_token h)]

theorem value_of_string {s : String} {multiline : Bool}
    (h : Token.next cs = .ok (some (.string s multiline, rest))) :
    value (fuel + 1) cs = .ok (.string s, rest) := by
  rw [value, bind_of_ok (next_of_token h)]
  rfl

theorem value_of_error {fault : Fault} (h : Token.next cs = .error fault) :
    value (fuel + 1) cs = .error fault := by
  rw [value]
  show (next cs >>= _) = _
  rw [next, h]
  rfl

end Tokens

theorem endsWord_newline (rest : List Char) : EndsWord ('\n' :: rest) := Text.endsRun_cons rfl rest

/-! ## Texts, booleans and whole numbers -/

theorem readsAs_quoted {s : String} (hs : ∀ c ∈ s.toList, ¬ Text.IsCoded c) :
    ReadsAs (Text.quoted s).toList (some (.string s)) := by
  intro fuel rest
  have hend : ('\n' :: rest).head? ≠ some '"' := by simp
  have hnext := next_quoted hs hend
  rw [String.ofList_toList] at hnext
  rw [Text.toList_quoted_append, value_of_string hnext]
  rfl

theorem readsAs_quoted_of_isCoded {s : String} (hs : ∃ c ∈ s.toList, Text.IsCoded c) :
    ReadsAs (Text.quoted s).toList none := by
  intro fuel rest
  have hend : ('\n' :: rest).head? ≠ some '"' := by simp
  obtain ⟨fault, hnext⟩ := next_quoted_of_isCoded hs hend
  rw [Text.toList_quoted_append, value_of_error hnext]
  rfl

theorem readsAs_boolean (b : Bool) :
    ReadsAs (if b then "true".toList else "false".toList) (some (.boolean b)) := by
  intro fuel rest
  have hend := endsWord_newline rest
  cases b with
  | true =>
    have hnext := next_word (w := "true".toList) (by decide) hend
    show (value _ ("true".toList ++ '\n' :: rest)).toOption = _
    rw [value_of_word hnext]
    rfl
  | false =>
    have hnext := next_word (w := "false".toList) (by decide) hend
    show (value _ ("false".toList ++ '\n' :: rest)).toOption = _
    rw [value_of_word hnext]
    rfl

theorem isWordChar_of_isDigit {c : Char} (hc : '0' ≤ c ∧ c ≤ '9') : isWordChar c = true := by
  have hdigit : Decimal.isDigit c = true := decide_eq_true hc
  simp [isWordChar, hdigit]

theorem isWord_of_isDigits {ds : List Char} (hds : IsDigits ds) : IsWord ds :=
  ⟨hds.ne_nil, fun c hc => isWordChar_of_isDigit (hds.isDigit c hc)⟩

theorem looksLikeDate_of_isDigits {ds : List Char} (hds : IsDigits ds) :
    looksLikeDate ds = false := by
  have hT : 'T' ∉ ds := hds.not_mem (by decide)
  have ht : 't' ∉ ds := hds.not_mem (by decide)
  have hminus : '-' ∉ ds.tail := fun h => hds.not_mem (by decide) (List.mem_of_mem_tail h)
  simp [looksLikeDate, hT, ht, hminus]

theorem readsAs_toDigits (n : ℕ) :
    ReadsAs (Nat.toDigits 10 n) (if n < 2 ^ 63 then some (.integer n) else none) := by
  intro fuel rest
  have hds := Decimal.isDigits_toDigits n
  have hword := next_word (isWord_of_isDigits hds) (endsWord_newline rest)
  have hnewline : Token.next ('\n' :: rest) = .ok (some (.newline, rest)) := rfl
  rw [value_of_word hword, wordValue_of_startsWithDigit (startsWithDigit_of_isDigits hds),
    numberOrDate_of_token (looksLikeDate_of_isDigits hds) hnewline (by decide),
    number_of_token hds hnewline (by decide), integer_toDigits]
  split
  · rfl
  · rfl

/-! ## Doubles -/

theorem isWordChar_of_isInteger {cs : List Char} {n : ℤ} (h : IsInteger cs n) :
    ∀ c ∈ cs, isWordChar c = true := by
  intro c hc
  cases h with
  | digits hds => exact isWordChar_of_isDigit (hds.isDigit c hc)
  | minus hds =>
    rcases List.mem_cons.1 hc with rfl | hc
    · rfl
    · exact isWordChar_of_isDigit (hds.isDigit c hc)

theorem any_minus_power (ds cs : List Char) :
    ((ds ++ 'e' :: '-' :: cs).zip (ds ++ 'e' :: '-' :: cs).tail).any
      (fun (c, d) => (c = 'e' || c = 'E') && d = '-') = true := by
  induction ds with
  | nil => rfl
  | cons d ds ih =>
    rw [List.cons_append, List.tail_cons]
    cases hrest : ds ++ 'e' :: '-' :: cs with
    | nil => exact absurd hrest (by simp)
    | cons e es =>
      rw [hrest, List.tail_cons] at ih
      rw [List.zip_cons_cons, List.any_cons, ih, Bool.or_true]

/-- A word with a power of ten is no date, although its exponent may have a hyphen. -/
theorem looksLikeDate_of_power {ds cs : List Char} {n : ℤ} (hds : IsDigits ds)
    (hcs : IsInteger cs n) : looksLikeDate (ds ++ 'e' :: cs) = false := by
  have hT : 'T' ∉ ds := hds.not_mem (by decide)
  have ht : 't' ∉ ds := hds.not_mem (by decide)
  have hminus : '-' ∉ ds.tail := fun h => hds.not_mem (by decide) (List.mem_of_mem_tail h)
  cases hcs with
  | digits hes =>
    have hT' : 'T' ∉ cs := hes.not_mem (by decide)
    have ht' : 't' ∉ cs := hes.not_mem (by decide)
    have hminus' : '-' ∉ cs := hes.not_mem (by decide)
    simp [looksLikeDate, hT, ht, hT', ht', List.tail_append_of_ne_nil hds.ne_nil, hminus, hminus']
  | @minus es hes =>
    have hT' : 'T' ∉ es := hes.not_mem (by decide)
    have ht' : 't' ∉ es := hes.not_mem (by decide)
    unfold looksLikeDate
    -- The hyphen behind the letter of a power is not one of a date.
    simp only [any_minus_power]
    simp [hT, ht, hT', ht']

section Doubles

variable {n : Numeral}

theorem isWord_append_power (hn : HasWordPower n) {ds : List Char} (hds : IsDigits ds) :
    IsWord (ds ++ n.power) := by
  have hpower : ∀ c ∈ n.power, isWordChar c = true := by
    rcases hn with ⟨hnone, -⟩ | ⟨e, he, -⟩
    · rw [hnone]
      exact fun c hc => absurd hc List.not_mem_nil
    · rw [he]
      exact List.forall_mem_cons.2 ⟨rfl, isWordChar_of_isInteger (Decimal.isInteger_repr e)⟩
  refine ⟨List.append_ne_nil_of_left_ne_nil hds.ne_nil _, fun c hc => ?_⟩
  rcases List.mem_append.1 hc with hdigit | hc
  · exact isWordChar_of_isDigit (hds.isDigit c hdigit)
  · exact hpower c hc

variable {power : List Char} {x : Float} (hn : HasWordPower n)
  (hpower : Decimal.IsPower power n.exponent)
  (hexponent : ∀ rest, exponent n.power rest = .ok (power, rest))
  (hvalue : Decimal.nearest false n.digits n.scale = x) (hfinite : x.isFinite = true)
  (fuel : ℕ) (rest : List Char)

include hn hpower hexponent hvalue hfinite

/-- A numeral without a point is one word, which has the letter of its power in it. -/
theorem value_of_exponent (hfraction : n.fraction = []) (hne : n.power ≠ []) :
    value (fuel + 1) (n.toList ++ '\n' :: rest) = .ok (.float x, '\n' :: rest) := by
  obtain ⟨e, he, -⟩ := hn.resolve_left fun h => hne h.1
  have hafter : n.afterWhole = n.power := by
    rw [Numeral.afterWhole]
    simp only [hfraction]
  have htext : n.toList = n.whole ++ n.power := congrArg (n.whole ++ ·) hafter
  have hx : 'x' ∉ n.whole ++ n.power := htext ▸ n.not_mem (by decide) (by decide)
  have ho : 'o' ∉ n.whole ++ n.power := htext ▸ n.not_mem (by decide) (by decide)
  have hb : 'b' ∉ n.whole ++ n.power := htext ▸ n.not_mem (by decide) (by decide)
  have hletter : 'e' ∈ n.whole ++ n.power :=
    List.mem_append_right _ (he ▸ List.mem_cons_self)
  have hdate := looksLikeDate_of_power n.isDigits_whole (Decimal.isInteger_repr e)
  have hword := next_word (isWord_append_power hn n.isDigits_whole) (endsWord_newline rest)
  have hdigit := (startsWithDigit_of_isDigits n.isDigits_whole).append n.power
  have hnewline : Token.next ('\n' :: rest) = .ok (some (.newline, rest)) := rfl
  rw [← he] at hdate
  rw [htext, value_of_word hword, wordValue_of_startsWithDigit hdigit,
    numberOrDate_of_token hdate hnewline (by decide), number_of_exponent hx ho hb hletter,
    double_of_exponent hpower hexponent hvalue hfinite hfraction]

/-- A numeral with a point is two words, the second one with its power. -/
theorem value_of_fraction (hfraction : n.fraction ≠ []) :
    value (fuel + 1) (n.toList ++ '\n' :: rest) = .ok (.float x, '\n' :: rest) := by
  have htext : n.toList ++ '\n' :: rest =
      n.whole ++ '.' :: (n.fraction ++ n.power ++ '\n' :: rest) := by
    obtain ⟨f, fs, hfs⟩ := List.exists_cons_of_ne_nil hfraction
    rw [Numeral.toList, Numeral.afterWhole, List.append_assoc]
    simp only [hfs]
    rfl
  have hperiod (cs : List Char) : Token.next ('.' :: cs) = .ok (some (.period, cs)) := rfl
  have hwhole (cs : List Char) := next_word (isWord_of_isDigits n.isDigits_whole)
    (Text.endsRun_cons rfl cs : EndsWord ('.' :: cs))
  have hplaces := next_word (isWord_append_power hn ⟨hfraction, n.isDigit_fraction⟩)
    (endsWord_newline rest)
  have hdigit := startsWithDigit_of_isDigits n.isDigits_whole
  rw [htext, value_of_word (hwhole _), wordValue_of_startsWithDigit hdigit,
    numberOrDate_of_token (looksLikeDate_of_isDigits n.isDigits_whole) (hperiod _) (by decide),
    number_of_period n.isDigits_whole (hperiod _) hplaces,
    double_of_fraction hpower hexponent hvalue hfinite hfraction]

end Doubles

theorem readsAs_marked {x : Float} (hfinite : x.isFinite = true) (hpos : 0 < Binary64.value x) :
    ReadsAs (Decimal.marked x).toList (some (.float x)) := by
  intro fuel rest
  obtain ⟨n, htext, hvalue, hstyle⟩ := Decimal.exists_numeral_marked hfinite hpos
  have hn : HasWordPower n := hstyle.imp_left And.right
  obtain ⟨power, hpower, hexponent⟩ := exists_power hn
  have hread : value (fuel + 1) (n.toList ++ '\n' :: rest) = .ok (.float x, '\n' :: rest) := by
    rcases hstyle with ⟨hfraction, -⟩ | ⟨e, he, -⟩
    · exact value_of_fraction hn hpower hexponent hvalue hfinite fuel rest hfraction
    · by_cases hfraction : n.fraction = []
      · exact value_of_exponent hn hpower hexponent hvalue hfinite fuel rest hfraction
          (he ▸ List.cons_ne_nil _ _)
      · exact value_of_fraction hn hpower hexponent hvalue hfinite fuel rest hfraction
  rw [htext, hread]
  rfl

end Reader
end Toml
end UtmTiles
