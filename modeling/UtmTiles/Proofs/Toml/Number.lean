import UtmTiles.Proofs.Decimal.Numeral
import UtmTiles.Proofs.Toml.Lexer
import UtmTiles.Toml.Reader

/-!
# Steps of a reader, and numbers

What a step takes off a text is said by the first token of the text. The text of a whole number is
read as that number if it has 64 bits (`integer_toDigits`), and the text of a positive double as that
double, with and without a point (`double_of_fraction`, `double_of_exponent`).
-/

namespace UtmTiles
namespace Toml
namespace Reader

open Decimal (IsDigits IsTrimmed IsInteger Numeral ofDigits)

/-! ## Steps -/

section Steps

variable {β γ : Type} {r : Reader β} {f : β → Reader γ} {b : β} {t u : Token}
  {cs rest : List Char}

theorem bind_of_ok (h : r cs = .ok (b, rest)) : (r >>= f) cs = f b rest := by
  show (r cs >>= fun (b, rest) => f b rest) = _
  rw [h]
  rfl

theorem lift_of_ok {result : Except Fault β} (h : result = .ok b) :
    (liftM result : Reader β) cs = .ok (b, cs) := by
  rw [h]
  rfl

theorem next_of_token (h : Token.next cs = .ok (some (t, rest))) : next cs = .ok (some t, rest) := by
  rw [next, h]

theorem peek_of_token (h : Token.next cs = .ok (some (t, rest))) : peek cs = .ok (some t, cs) := by
  rw [peek, h]
  rfl

theorem eat_of_eq (h : Token.next cs = .ok (some (t, rest))) : eat t cs = .ok (true, rest) := by
  rw [eat, bind_of_ok (peek_of_token h), if_pos rfl, bind_of_ok (next_of_token h)]
  rfl

theorem eat_of_ne (h : Token.next cs = .ok (some (u, rest))) (hne : u ≠ t) :
    eat t cs = .ok (false, cs) := by
  rw [eat, bind_of_ok (peek_of_token h), if_neg fun heq => hne (Option.some.inj heq)]
  rfl

end Steps

/-! ## Runs of digits -/

theorem hexValue?_of_isDigit {c : Char} (hc : Decimal.isDigit c = true) :
    Json.hexValue? c = some (Decimal.digitValue c) := if_pos hc

theorem isDigitOf_ten (c : Char) : isDigitOf 10 c = Decimal.isDigit c := by
  by_cases hc : Decimal.isDigit c = true
  · have hvalue : Decimal.digitValue c < 10 := by
      have hbounds : '0' ≤ c ∧ c ≤ '9' := of_decide_eq_true hc
      have hupper : c.toNat ≤ 57 := hbounds.2
      show c.toNat - 48 < 10
      omega
    rw [isDigitOf, hexValue?_of_isDigit hc, hc]
    exact decide_eq_true hvalue
  · rw [Bool.eq_false_iff.2 hc, isDigitOf, Json.hexValue?, if_neg hc]
    split_ifs
    · exact decide_eq_false (by omega)
    · exact decide_eq_false (by omega)
    · rfl

/-- A character of a number's digits: underscores may stand between them. -/
def isPart (c : Char) : Bool := Decimal.isDigit c || c = '_'

/-- Decimal digits behind a sign. -/
def digitsAfter (sign : List Char) (leadingZeros : Bool) (cs : List Char) :
    Except Fault (List Char × List Char) :=
  let run := cs.takeWhile isPart
  let plain := run.filter (· ≠ '_')
  if run.isEmpty ∨ run.head? = some '_' ∨ run.getLast? = some '_' ∨ hasDoubleUnderscore run then
    .error .number
  else if !leadingZeros ∧ plain.head? = some '0' ∧ 1 < plain.length then .error .number
  else .ok (sign ++ plain, cs.dropWhile isPart)

theorem funext_isPart : (fun c => isDigitOf 10 c || decide (c = '_')) = isPart :=
  funext fun c => congrArg (· || decide (c = '_')) (isDigitOf_ten c)

theorem digits_of_head?_ne {cs : List Char} (hcs : cs.head? ≠ some '-') (signed leadingZeros : Bool) :
    digits 10 signed leadingZeros cs = digitsAfter [] leadingZeros cs := by
  unfold digits
  split
  next sign _ heq =>
    split at heq
    · exact absurd rfl hcs
    · cases heq
      simp only [funext_isPart]
      rfl

theorem digits_minus (leadingZeros : Bool) (cs : List Char) :
    digits 10 true leadingZeros ('-' :: cs) = digitsAfter ['-'] leadingZeros cs := by
  unfold digits
  simp only [funext_isPart]
  rfl

theorem filter_underscore {ds : List Char} (hds : '_' ∉ ds) : ds.filter (· ≠ '_') = ds :=
  List.filter_eq_self.2 fun _ hc => decide_eq_true fun heq => hds (heq ▸ hc)

theorem hasDoubleUnderscore_of_not_mem {ds : List Char} (hds : '_' ∉ ds) :
    hasDoubleUnderscore ds = false := by
  rw [hasDoubleUnderscore, List.any_eq_false]
  rintro ⟨c, d⟩ hmem
  have hne : c ≠ '_' := fun heq => hds (heq ▸ (List.of_mem_zip hmem).1)
  simp [hne]

theorem digitsAfter_of_isDigits {ds rest : List Char} (hds : IsDigits ds) (sign : List Char)
    {leadingZeros : Bool} (htrimmed : leadingZeros = true ∨ IsTrimmed ds)
    (hrest : Text.EndsRun isPart rest) :
    digitsAfter sign leadingZeros (ds ++ rest) = .ok (sign ++ ds, rest) := by
  have hparts : ∀ c ∈ ds, isPart c = true := fun c hc =>
    Bool.or_eq_true_iff.2 (Or.inl (decide_eq_true (hds.isDigit c hc)))
  have hunderscore : '_' ∉ ds := hds.not_mem (by decide)
  have hempty : ds.isEmpty = false := List.isEmpty_eq_false_iff.2 hds.ne_nil
  have hhead : ds.head? ≠ some '_' := fun h => hunderscore (List.mem_of_mem_head? h)
  have hlast : ds.getLast? ≠ some '_' := fun h => hunderscore (List.mem_of_mem_getLast? h)
  have hzeros : ¬ ((!leadingZeros) = true ∧ ds.head? = some '0' ∧ 1 < ds.length) := by
    rintro ⟨hleading, hzero, hlength⟩
    rcases htrimmed with rfl | htrimmed
    · exact Bool.false_ne_true hleading
    · rw [htrimmed hzero] at hlength
      exact absurd hlength (by decide)
  unfold digitsAfter
  simp only [Text.takeWhile_run hparts hrest, Text.dropWhile_run hparts hrest,
    filter_underscore hunderscore, hasDoubleUnderscore_of_not_mem hunderscore, hempty, hhead, hlast,
    Bool.false_eq_true, or_self, if_false, if_neg hzeros]

/-- Digits at the start of a word, which goes on with something else. -/
theorem digits_of_isDigits {ds rest : List Char} (hds : IsDigits ds) (signed leadingZeros : Bool)
    (htrimmed : leadingZeros = true ∨ IsTrimmed ds)
    (hrest : Text.EndsRun isPart rest) :
    digits 10 signed leadingZeros (ds ++ rest) = .ok (ds, rest) := by
  rw [digits_of_head?_ne, digitsAfter_of_isDigits hds _ htrimmed hrest, List.nil_append]
  rw [List.head?_append_of_ne_nil _ hds.ne_nil]
  exact fun h => hds.not_mem (by decide) (List.mem_of_mem_head? h)

theorem digits_of_isInteger {cs : List Char} {n : ℤ} (h : IsInteger cs n) :
    digits 10 true true cs = .ok (cs, []) := by
  cases h with
  | digits hds =>
    have hdigits := digits_of_isDigits hds true true (Or.inl rfl) Text.endsRun_nil
    rwa [List.append_nil] at hdigits
  | minus hds =>
    have hdigits := digitsAfter_of_isDigits hds ['-'] (Or.inl rfl) Text.endsRun_nil
    rw [List.append_nil] at hdigits
    rw [digits_minus, hdigits]
    rfl

/-! ## Whole numbers -/

theorem valueOf_of_isDigits {ds : List Char} (hds : IsDigits ds) : valueOf 10 ds = ofDigits ds := by
  have hfold (n : ℕ) : ds.foldl (fun n c => 10 * n + (Json.hexValue? c).getD 0) n =
      ds.foldl (fun n c => 10 * n + Decimal.digitValue c) n := by
    refine List.foldl_ext _ _ n fun n c hc => ?_
    rw [hexValue?_of_isDigit (decide_eq_true (hds.isDigit c hc))]
    rfl
  unfold valueOf
  split
  · exact absurd List.mem_cons_self (hds.not_mem (by decide))
  · exact congrArg Nat.cast (hfold 0)

theorem integer_toDigits (n : ℕ) : integer 10 (Nat.toDigits 10 n) =
    if n < 2 ^ 63 then .ok (.integer n) else .error .number := by
  have hds := Decimal.isDigits_toDigits n
  have hdigits := digits_of_isDigits hds true false (Or.inr (Decimal.isTrimmed_toDigits n))
    Text.endsRun_nil
  rw [List.append_nil] at hdigits
  show (digits 10 true false (Nat.toDigits 10 n) >>= _) = _
  rw [hdigits]
  show (if _ ∧ _ ∧ _ then _ else _) = _
  rw [valueOf_of_isDigits hds, Decimal.ofDigits_toDigits]
  refine ite_congr (propext ?_) (fun _ => rfl) fun _ => rfl
  unfold Binary64.minIndex Binary64.maxIndex
  simp only [List.isEmpty_nil, true_and]
  omega

/-! ## Words that are numbers -/

def StartsWithDigit (w : List Char) : Prop := ∃ c ∈ w.head?, '0' ≤ c ∧ c ≤ '9'

theorem startsWithDigit_of_isDigits {ds : List Char} (hds : IsDigits ds) : StartsWithDigit ds := by
  obtain ⟨c, cs, rfl⟩ := List.exists_cons_of_ne_nil hds.ne_nil
  exact ⟨c, rfl, hds.isDigit c List.mem_cons_self⟩

theorem StartsWithDigit.append {w : List Char} (hw : StartsWithDigit w) (rest : List Char) :
    StartsWithDigit (w ++ rest) := by
  obtain ⟨c, hc, hdigit⟩ := hw
  exact ⟨c, List.mem_head?_append_of_mem_head? hc, hdigit⟩

/-- A text that starts with a digit is no name of a value. -/
theorem ofList_ne_name {w : List Char} (hw : StartsWithDigit w) {d : Char}
    (hd : ¬ ('0' ≤ d ∧ d ≤ '9')) (name : List Char) :
    String.ofList w ≠ String.ofList (d :: name) := by
  rw [Ne, String.ofList_inj]
  rintro rfl
  obtain ⟨c, hc, hdigit⟩ := hw
  exact hd (Option.mem_some.1 hc ▸ hdigit)

theorem wordValue_of_startsWithDigit {w : List Char} (hw : StartsWithDigit w) :
    wordValue w = numberOrDate w := by
  have htrue : String.ofList w ≠ "true" := ofList_ne_name hw (by decide) _
  have hfalse : String.ofList w ≠ "false" := ofList_ne_name hw (by decide) _
  have hinf : String.ofList w ≠ "inf" := ofList_ne_name hw (by decide) _
  have hnan : String.ofList w ≠ "nan" := ofList_ne_name hw (by decide) _
  have hdigit : (w.head?.map Decimal.isDigit).getD false = true := by
    obtain ⟨c, hc, hdigit⟩ := hw
    rw [Option.mem_def.1 hc]
    exact decide_eq_true hdigit
  unfold wordValue
  simp only [htrue, hfalse, hinf, hnan, hdigit, or_self, or_true, if_false, if_true]

theorem numberOrDate_of_token {w cs rest : List Char} {t : Token} (hdate : looksLikeDate w = false)
    (hnext : Token.next cs = .ok (some (t, rest))) (ht : t ≠ .colon) :
    numberOrDate w cs = number w cs := by
  rw [numberOrDate, hdate, if_neg Bool.false_ne_true, bind_of_ok (eat_of_ne hnext ht),
    if_neg Bool.false_ne_true]

/-- A word that starts a number in another base than ten has the letter of that base in it. -/
theorem number_of_exponent {w : List Char} (hx : 'x' ∉ w) (ho : 'o' ∉ w) (hb : 'b' ∉ w)
    (he : 'e' ∈ w) : number w = double w none := by
  have hcontains : (w.contains 'e' || w.contains 'E') = true := by
    rw [List.contains_iff_mem.2 he, Bool.true_or]
  unfold number
  split
  · exact absurd (by simp) hx
  · exact absurd (by simp) ho
  · exact absurd (by simp) hb
  · rw [if_pos hcontains]

/-- Digits are a whole number, unless a point follows them. -/
theorem number_of_isDigits {ds : List Char} (hds : IsDigits ds) : number ds = (do
    if ← eat .period then
      match ← next with
      | some (.word fraction) => double ds (some fraction)
      | _ => throw .number
    else integer 10 ds) := by
  have hhead := startsWithDigit_of_isDigits hds
  have hcontains : (ds.contains 'e' || ds.contains 'E') = false := by
    have he : 'e' ∉ ds := hds.not_mem (by decide)
    have hE : 'E' ∉ ds := hds.not_mem (by decide)
    simp [he, hE]
  have hinf : String.ofList ds ≠ "inf" := ofList_ne_name hhead (by decide) _
  have hminusInf : String.ofList ds ≠ "-inf" := ofList_ne_name hhead (by decide) _
  have hnan : String.ofList ds ≠ "nan" := ofList_ne_name hhead (by decide) _
  have hminusNan : String.ofList ds ≠ "-nan" := ofList_ne_name hhead (by decide) _
  unfold number
  split
  · exact absurd (List.mem_cons_of_mem _ List.mem_cons_self) (hds.not_mem (by decide))
  · exact absurd (List.mem_cons_of_mem _ List.mem_cons_self) (hds.not_mem (by decide))
  · exact absurd (List.mem_cons_of_mem _ List.mem_cons_self) (hds.not_mem (by decide))
  · rw [hcontains, if_neg Bool.false_ne_true]
    refine congrArg (eat .period >>= ·) (funext fun point => ?_)
    cases point with
    | true => rfl
    | false =>
      rw [if_neg Bool.false_ne_true, if_neg Bool.false_ne_true]
      split
      · next heq => exact absurd heq hinf
      · next heq => exact absurd heq hminusInf
      · next heq => exact absurd heq hnan
      · next heq => exact absurd heq hminusNan
      · rfl

theorem number_of_period {ds fs cs cs' rest : List Char} (hds : IsDigits ds)
    (hpoint : Token.next cs = .ok (some (.period, cs')))
    (hfraction : Token.next cs' = .ok (some (.word fs, rest))) :
    number ds cs = double ds (some fs) rest := by
  rw [number_of_isDigits hds, bind_of_ok (eat_of_eq hpoint), if_pos rfl,
    bind_of_ok (next_of_token hfraction)]

theorem number_of_token {ds cs rest : List Char} {t : Token} (hds : IsDigits ds)
    (hnext : Token.next cs = .ok (some (t, rest))) (ht : t ≠ .period) :
    number ds cs = (integer 10 ds).map (·, cs) := by
  rw [number_of_isDigits hds, bind_of_ok (eat_of_ne hnext ht), if_neg Bool.false_ne_true]
  cases integer 10 ds <;> rfl

/-! ## Doubles -/

/-- The text of a power, as a reader of doubles hands it on. -/
theorem exponent_of_isInteger {cs : List Char} {e : ℤ} (h : IsInteger cs e) (rest : List Char) :
    exponent ('e' :: cs) rest = .ok ('E' :: cs, rest) := by
  have hempty : cs.isEmpty = false := by
    rw [List.isEmpty_eq_false_iff]
    cases h with
    | digits hds => exact hds.ne_nil
    | minus => exact List.cons_ne_nil _ _
  have hdigits := digits_of_isInteger h
  unfold exponent
  simp only [hempty, hdigits]
  rfl

section Doubles

variable {n : Numeral}

/-- The power of ten is left out, or written with a small letter and without a plus sign. -/
def HasWordPower (n : Numeral) : Prop :=
  (n.power = [] ∧ n.exponent = none) ∨
    ∃ e : ℤ, n.power = 'e' :: e.repr.toList ∧ n.exponent = some e

/-- The text of such a power is handed on with a capital letter. -/
theorem exists_power (hpower : HasWordPower n) :
    ∃ power, Decimal.IsPower power n.exponent ∧
      ∀ rest, exponent n.power rest = .ok (power, rest) := by
  rcases hpower with ⟨hnone, hexponent⟩ | ⟨e, he, hexponent⟩
  · rw [hnone, hexponent]
    exact ⟨[], .none, fun _ => rfl⟩
  · rw [he, hexponent]
    have hinteger := Decimal.isInteger_repr e
    exact ⟨_, .integer (Or.inr rfl) hinteger, exponent_of_isInteger hinteger⟩

variable {power : List Char} {x : Float} (hpower : Decimal.IsPower power n.exponent)
  (hexponent : ∀ rest, exponent n.power rest = .ok (power, rest))
  (hvalue : Decimal.nearest false n.digits n.scale = x) (hfinite : x.isFinite = true)

include hpower hvalue

theorem read?_of_isPower {text : List Char}
    (htext : text = n.whole ++ { n with power, isPower_power := hpower }.afterWhole) :
    Decimal.read? (String.ofList text) = some x := by
  rw [htext, ← hvalue]
  exact Decimal.read?_numeral { n with power, isPower_power := hpower }

include hexponent hfinite

theorem double_of_exponent (hfraction : n.fraction = []) (rest : List Char) :
    double (n.whole ++ n.power) none rest = .ok (.float x, rest) := by
  have hdigits := digits_of_isDigits n.isDigits_whole true false (Or.inr n.isTrimmed_whole)
    (n.isPower_power.endsRun rfl rfl)
  have hread : Decimal.read? (String.ofList (n.whole ++ [] ++ power)) = some x := by
    refine read?_of_isPower hpower hvalue ?_
    rw [List.append_nil, Numeral.afterWhole]
    simp only [hfraction]
  rw [double, bind_of_ok (lift_of_ok hdigits)]
  simp only [pure_bind]
  rw [bind_of_ok (hexponent rest), hread]
  simp only [hfinite, if_true]
  rfl

theorem double_of_fraction (hfraction : n.fraction ≠ []) (rest : List Char) :
    double n.whole (some (n.fraction ++ n.power)) rest = .ok (.float x, rest) := by
  have hwhole := digits_of_isDigits n.isDigits_whole true false (Or.inr n.isTrimmed_whole)
    Text.endsRun_nil
  have hplaces := digits_of_isDigits ⟨hfraction, n.isDigit_fraction⟩ false true (Or.inl rfl)
    (n.isPower_power.endsRun rfl rfl)
  rw [List.append_nil] at hwhole
  have hread : Decimal.read? (String.ofList (n.whole ++ '.' :: n.fraction ++ power)) = some x := by
    refine read?_of_isPower hpower hvalue ?_
    obtain ⟨f, fs, hfs⟩ := List.exists_cons_of_ne_nil hfraction
    rw [List.append_assoc, Numeral.afterWhole]
    simp only [hfs]
    rfl
  rw [double, bind_of_ok (lift_of_ok hwhole)]
  simp only [List.isEmpty_nil, Bool.not_true, Bool.false_eq_true, if_false]
  rw [bind_of_ok (lift_of_ok hplaces)]
  simp only [pure_bind]
  rw [bind_of_ok (hexponent rest), hread]
  simp only [hfinite, if_true]
  rfl

end Doubles

end Reader
end Toml
end UtmTiles
