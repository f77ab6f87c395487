import UtmTiles.Decimal.Printer
import UtmTiles.Proofs.Decimal.Literal
import Std.Data.String.ToInt

/-!
# Numbers in texts

`IsInteger cs n` and `IsDecimal cs q` say which texts are numbers and which numbers they are:
digits with an optional minus sign in front, and digits with at most one point between them.

A whole number is written as such a text (`isInteger_repr`), and so is a decimal with all its places
written out, if a whole one is given a point and a zero (`isDecimal_positional`).
-/

namespace UtmTiles
namespace Decimal

/-! ## Digits -/

/-- One or more ASCII digits. -/
structure IsDigits (cs : List Char) : Prop where
  ne_nil : cs ≠ []
  isDigit : ∀ c ∈ cs, '0' ≤ c ∧ c ≤ '9'

theorem areDigits_iff {cs : List Char} : areDigits cs = true ↔ IsDigits cs := by
  simp only [areDigits, Bool.and_eq_true, Bool.not_eq_true', List.isEmpty_eq_false_iff,
    List.all_eq_true, isDigit, decide_eq_true_iff]
  exact ⟨fun ⟨hne, hall⟩ => ⟨hne, hall⟩, fun ⟨hne, hall⟩ => ⟨hne, hall⟩⟩

theorem IsDigits.not_mem {cs : List Char} (h : IsDigits cs) {c : Char} (hc : ¬ ('0' ≤ c ∧ c ≤ '9')) :
    c ∉ cs :=
  fun hmem => hc (h.isDigit c hmem)

theorem IsDigits.append {cs ds : List Char} (hc : IsDigits cs) (hd : ∀ d ∈ ds, '0' ≤ d ∧ d ≤ '9') :
    IsDigits (cs ++ ds) := by
  refine ⟨List.append_ne_nil_of_left_ne_nil hc.ne_nil ds, fun c hmem => ?_⟩
  rcases List.mem_append.1 hmem with hleft | hright
  · exact hc.isDigit c hleft
  · exact hd c hright

theorem ofDigits_append (cs ds : List Char) :
    ofDigits (cs ++ ds) = ofDigits cs * 10 ^ ds.length + ofDigits ds := by
  induction ds using List.reverseRecOn with
  | nil => simp [ofDigits_nil]
  | append_singleton ds d ih =>
    rw [← List.append_assoc, ofDigits_concat, ofDigits_concat, ih, List.length_append,
      List.length_singleton, pow_succ]
    ring

theorem ofDigits_zero_cons (cs : List Char) : ofDigits ('0' :: cs) = ofDigits cs := rfl

theorem ofDigits_zeros (n : ℕ) : ofDigits (List.replicate n '0') = 0 := by
  induction n with
  | zero => rfl
  | succ n ih =>
    rw [List.replicate_succ, ofDigits_zero_cons, ih]

/-- The digits of a number stand for it. -/
theorem ofDigits_toDigits (n : Nat) : ofDigits (Nat.toDigits 10 n) = n :=
  (Nat.ofDigitChars_eq_foldl).symm.trans Nat.ofDigitChars_ten_toDigits

theorem isDigits_toDigits (n : ℕ) : IsDigits (Nat.toDigits 10 n) := by
  refine ⟨List.ne_nil_of_length_pos Nat.length_toDigits_pos, fun c hc => ?_⟩
  have hdigit := Nat.isDigit_of_mem_toDigits (by decide) (by decide) hc
  rw [Char.isDigit, Bool.and_eq_true, decide_eq_true_iff, decide_eq_true_iff] at hdigit
  exact hdigit

/-! ## Whole numbers -/

/-- Digits with an optional minus sign in front, and the number they stand for. -/
inductive IsInteger : List Char → ℤ → Prop
  | digits {ds : List Char} (h : IsDigits ds) : IsInteger ds (ofDigits ds)
  | minus {ds : List Char} (h : IsDigits ds) : IsInteger ('-' :: ds) (-ofDigits ds)

theorem IsInteger.not_mem {cs : List Char} {n : ℤ} (h : IsInteger cs n) {c : Char}
    (hdigit : ¬ ('0' ≤ c ∧ c ≤ '9')) (hminus : c ≠ '-') : c ∉ cs := by
  cases h with
  | digits hds => exact hds.not_mem hdigit
  | minus hds => exact List.not_mem_cons_of_ne_of_not_mem hminus (hds.not_mem hdigit)

theorem isInteger_toDigits (n : ℕ) : IsInteger (Nat.toDigits 10 n) n := by
  have h := IsInteger.digits (isDigits_toDigits n)
  rwa [ofDigits_toDigits] at h

theorem isInteger_repr (n : ℤ) : IsInteger n.repr.toList n := by
  cases n with
  | ofNat m =>
    show IsInteger (Nat.repr m).toList m
    rw [Nat.toList_repr]
    exact isInteger_toDigits m
  | negSucc m =>
    show IsInteger ("-" ++ Nat.repr (m + 1)).toList (-((m + 1 : ℕ) : ℤ))
    rw [String.toList_append, Nat.toList_repr]
    have h := IsInteger.minus (isDigits_toDigits (m + 1))
    rwa [ofDigits_toDigits] at h

/-! ## Decimals -/

/-- Digits with at most one point between them, and the number they stand for. -/
inductive IsDecimal : List Char → ℚ → Prop
  | whole {ds : List Char} (h : IsDigits ds) : IsDecimal ds (ofDigits ds)
  | fraction {ds fs : List Char} (hd : IsDigits ds) (hf : IsDigits fs) :
      IsDecimal (ds ++ '.' :: fs) (ofDigits ds + ofDigits fs / 10 ^ fs.length)

/-- The digits around a point, taken together, with a power of ten. -/
theorem ofDigits_append_mul_zpow (ds fs : List Char) :
    (ofDigits (ds ++ fs) : ℚ) * 10 ^ (-(fs.length : ℤ)) =
      ofDigits ds + ofDigits fs / 10 ^ fs.length := by
  rw [ofDigits_append, zpow_neg, zpow_natCast]
  push_cast
  field_simp

theorem toList_zeros (n : ℕ) : (zeros n).toList = List.replicate n '0' := String.toList_ofList

theorem isDigit_zeros (n : ℕ) : ∀ c ∈ List.replicate n '0', '0' ≤ c ∧ c ≤ '9' := by
  intro c hc
  rw [List.eq_of_mem_replicate hc]
  decide

theorem isDigits_zero : IsDigits ['0'] := ⟨List.cons_ne_nil _ _, isDigit_zeros 1⟩

theorem ofDigits_zero : ofDigits ['0'] = 0 := ofDigits_zeros 1

theorem toList_positional (style : Style) (d : Decimal) : (d.positional style).toList =
    let ds := Nat.toDigits 10 d.digits
    let places : ℤ := ds.length + d.exponent
    if 0 ≤ d.exponent then ds ++ List.replicate d.exponent.toNat '0' ++ style.whole.toList
    else if places ≤ 0 then ['0'] ++ '.' :: (List.replicate (-places).toNat '0' ++ ds)
    else ds.take places.toNat ++ '.' :: ds.drop places.toNat := by
  have hdigits : (toString d.digits).toList = Nat.toDigits 10 d.digits := Nat.toList_repr
  simp only [positional, ← String.length_toList, hdigits]
  split_ifs
  · rw [String.toList_append, String.toList_append, hdigits, toList_zeros]
  · rw [String.toList_append, String.toList_append, hdigits, toList_zeros]
    rfl
  · simp only [String.toList_append, String.toList_ofList, List.append_assoc]
    rfl

/-- A number has no needless zeros in front. -/
def IsTrimmed (cs : List Char) : Prop := cs.head? = some '0' → cs = ['0']

theorem head?_toDigits_ne {n : ℕ} (h : 0 < n) : (Nat.toDigits 10 n).head? ≠ some '0' := by
  induction n using Nat.strongRecOn with
  | ind n ih =>
    rcases lt_or_ge n 10 with hsmall | hlarge
    · rw [Nat.toDigits_of_lt_base hsmall]
      interval_cases n <;> decide
    · rw [Nat.toDigits_of_base_le (by decide) hlarge,
        List.head?_append_of_ne_nil _ Nat.toDigits_ne_nil]
      exact ih (n / 10) (by omega) (by omega)

theorem isTrimmed_toDigits (n : ℕ) : IsTrimmed (Nat.toDigits 10 n) := by
  intro hzero
  rcases Nat.eq_zero_or_pos n with rfl | hpos
  · rfl
  · exact absurd hzero (head?_toDigits_ne hpos)

/-- A decimal with all its places written out is a whole number with a mark or a fraction. -/
theorem positional_cases (style : Style) {d : Decimal} (hpos : 0 < d.digits) :
    (∃ ds, IsDigits ds ∧ IsTrimmed ds ∧
      (d.positional style).toList = ds ++ style.whole.toList ∧
      (ofDigits ds : ℚ) = d.digits * 10 ^ d.exponent) ∨
    ∃ ds fs, IsDigits ds ∧ IsTrimmed ds ∧ IsDigits fs ∧
      (d.positional style).toList = ds ++ '.' :: fs ∧
      (ofDigits ds + ofDigits fs / 10 ^ fs.length : ℚ) = d.digits * 10 ^ d.exponent := by
  have hds := isDigits_toDigits d.digits
  have hvalue := ofDigits_toDigits d.digits
  have hhead := head?_toDigits_ne hpos
  rw [toList_positional]
  generalize Nat.toDigits 10 d.digits = ds at *
  simp only
  split_ifs with hwhole hsmall
  · obtain ⟨k, hk⟩ := Int.eq_ofNat_of_zero_le hwhole
    refine Or.inl ⟨_, hds.append (isDigit_zeros _), fun hzero => absurd hzero ?_, rfl, ?_⟩
    · rwa [List.head?_append_of_ne_nil _ hds.ne_nil]
    · rw [ofDigits_append, ofDigits_zeros, List.length_replicate, hvalue, hk, Int.toNat_natCast,
        zpow_natCast]
      push_cast
      ring
  · refine Or.inr ⟨['0'], _, isDigits_zero, fun _ => rfl, ?_, rfl, ?_⟩
    · refine ⟨List.append_ne_nil_of_right_ne_nil _ hds.ne_nil, fun c hc => ?_⟩
      exact (List.mem_append.1 hc).elim (isDigit_zeros _ c) (hds.isDigit c)
    · have hlength : (ds.length : ℤ) + (-(ds.length + d.exponent)).toNat = -d.exponent := by omega
      rw [← ofDigits_append_mul_zpow, List.length_append, List.length_replicate, Nat.cast_add,
        add_comm _ (ds.length : ℤ), hlength, neg_neg, ofDigits_append, ofDigits_append,
        ofDigits_zero, ofDigits_zeros, zero_mul, zero_add, zero_mul, zero_add, hvalue]
  · have hplaces : 0 < (ds.length + d.exponent).toNat := by omega
    have hless : (ds.length + d.exponent).toNat < ds.length := by omega
    refine Or.inr ⟨_, _, ⟨?_, fun c hc => hds.isDigit c (List.mem_of_mem_take hc)⟩,
      fun hzero => absurd hzero ?_, ⟨?_, fun c hc => hds.isDigit c (List.mem_of_mem_drop hc)⟩,
      rfl, ?_⟩
    · rw [Ne, List.take_eq_nil_iff]
      exact fun h => h.elim hplaces.ne' hds.ne_nil
    · rwa [List.head?_take, if_neg hplaces.ne']
    · rw [Ne, List.drop_eq_nil_iff]
      exact hless.not_ge
    · have hlength : ((ds.length - (ds.length + d.exponent).toNat : ℕ) : ℤ) = -d.exponent := by omega
      rw [← ofDigits_append_mul_zpow, List.length_drop, hlength, neg_neg, List.take_append_drop,
        hvalue]

/-- The style of keys, with a point and a zero after a whole number. -/
theorem isDecimal_positional {d : Decimal} (hpos : 0 < d.digits) :
    IsDecimal (if (d.positional .plain).toList.contains '.' then (d.positional .plain)
      else d.positional .plain ++ ".0").toList (d.digits * 10 ^ d.exponent) := by
  rcases positional_cases .plain hpos with
    ⟨ds, hds, -, htext, hvalue⟩ | ⟨ds, fs, hds, -, hfs, htext, hvalue⟩
  · replace htext : (d.positional .plain).toList = ds := htext.trans (List.append_nil ds)
    have hpoint : ds.contains '.' = false := by
      rw [List.contains_eq_mem, decide_eq_false_iff_not]
      exact hds.not_mem (by decide)
    have hfraction := IsDecimal.fraction hds isDigits_zero
    rw [ofDigits_zero, Nat.cast_zero, zero_div, add_zero] at hfraction
    rw [htext, hpoint, if_neg Bool.false_ne_true, String.toList_append, htext, ← hvalue]
    exact hfraction
  · have hpoint : (ds ++ '.' :: fs).contains '.' = true := by
      rw [List.contains_eq_mem, decide_eq_true_iff]
      exact List.mem_append_right _ List.mem_cons_self
    rw [htext, hpoint, if_pos rfl, htext, ← hvalue]
    exact IsDecimal.fraction hds hfs

end Decimal
end UtmTiles
