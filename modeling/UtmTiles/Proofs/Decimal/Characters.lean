import Mathlib.Data.List.TakeWhile
import UtmTiles.Decimal.Reader
import UtmTiles.Proofs.Text.Run
import UtmTiles.Text.Blank

/-!
# The characters of literals

A text that is read as a double has digits, signs, points and the letters of `e` and of the names of
doubles, and nothing else (`isLiteralChar_of_read?`). So it holds neither white space nor commas, and
survives being put between them (`trim_padded_of_read?`).
-/

namespace UtmTiles
namespace Decimal

/-- A character that literals are made of. -/
def IsLiteralChar (c : Char) : Prop := isDigit c = true ∨ c.toLower ∈ "+-.einftya".toList

theorem toLower_of_isBlank {c : Char} (h : Text.isBlank c = true) : c.toLower = c := by
  refine dif_neg fun hupper => ?_
  have hlow : 65 ≤ c.toNat := hupper.1
  have hhigh : c.toNat ≤ 90 := hupper.2
  simp only [Text.isBlank, Bool.or_eq_true, Bool.and_eq_true, decide_eq_true_eq, beq_iff_eq] at h
  omega

theorem not_isBlank_of_isDigit {c : Char} (h : isDigit c = true) : Text.isBlank c = false := by
  obtain ⟨hlow, hhigh⟩ := of_decide_eq_true h
  have hlow : 48 ≤ c.toNat := hlow
  have hhigh : c.toNat ≤ 57 := hhigh
  simp only [Text.isBlank, Bool.or_eq_false_iff, Bool.and_eq_false_iff, decide_eq_false_iff_not,
    beq_eq_false_iff_ne]
  omega

/-- No white space is part of a literal. -/
theorem IsLiteralChar.not_isBlank {c : Char} (h : IsLiteralChar c) : Text.isBlank c = false := by
  rcases h with hdigit | hletter
  · exact not_isBlank_of_isDigit hdigit
  · refine Bool.eq_false_iff.2 fun hblank => ?_
    rw [toLower_of_isBlank hblank] at hletter
    have hnone : ("+-.einftya".toList.all fun d => !Text.isBlank d) = true := by decide
    have hnot := List.all_eq_true.1 hnone c hletter
    rw [hblank] at hnot
    cases hnot

theorem not_isLiteralChar_comma : ¬ IsLiteralChar ',' := by
  unfold IsLiteralChar
  decide

/-! ## Parts of a literal -/

theorem isLiteralChar_of_mem_name {cs : List Char} {name : String}
    (hname : name.toList ⊆ "+-.einftya".toList)
    (h : String.ofList (cs.map Char.toLower) = name) : ∀ c ∈ cs, IsLiteralChar c := by
  intro c hc
  refine Or.inr (hname ?_)
  rw [← h, String.toList_ofList]
  exact List.mem_map_of_mem hc

theorem mem_of_splitSign {cs : List Char} {c : Char} (hc : c ∈ cs) :
    IsLiteralChar c ∨ c ∈ (splitSign cs).2 := by
  unfold splitSign
  split
  · rcases List.mem_cons.1 hc with rfl | hrest
    · exact Or.inl (Or.inr (by decide))
    · exact Or.inr hrest
  · rcases List.mem_cons.1 hc with rfl | hrest
    · exact Or.inl (Or.inr (by decide))
    · exact Or.inr hrest
  · exact Or.inr hc

theorem mem_of_spanDigits {cs : List Char} {c : Char} (hc : c ∈ cs) :
    IsLiteralChar c ∨ c ∈ (spanDigits cs).2 := by
  rw [← spanDigits_append cs] at hc
  exact (List.mem_append.1 hc).imp_left fun hdigit => Or.inl (List.mem_takeWhile_imp hdigit)

/-- Behind the digits there may be a point with digits. -/
theorem mem_of_mantissa? {cs whole fraction rest : List Char} {c : Char}
    (h : mantissa? cs = some (whole, fraction, rest)) (hc : c ∈ cs) :
    IsLiteralChar c ∨ c ∈ rest := by
  rcases mem_of_spanDigits hc with hdigit | hbehind
  · exact Or.inl hdigit
  · unfold mantissa? at h
    generalize spanDigits cs = span at h hbehind
    obtain ⟨digits, behind⟩ := span
    dsimp only at h hbehind
    split at h
    · next fs =>
      rcases List.mem_cons.1 hbehind with rfl | hfraction
      · exact Or.inl (Or.inr (by decide))
      · split at h
        · cases h
        · cases h
          exact mem_of_spanDigits hfraction
    · split at h
      · cases h
      · cases h
        exact Or.inr hbehind

theorem isLiteralChar_of_exponent? {cs : List Char} {e : Int} (h : exponent? cs = some e) :
    ∀ c ∈ cs, IsLiteralChar c := by
  intro c hc
  cases cs with
  | nil => cases hc
  | cons mark cs =>
    rw [exponent?] at h
    split at h
    · next hmark =>
      rcases List.mem_cons.1 hc with rfl | hpower
      · rcases hmark with rfl | rfl
        · exact Or.inr (by decide)
        · exact Or.inr (by decide)
      · dsimp only at h
        split at h
        · next hdigits =>
          rw [areDigits, Bool.and_eq_true, List.all_eq_true] at hdigits
          exact (mem_of_splitSign hpower).elim id fun hdigit => Or.inl (hdigits.2 c hdigit)
        · cases h
    · cases h

/-! ## Literals -/

theorem isLiteralChar_of_unsigned? {negative : Bool} {cs : List Char} {x : Float}
    (h : unsigned? negative cs = some x) : ∀ c ∈ cs, IsLiteralChar c := by
  unfold unsigned? at h
  dsimp only at h
  split at h
  · next hname =>
    rcases hname with hname | hname
    · exact isLiteralChar_of_mem_name (by decide) hname
    · exact isLiteralChar_of_mem_name (by decide) hname
  · split at h
    · next hname => exact isLiteralChar_of_mem_name (by decide) hname
    · obtain ⟨⟨whole, fraction, rest⟩, hmantissa, h⟩ := Option.bind_eq_some_iff.1 h
      obtain ⟨e, hexponent, -⟩ := Option.bind_eq_some_iff.1 h
      intro c hc
      exact (mem_of_mantissa? hmantissa hc).elim id (isLiteralChar_of_exponent? hexponent c)

theorem isLiteralChar_of_read? {text : String} {x : Float} (h : read? text = some x) :
    ∀ c ∈ text.toList, IsLiteralChar c :=
  fun c hc => (mem_of_splitSign hc).elim id (isLiteralChar_of_unsigned? h c)

theorem ne_nil_of_read? {cs : List Char} {x : Float} (h : read? (String.ofList cs) = some x) :
    cs ≠ [] := by
  rintro rfl
  have hnone : read? (String.ofList []) = none := by decide
  rw [hnone] at h
  cases h

/-- A literal is what is left of it when white space around it is taken away. -/
theorem trim_padded_of_read? {before cs after : List Char} {x : Float}
    (hbefore : ∀ c ∈ before, Text.isBlank c = true) (hafter : ∀ c ∈ after, Text.isBlank c = true)
    (h : read? (String.ofList cs) = some x) : Text.trim (before ++ cs ++ after) = cs := by
  refine Text.trim_padded hbefore hafter (ne_nil_of_read? h) fun c hc => ?_
  exact (isLiteralChar_of_read? h c (by rwa [String.toList_ofList])).not_isBlank

theorem comma_not_mem_of_read? {cs : List Char} {x : Float}
    (h : read? (String.ofList cs) = some x) : ',' ∉ cs := fun hc =>
  not_isLiteralChar_comma (isLiteralChar_of_read? h ',' (by rwa [String.toList_ofList]))

end Decimal
end UtmTiles
