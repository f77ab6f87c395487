import UtmTiles.Proofs.Text.Quoted
import UtmTiles.Proofs.Text.Run
import UtmTiles.Toml.Lexer

/-!
# Tokens of written texts

Words and marks are taken off a text as they stand there (`next_word`). A quoted text is taken off as
the string that was quoted, if all its characters have an escape in TOML; otherwise it is a fault
(`next_quoted`, `next_quoted_of_isCoded`).
-/

namespace UtmTiles
namespace Toml

open Text (quotedTail quotedTail_cons IsPlain IsWritten IsCoded)

/-! ## Lines -/

theorem fold_of_not_mem {cs : List Char} (h : '\r' ∉ cs) : lines.fold cs = cs := by
  induction cs with
  | nil => rfl
  | cons c cs ih =>
    rw [List.mem_cons, not_or] at h
    have hfold : lines.fold (c :: cs) = c :: lines.fold cs := by
      rw [lines.fold.eq_def]
      split
      · next heq => exact absurd (List.cons.inj heq).1.symm h.1
      · next heq => cases heq; rfl
      · contradiction
    rw [hfold, ih h.2]

/-- A text without carriage returns and without a byte order mark is left as it is. -/
theorem lines_of_not_mem {cs : List Char} (hmark : cs.head? ≠ some '\uFEFF') (h : '\r' ∉ cs) :
    lines cs = cs := by
  rw [lines.eq_def]
  split
  · exact absurd rfl hmark
  · exact fold_of_not_mem h

/-! ## Strings -/

theorem isStringChar_of_isPlain {c : Char} (h : IsPlain c) : isStringChar c = true := by
  have hcode := h.code
  simp only [isStringChar, Bool.or_eq_true, Bool.and_eq_true, decide_eq_true_iff, bne_iff_ne]
  exact Or.inr hcode

/-- What stands for a character with an escape in TOML is taken for that character. -/
theorem stringRest_of_isWritten {c : Char} {w : List Char} (hw : IsWritten c w) (hc : ¬ IsCoded c)
    (fuel : ℕ) (rest done : List Char) :
    stringRest '"' false (fuel + 1) (w ++ rest) done = stringRest '"' false fuel rest (c :: done) := by
  cases hw with
  | plain h =>
    have hnewline : c ≠ '\n' := by
      rintro rfl
      exact absurd h.code.1 (by decide)
    rw [List.singleton_append, stringRest, if_neg hnewline, if_neg h.ne_quote,
      if_neg fun hescape => h.ne_backslash hescape.1, if_pos (isStringChar_of_isPlain h)]
  | short h =>
    simp only [Text.shortEscapes, List.mem_cons, Prod.mk.injEq, List.not_mem_nil, or_false] at h
    rcases h with ⟨rfl, rfl⟩ | ⟨rfl, rfl⟩ | ⟨rfl, rfl⟩ | ⟨rfl, rfl⟩ | ⟨rfl, rfl⟩ <;> rfl
  | zero => exact absurd Text.isCoded_zero hc
  | code h => exact absurd h hc

/-- Escapes of Unicode characters have no braces in TOML, and there is none of a digit. -/
theorem stringRest_of_isCoded {c : Char} {w : List Char} (hw : IsWritten c w) (hc : IsCoded c)
    (fuel : ℕ) (rest done : List Char) :
    ∃ fault, stringRest '"' false (fuel + 1) (w ++ rest) done = .error fault := by
  cases hw with
  | plain h => exact absurd (h.seen.symm.trans hc.1) Bool.false_ne_true
  | short h => exact absurd hc (Text.not_isCoded_of_mem_shortEscapes h)
  | zero => exact ⟨_, rfl⟩
  | code h => exact ⟨_, rfl⟩

/-- A step is taken for each character of the text, however long its escape is. -/
theorem stringRest_quotedTail {cs : List Char} (hcs : ∀ c ∈ cs, ¬ IsCoded c) {fuel : ℕ}
    (hfuel : cs.length < fuel) (rest done : List Char) :
    stringRest '"' false fuel (quotedTail cs rest) done = .ok (done.reverse ++ cs, rest) := by
  obtain ⟨fuel, rfl⟩ := Nat.exists_eq_add_one_of_ne_zero (Nat.ne_zero_of_lt hfuel)
  induction cs generalizing fuel done with
  | nil =>
    rw [List.append_nil]
    rfl
  | cons c cs ih =>
    rw [List.length_cons, Nat.add_lt_add_iff_right] at hfuel
    obtain ⟨fuel, rfl⟩ := Nat.exists_eq_add_one_of_ne_zero (Nat.ne_zero_of_lt hfuel)
    rw [quotedTail_cons, stringRest_of_isWritten (Text.isWritten_quotedChar c)
      (hcs c List.mem_cons_self), ih (fun d hd => hcs d (List.mem_cons_of_mem c hd)) _ _ hfuel,
      List.reverse_cons, List.append_assoc]
    rfl

theorem stringRest_quotedTail_of_isCoded {cs : List Char} (hcs : ∃ c ∈ cs, IsCoded c) {fuel : ℕ}
    (hfuel : cs.length < fuel) (rest done : List Char) :
    ∃ fault, stringRest '"' false fuel (quotedTail cs rest) done = .error fault := by
  obtain ⟨fuel, rfl⟩ := Nat.exists_eq_add_one_of_ne_zero (Nat.ne_zero_of_lt hfuel)
  induction cs generalizing fuel done with
  | nil => exact absurd hcs (by simp)
  | cons c cs ih =>
    rw [List.length_cons, Nat.add_lt_add_iff_right] at hfuel
    rw [quotedTail_cons]
    by_cases hc : IsCoded c
    · exact stringRest_of_isCoded (Text.isWritten_quotedChar c) hc fuel _ done
    · obtain ⟨fuel, rfl⟩ := Nat.exists_eq_add_one_of_ne_zero (Nat.ne_zero_of_lt hfuel)
      rw [stringRest_of_isWritten (Text.isWritten_quotedChar c) hc]
      refine ih ?_ _ _ hfuel
      obtain ⟨d, hd, hcoded⟩ := hcs
      rcases List.mem_cons.1 hd with rfl | hd
      · exact absurd hcoded hc
      · exact ⟨d, hd, hcoded⟩

theorem length_lt_length_quotedTail (cs rest : List Char) :
    cs.length < (quotedTail cs rest).length := by
  induction cs with
  | nil => exact Nat.zero_lt_succ _
  | cons c cs ih =>
    rw [quotedTail_cons, List.length_append, List.length_cons]
    have hwritten : 0 < (Text.quotedChar c).length := by
      have hw := Text.isWritten_quotedChar c
      generalize Text.quotedChar c = w at hw
      cases hw <;> exact Nat.zero_lt_succ _
    omega

/-- A quoted text is one string, which its line goes on after. -/
theorem quotedToken_quotedTail (cs : List Char) {rest : List Char} (hrest : rest.head? ≠ some '"') :
    quotedToken '"' (quotedTail cs rest) =
      (stringRest '"' false ((quotedTail cs rest).length + 1) (quotedTail cs rest) []).map
        fun (value, rest) => (.string (String.ofList value) false, rest) := by
  cases cs with
  | nil =>
    have hempty : quotedToken '"' ('"' :: rest) = .ok (.string "" false, rest) := by
      rw [quotedToken, if_pos List.head?_cons, List.tail_cons, if_neg hrest]
    exact hempty
  | cons c cs => rw [quotedToken, if_neg (Text.head?_quotedTail_cons_ne_quote c cs rest)]

theorem next_quoted {cs : List Char} (hcs : ∀ c ∈ cs, ¬ IsCoded c) {rest : List Char}
    (hrest : rest.head? ≠ some '"') : Token.next ('"' :: quotedTail cs rest) =
      .ok (some (.string (String.ofList cs) false, rest)) := by
  have hfuel := Nat.lt_succ_of_lt (length_lt_length_quotedTail cs rest)
  show (quotedToken '"' (quotedTail cs rest)).map some = _
  rw [quotedToken_quotedTail cs hrest, stringRest_quotedTail hcs hfuel]
  rfl

theorem next_quoted_of_isCoded {cs : List Char} (hcs : ∃ c ∈ cs, IsCoded c) {rest : List Char}
    (hrest : rest.head? ≠ some '"') :
    ∃ fault, Token.next ('"' :: quotedTail cs rest) = .error fault := by
  have hfuel := Nat.lt_succ_of_lt (length_lt_length_quotedTail cs rest)
  obtain ⟨fault, hfault⟩ := stringRest_quotedTail_of_isCoded hcs hfuel rest []
  refine ⟨fault, ?_⟩
  show (quotedToken '"' (quotedTail cs rest)).map some = _
  rw [quotedToken_quotedTail cs hrest, hfault]
  rfl

/-! ## Words -/

/-- A text of letters, digits, hyphens and underscores. -/
structure IsWord (cs : List Char) : Prop where
  ne_nil : cs ≠ []
  isWordChar : ∀ c ∈ cs, isWordChar c = true

theorem isWord_iff {cs : List Char} : (!cs.isEmpty && cs.all isWordChar) = true ↔ IsWord cs := by
  rw [Bool.and_eq_true, Bool.not_eq_true', List.isEmpty_eq_false_iff, List.all_eq_true]
  exact ⟨fun h => ⟨h.1, h.2⟩, fun h => ⟨h.1, h.2⟩⟩

instance (cs : List Char) : Decidable (IsWord cs) := decidable_of_iff _ isWord_iff

/-- What stands behind a word does not go on with it. -/
def EndsWord : List Char → Prop := Text.EndsRun isWordChar

theorem isBlank_of_isWordChar {c : Char} (hc : isWordChar c = true) : isBlank c = false := by
  rw [isBlank, Bool.or_eq_false_iff, decide_eq_false_iff_not, decide_eq_false_iff_not]
  refine ⟨?_, ?_⟩
  · rintro rfl
    exact absurd hc (by decide)
  · rintro rfl
    exact absurd hc (by decide)

theorem next_of_isWordChar {c : Char} (hc : isWordChar c = true) (cs : List Char) :
    Token.next (c :: cs) = .ok (some (.word (c :: cs.takeWhile isWordChar), cs.dropWhile isWordChar)) := by
  have hmark {d : Char} {ds : List Char} (hd : isWordChar d = false) : c :: cs ≠ d :: ds :=
    fun heq => Bool.false_ne_true (hd.symm.trans ((List.cons.inj heq).1 ▸ hc))
  have hblank := isBlank_of_isWordChar hc
  -- All the cases but the last are of marks, and `c` is none of them.
  rw [Token.next.eq_def]
  split
  case h_1 => contradiction
  case h_15 heq =>
    cases heq
    rw [hblank, hc]
    rfl
  all_goals
    next heq => exact absurd heq (hmark (by decide))

theorem next_word {w rest : List Char} (hw : IsWord w) (hrest : EndsWord rest) :
    Token.next (w ++ rest) = .ok (some (.word w, rest)) := by
  obtain ⟨hne, hchars⟩ := hw
  obtain _ | ⟨c, cs⟩ := w
  · exact absurd rfl hne
  have hcs : ∀ d ∈ cs, isWordChar d = true := fun d hd => hchars d (List.mem_cons_of_mem c hd)
  rw [List.cons_append, next_of_isWordChar (hchars c List.mem_cons_self),
    Text.takeWhile_run hcs hrest, Text.dropWhile_run hcs hrest]

end Toml
end UtmTiles
