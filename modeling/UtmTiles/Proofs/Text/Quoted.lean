import UtmTiles.Text.Quoted
import Mathlib.Data.List.Basic

/-!
# Quoted characters

Between quotes a character stands for itself, or a backslash and what follows it stand for it
(`isWritten_quotedChar`). Plain characters stand for themselves, so what a reader of plain characters
takes from the quoted text is what it takes from the text (`span_quotedTail`).
-/

namespace UtmTiles
namespace Text

/-! ## Characters without a shape -/

/-- Up to the first letter beyond ASCII, the characters without a shape are the controls. -/
theorem isUnseen_iff_of_lt {c : Char} (h : c.toNat < 161) :
    isUnseen c = true ↔ c.toNat < 32 ∨ 127 ≤ c.toNat := by
  obtain ⟨rest, hbounds⟩ : ∃ rest, unseenBounds = 0 :: 32 :: 127 :: 161 :: rest := ⟨_, rfl⟩
  have hlast : decide (161 ≤ c.toNat) = false := decide_eq_false (Nat.not_le.2 h)
  unfold isUnseen
  rw [hbounds]
  rcases Nat.lt_or_ge c.toNat 32 with hlow | hlow
  · have hfirst : decide (32 ≤ c.toNat) = false := decide_eq_false (Nat.not_le.2 hlow)
    simp [List.takeWhile, hfirst, hlow]
  rcases Nat.lt_or_ge c.toNat 127 with hmid | hmid
  · simp [List.takeWhile, hlow, Nat.not_lt.2 hlow, Nat.not_le.2 hmid]
  · simp [List.takeWhile, hlow, hmid, hlast]

theorem isUnseen_of_printable {c : Char} (h : 32 ≤ c.toNat ∧ c.toNat < 127) : isUnseen c = false := by
  refine Bool.eq_false_iff.2 fun hunseen => ?_
  have hcontrol := (isUnseen_iff_of_lt (by omega)).1 hunseen
  omega

/-- A character that stands for itself between quotes. -/
structure IsPlain (c : Char) : Prop where
  seen : isUnseen c = false
  ne_quote : c ≠ '"'
  ne_backslash : c ≠ '\\'

theorem isPlain_of_ascii {c : Char} (hlow : 32 ≤ c.toNat) (hhigh : c.toNat < 127)
    (hquote : c ≠ '"') (hbackslash : c ≠ '\\') : IsPlain c :=
  ⟨isUnseen_of_printable ⟨hlow, hhigh⟩, hquote, hbackslash⟩

theorem IsPlain.code {c : Char} (h : IsPlain c) : 32 ≤ c.toNat ∧ c.toNat ≠ 127 := by
  by_contra hcontrol
  have hunseen : isUnseen c = true := (isUnseen_iff_of_lt (by omega)).2 (by omega)
  exact Bool.false_ne_true (h.seen.symm.trans hunseen)

/-! ## Escapes -/

/-- The characters that are written as a backslash and a letter or mark. -/
def shortEscapes : List (Char × Char) :=
  [('\t', 't'), ('\r', 'r'), ('\n', 'n'), ('"', '"'), ('\\', '\\')]

/-- Characters without a shape have no escape but a code, apart from tabulators and line ends. -/
def IsCoded (c : Char) : Prop := isUnseen c = true ∧ c ≠ '\t' ∧ c ≠ '\n' ∧ c ≠ '\r'

instance (c : Char) : Decidable (IsCoded c) := inferInstanceAs (Decidable (_ ∧ _))

theorem isCoded_zero : IsCoded '\x00' :=
  ⟨(isUnseen_iff_of_lt (by decide)).2 (by decide), by decide, by decide, by decide⟩

theorem not_isCoded_of_mem_shortEscapes {c d : Char} (h : (c, d) ∈ shortEscapes) :
    ¬ IsCoded c := by
  have hescapes : ∀ p ∈ shortEscapes, p.1 = '\t' ∨ p.1 = '\n' ∨ p.1 = '\r' ∨
      32 ≤ p.1.toNat ∧ p.1.toNat < 127 := by simp [shortEscapes]
  rintro ⟨hunseen, htab, hnewline, hreturn⟩
  rcases hescapes _ h with hc | hc | hc | hc
  · exact htab hc
  · exact hnewline hc
  · exact hreturn hc
  · exact absurd hunseen (Bool.eq_false_iff.1 (isUnseen_of_printable hc))

/-- What stands for a character between quotes. -/
inductive IsWritten : Char → List Char → Prop
  | plain {c : Char} (h : IsPlain c) : IsWritten c [c]
  | short {c d : Char} (h : (c, d) ∈ shortEscapes) : IsWritten c ['\\', d]
  | zero : IsWritten '\x00' ['\\', '0']
  | code {c : Char} (h : IsCoded c) :
      IsWritten c ('\\' :: 'u' :: '\x7b' :: codeDigits c.toNat ++ ['\x7d'])

theorem isWritten_quotedChar (c : Char) : IsWritten c (quotedChar c) := by
  unfold quotedChar
  split
  · exact .zero
  · exact .short (by decide)
  · exact .short (by decide)
  · exact .short (by decide)
  · exact .short (by decide)
  · exact .short (by decide)
  · next hzero htab hreturn hnewline hquote hbackslash =>
    split
    · next hunseen => exact .code ⟨hunseen, htab, hnewline, hreturn⟩
    · next hseen => exact .plain ⟨Bool.eq_false_iff.2 hseen, hquote, hbackslash⟩

def hexDigits : List Char :=
  ['0', '1', '2', '3', '4', '5', '6', '7', '8', '9', 'a', 'b', 'c', 'd', 'e', 'f']

theorem mem_codeDigits {n : ℕ} {d : Char} (h : d ∈ codeDigits n) : d ∈ hexDigits := by
  have hdigit : ∀ k < 16, Nat.digitChar k ∈ hexDigits := by decide
  unfold codeDigits at h
  induction n using Nat.strongRecOn with
  | ind n ih =>
    rcases Nat.lt_or_ge n 16 with hsmall | hlarge
    · rw [Nat.toDigits_of_lt_base hsmall, List.mem_singleton] at h
      exact h ▸ hdigit n hsmall
    · rw [Nat.toDigits_of_base_le (by decide) hlarge, List.mem_append, List.mem_singleton] at h
      rcases h with hfront | hlast
      · exact ih (n / 16) (by omega) hfront
      · exact hlast ▸ hdigit _ (Nat.mod_lt n (by decide))

/-- The characters of escapes. -/
def escapeMarks : List Char := ['\\', '0', 't', 'r', 'n', '"', 'u', '\x7b', '\x7d'] ++ hexDigits

/-- What is written for a character has no other characters in it than those of escapes. -/
theorem IsWritten.not_mem {c d : Char} {w : List Char} (hw : IsWritten c w)
    (hd : IsPlain c → d ≠ c) (hmark : d ∉ escapeMarks) : d ∉ w := by
  cases hw with
  | plain h => exact fun hmem => hd h (List.mem_singleton.1 hmem)
  | short h =>
    have hescapes : ∀ p ∈ shortEscapes, ∀ e ∈ ['\\', p.2], e ∈ escapeMarks := by
      simp [shortEscapes, escapeMarks]
    exact fun hmem => hmark (hescapes _ h d hmem)
  | zero =>
    have hmarks : ∀ e ∈ ['\\', '0'], e ∈ escapeMarks := by simp [escapeMarks]
    exact fun hmem => hmark (hmarks d hmem)
  | code =>
    intro hmem
    simp only [List.cons_append, List.mem_cons, List.mem_append, List.not_mem_nil, or_false] at hmem
    rcases hmem with rfl | rfl | rfl | hmem | rfl
    · exact hmark (by decide)
    · exact hmark (by decide)
    · exact hmark (by decide)
    · exact hmark (List.mem_append_right _ (mem_codeDigits hmem))
    · exact hmark (by decide)

/-! ## Quoted texts -/

/-- A text between quotes without the opening quote, and what follows it. -/
def quotedTail (cs rest : List Char) : List Char := cs.flatMap quotedChar ++ '"' :: rest

theorem toList_quoted_append (s : String) (rest : List Char) :
    (quoted s).toList ++ rest = '"' :: quotedTail s.toList rest := by
  rw [quoted, String.toList_ofList]
  show '"' :: (s.toList.flatMap quotedChar ++ ['"'] ++ rest) = _
  rw [List.append_assoc]
  rfl

theorem quotedTail_cons (c : Char) (cs rest : List Char) :
    quotedTail (c :: cs) rest = quotedChar c ++ quotedTail cs rest := by
  rw [quotedTail, List.flatMap_cons, List.append_assoc]
  rfl

theorem not_mem_quotedTail {d : Char} {cs rest : List Char} (hd : ¬ IsPlain d)
    (hmark : d ∉ escapeMarks) (hrest : d ∉ rest) : d ∉ quotedTail cs rest := by
  rw [quotedTail, List.mem_append, not_or, List.mem_flatMap, List.mem_cons, not_or]
  refine ⟨?_, fun hquote => hmark (hquote ▸ by decide), hrest⟩
  rintro ⟨c, -, hmem⟩
  refine (isWritten_quotedChar c).not_mem ?_ hmark hmem
  rintro hc rfl
  exact hd hc

theorem quotedChar_of_isPlain {c : Char} (h : IsPlain c) : quotedChar c = [c] := by
  have hwritten := isWritten_quotedChar c
  generalize quotedChar c = w at hwritten
  cases hwritten with
  | plain => rfl
  | short hescape =>
    have hescapes : ∀ p ∈ shortEscapes, p.1.toNat < 32 ∨ p.1 = '"' ∨ p.1 = '\\' := by
      simp [shortEscapes]
    rcases hescapes _ hescape with hcontrol | hquote | hbackslash
    · exact absurd h.code.1 (Nat.not_le.2 hcontrol)
    · exact absurd hquote h.ne_quote
    · exact absurd hbackslash h.ne_backslash
  | zero => exact absurd h.code.1 (by decide)
  | code hcoded => exact absurd (h.seen.symm.trans hcoded.1) Bool.false_ne_true

theorem flatMap_quotedChar_of_isPlain {cs : List Char} (h : ∀ c ∈ cs, IsPlain c) :
    cs.flatMap quotedChar = cs := by
  induction cs with
  | nil => rfl
  | cons c cs ih =>
    rw [List.forall_mem_cons] at h
    rw [List.flatMap_cons, quotedChar_of_isPlain h.1, ih h.2]
    rfl

theorem quotedTail_of_isPlain {c : Char} (h : IsPlain c) (cs rest : List Char) :
    quotedTail (c :: cs) rest = c :: quotedTail cs rest := by
  rw [quotedTail_cons, quotedChar_of_isPlain h]
  rfl

/-- What is written for another character than a plain one starts with a backslash. -/
theorem head?_quotedChar_of_not_isPlain {c : Char} (h : ¬ IsPlain c) :
    (quotedChar c).head? = some '\\' := by
  have hwritten := isWritten_quotedChar c
  generalize quotedChar c = w at hwritten
  cases hwritten with
  | plain hplain => exact absurd hplain h
  | short => rfl
  | zero => rfl
  | code => rfl

theorem head?_quotedTail_cons_of_not_isPlain {c : Char} (h : ¬ IsPlain c) (cs rest : List Char) :
    (quotedTail (c :: cs) rest).head? = some '\\' := by
  rw [quotedTail_cons, List.head?_append, head?_quotedChar_of_not_isPlain h]
  rfl

theorem head?_quotedTail_cons_ne_quote (c : Char) (cs rest : List Char) :
    (quotedTail (c :: cs) rest).head? ≠ some '"' := by
  by_cases hplain : IsPlain c
  · rw [quotedTail_of_isPlain hplain]
    exact fun h => hplain.ne_quote (Option.some.inj h)
  · rw [head?_quotedTail_cons_of_not_isPlain hplain]
    decide

/-- The quoted text goes on with a plain character exactly if the text does. -/
theorem head?_quotedTail {d : Char} (hd : IsPlain d) (cs rest : List Char) :
    (quotedTail cs rest).head? = some d ↔ cs.head? = some d := by
  cases cs with
  | nil => exact iff_of_false (fun h => hd.ne_quote (Option.some.inj h).symm) (nomatch ·)
  | cons c cs =>
    by_cases hplain : IsPlain c
    · rw [quotedTail_of_isPlain hplain]
      rfl
    · rw [head?_quotedTail_cons_of_not_isPlain hplain]
      refine iff_of_false (fun h => hd.ne_backslash (Option.some.inj h).symm) fun h => ?_
      exact hplain (Option.some.inj h ▸ hd)

/-- A reader of plain characters stops in the quoted text where it stops in the text. -/
theorem span_quotedTail {p : Char → Bool} (hp : ∀ c, p c = true → IsPlain c)
    (cs rest : List Char) : (quotedTail cs rest).takeWhile p = cs.takeWhile p ∧
      (quotedTail cs rest).dropWhile p = quotedTail (cs.dropWhile p) rest := by
  induction cs with
  | nil =>
    have hquote : ¬ p '"' = true := fun h => (hp _ h).ne_quote rfl
    exact ⟨List.takeWhile_cons_of_neg hquote, List.dropWhile_cons_of_neg hquote⟩
  | cons c cs ih =>
    by_cases hc : p c = true
    · rw [quotedTail_of_isPlain (hp c hc), List.takeWhile_cons_of_pos hc,
        List.takeWhile_cons_of_pos hc, List.dropWhile_cons_of_pos hc, List.dropWhile_cons_of_pos hc,
        ih.1, ih.2]
      exact ⟨rfl, rfl⟩
    · rw [List.takeWhile_cons_of_neg hc, List.dropWhile_cons_of_neg hc]
      -- The quoted text starts with `c` or with a backslash, neither of which the reader takes.
      cases htail : quotedTail (c :: cs) rest with
      | nil => exact ⟨rfl, rfl⟩
      | cons d ds =>
        have hd : ¬ p d = true := fun hpd =>
          have hhead := (head?_quotedTail (hp d hpd) (c :: cs) rest).1 (htail ▸ rfl)
          hc (Option.some.inj hhead ▸ hpd)
        exact ⟨List.takeWhile_cons_of_neg hd, List.dropWhile_cons_of_neg hd⟩

end Text
end UtmTiles
