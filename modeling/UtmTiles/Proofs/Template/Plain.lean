import UtmTiles.Proofs.Text.Quoted
import UtmTiles.Template.Render

/-!
# Texts without tags

A template in which no tag starts stands for itself, whatever the variables are
(`render_of_isTagFree`). Quoting a text starts no tag: the only brackets it adds are those of codes,
and a digit follows them (`isTagFree_quotedTail`).
-/

namespace UtmTiles
namespace Template

open Text (quotedTail quotedTail_cons IsPlain IsWritten)

/-- No tag starts anywhere in a text. -/
def IsTagFree (cs : List Char) : Prop := (splitText cs).2 = []

instance (cs : List Char) : Decidable (IsTagFree cs) := inferInstanceAs (Decidable (_ = _))

/-- After an opening brace these characters make it the bracket of a tag. -/
def isTagMark (c : Char) : Bool := c = '\x7b' || c = '%' || c = '#'

theorem isTagFree_nil : IsTagFree [] := rfl

theorem isTagFree_cons {c : Char} {cs : List Char} :
    IsTagFree (c :: cs) ↔
      ¬ (c = '\x7b' ∧ ∃ d ∈ cs.head?, isTagMark d = true) ∧ IsTagFree cs := by
  have hmark : (∃ d ∈ cs.head?, isTagMark d = true) ↔
      cs.head? = some '\x7b' ∨ cs.head? = some '%' ∨ cs.head? = some '#' := by
    cases cs.head? with
    | none => simp
    | some d => simp [isTagMark, or_assoc]
  rw [hmark, IsTagFree, IsTagFree, splitText]
  split
  · next htag =>
    exact iff_of_false (List.cons_ne_nil _ _) fun h => h.1 htag
  · next htag => exact (and_iff_right htag).symm

theorem isTagFree_cons_of_ne {c : Char} (hc : c ≠ '\x7b') {cs : List Char} :
    IsTagFree (c :: cs) ↔ IsTagFree cs :=
  isTagFree_cons.trans (and_iff_right fun h => hc h.1)

theorem isTagFree_append {cs rest : List Char} (hcs : '\x7b' ∉ cs) :
    IsTagFree (cs ++ rest) ↔ IsTagFree rest := by
  induction cs with
  | nil => rfl
  | cons c cs ih =>
    rw [List.mem_cons, not_or] at hcs
    rw [List.cons_append, isTagFree_cons_of_ne (Ne.symm hcs.1), ih hcs.2]

theorem isTagFree_of_not_mem {cs : List Char} (hcs : '\x7b' ∉ cs) : IsTagFree cs := by
  rw [← List.append_nil cs]
  exact (isTagFree_append hcs).2 isTagFree_nil

/-! ## Filling in -/

theorem splitText_append (cs : List Char) : (splitText cs).1 ++ (splitText cs).2 = cs := by
  induction cs with
  | nil => rfl
  | cons c cs ih =>
    rw [splitText]
    split
    · rfl
    · exact congrArg (c :: ·) ih

theorem read_of_isTagFree {text : String} (h : IsTagFree text.toList) :
    read text = .ok [.text text.toList] := by
  have hsplit : splitText text.toList = (text.toList, []) := by
    have happend := splitText_append text.toList
    rw [show (splitText text.toList).2 = [] from h, List.append_nil] at happend
    exact Prod.ext happend h
  have hparts : parts? (text.toList.length + 1) false text.toList =
      some [.text text.toList] := by
    rw [parts?, hsplit]
    rfl
  rw [read, hparts]
  rfl

/-- A template without tags stands for itself. -/
theorem render_of_isTagFree (escape : Bool) (env : Variables) {text : String}
    (h : IsTagFree text.toList) : render escape env text = .ok text := by
  rw [render, read_of_isTagFree h]
  show Except.ok (String.ofList (text.toList ++ [])) = _
  rw [List.append_nil, String.ofList_toList]

/-! ## Quoted texts -/

theorem isPlain_of_isTagMark {c : Char} (h : isTagMark c = true) : IsPlain c := by
  simp only [isTagMark, Bool.or_eq_true, decide_eq_true_iff] at h
  rcases h with (rfl | rfl) | rfl
  · exact Text.isPlain_of_ascii (by decide) (by decide) (by decide) (by decide)
  · exact Text.isPlain_of_ascii (by decide) (by decide) (by decide) (by decide)
  · exact Text.isPlain_of_ascii (by decide) (by decide) (by decide) (by decide)

/-- What stands for a character starts no tag, unless the character does. -/
theorem isTagFree_isWritten {c : Char} {w cs : List Char} (hw : IsWritten c w)
    (hc : ¬ (c = '\x7b' ∧ ∃ d ∈ cs.head?, isTagMark d = true)) (hcs : IsTagFree cs) :
    IsTagFree (w ++ cs) := by
  cases hw with
  | plain => exact isTagFree_cons.2 ⟨hc, hcs⟩
  | short h =>
    have hescapes : ∀ p ∈ Text.shortEscapes, '\x7b' ∉ ['\\', p.2] := by simp [Text.shortEscapes]
    exact (isTagFree_append (hescapes _ h)).2 hcs
  | zero => exact (isTagFree_append (by decide)).2 hcs
  | code =>
    have hdigits : ∀ d ∈ Text.hexDigits, isTagMark d = false := by
      simp [Text.hexDigits, isTagMark]
    have hdigit {d : Char} (hd : d ∈ Text.codeDigits c.toNat) : isTagMark d = false :=
      hdigits d (Text.mem_codeDigits hd)
    have hbrace : '\x7b' ∉ Text.codeDigits c.toNat := fun hmem =>
      Bool.false_ne_true (hdigit hmem).symm
    have hend : IsTagFree ('\x7d' :: cs) := (isTagFree_cons_of_ne (by decide)).2 hcs
    show IsTagFree ('\\' :: 'u' :: '\x7b' :: (Text.codeDigits c.toNat ++ ['\x7d'] ++ cs))
    rw [isTagFree_cons_of_ne (by decide), isTagFree_cons_of_ne (by decide), isTagFree_cons,
      List.append_assoc, isTagFree_append hbrace]
    -- The brace that the code adds stands before a digit, which makes no tag of it.
    refine ⟨?_, hend⟩
    rintro ⟨-, d, hd, hmark⟩
    cases hdigits : Text.codeDigits c.toNat with
    | nil =>
      rw [hdigits] at hd
      exact absurd (Option.mem_some.1 hd ▸ hmark) (by decide)
    | cons e es =>
      rw [hdigits] at hd
      have he := hdigit (hdigits ▸ List.mem_cons_self : e ∈ Text.codeDigits c.toNat)
      rw [Option.mem_some.1 hd, hmark] at he
      exact Bool.false_ne_true he.symm

/-- Quoting a text without tags gives one. -/
theorem isTagFree_quotedTail {cs rest : List Char} (hcs : IsTagFree cs) (hrest : IsTagFree rest) :
    IsTagFree (quotedTail cs rest) := by
  induction cs with
  | nil => exact (isTagFree_cons_of_ne (by decide)).2 hrest
  | cons c cs ih =>
    rw [isTagFree_cons] at hcs
    rw [quotedTail_cons]
    refine isTagFree_isWritten (Text.isWritten_quotedChar c) ?_ (ih hcs.2)
    rintro ⟨hbrace, d, hd, hmark⟩
    exact hcs.1 ⟨hbrace, d, (Text.head?_quotedTail (isPlain_of_isTagMark hmark) cs rest).1 hd, hmark⟩

end Template
end UtmTiles
