import UtmTiles.Config.Reader
import UtmTiles.Proofs.Text.Quoted

/-!
# Variables in the old syntax

A quoted text has a variable in the old syntax exactly if the text has one
(`hasOldVariable_quotedTail`): dollar signs, braces and names stand for themselves between quotes, and
nothing that is written for other characters has a dollar sign in it.
-/

namespace UtmTiles
namespace Config

open Text (quotedTail quotedTail_cons quotedTail_of_isPlain IsPlain IsWritten)

theorem isPlain_of_isNameChar (c : Char) (h : isNameChar c = true) : IsPlain c := by
  have hcode : 48 ≤ c.toNat ∧ c.toNat ≤ 122 ∧ c.toNat ≠ 92 := by
    have hrange {low high : Char} (hc : low ≤ c ∧ c ≤ high) :
        low.toNat ≤ c.toNat ∧ c.toNat ≤ high.toNat := hc
    have hletters : 'A'.toNat = 65 ∧ 'Z'.toNat = 90 ∧ 'a'.toNat = 97 ∧ 'z'.toNat = 122 ∧
      '0'.toNat = 48 ∧ '9'.toNat = 57 := by decide
    rw [isNameChar, Bool.or_eq_true] at h
    rcases h with hletter | hdigit
    · rcases Bool.or_eq_true_iff.1 hletter with hupper | hlower
      · have hbounds : 'A' ≤ c ∧ c ≤ 'Z' := of_decide_eq_true hupper
        have := hrange hbounds
        omega
      · have hbounds : 'a' ≤ c ∧ c ≤ 'z' :=
          (Bool.and_eq_true_iff.1 hlower).imp of_decide_eq_true of_decide_eq_true
        have := hrange hbounds
        omega
    · have hbounds : '0' ≤ c ∧ c ≤ '9' := of_decide_eq_true hdigit
      have := hrange hbounds
      omega
  refine Text.isPlain_of_ascii (by omega) (by omega) ?_ ?_
  · rintro rfl
    exact absurd hcode.1 (by decide)
  · rintro rfl
    exact hcode.2.2 rfl

/-- A character starts no variable, unless it is a dollar sign before a brace. -/
theorem hasOldVariable_cons {c : Char} {cs : List Char}
    (h : ¬ (c = '$' ∧ cs.head? = some '\x7b')) : hasOldVariable (c :: cs) = hasOldVariable cs := by
  rw [hasOldVariable.eq_def]
  split
  · contradiction
  · next heq =>
    cases heq
    split
    · next heq =>
      obtain ⟨hdollar, htail⟩ := List.cons.inj heq
      exact absurd ⟨hdollar, congrArg List.head? htail⟩ h
    · exact Bool.false_or _

theorem hasOldVariable_cons_of_ne {c : Char} (hc : c ≠ '$') (cs : List Char) :
    hasOldVariable (c :: cs) = hasOldVariable cs :=
  hasOldVariable_cons fun h => hc h.1

theorem hasOldVariable_append {cs : List Char} (hcs : '$' ∉ cs) (rest : List Char) :
    hasOldVariable (cs ++ rest) = hasOldVariable rest := by
  induction cs with
  | nil => rfl
  | cons c cs ih =>
    rw [List.mem_cons, not_or] at hcs
    rw [List.cons_append, hasOldVariable_cons_of_ne (Ne.symm hcs.1), ih hcs.2]

theorem hasOldVariable_of_not_mem {cs : List Char} (hcs : '$' ∉ cs) : hasOldVariable cs = false := by
  rw [← List.append_nil cs]
  exact hasOldVariable_append hcs []

/-- A quoted text has a variable in the old syntax exactly if the text has one. -/
theorem hasOldVariable_quotedTail {rest : List Char} (hrest : hasOldVariable rest = false)
    (cs : List Char) : hasOldVariable (quotedTail cs rest) = hasOldVariable cs := by
  have hdollar : IsPlain '$' :=
    Text.isPlain_of_ascii (by decide) (by decide) (by decide) (by decide)
  have hopening : IsPlain '\x7b' :=
    Text.isPlain_of_ascii (by decide) (by decide) (by decide) (by decide)
  have hclosing : IsPlain '\x7d' :=
    Text.isPlain_of_ascii (by decide) (by decide) (by decide) (by decide)
  induction cs with
  | nil => exact (hasOldVariable_cons_of_ne (by decide) _).trans hrest
  | cons c cs ih =>
    by_cases hc : c = '$'
    · subst hc
      rw [quotedTail_of_isPlain hdollar]
      by_cases hopen : cs.head? = some '\x7b'
      · obtain ⟨cs, rfl⟩ : ∃ ds, cs = '\x7b' :: ds := List.head?_eq_some_iff.1 hopen
        rw [quotedTail_of_isPlain hopening] at ih ⊢
        -- The name behind the brace and what closes it are the same in both texts.
        have hspan := Text.span_quotedTail isPlain_of_isNameChar cs rest
        have hclose : ((quotedTail (cs.dropWhile isNameChar) rest).head? == some '\x7d') =
            ((cs.dropWhile isNameChar).head? == some '\x7d') := by
          rw [Bool.eq_iff_iff, beq_iff_eq, beq_iff_eq]
          exact Text.head?_quotedTail hclosing _ rest
        show (_ && _ || hasOldVariable ('\x7b' :: quotedTail cs rest)) =
          (_ && _ || hasOldVariable ('\x7b' :: cs))
        rw [ih, hspan.1, hspan.2, hclose]
      · have hquoted := mt (Text.head?_quotedTail hopening cs rest).1 hopen
        rw [hasOldVariable_cons fun h => hopen h.2, hasOldVariable_cons fun h => hquoted h.2, ih]
    · rw [quotedTail_cons, hasOldVariable_cons_of_ne hc, ← ih]
      have hmem := (Text.isWritten_quotedChar c).not_mem (fun _ => Ne.symm hc) (by decide)
      exact hasOldVariable_append hmem _

end Config
end UtmTiles
