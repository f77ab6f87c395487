import UtmTiles.Json.Reader
import Mathlib.Data.List.Basic

/-!
# Runs of the JSON reader

`run` reads a text from a given state of the machine on. A token is never empty (`length_lt_of_token?`),
so that a run takes one token after the other, however long the text is (`run_cons`).
-/

namespace UtmTiles
namespace Json

open Decimal (spanDigits splitSign)

/-! ## Tokens are not empty -/

theorem length_lt_of_stringRest? {cs done rest : List Char} {s : String}
    (h : stringRest? cs done = some (s, rest)) : rest.length < cs.length := by
  induction hn : cs.length using Nat.strongRecOn generalizing cs done with
  | ind n ih =>
    subst hn
    have hrest {cs' done' : List Char} (hlt : cs'.length < cs.length)
        (h : stringRest? cs' done' = some (s, rest)) : rest.length < cs.length :=
      Nat.lt_trans (ih _ hlt h rfl) hlt
    rw [stringRest?.eq_def] at h
    split at h
    · cases h
      exact Nat.lt_succ_self _
    · obtain ⟨high, -, h⟩ := Option.bind_eq_some_iff.1 h
      split at h
      · cases h
      split at h
      · split at h
        · obtain ⟨low, -, h⟩ := Option.bind_eq_some_iff.1 h
          split at h
          · refine hrest ?_ h
            simp only [List.length_cons]
            omega
          · cases h
        · cases h
      · refine hrest ?_ h
        simp only [List.length_cons]
        omega
    · obtain ⟨c, -, h⟩ := Option.bind_eq_some_iff.1 h
      refine hrest ?_ h
      simp only [List.length_cons]
      omega
    · split at h
      · cases h
      · exact hrest (Nat.lt_succ_self _) h
    · cases h

theorem length_spanDigits_le (cs : List Char) : (spanDigits cs).2.length ≤ cs.length :=
  (List.dropWhile_sublist _).length_le

theorem length_splitSign_le (cs : List Char) : (splitSign cs).2.length ≤ cs.length := by
  unfold splitSign
  split
  · exact Nat.le_succ _
  · exact Nat.le_succ _
  · exact Nat.le_refl _

theorem length_le_of_exponentPart? {cs rest : List Char} {e : Option Int}
    (h : exponentPart? cs = some (e, rest)) : rest.length ≤ cs.length := by
  have hmarked (cs : List Char) : (spanDigits (splitSign cs).2).2.length ≤ cs.length + 1 :=
    Nat.le_succ_of_le (Nat.le_trans (length_spanDigits_le _) (length_splitSign_le cs))
  unfold exponentPart? at h
  split at h
  · next cs' =>
    specialize hmarked cs'
    simp only at h
    split at h
    · cases h
    · next hspan =>
      cases h
      rwa [hspan] at hmarked
  · next cs' =>
    specialize hmarked cs'
    simp only at h
    split at h
    · cases h
    · next hspan =>
      cases h
      rwa [hspan] at hmarked
  · cases h
    exact Nat.le_refl _

theorem length_lt_of_number? {negative : Bool} {cs rest : List Char} {v : Json}
    (h : number? negative cs = some (v, rest)) : rest.length < cs.length := by
  have hspan := Decimal.spanDigits_append cs
  unfold number? at h
  generalize spanDigits cs = span at h hspan
  obtain ⟨whole, after⟩ := span
  simp only at h hspan
  split at h
  · cases h
  next hwhole =>
  have hempty : 0 < whole.length := by
    rw [List.length_pos_iff]
    exact fun hnil => hwhole (Or.inl (List.isEmpty_iff.2 hnil))
  -- whatever follows the leading digits, no more is left of it than was there
  suffices hafter : rest.length ≤ after.length by
    rw [← hspan, List.length_append]
    omega
  split at h
  · next after' =>
    have hfraction := length_spanDigits_le after'
    split at h
    · cases h
    · next hdigits =>
      rw [hdigits] at hfraction
      simp only [Option.bind_eq_bind, Option.bind_some] at h
      obtain ⟨⟨e, last⟩, hpart, h⟩ := Option.bind_eq_some_iff.1 h
      have hlast := length_le_of_exponentPart? hpart
      split at h
      all_goals
        obtain ⟨w, -, h⟩ := Option.bind_eq_some_iff.1 h
        cases h
        exact Nat.le_succ_of_le (Nat.le_trans hlast hfraction)
  · simp only [Option.bind_eq_bind, Option.bind_some] at h
    obtain ⟨⟨e, last⟩, hpart, h⟩ := Option.bind_eq_some_iff.1 h
    have hlast := length_le_of_exponentPart? hpart
    split at h
    all_goals
      obtain ⟨w, -, h⟩ := Option.bind_eq_some_iff.1 h
      cases h
      exact hlast

theorem length_lt_of_token? {cs rest : List Char} {t : Token} (h : token? cs = some (t, rest)) :
    rest.length < cs.length := by
  rw [token?.eq_def] at h
  split at h
  case h_7 =>
    obtain ⟨p, hp, heq⟩ := Option.map_eq_some_iff.1 h
    cases heq
    exact Nat.lt_trans (length_lt_of_stringRest? hp) (Nat.lt_succ_self _)
  case h_8 =>
    obtain ⟨p, hp, heq⟩ := Option.map_eq_some_iff.1 h
    cases heq
    exact Nat.lt_trans (length_lt_of_number? hp) (Nat.lt_succ_self _)
  case h_12 =>
    obtain ⟨p, hp, heq⟩ := Option.map_eq_some_iff.1 h
    cases heq
    exact length_lt_of_number? hp
  all_goals
    cases h
    simp only [List.length_cons]
    omega

/-! ## Fuel -/

/-- Tokens that have been read stay behind the further ones. -/
theorem tokens?_append (fuel : Nat) (cs : List Char) (done : List Token) :
    tokens? fuel cs done = (tokens? fuel cs []).map (· ++ done) := by
  induction fuel generalizing cs done with
  | zero =>
    rw [tokens?, tokens?]
    split <;> rfl
  | succ fuel ih =>
    cases cs with
    | nil => rfl
    | cons c cs =>
      rw [tokens?, tokens?]
      split
      · exact ih cs done
      · split
        · next t rest _ =>
          rw [ih rest (t :: done), ih rest [t], Option.map_map]
          congr 1
          funext ts
          exact (List.append_cons ..)
        · rfl

/-- More fuel than there are characters makes no difference. -/
theorem tokens?_succ {fuel : Nat} {cs : List Char} (h : cs.length ≤ fuel) (done : List Token) :
    tokens? (fuel + 1) cs done = tokens? fuel cs done := by
  induction fuel generalizing cs done with
  | zero =>
    rw [List.eq_nil_of_length_eq_zero (Nat.le_zero.1 h)]
    rfl
  | succ fuel ih =>
    cases cs with
    | nil => rfl
    | cons c cs =>
      have hcs : cs.length ≤ fuel := Nat.le_of_succ_le_succ h
      rw [tokens?, tokens?]
      split
      · exact ih hcs done
      · split
        · next t rest htoken =>
          have hrest : rest.length ≤ cs.length := Nat.le_of_lt_succ (length_lt_of_token? htoken)
          exact ih (Nat.le_trans hrest hcs) (t :: done)
        · rfl

theorem tokens?_of_length_le {fuel : Nat} {cs : List Char} (h : cs.length ≤ fuel)
    (done : List Token) : tokens? fuel cs done = tokens? cs.length cs done := by
  induction h with
  | refl => rfl
  | step hle ih => rw [tokens?_succ hle, ih]

/-! ## Runs -/

/-- The machine after a text, from a state on. -/
def run (limit : Nat) (cs : List Char) (m : Machine) : Option Machine := do
  let tokens ← tokens? cs.length cs []
  tokens.reverse.foldlM (Machine.step limit) m

variable {limit : Nat}

/-- A run takes one token after the other. -/
theorem run_cons {c : Char} {cs : List Char} (hc : isBlank c = false) (m : Machine) :
    run limit (c :: cs) m =
      (token? (c :: cs)).bind fun p => (m.step limit p.1).bind (run limit p.2) := by
  unfold run
  rw [List.length_cons, tokens?]
  simp only [hc, Bool.false_eq_true, if_false]
  cases htoken : token? (c :: cs) with
  | none => rfl
  | some p =>
    obtain ⟨t, rest⟩ := p
    have hrest : rest.length ≤ cs.length := Nat.le_of_lt_succ (length_lt_of_token? htoken)
    show (tokens? cs.length rest [t]).bind _ = (m.step limit t).bind _
    rw [tokens?_of_length_le hrest, tokens?_append]
    cases tokens? rest.length rest [] with
    | none => cases m.step limit t <;> rfl
    | some ts =>
      show (ts ++ [t]).reverse.foldlM (Machine.step limit) m = _
      rw [List.reverse_concat, List.foldlM_cons]
      rfl

theorem readWithin?_eq_run (limit : Nat) (text : String) : readWithin? limit text =
    (run limit text.toList ⟨[], .value⟩).bind fun m =>
      match m.next with
      | .nothing v => some v
      | _ => none :=
  (Option.bind_assoc ..).symm

end Json
end UtmTiles
