import Mathlib.Data.List.Basic
import UtmTiles.Text.Blank

/-!
# Runs of characters

A reader that takes characters of one kind takes a run of them whole, if what stands behind the run
does not go on with it. White space around a text is a run at either end (`trim_padded`).
-/

namespace UtmTiles
namespace Text

/-- What stands behind a run of characters of some kind. -/
def EndsRun (p : Char → Bool) (cs : List Char) : Prop := ∀ c ∈ cs.head?, p c = false

variable {p : Char → Bool} {run rest : List Char}

theorem endsRun_nil : EndsRun p [] := fun _ hc => absurd hc (Option.not_mem_none _)

theorem endsRun_cons {c : Char} (hc : p c = false) (cs : List Char) : EndsRun p (c :: cs) :=
  fun _ hd => Option.mem_some.1 hd ▸ hc

theorem EndsRun.append {cs ds : List Char} (hcs : EndsRun p cs) (hds : EndsRun p ds) :
    EndsRun p (cs ++ ds) := by
  cases cs with
  | nil => exact hds
  | cons c cs => exact endsRun_cons (hcs c rfl) _

theorem takeWhile_run (hrun : ∀ c ∈ run, p c = true) (hrest : EndsRun p rest) :
    (run ++ rest).takeWhile p = run := by
  rw [List.takeWhile_append_of_pos hrun]
  cases rest with
  | nil => rw [List.takeWhile_nil, List.append_nil]
  | cons c rest =>
    rw [List.takeWhile_cons_of_neg (Bool.eq_false_iff.1 (hrest c rfl)), List.append_nil]

theorem dropWhile_run (hrun : ∀ c ∈ run, p c = true) (hrest : EndsRun p rest) :
    (run ++ rest).dropWhile p = rest := by
  rw [List.dropWhile_append_of_pos hrun]
  cases rest with
  | nil => exact List.dropWhile_nil
  | cons c rest => exact List.dropWhile_cons_of_neg (Bool.eq_false_iff.1 (hrest c rfl))

/-! ## White space -/

/-- White space around a text is taken away, and nothing of the text. -/
theorem trim_padded {before text after : List Char} (hbefore : ∀ c ∈ before, isBlank c = true)
    (hafter : ∀ c ∈ after, isBlank c = true) (hne : text ≠ [])
    (htext : ∀ c ∈ text, isBlank c = false) : trim (before ++ text ++ after) = text := by
  have hstart : EndsRun isBlank (text ++ after) := by
    obtain ⟨c, cs, rfl⟩ := List.exists_cons_of_ne_nil hne
    exact endsRun_cons (htext c List.mem_cons_self) _
  have hend : EndsRun isBlank text.reverse := fun c hc =>
    htext c (List.mem_reverse.1 (List.mem_of_mem_head? hc))
  have hreversed : ∀ c ∈ after.reverse, isBlank c = true := fun c hc =>
    hafter c (List.mem_reverse.1 hc)
  rw [trim, trimStart, List.append_assoc, dropWhile_run hbefore hstart, trimEnd,
    List.reverse_append, dropWhile_run hreversed hend, List.reverse_reverse]

end Text
end UtmTiles
