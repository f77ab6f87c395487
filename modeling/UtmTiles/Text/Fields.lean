/-!
# Fields of a text

`fields sep` cuts a text at every separator. A text without a separator is one field, and an empty
text is one empty field. Joining the fields again gives the text back (`joined_fields`), and fields
without separators survive being joined and cut again (`fields_joined`). So the fields of a text are
the pieces without separators that it is made up of (`fields_eq_iff`).
-/

namespace UtmTiles
namespace Text

/-- The pieces of a text between separators. -/
def fields (sep : Char) : List Char → List (List Char)
  | [] => [[]]
  | c :: cs =>
    if c = sep then [] :: fields sep cs
    else match fields sep cs with
      | [] => [[c]]
      | field :: rest => (c :: field) :: rest

/-- Pieces with separators between them. -/
def joined (sep : Char) : List (List Char) → List Char
  | [] => []
  | [field] => field
  | field :: rest => field ++ sep :: joined sep rest

theorem fields_ne_nil (sep : Char) (cs : List Char) : fields sep cs ≠ [] := by
  cases cs with
  | nil => simp [fields]
  | cons c cs =>
    rw [fields]
    split
    · simp
    · split <;> simp

theorem joined_cons_cons (sep : Char) (field next : List Char) (rest : List (List Char)) :
    joined sep (field :: next :: rest) = field ++ sep :: joined sep (next :: rest) := rfl

theorem joined_fields (sep : Char) (cs : List Char) : joined sep (fields sep cs) = cs := by
  induction cs with
  | nil => rfl
  | cons c cs ih =>
    rw [fields]
    split
    · next h =>
      subst h
      obtain ⟨f, r, hf⟩ := List.exists_cons_of_ne_nil (fields_ne_nil c cs)
      rw [hf] at ih ⊢
      rw [joined_cons_cons, ih]
      rfl
    · split
      · next hf => exact absurd hf (fields_ne_nil sep cs)
      · next f r hf =>
        rw [hf] at ih
        cases r with
        | nil => simpa [joined] using ih
        | cons g r =>
          rw [joined_cons_cons] at ih ⊢
          rw [List.cons_append, ih]

/-- A field without separators in front of a separator is cut off whole. -/
theorem fields_append_sep {sep : Char} {field : List Char} (h : sep ∉ field) (rest : List Char) :
    fields sep (field ++ sep :: rest) = field :: fields sep rest := by
  induction field with
  | nil => simp [fields]
  | cons c cs ih =>
    have hc : c ≠ sep := fun e => h (by simp [e])
    rw [List.cons_append, fields, if_neg hc, ih (fun hm => h (List.mem_cons_of_mem _ hm))]

/-- A text without separators is one field. -/
theorem fields_of_not_mem {sep : Char} {cs : List Char} (h : sep ∉ cs) : fields sep cs = [cs] := by
  induction cs with
  | nil => rfl
  | cons c cs ih =>
    have hc : c ≠ sep := fun e => h (by simp [e])
    rw [fields, if_neg hc, ih (fun hm => h (List.mem_cons_of_mem _ hm))]

/-- Fields without separators survive joining and cutting. -/
theorem fields_joined {sep : Char} {fs : List (List Char)} (hne : fs ≠ [])
    (h : ∀ f ∈ fs, sep ∉ f) : fields sep (joined sep fs) = fs := by
  induction fs with
  | nil => exact absurd rfl hne
  | cons f rest ih =>
    cases rest with
    | nil => exact fields_of_not_mem (h f (by simp))
    | cons g rest =>
      rw [joined_cons_cons, fields_append_sep (h f (by simp)),
        ih (by simp) (fun k hk => h k (List.mem_cons_of_mem _ hk))]

theorem not_mem_of_mem_fields {sep : Char} {cs field : List Char} (h : field ∈ fields sep cs) :
    sep ∉ field := by
  induction cs generalizing field with
  | nil =>
    rw [fields, List.mem_singleton] at h
    simp [h]
  | cons c cs ih =>
    rw [fields] at h
    split at h
    · rcases List.mem_cons.1 h with rfl | htail
      · simp
      · exact ih htail
    · next hc =>
      have hcons {first : List Char} (hfirst : sep ∉ first) : sep ∉ c :: first :=
        fun hmem => (List.mem_cons.1 hmem).elim (fun e => hc e.symm) hfirst
      split at h
      · rw [List.mem_singleton] at h
        exact h ▸ hcons (by simp)
      · next first rest hfields =>
        rcases List.mem_cons.1 h with rfl | htail
        · exact hcons (ih (by simp [hfields]))
        · exact ih (by simp [hfields, htail])

/-- The fields of a text are the pieces without separators that it is made up of. -/
theorem fields_eq_iff {sep : Char} {cs : List Char} {fs : List (List Char)} (hne : fs ≠ []) :
    fields sep cs = fs ↔ cs = joined sep fs ∧ ∀ f ∈ fs, sep ∉ f := by
  constructor
  · rintro rfl
    exact ⟨(joined_fields sep cs).symm, fun f hf => not_mem_of_mem_fields hf⟩
  · rintro ⟨rfl, h⟩
    exact fields_joined hne h

end Text
end UtmTiles
