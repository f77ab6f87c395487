import UtmTiles.Proofs.Config.RoundTrip

/-!
# Texts that are refused

A configuration is refused for a variable in the old syntax exactly if some `${NAME}` with a name of
letters and digits stands in its text, whatever else does (`old_syntax_is_refused_iff`). The names of
the environment may have underscores as well. A variable with such a name is no reason to refuse a
text: it is read like any other characters.
-/

namespace UtmTiles
namespace Config

/-- A variable in the old syntax. -/
def oldSyntax (name : List Char) : List Char := '$' :: '\x7b' :: (name ++ ['\x7d'])

/-- A variable in the old syntax stands in a text. Its name has only characters of some kind. -/
def HasVariable (isChar : Char → Bool) (cs : List Char) : Prop :=
  ∃ name, name ≠ [] ∧ (∀ c ∈ name, isChar c = true) ∧ oldSyntax name <:+: cs

/-- A variable in the old syntax stands at the beginning of a text. -/
def StartsVariable (isChar : Char → Bool) (cs : List Char) : Prop :=
  ∃ name, name ≠ [] ∧ (∀ c ∈ name, isChar c = true) ∧ oldSyntax name <+: cs

/-- Characters of the names of variables in the environment. -/
def isEnvironmentChar (c : Char) : Bool := isNameChar c || c = '_'

section HasVariable

variable {isChar : Char → Bool}

theorem not_hasVariable_nil : ¬ HasVariable isChar [] := by
  rintro ⟨name, -, -, hwithin⟩
  exact List.cons_ne_nil _ _ (List.infix_nil.1 hwithin)

theorem hasVariable_cons {c : Char} {cs : List Char} :
    HasVariable isChar (c :: cs) ↔ StartsVariable isChar (c :: cs) ∨ HasVariable isChar cs := by
  simp only [HasVariable, StartsVariable, List.infix_cons_iff, and_or_left, exists_or]

theorem StartsVariable.brackets {c : Char} {cs : List Char} (h : StartsVariable isChar (c :: cs)) :
    c = '$' ∧ cs.head? = some '\x7b' := by
  obtain ⟨name, -, -, rest, hrest⟩ := h
  obtain ⟨hdollar, hcs⟩ := List.cons.inj hrest
  exact ⟨hdollar.symm, hcs ▸ rfl⟩

/-- A name and the brace behind it. -/
theorem startsVariable_iff (hclose : isChar '\x7d' = false) {cs : List Char} :
    StartsVariable isChar ('$' :: '\x7b' :: cs) ↔
      cs.takeWhile isChar ≠ [] ∧ (cs.dropWhile isChar).head? = some '\x7d' := by
  constructor
  · rintro ⟨name, hne, hname, rest, hrest⟩
    obtain rfl : name ++ '\x7d' :: rest = cs := by simpa [oldSyntax] using hrest
    have hend : Text.EndsRun isChar ('\x7d' :: rest) := Text.endsRun_cons hclose rest
    rw [Text.takeWhile_run hname hend, Text.dropWhile_run hname hend]
    exact ⟨hne, rfl⟩
  · rintro ⟨hne, hhead⟩
    obtain ⟨rest, hrest⟩ : ∃ rest, cs.dropWhile isChar = '\x7d' :: rest :=
      List.head?_eq_some_iff.1 hhead
    refine ⟨cs.takeWhile isChar, hne, fun c hc => List.mem_takeWhile_imp hc, rest, ?_⟩
    have hcs : cs.takeWhile isChar ++ '\x7d' :: rest = cs := by
      rw [← hrest, List.takeWhile_append_dropWhile]
    simpa [oldSyntax] using hcs

/-- Only the first character of a variable is a dollar sign. -/
theorem dollar_not_mem (hdollar : isChar '$' = false) {name : List Char}
    (hname : ∀ c ∈ name, isChar c = true) : '$' ∉ '\x7b' :: (name ++ ['\x7d']) := by
  have hmem : '$' ∉ name := fun h => Bool.false_ne_true (hdollar.symm.trans (hname _ h))
  simpa using hmem

/-- A variable that starts before a dollar sign ends before it. -/
theorem startsVariable_append_dollar (hdollar : isChar '$' = false) (c : Char) (cs rest : List Char) :
    StartsVariable isChar (c :: cs ++ '$' :: rest) ↔ StartsVariable isChar (c :: cs) := by
  refine exists_congr fun name => and_congr_right fun _ => and_congr_right fun hname => ?_
  constructor
  · intro hstarts
    rcases List.prefix_or_prefix_of_prefix hstarts (List.prefix_append _ _) with hshort | hlong
    · exact hshort
    · obtain ⟨more, hmore⟩ := hstarts
      obtain ⟨tail, htail⟩ := hlong
      cases tail with
      | nil => exact ⟨[], by simpa using htail.symm⟩
      | cons d tail =>
        -- What goes on behind the text starts with the dollar sign.
        rw [← htail, List.append_assoc, List.append_cancel_left_eq] at hmore
        obtain ⟨rfl, -⟩ := List.cons.inj hmore
        obtain ⟨-, hcs⟩ := List.cons.inj htail
        refine absurd ?_ (dollar_not_mem hdollar hname)
        rw [← hcs]
        exact List.mem_append_right _ List.mem_cons_self
  · intro hstarts
    exact hstarts.trans (List.prefix_append _ _)

theorem hasVariable_append_dollar (hdollar : isChar '$' = false) (cs rest : List Char) :
    HasVariable isChar (cs ++ '$' :: rest) ↔
      HasVariable isChar cs ∨ HasVariable isChar ('$' :: rest) := by
  induction cs with
  | nil => exact (or_iff_right not_hasVariable_nil).symm
  | cons c cs ih =>
    have hstart := startsVariable_append_dollar hdollar c cs rest
    rw [List.cons_append] at hstart ⊢
    rw [hasVariable_cons, hasVariable_cons, hstart, ih, or_assoc]

end HasVariable

theorem hasOldVariable_iff (cs : List Char) :
    hasOldVariable cs = true ↔ HasVariable isNameChar cs := by
  induction cs with
  | nil => exact iff_of_false Bool.false_ne_true not_hasVariable_nil
  | cons c cs ih =>
    rw [hasVariable_cons]
    by_cases hopen : c = '$' ∧ cs.head? = some '\x7b'
    · obtain ⟨rfl, hhead⟩ := hopen
      obtain ⟨ds, rfl⟩ : ∃ ds, cs = '\x7b' :: ds := List.head?_eq_some_iff.1 hhead
      rw [startsVariable_iff (by decide), ← ih]
      show (_ && _ || hasOldVariable ('\x7b' :: ds)) = true ↔ _
      simp
    · rw [hasOldVariable_cons hopen, ih, or_iff_right fun h => hopen h.brackets]

/-- A variable with an underscore in its name is none for the check. What stands around it may be. -/
theorem hasVariable_around_underscore {name : List Char} (hunderscore : '_' ∈ name)
    (hname : ∀ c ∈ name, isEnvironmentChar c = true) (before after : List Char) :
    HasVariable isNameChar (before ++ (oldSyntax name ++ after)) ↔
      HasVariable isNameChar before ∨ HasVariable isNameChar after := by
  have hstart : ¬ StartsVariable isNameChar (oldSyntax name ++ after) := by
    rintro ⟨other, -, hother, rest, hrest⟩
    have hnames : other ++ '\x7d' :: rest = name ++ '\x7d' :: after := by
      simpa [oldSyntax] using hrest
    have hend (cs : List Char) : Text.EndsRun isEnvironmentChar ('\x7d' :: cs) :=
      Text.endsRun_cons (by decide) cs
    have hother' : ∀ c ∈ other, isEnvironmentChar c = true := fun c hc =>
      Bool.or_eq_true_iff.2 (.inl (hother c hc))
    have hruns := congrArg (List.takeWhile isEnvironmentChar) hnames
    rw [Text.takeWhile_run hother' (hend rest), Text.takeWhile_run hname (hend after)] at hruns
    subst hruns
    exact absurd (hother '_' hunderscore) (by decide)
  have htail : HasVariable isNameChar ('\x7b' :: (name ++ ['\x7d']) ++ after) ↔
      HasVariable isNameChar after := by
    rw [← hasOldVariable_iff, ← hasOldVariable_iff,
      hasOldVariable_append (dollar_not_mem (by decide) hname)]
  have hsplit : oldSyntax name ++ after = '$' :: ('\x7b' :: (name ++ ['\x7d']) ++ after) := rfl
  rw [hsplit] at hstart ⊢
  rw [hasVariable_append_dollar (by decide), hasVariable_cons, or_iff_right hstart, htail]

theorem read_eq_oldVariable_iff (env : Template.Variables) (text path : String) :
    read env text path = .error .oldVariable ↔ HasVariable isNameChar text.toList := by
  rw [← hasOldVariable_iff, read]
  split
  · next h => exact iff_of_true rfl h
  · next h =>
    refine iff_of_false ?_ h
    intro herror
    -- The later steps fail in words of their own.
    rcases bind_eq_error_iff.1 herror with htemplate | ⟨filled, -, herror⟩
    · obtain ⟨fault, -, hfault⟩ := mapError_eq_error_iff.1 htemplate
      cases hfault
    · rcases bind_eq_error_iff.1 herror with hdocument | ⟨document, -, hcontent⟩
      · obtain ⟨fault, -, hfault⟩ := mapError_eq_error_iff.1 hdocument
        cases hfault
      · obtain ⟨fault, -, hfault⟩ := mapError_eq_error_iff.1 hcontent
        cases hfault

/-- A text is refused for a variable in the old syntax exactly if one with a name of letters and digits
stands somewhere in it. One with an underscore in its name makes no difference, and a text that is not
refused is read with all such characters in it as they are. -/
theorem old_syntax_is_refused_iff (env : Template.Variables) (text path : String) :
    (read env text path = .error .oldVariable ↔ HasVariable isNameChar text.toList) ∧
      (∀ before name after, text.toList = before ++ (oldSyntax name ++ after) → '_' ∈ name →
        (∀ c ∈ name, isEnvironmentChar c = true) →
        (read env text path = .error .oldVariable ↔
          HasVariable isNameChar before ∨ HasVariable isNameChar after)) ∧
      (¬ HasVariable isNameChar text.toList → Template.IsTagFree text.toList →
        read env text path = (do
          let document ← (Toml.read text).mapError (.document path)
          (ofValue document).mapError (.content path))) := by
  refine ⟨read_eq_oldVariable_iff env text path, ?_, ?_⟩
  · intro before name after htext hunderscore hname
    rw [read_eq_oldVariable_iff, htext]
    exact hasVariable_around_underscore hunderscore hname before after
  · intro hvariable htags
    rw [← hasOldVariable_iff, Bool.not_eq_true] at hvariable
    exact read_of_isTagFree hvariable htags env path

theorem isPlain_of_isEnvironmentChar (c : Char) (h : isEnvironmentChar c = true) :
    Text.IsPlain c := by
  rcases Bool.or_eq_true_iff.1 h with hname | hunderscore
  · exact isPlain_of_isNameChar c hname
  · obtain rfl : c = '_' := of_decide_eq_true hunderscore
    exact Text.isPlain_of_ascii (by decide) (by decide) (by decide) (by decide)

theorem isPlain_of_mem_oldSyntax {name : List Char} (hname : ∀ c ∈ name, Text.IsPlain c) :
    ∀ c ∈ oldSyntax name, Text.IsPlain c := by
  have hbrackets {c : Char} (hc : c ∈ ['$', '\x7b', '\x7d']) : Text.IsPlain c := by
    simp only [List.mem_cons, List.not_mem_nil, or_false] at hc
    rcases hc with rfl | rfl | rfl <;>
      exact Text.isPlain_of_ascii (by decide) (by decide) (by decide) (by decide)
  intro c hc
  rw [oldSyntax, List.mem_cons, List.mem_cons, List.mem_append, List.mem_singleton] at hc
  rcases hc with hdollar | hopen | hmem | hclose
  · exact hbrackets (by simp [hdollar])
  · exact hbrackets (by simp [hopen])
  · exact hname c hmem
  · exact hbrackets (by simp [hclose])

/-- A variable in the name of a shape stands in the text of the configuration. -/
theorem hasVariable_text {g : Grid Float} (hfinite : g.resolution.isFinite = true)
    (hpos : 0 < Binary64.value g.resolution) {t : TilingConfig} {shape : String}
    (hshape : t.shape = some shape) (h : HasVariable isEnvironmentChar shape.toList) :
    HasVariable isEnvironmentChar (text g t).toList := by
  obtain ⟨name, hne, hname, hwithin⟩ := h
  have hplain := isPlain_of_mem_oldSyntax fun c hc => isPlain_of_isEnvironmentChar c (hname c hc)
  have hquoted : oldSyntax name <:+: Text.quotedTail shape.toList ('\n' :: back t) := by
    rw [← Text.flatMap_quotedChar_of_isPlain hplain]
    exact (hwithin.flatMap _).trans (List.prefix_append _ _).isInfix
  refine ⟨name, hne, hname, ?_⟩
  rw [toList_text_of_some hfinite hpos hshape, ← List.append_assoc]
  exact hquoted.trans (List.suffix_append _ _).isInfix

/-- A configuration whose shape is below a directory that a variable with an underscore stands for. -/
theorem underscore_variable_is_read_literally :
    let s : Service := ⟨⟨1.0, 256, 0⟩, ⟨some "$\x7bDATA_DIR\x7d/aoi.geojson", false, none⟩⟩
    HasVariable isEnvironmentChar s.configText.toList ∧
      read [] s.configText "" = .ok ⟨⟨1.0, 256, 0⟩, s.tiling⟩ := by
  intro s
  have hmake : Grid.make 1.0 256 0 = .ok s.grid :=
    Grid.make_eq_ok_iff.2 ⟨by decide, by decide +kernel, by decide, rfl⟩
  have hgrid := Grid.isValid_of_make hmake
  have hfinite := hgrid.resolution.1
  have hpos := (Binary64.lt_iff rfl hfinite).1 hgrid.resolution.2
  have hname : "$\x7bDATA_DIR\x7d/aoi.geojson".toList =
    oldSyntax ['D', 'A', 'T', 'A', '_', 'D', 'I', 'R'] ++
      ['/', 'a', 'o', 'i', '.', 'g', 'e', 'o', 'j', 's', 'o', 'n'] := rfl
  constructor
  · refine hasVariable_text hfinite hpos rfl ⟨['D', 'A', 'T', 'A', '_', 'D', 'I', 'R'], ?_⟩
    rw [hname]
    exact ⟨by decide, List.all_eq_true.1 rfl, (List.prefix_append _ _).isInfix⟩
  · refine Service.read_configText hgrid ?_ ⟨?_, ?_, nofun⟩ [] ""
    · rintro shape ⟨⟩
      rw [hname]
      decide
    · rintro shape ⟨⟩
      rw [hname]
      decide
    · rintro shape ⟨⟩ c hc hcoded
      have hprintable : ∀ c ∈ "$\x7bDATA_DIR\x7d/aoi.geojson".toList,
        32 ≤ c.toNat ∧ c.toNat < 127 := by simp
      exact Bool.eq_false_iff.1 (Text.isUnseen_of_printable (hprintable c hc)) hcoded.1

end Config
end UtmTiles
