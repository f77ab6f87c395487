import UtmTiles.Proofs.Config.Variable
import UtmTiles.Proofs.Template.Plain
import UtmTiles.Proofs.Tile.Reachable
import UtmTiles.Proofs.Toml.Section
import UtmTiles.Service.Basic

/-!
# The text of a configuration

The text of a service's configuration is a document of two tables (`Config.toList_text`). It quotes the
name of a shape in a notation that is not the one of the document's format, and the format's whole
numbers are smaller than those of the settings. Whether the text is read back as the service is
therefore a matter of the characters of the shape's name and of the largest number of tiles
(`Service.IsPortable`).
-/

namespace UtmTiles
namespace Config

open Toml (Node Value isWordChar)
open Toml.Reader (Entry IsGap Table)

/-! ## The tables of a configuration -/

def gridTable (g : Grid Float) (hfinite : g.resolution.isFinite = true)
    (hpos : 0 < Binary64.value g.resolution) : Table where
  gap := "# utm-tiler configuration\n\n".toList
  name := "grid"
  entries := [.ofDouble "resolution" (by decide) hfinite hpos,
    .ofNatural "tilesize" (by decide) g.tilesize,
    .ofNatural "pad" (by decide) g.pad]
  isGap_gap := by
    have htext : ∀ c ∈ " utm-tiler configuration".toList, Toml.isCommentChar c = true := by
      simp [Toml.isCommentChar]
    exact .comment htext (.newline .nil)
  isWord_name := by decide

def shapeEntry (t : TilingConfig) : List Entry :=
  (t.shape.map (.ofText "shape" (by decide))).toList

/-- The entries after the shape. -/
def outputEntries (t : TilingConfig) : List Entry :=
  .ofBoolean "keys_only" (by decide) t.keysOnly ::
    (t.maxTiles.map (.ofNatural "max_tiles" (by decide))).toList

def tilingTable (t : TilingConfig) : Table where
  gap := "\n".toList
  name := "tiling"
  entries := shapeEntry t ++ outputEntries t
  isGap_gap := .newline .nil
  isWord_name := by decide

/-- What stands for the largest number of tiles if there is none. -/
def noMaxTiles (t : TilingConfig) : List Char :=
  if t.maxTiles.isSome then [] else "#max_tiles = 100000\n".toList

theorem isGap_noMaxTiles (t : TilingConfig) : IsGap (noMaxTiles t) := by
  unfold noMaxTiles
  split
  · exact .nil
  · have htext : ∀ c ∈ "max_tiles = 100000".toList, Toml.isCommentChar c = true := by
      simp [Toml.isCommentChar]
    exact .comment htext .nil

theorem toString_literal (s : String) : toString s = s := rfl

theorem toList_gridText (g : Grid Float) (hfinite : g.resolution.isFinite = true)
    (hpos : 0 < Binary64.value g.resolution) :
    heading.toList ++ (gridText g).toList = (gridTable g hfinite hpos).text := by
  have hvalue : (Entry.ofDouble "resolution" (by decide) hfinite hpos).value =
    (Decimal.marked g.resolution).toList := rfl
  unfold heading gridText Table.text gridTable
  simp only [List.flatMap_cons, List.flatMap_nil, Entry.text, hvalue]
  -- Only the text around the resolution matters, not its digits.
  generalize Decimal.marked g.resolution = resolution
  simp [Toml.Reader.headerText, Entry.ofDouble, Entry.ofNatural, toString_literal]

theorem toList_tilingText (t : TilingConfig) :
    (tilingText t).toList = (tilingTable t).text ++ noMaxTiles t := by
  obtain ⟨shape, keysOnly, maxTiles⟩ := t
  cases shape <;> cases keysOnly <;> cases maxTiles <;>
    simp [tilingText, tilingTable, shapeEntry, outputEntries, noMaxTiles, Table.text,
      Toml.Reader.headerText, Entry.text, Entry.ofText, Entry.ofBoolean, Entry.ofNatural,
      toString_literal]

theorem toList_text (g : Grid Float) (hfinite : g.resolution.isFinite = true)
    (hpos : 0 < Binary64.value g.resolution) (t : TilingConfig) :
    (text g t).toList = [gridTable g hfinite hpos, tilingTable t].flatMap Table.text ++
      noMaxTiles t := by
  rw [text, String.toList_append, String.toList_append, toList_gridText g hfinite hpos,
    toList_tilingText, List.flatMap_cons, List.flatMap_cons, List.flatMap_nil, List.append_nil,
    List.append_assoc]

/-! ## What stands around the shape -/

section Around

variable (g : Grid Float) (hfinite : g.resolution.isFinite = true)
  (hpos : 0 < Binary64.value g.resolution) (t : TilingConfig)

/-- The text before the shape. -/
def front : List Char :=
  (gridTable g hfinite hpos).text ++ ("\n".toList ++ Toml.Reader.headerText "tiling")

/-- The text after the shape. -/
def back : List Char := (outputEntries t).flatMap Entry.text ++ noMaxTiles t

theorem toList_text_around : (text g t).toList =
    front g hfinite hpos ++ ((shapeEntry t).flatMap Entry.text ++ back t) := by
  have htiling : (tilingTable t).text = "\n".toList ++ (Toml.Reader.headerText "tiling" ++
    (shapeEntry t ++ outputEntries t).flatMap Entry.text) := rfl
  rw [toList_text g hfinite hpos, front, back, List.flatMap_cons, List.flatMap_cons,
    List.flatMap_nil, List.append_nil, htiling, List.flatMap_append]
  simp only [List.append_assoc]

/-- Characters with a meaning for templates or for line ends. -/
inductive IsSpecial : Char → Prop
  | carriageReturn : IsSpecial '\r'
  | brace : IsSpecial '\x7b'
  | dollar : IsSpecial '$'

namespace IsSpecial

variable {g hfinite hpos t} {c : Char} (hc : IsSpecial c)

include hc

theorem not_isDigit : ¬ ('0' ≤ c ∧ c ≤ '9') := by cases hc <;> decide

theorem not_mem_numeral (n : Decimal.Numeral) : c ∉ n.toList :=
  n.not_mem hc.not_isDigit (by cases hc <;> decide)

theorem not_mem_word {w : List Char} (hw : Toml.IsWord w) : c ∉ w := by
  have hchar : isWordChar c = false := by cases hc <;> rfl
  exact fun hmem => Bool.false_ne_true (hchar.symm.trans (hw.isWordChar c hmem))

theorem not_mem_entry {e : Entry} (hvalue : c ∉ e.value) : c ∉ e.text := by
  have hkey := hc.not_mem_word e.isWord_key
  have hmarks : c ∉ [' ', '=', ' '] := by cases hc <;> decide
  have hend : c ∉ ['\n'] := by cases hc <;> decide
  show c ∉ e.key.toList ++ ([' ', '=', ' '] ++ (e.value ++ ['\n']))
  rw [List.mem_append, List.mem_append, List.mem_append]
  exact fun h => h.elim hkey fun h => h.elim hmarks fun h => h.elim hvalue hend

theorem not_mem_entries {es : List Entry} (hvalues : ∀ e ∈ es, c ∉ e.value) :
    c ∉ es.flatMap Entry.text := by
  rw [List.mem_flatMap]
  rintro ⟨e, he, hmem⟩
  exact hc.not_mem_entry (hvalues e he) hmem

theorem not_mem_header {name : String} (hname : Toml.IsWord name.toList) :
    c ∉ Toml.Reader.headerText name := by
  have hword := hc.not_mem_word hname
  cases hc <;> simpa [Toml.Reader.headerText] using hword

theorem not_mem_naturals (n : ℕ) : c ∉ Nat.toDigits 10 n :=
  (Decimal.isDigits_toDigits n).not_mem hc.not_isDigit

theorem not_mem_front : c ∉ front g hfinite hpos := by
  have hresolution : c ∉ (Decimal.marked g.resolution).toList := by
    obtain ⟨n, htext, -⟩ := Decimal.exists_numeral_marked hfinite hpos
    rw [htext]
    exact hc.not_mem_numeral n
  have hvalues : ∀ e ∈ (gridTable g hfinite hpos).entries, c ∉ e.value :=
    List.forall_mem_cons.2 ⟨hresolution, List.forall_mem_cons.2 ⟨hc.not_mem_naturals g.tilesize,
      List.forall_mem_cons.2 ⟨hc.not_mem_naturals g.pad, List.forall_mem_nil _⟩⟩⟩
  have hgap : c ∉ (gridTable g hfinite hpos).gap := by
    show c ∉ "# utm-tiler configuration\n\n".toList
    cases hc <;> simp
  have hnewline : c ∉ "\n".toList := by cases hc <;> simp
  rw [front, Table.text, List.mem_append, List.mem_append, List.mem_append, List.mem_append]
  exact fun h => h.elim (fun h => h.elim hgap fun h => h.elim
    (hc.not_mem_header (gridTable g hfinite hpos).isWord_name) (hc.not_mem_entries hvalues))
    fun h => h.elim hnewline (hc.not_mem_header (by decide))

theorem not_mem_back : c ∉ back t := by
  have hkeysOnly : c ∉ if t.keysOnly then "true".toList else "false".toList := by
    cases hc <;> split <;> simp
  have hvalues : ∀ e ∈ outputEntries t, c ∉ e.value := by
    refine List.forall_mem_cons.2 ⟨hkeysOnly, ?_⟩
    cases t.maxTiles with
    | none => exact List.forall_mem_nil _
    | some n => exact List.forall_mem_cons.2 ⟨hc.not_mem_naturals n, List.forall_mem_nil _⟩
  have hcomment : c ∉ noMaxTiles t := by
    unfold noMaxTiles
    cases hc <;> split <;> simp
  rw [back, List.mem_append]
  exact fun h => h.elim (hc.not_mem_entries hvalues) hcomment

end IsSpecial

end Around

section Text

variable {g : Grid Float} (hfinite : g.resolution.isFinite = true)
  (hpos : 0 < Binary64.value g.resolution) {t : TilingConfig}

include hfinite hpos

theorem toList_text_of_none (h : t.shape = none) :
    (text g t).toList = front g hfinite hpos ++ back t := by
  rw [toList_text_around g hfinite hpos, shapeEntry, h]
  rfl

theorem toList_text_of_some {s : String} (h : t.shape = some s) : (text g t).toList =
    front g hfinite hpos ++ ("shape = \"".toList ++ Text.quotedTail s.toList ('\n' :: back t)) := by
  have hentry : (Entry.ofText "shape" (by decide) s).text ++ back t =
      "shape = \"".toList ++ Text.quotedTail s.toList ('\n' :: back t) := by
    have htext : (Entry.ofText "shape" (by decide) s).text ++ back t =
        "shape = ".toList ++ ((Text.quoted s).toList ++ '\n' :: back t) := by
      simp [Entry.text, Entry.ofText]
    rw [htext, Text.toList_quoted_append]
    simp
  rw [toList_text_around g hfinite hpos, shapeEntry, h, ← hentry]
  simp

/-- A configuration has a variable in the old syntax exactly if the shape's name has one. -/
theorem hasOldVariable_text :
    hasOldVariable (text g t).toList = (t.shape.map fun s => hasOldVariable s.toList).getD false := by
  have hfront : '$' ∉ front g hfinite hpos := IsSpecial.dollar.not_mem_front
  have hback := IsSpecial.dollar.not_mem_back (t := t)
  cases h : t.shape with
  | none =>
    rw [toList_text_of_none hfinite hpos h, hasOldVariable_append hfront,
      hasOldVariable_of_not_mem hback]
    rfl
  | some s =>
    have hrest : hasOldVariable ('\n' :: back t) = false :=
      hasOldVariable_of_not_mem (List.not_mem_cons_of_ne_of_not_mem (by decide) hback)
    rw [toList_text_of_some hfinite hpos h, hasOldVariable_append hfront,
      hasOldVariable_append (by simp), hasOldVariable_quotedTail hrest]
    rfl

/-- A configuration has no tags if the shape's name has none. -/
theorem isTagFree_text (hshape : ∀ s ∈ t.shape, Template.IsTagFree s.toList) :
    Template.IsTagFree (text g t).toList := by
  have hfront : '\x7b' ∉ front g hfinite hpos := IsSpecial.brace.not_mem_front
  have hback := IsSpecial.brace.not_mem_back (t := t)
  cases h : t.shape with
  | none =>
    rw [toList_text_of_none hfinite hpos h, Template.isTagFree_append hfront]
    exact Template.isTagFree_of_not_mem hback
  | some s =>
    have hrest : Template.IsTagFree ('\n' :: back t) :=
      Template.isTagFree_of_not_mem (List.not_mem_cons_of_ne_of_not_mem (by decide) hback)
    rw [toList_text_of_some hfinite hpos h, Template.isTagFree_append hfront,
      Template.isTagFree_append (by simp)]
    exact Template.isTagFree_quotedTail (hshape s h) hrest

theorem carriageReturn_not_mem_text : '\r' ∉ (text g t).toList := by
  have hfront : '\r' ∉ front g hfinite hpos := IsSpecial.carriageReturn.not_mem_front
  have hback := IsSpecial.carriageReturn.not_mem_back (t := t)
  cases h : t.shape with
  | none =>
    rw [toList_text_of_none hfinite hpos h, List.mem_append]
    exact fun hmem => hmem.elim hfront hback
  | some s =>
    have hplain : ¬ Text.IsPlain '\r' := fun hplain => absurd hplain.code.1 (by decide)
    have hquoted : '\r' ∉ Text.quotedTail s.toList ('\n' :: back t) :=
      Text.not_mem_quotedTail hplain (by decide)
        (List.not_mem_cons_of_ne_of_not_mem (by decide) hback)
    rw [toList_text_of_some hfinite hpos h, List.mem_append, List.mem_append]
    exact fun hmem => hmem.elim hfront fun hmem => hmem.elim (by simp) hquoted

end Text

/-! ## What is read from the text -/

/-- The settings have a text in the format of documents. -/
def IsWritable (t : TilingConfig) : Prop :=
  (∀ s ∈ t.shape, ∀ c ∈ s.toList, ¬ Text.IsCoded c) ∧ ∀ n ∈ t.maxTiles, n < 2 ^ 63

def gridNodes (g : Grid Float) : List (String × Node) :=
  [("resolution", .float g.resolution), ("tilesize", .integer g.tilesize), ("pad", .integer g.pad)]

def outputNodes (t : TilingConfig) : List (String × Node) :=
  ("keys_only", .boolean t.keysOnly) ::
    (t.maxTiles.map fun n => ("max_tiles", Node.integer n)).toList

def tilingNodes (t : TilingConfig) : List (String × Node) :=
  (t.shape.map fun s => ("shape", Node.string s)).toList ++ outputNodes t

theorem content_gridTable {g : Grid Float} (hfinite : g.resolution.isFinite = true)
    (hpos : 0 < Binary64.value g.resolution) (htilesize : g.tilesize < 2 ^ 63)
    (hpad : g.pad < 2 ^ 63) :
    (gridTable g hfinite hpos).content = some ⟨["grid"], false, gridNodes g⟩ := by
  have hresolution := Entry.pair_ofDouble "resolution" (by decide) hfinite hpos
  have hnatural (key : String) (hkey : Toml.IsWord key.toList) {n : ℕ} (hn : n < 2 ^ 63) :=
    (Entry.pair_ofNatural key hkey n).trans (if_pos hn)
  have hpairs : (gridTable g hfinite hpos).entries.mapM Entry.pair = some (gridNodes g) :=
    mapM_cons_eq_some hresolution <|
      mapM_cons_eq_some (hnatural "tilesize" (by decide) htilesize) <|
      mapM_cons_eq_some (hnatural "pad" (by decide) hpad) rfl
  rw [Table.content, hpairs]
  rfl

theorem content_tilingTable {t : TilingConfig} (h : IsWritable t) :
    (tilingTable t).content = some ⟨["tiling"], false, tilingNodes t⟩ := by
  obtain ⟨shape, keysOnly, maxTiles⟩ := t
  have hshape {s : String} (hs : shape = some s) :=
    Entry.pair_ofText "shape" (by decide) (h.1 s hs)
  have hmaxTiles {n : ℕ} (hn : maxTiles = some n) :=
    (Entry.pair_ofNatural "max_tiles" (by decide) n).trans (if_pos (h.2 n hn))
  have hkeysOnly := Entry.pair_ofBoolean "keys_only" (by decide) keysOnly
  have houtput : (outputEntries ⟨shape, keysOnly, maxTiles⟩).mapM Entry.pair =
      some (outputNodes ⟨shape, keysOnly, maxTiles⟩) := by
    cases maxTiles with
    | none => exact mapM_cons_eq_some hkeysOnly rfl
    | some n =>
      exact mapM_cons_eq_some hkeysOnly <|
        mapM_cons_eq_some (hmaxTiles rfl) rfl
  have hpairs : (tilingTable ⟨shape, keysOnly, maxTiles⟩).entries.mapM Entry.pair =
      some (tilingNodes ⟨shape, keysOnly, maxTiles⟩) := by
    cases shape with
    | none => exact houtput
    | some s => exact mapM_cons_eq_some (hshape rfl) houtput
  rw [Table.content, hpairs]
  rfl

theorem content_tilingTable_of_not {t : TilingConfig} (h : ¬ IsWritable t) :
    (tilingTable t).content = none := by
  have hpairs : (tilingTable t).entries.mapM Entry.pair = none := by
    simp only [IsWritable, not_and_or, not_forall] at h
    rcases h with ⟨s, hs, c, hc, hcoded⟩ | ⟨n, hn, hlarge⟩
    · refine mapM_eq_none_of_mem (x := .ofText "shape" (by decide) s) ?_ ?_
      · refine List.mem_append_left _ ?_
        rw [shapeEntry, Option.mem_def.1 hs]
        exact List.mem_singleton_self _
      · exact Entry.pair_ofText_of_isCoded _ _ ⟨c, hc, not_not.1 hcoded⟩
    · refine mapM_eq_none_of_mem (x := .ofNatural "max_tiles" (by decide) n) ?_ ?_
      · refine List.mem_append_right _ (List.mem_cons_of_mem _ ?_)
        rw [Option.mem_def.1 hn]
        exact List.mem_singleton_self _
      · exact (Entry.pair_ofNatural _ _ n).trans (if_neg hlarge)
  rw [Table.content, hpairs]
  rfl

def gridValues (g : Grid Float) : List (String × Value) :=
  [("resolution", .float g.resolution), ("tilesize", .integer g.tilesize), ("pad", .integer g.pad)]

def tilingValues (t : TilingConfig) : List (String × Value) :=
  (t.shape.map fun s => ("shape", Value.string s)).toList ++ ("keys_only", .boolean t.keysOnly) ::
    (t.maxTiles.map fun n => ("max_tiles", Value.integer n)).toList

theorem resolveEntries_gridNodes (g : Grid Float) :
    Toml.resolveEntries (gridNodes g) [] = .ok (gridValues g) := rfl

theorem resolveEntries_tilingNodes (t : TilingConfig) :
    Toml.resolveEntries (tilingNodes t) [] = .ok (tilingValues t) := by
  obtain ⟨shape, keysOnly, maxTiles⟩ := t
  cases shape <;> cases maxTiles <;> rfl

section Document

variable {g : Grid Float} (hfinite : g.resolution.isFinite = true)
  (hpos : 0 < Binary64.value g.resolution) {t : TilingConfig}

include hfinite hpos

theorem sections_text : (Toml.sections (text g t)).toOption =
    ([gridTable g hfinite hpos, tilingTable t].mapM Table.content).map
      fun ss => ⟨[], false, []⟩ :: ss := by
  have hhead : (text g t).toList.head? ≠ some '\uFEFF' := by
    obtain ⟨rest, hheading⟩ : ∃ rest, heading.toList = '#' :: rest := ⟨_, rfl⟩
    rw [text, String.toList_append, String.toList_append, hheading]
    exact fun heq => absurd (Option.some.inj heq) (by decide)
  exact Toml.sections_of_tables (toList_text g hfinite hpos t) (isGap_noMaxTiles t) hhead
    (carriageReturn_not_mem_text hfinite hpos)

theorem read_text (htilesize : g.tilesize < 2 ^ 63) (hpad : g.pad < 2 ^ 63) (h : IsWritable t) :
    Toml.read (text g t) =
      .ok (.table [("grid", .table (gridValues g)), ("tiling", .table (tilingValues t))]) := by
  have hsections : (Toml.sections (text g t)).toOption =
      some [⟨[], false, []⟩, ⟨["grid"], false, gridNodes g⟩, ⟨["tiling"], false, tilingNodes t⟩] := by
    have hgrid := content_gridTable hfinite hpos htilesize hpad
    rw [sections_text hfinite hpos,
      mapM_cons_eq_some hgrid (mapM_cons_eq_some (content_tilingTable h) List.mapM_nil)]
    rfl
  rw [Toml.read, eq_ok_of_toOption hsections]
  exact Toml.tableOf_pair (by decide) (resolveEntries_gridNodes g) (resolveEntries_tilingNodes t)

theorem read_text_of_not (h : ¬ IsWritable t) : ∃ fault, Toml.read (text g t) = .error fault := by
  have hsections : (Toml.sections (text g t)).toOption = none := by
    have hmem : tilingTable t ∈ [gridTable g hfinite hpos, tilingTable t] :=
      List.mem_cons_of_mem _ List.mem_cons_self
    rw [sections_text hfinite hpos, mapM_eq_none_of_mem hmem (content_tilingTable_of_not h)]
    rfl
  obtain ⟨fault, hfault⟩ := eq_error_of_toOption hsections
  refine ⟨fault, ?_⟩
  rw [Toml.read, hfault]
  rfl

end Document

theorem count_natural {bits n : ℕ} (h : n < 2 ^ bits) : count bits (.integer n) = .ok n := by
  have hbounds : 0 ≤ (n : ℤ) ∧ (n : ℤ) < Nat.pow 2 bits := ⟨Int.natCast_nonneg n, Int.ofNat_lt.2 h⟩
  rw [count, if_pos hbounds, Int.toNat_natCast]

theorem gridOfValue_gridValues {g : Grid Float} (htilesize : g.tilesize < 2 ^ 32)
    (hpad : g.pad < 2 ^ 32) :
    gridOfValue (.table (gridValues g)) = .ok ⟨g.resolution, g.tilesize, g.pad⟩ := by
  have hresolutionEntry : entry? double "resolution" (gridValues g) = .ok (some g.resolution) := rfl
  have htilesizeEntry : entry? (count 32) "tilesize" (gridValues g) = .ok (some g.tilesize) := by
    show (count 32 (.integer g.tilesize)).map some = _
    rw [count_natural htilesize]
    rfl
  have hpadEntry : entry? (count 32) "pad" (gridValues g) = .ok (some g.pad) := by
    show (count 32 (.integer g.pad)).map some = _
    rw [count_natural hpad]
    rfl
  rw [gridOfValue, hresolutionEntry, htilesizeEntry, hpadEntry]
  rfl

theorem tilingOfValue_tilingValues {t : TilingConfig} (h : ∀ n ∈ t.maxTiles, n < 2 ^ 64) :
    tilingOfValue (.table (tilingValues t)) = .ok t := by
  obtain ⟨shape, keysOnly, maxTiles⟩ := t
  have hmaxTiles : entry? (count 64) "max_tiles" (tilingValues ⟨shape, keysOnly, maxTiles⟩) =
      .ok maxTiles := by
    cases maxTiles with
    | none => cases shape <;> rfl
    | some n =>
      have hcount := congrArg (Except.map some) (count_natural (h n rfl))
      cases shape <;> exact hcount
  rw [tilingOfValue, hmaxTiles]
  cases shape <;> cases maxTiles <;> rfl

theorem ofValue_tables {g : Grid Float} (htilesize : g.tilesize < 2 ^ 32) (hpad : g.pad < 2 ^ 32)
    {t : TilingConfig} (h : ∀ n ∈ t.maxTiles, n < 2 ^ 64) :
    ofValue (.table [("grid", .table (gridValues g)), ("tiling", .table (tilingValues t))]) =
      .ok ⟨⟨g.resolution, g.tilesize, g.pad⟩, t⟩ := by
  have hgrid := congrArg (Except.map some) (gridOfValue_gridValues htilesize hpad)
  have htiling := congrArg (Except.map some) (tilingOfValue_tilingValues h)
  show ((gridOfValue (.table (gridValues g))).map some >>= fun grid =>
    (tilingOfValue (.table (tilingValues t))).map some >>= fun tiling => _) = _
  rw [hgrid, htiling]
  rfl

/-- A text without variables and tags is read as the document that it is. -/
theorem read_of_isTagFree {text : String} (hvariable : hasOldVariable text.toList = false)
    (htags : Template.IsTagFree text.toList) (env : Template.Variables) (path : String) :
    Config.read env text path = (do
      let document ← (Toml.read text).mapError (.document path)
      (ofValue document).mapError (.content path)) := by
  rw [Config.read, hvariable, if_neg Bool.false_ne_true, Template.render_of_isTagFree _ env htags]
  rfl

end Config

/-! ## Services -/

namespace Service

/-- The service that the text of a configuration describes. -/
def ofText (env : Template.Variables) (text path : String) : Except ServiceFault Service := do
  let config ← (Config.read env text path).mapError .config
  ofConfig config

/-- The settings are read back from a configuration: the shape's name has no variable in the old
syntax and only characters with an escape in both notations, and the number of tiles has 64 bits with
its sign. -/
structure IsPortable (t : TilingConfig) : Prop where
  hasOldVariable : ∀ shape ∈ t.shape, Config.hasOldVariable shape.toList = false
  isWritable : Config.IsWritable t

section ReadBack

variable {s : Service} (hgrid : s.grid.IsValid)
  (htags : ∀ shape ∈ s.tiling.shape, Template.IsTagFree shape.toList)

include hgrid htags

/-- The configuration of a service with portable settings is read as the service's grid and settings. -/
theorem read_configText (h : IsPortable s.tiling) (env : Template.Variables) (path : String) :
    Config.read env s.configText path =
      .ok ⟨⟨s.grid.resolution, s.grid.tilesize, s.grid.pad⟩, s.tiling⟩ := by
  have hfinite := hgrid.resolution.1
  have hpos := (Binary64.lt_iff rfl hfinite).1 hgrid.resolution.2
  have hraster : s.grid.tilesize + 2 * s.grid.pad ≤ 4294967295 := hgrid.raster
  have hvariable : Config.hasOldVariable s.configText.toList = false := by
    rw [configText, Config.hasOldVariable_text hfinite hpos]
    cases hshape : s.tiling.shape with
    | none => rfl
    | some shape => exact h.hasOldVariable shape hshape
  have hmaxTiles : ∀ n ∈ s.tiling.maxTiles, n < 2 ^ 64 := fun n hn =>
    lt_trans (h.isWritable.2 n hn) (by decide)
  rw [Config.read_of_isTagFree hvariable (Config.isTagFree_text hfinite hpos htags),
    configText, Config.read_text hfinite hpos (by omega) (by omega) h.isWritable]
  rw [mapError_ok_bind, Config.ofValue_tables (by omega) (by omega) hmaxTiles]
  rfl

theorem ofText_of_isPortable (h : IsPortable s.tiling) (env : Template.Variables) (path : String) :
    ofText env s.configText path = .ok s := by
  rw [ofText, read_configText hgrid htags h, mapError_ok_bind, ofConfig, hgrid.make_eq]
  rfl

theorem ofText_of_not_isPortable (h : ¬ IsPortable s.tiling) (env : Template.Variables)
    (path : String) : ∃ fault, ofText env s.configText path = .error fault := by
  have hfinite := hgrid.resolution.1
  have hpos := (Binary64.lt_iff rfl hfinite).1 hgrid.resolution.2
  by_cases hvariable : Config.hasOldVariable s.configText.toList = true
  · refine ⟨.config .oldVariable, ?_⟩
    rw [ofText, Config.read, if_pos hvariable]
    rfl
  · have hwritable : ¬ Config.IsWritable s.tiling := by
      refine fun hwritable => h ⟨fun shape hshape => ?_, hwritable⟩
      rw [configText, Config.hasOldVariable_text hfinite hpos, Option.mem_def.1 hshape] at hvariable
      exact Bool.eq_false_iff.2 hvariable
    obtain ⟨fault, hfault⟩ := Config.read_text_of_not hfinite hpos hwritable
    refine ⟨.config (.document path fault), ?_⟩
    rw [ofText, Config.read_of_isTagFree (Bool.eq_false_iff.2 hvariable)
      (Config.isTagFree_text hfinite hpos htags), configText, hfault]
    rfl

end ReadBack

/-- The configuration of a service is read back as the service if its settings are portable, and
refused otherwise. (What the tags of a shape's name stand for depends on the variables.) -/
theorem configuration_is_read_back_or_refused {s : Service} {resolution : Float} {tilesize pad : ℕ}
    (hgrid : Grid.make resolution tilesize pad = .ok s.grid)
    (htags : ∀ shape ∈ s.tiling.shape, Template.IsTagFree shape.toList)
    (env : Template.Variables) (path : String) :
    (IsPortable s.tiling → ofText env s.configText path = .ok s) ∧
      (¬ IsPortable s.tiling → ∃ fault, ofText env s.configText path = .error fault) := by
  have hvalid := Grid.isValid_of_make hgrid
  exact ⟨fun h => ofText_of_isPortable hvalid htags h env path,
    fun h => ofText_of_not_isPortable hvalid htags h env path⟩

/-- A service with the largest number of tiles that is read back, and one with the next number. -/
theorem configuration_is_read_back_up_to_largest_number :
    let service (n : ℕ) : Service := ⟨⟨10.0, 2048, 16⟩, ⟨some "aoi \"1\".geojson", true, some n⟩⟩
    ofText [] (service (2 ^ 63 - 1)).configText "" = .ok (service (2 ^ 63 - 1)) ∧
      ∃ fault, ofText [] (service (2 ^ 63)).configText "" = .error fault := by
  intro service
  have hgrid (n : ℕ) : Grid.make 10.0 2048 16 = .ok (service n).grid :=
    Grid.make_eq_ok_iff.2 ⟨by decide, by decide +kernel, by decide, rfl⟩
  have hname : "aoi \"1\".geojson".toList =
    ['a', 'o', 'i', ' ', '"', '1', '"', '.', 'g', 'e', 'o', 'j', 's', 'o', 'n'] := rfl
  have htags (n : ℕ) : ∀ shape ∈ (service n).tiling.shape, Template.IsTagFree shape.toList := by
    rintro shape ⟨⟩
    rw [hname]
    decide
  have hvariable : Config.hasOldVariable "aoi \"1\".geojson".toList = false := by
    rw [hname]
    decide
  have hcoded : ∀ c ∈ "aoi \"1\".geojson".toList, ¬ Text.IsCoded c := by
    have hprintable : ∀ c ∈ "aoi \"1\".geojson".toList, 32 ≤ c.toNat ∧ c.toNat < 127 := by simp
    exact fun c hc hcoded =>
      Bool.eq_false_iff.1 (Text.isUnseen_of_printable (hprintable c hc)) hcoded.1
  refine ⟨(configuration_is_read_back_or_refused (hgrid _) (htags _) [] "").1 ⟨?_, ?_, ?_⟩,
    (configuration_is_read_back_or_refused (hgrid _) (htags _) [] "").2 fun h => ?_⟩
  · rintro shape ⟨⟩
    exact hvariable
  · rintro shape ⟨⟩
    exact hcoded
  · rintro n ⟨⟩
    norm_num
  · exact absurd (h.isWritable.2 _ rfl) (lt_irrefl _)

end Service
end UtmTiles
