import UtmTiles.Proofs.Partial
import UtmTiles.Proofs.Toml.Value
import UtmTiles.Toml.Document

/-!
# Sections of written documents

A written document is a list of tables, each with a header and entries on lines of their own, and with
empty lines and comments before it. It is read as the sections of its tables, or has a fault if one of
its values has (`sections_tables`).
-/

namespace UtmTiles
namespace Toml
namespace Reader

/-! ## Steps without a fault -/

theorem toOption_bind {β γ : Type} (r : Reader β) (f : β → Reader γ) (cs : List Char) :
    ((r >>= f) cs).toOption = (r cs).toOption.bind fun (b, rest) => (f b rest).toOption := by
  show (r cs >>= fun (b, rest) => f b rest).toOption = _
  cases r cs <;> rfl

theorem blanks_of_endsRun {cs : List Char} (h : Text.EndsRun isBlank cs) : blanks cs = .ok ((), cs) := by
  show Except.ok ((), cs.dropWhile isBlank) = _
  rw [← List.nil_append cs, Text.dropWhile_run (fun c hc => absurd hc List.not_mem_nil) h]
  rfl

theorem endsRun_isBlank_of_isWord {w : List Char} (hw : IsWord w) (rest : List Char) :
    Text.EndsRun isBlank (w ++ rest) := by
  obtain ⟨c, cs, rfl⟩ := List.exists_cons_of_ne_nil hw.ne_nil
  exact Text.endsRun_cons (isBlank_of_isWordChar (hw.isWordChar c List.mem_cons_self)) _

/-! ## Gaps -/

/-- Empty lines and comments. -/
inductive IsGap : List Char → Prop
  | nil : IsGap []
  | newline {cs : List Char} (h : IsGap cs) : IsGap ('\n' :: cs)
  | comment {text cs : List Char} (htext : ∀ c ∈ text, isCommentChar c = true) (h : IsGap cs) :
      IsGap ('#' :: (text ++ '\n' :: cs))

/-- A text that ends here, or goes on with a header or a word. -/
inductive IsSolid : List Char → Prop
  | nil : IsSolid []
  | header (cs : List Char) : IsSolid ('[' :: cs)
  | word {w : List Char} (hw : IsWord w) (cs : List Char) : IsSolid (w ++ cs)

theorem comment_line {text : List Char} (htext : ∀ c ∈ text, isCommentChar c = true)
    (rest : List Char) : comment ('#' :: (text ++ '\n' :: rest)) = .ok (true, rest) := by
  have hdrop : (text ++ '\n' :: rest).dropWhile isCommentChar = '\n' :: rest :=
    Text.dropWhile_run htext (Text.endsRun_cons rfl rest)
  show (endOfLine >>= fun _ => pure true) ((text ++ '\n' :: rest).dropWhile isCommentChar) = _
  rw [hdrop]
  rfl

theorem comment_of_head?_ne {cs : List Char} (h : cs.head? ≠ some '#') :
    comment cs = .ok (false, cs) := by
  cases cs with
  | nil => rfl
  | cons c cs =>
    unfold comment
    have hget : (get : Reader (List Char)) (c :: cs) = .ok (c :: cs, c :: cs) := rfl
    rw [bind_of_ok hget]
    refine (congrFun (show _ = (pure false : Reader Bool) from ?_) (c :: cs)).trans rfl
    split
    · next heq => exact absurd (congrArg List.head? heq) h
    · rfl

theorem gaps_of_isSolid {cs : List Char} (h : IsSolid cs) (fuel : ℕ) : gaps fuel cs = .ok ((), cs) := by
  cases fuel with
  | zero => rfl
  | succ fuel =>
    cases h with
    | nil => rfl
    | header cs => rfl
    | @word w hw cs =>
      have hblanks := blanks_of_endsRun (endsRun_isBlank_of_isWord hw cs)
      obtain ⟨c, ds, rfl⟩ := List.exists_cons_of_ne_nil hw.ne_nil
      have hc := hw.isWordChar c List.mem_cons_self
      have hnewline := eat_of_ne (t := .newline) (next_of_isWordChar hc (ds ++ cs)) (by simp)
      have hcomment : comment (c :: (ds ++ cs)) = .ok (false, c :: (ds ++ cs)) := by
        refine comment_of_head?_ne fun heq => ?_
        rw [Option.some.inj heq] at hc
        exact absurd hc (by decide)
      rw [List.cons_append] at hblanks ⊢
      rw [gaps, bind_of_ok hblanks, bind_of_ok hnewline, if_neg Bool.false_ne_true,
        bind_of_ok hcomment]
      rfl

/-- Lines without a meaning are left out. -/
theorem gaps_of_isGap {gap cs : List Char} (hgap : IsGap gap) (hcs : IsSolid cs) {fuel : ℕ}
    (hfuel : gap.length ≤ fuel) : gaps fuel (gap ++ cs) = .ok ((), cs) := by
  induction hgap generalizing fuel with
  | nil => exact gaps_of_isSolid hcs fuel
  | @newline gap hgap ih =>
    obtain ⟨fuel, rfl⟩ := Nat.exists_eq_add_one_of_ne_zero (Nat.ne_zero_of_lt hfuel)
    refine Eq.trans ?_ (ih (Nat.le_of_succ_le_succ hfuel))
    rfl
  | @comment text gap htext hgap ih =>
    obtain ⟨fuel, rfl⟩ := Nat.exists_eq_add_one_of_ne_zero (Nat.ne_zero_of_lt hfuel)
    have hlength : gap.length ≤ fuel := by
      rw [List.length_cons, List.length_append, List.length_cons] at hfuel
      omega
    have hline : '#' :: (text ++ '\n' :: gap) ++ cs = '#' :: (text ++ '\n' :: (gap ++ cs)) := by
      rw [List.cons_append, List.append_assoc]
      rfl
    have hblanks : blanks ('#' :: (text ++ '\n' :: (gap ++ cs))) =
        .ok ((), '#' :: (text ++ '\n' :: (gap ++ cs))) := rfl
    have hnewline : eat .newline ('#' :: (text ++ '\n' :: (gap ++ cs))) =
        .ok (false, '#' :: (text ++ '\n' :: (gap ++ cs))) := rfl
    rw [hline, gaps, bind_of_ok hblanks, bind_of_ok hnewline, if_neg Bool.false_ne_true,
      bind_of_ok (comment_line htext (gap ++ cs)), if_pos rfl]
    exact ih hlength

/-! ## Entries -/

/-- A key and the text of its value on a line. -/
structure Entry where
  key : String
  value : List Char
  /-- What the value is read as. -/
  node : Option Node
  isWord_key : IsWord key.toList
  endsRun_value : Text.EndsRun isBlank value
  readsAs_value : ReadsAs value node

namespace Entry

def ofDouble (key : String) (hkey : IsWord key.toList) {x : Float} (hfinite : x.isFinite = true)
    (hpos : 0 < Binary64.value x) : Entry where
  key
  value := (Decimal.marked x).toList
  node := some (.float x)
  isWord_key := hkey
  endsRun_value := by
    obtain ⟨n, htext, -⟩ := Decimal.exists_numeral_marked hfinite hpos
    rw [htext, Decimal.Numeral.toList]
    exact (endsRun_isBlank_of_isWord (isWord_of_isDigits n.isDigits_whole) _)
  readsAs_value := readsAs_marked hfinite hpos

def ofNatural (key : String) (hkey : IsWord key.toList) (n : ℕ) : Entry where
  key
  value := Nat.toDigits 10 n
  node := if n < 2 ^ 63 then some (.integer n) else none
  isWord_key := hkey
  endsRun_value := by
    have h := endsRun_isBlank_of_isWord (isWord_of_isDigits (Decimal.isDigits_toDigits n)) []
    rwa [List.append_nil] at h
  readsAs_value := readsAs_toDigits n

def ofBoolean (key : String) (hkey : IsWord key.toList) (b : Bool) : Entry where
  key
  value := if b then "true".toList else "false".toList
  node := some (.boolean b)
  isWord_key := hkey
  endsRun_value := by cases b <;> exact Text.endsRun_cons rfl _
  readsAs_value := readsAs_boolean b

def ofText (key : String) (hkey : IsWord key.toList) (s : String) : Entry where
  key
  value := (Text.quoted s).toList
  node := if s.toList.any (Text.IsCoded ·) then none else some (.string s)
  isWord_key := hkey
  endsRun_value := by
    rw [Text.quoted, String.toList_ofList]
    exact Text.endsRun_cons rfl _
  readsAs_value := by
    split
    · next h => exact readsAs_quoted_of_isCoded (by simpa using h)
    · next h => exact readsAs_quoted (by simpa using h)

/-- The entry of a table, if the value has no fault. -/
def pair (e : Entry) : Option (String × Node) := e.node.map (e.key, ·)

theorem pair_ofDouble (key : String) (hkey : IsWord key.toList) {x : Float} (hfinite : x.isFinite = true)
    (hpos : 0 < Binary64.value x) :
    (ofDouble key hkey hfinite hpos).pair = some (key, .float x) := rfl

theorem pair_ofNatural (key : String) (hkey : IsWord key.toList) (n : ℕ) : (ofNatural key hkey n).pair =
    if n < 2 ^ 63 then some (key, .integer n) else none := by
  rw [pair, ofNatural]
  split <;> rfl

theorem pair_ofBoolean (key : String) (hkey : IsWord key.toList) (b : Bool) :
    (ofBoolean key hkey b).pair = some (key, .boolean b) := rfl

theorem pair_ofText (key : String) (hkey : IsWord key.toList) {s : String}
    (h : ∀ c ∈ s.toList, ¬ Text.IsCoded c) : (ofText key hkey s).pair = some (key, .string s) := by
  have hnone : ¬ s.toList.any (Text.IsCoded ·) = true := by simpa using h
  exact congrArg (Option.map (key, ·)) (if_neg hnone)

theorem pair_ofText_of_isCoded (key : String) (hkey : IsWord key.toList) {s : String}
    (h : ∃ c ∈ s.toList, Text.IsCoded c) : (ofText key hkey s).pair = none := by
  have hsome : s.toList.any (Text.IsCoded ·) = true := by simpa using h
  exact congrArg (Option.map (key, ·)) (if_pos hsome)

def text (e : Entry) : List Char := e.key.toList ++ ' ' :: '=' :: ' ' :: (e.value ++ ['\n'])

end Entry

theorem key_word {k : String} (hk : IsWord k.toList) {rest : List Char} (hrest : EndsWord rest) :
    key (k.toList ++ rest) = .ok (k, rest) := by
  rw [key, bind_of_ok (next_of_token (next_word hk hrest))]
  show Except.ok (String.ofList k.toList, rest) = _
  rw [String.ofList_toList]

theorem keys_word {k : String} (hk : IsWord k.toList) (fuel : ℕ) (rest : List Char) :
    keys (fuel + 1) (k.toList ++ ' ' :: '=' :: rest) = .ok ([k], '=' :: rest) := by
  have hend : EndsWord (' ' :: '=' :: rest) := Text.endsRun_cons rfl _
  have hkey := key_word hk hend
  rw [keys, bind_of_ok hkey]
  rfl

/-- A line with an entry adds the entry to a section, unless its value has a fault. -/
theorem keyValue_entry (e : Entry) (fuel : ℕ) (s : Section) (rest : List Char) :
    (keyValue (fuel + 1) s (e.text ++ rest)).toOption =
      e.pair.map fun pair => ({ s with entries := s.entries ++ [pair] }, rest) := by
  have hkeys := keys_word e.isWord_key fuel (' ' :: (e.value ++ '\n' :: rest))
  have hstarts : Text.EndsRun isBlank (e.value ++ '\n' :: rest) :=
    e.endsRun_value.append (Text.endsRun_cons rfl rest)
  have htext : e.text ++ rest = e.key.toList ++ ' ' :: '=' :: ' ' :: (e.value ++ '\n' :: rest) := by
    simp [Entry.text]
  have hequals : blanks ('=' :: ' ' :: (e.value ++ '\n' :: rest)) =
      .ok ((), '=' :: ' ' :: (e.value ++ '\n' :: rest)) := rfl
  have hexpect : expect .equals ('=' :: ' ' :: (e.value ++ '\n' :: rest)) =
      .ok ((), ' ' :: (e.value ++ '\n' :: rest)) := rfl
  have hblank : blanks (' ' :: (e.value ++ '\n' :: rest)) =
      .ok ((), e.value ++ '\n' :: rest) := blanks_of_endsRun hstarts
  rw [htext, keyValue, bind_of_ok hkeys, bind_of_ok hequals, bind_of_ok hexpect, bind_of_ok hblank,
    toOption_bind, e.readsAs_value, Entry.pair]
  cases e.node with
  | none => rfl
  | some node => rfl

/-! ## Tables -/

def headerText (name : String) : List Char := '[' :: (name.toList ++ [']', '\n'])

theorem header_headerText {name : String} (hname : IsWord name.toList) (fuel : ℕ)
    (rest : List Char) :
    header (fuel + 1) (headerText name ++ rest) = .ok (⟨[name], false, []⟩, rest) := by
  have htext : headerText name ++ rest = '[' :: (name.toList ++ ']' :: '\n' :: rest) := by
    simp [headerText]
  have hend : EndsWord (']' :: '\n' :: rest) := Text.endsRun_cons rfl _
  have hword := next_word hname hend
  have hexpect : expect .leftBracket ('[' :: (name.toList ++ ']' :: '\n' :: rest)) =
      .ok ((), name.toList ++ ']' :: '\n' :: rest) := rfl
  have hkey := key_word hname hend
  rw [htext, header, bind_of_ok hexpect, bind_of_ok (eat_of_ne hword (by simp)),
    bind_of_ok (blanks_of_endsRun (endsRun_isBlank_of_isWord hname _)), bind_of_ok hkey]
  rfl

variable {gap rest : List Char} {fuel : ℕ} {current : Section} {done : List Section}

theorem sections_header {name : String} (hgap : IsGap gap) (hname : IsWord name.toList)
    (hfuel : gap.length ≤ fuel + 2) :
    sections (fuel + 2) current done (gap ++ (headerText name ++ rest)) =
      sections (fuel + 1) ⟨[name], false, []⟩ (current :: done) rest := by
  have hgaps : gaps (fuel + 2) (gap ++ (headerText name ++ rest)) =
    .ok ((), headerText name ++ rest) := gaps_of_isGap hgap (.header _) hfuel
  have hpeek : peek (headerText name ++ rest) =
    .ok (some .leftBracket, headerText name ++ rest) := rfl
  rw [sections, bind_of_ok hgaps, bind_of_ok hpeek]
  exact bind_of_ok (header_headerText hname fuel rest)

theorem sections_entry (e : Entry) :
    (sections (fuel + 2) current done (e.text ++ rest)).toOption = e.pair.bind fun pair =>
      (sections (fuel + 1) { current with entries := current.entries ++ [pair] } done rest).toOption := by
  have htext : e.text ++ rest = e.key.toList ++ (' ' :: '=' :: ' ' :: (e.value ++ ['\n']) ++ rest) :=
    List.append_assoc _ _ _
  have hgaps : gaps (fuel + 2) (e.text ++ rest) = .ok ((), e.text ++ rest) := by
    rw [htext]
    exact gaps_of_isSolid (.word e.isWord_key _) _
  have hpeek : peek (e.text ++ rest) = .ok (some (.word e.key.toList), e.text ++ rest) := by
    rw [htext]
    exact peek_of_token (next_word e.isWord_key (Text.endsRun_cons rfl _))
  rw [sections, bind_of_ok hgaps, bind_of_ok hpeek]
  show ((keyValue (fuel + 1) current >>= fun s => sections (fuel + 1) s done) _).toOption = _
  rw [toOption_bind, keyValue_entry]
  cases e.pair <;> rfl

theorem sections_end (hgap : IsGap gap) (hfuel : gap.length ≤ fuel + 1) :
    sections (fuel + 1) current done gap = .ok ((current :: done).reverse, []) := by
  have hgaps := gaps_of_isGap hgap .nil hfuel
  rw [List.append_nil] at hgaps
  rw [sections, bind_of_ok hgaps]
  rfl

/-- Lines with entries add them to a section, unless one of their values has a fault. -/
theorem sections_entries (es : List Entry) :
    (sections (es.length + (fuel + 1)) current done (es.flatMap Entry.text ++ rest)).toOption =
      (es.mapM Entry.pair).bind fun pairs => (sections (fuel + 1)
        { current with entries := current.entries ++ pairs } done rest).toOption := by
  induction es generalizing current with
  | nil =>
    rw [List.length_nil, Nat.zero_add, List.mapM_nil]
    show _ = (sections (fuel + 1) { current with entries := current.entries ++ [] } done rest).toOption
    rw [List.append_nil]
    rfl
  | cons e es ih =>
    have hfuel : (e :: es).length + (fuel + 1) = es.length + fuel + 2 := by
      rw [List.length_cons]
      omega
    rw [hfuel, List.flatMap_cons, List.append_assoc, sections_entry, List.mapM_cons]
    cases e.pair with
    | none => rfl
    | some pair =>
      show (sections (es.length + (fuel + 1)) _ done _).toOption = _
      rw [ih]
      cases es.mapM Entry.pair with
      | none => rfl
      | some pairs =>
        show (sections (fuel + 1)
          { current with entries := current.entries ++ [pair] ++ pairs } done rest).toOption = _
        rw [List.append_assoc]
        rfl

/-- A header and the entries below it, with what stands before the header. -/
structure Table where
  gap : List Char
  name : String
  entries : List Entry
  isGap_gap : IsGap gap
  isWord_name : IsWord name.toList

namespace Table

def text (t : Table) : List Char := t.gap ++ (headerText t.name ++ t.entries.flatMap Entry.text)

/-- The section of a table, if none of its values has a fault. -/
def content (t : Table) : Option Section :=
  (t.entries.mapM Entry.pair).map fun pairs => ⟨[t.name], false, pairs⟩

end Table

theorem length_entries_le (es : List Entry) : es.length ≤ (es.flatMap Entry.text).length := by
  induction es with
  | nil => exact Nat.zero_le _
  | cons e es ih =>
    rw [List.flatMap_cons, List.length_append, List.length_cons, Entry.text, List.length_append,
      List.length_cons]
    omega

/-- A text of tables is read as their sections, or has a fault if one of their values has. -/
theorem sections_tables (ts : List Table) (hgap : IsGap gap)
    (hfuel : (ts.flatMap Table.text ++ gap).length < fuel) :
    ((sections fuel current done).run (ts.flatMap Table.text ++ gap)).toOption =
      (ts.mapM Table.content).map fun ss => ((current :: done).reverse ++ ss, []) := by
  induction ts generalizing fuel current done with
  | nil =>
    obtain ⟨fuel, rfl⟩ := Nat.exists_eq_add_one_of_ne_zero (Nat.ne_zero_of_lt hfuel)
    rw [List.flatMap_nil, List.nil_append] at hfuel ⊢
    refine (congrArg Except.toOption (sections_end hgap (Nat.le_of_lt hfuel))).trans ?_
    rw [List.mapM_nil]
    show some ((current :: done).reverse, []) = some ((current :: done).reverse ++ [], [])
    rw [List.append_nil]
  | cons t ts ih =>
    have hlength := length_entries_le t.entries
    rw [List.flatMap_cons, Table.text, List.append_assoc, List.append_assoc, List.append_assoc,
      List.length_append, List.length_append, List.length_append] at hfuel
    have hheader : 2 ≤ (headerText t.name).length := by
      rw [headerText, List.length_cons, List.length_append, List.length_cons]
      omega
    obtain ⟨n, rfl⟩ : ∃ n, fuel = t.entries.length + n + 2 :=
      ⟨fuel - 2 - t.entries.length, by omega⟩
    have hsection : sections (t.entries.length + n + 2) current done
        ((t :: ts).flatMap Table.text ++ gap) =
          sections (t.entries.length + (n + 1)) ⟨[t.name], false, []⟩ (current :: done)
            (t.entries.flatMap Entry.text ++ (ts.flatMap Table.text ++ gap)) := by
      rw [List.flatMap_cons, Table.text, List.append_assoc, List.append_assoc, List.append_assoc]
      exact sections_header t.isGap_gap t.isWord_name (by omega)
    show (sections _ current done _).toOption = _
    rw [hsection, sections_entries, List.mapM_cons, Table.content]
    cases t.entries.mapM Entry.pair with
    | none => rfl
    | some pairs =>
      refine (ih (by omega)).trans ?_
      cases ts.mapM Table.content with
      | none => rfl
      | some ss =>
        show some ((_ :: current :: done).reverse ++ ss, []) = some (_ ++ _ :: ss, [])
        rw [List.reverse_cons, List.append_assoc]
        rfl

end Reader

/-! ## Documents -/

/-- A text of tables without carriage returns has the sections of its tables. -/
theorem sections_of_tables {text : String} {ts : List Reader.Table} {gap : List Char}
    (htext : text.toList = ts.flatMap Reader.Table.text ++ gap) (hgap : Reader.IsGap gap)
    (hmark : text.toList.head? ≠ some '\uFEFF') (hreturn : '\r' ∉ text.toList) :
    (sections text).toOption =
      (ts.mapM Reader.Table.content).map fun ss => ⟨[], false, []⟩ :: ss := by
  have hlines : lines text.toList = ts.flatMap Reader.Table.text ++ gap :=
    (lines_of_not_mem hmark hreturn).trans htext
  rw [sections, hlines, toOption_map, Reader.sections_tables ts hgap (Nat.lt_succ_self _),
    Option.map_map]
  rfl

/-- Two tables with different names make up a table of both. -/
theorem tableOf_pair {k l : String} (hkl : k ≠ l) {es fs : List (String × Node)}
    {es' fs' : List (String × Value)} (hes : resolveEntries es [] = .ok es')
    (hfs : resolveEntries fs [] = .ok fs') :
    tableOf [⟨[], false, []⟩, ⟨[k], false, es⟩, ⟨[l], false, fs⟩] =
      .ok (.table [(k, .table es'), (l, .table fs')]) := by
  have hlk : (l == k) = false := beq_eq_false_iff_ne.2 hkl.symm
  simp [tableOf, tableEntries, Pending.find, Pending.without, hes, hfs, hkl, hkl.symm, hlk,
    Except.map, List.lookup]

end Toml
end UtmTiles
