import UtmTiles.Json.Printer
import UtmTiles.Json.Reader
import Mathlib.Data.List.Basic

/-!
# The texts of JSON values

The text of an array or object is made up of the texts of its parts. The text of a string is read up
to its closing quote and no further, whatever follows it (`stringRest?_escaped`), so that it tells the
string.
-/

namespace UtmTiles
namespace Json

/-! ## Characters -/

theorem hexValue?_hexDigit : ∀ n < 16, hexValue? (hexDigit n) = some n := by decide

/-- The digits of a control's code. -/
theorem hex4?_control {n : ℕ} (h : n < 0x20) :
    hex4? '0' '0' (hexDigit (n / 16)) (hexDigit (n % 16)) = some n := by
  have hzero : hexValue? '0' = some 0 := by decide
  unfold hex4?
  rw [hzero, hexValue?_hexDigit _ (by omega), hexValue?_hexDigit _ (by omega)]
  show some ((0 * 16 + 0) * 256 + n / 16 * 16 + n % 16) = some n
  rw [Option.some_inj]
  omega

/-- A control is read from its code. -/
theorem stringRest?_control {c : Char} (h : c.toNat < 0x20) (rest done : List Char) :
    stringRest? ('\\' :: 'u' :: '0' :: '0' :: hexDigit (c.toNat / 16) :: hexDigit (c.toNat % 16) ::
      rest) done = stringRest? rest (c :: done) := by
  rw [stringRest?, hex4?_control h, Option.bind_eq_bind, Option.bind_some, if_neg (by omega),
    if_neg (by omega), Char.ofNat_toNat]

/-- A character that is written as itself is read as itself. -/
theorem stringRest?_plain {c : Char} (hquote : c ≠ '"') (hescape : c ≠ '\\')
    (hcode : ¬ c.toNat < 0x20) (rest done : List Char) :
    stringRest? (c :: rest) done = stringRest? rest (c :: done) := by
  rw [stringRest?.eq_def]
  split
  · next heq => exact absurd (List.head_eq_of_cons_eq heq) hquote
  · next heq => exact absurd (List.head_eq_of_cons_eq heq) hescape
  · next heq => exact absurd (List.head_eq_of_cons_eq heq) hescape
  · next heq =>
    cases heq
    rw [if_neg (not_or.2 ⟨hcode, hescape⟩)]
  · next heq => cases heq

/-- What is written for a character is read as the character. -/
theorem stringRest?_escaped_char (c : Char) (rest done : List Char) :
    stringRest? (escaped c ++ rest) done = stringRest? rest (c :: done) := by
  unfold escaped
  split
  · rfl
  · rfl
  · rfl
  · rfl
  · rfl
  · rfl
  · rfl
  · next hquote hescape _ _ _ _ _ =>
    split
    · next hcode => exact stringRest?_control hcode rest done
    · next hcode => exact stringRest?_plain hquote hescape hcode rest done

/-! ## Strings -/

/-- A string is read up to its closing quote. -/
theorem stringRest?_escaped (cs rest done : List Char) :
    stringRest? (cs.flatMap escaped ++ '"' :: rest) done =
      some (String.ofList (done.reverse ++ cs), rest) := by
  induction cs generalizing done with
  | nil => rw [List.flatMap_nil, List.nil_append, List.append_nil, stringRest?]
  | cons c cs ih =>
    rw [List.flatMap_cons, List.append_assoc, stringRest?_escaped_char, ih, List.reverse_cons,
      List.append_assoc, List.singleton_append]

theorem toList_quoted (s : String) :
    (quoted s).toList = '"' :: (s.toList.flatMap escaped ++ ['"']) := String.toList_ofList

/-- Quoted strings in front of other texts tell the strings. -/
theorem eq_of_quoted_append {s t : String} {rest rest' : List Char}
    (h : (quoted s).toList ++ rest = (quoted t).toList ++ rest') : s = t := by
  simp only [toList_quoted, List.cons_append, List.append_assoc, List.nil_append, List.cons.injEq,
    true_and] at h
  have htexts := stringRest?_escaped s.toList rest []
  rw [h, stringRest?_escaped, Option.some_inj, Prod.mk.injEq] at htexts
  simpa using htexts.1.symm

/-! ## Arrays and objects -/

/-- A member as it stands in the text of its object. -/
def memberText (m : String × Json) : List Char :=
  (quoted m.1).toList ++ ':' :: (compact m.2).toList

theorem compactItems_eq_map (items : List Json) : compactItems items = items.map compact := by
  induction items with
  | nil => rfl
  | cons v rest ih => rw [compactItems, ih, List.map_cons]

theorem map_toList_compactMembers (members : List (String × Json)) :
    (compactMembers members).map String.toList = members.map memberText := by
  induction members with
  | nil => rfl
  | cons m rest ih =>
    rw [compactMembers, List.map_cons, ih, List.map_cons]
    simp only [String.toList_append, List.append_assoc]
    rfl

theorem toList_compact_array (items : List Json) :
    (compact (.array items)).toList =
      '[' :: ([','].intercalate (items.map fun v => (compact v).toList) ++ [']']) := by
  rw [compact, compactItems_eq_map, String.toList_append, String.toList_append,
    String.toList_intercalate, List.map_map]
  rfl

theorem toList_compact_object (members : List (String × Json)) :
    (compact (.object members)).toList =
      '\x7b' :: ([','].intercalate (members.map memberText) ++ ['\x7d']) := by
  rw [compact, String.toList_append, String.toList_append, String.toList_intercalate,
    map_toList_compactMembers]
  rfl

/-- The text of an object tells its first member, if that is a string. -/
theorem eq_of_compact_object {name s t : String} {members members' : List (String × Json)}
    (h : compact (.object ((name, .string s) :: members)) =
      compact (.object ((name, .string t) :: members'))) : s = t := by
  have hfirst (v : Json) (ms : List (String × Json)) : ∃ rest,
      (compact (.object ((name, v) :: ms))).toList =
        '\x7b' :: ((quoted name).toList ++ ':' :: ((compact v).toList ++ rest)) := by
    rw [toList_compact_object]
    cases ms with
    | nil => exact ⟨['\x7d'], by simp [memberText]⟩
    | cons m ms =>
      rw [List.map_cons, List.map_cons, List.intercalate_cons_cons]
      exact ⟨_, by simp only [memberText, List.append_assoc, List.cons_append]; rfl⟩
  obtain ⟨rest, hs⟩ := hfirst (.string s) members
  obtain ⟨rest', ht⟩ := hfirst (.string t) members'
  rw [h, ht] at hs
  simp only [List.cons.injEq, true_and, List.append_cancel_left_eq] at hs
  exact (eq_of_quoted_append hs).symm

end Json
end UtmTiles
