import UtmTiles.Key.Reader
import UtmTiles.Proofs.Decimal.Text
import UtmTiles.Proofs.Partial

/-!
# The texts that are keys

`FieldTexts.Says` is what six fields say about a key, field by field: numbers of a certain form in a
certain range. A text is read as a key exactly if its fields say so. In every other text with six
fields the fault is about the first field that says nothing (`FirstFault`).
-/

namespace UtmTiles

/-! ## Faults of fields -/

namespace TileFault

/-- The name of the field that a fault is about. -/
def field? : TileFault Float → Option String
  | notInteger field _ => some field.name
  | outOfRange field _ => some field.name
  | tilesizeOutside _ => some "tilesize"
  | padOutside _ => some "pad"
  | resolutionNotDecimal _ => some "resolution"
  | resolutionTextNotPositive _ => some "resolution"
  | keyZoneOutside _ => some "zone"
  | _ => none

/-- The message begins with the name. -/
def Names (fault : TileFault Float) (name : String) : Prop :=
  ∃ rest, fault.message = name ++ " " ++ rest

/-- The message about a field begins with the field's name. -/
theorem names_of_field? {fault : TileFault Float} {name : String} (h : fault.field? = some name) :
    fault.Names name := by
  cases fault with
  | notInteger field text =>
    obtain rfl := Option.some.inj h
    refine ⟨"must be an integer, got '" ++ text ++ "'", ?_⟩
    show field.name ++ (" " ++ "must be an integer, got '") ++ text ++ "'" = _
    simp only [String.append_assoc]
  | outOfRange field text =>
    obtain rfl := Option.some.inj h
    refine ⟨"is out of range, got '" ++ text ++ "'", ?_⟩
    show field.name ++ (" " ++ "is out of range, got '") ++ text ++ "'" = _
    simp only [String.append_assoc]
  | tilesizeOutside tilesize =>
    obtain rfl := Option.some.inj h
    refine ⟨"must be greater than zero, got " ++ toString tilesize, ?_⟩
    show ("tilesize" ++ " " ++ "must be greater than zero, got ") ++ toString tilesize = _
    rw [String.append_assoc]
  | padOutside pad =>
    obtain rfl := Option.some.inj h
    refine ⟨"must be non-negative, got " ++ toString pad, ?_⟩
    show ("pad" ++ " " ++ "must be non-negative, got ") ++ toString pad = _
    rw [String.append_assoc]
  | resolutionNotDecimal text =>
    obtain rfl := Option.some.inj h
    refine ⟨"must be a decimal number, got '" ++ text ++ "'", ?_⟩
    show ("resolution" ++ " " ++ "must be a decimal number, got '") ++ text ++ "'" = _
    simp only [String.append_assoc]
  | resolutionTextNotPositive text =>
    obtain rfl := Option.some.inj h
    refine ⟨"must be greater than zero, got " ++ text, ?_⟩
    show ("resolution" ++ " " ++ "must be greater than zero, got ") ++ text = _
    rw [String.append_assoc]
  | keyZoneOutside zone =>
    obtain rfl := Option.some.inj h
    refine ⟨"must be between 1 and 60, got " ++ toString zone, ?_⟩
    show ("zone" ++ " " ++ "must be between 1 and 60, got ") ++ toString zone = _
    rw [String.append_assoc]
  | fieldCount => cases h
  | gridFieldCount => cases h
  | zoneOutside => cases h
  | zeroTilesize => cases h
  | resolutionNotPositive => cases h
  | rasterTooLarge => cases h
  | unevenSubdivision => cases h
  | unevenResolution => cases h
  | indexOutOfRange => cases h
  | otherSpan => cases h

end TileFault

namespace TileKey

open Binary64
open Decimal (IsDigits IsInteger IsDecimal areDigits areDigits_iff ofDigits)

/-! ## What a field says -/

/-- The text is a whole number in a range. -/
def IsIntegerIn (low high : ℤ) (cs : List Char) (n : ℤ) : Prop :=
  IsInteger cs n ∧ low ≤ n ∧ n ≤ high

/-- The text is a decimal, and the double nearest to it is finite and positive. -/
def IsResolutionOf (cs : List Char) (x : Float) : Prop :=
  ∃ q, IsDecimal cs q ∧ IsRounded x q ∧ 0 < value x

/-- The texts of the six fields of a key. -/
structure FieldTexts where
  tilesize : List Char
  pad : List Char
  resolution : List Char
  zone : List Char
  ti : List Char
  tj : List Char

namespace FieldTexts

def toList (f : FieldTexts) : List (List Char) :=
  [f.tilesize, f.pad, f.resolution, f.zone, f.ti, f.tj]

/-- The fields are the numbers of the key. -/
structure Says (f : FieldTexts) (key : TileKey Float) : Prop where
  tilesize : IsIntegerIn 1 4294967295 f.tilesize key.tilesize
  pad : IsIntegerIn 0 4294967295 f.pad key.pad
  resolution : IsResolutionOf f.resolution key.resolution
  zone : IsIntegerIn 1 60 f.zone key.zone
  ti : IsIntegerIn (-2 ^ 63) (2 ^ 63 - 1) f.ti key.ti
  tj : IsIntegerIn (-2 ^ 63) (2 ^ 63 - 1) f.tj key.tj

/-- The names of the fields, each with the condition that its text says something. -/
def checks (f : FieldTexts) : List (String × Prop) :=
  [("tilesize", ∃ n : ℕ, IsIntegerIn 1 4294967295 f.tilesize n),
   ("pad", ∃ n : ℕ, IsIntegerIn 0 4294967295 f.pad n),
   ("resolution", ∃ x, IsResolutionOf f.resolution x),
   ("zone", ∃ n : ℕ, IsIntegerIn 1 60 f.zone n),
   ("ti", ∃ n, IsIntegerIn (-2 ^ 63) (2 ^ 63 - 1) f.ti n),
   ("tj", ∃ n, IsIntegerIn (-2 ^ 63) (2 ^ 63 - 1) f.tj n)]

end FieldTexts

/-- The fault is about the first check that fails. -/
inductive FirstFault (fault : TileFault Float) : List (String × Prop) → Prop
  | here {name : String} {holds : Prop} {checks : List (String × Prop)} (hfails : ¬ holds)
      (hnames : fault.Names name) : FirstFault fault ((name, holds) :: checks)
  | later {name : String} {holds : Prop} {checks : List (String × Prop)} (hholds : holds)
      (h : FirstFault fault checks) : FirstFault fault ((name, holds) :: checks)

/-! ## Readers of fields -/

/-- The result is what the field says, if it says anything, and else a fault about the field. -/
structure Reads {β : Type} (name : String) (result : Except (TileFault Float) β)
    (Says : β → Prop) : Prop where
  ok_iff : ∀ b, result = .ok b ↔ Says b
  field? : ∀ fault, result = .error fault → fault.field? = some name

/-- The fault of a step that fails is found by the first reader, or by the readers after it. -/
theorem Reads.firstFault {β γ : Type} {name : String} {result : Except (TileFault Float) β}
    {Says : β → Prop} (h : Reads name result Says) {next : β → Except (TileFault Float) γ}
    {fault : TileFault Float} {checks : List (String × Prop)} (hfault : result >>= next = .error fault)
    (hnext : ∀ b, next b = .error fault → FirstFault fault checks) :
    FirstFault fault ((name, ∃ b, Says b) :: checks) := by
  rcases bind_eq_error_iff.1 hfault with herror | ⟨b, hok, hrest⟩
  · refine .here ?_ (TileFault.names_of_field? (h.field? fault herror))
    rintro ⟨b, hb⟩
    rw [(h.ok_iff b).2 hb] at herror
    cases herror
  · exact .later ⟨b, (h.ok_iff b).1 hok⟩ (hnext b hrest)

section Integers

variable {cs : List Char} {n : ℤ}

/-- A minus sign is told from the digits. -/
theorem isInteger_iff : IsInteger cs n ↔
    let negative := cs.head? == some '-'
    let digits := if negative then cs.tail else cs
    IsDigits digits ∧ n = if negative then -(ofDigits digits : ℤ) else ofDigits digits := by
  constructor
  · rintro (h | h)
    · -- digits do not begin with a minus sign
      have hhead : (cs.head? == some '-') = false := by
        rw [beq_eq_false_iff_ne]
        exact fun he => h.not_mem (by decide) (List.mem_of_head? he)
      simp only [hhead, Bool.false_eq_true, if_false]
      exact ⟨h, trivial⟩
    · exact ⟨h, rfl⟩
  · rintro ⟨hdigits, rfl⟩
    cases hhead : cs.head? == some '-' with
    | true =>
      obtain ⟨ds, rfl⟩ := List.head?_eq_some_iff.1 (beq_iff_eq.1 hhead)
      simp only [hhead, if_true] at hdigits ⊢
      exact .minus hdigits
    | false =>
      simp only [hhead, Bool.false_eq_true, if_false] at hdigits ⊢
      exact .digits hdigits

theorem reads_int (field : KeyField) (cs : List Char) :
    Reads field.name (readInt field cs) (IsIntegerIn (-2 ^ 63) (2 ^ 63 - 1) cs) := by
  unfold readInt IsIntegerIn
  simp only [isInteger_iff]
  generalize (if cs.head? == some '-' then cs.tail else cs) = digits
  generalize (if cs.head? == some '-' then -(ofDigits digits : ℤ) else ofDigits digits) = n
  cases hdigits : areDigits digits with
  | false =>
    have hnone : ¬ IsDigits digits := by
      rw [← areDigits_iff, hdigits]
      exact Bool.false_ne_true
    refine ⟨fun b => ⟨nofun, fun h => absurd h.1.1 hnone⟩, fun fault h => ?_⟩
    cases h
    rfl
  | true =>
    rw [areDigits_iff] at hdigits
    simp only [hdigits, true_and, Bool.not_true, Bool.false_eq_true, if_false]
    split
    · next hout =>
      refine ⟨fun b => ⟨nofun, ?_⟩, fun fault h => ?_⟩
      · rintro ⟨rfl, hrange⟩
        unfold minIndex maxIndex at hout
        omega
      · cases h
        rfl
    · next hin =>
      refine ⟨fun b => ⟨fun h => ?_, ?_⟩, nofun⟩
      · cases h
        unfold minIndex maxIndex at hin
        omega
      · rintro ⟨rfl, -⟩
        rfl

/-- A whole number with a range of its own. -/
theorem reads_natural (field : KeyField) (cs : List Char) {low high : ℤ} (hlow : 0 ≤ low)
    (hhigh : high ≤ 2 ^ 63 - 1) {outside : ℤ → Prop} [DecidablePred outside]
    (houtside : ∀ n, outside n ↔ n < low ∨ high < n) {fault : ℤ → TileFault Float}
    (hfault : ∀ n, (fault n).field? = some field.name) :
    Reads field.name
      (readInt field cs >>= fun n => if outside n then .error (fault n) else .ok n.toNat)
      (fun n : ℕ => IsIntegerIn low high cs n) := by
  have hint := reads_int field cs
  constructor
  · intro b
    rw [bind_eq_ok_iff]
    constructor
    · rintro ⟨n, hn, hb⟩
      obtain ⟨hinteger, -⟩ := (hint.ok_iff n).1 hn
      split at hb
      · cases hb
      · next hin =>
        cases hb
        rw [houtside] at hin
        rw [IsIntegerIn, Int.toNat_of_nonneg (by omega)]
        exact ⟨hinteger, by omega⟩
    · rintro ⟨hinteger, hrange⟩
      refine ⟨b, (hint.ok_iff b).2 ⟨hinteger, by omega⟩, ?_⟩
      rw [if_neg (by rw [houtside]; omega), Int.toNat_natCast]
  · intro f hf
    rcases bind_eq_error_iff.1 hf with herror | ⟨n, -, hn⟩
    · exact hint.field? f herror
    · split at hn
      · cases hn
        exact hfault n
      · cases hn

theorem reads_tilesize (cs : List Char) :
    Reads "tilesize" (readTilesize cs) (fun n : ℕ => IsIntegerIn 1 4294967295 cs n) :=
  reads_natural .tilesize cs (by decide) (by decide)
    (fun n => or_congr Int.lt_add_one_iff.symm Iff.rfl) fun _ => rfl

theorem reads_pad (cs : List Char) :
    Reads "pad" (readPad cs) (fun n : ℕ => IsIntegerIn 0 4294967295 cs n) :=
  reads_natural .pad cs (by decide) (by decide) (fun _ => Iff.rfl) fun _ => rfl

theorem reads_zone (cs : List Char) :
    Reads "zone" (readZone cs) (fun n : ℕ => IsIntegerIn 1 60 cs n) :=
  reads_natural .zone cs (by decide) (by decide) (fun _ => Iff.rfl) fun _ => rfl

end Integers

/-! ## Resolutions -/

section Resolutions

variable {cs whole fraction : List Char}

theorem decimal?_eq_some_iff : decimal? cs = some (whole, fraction) ↔
    (cs = whole ∧ fraction = [] ∧ IsDigits whole) ∨
      (cs = whole ++ '.' :: fraction ∧ IsDigits whole ∧ IsDigits fraction) := by
  have hfields (fs : List (List Char)) := @Text.fields_eq_iff '.' cs fs
  constructor
  · intro h
    unfold decimal? at h
    split at h
    · next ds heq =>
      obtain ⟨hcs, -⟩ := (hfields [ds] (List.cons_ne_nil _ _)).1 heq
      split at h
      · next hds =>
        cases h
        exact Or.inl ⟨hcs, rfl, areDigits_iff.1 hds⟩
      · cases h
    · next ds fs heq =>
      obtain ⟨hcs, -⟩ := (hfields [ds, fs] (List.cons_ne_nil _ _)).1 heq
      split at h
      · next hdigits =>
        rw [Bool.and_eq_true, areDigits_iff, areDigits_iff] at hdigits
        cases h
        exact Or.inr ⟨hcs, hdigits⟩
      · cases h
    · cases h
  · unfold decimal?
    rintro (⟨rfl, rfl, hds⟩ | ⟨rfl, hds, hfs⟩)
    · rw [Text.fields_of_not_mem (hds.not_mem (by decide))]
      simp only [areDigits_iff.2 hds, if_true]
    · rw [Text.fields_append_sep (hds.not_mem (by decide)),
        Text.fields_of_not_mem (hfs.not_mem (by decide))]
      simp only [areDigits_iff.2 hds, areDigits_iff.2 hfs, Bool.and_self, if_true]

/-- The number of a decimal is read from its digits and the place of the point. -/
theorem isDecimal_iff {q : ℚ} : IsDecimal cs q ↔ ∃ whole fraction,
    decimal? cs = some (whole, fraction) ∧
      q = ofDigits (whole ++ fraction) * 10 ^ (-(fraction.length : ℤ)) := by
  constructor
  · rintro (h | ⟨hd, hf⟩)
    · refine ⟨cs, [], decimal?_eq_some_iff.2 (Or.inl ⟨rfl, rfl, h⟩), ?_⟩
      rw [List.append_nil, List.length_nil, Nat.cast_zero, neg_zero, zpow_zero, mul_one]
    · refine ⟨_, _, decimal?_eq_some_iff.2 (Or.inr ⟨rfl, hd, hf⟩), ?_⟩
      rw [Decimal.ofDigits_append_mul_zpow]
  · rintro ⟨whole, fraction, h, rfl⟩
    rcases decimal?_eq_some_iff.1 h with ⟨rfl, rfl, hd⟩ | ⟨rfl, hd, hf⟩
    · rw [List.append_nil, List.length_nil, Nat.cast_zero, neg_zero, zpow_zero, mul_one]
      exact .whole hd
    · rw [Decimal.ofDigits_append_mul_zpow]
      exact .fraction hd hf

theorem reads_resolution (cs : List Char) :
    Reads "resolution" (readResolution cs) (IsResolutionOf cs) := by
  unfold readResolution IsResolutionOf
  simp only [isDecimal_iff]
  cases hdecimal : decimal? cs with
  | none =>
    refine ⟨fun b => ⟨nofun, ?_⟩, fun fault h => ?_⟩
    · rintro ⟨q, ⟨whole, fraction, hsome, -⟩, -⟩
      cases hsome
    · cases h
      rfl
  | some parts =>
    obtain ⟨whole, fraction⟩ := parts
    have hdouble := Decimal.isDoubleOf_nearest (ofDigits (whole ++ fraction)) (-fraction.length)
    have htexts (b : Float) : (∃ q, (∃ w f, some (whole, fraction) = some (w, f) ∧
        q = (ofDigits (w ++ f) : ℚ) * 10 ^ (-(f.length : ℤ))) ∧ IsRounded b q ∧ 0 < value b) ↔
        IsRounded b (ofDigits (whole ++ fraction) * 10 ^ (-(fraction.length : ℤ))) ∧
          0 < value b := by
      constructor
      · rintro ⟨q, ⟨w, f, hparts, rfl⟩, hb⟩
        cases hparts
        exact hb
      · intro hb
        exact ⟨_, ⟨whole, fraction, rfl, rfl⟩, hb⟩
    simp only [htexts, hdouble.isRounded_iff]
    split
    · next hpositive =>
      refine ⟨fun b => ?_, nofun⟩
      rw [Except.ok.injEq, eq_comm, and_iff_right hpositive]
    · next hnone =>
      refine ⟨fun b => ⟨nofun, fun h => absurd h.1 hnone⟩, fun fault h => ?_⟩
      cases h
      rfl

end Resolutions

/-! ## Keys -/

/-- A text is read as a key exactly if it has six fields that say what the key is. -/
theorem read_eq_ok_iff {text : String} {key : TileKey Float} : read text = .ok key ↔
    ∃ f : FieldTexts, Text.fields ':' text.toList = f.toList ∧ f.Says key := by
  unfold read
  split
  · next tilesize pad resolution zone ti tj heq =>
    simp only [bind_eq_ok_iff, (reads_tilesize _).ok_iff, (reads_pad _).ok_iff,
      (reads_resolution _).ok_iff, (reads_zone _).ok_iff, (reads_int _ _).ok_iff]
    rw [heq]
    constructor
    · rintro ⟨n, hn, p, hp, x, hx, z, hz, i, hi, j, hj, hkey⟩
      cases hkey
      exact ⟨⟨tilesize, pad, resolution, zone, ti, tj⟩, rfl, hn, hp, hx, hz, hi, hj⟩
    · rintro ⟨f, hf, htexts⟩
      obtain ⟨_, _, _, _, _, _⟩ := f
      cases hf
      exact ⟨_, htexts.tilesize, _, htexts.pad, _, htexts.resolution, _, htexts.zone, _, htexts.ti, _,
        htexts.tj, rfl⟩
  · next hfields =>
    constructor
    · nofun
    · rintro ⟨f, hf, -⟩
      exact absurd hf (hfields _ _ _ _ _ _)

/-- The fault in six fields is about the first one that says nothing. -/
theorem firstFault_of_read {text : String} {fault : TileFault Float} {f : FieldTexts}
    (h : read text = .error fault) (hf : Text.fields ':' text.toList = f.toList) :
    FirstFault fault f.checks := by
  unfold read at h
  rw [hf] at h
  refine (reads_tilesize _).firstFault h fun _ h => ?_
  refine (reads_pad _).firstFault h fun _ h => ?_
  refine (reads_resolution _).firstFault h fun _ h => ?_
  refine (reads_zone _).firstFault h fun _ h => ?_
  refine (reads_int .ti _).firstFault h fun _ h => ?_
  refine (reads_int .tj _).firstFault h fun _ h => ?_
  cases h

/-- A text is read as a key if it has six fields that are numbers of the right form and size, and as
these numbers. Every other text is an invalid tile; if it has six fields then the message begins
with the name of the first one that is not such a number. -/
theorem read_ok_iff_says_or_first_fault (text : String) :
    (∀ key, read text = .ok key ↔
      ∃ f : FieldTexts, Text.fields ':' text.toList = f.toList ∧ f.Says key) ∧
    ((∃ key, read text = .ok key) ∨
      ∃ fault, (read text).mapError Error.tile = .error (.tile fault) ∧
        ∀ f : FieldTexts, Text.fields ':' text.toList = f.toList → FirstFault fault f.checks) := by
  refine ⟨fun key => read_eq_ok_iff, ?_⟩
  cases hread : read text with
  | ok key => exact Or.inl ⟨key, rfl⟩
  | error fault => exact Or.inr ⟨fault, rfl, fun f hf => firstFault_of_read hread hf⟩

end TileKey
end UtmTiles
