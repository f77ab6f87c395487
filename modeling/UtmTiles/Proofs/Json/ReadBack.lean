import UtmTiles.Proofs.Json.Machine
import UtmTiles.Proofs.Json.Number
import UtmTiles.Proofs.Json.Text

/-!
# JSON texts read back

The text of an array or object is read as what the texts of its parts are read as, put together
(`read?_array`, `read?_object`), as long as it is not nested too deeply. Texts, truth values and whole
numbers of 64 bits are read as they are (`read?_string`, `read?_int`). Of doubles only the finite ones
can be read as doubles (`read?_float`): all others are written as nothing at all.
-/

namespace UtmTiles
namespace Json

/-! ## Depth -/

mutual

/-- How deeply arrays and objects are nested. -/
def depth : Json → ℕ
  | array items => itemsDepth items + 1
  | object members => membersDepth members + 1
  | _ => 0

def itemsDepth : List Json → ℕ
  | [] => 0
  | v :: rest => max (depth v) (itemsDepth rest)

def membersDepth : List (String × Json) → ℕ
  | [] => 0
  | (_, v) :: rest => max (depth v) (membersDepth rest)

end

theorem itemsDepth_le_iff {items : List Json} {n : ℕ} :
    itemsDepth items ≤ n ↔ ∀ v ∈ items, depth v ≤ n := by
  induction items with
  | nil => simp [itemsDepth]
  | cons v rest ih => simp [itemsDepth, ih]

theorem membersDepth_le_iff {members : List (String × Json)} {n : ℕ} :
    membersDepth members ≤ n ↔ ∀ m ∈ members, depth m.2 ≤ n := by
  induction members with
  | nil => simp [membersDepth]
  | cons m rest ih => simp [membersDepth, ih]

/-- What holds of an array or object if it holds of its parts, and of all other values, holds of all
values. -/
theorem nested_ind {motive : Json → Prop} (null : motive null) (bool : ∀ b, motive (bool b))
    (int : ∀ n, motive (int n)) (float : ∀ x, motive (float x)) (string : ∀ s, motive (string s))
    (array : ∀ items, (∀ v ∈ items, motive v) → motive (array items))
    (object : ∀ members, (∀ m ∈ members, motive m.2) → motive (object members)) (v : Json) :
    motive v := by
  refine @Json.rec motive (fun items => ∀ v ∈ items, motive v)
    (fun members => ∀ m ∈ members, motive m.2) (fun m => motive m.2)
    null bool int float string array object ?_ ?_ ?_ ?_ ?_ v
  · exact fun _ h => absurd h List.not_mem_nil
  · exact fun v items hv hitems => List.forall_mem_cons.2 ⟨hv, hitems⟩
  · exact fun _ h => absurd h List.not_mem_nil
  · exact fun m members hm hmembers => List.forall_mem_cons.2 ⟨hm, hmembers⟩
  · exact fun _ _ h => h

/-! ## Texts within texts -/

variable {limit : ℕ}

/-- A text is read as one value, or as nothing, wherever a value may stand. -/
def ReadsAs (limit depth : ℕ) (text : List Char) (result : Option Json) : Prop :=
  ∀ (stack : List Frame) (next : Expectation) (rest : List Char), stack.length + depth < limit →
    next = .value ∨ next = .valueOrEnd → EndsValue rest →
    run limit (text ++ rest) ⟨stack, next⟩ =
      result.bind fun v => run limit rest (Machine.put v stack)

theorem ReadsAs.readWithin? {depth : ℕ} {text : String} {result : Option Json}
    (h : ReadsAs limit depth text.toList result) (hdepth : depth < limit) :
    readWithin? limit text = result := by
  have hrun := h [] .value [] (by rwa [List.length_nil, Nat.zero_add]) (Or.inl rfl)
    fun _ hc => absurd hc (Option.not_mem_none _)
  rw [List.append_nil] at hrun
  rw [readWithin?_eq_run, hrun]
  cases result <;> rfl

theorem ReadsAs.mono {d e : ℕ} {text : List Char} {result : Option Json}
    (h : ReadsAs limit d text result) (hde : d ≤ e) : ReadsAs limit e text result :=
  fun stack next rest hdepth => h stack next rest (by omega)

/-- A token that is a value. -/
theorem readsAs_of_token? {depth : ℕ} {c : Char} {cs : List Char} (hc : isBlank c = false)
    {result : Option Json} (h : ∀ rest, EndsValue rest →
      token? (c :: cs ++ rest) = result.map fun v => (.atom v, rest)) :
    ReadsAs limit depth (c :: cs) result := by
  intro stack next rest _ hnext hrest
  rw [List.cons_append, run_cons hc, ← List.cons_append, h rest hrest]
  cases result with
  | none => rfl
  | some v => rcases hnext with rfl | rfl <;> rfl

/-- What a value's text is read as. -/
def reread (limit : ℕ) (v : Json) : Option Json := readWithin? limit (compact v)

/-! ## Arrays -/

section Openings

variable {stack : List Frame} (hdepth : stack.length + 1 < limit) {next : Expectation}
  (hnext : next = .value ∨ next = .valueOrEnd) (cs : List Char)

include hdepth hnext

theorem run_openArray :
    run limit ('[' :: cs) ⟨stack, next⟩ = run limit cs ⟨.items [] :: stack, .valueOrEnd⟩ := by
  have hstep : Machine.step limit ⟨stack, next⟩ .openArray =
      Machine.enter limit stack (.items []) .valueOrEnd := by
    rcases hnext with rfl | rfl <;> rfl
  rw [run_cons rfl]
  show (Machine.step limit ⟨stack, next⟩ .openArray).bind _ = _
  rw [hstep, Machine.enter, if_pos hdepth, Option.bind_some]

theorem run_openObject :
    run limit ('\x7b' :: cs) ⟨stack, next⟩ = run limit cs ⟨.members [] "" :: stack, .nameOrEnd⟩ := by
  have hstep : Machine.step limit ⟨stack, next⟩ .openObject =
      Machine.enter limit stack (.members [] "") .nameOrEnd := by
    rcases hnext with rfl | rfl <;> rfl
  rw [run_cons rfl]
  show (Machine.step limit ⟨stack, next⟩ .openObject).bind _ = _
  rw [hstep, Machine.enter, if_pos hdepth, Option.bind_some]

end Openings

theorem run_comma_items (done : List Json) (stack : List Frame) (cs : List Char) :
    run limit (',' :: cs) ⟨.items done :: stack, .commaOrEnd⟩ =
      run limit cs ⟨.items done :: stack, .value⟩ := by
  rw [run_cons rfl]
  rfl

theorem endsValue_laterItems (items : List Json) (rest : List Char) :
    EndsValue (items.flatMap (fun v => ',' :: (compact v).toList) ++ ']' :: rest) := by
  cases items with
  | nil => exact fun c hc => Or.inr (Or.inl (Option.mem_some.1 hc).symm)
  | cons w items => exact fun c hc => Or.inl (Option.mem_some.1 hc).symm

theorem run_laterItems {depth : ℕ} {items : List Json}
    (h : ∀ v ∈ items, ReadsAs limit depth (compact v).toList (reread limit v)) (done : List Json)
    {stack : List Frame} (hdepth : stack.length + 1 + depth < limit) (rest : List Char) :
    run limit (items.flatMap (fun v => ',' :: (compact v).toList) ++ ']' :: rest)
        ⟨.items done :: stack, .commaOrEnd⟩ =
      (items.mapM (reread limit)).bind fun ws =>
        run limit rest (.put (array (done.reverse ++ ws)) stack) := by
  induction items generalizing done with
  | nil =>
    rw [List.flatMap_nil, List.nil_append, run_cons rfl, List.mapM_nil]
    simp only [Option.pure_def, Option.bind_some, List.append_nil]
    rfl
  | cons v items ih =>
    have hv := h v List.mem_cons_self (.items done :: stack) .value _ hdepth (Or.inl rfl)
      (endsValue_laterItems items rest)
    rw [List.flatMap_cons, List.cons_append, List.cons_append, run_comma_items, List.append_assoc, hv,
      List.mapM_cons]
    cases reread limit v with
    | none => rfl
    | some w =>
      show run limit _ ⟨.items (w :: done) :: stack, .commaOrEnd⟩ = _
      rw [ih (fun u hu => h u (List.mem_cons_of_mem _ hu))]
      cases items.mapM (reread limit) with
      | none => rfl
      | some ws =>
        show run limit rest (.put (array ((w :: done).reverse ++ ws)) stack) =
          run limit rest (.put (array (done.reverse ++ w :: ws)) stack)
        rw [List.reverse_cons, List.append_assoc, List.singleton_append]

theorem intercalate_cons_eq_flatMap {α : Type} (sep x : List α) (xs : List (List α)) :
    sep.intercalate (x :: xs) = x ++ xs.flatMap (sep ++ ·) := by
  induction xs generalizing x with
  | nil => simp
  | cons y ys ih =>
    rw [List.intercalate_cons_cons, ih, List.flatMap_cons, List.append_assoc, List.append_assoc]

theorem readsAs_array {depth : ℕ} {items : List Json}
    (h : ∀ v ∈ items, ReadsAs limit depth (compact v).toList (reread limit v)) :
    ReadsAs limit (depth + 1) (compact (array items)).toList
      ((items.mapM (reread limit)).map array) := by
  intro stack next rest hdepth hnext _
  have hbelow : stack.length + 1 < limit := by omega
  rw [toList_compact_array, List.cons_append, run_openArray hbelow hnext]
  cases items with
  | nil =>
    show run limit (']' :: rest) _ = _
    rw [run_cons rfl]
    rfl
  | cons v items =>
    have hlater := run_laterItems fun u hu => h u (List.mem_cons_of_mem v hu)
    have hv := h v List.mem_cons_self (.items [] :: stack) .valueOrEnd _
      (by rw [List.length_cons]; omega) (Or.inr rfl) (endsValue_laterItems items rest)
    rw [List.map_cons, intercalate_cons_eq_flatMap, List.flatMap_map, List.append_assoc,
      List.append_assoc, List.singleton_append]
    show run limit ((compact v).toList ++ (items.flatMap (fun v => ',' :: (compact v).toList) ++ _)) _ = _
    rw [hv, List.mapM_cons]
    cases reread limit v with
    | none => rfl
    | some w =>
      show run limit _ ⟨.items [w] :: stack, .commaOrEnd⟩ = _
      rw [hlater _ (by omega)]
      cases items.mapM (reread limit) <;> rfl

/-! ## Objects -/

/-- What a member of an object is read as. -/
def rereadMember (limit : ℕ) (m : String × Json) : Option (String × Json) :=
  (reread limit m.2).map (m.1, ·)

/-- Members put in their places one after the other. -/
def insertMembers (done members : List (String × Json)) : List (String × Json) :=
  members.foldl (fun done m => insertMember m.1 m.2 done) done

theorem endsValue_laterMembers (members : List (String × Json)) (rest : List Char) :
    EndsValue (members.flatMap (fun m => ',' :: memberText m) ++ '\x7d' :: rest) := by
  cases members with
  | nil => exact fun c hc => Or.inr (Or.inr (Option.mem_some.1 hc).symm)
  | cons w items => exact fun c hc => Or.inl (Option.mem_some.1 hc).symm

theorem run_comma_members (done : List (String × Json)) (last : String) (stack : List Frame)
    (cs : List Char) : run limit (',' :: cs) ⟨.members done last :: stack, .commaOrEnd⟩ =
      run limit cs ⟨.members done last :: stack, .name⟩ := by
  rw [run_cons rfl]
  rfl

theorem run_member {depth : ℕ} {m : String × Json}
    (h : ReadsAs limit depth (compact m.2).toList (reread limit m.2)) (done : List (String × Json))
    (last : String) {stack : List Frame} (hdepth : stack.length + 1 + depth < limit)
    {next : Expectation} (hnext : next = .name ∨ next = .nameOrEnd) {rest : List Char}
    (hrest : EndsValue rest) :
    run limit (memberText m ++ rest) ⟨.members done last :: stack, next⟩ =
      (rereadMember limit m).bind fun w =>
        run limit rest ⟨.members (insertMember w.1 w.2 done) w.1 :: stack, .commaOrEnd⟩ := by
  have hname (cs : List Char) : run limit ((quoted m.1).toList ++ cs)
      ⟨.members done last :: stack, next⟩ = run limit cs ⟨.members done m.1 :: stack, .colon⟩ := by
    rw [toList_quoted, List.cons_append, run_cons rfl, List.append_assoc, List.singleton_append]
    have htoken : token? ('"' :: (m.1.toList.flatMap escaped ++ '"' :: cs)) =
        some (.atom (string m.1), cs) := by
      rw [token?, stringRest?_escaped, List.reverse_nil, List.nil_append, String.ofList_toList]
      rfl
    rw [htoken, Option.bind_some]
    rcases hnext with rfl | rfl <;> rfl
  have hvalue := h (.members done m.1 :: stack) .value rest hdepth (Or.inl rfl) hrest
  rw [memberText, List.append_assoc, hname, List.cons_append, run_cons rfl]
  show run limit ((compact m.2).toList ++ rest) ⟨.members done m.1 :: stack, .value⟩ = _
  rw [hvalue, rereadMember]
  cases reread limit m.2 <;> rfl

theorem run_laterMembers {depth : ℕ} {members : List (String × Json)}
    (h : ∀ m ∈ members, ReadsAs limit depth (compact m.2).toList (reread limit m.2))
    (done : List (String × Json)) (last : String) {stack : List Frame}
    (hdepth : stack.length + 1 + depth < limit) (rest : List Char) :
    run limit (members.flatMap (fun m => ',' :: memberText m) ++ '\x7d' :: rest)
        ⟨.members done last :: stack, .commaOrEnd⟩ =
      (members.mapM (rereadMember limit)).bind fun ws =>
        run limit rest (.put (object (insertMembers done ws)) stack) := by
  induction members generalizing done last with
  | nil =>
    rw [List.flatMap_nil, List.nil_append, run_cons rfl, List.mapM_nil]
    rfl
  | cons m members ih =>
    have hm := run_member (h m List.mem_cons_self) done last hdepth (Or.inl rfl)
      (endsValue_laterMembers members rest)
    rw [List.flatMap_cons, List.cons_append, List.cons_append, run_comma_members, List.append_assoc,
      hm, List.mapM_cons]
    cases rereadMember limit m with
    | none => rfl
    | some w =>
      rw [Option.bind_some, ih fun u hu => h u (List.mem_cons_of_mem _ hu)]
      cases members.mapM (rereadMember limit) <;> rfl

theorem readsAs_object {depth : ℕ} {members : List (String × Json)}
    (h : ∀ m ∈ members, ReadsAs limit depth (compact m.2).toList (reread limit m.2)) :
    ReadsAs limit (depth + 1) (compact (object members)).toList
      ((members.mapM (rereadMember limit)).map fun ws => object (insertMembers [] ws)) := by
  intro stack next rest hdepth hnext _
  have hbelow : stack.length + 1 < limit := by omega
  rw [toList_compact_object, List.cons_append, run_openObject hbelow hnext]
  cases members with
  | nil =>
    show run limit ('\x7d' :: rest) _ = _
    rw [run_cons rfl]
    rfl
  | cons m members =>
    have hbelow : stack.length + 1 + depth < limit := by omega
    have hm := run_member (h m List.mem_cons_self) [] "" hbelow (Or.inr rfl)
      (endsValue_laterMembers members rest)
    rw [List.map_cons, intercalate_cons_eq_flatMap, List.flatMap_map, List.append_assoc,
      List.append_assoc, List.singleton_append]
    show run limit (memberText m ++ (members.flatMap (fun m => ',' :: memberText m) ++ _)) _ = _
    rw [hm, List.mapM_cons]
    cases rereadMember limit m with
    | none => rfl
    | some w =>
      rw [Option.bind_some, run_laterMembers (fun u hu => h u (List.mem_cons_of_mem _ hu)) _ _ (by omega)]
      cases members.mapM (rereadMember limit) <;> rfl

/-! ## Values without parts -/

theorem readsAs_string {depth : ℕ} (s : String) :
    ReadsAs limit depth (compact (string s)).toList (some (string s)) := by
  show ReadsAs limit depth (quoted s).toList _
  rw [toList_quoted]
  refine readsAs_of_token? rfl fun rest _ => ?_
  rw [List.cons_append, List.append_assoc, List.singleton_append, token?, stringRest?_escaped,
    List.reverse_nil, List.nil_append, String.ofList_toList]
  rfl

/-- A number's text starts with a digit or a minus sign. -/
theorem exists_signed_eq_cons (negative : Bool) (n : Decimal.Numeral) :
    ∃ c cs, signed negative n.toList = c :: cs ∧ isBlank c = false := by
  cases negative with
  | true => exact ⟨'-', n.toList, rfl, rfl⟩
  | false =>
    obtain ⟨d, ds, htext⟩ := List.exists_cons_of_ne_nil n.isDigits_whole.ne_nil
    refine ⟨d, ds ++ n.afterWhole, ?_, ?_⟩
    · show n.toList = _
      rw [Decimal.Numeral.toList, htext, List.cons_append]
    · have hd := n.isDigits_whole.isDigit d (htext ▸ List.mem_cons_self)
      have hblank {c : Char} (hc : ¬ ('0' ≤ c ∧ c ≤ '9')) : d ≠ c := fun heq => hc (heq ▸ hd)
      simp only [isBlank, hblank (c := ' ') (by decide), hblank (c := '\t') (by decide),
        hblank (c := '\n') (by decide), hblank (c := '\r') (by decide), decide_false, Bool.or_false]

theorem readsAs_signed {depth : ℕ} (negative : Bool) (n : Decimal.Numeral) :
    ReadsAs limit depth (signed negative n.toList) (ofNumeral? negative n) := by
  obtain ⟨c, cs, htext, hblank⟩ := exists_signed_eq_cons negative n
  rw [htext]
  exact readsAs_of_token? hblank fun rest hrest => htext ▸ token?_numeral negative n hrest

theorem readsAs_null {depth : ℕ} : ReadsAs limit depth "null".toList (some null) :=
  readsAs_of_token? rfl fun _ _ => rfl

theorem readsAs_bool {depth : ℕ} (b : Bool) :
    ReadsAs limit depth (compact (bool b)).toList (some (bool b)) := by
  cases b with
  | true => exact readsAs_of_token? rfl fun _ _ => rfl
  | false => exact readsAs_of_token? rfl fun _ _ => rfl

theorem readsAs_int {depth : ℕ} (n : ℤ) : ReadsAs limit depth (compact (int n)).toList
    (ofNumeral? (n < 0) (wholeNumeral n.natAbs)) := by
  rw [toList_compact_int]
  exact readsAs_signed _ _

/-- A double that is not finite leaves no trace, and a finite one is read as a double or not at all. -/
theorem readsAs_float (limit depth : ℕ) (x : Float) : ∃ result : Option Json,
    ReadsAs limit depth (compact (float x)).toList result ∧
      (x.isFinite = false → result = some null) ∧
      (x.isFinite = true → ∃ y : Option Float, result = y.map float) := by
  cases hx : x.isFinite with
  | false =>
    refine ⟨some null, ?_, fun _ => rfl, fun h => absurd h Bool.false_ne_true⟩
    rw [compact, floatText, if_neg (by rw [hx]; exact Bool.false_ne_true)]
    exact readsAs_null
  | true =>
    obtain ⟨negative, n, htext, hmarked⟩ := exists_numeral_floatText hx
    refine ⟨ofNumeral? negative n, ?_, fun h => absurd h.symm Bool.false_ne_true,
      fun _ => ⟨(scaled n).float? negative, ?_⟩⟩
    · rw [compact, htext]
      exact readsAs_signed negative n
    · exact if_neg fun h => hmarked.elim (absurd h.1) (absurd h.2)

/-! ## All values -/

theorem ReadsAs.self {v : Json} {depth : ℕ} {result : Option Json}
    (h : ReadsAs limit depth (compact v).toList result) :
    ReadsAs limit depth (compact v).toList (reread limit v) := by
  intro stack next rest hdepth
  have hreread : reread limit v = result := h.readWithin? (by omega)
  rw [hreread]
  exact h stack next rest hdepth

/-- A value's text is read as the same wherever it may stand. -/
theorem readsAs_compact (v : Json) : ReadsAs limit (depth v) (compact v).toList (reread limit v) := by
  induction v using nested_ind with
  | null => exact readsAs_null.self
  | bool b => exact (readsAs_bool b).self
  | int n => exact (readsAs_int n).self
  | float x =>
    obtain ⟨result, h, -⟩ := readsAs_float _ _ x
    exact h.self
  | string s => exact (readsAs_string s).self
  | array items ih =>
    exact (readsAs_array fun v hv => (ih v hv).mono (itemsDepth_le_iff.1 le_rfl v hv)).self
  | object members ih =>
    exact (readsAs_object fun m hm => (ih m hm).mono (membersDepth_le_iff.1 le_rfl m hm)).self

/-! ## What is read -/

theorem reread_array {items : List Json} (h : depth (array items) < limit) :
    reread limit (array items) = (items.mapM (reread limit)).map array := by
  have hitems := itemsDepth_le_iff.1 (le_refl (itemsDepth items))
  have hread : ∀ v ∈ items, ReadsAs limit (itemsDepth items) (compact v).toList (reread limit v) :=
    fun v hv => (readsAs_compact v).mono (hitems v hv)
  exact (readsAs_array hread).readWithin? h

theorem reread_object {members : List (String × Json)} (h : depth (object members) < limit) :
    reread limit (object members) =
      (members.mapM (rereadMember limit)).map fun ws => object (insertMembers [] ws) := by
  have hmembers := membersDepth_le_iff.1 (le_refl (membersDepth members))
  have hread : ∀ m ∈ members,
      ReadsAs limit (membersDepth members) (compact m.2).toList (reread limit m.2) :=
    fun m hm => (readsAs_compact m.2).mono (hmembers m hm)
  exact (readsAs_object hread).readWithin? h

theorem reread_string (hlimit : 0 < limit) (s : String) :
    reread limit (string s) = some (string s) :=
  (readsAs_string s).readWithin? hlimit

theorem reread_int (hlimit : 0 < limit) {n : ℤ} (hlow : -2 ^ 63 ≤ n) (hhigh : n < 2 ^ 64) :
    reread limit (int n) = some (int n) :=
  ((readsAs_int n).readWithin? hlimit).trans (ofNumeral?_int hlow hhigh)

/-- The double that a double's text is read as. -/
def doubleBack? (limit : ℕ) (x : Float) : Option Float := (reread limit (float x)).bind float?

theorem doubleBack?_of_not_isFinite (hlimit : 0 < limit) {x : Float} (hx : x.isFinite = false) :
    doubleBack? limit x = none := by
  obtain ⟨result, h, hnull, -⟩ := readsAs_float limit 0 x
  have hreread : reread limit (float x) = result := h.readWithin? hlimit
  rw [doubleBack?, hreread, hnull hx]
  rfl

/-- What is read is a double, whether it is the one that was written or another one. -/
theorem doubleBack?_eq_some_iff (hlimit : 0 < limit) {x y : Float} :
    doubleBack? limit x = some y ↔ reread limit (float x) = some (float y) := by
  obtain ⟨result, h, hnull, hdouble⟩ := readsAs_float limit 0 x
  have hreread : reread limit (float x) = result := h.readWithin? hlimit
  rw [doubleBack?, hreread]
  cases hx : x.isFinite with
  | false =>
    rw [hnull hx]
    constructor
    · intro h
      cases h
    · intro h
      cases h
  | true =>
    obtain ⟨z, rfl⟩ := hdouble hx
    cases z with
    | none =>
      constructor
      · intro h
        cases h
      · intro h
        cases h
    | some z =>
      show some z = some y ↔ some (float z) = some (float y)
      rw [Option.some_inj, Option.some_inj, Json.float.injEq]

end Json
end UtmTiles
