import Mathlib.Data.List.Basic

/-!
# Partial results

A list of results is given if each of them is (`mapM_eq_none_of_mem`, `mapM_eq_ok_iff`). If some of
them fail, the first one to fail says how the list does (`FailsFirst`, `mapM_eq_error_iff`). What a
computation gives, apart from how it fails, is an optional value.
-/

namespace UtmTiles

/-! ## Lists of optional values -/

theorem mapM_bind_mapM {α β γ : Type} (f : α → Option β) (g : β → Option γ) (xs : List α) :
    (xs.mapM f).bind (fun ys => ys.mapM g) = xs.mapM fun x => (f x).bind g := by
  induction xs with
  | nil => rfl
  | cons x xs ih =>
    rw [List.mapM_cons, List.mapM_cons, ← ih]
    cases f x with
    | none => rfl
    | some y =>
      cases xs.mapM f with
      | none =>
        show none = (g y).bind fun _ => none
        cases g y <;> rfl
      | some ys => exact List.mapM_cons

theorem mapM_congr_of_mem {m : Type → Type} [Monad m] [LawfulMonad m] {α β : Type}
    {f g : α → m β} {xs : List α} (h : ∀ x ∈ xs, f x = g x) : xs.mapM f = xs.mapM g := by
  induction xs with
  | nil => rfl
  | cons x xs ih =>
    rw [List.forall_mem_cons] at h
    rw [List.mapM_cons, List.mapM_cons, h.1, ih h.2]

theorem mapM_eq_some_self_iff {α : Type} {f : α → Option α} {xs : List α} :
    xs.mapM f = some xs ↔ ∀ x ∈ xs, f x = some x := by
  induction xs with
  | nil => exact ⟨fun _ _ h => absurd h List.not_mem_nil, fun _ => rfl⟩
  | cons x xs ih =>
    rw [List.mapM_cons, List.forall_mem_cons, ← ih]
    cases f x with
    | none => simp
    | some y => cases xs.mapM f <;> simp

theorem mapM_eq_none_of_mem {α β : Type} {f : α → Option β} {xs : List α} {x : α} (hx : x ∈ xs)
    (h : f x = none) : xs.mapM f = none := by
  induction xs with
  | nil => exact absurd hx List.not_mem_nil
  | cons y ys ih =>
    rw [List.mapM_cons]
    rcases List.mem_cons.1 hx with rfl | hmem
    · rw [h]
      rfl
    · rw [ih hmem]
      cases f y <;> rfl

theorem length_of_mapM_eq_some {α β : Type} {f : α → Option β} {xs : List α} {ys : List β}
    (h : xs.mapM f = some ys) : ys.length = xs.length := by
  induction xs generalizing ys with
  | nil => cases h; rfl
  | cons x xs ih =>
    rw [List.mapM_cons] at h
    obtain ⟨y, -, h⟩ := Option.bind_eq_some_iff.1 h
    obtain ⟨zs, hzs, h⟩ := Option.bind_eq_some_iff.1 h
    cases h
    rw [List.length_cons, List.length_cons, ih hzs]

theorem mapM_cons_eq_some {α β : Type} {f : α → Option β} {x : α} {xs : List α} {y : β}
    {ys : List β} (hx : f x = some y) (hxs : xs.mapM f = some ys) :
    (x :: xs).mapM f = some (y :: ys) := by
  rw [List.mapM_cons, hx, hxs]
  rfl

/-! ## Results and faults -/

section Results

variable {ε ε' β γ : Type}

theorem toOption_map (result : Except ε β) (f : β → γ) :
    (result.map f).toOption = result.toOption.map f := by
  cases result <;> rfl

theorem eq_ok_of_toOption {result : Except ε β} {b : β} (h : result.toOption = some b) :
    result = .ok b := by
  cases result with
  | error => contradiction
  | ok => exact congrArg Except.ok (Option.some.inj h)

theorem eq_error_of_toOption {result : Except ε β} (h : result.toOption = none) :
    ∃ e, result = .error e := by
  cases result with
  | error e => exact ⟨e, rfl⟩
  | ok => contradiction

theorem map_toOption_eq_iff {results : List (Except ε β)} {bs : List β} :
    results.map Except.toOption = bs.map some ↔ results = bs.map .ok := by
  induction results generalizing bs with
  | nil => cases bs <;> simp
  | cons result results ih =>
    cases bs with
    | nil => simp
    | cons b bs => cases result <;> simp [ih, Except.toOption]

theorem exists_eq_ok_of_isOk {result : Except ε β} (h : result.isOk = true) :
    ∃ b, result = .ok b := by
  cases result with
  | error => contradiction
  | ok b => exact ⟨b, rfl⟩

theorem mapError_ok_bind (wrap : ε → ε') (b : β) (f : β → Except ε' γ) :
    ((Except.ok b : Except ε β).mapError wrap >>= f) = f b := rfl

end Results

/-! ## Steps that may fail -/

section Steps

variable {ε β γ : Type} {result : Except ε β} {next : β → Except ε γ}

theorem bind_eq_ok_iff {c : γ} :
    result >>= next = .ok c ↔ ∃ b, result = .ok b ∧ next b = .ok c := by
  cases result with
  | error e =>
    constructor
    · intro h
      cases h
    · rintro ⟨b, h, -⟩
      cases h
  | ok b =>
    constructor
    · intro h
      exact ⟨b, rfl, h⟩
    · rintro ⟨b', h, hnext⟩
      cases h
      exact hnext

theorem bind_eq_error_iff {e : ε} :
    result >>= next = .error e ↔ result = .error e ∨ ∃ b, result = .ok b ∧ next b = .error e := by
  cases result with
  | error e' =>
    constructor
    · intro h
      cases h
      exact Or.inl rfl
    · rintro (h | ⟨b, h, -⟩)
      · cases h
        rfl
      · cases h
  | ok b =>
    constructor
    · intro h
      exact Or.inr ⟨b, rfl, h⟩
    · rintro (h | ⟨b', h, hnext⟩)
      · cases h
      · cases h
        exact hnext

/-- A step with its errors put into other words gives the same results. -/
theorem mapError_eq_ok_iff {ε' : Type} {wrap : ε → ε'} {b : β} :
    result.mapError wrap = .ok b ↔ result = .ok b := by
  cases result with
  | error e =>
    constructor
    · nofun
    · nofun
  | ok b' =>
    constructor
    · intro h
      cases h
      rfl
    · intro h
      cases h
      rfl

theorem mapError_eq_error_iff {ε' : Type} {wrap : ε → ε'} {e : ε'} :
    result.mapError wrap = .error e ↔ ∃ fault, result = .error fault ∧ e = wrap fault := by
  cases result with
  | error fault =>
    constructor
    · intro h
      cases h
      exact ⟨fault, rfl, rfl⟩
    · rintro ⟨_, h, rfl⟩
      cases h
      rfl
  | ok b =>
    constructor
    · nofun
    · nofun

end Steps

/-! ## Lists of results -/

section Lists

variable {ε α β γ : Type}

/-- A step fails at an element of a list, and at none before it. -/
def FailsFirst (step : α → Except ε β) (xs : List α) (fault : ε) : Prop :=
  ∃ before x after, xs = before ++ x :: after ∧ (∀ y ∈ before, ∃ b, step y = .ok b) ∧
    step x = .error fault

theorem failsFirst_nil {step : α → Except ε β} {fault : ε} : ¬ FailsFirst step [] fault := by
  rintro ⟨before, x, after, h, -⟩
  exact List.append_ne_nil_of_right_ne_nil before (List.cons_ne_nil x after) h.symm

theorem failsFirst_cons {step : α → Except ε β} {x : α} {xs : List α} {fault : ε} :
    FailsFirst step (x :: xs) fault ↔
      step x = .error fault ∨ ∃ b, step x = .ok b ∧ FailsFirst step xs fault := by
  constructor
  · rintro ⟨before, y, after, h, hbefore, hy⟩
    cases before with
    | nil =>
      cases h
      exact Or.inl hy
    | cons z before =>
      cases h
      rw [List.forall_mem_cons] at hbefore
      obtain ⟨b, hb⟩ := hbefore.1
      exact Or.inr ⟨b, hb, before, y, after, rfl, hbefore.2, hy⟩
  · rintro (h | ⟨b, hb, before, y, after, rfl, hbefore, hy⟩)
    · exact ⟨[], x, xs, rfl, nofun, h⟩
    · exact ⟨x :: before, y, after, rfl, List.forall_mem_cons.2 ⟨⟨b, hb⟩, hbefore⟩, hy⟩

/-- The results of a list are those of its elements, one for each. -/
theorem mapM_eq_ok_iff {step : α → Except ε β} {xs : List α} {ys : List β} :
    xs.mapM step = .ok ys ↔ xs.map step = ys.map .ok := by
  induction xs generalizing ys with
  | nil =>
    rw [List.mapM_nil, List.map_nil, eq_comm (a := []), List.map_eq_nil_iff]
    exact ⟨fun h => (Except.ok.inj h).symm, fun h => congrArg Except.ok h.symm⟩
  | cons x xs ih =>
    rw [List.mapM_cons, List.map_cons, eq_comm (a := step x :: _), List.map_eq_cons_iff]
    simp only [bind_eq_ok_iff, ih]
    constructor
    · rintro ⟨y, hy, zs, hzs, h⟩
      cases h
      exact ⟨y, zs, rfl, hy.symm, hzs.symm⟩
    · rintro ⟨y, zs, rfl, hy, hzs⟩
      exact ⟨y, hy.symm, zs, hzs.symm, rfl⟩

/-- A list of results fails where the first of them does. -/
theorem mapM_eq_error_iff {step : α → Except ε β} {xs : List α} {fault : ε} :
    xs.mapM step = .error fault ↔ FailsFirst step xs fault := by
  induction xs with
  | nil => exact ⟨nofun, fun h => absurd h failsFirst_nil⟩
  | cons x xs ih =>
    rw [List.mapM_cons, bind_eq_error_iff, failsFirst_cons, ← ih]
    simp only [bind_eq_error_iff]
    constructor
    · rintro (h | ⟨b, hb, h | ⟨_, -, h⟩⟩)
      · exact Or.inl h
      · exact Or.inr ⟨b, hb, h⟩
      · cases h
    · rintro (h | ⟨b, hb, h⟩)
      · exact Or.inl h
      · exact Or.inr ⟨b, hb, Or.inl h⟩

/-- There are results of a list exactly if there is one of each element. -/
theorem exists_mapM_ok_iff {step : α → Except ε β} {xs : List α} :
    (∃ ys, xs.mapM step = .ok ys) ↔ ∀ x ∈ xs, ∃ y, step x = .ok y := by
  constructor
  · rintro ⟨ys, h⟩ x hx
    have hmem := List.mem_map_of_mem (f := step) hx
    rw [mapM_eq_ok_iff.1 h] at hmem
    obtain ⟨y, -, hy⟩ := List.mem_map.1 hmem
    exact ⟨y, hy.symm⟩
  · intro h
    cases hresult : xs.mapM step with
    | ok ys => exact ⟨ys, rfl⟩
    | error fault =>
      obtain ⟨before, x, after, rfl, -, hx⟩ := mapM_eq_error_iff.1 hresult
      obtain ⟨y, hy⟩ := h x (List.mem_append_right _ List.mem_cons_self)
      rw [hx] at hy
      cases hy

theorem length_of_mapM_eq_ok {step : α → Except ε β} {xs : List α} {ys : List β}
    (h : xs.mapM step = .ok ys) : ys.length = xs.length := by
  have hlength := congrArg List.length (mapM_eq_ok_iff.1 h)
  rw [List.length_map, List.length_map] at hlength
  exact hlength.symm

theorem forM_eq_ok_iff {step : α → Except ε Unit} {xs : List α} :
    xs.forM step = .ok () ↔ ∀ x ∈ xs, step x = .ok () := by
  induction xs with
  | nil => exact ⟨nofun, fun _ => rfl⟩
  | cons x xs ih =>
    rw [List.forall_mem_cons, ← ih]
    exact bind_eq_ok_iff.trans ⟨fun ⟨_, hx, h⟩ => ⟨hx, h⟩, fun ⟨hx, h⟩ => ⟨(), hx, h⟩⟩

theorem forM_eq_error_iff {step : α → Except ε Unit} {xs : List α} {fault : ε} :
    xs.forM step = .error fault ↔ FailsFirst step xs fault := by
  induction xs with
  | nil => exact ⟨nofun, fun h => absurd h failsFirst_nil⟩
  | cons x xs ih =>
    rw [failsFirst_cons, ← ih]
    exact bind_eq_error_iff

/-- The results of several lists, put together, are those of the lists put together. -/
theorem mapM_flatMap (step : β → Except ε γ) (parts : α → List β) (xs : List α) :
    (xs.flatMap parts).mapM step =
      (xs.mapM fun x => (parts x).mapM step).map List.flatten := by
  induction xs with
  | nil => rfl
  | cons x xs ih =>
    rw [List.flatMap_cons, List.mapM_append, ih, List.mapM_cons]
    cases (parts x).mapM step with
    | error => rfl
    | ok ys => cases xs.mapM fun x => (parts x).mapM step <;> rfl

end Lists

end UtmTiles
