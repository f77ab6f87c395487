import UtmTiles.Service.Cover
import Mathlib.Algebra.BigOperators.Group.Finset.Piecewise
import Mathlib.Data.List.Nodup

/-!
# What a node selects

Elements are numbered from 0 and dealt out to the nodes in turn, so that a node's share are the
elements whose numbers leave its own number (`share`; `own` with the numbers). A run through a sequence
selects the share, up to the limit (`chosen_run`). It goes through the whole sequence if the share is
too short for the limit (`seen_run_of_short`), and otherwise up to the element that fills the limit
(`seen_run_of_reached`).

The shares of all nodes make up the sequence: element `i` is number `i / nodes` in the share of the
node `i % nodes` (`getElem?_share`), and no element is in two shares.
-/

namespace UtmTiles
namespace Selection

variable {α : Type}

/-! ## Shares -/

/-- The elements that belong to a node, for elements numbered from some number on. -/
def share (nodes nodeno : ℕ) : ℕ → List α → List α
  | _, [] => []
  | number, a :: rest =>
    if number % nodes = nodeno then a :: share nodes nodeno (number + 1) rest
    else share nodes nodeno (number + 1) rest

theorem share_sublist (nodes nodeno number : ℕ) (as : List α) :
    (share nodes nodeno number as).Sublist as := by
  induction as generalizing number with
  | nil => exact List.Sublist.refl []
  | cons a rest ih =>
    unfold share
    split
    · exact (ih (number + 1)).cons_cons a
    · exact (ih (number + 1)).cons a

theorem share_map {β : Type} (f : α → β) (nodes nodeno number : ℕ) (as : List α) :
    share nodes nodeno number (as.map f) = (share nodes nodeno number as).map f := by
  induction as generalizing number with
  | nil => rfl
  | cons a rest ih =>
    rw [List.map_cons, share, share, ih]
    split
    · rfl
    · rfl

/-- A share is made of every `nodes`-th element, from the first one of the node on. -/
theorem getElem?_share_of_skip {nodes nodeno number skip : ℕ} (hskip : skip < nodes)
    (hfirst : (number + skip) % nodes = nodeno) (as : List α) (j : ℕ) :
    (share nodes nodeno number as)[j]? = as[skip + j * nodes]? := by
  induction as generalizing number skip j with
  | nil => rfl
  | cons a rest ih =>
    unfold share
    cases skip with
    | zero =>
      rw [Nat.add_zero] at hfirst
      rw [if_pos hfirst]
      cases j with
      | zero =>
        rw [Nat.zero_mul, Nat.add_zero]
        rfl
      | succ j =>
        -- the node's next element comes after those of all other nodes
        have hnext : (number + 1 + (nodes - 1)) % nodes = nodeno := by
          rw [show number + 1 + (nodes - 1) = number + nodes by omega, Nat.add_mod_right, hfirst]
        have hplace : 0 + (j + 1) * nodes = nodes - 1 + j * nodes + 1 := by
          rw [Nat.succ_mul]
          omega
        rw [List.getElem?_cons_succ, ih (by omega) hnext, hplace, List.getElem?_cons_succ]
    | succ skip =>
      have hother : number % nodes ≠ nodeno := by
        intro hsame
        have hmultiple := Nat.sub_mod_eq_zero_of_mod_eq (hfirst.trans hsame.symm)
        rw [Nat.add_sub_cancel_left, Nat.mod_eq_of_lt hskip] at hmultiple
        omega
      have hnext : (number + 1 + skip) % nodes = nodeno := by
        rw [show number + 1 + skip = number + (skip + 1) by omega, hfirst]
      rw [if_neg hother, ih (by omega) hnext, Nat.add_right_comm, List.getElem?_cons_succ]

theorem getElem?_share {nodes nodeno : ℕ} (h : nodeno < nodes) (as : List α) (j : ℕ) :
    (share nodes nodeno 0 as)[j]? = as[nodeno + j * nodes]? :=
  getElem?_share_of_skip h (by rw [Nat.zero_add, Nat.mod_eq_of_lt h]) as j

/-- Element `i` is number `i / nodes` of the node `i % nodes`. -/
theorem getElem?_share_of_number {nodes : ℕ} (h : 0 < nodes) (as : List α) (i : ℕ) :
    (share nodes (i % nodes) 0 as)[i / nodes]? = as[i]? := by
  rw [getElem?_share (Nat.mod_lt i h), Nat.mul_comm, Nat.mod_add_div]

theorem mem_share {nodes nodeno : ℕ} (h : nodeno < nodes) {as : List α} {a : α} :
    a ∈ share nodes nodeno 0 as ↔ ∃ i, i % nodes = nodeno ∧ as[i]? = some a := by
  rw [List.mem_iff_getElem?]
  constructor
  · rintro ⟨j, hj⟩
    rw [getElem?_share h] at hj
    refine ⟨_, ?_, hj⟩
    rw [Nat.add_mul_mod_self_right, Nat.mod_eq_of_lt h]
  · rintro ⟨i, rfl, hi⟩
    exact ⟨i / nodes, (getElem?_share_of_number (Nat.zero_lt_of_lt h) as i).trans hi⟩

/-- No element belongs to two nodes. -/
theorem share_disjoint {nodes j k : ℕ} (hj : j < nodes) (hk : k < nodes) (hne : j ≠ k)
    {as : List α} (has : as.Nodup) :
    (share nodes j 0 as).Disjoint (share nodes k 0 as) := by
  intro a haj hak
  obtain ⟨i, rfl, hi⟩ := (mem_share hj).1 haj
  obtain ⟨l, rfl, hl⟩ := (mem_share hk).1 hak
  obtain ⟨hlength, -⟩ := List.getElem?_eq_some_iff.1 hi
  have hsame := (List.getElem?_inj hlength has).1 (hi.trans hl.symm)
  exact hne (congrArg (· % nodes) hsame)

/-- Each element belongs to one node. -/
theorem sum_length_share {nodes : ℕ} (h : 0 < nodes) (number : ℕ) (as : List α) :
    ∑ k ∈ Finset.range nodes, (share nodes k number as).length = as.length := by
  induction as generalizing number with
  | nil => exact Finset.sum_const_zero
  | cons a rest ih =>
    have hcons (k : ℕ) : (share nodes k number (a :: rest)).length =
        (if number % nodes = k then 1 else 0) + (share nodes k (number + 1) rest).length := by
      rw [share]
      split
      · exact Nat.add_comm _ 1
      · exact (Nat.zero_add _).symm
    rw [Finset.sum_congr rfl fun k _ => hcons k, Finset.sum_add_distrib, ih, Finset.sum_ite_eq,
      if_pos (Finset.mem_range.2 (Nat.mod_lt number h)), Nat.add_comm, List.length_cons]

/-! ## Shares with numbers -/

/-- The elements that belong to a node, each with its number, for elements numbered from some number
on. -/
def own (nodes nodeno number : ℕ) (as : List α) : List (α × ℕ) :=
  (as.zipIdx number).filter fun p => p.2 % nodes = nodeno

section Own

variable {nodes nodeno number : ℕ} (a : α) (rest : List α)

theorem own_cons_of_eq (h : number % nodes = nodeno) :
    own nodes nodeno number (a :: rest) = (a, number) :: own nodes nodeno (number + 1) rest := by
  simp [own, h]

theorem own_cons_of_ne (h : number % nodes ≠ nodeno) :
    own nodes nodeno number (a :: rest) = own nodes nodeno (number + 1) rest := by
  simp [own, h]

end Own

/-- A node's share, without the numbers. -/
theorem share_eq_map_own (nodes nodeno number : ℕ) (as : List α) :
    share nodes nodeno number as = (own nodes nodeno number as).map Prod.fst := by
  induction as generalizing number with
  | nil => rfl
  | cons a rest ih =>
    rw [share]
    split
    · next h => rw [own_cons_of_eq a rest h, ih, List.map_cons]
    · next h => rw [own_cons_of_ne a rest h, ih]

/-! ## Limits -/

/-- The elements up to a limit, some of which have been put out before. -/
def upTo (limit : Option ℕ) (written : ℕ) (as : List α) : List α :=
  match limit with
  | none => as
  | some most => as.take (most - written)

theorem upTo_sublist (limit : Option ℕ) (written : ℕ) (as : List α) :
    (upTo limit written as).Sublist as := by
  cases limit with
  | none => exact List.Sublist.refl as
  | some most => exact List.take_sublist _ as

theorem upTo_map {β : Type} (f : α → β) (limit : Option ℕ) (written : ℕ) (as : List α) :
    upTo limit written (as.map f) = (upTo limit written as).map f := by
  cases limit with
  | none => rfl
  | some most => exact List.map_take.symm

theorem upTo_of_reached {limit : Option ℕ} {written : ℕ} (h : limit.any (· ≤ written) = true)
    (as : List α) : upTo limit written as = [] := by
  cases limit with
  | none => cases h
  | some most =>
    have hmost : most ≤ written := of_decide_eq_true h
    rw [upTo, Nat.sub_eq_zero_of_le hmost, List.take_zero]

theorem upTo_cons {limit : Option ℕ} {written : ℕ} (h : limit.any (· ≤ written) = false)
    (a : α) (as : List α) : upTo limit written (a :: as) = a :: upTo limit (written + 1) as := by
  cases limit with
  | none => rfl
  | some most =>
    have hmost : ¬ most ≤ written := of_decide_eq_false h
    rw [upTo, show most - written = most - (written + 1) + 1 by omega, List.take_succ_cons]
    rfl

theorem upTo_zero (limit : Option ℕ) (as : List α) : upTo limit 0 as = limit.elim as as.take := by
  cases limit with
  | none => rfl
  | some most => rfl

theorem any_le_eq_false_iff {limit : Option ℕ} {written : ℕ} :
    limit.any (· ≤ written) = false ↔ ∀ most ∈ limit, written < most := by
  cases limit with
  | none => simp
  | some most => simp

/-! ## Runs -/

section Step

variable {nodes nodeno : ℕ} {limit : Option ℕ} {s : Selection α} (a : α)
  (tail : Unit → Sequence α)

theorem run_cons_of_full (hlimit : limit.any (· ≤ s.written) = true) :
    run nodes nodeno limit (.cons a tail) s = { s with stopped := true } := by
  rw [run, if_pos hlimit]

theorem run_cons_of_eq (hlimit : limit.any (· ≤ s.written) = false) (h : s.seen % nodes = nodeno) :
    run nodes nodeno limit (.cons a tail) s = run nodes nodeno limit (tail ())
      { s with seen := s.seen + 1, chosen := a :: s.chosen, written := s.written + 1 } := by
  rw [run, if_neg (Bool.eq_false_iff.1 hlimit), if_pos h]

theorem run_cons_of_ne (hlimit : limit.any (· ≤ s.written) = false) (h : s.seen % nodes ≠ nodeno) :
    run nodes nodeno limit (.cons a tail) s =
      run nodes nodeno limit (tail ()) { s with seen := s.seen + 1 } := by
  rw [run, if_neg (Bool.eq_false_iff.1 hlimit), if_neg h]

end Step

section Chosen

variable (nodes nodeno : ℕ) (limit : Option ℕ)

/-- A run selects the share of its node, up to the limit. -/
theorem chosen_run (as : Sequence α) (s : Selection α) :
    (run nodes nodeno limit as s).chosen.reverse =
      s.chosen.reverse ++ upTo limit s.written (share nodes nodeno s.seen as.toList) := by
  induction as generalizing s with
  | nil =>
    rw [run, Sequence.toList_nil, share, List.sublist_nil.1 (upTo_sublist limit s.written []),
      List.append_nil]
  | cons a tail ih =>
    rw [run, Sequence.toList_cons]
    by_cases hlimit : limit.any (· ≤ s.written) = true
    · rw [if_pos hlimit, upTo_of_reached hlimit, List.append_nil]
    · rw [if_neg hlimit, share]
      split
      · rw [ih, upTo_cons (Bool.eq_false_of_not_eq_true hlimit), List.reverse_cons,
          List.append_assoc, List.singleton_append]
      · rw [ih]

/-- A run counts what it selects. -/
theorem written_run (as : Sequence α) {s : Selection α} (h : s.written = s.chosen.length) :
    (run nodes nodeno limit as s).written = (run nodes nodeno limit as s).chosen.length := by
  induction as generalizing s with
  | nil => exact h
  | cons a tail ih =>
    rw [run]
    split
    · exact h
    · split
      · apply ih
        rw [h, List.length_cons]
      · exact ih () h

end Chosen

section Seen

variable {nodes nodeno : ℕ}

/-- At the limit, a run ends where it is. -/
theorem seen_run_of_full {limit : Option ℕ} {s : Selection α}
    (hlimit : limit.any (· ≤ s.written) = true) (as : Sequence α) :
    (run nodes nodeno limit as s).seen = s.seen := by
  cases as with
  | nil => rfl
  | cons a tail => rw [run_cons_of_full a tail hlimit]

/-- With fewer elements of its own than the limit lets through, a node goes through all elements. -/
theorem seen_run_of_short {limit : Option ℕ} (as : Sequence α) {s : Selection α}
    (h : ∀ most ∈ limit, s.written + (own nodes nodeno s.seen as.toList).length < most) :
    (run nodes nodeno limit as s).seen = s.seen + as.toList.length := by
  induction as generalizing s with
  | nil => rfl
  | cons a tail ih =>
    have hlimit : limit.any (· ≤ s.written) = false :=
      any_le_eq_false_iff.2 fun most hmost => Nat.lt_of_le_of_lt (Nat.le_add_right _ _) (h most hmost)
    simp only [Sequence.toList_cons, List.length_cons] at h ⊢
    by_cases hown : s.seen % nodes = nodeno
    · rw [own_cons_of_eq a _ hown] at h
      rw [run_cons_of_eq a tail hlimit hown, ih]
      · simp only
        omega
      · intro most hmost
        have hmost := h most hmost
        simp only [List.length_cons] at hmost ⊢
        omega
    · rw [own_cons_of_ne a _ hown] at h
      rw [run_cons_of_ne a tail hlimit hown, ih () h]
      simp only
      omega

/-- A node that reaches its limit ends right behind the element that fills it. -/
theorem seen_run_of_reached (as : Sequence α) {s : Selection α} {j i : ℕ} {b : α}
    (h : (own nodes nodeno s.seen as.toList)[j]? = some (b, i)) :
    (run nodes nodeno (some (s.written + j + 1)) as s).seen = i + 1 := by
  induction as generalizing s j with
  | nil => simp [own] at h
  | cons a tail ih =>
    have hlimit : (some (s.written + j + 1)).any (· ≤ s.written) = false := by
      rw [any_le_eq_false_iff]
      rintro most ⟨⟩
      omega
    rw [Sequence.toList_cons] at h
    by_cases hown : s.seen % nodes = nodeno
    · rw [own_cons_of_eq a _ hown] at h
      rw [run_cons_of_eq a tail hlimit hown]
      cases j with
      | zero =>
        obtain ⟨-, rfl⟩ : a = b ∧ s.seen = i := by simpa using h
        exact seen_run_of_full (by simp) (tail ())
      | succ j =>
        have hnext := ih () (s := { s with
          seen := s.seen + 1, chosen := a :: s.chosen, written := s.written + 1 }) h
        rwa [Nat.add_right_comm s.written 1 j] at hnext
    · rw [own_cons_of_ne a _ hown] at h
      rw [run_cons_of_ne a tail hlimit hown]
      exact ih () (s := { s with seen := s.seen + 1 }) h

end Seen

end Selection
end UtmTiles
