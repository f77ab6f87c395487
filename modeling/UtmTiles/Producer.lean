import UtmTiles.Sequence

/-!
# Producers

A producer hands out elements one at a time and keeps a state between them. `left` says what a state
has still to give, and the two laws tie the machine to it: an element that is handed out is the first
of those left, and the others are left afterwards.

The laws settle what any number of calls gives (`ask_eq_getElem?`): the elements left, in order, and
nothing from their end on.
-/

namespace UtmTiles

/-- A machine that hands out elements one at a time. -/
structure Producer (σ α : Type) where
  /-- The next element, if there is one, and the state after the call. -/
  next : σ → Option α × σ
  /-- What is still to be handed out. -/
  left : σ → List α
  next_fst : ∀ s, (next s).1 = (left s).head?
  left_next : ∀ s, left (next s).2 = (left s).tail

namespace Producer

variable {σ α : Type}

/-- The answer to a call, counted from 0. -/
def ask (p : Producer σ α) (s : σ) : Nat → Option α
  | 0 => (p.next s).1
  | n + 1 => p.ask (p.next s).2 n

/-- The state after a number of calls. -/
def after (p : Producer σ α) (s : σ) : Nat → σ
  | 0 => s
  | n + 1 => p.after (p.next s).2 n

/-- The elements are handed out in order, and from their end on there are none. -/
theorem ask_eq_getElem? (p : Producer σ α) (s : σ) (n : Nat) : p.ask s n = (p.left s)[n]? := by
  induction n generalizing s with
  | zero => rw [ask, p.next_fst, List.head?_eq_getElem?]
  | succ n ih => rw [ask, ih, p.left_next, List.getElem?_tail]

theorem left_after (p : Producer σ α) (s : σ) (n : Nat) :
    p.left (p.after s n) = (p.left s).drop n := by
  induction n generalizing s with
  | zero => rfl
  | succ n ih => rw [after, ih, p.left_next, List.drop_tail]

/-- Calls that follow others go on where those ended. -/
theorem ask_after (p : Producer σ α) (s : σ) (m n : Nat) :
    p.ask (p.after s m) n = p.ask s (m + n) := by
  rw [ask_eq_getElem?, ask_eq_getElem?, left_after, List.getElem?_drop]

theorem left_of_next {p : Producer σ α} {s t : σ} {a : α} (h : p.next s = (some a, t)) :
    p.left s = a :: p.left t := by
  have hhead := p.next_fst s
  have htail := p.left_next s
  rw [h] at hhead htail
  obtain ⟨rest, hrest⟩ := List.head?_eq_some_iff.1 hhead.symm
  rw [htail, hrest, List.tail_cons]

theorem left_of_end {p : Producer σ α} {s t : σ} (h : p.next s = (none, t)) : p.left s = [] := by
  have hhead := p.next_fst s
  rw [h] at hhead
  exact List.head?_eq_none_iff.1 hhead.symm

def elements (p : Producer σ α) (s : σ) : Sequence α :=
  match _h : p.next s with
  | (some a, t) => .cons a fun _ => p.elements t
  | (none, _) => .nil
termination_by (p.left s).length
decreasing_by
  rw [left_of_next _h]
  exact Nat.lt_succ_self _

@[simp] theorem toList_elements (p : Producer σ α) (s : σ) : (p.elements s).toList = p.left s := by
  fun_induction elements p s with
  | case1 s a t h ih => rw [Sequence.toList_cons, ih, left_of_next h]
  | case2 s t h => rw [Sequence.toList_nil, left_of_end h]

/-- The machine whose elements are the values of a function. -/
def map {β : Type} (f : α → β) (p : Producer σ α) : Producer σ β where
  next s :=
    let (a, t) := p.next s
    (a.map f, t)
  left s := (p.left s).map f
  next_fst s := by simp only [p.next_fst, List.head?_map]
  left_next s := by simp only [p.left_next, List.map_tail]

end Producer
end UtmTiles
