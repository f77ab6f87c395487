/-!
# Sequences

A finite sequence whose elements are computed when they are asked for. `toList` is what a sequence
holds; each operation is described by what it does to that list.
-/

namespace UtmTiles

/-- A finite sequence: an element, and the rest when it is asked for. -/
inductive Sequence (α : Type) where
  | nil
  | cons (head : α) (tail : Unit → Sequence α)

namespace Sequence

variable {α β : Type}

def toList : Sequence α → List α
  | nil => []
  | cons a tail => a :: (tail ()).toList

def next? : Sequence α → Option (α × Sequence α)
  | nil => none
  | cons a tail => some (a, tail ())

/-- The first few elements, and the rest. -/
def splitAt : Nat → Sequence α → List α × Sequence α
  | 0, s => ([], s)
  | _ + 1, nil => ([], nil)
  | n + 1, cons a tail =>
    let (first, rest) := splitAt n (tail ())
    (a :: first, rest)

def drop : Nat → Sequence α → Sequence α
  | 0, s => s
  | _ + 1, nil => nil
  | n + 1, cons _ tail => drop n (tail ())

/-- Goes through the elements, from the first one on. -/
def foldl (f : β → α → β) : β → Sequence α → β
  | b, nil => b
  | b, cons a tail => foldl f (f b a) (tail ())

/-! ### What the operations hold -/

@[simp] theorem toList_nil : (nil : Sequence α).toList = [] := rfl

@[simp] theorem toList_cons (a : α) (tail : Unit → Sequence α) :
    (cons a tail).toList = a :: (tail ()).toList := rfl

@[simp] theorem splitAt_fst (n : Nat) (s : Sequence α) : (s.splitAt n).1 = s.toList.take n := by
  induction n generalizing s with
  | zero => simp [splitAt]
  | succ n ih => cases s <;> simp [splitAt, ih]

@[simp] theorem toList_splitAt_snd (n : Nat) (s : Sequence α) :
    (s.splitAt n).2.toList = s.toList.drop n := by
  induction n generalizing s with
  | zero => simp [splitAt]
  | succ n ih => cases s <;> simp [splitAt, ih]

@[simp] theorem toList_drop (n : Nat) (s : Sequence α) : (s.drop n).toList = s.toList.drop n := by
  induction n generalizing s with
  | zero => simp [drop]
  | succ n ih => cases s <;> simp [drop, ih]

@[simp] theorem foldl_toList (f : β → α → β) (b : β) (s : Sequence α) :
    s.foldl f b = s.toList.foldl f b := by
  induction s generalizing b with
  | nil => rfl
  | cons a tail ih => simp [foldl, ih]

end Sequence
end UtmTiles
