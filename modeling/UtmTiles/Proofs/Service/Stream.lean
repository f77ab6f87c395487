import UtmTiles.Proofs.Service.Cover

/-!
# Covering line by line

The lines of a coverage can be put out one after the other, each as soon as its tile has been chosen
(`Service.stream`). What has been put out then stays, also if a later step fails. But no step that can
fail comes after the first line: a shape that comes down to polygons once does so again when the
polygons are taken as a shape, and the sum of their estimates overflows before the first line or not at
all. So streaming puts out what covering gives, and nothing if there is no result (`stream_on`).
-/

namespace UtmTiles

/-- Work that adds lines to an output and may fail or overflow. The lines are kept in any case. -/
def Printing (β : Type) : Type := List String → Result ServiceFault β × List String

namespace Printing

variable {β γ : Type}

/-- What some work gives for an output, and the output afterwards. -/
def on (work : Printing β) (out : List String) : Result ServiceFault β × List String := work out

/-- Work goes on with a result, and else it ends with the output as it is then. -/
protected def bind (work : Printing β) (next : β → Printing γ) : Printing γ := fun out =>
  match work out with
  | (.ok b, out) => next b out
  | (.error fault, out) => (.error fault, out)
  | (.overflow, out) => (.overflow, out)

instance : Monad Printing where
  pure b := fun out => (.ok b, out)
  bind := Printing.bind

def ofResult (result : Result ServiceFault β) : Printing β := fun out => (result, out)

theorem on_ofResult_bind (result : Result ServiceFault β) (next : β → Printing γ)
    (out : List String) :
    (ofResult result >>= next).on out =
      match result with
      | .ok b => (next b).on out
      | .error fault => (.error fault, out)
      | .overflow => (.overflow, out) := by
  cases result <;> rfl

end Printing

namespace Service

def putLine (line : String) : Printing Unit := fun out => (.ok (), out ++ [line])

/-- Goes through the rest of a coverage and puts out the lines of a node's tiles. -/
def streamTiles (s : Service) (nodes nodeno : ℕ) :
    Sequence (Tile Float) → CoverStats → Printing CoverStats
  | .nil, stats => pure stats
  | .cons t tail, stats => do
    if s.tiling.maxTiles.any (· ≤ stats.written) then return stats
    if stats.tiles % nodes = nodeno then
      putLine (s.line t)
      s.streamTiles nodes nodeno (tail ())
        { stats with tiles := stats.tiles + 1, written := stats.written + 1 }
    else s.streamTiles nodes nodeno (tail ()) { stats with tiles := stats.tiles + 1 }

/-- Covers a shape, as one of several nodes, and puts out each line as soon as its tile is chosen. -/
def stream (s : Service) (shape : Shape) (nodes nodeno : Option ℕ) : Printing CoverStats := do
  let nodes := max (nodes.getD 1) 1
  let nodeno := nodeno.getD 0
  if nodes ≤ nodeno then .ofResult (.error (.nodeNumber nodeno nodes))
  else
    let parts ← .ofResult (.ofExcept (shape.normalize.mapError .tiles))
    let estimate ← .ofResult ((s.grid.estimateOfShape (.ofPolygons parts)).mapError .tiles)
    let tiles ← .ofResult ((s.grid.tilesOfShape (.ofPolygons parts)).mapError .tiles)
    s.streamTiles nodes nodeno tiles ⟨0, 0, estimate⟩

/-- Going through a coverage puts out the lines of the tiles that a run selects. -/
theorem streamTiles_on (s : Service) (nodes nodeno : ℕ) (tiles : Sequence (Tile Float))
    (sel : Selection (Tile Float)) (estimate : ℕ) (out : List String) :
    let run := Selection.run nodes nodeno s.tiling.maxTiles tiles sel
    (s.streamTiles nodes nodeno tiles ⟨sel.seen, sel.written, estimate⟩).on
        (out ++ sel.chosen.reverse.map s.line) =
      (.ok ⟨run.seen, run.written, estimate⟩, out ++ run.chosen.reverse.map s.line) := by
  induction tiles generalizing sel with
  | nil => rfl
  | cons t tail ih =>
    rw [streamTiles, Selection.run]
    by_cases hlimit : s.tiling.maxTiles.any (· ≤ sel.written) = true
    · simp only [if_pos hlimit]
      rfl
    · simp only [if_neg hlimit]
      by_cases hown : sel.seen % nodes = nodeno
      · simp only [if_pos hown]
        have hnext := ih () ⟨sel.seen + 1, t :: sel.chosen, sel.written + 1, sel.stopped⟩
        rw [List.reverse_cons, List.map_append, ← List.append_assoc] at hnext
        exact hnext
      · simp only [if_neg hown]
        exact ih () ⟨sel.seen + 1, sel.chosen, sel.written, sel.stopped⟩

/-- Streaming gives the numbers that covering gives and puts out its lines. If covering fails or
overflows then so does streaming, and puts out nothing. -/
theorem stream_on (s : Service) (shape : Shape) (nodes nodeno : Option ℕ) (out : List String) :
    (s.stream shape nodes nodeno).on out =
      match s.cover shape nodes nodeno with
      | .ok run => (.ok run.stats, out ++ run.lines)
      | .error fault => (.error fault, out)
      | .overflow => (.overflow, out) := by
  rw [cover_eq]
  unfold stream
  by_cases hnode : max (nodes.getD 1) 1 ≤ nodeno.getD 0
  · simp only [if_pos hnode]
    rfl
  · simp only [if_neg hnode]
    rw [Printing.on_ofResult_bind]
    cases hparts : shape.normalize with
    | error e => rfl
    | ok parts =>
      have hpolygons := Shape.normalize_ofPolygons hparts
      dsimp only [Except.mapError, Result.ofExcept]
      rw [Printing.on_ofResult_bind, Grid.estimateOfShape_of_normalize hpolygons, Result.ok_bind]
      cases hestimate : s.grid.estimate? parts with
      | none => rfl
      | some estimate =>
        have hrun := s.streamTiles_on (max (nodes.getD 1) 1) (nodeno.getD 0)
          (s.grid.coverage parts) .start estimate out
        rw [show Selection.start.chosen.reverse.map s.line = [] from rfl, List.append_nil] at hrun
        dsimp only [Result.ofOption, Result.mapError]
        rw [Printing.on_ofResult_bind, Grid.tilesOfShape_of_normalize hpolygons, hestimate]
        exact hrun

section Cover

variable {s : Service} {shape : Shape} {nodes nodeno : Option ℕ}

theorem cover_eq_error_iff {fault : ServiceFault} :
    s.cover shape nodes nodeno = .error fault ↔
      (max (nodes.getD 1) 1 ≤ nodeno.getD 0 ∧
        fault = .nodeNumber (nodeno.getD 0) (max (nodes.getD 1) 1)) ∨
      (nodeno.getD 0 < max (nodes.getD 1) 1 ∧
        ∃ e, shape.normalize = .error (.shape e) ∧ fault = .tiles (.shape e)) := by
  rw [cover_eq]
  by_cases hnode : max (nodes.getD 1) 1 ≤ nodeno.getD 0
  · rw [if_pos hnode, Result.error.injEq, @eq_comm _ _ fault]
    simp only [hnode, Nat.not_lt_of_le hnode, true_and, false_and, or_false]
  · rw [if_neg hnode]
    simp only [Result.bind_eq_error_iff, Result.ofExcept_eq_error_iff, mapError_eq_error_iff,
      Result.ofOption_ne_error, and_false, exists_false, or_false, hnode, Nat.lt_of_not_le hnode,
      true_and, false_and, false_or]
    constructor
    · rintro ⟨e, h, rfl⟩
      obtain ⟨e, rfl, -⟩ := Shape.normalize_eq_error_iff.1 h
      exact ⟨e, h, rfl⟩
    · rintro ⟨e, h, rfl⟩
      exact ⟨.shape e, h, rfl⟩

theorem cover_eq_overflow_iff :
    s.cover shape nodes nodeno = .overflow ↔ nodeno.getD 0 < max (nodes.getD 1) 1 ∧
      ∃ parts, shape.normalize = .ok parts ∧ 2 ^ 64 ≤ Coverage.total s.grid.step parts := by
  rw [cover_eq]
  by_cases hnode : max (nodes.getD 1) 1 ≤ nodeno.getD 0
  · rw [if_pos hnode]
    exact ⟨nofun, fun h => absurd hnode (Nat.not_le_of_lt h.1)⟩
  · rw [if_neg hnode, and_iff_right (Nat.lt_of_not_le hnode)]
    simp only [Result.bind_eq_overflow_iff, Result.ofExcept_ne_overflow, false_or,
      Result.ofExcept_eq_ok_iff, mapError_eq_ok_iff, Result.ofOption_eq_overflow_iff,
      Option.map_eq_none_iff, Grid.estimate?, Coverage.estimate?_eq_none_iff]

end Cover

/-- Covering fails exactly for a node that there is not, which is asked first, and for a shape that
does not come down to polygons on the globe. Streaming fails with the same fault and leaves the output
as it was. The polygons of a shape, taken as a shape again, give no error: they have their estimate
and their coverage if the estimate has 64 bits. If it has more bits then its sum overflows, which is no
error either, and streaming ends there, before anything is put out. -/
theorem failing_cover_leaves_output (s : Service) (shape : Shape) (nodes nodeno : Option ℕ) :
    (∀ fault, s.cover shape nodes nodeno = .error fault ↔
      (max (nodes.getD 1) 1 ≤ nodeno.getD 0 ∧
        fault = .nodeNumber (nodeno.getD 0) (max (nodes.getD 1) 1)) ∨
      (nodeno.getD 0 < max (nodes.getD 1) 1 ∧
        ∃ e, shape.normalize = .error (.shape e) ∧ fault = .tiles (.shape e))) ∧
    (∀ fault out out', (s.stream shape nodes nodeno).on out = (.error fault, out') ↔
      s.cover shape nodes nodeno = .error fault ∧ out' = out) ∧
    (∀ stats out out', (s.stream shape nodes nodeno).on out = (.ok stats, out') ↔
      ∃ run, s.cover shape nodes nodeno = .ok run ∧ stats = run.stats ∧ out' = out ++ run.lines) ∧
    (∀ out out', (s.stream shape nodes nodeno).on out = (.overflow, out') ↔
      (nodeno.getD 0 < max (nodes.getD 1) 1 ∧
        ∃ parts, shape.normalize = .ok parts ∧ 2 ^ 64 ≤ Coverage.total s.grid.step parts) ∧
          out' = out) ∧
    ∀ parts, shape.normalize = .ok parts →
      (∀ e, s.grid.estimateOfShape (.ofPolygons parts) ≠ .error e) ∧
      (∀ e, s.grid.tilesOfShape (.ofPolygons parts) ≠ .error e) ∧
      (Coverage.total s.grid.step parts < 2 ^ 64 →
        s.grid.estimateOfShape (.ofPolygons parts) = .ok (Coverage.total s.grid.step parts) ∧
          s.grid.tilesOfShape (.ofPolygons parts) = .ok (s.grid.coverage parts)) := by
  refine ⟨?_, ?_, ?_, ?_, ?_⟩
  · intro fault
    exact cover_eq_error_iff
  · intro fault out out'
    rw [stream_on]
    cases s.cover shape nodes nodeno with
    | ok run => simp
    | error e => simp [eq_comm]
    | overflow => simp
  · intro stats out out'
    rw [stream_on]
    cases s.cover shape nodes nodeno with
    | ok run => simp [eq_comm]
    | error e => simp
    | overflow => simp
  · intro out out'
    rw [stream_on, ← cover_eq_overflow_iff]
    cases s.cover shape nodes nodeno with
    | ok run => simp
    | error e => simp
    | overflow => simp [eq_comm]
  · intro parts h
    have hpolygons := Shape.normalize_ofPolygons h
    rw [Grid.estimateOfShape_of_normalize hpolygons, Grid.tilesOfShape_of_normalize hpolygons]
    refine ⟨Result.ofOption_ne_error _, Result.ofOption_ne_error _, fun hsmall => ?_⟩
    rw [Grid.estimate?, Coverage.estimate?_eq, if_pos hsmall]
    exact ⟨rfl, rfl⟩

end Service
end UtmTiles
