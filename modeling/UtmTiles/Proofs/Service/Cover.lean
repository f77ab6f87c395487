import UtmTiles.Proofs.Coverage.Estimate
import UtmTiles.Proofs.Coverage.Lookup
import UtmTiles.Proofs.Json.Text
import UtmTiles.Proofs.Service.Selection
import UtmTiles.Proofs.Tile.Place
import UtmTiles.Proofs.Key.Reader

/-!
# Covering a shape with several nodes

Covering succeeds for the nodes that there are and for the shapes that come down to polygons on the
globe and have an estimate. It then puts out a line for each selected tile (`cover_eq_ok_iff`). A line
tells its tile, so what different nodes put out has nothing in common, and together it is what a single
node puts out (`nodes_share_coverage`).
-/

namespace UtmTiles

/-! ## Lines -/

/-- The line of a record tells its key. -/
theorem Record.key_of_line {r r' : Record} (h : r.line = r'.line) : r.key = r'.key :=
  Json.eq_of_compact_object h

namespace Service

/-- A line tells the place of its tile. -/
theorem line_tileAtSite_injective (s : Service) :
    Function.Injective fun site => s.line (s.grid.tileAtSite site) := by
  intro site site' h
  apply s.grid.toText_tileAtSite_injective
  simp only [line] at h ⊢
  split at h
  · exact h
  · exact Record.key_of_line h

/-- The lines of all tiles of a coverage. -/
def coverageLines (s : Service) (parts : List (MultiPolygon Float)) : List String :=
  (s.grid.coverage parts).toList.map s.line

theorem nodup_coverageLines (s : Service) (parts : List (MultiPolygon Float)) :
    (s.coverageLines parts).Nodup := by
  rw [coverageLines, Grid.toList_coverage, List.map_map]
  exact (Coverage.nodup_eraseDups _).map s.line_tileAtSite_injective

/-! ## Runs -/

/-- What a node puts out for some polygons, with their estimate. -/
def runOf (s : Service) (parts : List (MultiPolygon Float)) (estimate nodes nodeno : ℕ) :
    CoverRun :=
  let run := Selection.start.run nodes nodeno s.tiling.maxTiles (s.grid.coverage parts)
  { stats := ⟨run.seen, run.written, estimate⟩
    lines := run.chosen.reverse.map s.line
    log := s.startLog estimate ++ s.endLog run }

/-- Covering a shape asks for a node that there is and for a shape that comes down to polygons on the
globe. The polygons come down to themselves, so that only their estimate can still overflow. -/
theorem cover_eq (s : Service) (shape : Shape) (nodes nodeno : Option ℕ) :
    s.cover shape nodes nodeno =
      if max (nodes.getD 1) 1 ≤ nodeno.getD 0 then
        .error (.nodeNumber (nodeno.getD 0) (max (nodes.getD 1) 1))
      else Result.ofExcept (shape.normalize.mapError .tiles) >>= fun parts =>
        .ofOption ((s.grid.estimate? parts).map fun estimate =>
          s.runOf parts estimate (max (nodes.getD 1) 1) (nodeno.getD 0)) := by
  unfold cover
  by_cases hnode : max (nodes.getD 1) 1 ≤ nodeno.getD 0
  · simp only [if_pos hnode]
  · simp only [if_neg hnode]
    cases hparts : shape.normalize with
    | error e => rfl
    | ok parts =>
      have hpolygons := Shape.normalize_ofPolygons hparts
      show (s.grid.estimateOfShape (.ofPolygons parts)).mapError _ >>= _ = _
      rw [Grid.estimateOfShape_of_normalize hpolygons]
      show _ = Result.ofOption ((s.grid.estimate? parts).map _)
      cases hestimate : s.grid.estimate? parts with
      | none => rfl
      | some estimate =>
        show (s.grid.tilesOfShape (.ofPolygons parts)).mapError _ >>= _ = _
        rw [Grid.tilesOfShape_of_normalize hpolygons, hestimate]
        rfl

theorem cover_eq_ok_iff {s : Service} {shape : Shape} {nodes nodeno : Option ℕ} {run : CoverRun} :
    s.cover shape nodes nodeno = .ok run ↔
      nodeno.getD 0 < max (nodes.getD 1) 1 ∧ ∃ parts estimate, shape.normalize = .ok parts ∧
        s.grid.estimate? parts = some estimate ∧
          run = s.runOf parts estimate (max (nodes.getD 1) 1) (nodeno.getD 0) := by
  rw [cover_eq]
  by_cases hnode : max (nodes.getD 1) 1 ≤ nodeno.getD 0
  · rw [if_pos hnode]
    exact ⟨nofun, fun h => absurd hnode (Nat.not_le_of_lt h.1)⟩
  · rw [if_neg hnode, and_iff_right (Nat.lt_of_not_le hnode)]
    simp only [Result.bind_eq_ok_iff, Result.ofExcept_eq_ok_iff, Result.ofOption_eq_ok_iff,
      mapError_eq_ok_iff, Option.map_eq_some_iff, @eq_comm _ run, exists_and_left]

/-- A node puts out the lines of its share, up to the limit. -/
theorem lines_runOf (s : Service) (parts : List (MultiPolygon Float)) (estimate nodes nodeno : ℕ) :
    (s.runOf parts estimate nodes nodeno).lines = Selection.upTo s.tiling.maxTiles 0
      (Selection.share nodes nodeno 0 (s.coverageLines parts)) := by
  rw [coverageLines, Selection.share_map, Selection.upTo_map]
  exact congrArg (List.map s.line) (Selection.chosen_run nodes nodeno s.tiling.maxTiles _ .start)

theorem written_runOf (s : Service) (parts : List (MultiPolygon Float))
    (estimate nodes nodeno : ℕ) : (s.runOf parts estimate nodes nodeno).stats.written =
      (s.runOf parts estimate nodes nodeno).lines.length := by
  have hwritten := Selection.written_run nodes nodeno s.tiling.maxTiles (s.grid.coverage parts)
    (s := .start) rfl
  rw [runOf, List.length_map, List.length_reverse]
  exact hwritten

/-! Without a limit, every node goes through the whole coverage and puts out its whole share. -/

section NoLimit

variable {s : Service} (h : s.tiling.maxTiles = none) (parts : List (MultiPolygon Float))
  (estimate : ℕ)

include h

theorem lines_runOf_of_none (nodes nodeno : ℕ) :
    (s.runOf parts estimate nodes nodeno).lines =
      Selection.share nodes nodeno 0 (s.coverageLines parts) := by
  rw [lines_runOf, h]
  rfl

theorem lines_runOf_single : (s.runOf parts estimate 1 0).lines = s.coverageLines parts := by
  apply List.ext_getElem?
  intro i
  rw [lines_runOf_of_none h, Selection.getElem?_share Nat.zero_lt_one, Nat.zero_add, Nat.mul_one]

theorem tiles_runOf (nodes nodeno : ℕ) :
    (s.runOf parts estimate nodes nodeno).stats.tiles = (s.coverageLines parts).length := by
  have hseen : (Selection.start.run nodes nodeno none (s.grid.coverage parts)).seen =
      0 + (s.grid.coverage parts).toList.length := Selection.seen_run_of_short _ nofun
  rw [coverageLines, List.length_map, ← Nat.zero_add (List.length _)]
  simp only [runOf, h]
  exact hseen

end NoLimit

/-- If a shape can be covered, then any number of nodes can share the work. What they put out are
different parts of the coverage, each in the order of the coverage. Without a limit, line `i` of a
single node is line `i / n` of the node `i % n` among `n` nodes, and of no other node. -/
theorem nodes_share_coverage {s : Service} {shape : Shape} {nodes nodeno : Option ℕ}
    {run : CoverRun} (h : s.cover shape nodes nodeno = .ok run) :
    ∃ tiles whole, s.grid.tilesOfShape shape = .ok tiles ∧ s.cover shape none none = .ok whole ∧
      (tiles.toList.map s.line).Nodup ∧
      ∀ n, 0 < n → ∃ runs : ℕ → CoverRun,
        (∀ k < n, s.cover shape (some n) (some k) = .ok (runs k)) ∧
        (∀ k < n, (runs k).lines.Sublist (tiles.toList.map s.line)) ∧
        (∀ j < n, ∀ k < n, j ≠ k → (runs j).lines.Disjoint (runs k).lines) ∧
        (s.tiling.maxTiles = none →
          whole.lines = tiles.toList.map s.line ∧
          (∀ i, whole.lines[i]? = (runs (i % n)).lines[i / n]?) ∧
          (∀ i line, whole.lines[i]? = some line →
            ∀ k < n, k ≠ i % n → line ∉ (runs k).lines) ∧
          (∀ k < n, (runs k).stats.tiles = whole.stats.tiles) ∧
          ∑ k ∈ Finset.range n, (runs k).stats.written = whole.stats.tiles) := by
  obtain ⟨-, parts, estimate, hparts, hestimate, -⟩ := cover_eq_ok_iff.1 h
  have htiles : s.grid.tilesOfShape shape = .ok (s.grid.coverage parts) :=
    Grid.tilesOfShape_eq_ok_iff.2 ⟨parts, estimate, hparts, hestimate, rfl⟩
  have hwhole : s.cover shape none none = .ok (s.runOf parts estimate 1 0) :=
    cover_eq_ok_iff.2 ⟨Nat.zero_lt_one, parts, estimate, hparts, hestimate, rfl⟩
  have hnodup := s.nodup_coverageLines parts
  refine ⟨_, _, htiles, hwhole, hnodup, ?_⟩
  intro n hn
  refine ⟨s.runOf parts estimate n, ?_, ?_, ?_, ?_⟩
  · intro k hk
    have hnodes : max ((some n).getD 1) 1 = n := Nat.max_eq_left hn
    refine cover_eq_ok_iff.2 ⟨?_, parts, estimate, hparts, hestimate, ?_⟩
    · rw [hnodes]
      exact hk
    · rw [hnodes]
      rfl
  · intro k _
    rw [lines_runOf]
    exact (Selection.upTo_sublist _ _ _).trans (Selection.share_sublist _ _ _ _)
  · intro j hj k hk hne line hline_j hline_k
    rw [lines_runOf] at hline_j hline_k
    exact Selection.share_disjoint hj hk hne hnodup
      ((Selection.upTo_sublist _ _ _).mem hline_j) ((Selection.upTo_sublist _ _ _).mem hline_k)
  · intro hlimit
    have hlines := lines_runOf_of_none hlimit parts estimate
    have hall := lines_runOf_single hlimit parts estimate
    have htiles := tiles_runOf hlimit parts estimate
    refine ⟨hall, ?_, ?_, ?_, ?_⟩
    · intro i
      rw [hlines n, Selection.getElem?_share_of_number hn]
      exact congrArg (·[i]?) hall
    · intro i line hline k hk hne hother
      have hown : line ∈ Selection.share n (i % n) 0 (s.coverageLines parts) := by
        rw [Selection.mem_share (Nat.mod_lt i hn), ← hall]
        exact ⟨i, rfl, hline⟩
      rw [hlines] at hother
      exact Selection.share_disjoint hk (Nat.mod_lt i hn) hne hnodup hother hown
    · intro k _
      exact (htiles n k).trans (htiles 1 0).symm
    · calc ∑ k ∈ Finset.range n, (s.runOf parts estimate n k).stats.written
          = ∑ k ∈ Finset.range n, (Selection.share n k 0 (s.coverageLines parts)).length :=
            Finset.sum_congr rfl fun k _ => by rw [written_runOf, hlines]
        _ = (s.coverageLines parts).length := Selection.sum_length_share hn 0 _
        _ = (s.runOf parts estimate 1 0).stats.tiles := (htiles 1 0).symm

/-- Three nodes share a rectangle near the equator. -/
theorem nodes_share_coverage_of_rectangle :
    let s := ofGrid ⟨10.0, 500, 8⟩
    let b : Box Float := ⟨2.5, -0.1, 3.5, 0.1⟩
    let shape := Shape.figure (.rectangle ⟨b.minX, b.minY⟩ ⟨b.maxX, b.maxY⟩)
    ∃ whole run₀ run₁ run₂, s.cover shape none none = .ok whole ∧
      s.cover shape (some 3) (some 0) = .ok run₀ ∧ s.cover shape (some 3) (some 1) = .ok run₁ ∧
      s.cover shape (some 3) (some 2) = .ok run₂ ∧ run₀.lines.Disjoint run₁.lines ∧
      whole.lines[4]? = run₁.lines[1]? ∧ run₂.stats.tiles = whole.stats.tiles ∧
      run₀.stats.written + run₁.stats.written + run₂.stats.written = whole.stats.tiles := by
  intro s b shape
  have hbox : b.IsOnGlobe :=
    ⟨by decide, by decide, by decide, by decide, by decide, by decide⟩
  have hcover : s.cover shape none none = .ok (s.runOf [[b.polygon]] _ 1 0) :=
    cover_eq_ok_iff.2
      ⟨Nat.zero_lt_one, _, _, normalize_rectangle hbox, Grid.estimate?_singleton _, rfl⟩
  obtain ⟨tiles, whole, -, hwhole, -, hnodes⟩ := nodes_share_coverage hcover
  obtain ⟨runs, hruns, -, hdisjoint, hall⟩ := hnodes 3 (by decide)
  obtain ⟨-, hline, -, htiles, hsum⟩ := hall rfl
  rw [Finset.sum_range_succ, Finset.sum_range_succ, Finset.sum_range_one] at hsum
  exact ⟨whole, runs 0, runs 1, runs 2, hwhole, hruns 0 (by decide), hruns 1 (by decide),
    hruns 2 (by decide), hdisjoint 0 (by decide) 1 (by decide) (by decide), hline 4,
    htiles 2 (by decide), hsum⟩

end Service
end UtmTiles
