import UtmTiles.Proofs.Service.Cover

/-!
# Where a node stops

A node with a limit goes through the coverage up to the last tile that the limit lets it put out, and
looks at no tile after that one; without enough tiles of its own it goes through all of them. So the
number of tiles that a node has gone through tells the place of its last tile
(`Selection.seen_run_of_reached`).

Here the tiles of a node are given together with their numbers in the coverage (`Selection.own`).
-/

namespace UtmTiles
namespace Service

section Run

variable (s : Service) (parts : List (MultiPolygon Float)) (estimate nodes nodeno : ℕ)

/-- The tiles of a node with their numbers in the coverage. -/
def ownTiles : List (Tile Float × ℕ) :=
  Selection.own nodes nodeno 0 (s.grid.coverage parts).toList

theorem lines_runOf_eq_ownTiles : (s.runOf parts estimate nodes nodeno).lines =
    (s.tiling.maxTiles.elim (s.ownTiles parts nodes nodeno)
      (s.ownTiles parts nodes nodeno).take).map fun p => s.line p.1 := by
  rw [lines_runOf, coverageLines, Selection.share_map, Selection.share_eq_map_own, List.map_map,
    Selection.upTo_map, Selection.upTo_zero]
  rfl

/-- With fewer tiles of its own than the limit, a node goes through the whole coverage. -/
theorem tiles_runOf_of_short
    (h : ∀ most ∈ s.tiling.maxTiles, (s.ownTiles parts nodes nodeno).length < most) :
    (s.runOf parts estimate nodes nodeno).stats.tiles =
      (s.grid.coverage parts).toList.length := by
  have hseen := Selection.seen_run_of_short (s.grid.coverage parts) (s := .start)
    (fun most hmost => (Nat.zero_add _).trans_lt (h most hmost))
  rw [Selection.start, Nat.zero_add] at hseen
  exact hseen

theorem tiles_runOf_of_zero (h : s.tiling.maxTiles = some 0) :
    (s.runOf parts estimate nodes nodeno).stats.tiles = 0 :=
  Selection.seen_run_of_full (by simp [h]) (s.grid.coverage parts)

/-- A node that reaches its limit ends right behind its last tile. -/
theorem tiles_runOf_of_reached {j i : ℕ} {t : Tile Float} (hlimit : s.tiling.maxTiles = some (j + 1))
    (h : (s.ownTiles parts nodes nodeno)[j]? = some (t, i)) :
    (s.runOf parts estimate nodes nodeno).stats.tiles = i + 1 := by
  have hseen := Selection.seen_run_of_reached (s.grid.coverage parts) (s := .start) h
  rw [Selection.start, Nat.zero_add, ← hlimit] at hseen
  exact hseen

end Run

/-- Covering a shape puts out a line for each tile whose number leaves the node's own number, in the
order of the coverage, up to the limit if there is one, and counts these lines. It goes through the
whole coverage if the limit is never filled, and otherwise through the tiles up to the one that fills
it. -/
theorem cover_ends_at_limit {s : Service} {shape : Shape} {nodes nodeno : Option ℕ}
    {tiles : Sequence (Tile Float)} (hnode : nodeno.getD 0 < max (nodes.getD 1) 1)
    (htiles : s.grid.tilesOfShape shape = .ok tiles) :
    ∃ run, s.cover shape nodes nodeno = .ok run ∧
      let own := tiles.toList.zipIdx.filter fun p => p.2 % max (nodes.getD 1) 1 = nodeno.getD 0
      run.lines = (s.tiling.maxTiles.elim own own.take).map (fun p =>
        if s.tiling.keysOnly then p.1.toText else p.1.record.line) ∧
      run.stats.written = run.lines.length ∧
      ((∀ most ∈ s.tiling.maxTiles, own.length < most) →
        run.stats.tiles = tiles.toList.length) ∧
      (s.tiling.maxTiles = some 0 → run.stats.tiles = 0) ∧
      ∀ j t i, s.tiling.maxTiles = some (j + 1) → own[j]? = some (t, i) →
        run.stats.tiles = i + 1 := by
  obtain ⟨parts, estimate, hparts, hestimate, rfl⟩ := Grid.tilesOfShape_eq_ok_iff.1 htiles
  refine ⟨s.runOf parts estimate _ _,
    cover_eq_ok_iff.2 ⟨hnode, parts, estimate, hparts, hestimate, rfl⟩, ?_, ?_, ?_, ?_, ?_⟩
  · exact s.lines_runOf_eq_ownTiles parts estimate _ _
  · exact s.written_runOf parts estimate _ _
  · exact s.tiles_runOf_of_short parts estimate _ _
  · exact s.tiles_runOf_of_zero parts estimate _ _
  · intro j t i hlimit hown
    exact s.tiles_runOf_of_reached parts estimate _ _ hlimit hown

/-- The second of three nodes puts out the keys of two tiles of a rectangle near the equator. -/
theorem cover_ends_at_limit_of_rectangle :
    let s : Service := ⟨⟨10.0, 500, 8⟩, ⟨none, true, some 2⟩⟩
    let b : Box Float := ⟨2.5, -0.1, 3.5, 0.1⟩
    let shape := Shape.figure (.rectangle ⟨b.minX, b.minY⟩ ⟨b.maxX, b.maxY⟩)
    ∃ tiles run, s.grid.tilesOfShape shape = .ok tiles ∧
      s.cover shape (some 3) (some 1) = .ok run ∧
      let own := tiles.toList.zipIdx.filter fun p => p.2 % 3 = 1
      run.lines = (own.take 2).map (fun p => p.1.toText) ∧
      run.stats.written = run.lines.length ∧
      (own.length < 2 → run.stats.tiles = tiles.toList.length) ∧
      ∀ t i, own[1]? = some (t, i) → run.stats.tiles = i + 1 := by
  intro s b shape
  have hbox : b.IsOnGlobe :=
    ⟨by decide, by decide, by decide, by decide, by decide, by decide⟩
  have htiles : s.grid.tilesOfShape shape = .ok (s.grid.coverage [[b.polygon]]) :=
    s.grid.tilesOfShape_rectangle hbox
  have hnode : (some 1).getD 0 < max ((some 3).getD 1) 1 := by decide
  obtain ⟨run, hrun, hlines, hwritten, hshort, -, hreached⟩ := cover_ends_at_limit hnode htiles
  refine ⟨_, run, htiles, hrun, hlines, hwritten, ?_, fun t i => hreached 1 t i rfl⟩
  intro hlength
  apply hshort
  rintro most ⟨⟩
  exact hlength

end Service
end UtmTiles
