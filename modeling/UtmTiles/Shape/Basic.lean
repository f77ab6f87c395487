import UtmTiles.Error
import UtmTiles.GeoJson.Reader

/-!
# Shapes

A shape describes an area of the globe in one of several forms. All of them come down to a list of
multipolygons: `Shape.polygons?`, in the order in which the parts are written. One part that is not
made of polygons spoils the whole shape.

`Shape.normalize` also asks that every multipolygon lies on the globe.
-/

namespace UtmTiles

/-- A geometry of the plane. -/
inductive Figure where
  | point (p : Point Float)
  | line (p q : Point Float)
  | lineString (points : List (Point Float))
  | polygon (polygon : Polygon Float)
  | multiPoint (points : List (Point Float))
  | multiLineString (lines : List (List (Point Float)))
  | multiPolygon (polygons : MultiPolygon Float)
  | rectangle (p q : Point Float)
  | triangle (p q r : Point Float)
  | collection (figures : List Figure)
  deriving Repr

def Figure.kind : Figure → String
  | point _ => "Point"
  | line .. => "Line"
  | lineString _ => "LineString"
  | polygon _ => "Polygon"
  | multiPoint _ => "MultiPoint"
  | multiLineString _ => "MultiLineString"
  | multiPolygon _ => "MultiPolygon"
  | rectangle .. => "Rect"
  | triangle .. => "Triangle"
  | collection _ => "GeometryCollection"

/-- A description of an area. -/
inductive Shape where
  /-- The text of a document. -/
  | text (text : String)
  | document (document : GeoJson.Document)
  /-- A value that is like a document; objects without `type` are looked up for `geometry` or
  `features`. -/
  | mapping (value : Json)
  | figure (figure : Figure)
  /-- A document that an object gives for itself. -/
  | interface (document : GeoJson.Document)
  /-- Several shapes together. -/
  | collection (shapes : List Shape)
  deriving Repr

def Figure.polygons : Figure → Except ShapeFault (MultiPolygon Float)
  | polygon p => .ok [p]
  | multiPolygon ps => .ok ps
  | rectangle p q => .ok [Polygon.ofRings (Box.ofCorners p q).corners []]
  | triangle p q r => .ok [Polygon.ofRings [p, q, r] []]
  | other => .error (.notPolygonal other.kind)

namespace GeoJson

/-- The multipolygon that a geometry is. -/
def Geometry.polygons : Geometry → Except ShapeFault (MultiPolygon Float)
  | .polygon rings _ => .ok [polygonOf rings]
  | .multiPolygon polygons _ => .ok (polygons.map polygonOf)
  | other => .error (.notPolygonal other.kind)

def Feature.polygons (f : Feature) : Except ShapeFault (MultiPolygon Float) :=
  match f.geometry with
  | some g => g.polygons
  | none => .error .noGeometry

def Document.polygons : Document → Except ShapeFault (List (MultiPolygon Float))
  | .geometry g => g.polygons.map ([·])
  | .feature f => f.polygons.map ([·])
  | .featureCollection c => c.features.mapM Feature.polygons

end GeoJson

namespace Shape

def ofDocument? : Option GeoJson.Document → Except ShapeFault (List (MultiPolygon Float))
  | some d => d.polygons
  | none => .error .notGeoJson

/-- The multipolygons of a value that is like a document. -/
def ofMapping (v : Json) : Except ShapeFault (List (MultiPolygon Float)) :=
  if (v.member? "type").isSome then ofDocument? (GeoJson.Document.ofJson? v)
  else match v with
    | .object members =>
      match _h : members.lookup "geometry" with
      | some geometry => ofMapping geometry
      | none =>
        match _h : members.lookup "features" with
        | some (.array features) => do
          let parts ← features.attach.mapM fun ⟨feature, _⟩ => ofMapping feature
          return parts.flatten
        | _ => .error .noKind
    | other => .error (.notObject other)
termination_by sizeOf v
decreasing_by
  · have := Json.sizeOf_lookup _h
    simp
    omega
  · have h₁ := Json.sizeOf_lookup _h
    have h₂ := List.sizeOf_lt_of_mem ‹feature ∈ features›
    simp at h₁ ⊢
    omega

mutual

def polygons : Shape → Except ShapeFault (List (MultiPolygon Float))
  | text s => ofDocument? (GeoJson.Document.read? s)
  | document d => d.polygons
  | mapping v => ofMapping v
  | figure f => f.polygons.map ([·])
  | interface d => d.polygons
  | collection shapes => polygonsOfAll shapes

/-- The multipolygons of several shapes. -/
def polygonsOfAll : List Shape → Except ShapeFault (List (MultiPolygon Float))
  | [] => .ok []
  | shape :: rest => do
    let first ← shape.polygons
    let others ← polygonsOfAll rest
    return first ++ others

end

/-- Asks that the box around a multipolygon lies on the globe. -/
def checkOnGlobe (ps : MultiPolygon Float) : Except ShapeFault Unit :=
  match MultiPolygon.box? ps with
  | some box =>
    if box.minX < -180.0 ∨ 180.0 < box.maxX ∨ box.minY < -90.0 ∨ 90.0 < box.maxY then
      .error (.outsideGlobe box.minX box.minY box.maxX box.maxY)
    else .ok ()
  | none => .ok ()

/-- The multipolygons of a shape, all of them on the globe. -/
def normalize (shape : Shape) : Except (Error Float) (List (MultiPolygon Float)) := do
  let parts ← shape.polygons.mapError .shape
  (parts.forM checkOnGlobe).mapError .shape
  return parts

def ofPolygons (parts : List (MultiPolygon Float)) : Shape :=
  collection (parts.map fun ps => figure (.multiPolygon ps))

end Shape
end UtmTiles
