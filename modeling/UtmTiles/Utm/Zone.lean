import UtmTiles.Error
import UtmTiles.Scalar

/-!
# UTM zones

The globe is cut along meridians into sixty zones of six degrees. Zone 1 starts at 180° west; a
zone holds its western edge and not its eastern one, except that zone 60 also holds 180° east.

The zones are continued to both poles; a position beyond 80° of latitude is marked as polar.
-/

namespace UtmTiles

variable {α : Type} [Scalar α]

/-- The side of the equator. -/
inductive Hemisphere where
  | north | south
  deriving DecidableEq, Repr

def Hemisphere.name : Hemisphere → String
  | north => "North"
  | south => "South"

/-- The zone of a position. -/
structure Zone where
  number : Nat
  hemisphere : Hemisphere
  /-- The position lies beyond 80° of latitude. -/
  polar : Bool
  deriving DecidableEq, Repr

namespace Zone

/-- The EPSG code of a zone's coordinate system. -/
def epsgCode (number : Nat) : Hemisphere → Nat
  | .north => 32600 + number
  | .south => 32700 + number

def systemName (code : Nat) : String := s!"EPSG:{code}"

/-- The EPSG code of the zone's coordinate system. -/
def epsg (zone : Zone) : Nat := epsgCode zone.number zone.hemisphere

/-- The latitude beyond which positions are polar. -/
def polarLatitude : α := 80.0

/-- Longitudes and latitudes lie between these bounds and their negatives. -/
def maxLon : α := 180.0

@[inherit_doc maxLon] def maxLat : α := 90.0

def width : α := 6.0

def HasLon (lon : α) : Prop := -maxLon ≤ lon ∧ lon ≤ maxLon

instance (lon : α) : Decidable (HasLon lon) := inferInstanceAs (Decidable (_ ∧ _))

def HasLat (lat : α) : Prop := -maxLat ≤ lat ∧ lat ≤ maxLat

instance (lat : α) : Decidable (HasLat lat) := inferInstanceAs (Decidable (_ ∧ _))

/-- The longitude of a zone's central meridian. -/
def centralMeridian (number : Nat) : α := Scalar.ofInt number * width - 183.0

/-- The central meridian of one of the sixty zones. -/
def meridianOf (number : Nat) : Except (Error α) α :=
  if number < 1 ∨ 60 < number then .error (.tile (.zoneOutside number))
  else .ok (centralMeridian number)

/-- The zone of a longitude in [-180, 180]. -/
def numberOf (lon : α) : Nat :=
  let zone := Scalar.floorIndex ((lon + 180.0) / width) + 1
  (min (max zone 1) 60).toNat

/-- The zone of a longitude; longitudes outside of [-180, 180] have none. -/
def ofLon (lon : α) : Except (Error α) Nat :=
  if HasLon lon then .ok (numberOf lon) else .error (.position (.longitudeOutside lon))

/-- The longitude in [-180, 180] that differs by a multiple of 360 degrees. Only longitudes outside
of this range are changed. -/
def normalizeLon (lon : α) : α :=
  if HasLon lon then lon else Scalar.wrap (lon + 180.0) 360.0 - 180.0

/-- The zone of a position; its longitude may be any number of turns away from [-180, 180]. -/
def ofPosition (lon lat : α) : Except (Error α) Zone :=
  if !Scalar.isFinite lon then .error (.position (.longitudeNotFinite lon))
  else if ¬ HasLat lat then .error (.position (.latitudeOutside lat))
  else .ok {
    number := numberOf (normalizeLon lon)
    hemisphere := if 0.0 ≤ lat then .north else .south
    polar := decide (polarLatitude < Scalar.abs lat) }

end Zone
end UtmTiles
