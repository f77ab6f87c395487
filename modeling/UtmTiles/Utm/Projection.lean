import UtmTiles.Utm.Zone

/-!
# The transverse Mercator projection of a zone

Positions on the WGS84 ellipsoid are projected by Krüger's series to the third order in the third
flattening. Eastings count from 500 km west of the central meridian. Northings count from the
equator on both hemispheres and are negative in the south; the series are used up to the poles.

`project` and `unproject` are inverse to each other up to the error of the series. Longitudes come
back in [-180, 180).
-/

namespace UtmTiles
namespace Utm

variable {α : Type} [Elementary α]

open Elementary
open Scalar (ofInt wrap)

/-! ### The ellipsoid -/

/-- Semi-major axis of the WGS84 ellipsoid in meters. -/
def majorAxis : α := 6378137.0

def flattening : α := 1.0 / 298.257223563

/-- The third flattening, in which the series are written. -/
def thirdFlattening : α := flattening / (2.0 - flattening)

def centralScale : α := 0.9996

/-- The radius of the circle with the length of a meridian. -/
def rectifyingRadius : α :=
  let n : α := thirdFlattening
  majorAxis / (1.0 + n) * (1.0 + n * n / 4.0 + n * n * (n * n) / 64.0)

/-- Meters of the plane for a unit of the series. -/
def unit : α := centralScale * rectifyingRadius

/-- Easting of the central meridian in meters. -/
def falseEasting : α := 500000.0

/-- What is added to northings in the coordinate systems of the southern hemisphere. -/
def southNorthing : α := 10000000.0

/-- Three coefficients of a series. -/
structure Series (α : Type) where
  first : α
  second : α
  third : α

namespace Series

def forward : Series α :=
  let n : α := thirdFlattening
  ⟨1.0 / 2.0 * n - 2.0 / 3.0 * (n * n) + 5.0 / 16.0 * (n * (n * n)),
   13.0 / 48.0 * (n * n) - 3.0 / 5.0 * (n * (n * n)),
   61.0 / 240.0 * (n * (n * n))⟩

def backward : Series α :=
  let n : α := thirdFlattening
  ⟨1.0 / 2.0 * n - 2.0 / 3.0 * (n * n) + 37.0 / 96.0 * (n * (n * n)),
   1.0 / 48.0 * (n * n) + 1.0 / 15.0 * (n * (n * n)),
   17.0 / 480.0 * (n * (n * n))⟩

/-- From the sphere to latitudes on the ellipsoid. -/
def latitude : Series α :=
  let n : α := thirdFlattening
  ⟨2.0 * n - 2.0 / 3.0 * (n * n) - 2.0 * (n * (n * n)),
   7.0 / 3.0 * (n * n) - 8.0 / 5.0 * (n * (n * n)),
   56.0 / 15.0 * (n * (n * n))⟩

end Series

/-! ### Projection -/

/-- Tangent of the latitude on the sphere. At the poles it is infinite. -/
def sphereTangent (sinLat : α) : α :=
  let n : α := thirdFlattening
  let e := 2.0 * sqrt n / (1.0 + n)
  sinh (atanh sinLat - e * atanh (e * sinLat))

/-- Easting and northing of a position in a zone. -/
def project (zone : Nat) (lon lat : α) : α × α :=
  let radLon := toRadians (lon - Zone.width * ofInt zone + 183.0)
  let t := sphereTangent (sin (toRadians lat))
  let eta := atanh (sin radLon / sqrt (1.0 + t * t))
  let xi := atan (t / cos radLon)
  let a : Series α := Series.forward
  let easting := eta + a.first * cos (2.0 * xi) * sinh (2.0 * eta)
    + a.second * cos (4.0 * xi) * sinh (4.0 * eta)
    + a.third * cos (6.0 * xi) * sinh (6.0 * eta)
  let northing := xi + a.first * sin (2.0 * xi) * cosh (2.0 * eta)
    + a.second * sin (4.0 * xi) * cosh (4.0 * eta)
    + a.third * sin (6.0 * xi) * cosh (6.0 * eta)
  (falseEasting + unit * easting, unit * northing)

/-! ### The way back -/

/-- The position on the sphere, as angles along and across the central meridian, that an easting and
a northing stand for. -/
def spherical (easting northing : α) : α × α :=
  let xi := northing / unit
  let eta := (easting - falseEasting) / unit
  let b : Series α := Series.backward
  (xi - (b.first * sin (2.0 * xi) * cosh (2.0 * eta) + b.second * sin (4.0 * xi) * cosh (4.0 * eta)
      + b.third * sin (6.0 * xi) * cosh (6.0 * eta)),
   eta - (b.first * cos (2.0 * xi) * sinh (2.0 * eta) + b.second * cos (4.0 * xi) * sinh (4.0 * eta)
      + b.third * cos (6.0 * xi) * sinh (6.0 * eta)))

/-- Latitude in degrees of the sphere's `(xi, eta)`. -/
def latOf (xi eta : α) : α :=
  let chi := asin (sin xi / cosh eta)
  let d : Series α := Series.latitude
  toDegrees (chi + d.first * sin (2.0 * chi) + d.second * sin (4.0 * chi) + d.third * sin (6.0 * chi))

/-- Longitude of the sphere's `(xi, eta)` in a zone. It may lie outside of [-180, 180]. -/
def unwrappedLon (zone : Nat) (xi eta : α) : α :=
  Zone.width * ofInt zone - 183.0 + toDegrees (atan (sinh eta / cos xi))

/-- Longitude and latitude of a point in a zone. -/
def unproject (zone : Nat) (easting northing : α) : α × α :=
  let (xi, eta) := spherical easting northing
  (wrap (unwrappedLon zone xi eta + 180.0) 360.0 - 180.0, latOf xi eta)

end Utm
end UtmTiles
