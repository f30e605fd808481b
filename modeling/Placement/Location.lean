import Placement.Error
import Placement.Record.Fields
import Placement.Text.Words

/-!
# Locations and distances

Points on the globe in decimal degrees, the great-circle distance between two of them, and its
units.
-/

namespace Placement

structure Location where
  latitude : Float
  longitude : Float

namespace Location

/-- Both coordinates are finite and in their ranges. -/
def isValid (l : Location) : Bool :=
  l.latitude.isFinite && (-90.0 ≤ l.latitude && l.latitude ≤ 90.0) &&
    (l.longitude.isFinite && (-180.0 ≤ l.longitude && l.longitude ≤ 180.0))

def check (l : Location) : Except RecordError Location :=
  if l.isValid then .ok l else .error (.invalidCoordinates l.latitude l.longitude)

/-- The same point: zeros of either sign are equal, and a NaN is not equal to itself. -/
def same (a b : Location) : Bool := a.latitude == b.latitude && a.longitude == b.longitude

def shape : Record Location :=
  ((Record.required "latitude" Reader.float).and (Record.required "longitude" Reader.float)).map
    fun (latitude, longitude) => { latitude, longitude }

def reader : Reader Location := shape.read

/-! ### Great-circle distance -/

/-- The mean radius of the Earth in kilometres. -/
def earthRadius : Float := 6371.0

def radians (degrees : Float) : Float := degrees * (3.141592653589793 / 180.0)

/-- The haversine of the central angle, from two latitudes and a difference of longitudes in
radians. -/
def haversine (lat₁ lat₂ dlon : Float) : Float :=
  let a := ((lat₂ - lat₁) / 2.0).sin
  let b := (dlon / 2.0).sin
  a * a + lat₁.cos * lat₂.cos * (b * b)

/-- The distance in kilometres; exactly zero from a point to itself. -/
def distanceKm (a b : Location) : Float :=
  if same a b then 0.0
  else
    let h :=
      haversine (radians a.latitude) (radians b.latitude) (radians (b.longitude - a.longitude))
    earthRadius * (2.0 * Float.atan2 h.sqrt (1.0 - h).sqrt)

end Location

/-! ### Units -/

inductive DistanceUnit where
  | km
  | mi
  deriving DecidableEq, Repr

namespace DistanceUnit

def milesPerKm : Float := 0.621371

def kmToMiles (x : Float) : Float := x * milesPerKm

def milesToKm (x : Float) : Float := x / milesPerKm

def name : DistanceUnit → String
  | km => "km"
  | mi => "mi"

/-- The names in data files, exactly as they are written there. -/
def ofName? (s : String) : Option DistanceUnit :=
  if s = "km" then some km else if s = "mi" ∨ s = "miles" then some mi else none

def spellings : DistanceUnit → List String
  | km => ["km", "kilometers", "kilometres"]
  | mi => ["mi", "mile", "miles"]

/-- A spelling in any letter case, blanks around it aside. -/
def parse? (cs : List Char) : Option DistanceUnit :=
  [km, mi].find? fun u => u.spellings.any (Text.spells (Text.trimmed cs))

def reader : Reader DistanceUnit := Reader.choice ofName?

/-- The distance between two points in this unit. -/
def distance (u : DistanceUnit) (a b : Location) : Float :=
  match u with
  | km => a.distanceKm b
  | mi => kmToMiles (a.distanceKm b)

end DistanceUnit

end Placement
