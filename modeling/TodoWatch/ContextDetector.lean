import Mathlib.Data.Rat.Defs

/-! # The context detector

The service listens to the heart rate and the accelerometer of the watch from its creation to its end. The detector
keeps the last reading of each, and a check compares both with their thresholds. Readings are finite floats, as
rationals; `magnitude` is `(float) Math.sqrt(x * x + y * y + z * z)` in the arithmetic of floats. -/

namespace TodoWatch

/-- What a sensor delivers. -/
inductive SensorEvent where
  | heartRate (value : ℚ)
  | accelerometer (x y z : ℚ)
  | other
  deriving DecidableEq, Repr

/-- What the watch has of the sensor service and its sensors: each can be `null`. -/
structure Sensors where
  sensorManager : Bool
  heartRateSensor : Bool
  accelerometer : Bool
  deriving DecidableEq, Repr

/-- The sensors that the detector found, those that it is registered with, and its readings. -/
structure ContextDetector where
  sensors : Sensors
  hearsHeartRate : Bool
  hearsAccelerometer : Bool
  currentHeartRate : ℚ
  movementMagnitude : ℚ
  deriving DecidableEq, Repr

namespace ContextDetector

/-- The constructor. Sensors are looked for if there is a manager. -/
def new (x : Sensors) : ContextDetector where
  sensors :=
    { sensorManager := x.sensorManager
      heartRateSensor := x.sensorManager && x.heartRateSensor
      accelerometer := x.sensorManager && x.accelerometer }
  hearsHeartRate := false
  hearsAccelerometer := false
  currentHeartRate := 0
  movementMagnitude := 0

def startListening (d : ContextDetector) : ContextDetector :=
  { d with
    hearsHeartRate := d.hearsHeartRate || d.sensors.heartRateSensor
    hearsAccelerometer := d.hearsAccelerometer || d.sensors.accelerometer }

/-- The detector hears nothing from then on. -/
def unregisterListener (d : ContextDetector) : ContextDetector :=
  { d with hearsHeartRate := false, hearsAccelerometer := false }

/-- Throws, for `none`, when there is no manager. -/
def stopListening (d : ContextDetector) : Option ContextDetector :=
  if d.sensors.sensorManager then some d.unregisterListener else none

def onSensorChanged (magnitude : ℚ → ℚ → ℚ → ℚ) (d : ContextDetector) : SensorEvent → ContextDetector
  | .heartRate value => { d with currentHeartRate := value }
  | .accelerometer x y z => { d with movementMagnitude := magnitude x y z }
  | .other => d

def isHighCognitiveLoad (d : ContextDetector) : Bool := decide (d.currentHeartRate > 100) && decide (d.movementMagnitude > 2)

/-- The system delivers to the detector what the sensors that it is registered with have read. -/
def Hears (d : ContextDetector) : SensorEvent → Prop
  | .heartRate _ => d.hearsHeartRate = true
  | .accelerometer _ _ _ => d.hearsAccelerometer = true
  | .other => False

instance (d : ContextDetector) : ∀ e, Decidable (d.Hears e)
  | .heartRate _ => inferInstanceAs (Decidable (_ = true))
  | .accelerometer _ _ _ => inferInstanceAs (Decidable (_ = true))
  | .other => isFalse id

end ContextDetector

end TodoWatch
