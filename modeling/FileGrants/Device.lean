import FileGrants.Text.Cut

/-!
Contract: what a device can do.

Owns: the classes of devices, how a class is read and named, and the two
questions that the rest asks of a platform: whether permissions can be
persisted on it, and whether shared user storage is visible at its real path.

Does not own: where the name of the class comes from.
-/

namespace FileGrants

/-- The classes of devices. -/
inductive DeviceClass where
  | phone
  | tablet
  | twoInOne
  | wearable
  | tv
  | unknown
deriving DecidableEq, Repr, Inhabited

namespace DeviceClass

def name : DeviceClass → String
  | .phone => "phone"
  | .tablet => "tablet"
  | .twoInOne => "2in1"
  | .wearable => "wearable"
  | .tv => "tv"
  | .unknown => "unknown"

/-- Reads a class, whatever blanks stand around it and whatever its case. An
unfamiliar word is the unknown class. -/
def parse (text : String) : DeviceClass :=
  match String.ofList (Text.lower (Text.trim text.toList)) with
  | "phone" | "default" => .phone
  | "tablet" => .tablet
  | "2in1" | "2-in-1" | "pc" => .twoInOne
  | "wearable" => .wearable
  | "tv" => .tv
  | _ => .unknown

/-- Whether devices of the class can persist permissions. -/
def canPersist : DeviceClass → Bool
  | .phone | .tablet | .twoInOne => true
  | .wearable | .tv | .unknown => false

end DeviceClass

/-- A device with its settings. `persistOverride`, where given, decides whether
permissions can be persisted whatever the class. -/
structure Platform where
  deviceClass : DeviceClass
  fullMount : Bool
  persistOverride : Option Bool
deriving DecidableEq, Repr

namespace Platform

/-- A device of a class with default settings. -/
def ofClass (deviceClass : DeviceClass) : Platform :=
  ⟨deviceClass, false, none⟩

def canPersist (platform : Platform) : Bool :=
  platform.persistOverride.getD platform.deviceClass.canPersist

/-- Whether shared user storage is visible at its real path. -/
def isUnified (platform : Platform) : Bool :=
  platform.deviceClass == .twoInOne || platform.fullMount

end Platform

end FileGrants
