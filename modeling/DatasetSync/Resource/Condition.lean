import DatasetSync.Json.Reading
import DatasetSync.Text.Timestamp

/-!
# Conditions

A condition reports one aspect of a resource. A list of conditions is kept as if it were a
map by type: setting a condition replaces the first entry of its type in place, or appends
it. An entry that says the same is left alone, so that its time stays the time of the last
real change.
-/

namespace DatasetSync

/-- Whether a condition holds. -/
inductive Truth where
  | true
  | false
  | unknown
deriving DecidableEq, Repr, Inhabited

namespace Truth

def name : Truth → String
  | .true => "True"
  | .false => "False"
  | .unknown => "Unknown"

def ofName? : String → Option Truth
  | "True" => some .true
  | "False" => some .false
  | "Unknown" => some .unknown
  | _ => none

end Truth

/-- A report on one aspect of a resource. -/
structure Condition where
  /-- The aspect that is reported on. -/
  type : String
  status : Truth
  lastTransitionTime : Option Timestamp
  reason : String
  message : String
deriving DecidableEq, Repr, Inhabited

namespace Condition

/-- The type of the condition that tells whether the files of a version can be used. -/
def readyType : String := "Ready"

def syncingReason : String := "FileSyncing"
def successReason : String := "FileSyncSuccess"
def failedReason : String := "FileSyncFailed"

/-- A report on readiness, made at a given time. -/
def ready (now : Timestamp) (status : Truth) (reason message : String) : Condition :=
  { type := readyType, status, lastTransitionTime := some now, reason, message }

/-- Whether two conditions say the same, whatever their times. -/
def equivalent (first second : Condition) : Bool :=
  first.type = second.type && first.status = second.status && first.reason = second.reason
    && first.message = second.message

/-- Whether the condition holds. -/
def holds (condition : Condition) : Bool := condition.status = .true

/-- Put a condition into a list: in the place of the first entry of its type unless that
    entry says the same, else at the end. -/
def set (condition : Condition) : List Condition → List Condition
  | [] => [condition]
  | head :: tail =>
    if head.type = condition.type then
      if head.equivalent condition then head :: tail else condition :: tail
    else head :: set condition tail

/-- Whether setting a condition changes a list. -/
def changes (condition : Condition) (conditions : List Condition) : Bool :=
  match conditions.find? (·.type = condition.type) with
  | some existing => !existing.equivalent condition
  | none => true

/-- The first report on readiness. -/
def findReady? (conditions : List Condition) : Option Condition :=
  conditions.find? (·.type = readyType)

def toJson (condition : Condition) : Json :=
  .object <|
    [("type", .string condition.type), ("status", .string condition.status.name)]
    ++ Json.optionalMember "lastTransitionTime" (condition.lastTransitionTime.map .string)
    ++ [("reason", .string condition.reason)]
    ++ Json.textMember "message" condition.message

def ofJson? (json : Json) : Option Condition := do
  let members ← json.record? ["type", "status", "lastTransitionTime", "reason", "message"]
  let type ← members.required "type" Json.string?
  let status ← members.required "status" (·.choice?.bind Truth.ofName?)
  let lastTransitionTime ← members.optional "lastTransitionTime" Json.string?
  let reason ← members.defaulted "reason" "" Json.string?
  let message ← members.defaulted "message" "" Json.string?
  return { type, status, lastTransitionTime, reason, message }

end Condition

end DatasetSync
