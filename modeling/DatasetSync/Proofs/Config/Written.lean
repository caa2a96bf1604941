import DatasetSync.Config.Reading
import DatasetSync.Proofs.Json.Members

/-!
# Settings read back

Settings are written with every field, so no default is needed to read them back. An absent text is
written as `null`, and `null` is read as an absent text. The numbers are machine numbers: settings
whose numbers lie in their ranges are *representable*, and all that were ever read are.
-/

namespace DatasetSync

open Json

/-- Each format of the log reads back from its name, as no two formats have one name. -/
theorem LogFormat.ofName?_name (format : LogFormat) : ofName? format.name = some format := by
  cases format <;> rfl

namespace Form

variable {ν α : Type} {members : List (String × ν)} {name : String} {missing value : α}
  {read : ν → Option α}

/-- A field has the value that it has where it is missing, or it was read. -/
theorem read_of_field (given : field members name missing read = some value) :
    value = missing ∨ ∃ node, read node = some value := by
  unfold field at given
  split at given
  · exact .inl (Option.some.inj given).symm
  · exact .inr ⟨_, given⟩

/-! ### The rules of JSON -/

/-- The members of an object are read, whatever fields are known; unknown ones are left to the
reader of each field. -/
@[simp] theorem json_members?_object (fields : List String) (members : Json.Members) :
    json.members? fields (.object members) = some members := rfl

/-- A text reads back. -/
@[simp] theorem json_text?_string (text : String) : json.text? (.string text) = some text := rfl

/-- A truth value reads back. -/
@[simp] theorem json_bool?_bool (value : Bool) : json.bool? (.bool value) = some value := rfl

/-- The name of a choice reads back. -/
@[simp] theorem json_choice?_string (name : String) : json.choice? (.string name) = some name := rfl

/-- A text that may be missing reads back: it is written as `null` where there is none. -/
@[simp] theorem json_optionalText?_ofText? (text : Option String) :
    json.optionalText? (.ofText? text) = some text := by
  cases text <;> rfl

/-- A number up to the bound reads back. A greater one is refused, so that the bound is what the
settings have to keep. -/
theorem json_natural?_integer {value greatest : Nat} (fits : value ≤ greatest) :
    json.natural? greatest (.integer value) = some value :=
  natural?_eq_some_iff.mpr ⟨rfl, fits⟩

/-! ### Numbers that were read -/

/-- A number that was read lies in its range, if it does so where it is missing. -/
theorem le_of_field {members : List (String × Json)} {missing value greatest : Nat}
    (standard : missing ≤ greatest)
    (given : field members name missing (json.natural? greatest) = some value) :
    value ≤ greatest := by
  rcases read_of_field given with rfl | ⟨node, reads⟩
  · exact standard
  · exact (natural?_eq_some_iff.mp reads).2

/-- The sizes of a pool that were read are in their bounds: whatever is greater than a machine
number is refused. -/
theorem le_of_scheduler? {node : Json} {sizing : Pool.Sizing}
    (read : json.scheduler? node = some sizing) :
    sizing.workers ≤ greatestCount ∧ sizing.capacity ≤ greatestCount := by
  simp only [scheduler?, Option.bind_eq_bind, Option.bind_eq_some_iff] at read
  obtain ⟨_, -, workers, workersRead, capacity, capacityRead, read⟩ := read
  obtain rfl := Option.some.inj read
  exact ⟨le_of_field (by decide) workersRead, le_of_field (by decide) capacityRead⟩

/-- The time until the next look that was read is in its bounds. -/
theorem le_of_controller? {node : Json} {controller : ControllerSettings}
    (read : json.controller? node = some controller) :
    controller.requeueAfterSeconds ≤ greatestCount := by
  simp only [controller?, Option.bind_eq_bind, Option.bind_eq_some_iff] at read
  obtain ⟨_, -, seconds, secondsRead, _, -, read⟩ := read
  obtain rfl := Option.some.inj read
  exact le_of_field (by decide) secondsRead

/-- The port that was read is in its bounds, since a greater one is refused. -/
theorem le_of_server? {node : Json} {port : Nat} (read : json.server? node = some port) :
    port ≤ greatestPort := by
  obtain ⟨_, -, portRead⟩ := Option.bind_eq_some_iff.mp read
  exact le_of_field (by decide) portRead

end Form

namespace Settings

open Form

variable {settings : Settings}

/-- The numbers of the settings are machine numbers. -/
structure Representable (settings : Settings) : Prop where
  workers : settings.scheduler.workers ≤ greatestCount
  capacity : settings.scheduler.capacity ≤ greatestCount
  requeueAfter : settings.controller.requeueAfterSeconds ≤ greatestCount
  port : settings.port ≤ greatestPort

/-- Settings whose numbers are in their bounds read back from what is written for them. Every
section and every field of it is written, so no default is needed. -/
theorem ofJson?_toJson (representable : settings.Representable) :
    ofJson? settings.toJson = some settings := by
  obtain ⟨workers, capacity, requeueAfter, port⟩ := representable
  simp [ofJson?, toJson, settings?, scheduler?, storage?, controller?, server?, field,
    json_natural?_integer workers, json_natural?_integer capacity,
    json_natural?_integer requeueAfter, json_natural?_integer port, LogFormat.ofName?_name]

/-- Settings that were read are representable: each number in them was read up to its bound, or is
the default, which is in the bounds. -/
theorem representable_of_ofJson? {node : Json} (read : ofJson? node = some settings) :
    settings.Representable := by
  simp only [ofJson?, settings?, Option.bind_eq_bind, Option.bind_eq_some_iff] at read
  obtain ⟨_, -, scheduler, schedulerRead, _, -, controller, controllerRead, port, portRead, _, -,
    read⟩ := read
  obtain rfl := Option.some.inj read
  have sizing : scheduler.workers ≤ greatestCount ∧ scheduler.capacity ≤ greatestCount := by
    rcases read_of_field schedulerRead with rfl | ⟨node, reads⟩
    · decide
    · exact le_of_scheduler? reads
  have seconds : controller.requeueAfterSeconds ≤ greatestCount := by
    rcases read_of_field controllerRead with rfl | ⟨node, reads⟩
    · decide
    · exact le_of_controller? reads
  have number : port ≤ greatestPort := by
    rcases read_of_field portRead with rfl | ⟨node, reads⟩
    · decide
    · exact le_of_server? reads
  exact ⟨sizing.1, sizing.2, seconds, number⟩

end Settings

end DatasetSync
