import DatasetSync.Proofs.Config.Written
import DatasetSync.Proofs.Resource.Written

/-!
# Round trips

Two laws hold of every resource and of the settings. What was written reads back, if there is any
JSON value from which it could have been read. And a JSON value that was read by a lenient rule -
with a field missing, or `null`, or given by position, with members that no field asks for - has one
written form: reading that form and writing it again comes to the same form.

The two laws speak of JSON values, not of their texts.
-/

namespace DatasetSync

/-- What is written by one rule is read by another. -/
structure RoundTrips {α : Type} (write : α → Json) (read : Json → Option α) (Readable : α → Prop) :
    Prop where
  /-- Exactly the readable values read back. -/
  back : ∀ value, read (write value) = some value ↔ Readable value
  /-- A value that was read has a written form that reads, and is then written in the same way. -/
  steady : ∀ json value, read json = some value →
    ∃ again, read (write value) = some again ∧ write again = write value

namespace RoundTrips

variable {α : Type} {write : α → Json} {read : Json → Option α} {Readable : α → Prop}

/-- The two laws follow if readable values read back, and only such values are read: a value that
was read is readable, so that it reads back from what is written for it. -/
theorem of_readable (back : ∀ value, Readable value → read (write value) = some value)
    (readable : ∀ json value, read json = some value → Readable value) :
    RoundTrips write read Readable where
  back value := ⟨readable (write value) value, back value⟩
  steady json value given := ⟨value, back value (readable json value given), rfl⟩

/-- Where all values read back nothing is to be asked of them. -/
theorem of_all (back : ∀ value, read (write value) = some value) :
    RoundTrips write read fun _ => True :=
  of_readable (fun value _ => back value) fun _ _ _ => trivial

end RoundTrips

/-- The resources and the settings make round trips: references, specs, statuses and datasources
whatever they hold, settings if their numbers are machine numbers, and documents if their generation
is one and their deletion time, if they have one, stands in the one form in which times are read. -/
theorem resources_make_round_trips :
    RoundTrips Reference.toJson Reference.ofJson? (fun _ => True) ∧
      RoundTrips Spec.toJson Spec.ofJson? (fun _ => True) ∧
      RoundTrips SourceFiles.toJson SourceFiles.ofJson? (fun _ => True) ∧
      RoundTrips FileRecord.toJson FileRecord.ofJson? (fun _ => True) ∧
      RoundTrips Condition.toJson Condition.ofJson? (fun _ => True) ∧
      RoundTrips Status.toJson Status.ofJson? (fun _ => True) ∧
      RoundTrips Datasource.toJson Datasource.ofJson? (fun _ => True) ∧
      RoundTrips Settings.toJson Settings.ofJson? Settings.Representable ∧
      RoundTrips Document.toJson Document.ofJson? fun document => document.metadata.Readable :=
  ⟨.of_all Reference.ofJson?_toJson, .of_all Spec.ofJson?_toJson,
    .of_all SourceFiles.ofJson?_toJson, .of_all FileRecord.ofJson?_toJson,
    .of_all Condition.ofJson?_toJson, .of_all Status.ofJson?_toJson,
    .of_all Datasource.ofJson?_toJson,
    .of_readable (fun _ => Settings.ofJson?_toJson) fun _ _ => Settings.representable_of_ofJson?,
    .of_readable (fun _ => Document.ofJson?_toJson) fun _ _ => Document.readable_of_ofJson?⟩

/-- A document with a generation and labels, which is not to be deleted. -/
def labelledDocument : Document :=
  { metadata :=
      { Metadata.empty with
        name := some "ds-v1", ns := some "team-a"
        labels := some (.ofList [("tier", ""), ("app", "x")])
        finalizers := some [], generation := some 3 }
    spec :=
      { dataset := { apiGroup := some "", kind := "", name := "ds", ns := none }
        version := "v1", inheritedFrom := some "", fileGroups := [], released := false }
    status := some .initial }

/-- A document that is not to be deleted and settings with machine numbers read back, and so does a
reference that was given by position, without its last field and with a `null`. -/
theorem labelledDocument_reads_back :
    Document.ofJson? labelledDocument.toJson = some labelledDocument ∧
      Settings.ofJson? Settings.standard.toJson = some Settings.standard ∧
      Reference.ofJson? (.array [.null, .string "Dataset", .string "ds"]) =
        some ⟨none, "Dataset", "ds", none⟩ ∧
      ∃ again, Reference.ofJson? (Reference.toJson ⟨none, "Dataset", "ds", none⟩) = some again ∧
        again.toJson = Reference.toJson ⟨none, "Dataset", "ds", none⟩ := by
  obtain ⟨references, -, -, -, -, -, -, settings, documents⟩ := resources_make_round_trips
  have readable : labelledDocument.metadata.Readable :=
    { generation := by rintro _ ⟨rfl⟩; decide
      deletion := by rintro _ ⟨⟩ }
  have representable : Settings.standard.Representable :=
    ⟨by decide, by decide, by decide, by decide⟩
  have read : Reference.ofJson? (.array [.null, .string "Dataset", .string "ds"]) =
      some ⟨none, "Dataset", "ds", none⟩ := rfl
  exact ⟨(documents.back _).mpr readable, (settings.back _).mpr representable, read,
    references.steady _ _ read⟩

end DatasetSync
