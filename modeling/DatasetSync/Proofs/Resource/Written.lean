import DatasetSync.Proofs.Json.Members
import DatasetSync.Proofs.Ordered.Lookup
import DatasetSync.Proofs.Text.Timestamp
import DatasetSync.Resource.Datasource

/-!
# Resources read back

A resource that was written as JSON reads back as the same resource: each part of it leaves out
only what its reader supplies. Most fields are free texts, so no side condition is needed for
references, specs, statuses and datasources. The metadata of a document have two fields whose reader
does not take everything: a generation is a machine integer, and a deletion time is read in its one
form. Metadata in which they are as they can be read are *readable*, and all that was ever read are.
-/

namespace DatasetSync

open Json

/-- Each truth value reads back from its name. -/
theorem Truth.ofName?_name (truth : Truth) : ofName? truth.name = some truth := by
  cases truth <;> rfl

/-- Each phase reads back from its name. -/
theorem Phase.ofName?_name (phase : Phase) : ofName? phase.name = some phase := by
  cases phase <;> rfl

namespace Reference

variable {fields : Members} {reference : Reference}

/-- A reference is read from members of which each field reads as it is to be. Only the name has to
be there. -/
theorem ofJson?_of_fields (apiGroup : fields.optional "apiGroup" string? = some reference.apiGroup)
    (kind : fields.defaulted "kind" "" string? = some reference.kind)
    (name : fields.required "name" string? = some reference.name)
    (ns : fields.optional "namespace" string? = some reference.ns) :
    ofJson? (.object fields) = some reference := by
  simp [ofJson?, record?, apiGroup, kind, name, ns]

/-- A reference reads back from what is written for it. Parts that are left out are those that its
reader supplies. -/
theorem ofJson?_toJson (reference : Reference) : ofJson? reference.toJson = some reference := by
  refine ofJson?_of_fields ?apiGroup ?kind ?name ?ns
  case apiGroup => exact Members.optional_text (by simp)
  case kind => exact Members.defaulted_of_value? (string?_string _) (by simp)
  case name => exact Members.required_of_value? (string?_string _) (by simp)
  case ns => exact Members.optional_text (by simp)

end Reference

namespace FileRecord

variable {fields : Members} {file : FileRecord}

/-- The record of a file is read from members of which each field reads as it is to be. A file
without a phase is pending. -/
theorem ofJson?_of_fields (path : fields.required "path" string? = some file.path)
    (phase : fields.defaulted "phase" .pending Phase.ofJson? = some file.phase)
    (checksum : fields.defaulted "checksum" "" string? = some file.checksum)
    (time : fields.optional "lastUpdateTime" string? = some file.lastUpdateTime)
    (message : fields.defaulted "errMessage" "" string? = some file.errorMessage) :
    ofJson? (.object fields) = some file := by
  simp [ofJson?, record?, path, phase, checksum, time, message]

/-- The record of a file reads back from what is written for it, with or without checksum, time and
error. -/
theorem ofJson?_toJson (file : FileRecord) : ofJson? file.toJson = some file := by
  have phaseBack : Phase.ofJson? (.string file.phase.name) = some file.phase :=
    Phase.ofName?_name file.phase
  refine ofJson?_of_fields ?path ?phase ?checksum ?time ?message
  case path => exact Members.required_of_value? (string?_string _) (by simp)
  case phase => exact Members.defaulted_of_value? phaseBack (by simp)
  case checksum => exact Members.defaulted_text (by simp)
  case time => exact Members.optional_text (by simp)
  case message => exact Members.defaulted_text (by simp)

end FileRecord

namespace SourceFiles

variable {fields : Members} {group : SourceFiles}

/-- The files of a source are read from members with the reference and with the list of files, which
may be missing. -/
theorem ofJson?_of_fields
    (source : fields.required "sourceRef" Reference.ofJson? = some group.source)
    (files : fields.defaulted "files" [] (list? FileRecord.ofJson?) = some group.files) :
    ofJson? (.object fields) = some group := by
  simp [ofJson?, record?, source, files]

/-- The files of a source read back from what is written for them, each by its own reader. -/
theorem ofJson?_toJson (group : SourceFiles) : ofJson? group.toJson = some group := by
  have filesBack : list? FileRecord.ofJson? (.array (group.files.map FileRecord.toJson)) =
      some group.files := list?_array_map FileRecord.ofJson?_toJson
  refine ofJson?_of_fields ?source ?files
  case source => exact Members.required_of_value? group.source.ofJson?_toJson (by simp)
  case files => exact Members.defaulted_of_value? filesBack (by simp)

end SourceFiles

namespace Condition

variable {fields : Members} {condition : Condition}

/-- A condition is read from members of which each field reads as it is to be. Type and status have
to be there. -/
theorem ofJson?_of_fields (type : fields.required "type" string? = some condition.type)
    (status : fields.required "status" (·.choice?.bind Truth.ofName?) = some condition.status)
    (time : fields.optional "lastTransitionTime" string? = some condition.lastTransitionTime)
    (reason : fields.defaulted "reason" "" string? = some condition.reason)
    (message : fields.defaulted "message" "" string? = some condition.message) :
    ofJson? (.object fields) = some condition := by
  simp [ofJson?, record?, type, status, time, reason, message]

/-- A condition reads back from what is written for it, with or without a time. -/
theorem ofJson?_toJson (condition : Condition) : ofJson? condition.toJson = some condition := by
  have statusBack : (Json.string condition.status.name).choice?.bind Truth.ofName? =
      some condition.status := Truth.ofName?_name condition.status
  refine ofJson?_of_fields ?type ?status ?time ?reason ?message
  case type => exact Members.required_of_value? (string?_string _) (by simp)
  case status => exact Members.required_of_value? statusBack (by simp)
  case time => exact Members.optional_text (by simp)
  case reason => exact Members.defaulted_of_value? (string?_string _) (by simp)
  case message => exact Members.defaulted_text (by simp)

end Condition

namespace FileGroup

variable {fields : Members} {group : FileGroup}

/-- A file group is read from members with the reference of its source and with the list of paths,
which may be missing. -/
theorem ofJson?_of_fields (source : fields.required "source" Reference.ofJson? = some group.source)
    (paths : fields.defaulted "paths" [] (list? string?) = some group.paths) :
    ofJson? (.object fields) = some group := by
  simp [ofJson?, record?, source, paths]

/-- A file group reads back from what is written for it. -/
theorem ofJson?_toJson (group : FileGroup) : ofJson? group.toJson = some group := by
  have pathsBack : list? string? (.array (group.paths.map .string)) = some group.paths :=
    list?_array_map string?_string
  refine ofJson?_of_fields ?source ?paths
  case source => exact Members.required_of_value? group.source.ofJson?_toJson (by simp)
  case paths => exact Members.defaulted_of_value? pathsBack (by simp)

end FileGroup

namespace Spec

variable {fields : Members} {spec : Spec}

/-- A specification is read from members of which each field reads as it is to be. The dataset and
the version have to be there. -/
theorem ofJson?_of_fields
    (dataset : fields.required "dataset" Reference.ofJson? = some spec.dataset)
    (version : fields.required "version" string? = some spec.version)
    (parent : fields.optional "inheritedFrom" string? = some spec.inheritedFrom)
    (groups : fields.defaulted "fileGroups" [] (list? FileGroup.ofJson?) = some spec.fileGroups)
    (released : fields.defaulted "released" false bool? = some spec.released) :
    ofJson? (.object fields) = some spec := by
  simp [ofJson?, record?, dataset, version, parent, groups, released]

/-- A specification reads back from what is written for it, with or without a parent version and
file groups. -/
theorem ofJson?_toJson (spec : Spec) : ofJson? spec.toJson = some spec := by
  have groupsBack : list? FileGroup.ofJson? (.array (spec.fileGroups.map FileGroup.toJson)) =
      some spec.fileGroups := list?_array_map FileGroup.ofJson?_toJson
  have releasedBack : bool? (.bool spec.released) = some spec.released := rfl
  refine ofJson?_of_fields ?dataset ?version ?parent ?groups ?released
  case dataset => exact Members.required_of_value? spec.dataset.ofJson?_toJson (by simp)
  case version => exact Members.required_of_value? (string?_string _) (by simp)
  case parent => exact Members.optional_text (by simp)
  case groups => exact Members.defaulted_of_value? groupsBack (by simp)
  case released => exact Members.defaulted_of_value? releasedBack (by simp)

end Spec

/-- Reading a status is reading its two lists, either of which may be missing. This is an
equivalence, since a patch is read back in terms of the members that are there. -/
theorem Status.ofJson?_eq_some_iff {fields : Members} {status : Status} :
    ofJson? (.object fields) = some status ↔
      fields.defaulted "conditions" [] (list? Condition.ofJson?) = some status.conditions ∧
        fields.defaulted "files" [] FileTree.ofJson? = some status.files := by
  obtain ⟨conditions, files⟩ := status
  simp [ofJson?, record?, Option.bind_eq_some_iff]

/-- A status reads back from what is written for it: an empty list is left out, and a missing one is
read as empty. -/
theorem Status.ofJson?_toJson (status : Status) : ofJson? status.toJson = some status := by
  refine ofJson?_eq_some_iff.mpr ⟨?conditions, ?files⟩
  case conditions => exact Members.defaulted_list Condition.ofJson?_toJson (by simp)
  case files => exact Members.defaulted_list SourceFiles.ofJson?_toJson (by simp)

namespace StorageLocation

variable {fields : Members} {location : StorageLocation}

/-- The place of a datasource is read from members with its bucket, which may be missing, and its
object. -/
theorem ofJson?_of_fields (bucket : fields.defaulted "bucket" "" string? = some location.bucket)
    (object : fields.optional "object" string? = some location.object) :
    ofJson? (.object fields) = some location := by
  simp [ofJson?, record?, bucket, object]

/-- The place of a datasource reads back from what is written for it. -/
theorem ofJson?_toJson (location : StorageLocation) :
    ofJson? location.toJson = some location := by
  refine ofJson?_of_fields ?bucket ?object
  case bucket => exact Members.defaulted_of_value? (string?_string _) (by simp)
  case object => exact Members.optional_text (by simp)

end StorageLocation

namespace Datasource

variable {fields : Members} {datasource : Datasource}

/-- A datasource is read from members with its displayed name and its place, either of which may be
missing. -/
theorem ofJson?_of_fields
    (name : fields.optional "displayName" string? = some datasource.displayName)
    (location : fields.optional "oss" StorageLocation.ofJson? = some datasource.location) :
    ofJson? (.object fields) = some datasource := by
  simp [ofJson?, record?, name, location]

/-- A datasource reads back from what is written for it. -/
theorem ofJson?_toJson (datasource : Datasource) :
    ofJson? datasource.toJson = some datasource := by
  refine ofJson?_of_fields ?name ?location
  case name => exact Members.optional_text (by simp)
  case location =>
    exact Members.optional_of_map StorageLocation.toJson
      (fun _ => Json.noConfusion) (by simp) fun location _ => location.ofJson?_toJson

end Datasource

/-! ### Documents -/

/-- Labels read back from what is written for them. They are a map, so the order in which they are
written is that of their keys. -/
theorem Labels.ofJson?_toJson (labels : Labels) : ofJson? labels.toJson = some labels := by
  rw [ofJson?, toJson, table?_object_map string?_string, Option.map_some, OrderedMap.ofList_toList]

namespace Metadata

variable {fields : Members} {metadata : Metadata}

/-- The generation is a machine integer, and the deletion time is in its one form. -/
structure Readable (metadata : Metadata) : Prop where
  generation : ∀ generation, metadata.generation = some generation →
    Int64.minValue.toInt ≤ generation ∧ generation ≤ Int64.maxValue.toInt
  deletion : ∀ time, metadata.deletionTimestamp = some time →
    Timestamp.ofRfc3339? time = some time

/-- Metadata are read from members of which each field reads as it is to be. The bounds of the
generation are kept as an expression: written out as numerals they would no longer be those of the
field that was found. -/
theorem ofJson?_of_fields (name : fields.optional "name" string? = some metadata.name)
    (generateName : fields.optional "generateName" string? = some metadata.generateName)
    (ns : fields.optional "namespace" string? = some metadata.ns)
    (token : fields.optional "resourceVersion" string? = some metadata.resourceVersion)
    (uid : fields.optional "uid" string? = some metadata.uid)
    (labels : fields.optional "labels" Labels.ofJson? = some metadata.labels)
    (annotations : fields.optional "annotations" Labels.ofJson? = some metadata.annotations)
    (finalizers : fields.optional "finalizers" (list? string?) = some metadata.finalizers)
    (generation : fields.optional "generation"
      (integerIn? Int64.minValue.toInt Int64.maxValue.toInt) = some metadata.generation)
    (deletion : fields.optional "deletionTimestamp" (·.string?.bind Timestamp.ofRfc3339?) =
      some metadata.deletionTimestamp) :
    ofJson? (.object fields) = some metadata := by
  unfold ofJson?
  generalize Int64.minValue.toInt = least, Int64.maxValue.toInt = greatest at generation ⊢
  simp [members?, name, generateName, ns, token, uid, labels, annotations, finalizers, generation,
    deletion]

/-- Readable metadata read back from what is written for them. The generation has to be a machine
integer and the deletion time in its one form; everything else is free. -/
theorem ofJson?_toJson (readable : metadata.Readable) :
    ofJson? metadata.toJson = some metadata := by
  refine ofJson?_of_fields ?name ?generateName ?ns ?token ?uid ?labels ?annotations ?finalizers
    ?generation ?deletion
  case name => exact Members.optional_text (by simp)
  case generateName => exact Members.optional_text (by simp)
  case ns => exact Members.optional_text (by simp)
  case token => exact Members.optional_text (by simp)
  case uid => exact Members.optional_text (by simp)
  case labels =>
    exact Members.optional_of_map Labels.toJson (fun _ => Json.noConfusion) (by simp)
      fun labels _ => labels.ofJson?_toJson
  case annotations =>
    exact Members.optional_of_map Labels.toJson (fun _ => Json.noConfusion) (by simp)
      fun labels _ => labels.ofJson?_toJson
  case finalizers =>
    exact Members.optional_of_map (fun names => .array (names.map .string))
      (fun _ => Json.noConfusion) (by simp) fun _ _ => list?_array_map string?_string
  case generation =>
    exact Members.optional_of_map .integer (fun _ => Json.noConfusion) (by simp)
      fun generation held => integerIn?_eq_some_iff.mpr ⟨rfl, readable.generation generation held⟩
  case deletion =>
    exact Members.optional_of_map .string (fun _ => Json.noConfusion) (by simp)
      fun time held => readable.deletion time held

/-- Metadata that were read are readable: the reader of a generation keeps to the bounds, and the
reader of a time gives its one form. -/
theorem readable_of_ofJson? {json : Json} (read : ofJson? json = some metadata) :
    metadata.Readable := by
  simp only [ofJson?, Option.bind_eq_bind, Option.bind_eq_some_iff] at read
  obtain ⟨fields, -, _, -, _, -, _, -, _, -, _, -, _, -, _, -, _, -, generation, generationRead,
    deletion, deletionRead, read⟩ := read
  obtain rfl := Option.some.inj read
  constructor
  · rintro held rfl
    obtain ⟨json, reads⟩ := Members.read_of_optional generationRead
    exact (integerIn?_eq_some_iff.mp reads).2
  · rintro held rfl
    obtain ⟨json, reads⟩ := Members.read_of_optional deletionRead
    obtain ⟨text, -, reads⟩ := Option.bind_eq_some_iff.mp reads
    exact Timestamp.ofRfc3339?_again reads

end Metadata

namespace Document

variable {fields : Members} {document : Document}

/-- A document is read from members with metadata, specification and status, of which only the
status may be missing. -/
theorem ofJson?_of_fields
    (metadata : fields.required "metadata" Metadata.ofJson? = some document.metadata)
    (spec : fields.required "spec" Spec.ofJson? = some document.spec)
    (status : fields.optional "status" Status.ofJson? = some document.status) :
    ofJson? (.object fields) = some document := by
  simp [ofJson?, fullRecord?, metadata, spec, status]

/-- A document with readable metadata reads back from what is written for it, with or without a
status. -/
theorem ofJson?_toJson (readable : document.metadata.Readable) :
    ofJson? document.toJson = some document := by
  refine ofJson?_of_fields ?metadata ?spec ?status
  case metadata => exact Members.required_of_value? (Metadata.ofJson?_toJson readable) (by simp)
  case spec => exact Members.required_of_value? document.spec.ofJson?_toJson (by simp)
  case status =>
    exact Members.optional_of_map Status.toJson (fun _ => Json.noConfusion) (by simp)
      fun status _ => status.ofJson?_toJson

/-- The metadata of a document that was read are readable. So what was read once is read again
without change. -/
theorem readable_of_ofJson? {json : Json} (read : ofJson? json = some document) :
    document.metadata.Readable := by
  simp only [ofJson?, Option.bind_eq_bind, Option.bind_eq_some_iff] at read
  obtain ⟨fields, -, metadata, metadataRead, spec, -, status, -, read⟩ := read
  obtain rfl := Option.some.inj read
  obtain ⟨json, -, reads⟩ := Option.bind_eq_some_iff.mp metadataRead
  exact Metadata.readable_of_ofJson? reads

end Document

end DatasetSync
