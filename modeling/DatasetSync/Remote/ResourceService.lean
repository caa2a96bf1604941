import DatasetSync.Remote.ObjectService
import DatasetSync.Remote.Target
import DatasetSync.Resource.Datasource
import DatasetSync.Resource.Definition
import DatasetSync.Store.Document

/-!
# A document store behind a resource service

The service of a cluster keeps resources of many kinds, each under a path that names its
kind, its namespace and its name. It guards tokens itself: a write over a version that is no
longer the stored one is refused with the code of a conflict.

Each operation says what a call answers for a reply, and which requests are made for it.
-/

namespace DatasetSync.Remote

/-- The form in which a body is sent. -/
inductive ContentType where
  /-- The whole resource. -/
  | resource
  /-- A change to the stored resource. -/
  | mergePatch
deriving DecidableEq, Repr

namespace ContentType

def name : ContentType → String
  | resource => "application/json"
  | mergePatch => "application/merge-patch+json"

end ContentType

/-- A request to the service. -/
structure ResourceRequest where
  verb : Verb
  path : String
  body : Option (ContentType × Json)
deriving Repr

/-- A reply of the service. -/
inductive ResourceReply where
  | body (json : Json)
  /-- A refusal, with a code and with a word for its reason. -/
  | refusal (code : Nat) (reason : String)
deriving Repr

namespace ResourceService

/-- The target of a resource. -/
def target (definition : Definition) (key : QualifiedName) : String :=
  "/apis/" ++ Document.group ++ "/" ++ Document.apiVersion ++ "/namespaces/" ++ key.ns ++ "/"
    ++ definition.plural ++ "/" ++ key.name

/-- One request for a resource. A resource without a name, or one whose name spoils the
    target, cannot be asked for, so nothing is sent then. -/
def exchange {α : Type} (key : QualifiedName) (verb : Verb) (target : String)
    (body : Option (ContentType × Json)) (result : Except StoreError α) :
    Exchange ResourceRequest (Except StoreError α) :=
  match (Target.path? target).filter fun _ => !key.name.isEmpty with
  | none => ⟨.error .service, []⟩
  | some path => ⟨result, [⟨verb, path, body⟩]⟩

/-- What a reply says that should hold a value of one kind. -/
def decode {α : Type} (read : Json → Option α) (json : Json) : Except StoreError α :=
  match read json with
  | some value => .ok value
  | none => .error .service

/-- Why a write was refused. -/
def writeError (key : QualifiedName) (code : Nat) : StoreError :=
  if code = 409 then .conflict key else if code = 404 then .notFound key else .service

/-- A write answers with the resource that it has made. -/
def written (key : QualifiedName) : ResourceReply → Except StoreError Document
  | .body json => decode Document.ofJson? json
  | .refusal code _ => .error (writeError key code)

/-- The least code that is not the code of a refusal any more. -/
def endOfRefusals : Nat := 600

/-- Read a document. Whether it is there is told by the reason of a refusal, not by the
    code, as long as the code is that of a refusal. -/
def get (key : QualifiedName) (reply : ResourceReply) :
    Exchange ResourceRequest (Except StoreError (Option Document)) :=
  exchange key .get (target .versionedDataset key) none <|
    match reply with
    | .body json => (decode Document.ofJson? json).map some
    | .refusal code reason =>
      if reason = "NotFound" && code < endOfRefusals then .ok none else .error .service

/-- Replace metadata and spec of a document. -/
def update (document : Document) (reply : ResourceReply) :
    Exchange ResourceRequest (Except StoreError Document) :=
  match document.metadata.ns with
  | none => ⟨.error (.missingMetadata "namespace"), []⟩
  | some _ =>
    let key := document.key
    exchange key .put (target .versionedDataset key ++ "?")
      (some (.resource, document.toJson)) (written key reply)

/-- The change that replaces a status: it names the version that it was made for. -/
def statusPatch (token : String) (status : Status) : Json :=
  .object [
    ("metadata", .object [("resourceVersion", .string token)]),
    ("status", status.toJson)]

/-- Replace the status of a document. -/
def patchStatus (key : QualifiedName) (token : String) (status : Status)
    (reply : ResourceReply) : Exchange ResourceRequest (Except StoreError Unit) :=
  exchange key .patch (target .versionedDataset key ++ "/status?")
    (some (.mergePatch, statusPatch token status)) ((written key reply).map fun _ => ())

/-- Find the bucket of a source. -/
def resolve (source : Reference) (fallback : String) (reply : ResourceReply) :
    Exchange ResourceRequest (Except StoreError String) :=
  let key := source.qualified fallback
  exchange key .get (target .datasource key) none <|
    match reply with
    | .body json => (decode Datasource.ofDocument? json).map (·.bucket?.getD key.ns)
    | .refusal code _ => .error (if code = 404 then .notFound key else .service)

end ResourceService

end DatasetSync.Remote
