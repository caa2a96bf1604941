import DatasetSync.Resource.Document

/-!
# Document stores

A document store holds versioned datasets by key. Every write gives the document a fresh
token. A write names the token of the version that it was made from, and fails if the
document has moved on: nobody overwrites what he has not seen.

The status is written apart from the rest: an update replaces metadata and spec and keeps
the status, a patch replaces the status and keeps metadata and spec. A document that was
marked deleted stays until its last finalizer is gone.

`DocumentCall` is what the engine asks of a store. `DocumentStore` answers from memory, and
offers besides what other clients of the store do.
-/

namespace DatasetSync

/-- Why a call on a document store fails. -/
inductive StoreError where
  | conflict (key : QualifiedName)
  | notFound (key : QualifiedName)
  | missingMetadata (field : String)
  /-- The service behind the store refused or could not be understood. -/
  | service
deriving DecidableEq, Repr

/-- The text of an error. What the service says of itself is not repeated. -/
def StoreError.message : StoreError → String
  | conflict key => key.toString ++ " was modified concurrently"
  | notFound key => key.toString ++ " not found"
  | missingMetadata field => field ++ " is missing from object metadata"
  | service => "Kubernetes API error"

/-- A call on a document store. -/
inductive DocumentCall where
  | get (key : QualifiedName)
  /-- Replace metadata and spec. -/
  | update (document : Document)
  /-- Replace the status of the version with the given token. -/
  | patchStatus (key : QualifiedName) (token : String) (status : Status)
deriving DecidableEq, Repr

/-- What a call answers. -/
abbrev DocumentCall.Answer : DocumentCall → Type
  | get _ => Except StoreError (Option Document)
  | update _ => Except StoreError Document
  | patchStatus _ _ _ => Except StoreError Unit

/-- A document store in memory. -/
structure DocumentStore where
  documents : OrderedMap QualifiedName Document
  /-- How many tokens have been given out. -/
  issued : Nat
  /-- How many statuses have been patched. -/
  patches : Nat
  /-- How many documents have been updated. -/
  updates : Nat
deriving DecidableEq, Repr

namespace DocumentStore

/-- A store without documents. -/
def empty : DocumentStore := ⟨.empty, 0, 0, 0⟩

instance : Inhabited DocumentStore := ⟨empty⟩

/-- The token that the next write takes: tokens are the numbers from one. -/
def nextToken (store : DocumentStore) : String := toString (store.issued + 1)

/-- The store after a token was taken. -/
def issue (store : DocumentStore) : DocumentStore := { store with issued := store.issued + 1 }

/-- The stored version of a document. -/
def get? (store : DocumentStore) (key : QualifiedName) : Option Document :=
  store.documents.get? key

/-- The document under another token. -/
def withToken (document : Document) (token : String) : Document :=
  { document with metadata := { document.metadata with resourceVersion := some token } }

/-- Put a document under its key. -/
def put (store : DocumentStore) (key : QualifiedName) (document : Document) : DocumentStore :=
  { store with documents := store.documents.insert key document }

/-- Take the document of a key away. -/
def drop (store : DocumentStore) (key : QualifiedName) : DocumentStore :=
  { store with documents := store.documents.erase key }

/-- Another client creates a document, or replaces it whatever its version. -/
def insert (store : DocumentStore) (document : Document) : Document × DocumentStore :=
  let stored := withToken document store.nextToken
  (stored, store.issue.put document.key stored)

/-- Another client writes a document without changing anything but its token. -/
def bump (store : DocumentStore) (key : QualifiedName) : DocumentStore :=
  match store.get? key with
  | some document => store.issue.put key (withToken document store.nextToken)
  | none => store.issue

/-- Another client asks for the deletion of a document. -/
def markDeleted (store : DocumentStore) (now : Timestamp) (key : QualifiedName) :
    Option Document × DocumentStore :=
  match store.get? key with
  | some document =>
    let marked := withToken
      { document with metadata := { document.metadata with deletionTimestamp := some now } }
      store.nextToken
    (some marked, store.issue.put key marked)
  | none => (none, store.issue)

/-- A document disappears, whatever its finalizers. -/
def remove (store : DocumentStore) (key : QualifiedName) : Option Document × DocumentStore :=
  (store.get? key, store.drop key)

/-- Whether nothing keeps a document any more. -/
def isReleased (document : Document) : Bool :=
  document.isDeleting && document.finalizers.isEmpty

/-- Replace metadata and spec of the stored version that has the same token. -/
def update (store : DocumentStore) (document : Document) :
    Except StoreError Document × DocumentStore :=
  match document.metadata.ns with
  | none => (.error (.missingMetadata "namespace"), store)
  | some _ =>
    let key := document.key
    match store.get? key with
    | none => (.error (.notFound key), store.issue)
    | some stored =>
      if stored.versionToken ≠ document.versionToken then (.error (.conflict key), store.issue)
      else
        let updated := withToken { document with status := stored.status } store.nextToken
        let after :=
          if isReleased updated then store.issue.drop key else store.issue.put key updated
        (.ok updated, { after with updates := after.updates + 1 })

/-- Replace the status of the stored version that has the given token. -/
def patchStatus (store : DocumentStore) (key : QualifiedName) (token : String)
    (status : Status) : Except StoreError Unit × DocumentStore :=
  match store.get? key with
  | none => (.error (.notFound key), store.issue)
  | some stored =>
    if stored.versionToken ≠ some token then (.error (.conflict key), store.issue)
    else
      let patched := withToken { stored with status := some status } store.nextToken
      let after := store.issue.put key patched
      (.ok (), { after with patches := after.patches + 1 })

/-- Answer a call of the engine. -/
def answer (store : DocumentStore) (call : DocumentCall) : call.Answer × DocumentStore :=
  match call with
  | .get key => (.ok (store.get? key), store)
  | .update document => store.update document
  | .patchStatus key token status => store.patchStatus key token status

end DocumentStore

end DatasetSync
