import DatasetSync.Ordered.Map
import DatasetSync.Ordered.Set
import DatasetSync.Text.Affix

/-!
# Object stores

An object store holds objects by bucket and key. The engine never looks into an object: it
checks and makes buckets, copies and removes whole objects and lists keys.

`ObjectCall` is what a store can be asked, and `ObjectCall.Answer` what it answers.
`ObjectStore` answers from memory. It can be told to fail calls that touch certain keys or
buckets, and it keeps a log of all calls.
-/

namespace DatasetSync

/-- A key in a bucket. -/
structure ObjectAddress where
  bucket : String
  key : String
deriving DecidableEq, Repr, Inhabited

/-- An object in a listing. -/
structure ObjectInfo where
  key : String
  size : Int
  etag : Option String
deriving DecidableEq, Repr, Inhabited

/-- The kinds of requests that a store can refuse. -/
inductive StorageOperation where
  | headBucket
  | createBucket
  | copyObject
  | deleteObject
  | listObjects
deriving DecidableEq, Repr

/-- The name of an operation in error texts. -/
def StorageOperation.name : StorageOperation → String
  | headBucket => "HeadBucket"
  | createBucket => "CreateBucket"
  | copyObject => "CopyObject"
  | deleteObject => "DeleteObject"
  | listObjects => "ListObjectsV2"

/-- Why a call on an object store fails. -/
inductive StorageError where
  | bucketNotFound (bucket : String)
  | objectNotFound (address : ObjectAddress)
  | request (operation : StorageOperation) (message : String)
deriving DecidableEq, Repr

def StorageError.message : StorageError → String
  | bucketNotFound bucket => "bucket " ++ bucket ++ " does not exist"
  | objectNotFound address =>
    "object " ++ address.bucket ++ "/" ++ address.key ++ " does not exist"
  | request operation message => operation.name ++ " failed: " ++ message

/-- A call on an object store. -/
inductive ObjectCall where
  | bucketExists (bucket : String)
  | makeBucket (bucket : String)
  | copyObject (destination source : ObjectAddress)
  /-- Removing what is not there is no error. -/
  | removeObject (address : ObjectAddress)
  /-- List the keys with a prefix: all of them, or only those without a further slash. -/
  | listObjects (bucket leading : String) (recursive : Bool)
deriving DecidableEq, Repr

/-- What a call answers. -/
abbrev ObjectCall.Answer : ObjectCall → Type
  | bucketExists _ => Except StorageError Bool
  | makeBucket _ => Except StorageError Unit
  | copyObject _ _ => Except StorageError Unit
  | removeObject _ => Except StorageError Unit
  | listObjects _ _ _ => Except StorageError (List ObjectInfo)

/-- An object store in memory. -/
structure ObjectStore where
  /-- The keys of each bucket. -/
  buckets : OrderedMap String (OrderedSet String)
  /-- Keys that cannot be copied or removed, with the reason. -/
  failingKeys : OrderedMap String String
  /-- Buckets that cannot be used at all, with the reason. -/
  failingBuckets : OrderedMap String String
  /-- All calls so far, oldest first. -/
  log : List ObjectCall
deriving DecidableEq, Repr

namespace ObjectStore

/-- A store without buckets. -/
def empty : ObjectStore := ⟨.empty, .empty, .empty, []⟩

instance : Inhabited ObjectStore := ⟨empty⟩

/-- Add a bucket if it is not there. -/
def putBucket (store : ObjectStore) (bucket : String) : ObjectStore :=
  { store with buckets := store.buckets.alter bucket (·.getD .empty) }

/-- Add an object, and its bucket if that is not there. -/
def putObject (store : ObjectStore) (bucket key : String) : ObjectStore :=
  { store with buckets := store.buckets.alter bucket fun keys => (keys.getD .empty).insert key }

/-- Make copies from and to a key, and removals of it, fail. -/
def failKey (store : ObjectStore) (key message : String) : ObjectStore :=
  { store with failingKeys := store.failingKeys.insert key message }

/-- Make every call on a bucket fail. -/
def failBucket (store : ObjectStore) (bucket message : String) : ObjectStore :=
  { store with failingBuckets := store.failingBuckets.insert bucket message }

/-- The keys of a bucket, smallest first; nothing if the bucket is not there. -/
def keys? (store : ObjectStore) (bucket : String) : Option (List String) :=
  (store.buckets.get? bucket).map OrderedSet.toList

/-- Whether an object is there. -/
def holds (store : ObjectStore) (bucket key : String) : Bool :=
  (store.buckets.get? bucket).any fun keys => key ∈ keys

/-- Fail if the bucket cannot be used. -/
def checkBucket (store : ObjectStore) (operation : StorageOperation) (bucket : String) :
    Except StorageError Unit :=
  match store.failingBuckets.get? bucket with
  | some message => .error (.request operation message)
  | none => .ok ()

/-- Fail if the key cannot be copied or removed. -/
def checkKey (store : ObjectStore) (operation : StorageOperation) (key : String) :
    Except StorageError Unit :=
  match store.failingKeys.get? key with
  | some message => .error (.request operation message)
  | none => .ok ()

/-- The keys of a bucket, which has to be there. -/
def keysOf (store : ObjectStore) (bucket : String) : Except StorageError (OrderedSet String) :=
  match store.buckets.get? bucket with
  | some keys => .ok keys
  | none => .error (.bucketNotFound bucket)

def bucketExists (store : ObjectStore) (bucket : String) : Except StorageError Bool := do
  store.checkBucket .headBucket bucket
  return store.buckets.contains bucket

def makeBucket (store : ObjectStore) (bucket : String) : Except StorageError ObjectStore := do
  store.checkBucket .createBucket bucket
  return store.putBucket bucket

/-- Both buckets and both keys have to be usable; then the source has to be there, and last
    the destination bucket. -/
def copyObject (store : ObjectStore) (destination source : ObjectAddress) :
    Except StorageError ObjectStore := do
  store.checkBucket .copyObject source.bucket
  store.checkBucket .copyObject destination.bucket
  store.checkKey .copyObject source.key
  store.checkKey .copyObject destination.key
  if store.holds source.bucket source.key then
    let keys ← store.keysOf destination.bucket
    return { store with
      buckets := store.buckets.insert destination.bucket (keys.insert destination.key) }
  else .error (.objectNotFound source)

def removeObject (store : ObjectStore) (address : ObjectAddress) :
    Except StorageError ObjectStore := do
  store.checkBucket .deleteObject address.bucket
  store.checkKey .deleteObject address.key
  let keys ← store.keysOf address.bucket
  return { store with buckets := store.buckets.insert address.bucket (keys.erase address.key) }

/-- Whether a key is listed under a prefix. -/
def isListed (leading : String) (recursive : Bool) (key : String) : Bool :=
  (Text.stripPrefix? leading key).any fun rest => recursive || !rest.toList.contains '/'

def listObjects (store : ObjectStore) (bucket leading : String) (recursive : Bool) :
    Except StorageError (List ObjectInfo) := do
  store.checkBucket .listObjects bucket
  let keys ← store.keysOf bucket
  return (keys.toList.filter (isListed leading recursive)).map fun key =>
    { key, size := 0, etag := none }

/-- What a change answers, and the store after it. -/
def settle (store : ObjectStore) :
    Except StorageError ObjectStore → Except StorageError Unit × ObjectStore
  | .ok changed => (.ok (), changed)
  | .error error => (.error error, store)

/-- Answer a call and log it, whether or not it fails. -/
def answer (store : ObjectStore) (call : ObjectCall) : call.Answer × ObjectStore :=
  let logged := { store with log := store.log ++ [call] }
  match call with
  | .bucketExists bucket => (logged.bucketExists bucket, logged)
  | .makeBucket bucket => logged.settle (logged.makeBucket bucket)
  | .copyObject destination source => logged.settle (logged.copyObject destination source)
  | .removeObject address => logged.settle (logged.removeObject address)
  | .listObjects bucket leading recursive =>
    (logged.listObjects bucket leading recursive, logged)

end ObjectStore

end DatasetSync
