import DatasetSync.Store.Object
import DatasetSync.Text.Blank
import DatasetSync.Text.PercentEncoding
import DatasetSync.Text.Xml

/-!
# An object store behind a web service

The calls on an object store can be answered by a web service. Each call becomes one
request, but for a listing: its reply may announce a further page, which is asked for by
the token that came with the announcement. Each operation below says, for the replies that
come in turn, what the call answers and which requests are made for it.
-/

namespace DatasetSync.Remote

/-- A call that was made by way of requests. -/
structure Exchange (ρ α : Type) where
  result : α
  /-- The requests, in the order in which they were made. -/
  requests : List ρ
deriving Repr

/-- The verb of a request. -/
inductive Verb where
  | head
  | get
  | put
  | patch
  | delete
deriving DecidableEq, Repr

namespace Verb

def name : Verb → String
  | head => "HEAD"
  | get => "GET"
  | put => "PUT"
  | patch => "PATCH"
  | delete => "DELETE"

end Verb

/-- Which part of a listing is asked for. -/
structure PageQuery where
  /-- What the listed keys start with. -/
  leading : String
  /-- Keys are listed only up to this mark. -/
  delimiter : Option String
  /-- The token of the page; the first page has none. -/
  continuation : Option String
deriving DecidableEq, Repr

/-- A request to the service. -/
inductive ObjectRequest where
  | headBucket (bucket : String)
  | putBucket (bucket : String)
  /-- The source is named in a header. -/
  | putCopy (destination : ObjectAddress) (source : String)
  | deleteObject (address : ObjectAddress)
  | getPage (bucket : String) (query : PageQuery)
deriving DecidableEq, Repr

namespace ObjectRequest

def verb : ObjectRequest → Verb
  | headBucket _ => .head
  | putBucket _ => .put
  | putCopy _ _ => .put
  | deleteObject _ => .delete
  | getPage _ _ => .get

end ObjectRequest

/-- How the source of a copy is named by way of some encoding: its bucket, and its key with
    every segment encoded. -/
def copySourceBy (encode : List Char → List Char) (source : ObjectAddress) : String :=
  source.bucket ++ "/" ++ Text.encodeSegments encode source.key

/-- How the source of a copy is named: by way of percent-encoding. -/
def copySource (source : ObjectAddress) : String := copySourceBy Text.percentEncode source

/-- An entry of a page. Nothing in it is certain to be there. -/
structure PageEntry where
  key : Option String
  size : Option Int
  etag : Option String
deriving DecidableEq, Repr

namespace PageEntry

/-- A text of an entry as it arrives, if the page with it can be read. -/
def received? : Option String → Option (Option String)
  | none => some none
  | some text => (Text.throughXml? text).map some

/-- The object of an entry; an entry without a key names none. There is no answer if the page
    with the entry cannot be read. -/
def object? (entry : PageEntry) : Option (Option ObjectInfo) := do
  let key ← received? entry.key
  let etag ← received? entry.etag
  return key.map fun key => { key, size := entry.size.getD 0, etag }

end PageEntry

/-- One page of a listing. -/
structure Page where
  entries : List PageEntry
  /-- The token of the next page, if there is one. -/
  next : Option String
deriving DecidableEq, Repr

namespace Page

/-- The objects of a page, if the page can be read. -/
def objects? (page : Page) : Option (List ObjectInfo) :=
  (page.entries.mapM PageEntry.object?).map (·.filterMap id)

end Page

/-- A reply of the service. -/
structure ObjectReply where
  status : Nat
  page : Option Page
deriving DecidableEq, Repr

namespace ObjectReply

/-- A reply without a page. -/
def plain (status : Nat) : ObjectReply := ⟨status, none⟩

/-- Whether the request was carried out. -/
def isSuccess (reply : ObjectReply) : Bool := 200 ≤ reply.status && reply.status < 300

end ObjectReply

namespace ObjectService

/-- The error of a refused request. What the service says of it is not repeated. -/
def refused (operation : StorageOperation) : StorageError := .request operation ""

/-- Whether a text is the full name of a resource rather than the name of a bucket: six
    parts between colons, of which the first is fixed and the partition, the service and the
    resource are given. An ASCII text with that first part is taken for one in any case. -/
def isResourceName (text : String) : Bool :=
  match text.toList.splitOn ':' with
  | first :: further =>
    first = ['a', 'r', 'n'] && !further.isEmpty &&
      (text.toList.all (·.toNat < 0x80) ||
        match further with
        | partition :: service :: _ :: _ :: resource =>
          !partition.isEmpty && !service.isEmpty
            && (1 < resource.length || resource.any (!·.isEmpty))
        | _ => false)
  | [] => false

/-- Whether a request can name a bucket. -/
def namesBucket (bucket : String) : Bool := !Text.isBlank bucket && !isResourceName bucket

/-- Whether a request can name an object. -/
def namesObject (address : ObjectAddress) : Bool :=
  namesBucket address.bucket && !Text.isBlank address.key

/-- Whether a text can be sent in a header: but for tabs it holds no control characters. -/
def fitsHeader (text : String) : Bool :=
  text.toList.all fun character =>
    character = '\t' || (0x20 ≤ character.toNat && character.toNat ≠ 0x7F)

/-- One request with what its reply says. What cannot be named cannot be asked for, so
    nothing is sent then. -/
def once {α : Type} (operation : StorageOperation) (named : Bool) (request : ObjectRequest)
    (result : Except StorageError α) : Exchange ObjectRequest (Except StorageError α) :=
  if named then ⟨result, [request]⟩ else ⟨.error (refused operation), []⟩

/-- A reply that says no more than whether the request was carried out. -/
def confirmed (operation : StorageOperation) (reply : ObjectReply) : Except StorageError Unit :=
  if reply.isSuccess then .ok () else .error (refused operation)

/-- A bucket that the service does not know does not exist; that is no failure. -/
def bucketExists (bucket : String) (reply : ObjectReply) :
    Exchange ObjectRequest (Except StorageError Bool) :=
  once .headBucket (namesBucket bucket) (.headBucket bucket) <|
    if reply.isSuccess then .ok true
    else if reply.status = 404 then .ok false
    else .error (refused .headBucket)

def makeBucket (bucket : String) (reply : ObjectReply) :
    Exchange ObjectRequest (Except StorageError Unit) :=
  once .createBucket (namesBucket bucket) (.putBucket bucket) (confirmed .createBucket reply)

def copyObject (destination source : ObjectAddress) (reply : ObjectReply) :
    Exchange ObjectRequest (Except StorageError Unit) :=
  let header := copySource source
  once .copyObject (namesObject destination && fitsHeader header)
    (.putCopy destination header) (confirmed .copyObject reply)

def removeObject (address : ObjectAddress) (reply : ObjectReply) :
    Exchange ObjectRequest (Except StorageError Unit) :=
  once .deleteObject (namesObject address) (.deleteObject address)
    (confirmed .deleteObject reply)

/-- Ask for pages until one announces no other. A page that is refused, cannot be read or
    never comes fails the whole listing. -/
def listPages (bucket : String) (query : PageQuery) :
    List ObjectReply → Exchange ObjectRequest (Except StorageError (List ObjectInfo))
  | [] => ⟨.error (refused .listObjects), [.getPage bucket query]⟩
  | reply :: replies =>
    let page := reply.page.filter fun _ => reply.isSuccess
    match page.bind Page.objects? with
    | none => ⟨.error (refused .listObjects), [.getPage bucket query]⟩
    | some objects =>
      match page.bind Page.next with
      | none => ⟨.ok objects, [.getPage bucket query]⟩
      | some token =>
        let later := listPages bucket { query with continuation := some token } replies
        { result := later.result.map (objects ++ ·)
          requests := .getPage bucket query :: later.requests }

/-- Without recursion the service stops at the next slash of each key. -/
def listObjects (bucket leading : String) (recursive : Bool) (replies : List ObjectReply) :
    Exchange ObjectRequest (Except StorageError (List ObjectInfo)) :=
  if namesBucket bucket then
    let delimiter := if recursive then none else some "/"
    listPages bucket { leading, delimiter, continuation := none } replies
  else ⟨.error (refused .listObjects), []⟩

end ObjectService

end DatasetSync.Remote
