import DatasetSync.Ordered.Set
import DatasetSync.Store.Document

/-!
# Buckets of sources

A resolver tells in which bucket the files of a source lie. A source without a bucket of
its own keeps its files in the bucket that is named like its namespace.
-/

namespace DatasetSync

/-- A fixed table of buckets. -/
structure BucketTable where
  /-- The buckets of sources, by name. -/
  buckets : OrderedMap String String
  /-- Names of sources that do not exist. -/
  missing : OrderedSet String
deriving DecidableEq, Repr

namespace BucketTable

/-- A table in which every source keeps its files in the bucket of its namespace. -/
def empty : BucketTable := ⟨.empty, .empty⟩

instance : Inhabited BucketTable := ⟨empty⟩

/-- The bucket of a source. -/
def resolve (table : BucketTable) (source : Reference) (fallback : String) :
    Except StoreError String :=
  if source.name ∈ table.missing then .error (.notFound (source.qualified fallback))
  else .ok ((table.buckets.get? source.name).getD (source.nsOr fallback))

end BucketTable

end DatasetSync
