import DatasetSync.Proofs.Text.PercentEncoding
import DatasetSync.Remote.ObjectService

/-!
# The object that a copy names

A copy names its source in one header: the bucket, a slash, and the key in encoded form. The
service takes the header apart at its first slash and reads the rest (`named?`). As no bucket has a
slash in its name, it finds the bucket and the key that were meant, whatever the key: empty
segments, slashes at either end, percent signs and characters outside of ASCII come back as they
were. So two objects are never named alike.

This holds of every encoding that does what is documented (`Text.IsEncoding`), so it does not
depend on how the bytes of a key are escaped in detail.
-/

namespace DatasetSync.Remote

/-- The object that a header names, if it names one. -/
def named? (header : String) : Option ObjectAddress :=
  match header.toList.dropWhile (· ≠ '/') with
  | [] => none
  | _ :: rest =>
    (Text.percentDecode? (String.ofList rest)).map fun key =>
      { bucket := String.ofList (header.toList.takeWhile (· ≠ '/')), key }

/-- What a way to name objects has to do for an object whose bucket has no slash. -/
structure Names (name : ObjectAddress → String) (source : ObjectAddress) : Prop where
  /-- The service finds the object. -/
  found : named? (name source) = some source
  /-- After the bucket and a slash come plain characters, escaped bytes and as many slashes as the
  key has, and nothing else. -/
  escaped : ∃ rest : String, name source = source.bucket ++ "/" ++ rest ∧
    Text.IsEscaped rest.toList ∧ rest.toList.count '/' = source.key.toList.count '/'
  /-- No other object is named so. -/
  only : ∀ other : ObjectAddress, '/' ∉ other.bucket.toList → name other = name source →
    other = source

variable {encode : List Char → List Char} {source : ObjectAddress}

/-- The service finds the object that was named, if the name of the bucket has no slash: the first
slash then ends the bucket, and the rest decodes to the key. -/
theorem named?_copySourceBy (documented : Text.IsEncoding encode)
    (plain : '/' ∉ source.bucket.toList) : named? (copySourceBy encode source) = some source := by
  have before : ∀ character ∈ source.bucket.toList, decide (character ≠ '/') = true :=
    fun character member => decide_eq_true fun slash => plain (slash ▸ member)
  have header : (copySourceBy encode source).toList =
      source.bucket.toList ++ '/' :: (Text.encodeSegments encode source.key).toList := by
    simp [copySourceBy]
  rw [named?, header, List.dropWhile_append_of_pos before, List.takeWhile_append_of_pos before]
  simp [Text.percentDecode?_encodeSegments documented]

/-- Whatever a copy sends is a request to make its destination, and names its source. The encoding
that is used here is one of the documented ones. -/
theorem named?_of_copyObject {destination : ObjectAddress} {reply : ObjectReply}
    {request : ObjectRequest} (plain : '/' ∉ source.bucket.toList)
    (sent : request ∈ (ObjectService.copyObject destination source reply).requests) :
    ∃ header, request = .putCopy destination header ∧ named? header = some source := by
  simp only [ObjectService.copyObject, ObjectService.once] at sent
  split at sent
  · exact ⟨_, List.mem_singleton.mp sent, named?_copySourceBy Text.isEncoding_percentEncode plain⟩
  · cases sent

/-- The header of a copy names exactly one object, the source of the copy, whatever encoding it is
made by: all that is relied on is that letters, digits and four marks are kept and every other byte
is escaped. Nothing is assumed of the key. -/
theorem copySourceBy_names (documented : Text.IsEncoding encode)
    (plain : '/' ∉ source.bucket.toList) : Names (copySourceBy encode) source where
  found := named?_copySourceBy documented plain
  escaped := ⟨_, rfl, Text.isEscaped_encodeSegments documented source.key,
    Text.count_slash_encodeSegments documented source.key⟩
  only other plainer same := by
    have read := named?_copySourceBy documented plainer
    rw [same, named?_copySourceBy documented plain] at read
    exact (Option.some.inj read).symm

/-- A key with slashes at both ends, an empty segment, a percent sign that looks like an escaped
slash, a space and a character of two bytes, named by way of an encoding that writes its digits in
capital letters. -/
theorem copySourceBy_names_awkward :
    Text.IsEncoding Text.percentEncode ∧
      Names (copySourceBy Text.percentEncode) ⟨"team-a", "/docs//q1%2F é/"⟩ ∧
      copySourceBy Text.percentEncode ⟨"team-a", "/docs//q1%2F é/"⟩ =
        "team-a//docs//q1%252F%20%C3%A9/" :=
  ⟨Text.isEncoding_percentEncode,
    copySourceBy_names Text.isEncoding_percentEncode (by decide), by decide⟩

end DatasetSync.Remote
