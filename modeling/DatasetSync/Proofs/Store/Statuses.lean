import DatasetSync.Proofs.Store.Versions

/-!
# Who changes a stored status

A document gets a status when it is created, or when its status is replaced under the token of the
stored version. Every other operation, an update included, leaves all stored statuses as they are,
though it may take documents away.
-/

namespace DatasetSync.DocumentStore

variable {store : DocumentStore} {key : QualifiedName} {document version : Document}

/-- A version that is put in the place of one with its status changes no status. -/
theorem status_put {stored next : Document} {replaced : QualifiedName}
    (present : store.get? replaced = some stored) (same : next.status = stored.status)
    (found : (store.issue.put replaced next).get? key = some version) :
    ∃ former, store.get? key = some former ∧ version.status = former.status := by
  rw [get?_put, get?_issue] at found
  split at found
  · rename_i own
    cases found
    exact ⟨stored, own ▸ present, same⟩
  · exact ⟨version, found, rfl⟩

/-- An update changes no status: what is stored after it was stored before with the same
status. -/
theorem status_update (found : (store.update document).2.get? key = some version) :
    ∃ former, store.get? key = some former ∧ version.status = former.status := by
  rcases store.update_cases document with ⟨error, -, same | same⟩ |
    ⟨kept, present, -, -, -, -, versions⟩
  · exact ⟨version, same ▸ found, rfl⟩
  · rw [same] at found
    exact ⟨version, found, rfl⟩
  · rw [versions] at found
    split at found
    · rename_i own
      split at found
      · cases found
      · cases found
        exact ⟨kept, own ▸ present, rfl⟩
    · exact ⟨version, found, rfl⟩

/-- A patch changes the status of the stored version that bears the presented token, and no
other. -/
theorem status_patchStatus {patched : QualifiedName} {token : String} {status : Status}
    (found : (store.patchStatus patched token status).2.get? key = some version) :
    ∃ former, store.get? key = some former ∧
      (version.status = former.status ∨
        (patched = key ∧ (store.patchStatus patched token status).1 = .ok () ∧
          former.versionToken = some token ∧ version.status = some status)) := by
  rcases store.patchStatus_cases patched token status with ⟨-, -, same⟩ |
    ⟨stored, present, current, ok, -, versions⟩
  · rw [same] at found
    exact ⟨version, found, .inl rfl⟩
  · rw [versions] at found
    split at found
    · rename_i own
      cases found
      exact ⟨stored, own ▸ present, .inr ⟨own, ok, current, rfl⟩⟩
    · exact ⟨version, found, .inl rfl⟩

/-- After a client has written, a document has the status that it had, or the client has created
it or has replaced its status. -/
theorem status_write {now : Timestamp} {write : ClientWrite}
    (found : (store.write now write).get? key = some version) :
    (∃ former, store.get? key = some former ∧ version.status = former.status) ∨
      (∃ created, write = .insert created ∧ created.key = key ∧ version.status = created.status) ∨
      ∃ token status, write = .patchStatus key token status ∧ version.status = some status := by
  cases write with
  | update updated => exact .inl (status_update found)
  | insert created =>
    simp only [write, insert, get?_put, get?_issue] at found
    split at found
    · rename_i own
      cases found
      exact .inr (.inl ⟨created, rfl, own, rfl⟩)
    · exact .inl ⟨version, found, rfl⟩
  | remove removed =>
    simp only [write, remove, get?_drop] at found
    split at found
    · cases found
    · exact .inl ⟨version, found, rfl⟩
  | patchStatus patched token status =>
    obtain ⟨former, present, same | ⟨rfl, -, -, same⟩⟩ := status_patchStatus found
    · exact .inl ⟨former, present, same⟩
    · exact .inr (.inr ⟨token, status, rfl, same⟩)
  | bump bumped =>
    simp only [write, bump] at found
    split at found
    · rename_i stored present
      refine .inl (status_put present ?_ found)
      rfl
    · exact .inl ⟨version, found, rfl⟩
  | markDeleted marked =>
    simp only [write, markDeleted] at found
    split at found
    · rename_i stored present
      refine .inl (status_put present ?_ found)
      rfl
    · exact .inl ⟨version, found, rfl⟩

/-- After a call of the engine a document has the status that it had, or the call has replaced the
status of the version that bore the presented token. -/
theorem status_answer {call : DocumentCall}
    (found : (store.answer call).2.get? key = some version) :
    ∃ former, store.get? key = some former ∧
      (version.status = former.status ∨ ∃ token status, call = .patchStatus key token status ∧
        (store.patchStatus key token status).1 = .ok () ∧ former.versionToken = some token ∧
          version.status = some status) := by
  cases call with
  | get asked => exact ⟨version, found, .inl rfl⟩
  | update updated =>
    obtain ⟨former, present, same⟩ := status_update found
    exact ⟨former, present, .inl same⟩
  | patchStatus patched token status =>
    obtain ⟨former, present, same | ⟨rfl, ok, current, same⟩⟩ := status_patchStatus found
    · exact ⟨former, present, .inl same⟩
    · exact ⟨former, present, .inr ⟨token, status, rfl, ok, current, same⟩⟩

end DatasetSync.DocumentStore
