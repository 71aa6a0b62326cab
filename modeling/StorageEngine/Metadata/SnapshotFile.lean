import StorageEngine.Metadata.Snapshot

/-!
# Replacing the snapshot

`persist` writes a temporary file and renames it over the snapshot.  Nobody asks the stream
whether the contents have been written, so a rename can put a part of a snapshot in the
place of the last one.

* `persist_atomic_iff`: when one call of `persist` replaces the snapshot as a whole or not
  at all, and reports it.
* `persistAll_snapshot`: what is in the file after any calls that do.
-/

namespace StorageEngine.MetadataStore

/-- The whole text is in the file when it is closed. -/
def WritesAll (io : PersistIO) (text : Str) : Prop :=
  ∀ n, io.written = some n → text.length ≤ n

/-- The file is opened and renamed, which is all that `persist` looks at. -/
def PersistIO.reports (io : PersistIO) : Bool :=
  io.opened && io.renamed

theorem reports_iff {io : PersistIO} :
    io.reports = true ↔ io.opened = true ∧ io.renamed = true := by
  unfold PersistIO.reports
  simp

/-- The snapshot is the one from before or the whole new one, and the new one if the call
reports success. -/
def ReplacesWhole (io : PersistIO) (persistPath : Str) (s : MetadataStore) (order : SnapshotOrder)
    (files : FileSystem) : Prop :=
  ∀ result files', persist io persistPath s order files = (result, files') →
    (files'.lookup persistPath = files.lookup persistPath ∨
      files'.lookup persistPath = some (persistText s order)) ∧
    (result = true → files'.lookup persistPath = some (persistText s order))

section Persist

variable {io : PersistIO} {persistPath : Str} {s : MetadataStore} {order : SnapshotOrder}
  {files : FileSystem}

theorem persist_result : (persist io persistPath s order files).1 = io.reports := by
  unfold persist PersistIO.reports
  cases io.opened <;> cases io.renamed <;> rfl

/-- What a call leaves in the snapshot. -/
theorem persist_lookup : (persist io persistPath s order files).2.lookup persistPath =
    if io.reports then some (contentsAfter io.written (persistText s order))
    else files.lookup persistPath := by
  have htmp : persistPath ≠ persistPath ++ str ".tmp" := by
    intro hsame
    have hlength := congrArg List.length hsame
    simp [str] at hlength
  unfold persist PersistIO.reports
  cases io.opened with
  | false => rfl
  | true =>
    cases io.renamed with
    | false => simp [Finmap.lookup_insert_of_ne _ htmp]
    | true => simp

/-- A call replaces the snapshot as a whole or not at all exactly when the whole text has
been written, or the file is not opened or not renamed. -/
theorem persist_atomic_iff (io : PersistIO) (persistPath : Str) (s : MetadataStore)
    (order : SnapshotOrder) (files : FileSystem) :
    ReplacesWhole io persistPath s order files ↔
      (io.opened = true → io.renamed = true → WritesAll io (persistText s order)) := by
  have hlookup := @persist_lookup io persistPath s order files
  have hresult := @persist_result io persistPath s order files
  have hreports := @reports_iff io
  constructor
  · intro h hopened hrenamed
    have hreported := hreports.mpr ⟨hopened, hrenamed⟩
    have hwhole := hlookup.symm.trans ((h _ _ rfl).2 (hresult.trans hreported))
    rw [if_pos hreported, Option.some.injEq] at hwhole
    exact (contentsAfter_eq_self_iff _ _).mp hwhole
  · intro h result files' hpersist
    rw [hpersist] at hlookup hresult
    dsimp only at hlookup hresult
    by_cases hreported : io.reports = true
    · have hwritten := h (hreports.mp hreported).1 (hreports.mp hreported).2
      rw [if_pos hreported, (contentsAfter_eq_self_iff _ _).mpr hwritten] at hlookup
      exact ⟨.inr hlookup, fun _ => hlookup⟩
    · rw [if_neg hreported] at hlookup
      exact ⟨.inl hlookup, fun htrue => absurd (hresult.symm.trans htrue) hreported⟩

end Persist

/-- The disk is full when the stream is closed: the empty file takes the place of the
snapshot, and the call reports success. -/
theorem persist_replaces_part : ∃ files',
    let old := persistText {} {}
    persist { written := some 0 } (str "m.json") { leaderId := str "n1" } {}
        ((∅ : FileSystem).insert (str "m.json") old) = (true, files') ∧
      files'.lookup (str "m.json") = some [] ∧
      ¬ReplacesWhole { written := some 0 } (str "m.json") { leaderId := str "n1" } {}
        ((∅ : FileSystem).insert (str "m.json") old) := by
  have hlookup := @persist_lookup { written := some 0 } (str "m.json") { leaderId := str "n1" } {}
    ((∅ : FileSystem).insert (str "m.json") (persistText {} {}))
  refine ⟨_, rfl, hlookup, fun h => ?_⟩
  have hwhole := hlookup.symm.trans ((h true _ rfl).2 rfl)
  simp [reports_iff, contentsAfter, persistText, str] at hwhole

/-! ## Calls one after another -/

/-- One call of `persist`, with what becomes of it. -/
structure Persist where
  io : PersistIO
  store : MetadataStore
  order : SnapshotOrder

/-- Calls of `persist`, one after another. -/
def persistAll (persistPath : Str) (calls : List Persist) (files : FileSystem) : FileSystem :=
  calls.foldl (fun files call => (persist call.io persistPath call.store call.order files).2) files

/-- After calls that each replace the snapshot as a whole or not at all, the file has the
snapshot of the last call that reports success, or is the one from before. -/
theorem persistAll_snapshot (persistPath : Str) (calls : List Persist) (files : FileSystem)
    (hwritten : ∀ call ∈ calls, call.io.opened = true → call.io.renamed = true →
      WritesAll call.io (persistText call.store call.order)) :
    (persistAll persistPath calls files).lookup persistPath =
      match (calls.filter fun call => call.io.reports).getLast? with
      | none => files.lookup persistPath
      | some call => some (persistText call.store call.order) := by
  induction calls using List.reverseRecOn with
  | nil => rfl
  | append_singleton calls call ih =>
    rw [List.forall_mem_append, List.forall_mem_singleton] at hwritten
    have hrest := ih hwritten.1
    rw [persistAll, List.foldl_append, List.foldl_cons, List.foldl_nil, persist_lookup,
      List.filter_append]
    by_cases hreported : call.io.reports = true
    · have hboth := reports_iff.mp hreported
      rw [if_pos hreported,
        (contentsAfter_eq_self_iff _ _).mpr (hwritten.2 hboth.1 hboth.2)]
      simp [hreported]
    · rw [if_neg hreported]
      simpa [hreported, persistAll] using hrest

end StorageEngine.MetadataStore
