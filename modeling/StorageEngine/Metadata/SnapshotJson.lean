import StorageEngine.Lib.Json.Utf8
import StorageEngine.Metadata.Snapshot

/-!
# The snapshot as a JSON document

`persist` puts the strings of the store between quotes as they are.  `snapshotPieces` is
what it appends, and `document` the value that is meant.  The document is well formed, and
has this value, exactly when no persisted string has a character that needs an escape
(`parse_persistText_iff`).  Nothing checks this where the strings come in.
-/

namespace StorageEngine.MetadataStore

open Lib Lib.Json Lib.Json.Punctuation

/-! ## What is persisted -/

/-- The persisted fields of an object. -/
structure ObjectRow where
  objectId : Str
  filename : Str
  size : UInt64
  replicationFactor : UInt32
  version : UInt32
  owner : Str
  createdAt : TimestampMs
  updatedAt : TimestampMs
  chunkCount : ℕ
  deriving DecidableEq, Repr

/-- The persisted fields of a node. -/
structure NodeRow where
  id : Str
  address : Str
  online : Bool
  freeBytes : UInt64
  totalBytes : UInt64
  chunkCount : UInt64
  deriving DecidableEq, Repr

structure Snapshot where
  leaderId : Str
  generation : UInt64
  objects : List ObjectRow
  nodes : List NodeRow
  deriving DecidableEq, Repr

def objectRow (obj : ObjectInfo) : ObjectRow :=
  { obj with chunkCount := obj.chunks.length }

def nodeRow (n : NodeInfo) : NodeRow :=
  { n with }

def snapshot (s : MetadataStore) (order : SnapshotOrder) : Snapshot where
  leaderId := s.leaderId
  generation := s.generation
  objects := order.objects.map objectRow
  nodes := order.nodes.map nodeRow

/-! ## The value -/

def naturalValue (n : ℕ) : Value Str :=
  .number { whole := n }

def ObjectRow.value (row : ObjectRow) : Value Str :=
  .object [(str "object_id", .string row.objectId), (str "filename", .string row.filename),
    (str "size", naturalValue row.size.toNat),
    (str "replication_factor", naturalValue row.replicationFactor.toNat),
    (str "version", naturalValue row.version.toNat), (str "owner", .string row.owner),
    (str "created_at", naturalValue row.createdAt.toNat),
    (str "updated_at", naturalValue row.updatedAt.toNat),
    (str "chunk_count", naturalValue row.chunkCount)]

def NodeRow.value (row : NodeRow) : Value Str :=
  .object [(str "id", .string row.id), (str "address", .string row.address),
    (str "online", .bool row.online), (str "free_bytes", naturalValue row.freeBytes.toNat),
    (str "total_bytes", naturalValue row.totalBytes.toNat),
    (str "chunk_count", naturalValue row.chunkCount.toNat)]

/-- The document that the snapshot is meant to be. -/
def document (snap : Snapshot) : Value Str :=
  .object [(str "leader_id", .string snap.leaderId),
    (str "generation", naturalValue snap.generation.toNat),
    (str "objects", .array (snap.objects.map ObjectRow.value)),
    (str "nodes", .array (snap.nodes.map NodeRow.value))]

theorem ObjectRow.value_inj {row row' : ObjectRow} (h : row.value = row'.value) : row = row' := by
  cases row
  cases row'
  simp only [ObjectRow.value, naturalValue, Value.object.injEq, List.cons.injEq, Prod.mk.injEq,
    Value.string.injEq, Value.number.injEq, Number.mk.injEq, true_and, and_true,
    UInt64.toNat_inj, UInt32.toNat_inj] at h
  obtain ⟨rfl, rfl, rfl, rfl, rfl, rfl, rfl, rfl, rfl⟩ := h
  rfl

theorem NodeRow.value_inj {row row' : NodeRow} (h : row.value = row'.value) : row = row' := by
  cases row
  cases row'
  simp only [NodeRow.value, naturalValue, Value.object.injEq, List.cons.injEq, Prod.mk.injEq,
    Value.string.injEq, Value.bool.injEq, Value.number.injEq, Number.mk.injEq, true_and, and_true,
    UInt64.toNat_inj] at h
  obtain ⟨rfl, rfl, rfl, rfl, rfl, rfl⟩ := h
  rfl

/-- The document determines every persisted field. -/
theorem document_inj {snap snap' : Snapshot} (h : document snap = document snap') :
    snap = snap' := by
  cases snap
  cases snap'
  simp only [document, naturalValue, Value.object.injEq, List.cons.injEq, Prod.mk.injEq,
    Value.string.injEq, Value.array.injEq, Value.number.injEq, Number.mk.injEq, true_and, and_true,
    UInt64.toNat_inj] at h
  obtain ⟨rfl, rfl, hobjects, hnodes⟩ := h
  rw [List.map_injective_iff.mpr (fun _ _ => ObjectRow.value_inj) hobjects,
    List.map_injective_iff.mpr (fun _ _ => NodeRow.value_inj) hnodes]

/-! ## What is appended -/

/-- A name with its value. -/
def member (name : String) (value : Piece Str) : List (Piece Str) :=
  [.string (str name), .punctuation nameSeparator, value]

def comma : Piece Str := .punctuation valueSeparator

def objectPieces (row : ObjectRow) : List (Piece Str) :=
  [.space, .space, .space, .space, .punctuation beginObject] ++
    member "object_id" (.string row.objectId) ++ comma ::
    member "filename" (.string row.filename) ++ comma ::
    member "size" (.natural row.size.toNat) ++ comma ::
    member "replication_factor" (.natural row.replicationFactor.toNat) ++ comma ::
    member "version" (.natural row.version.toNat) ++ comma ::
    member "owner" (.string row.owner) ++ comma ::
    member "created_at" (.natural row.createdAt.toNat) ++ comma ::
    member "updated_at" (.natural row.updatedAt.toNat) ++ comma ::
    member "chunk_count" (.natural row.chunkCount) ++ [.punctuation endObject]

def nodePieces (row : NodeRow) : List (Piece Str) :=
  [.space, .space, .space, .space, .punctuation beginObject] ++
    member "id" (.string row.id) ++ comma ::
    member "address" (.string row.address) ++ comma ::
    member "online" (.bool row.online) ++ comma ::
    member "free_bytes" (.natural row.freeBytes.toNat) ++ comma ::
    member "total_bytes" (.natural row.totalBytes.toNat) ++ comma ::
    member "chunk_count" (.natural row.chunkCount.toNat) ++ [.punctuation endObject]

def loopPieces {α : Type} (pieces : α → List (Piece Str)) : Bool → List α → List (Piece Str)
  | _, [] => []
  | first, row :: rest =>
    (if first then [] else [comma, .newline]) ++ pieces row ++ loopPieces pieces false rest

/-- The head of a top-level member. -/
def heading (name : String) : List (Piece Str) :=
  [.space, .space, .string (str name), .punctuation nameSeparator, .space]

def snapshotPieces (snap : Snapshot) : List (Piece Str) :=
  [.punctuation beginObject, .newline] ++
    heading "leader_id" ++ [.string snap.leaderId, comma, .newline] ++
    heading "generation" ++ [.natural snap.generation.toNat, comma, .newline] ++
    heading "objects" ++ [.punctuation beginArray, .newline] ++
    loopPieces objectPieces true snap.objects ++
    [.newline, .space, .space, .punctuation endArray, comma, .newline] ++
    heading "nodes" ++ [.punctuation beginArray, .newline] ++
    loopPieces nodePieces true snap.nodes ++
    [.newline, .space, .space, .punctuation endArray, .newline, .punctuation endObject, .newline]

/-! ### The text -/

/-- ASCII characters are encoded as themselves. -/
theorem encode_ascii {cs : List Char} (h : ∀ c ∈ cs, c.val.toNat ≤ 0x7f) :
    encode cs = cs.map fun c => UInt8.ofNat c.toNat := by
  induction cs with
  | nil => rfl
  | cons c cs ih =>
    obtain ⟨hc, hrest⟩ := List.forall_mem_cons.mp h
    rw [encode, List.flatMap_cons, String.utf8EncodeChar, if_pos hc]
    exact congrArg _ (ih hrest)

theorem encode_digits (n : ℕ) : encode (Nat.toDigits 10 n) = decimal n := by
  rw [encode_ascii]
  · rw [decimal, str, Nat.toString_eq_ofList_toDigits, String.toList_ofList]
  · intro c hc
    have hdigit := Nat.isDigit_of_mem_toDigits (by decide) (by decide) hc
    simp only [Char.isDigit, Bool.and_eq_true, decide_eq_true_eq] at hdigit
    have hnine := UInt32.le_iff_toNat_le.mp hdigit.2
    exact hnine.trans (by decide)

theorem spellAll_append (pieces pieces' : List (Piece Str)) :
    spellAll encode (pieces ++ pieces') = spellAll encode pieces ++ spellAll encode pieces' :=
  List.flatMap_append

set_option maxRecDepth 2000 in
theorem objectLine_eq (obj : ObjectInfo) :
    objectLine obj = spellAll encode (objectPieces (objectRow obj)) := by
  delta objectLine
  simp only [objectPieces, objectRow, member, comma, spellAll, List.cons_append,
    List.nil_append, List.flatMap_cons, List.flatMap_nil, Piece.spell, encode_digits,
    List.append_assoc]
  rfl

theorem nodeLine_eq (n : NodeInfo) :
    nodeLine n = spellAll encode (nodePieces (nodeRow n)) := by
  delta nodeLine
  simp only [nodePieces, nodeRow, member, comma, spellAll, List.cons_append,
    List.nil_append, List.flatMap_cons, List.flatMap_nil, Piece.spell, encode_digits,
    List.append_assoc]
  cases n.online <;> rfl

theorem persistLoop_eq {α β : Type} {line : α → Str} {row : α → β}
    {pieces : β → List (Piece Str)} (hline : ∀ a, line a = spellAll encode (pieces (row a)))
    (first : Bool) (as : List α) :
    persistLoop line first as = spellAll encode (loopPieces pieces first (as.map row)) := by
  induction as generalizing first with
  | nil => rfl
  | cons a as ih =>
    rw [persistLoop, List.map_cons, loopPieces, spellAll_append, spellAll_append, hline, ih]
    cases first <;> rfl

set_option maxRecDepth 2000 in
theorem persistText_eq (s : MetadataStore) (order : SnapshotOrder) :
    persistText s order = spellAll encode (snapshotPieces (snapshot s order)) := by
  rw [persistText, persistLoop_eq objectLine_eq, persistLoop_eq nodeLine_eq]
  simp only [snapshotPieces, snapshot, heading, comma, spellAll_append]
  simp only [spellAll, List.flatMap_cons, List.flatMap_nil, Piece.spell, encode_digits,
    List.append_assoc]
  rfl

/-! ### The tokens -/

theorem objectPieces_tokens (row : ObjectRow) :
    (objectPieces row).filterMap Piece.token? = tokens row.value := by
  simp [objectPieces, member, comma, ObjectRow.value, naturalValue, tokens, memberTokens,
    List.filterMap_cons, Piece.token?]

theorem nodePieces_tokens (row : NodeRow) :
    (nodePieces row).filterMap Piece.token? = tokens row.value := by
  simp [nodePieces, member, comma, NodeRow.value, naturalValue, tokens, memberTokens,
    List.filterMap_cons, Piece.token?]

theorem loopPieces_tokens {α : Type} {pieces : α → List (Piece Str)} {value : α → Value Str}
    (hpieces : ∀ row, (pieces row).filterMap Piece.token? = tokens (value row)) (first : Bool)
    (rows : List α) :
    (loopPieces pieces first rows).filterMap Piece.token? =
      elementTokens first (rows.map value) := by
  induction rows generalizing first with
  | nil => rfl
  | cons row rows ih =>
    rw [loopPieces, List.map_cons, elementTokens, List.filterMap_append, List.filterMap_append,
      hpieces, ih]
    cases first <;> rfl

theorem snapshotPieces_tokens (snap : Snapshot) :
    (snapshotPieces snap).filterMap Piece.token? = tokens (document snap) := by
  rw [snapshotPieces]
  simp only [List.filterMap_append, loopPieces_tokens objectPieces_tokens,
    loopPieces_tokens nodePieces_tokens]
  simp [heading, comma, document, naturalValue, tokens, memberTokens, List.filterMap_cons,
    Piece.token?]

/-! ### The spacing -/

theorem loopPieces_wellSpaced {α : Type} {pieces : α → List (Piece Str)}
    (hpieces : ∀ row rest, WellSpaced (pieces row ++ rest) ↔ WellSpaced rest) (first : Bool)
    (rows : List α) (rest : List (Piece Str)) :
    WellSpaced (loopPieces pieces first rows ++ rest) ↔ WellSpaced rest := by
  induction rows generalizing first with
  | nil => rfl
  | cons row rows ih =>
    rw [loopPieces, List.append_assoc, List.append_assoc]
    cases first
    · exact (hpieces row _).trans (ih false)
    · exact (hpieces row _).trans (ih false)

theorem objectPieces_wellSpaced (row : ObjectRow) (rest : List (Piece Str)) :
    WellSpaced (objectPieces row ++ rest) ↔ WellSpaced rest := by
  simp [objectPieces, member, comma, WellSpaced, Piece.separates]

theorem nodePieces_wellSpaced (row : NodeRow) (rest : List (Piece Str)) :
    WellSpaced (nodePieces row ++ rest) ↔ WellSpaced rest := by
  simp [nodePieces, member, comma, WellSpaced, Piece.separates]

theorem snapshotPieces_wellSpaced (snap : Snapshot) : WellSpaced (snapshotPieces snap) := by
  rw [snapshotPieces]
  simp only [List.append_assoc]
  simp [heading, comma, WellSpaced, Piece.separates,
    loopPieces_wellSpaced objectPieces_wellSpaced, loopPieces_wellSpaced nodePieces_wellSpaced]

/-! ### The strings -/

/-- The strings among some pieces are plain. -/
def AllPlain (pieces : List (Piece Str)) : Prop :=
  ∀ s, .string s ∈ pieces → PlainText s

theorem allPlain_append {pieces pieces' : List (Piece Str)} :
    AllPlain (pieces ++ pieces') ↔ AllPlain pieces ∧ AllPlain pieces' := by
  constructor
  · intro h
    exact ⟨fun s hs => h s (List.mem_append_left _ hs),
      fun s hs => h s (List.mem_append_right _ hs)⟩
  · intro h s hs
    exact (List.mem_append.mp hs).elim (h.1 s) (h.2 s)

theorem allPlain_cons {p : Piece Str} {pieces : List (Piece Str)} :
    AllPlain (p :: pieces) ↔ (∀ s, p = .string s → PlainText s) ∧ AllPlain pieces := by
  constructor
  · intro h
    exact ⟨fun s hp => h s (hp ▸ List.mem_cons_self), fun s hs => h s (List.mem_cons_of_mem _ hs)⟩
  · intro h s hs
    exact (List.mem_cons.mp hs).elim (fun hp => h.1 s hp.symm) (h.2 s)

/-- ASCII text that needs no escape. -/
def asciiPlain (literal : String) : Bool :=
  literal.toList.all fun c => decide (c.val.toNat ≤ 0x7f) && decide (Unescaped c)

theorem plainText_str {literal : String} (h : asciiPlain literal = true) :
    PlainText (str literal) := by
  simp only [asciiPlain, List.all_eq_true, Bool.and_eq_true, decide_eq_true_eq] at h
  exact ⟨literal.toList, encode_ascii fun c hc => (h c hc).1, fun c hc => (h c hc).2⟩

theorem allPlain_member {name : String} (hname : asciiPlain name = true) (value : Piece Str) :
    AllPlain (member name value) ↔ ∀ s, value = .string s → PlainText s := by
  have hstr := plainText_str hname
  simp [member, hstr, AllPlain, eq_comm]

/-- What a document writes of an object. -/
def ObjectRow.Plain (row : ObjectRow) : Prop :=
  PlainText row.objectId ∧ PlainText row.filename ∧ PlainText row.owner

def NodeRow.Plain (row : NodeRow) : Prop :=
  PlainText row.id ∧ PlainText row.address

theorem objectPieces_plain (row : ObjectRow) : AllPlain (objectPieces row) ↔ row.Plain := by
  have hnil : AllPlain [] := fun s hs => nomatch hs
  rw [objectPieces, ObjectRow.Plain]
  simp (disch := decide) [allPlain_append, allPlain_cons, allPlain_member, comma, hnil]

theorem nodePieces_plain (row : NodeRow) : AllPlain (nodePieces row) ↔ row.Plain := by
  have hnil : AllPlain [] := fun s hs => nomatch hs
  rw [nodePieces, NodeRow.Plain]
  simp (disch := decide) [allPlain_append, allPlain_cons, allPlain_member, comma, hnil]

theorem loopPieces_plain {α : Type} {pieces : α → List (Piece Str)} {plain : α → Prop}
    (hpieces : ∀ row, AllPlain (pieces row) ↔ plain row) (first : Bool) (rows : List α) :
    AllPlain (loopPieces pieces first rows) ↔ ∀ row ∈ rows, plain row := by
  induction rows generalizing first with
  | nil => exact iff_of_true (fun s hs => nomatch hs) fun row hrow => nomatch hrow
  | cons row rows ih =>
    have hfirst : AllPlain (if first then [] else [comma, .newline]) := by
      intro s hs
      cases first <;> simp [comma] at hs
    rw [loopPieces, allPlain_append, allPlain_append, hpieces, ih, List.forall_mem_cons]
    exact and_congr_left' (and_iff_right hfirst)

theorem heading_plain {name : String} (hname : asciiPlain name = true) :
    AllPlain (heading name) := by
  have hstr := plainText_str hname
  simp [heading, AllPlain, hstr]

theorem snapshotPieces_plain (snap : Snapshot) :
    AllPlain (snapshotPieces snap) ↔ PlainText snap.leaderId ∧
      (∀ row ∈ snap.objects, row.Plain) ∧ ∀ row ∈ snap.nodes, row.Plain := by
  have hnil : AllPlain [] := fun s hs => nomatch hs
  rw [snapshotPieces]
  simp (disch := decide) [allPlain_append, allPlain_cons, heading_plain, comma, hnil,
    loopPieces_plain objectPieces_plain, loopPieces_plain nodePieces_plain]

/-! ## The document -/

/-- The text of a snapshot has the meant value exactly when its strings are plain. -/
theorem parse_snapshotPieces_iff (snap : Snapshot) :
    parseBytes (spellAll encode (snapshotPieces snap)) = some (document snap) ↔
      PlainText snap.leaderId ∧ (∀ row ∈ snap.objects, row.Plain) ∧ ∀ row ∈ snap.nodes, row.Plain :=
  (parseBytes_spellAll_iff (snapshotPieces_wellSpaced snap) (snapshotPieces_tokens snap)).trans
    (snapshotPieces_plain snap)

/-- The persisted strings of a store need no escape. -/
structure PlainStore (s : MetadataStore) : Prop where
  leaderId : PlainText s.leaderId
  objects : ∀ id obj, s.objectsById.lookup id = some obj → (objectRow obj).Plain
  nodes : ∀ id node, s.nodes.find id = some node → (nodeRow node).Plain

theorem parse_persistText_iff {s : MetadataStore} {order : SnapshotOrder}
    (horder : order.Possible s) :
    parseBytes (persistText s order) = some (document (snapshot s order)) ↔ PlainStore s := by
  rw [persistText_eq, parse_snapshotPieces_iff]
  constructor
  · intro h
    obtain ⟨hleader, hobjects, hnodes⟩ := h
    refine ⟨hleader, fun id obj hobj => ?_, fun id node hnode => ?_⟩
    · exact hobjects _ (List.mem_map_of_mem (horder.objects.mem_iff.mpr ⟨id, hobj⟩))
    · have hvisited := (horder.nodes.2 node).mpr (by rwa [NodeTable.find_id hnode])
      exact hnodes _ (List.mem_map_of_mem hvisited)
  · intro h
    refine ⟨h.leaderId, fun row hrow => ?_, fun row hrow => ?_⟩
    · obtain ⟨obj, hvisited, rfl⟩ := List.mem_map.mp hrow
      obtain ⟨id, hobj⟩ := horder.objects.mem_iff.mp hvisited
      exact h.objects id obj hobj
    · obtain ⟨node, hvisited, rfl⟩ := List.mem_map.mp hrow
      exact h.nodes node.id node ((horder.nodes.2 node).mp hvisited)

/-! ## Runs -/

/-- The strings that a call brings into the store are plain. -/
def StoreEvent.Plain : StoreEvent → Prop
  | .created obj => (objectRow obj).Plain
  | .registered node => (nodeRow node).Plain
  | .led leaderId _ => PlainText leaderId
  | _ => True

theorem plainStore_empty : PlainStore {} where
  leaderId := ⟨[], rfl, fun c hc => nomatch hc⟩
  objects id obj hobj := by simp at hobj
  nodes id node hnode := by simp at hnode

section Call

variable {s s' : MetadataStore} (h : PlainStore s)

include h

/-- A changed node keeps its id and its address. -/
theorem PlainStore.setNode {nodeId : Str} {node node' : NodeInfo}
    (hnode : s.nodes.find nodeId = some node) (hid : node'.id = node.id)
    (haddress : node'.address = node.address) :
    PlainStore { s with nodes := s.nodes.set node' } := by
  refine ⟨h.leaderId, h.objects, fun id found hfound => ?_⟩
  rw [NodeTable.find_set] at hfound
  split at hfound
  · cases hfound
    have hplain := h.nodes nodeId node hnode
    rw [NodeRow.Plain, nodeRow, hid, haddress]
    exact hplain
  · exact h.nodes id found hfound

theorem PlainStore.delete {objectId : Str} {found : Bool}
    (hdelete : deleteObject s objectId = (found, s')) : PlainStore s' := by
  rcases deleteObject_cases s objectId with ⟨heq, -⟩ | ⟨obj, -, heq⟩
  · rw [heq] at hdelete
    cases hdelete
    exact h
  · rw [heq] at hdelete
    cases hdelete
    exact ⟨h.leaderId, fun id obj' hobj => h.objects id obj' (lookup_erase_cases hobj).2, h.nodes⟩

theorem PlainStore.update {now : TimestampMs} {objectId : Str} {chunk : ChunkInfo} {found : Bool}
    (hupdate : updateChunk now s objectId chunk = (found, s')) : PlainStore s' := by
  rcases updateChunk_cases now s objectId chunk with heq | ⟨obj, chunks, hobj, -, heq⟩
  · rw [heq] at hupdate
    cases hupdate
    exact h
  · rw [heq] at hupdate
    cases hupdate
    refine ⟨h.leaderId, fun id obj' hobj' => ?_, h.nodes⟩
    rcases lookup_insert_cases hobj' with ⟨-, rfl⟩ | ⟨-, hobj'⟩
    · exact h.objects objectId obj hobj
    · exact h.objects id obj' hobj'

theorem PlainStore.call {event : StoreEvent} (hplain : event.Plain) (hcall : Call s event s') :
    PlainStore s' := by
  cases hcall with
  | create hcreate =>
    obtain ⟨chunks, -, -, rfl, rfl⟩ := createObject_created hcreate
    refine ⟨h.leaderId, fun id obj hobj => ?_, h.nodes⟩
    rcases lookup_insert_cases hobj with ⟨-, rfl⟩ | ⟨-, hobj⟩
    · exact hplain
    · exact h.objects id obj hobj
  | duplicate hcreate =>
    rw [(createObject_refused hcreate).1]
    exact h
  | delete hdelete => exact h.delete hdelete
  | deleteByFilename hname hdelete =>
    rw [deleteObjectByFilename_found hname] at hdelete
    exact h.delete hdelete
  | deleteUnknown hname hdelete =>
    rw [deleteObjectByFilename_unknown hname] at hdelete
    cases hdelete
    exact h
  | update hupdate => exact h.update hupdate
  | register hregister =>
    cases hregister
    refine ⟨h.leaderId, h.objects, fun id node hnode => ?_⟩
    rw [NodeTable.find_set] at hnode
    split at hnode
    · cases hnode
      exact hplain
    · exact h.nodes id node hnode
  | heartbeat hheartbeat =>
    rcases updateNodeHeartbeat_cases _ s _ _ _ with heq | ⟨node, hnode, heq⟩
    · rw [heq] at hheartbeat
      cases hheartbeat
      exact h
    · rw [heq] at hheartbeat
      cases hheartbeat
      exact h.setNode hnode rfl rfl
  | offline hoffline =>
    rcases markNodeOffline_cases s _ with heq | ⟨node, hnode, heq⟩
    · rw [heq] at hoffline
      cases hoffline
      exact h
    · rw [heq] at hoffline
      cases hoffline
      exact h.setNode hnode rfl rfl
  | select hselect =>
    obtain ⟨index, rfl⟩ := selectNodes_index hselect
    exact ⟨h.leaderId, h.objects, h.nodes⟩
  | lead => exact ⟨hplain, h.objects, h.nodes⟩

end Call

theorem plainStore_of_durable {persistPath : Str} {history : List StoreEvent}
    {st : MetadataStore × FileSystem} (hrun : Durable persistPath history st)
    (hplain : ∀ event ∈ history, event.Plain) : PlainStore st.1 := by
  induction hrun with
  | start =>
    rw [construct_eq]
    exact plainStore_empty
  | saved _ hcall _ _ _ ih =>
    obtain ⟨hevent, hrest⟩ := List.forall_mem_cons.mp hplain
    exact (ih hrest).call hevent hcall
  | unsaved _ hcall _ ih =>
    obtain ⟨hevent, hrest⟩ := List.forall_mem_cons.mp hplain
    exact (ih hrest).call hevent hcall
  | restart =>
    rw [construct_eq]
    exact plainStore_empty

/-- The persisted text is a document with the persisted fields as its value exactly when no
persisted string has a character that JSON escapes.  It is one in every state of a run that
brings in such strings only, and then it determines every persisted field. -/
theorem persisted_json_iff {s : MetadataStore} {order : SnapshotOrder} (horder : order.Possible s) :
    (parseBytes (persistText s order) = some (document (snapshot s order)) ↔ PlainStore s) ∧
    (∀ persistPath history files, Durable persistPath history (s, files) →
      (∀ event ∈ history, event.Plain) →
        parseBytes (persistText s order) = some (document (snapshot s order))) ∧
    ∀ s' order', order'.Possible s' → PlainStore s → PlainStore s' →
      persistText s order = persistText s' order' → snapshot s order = snapshot s' order' := by
  refine ⟨parse_persistText_iff horder, ?_, ?_⟩
  · intro persistPath history files hrun hplain
    exact (parse_persistText_iff horder).mpr (plainStore_of_durable hrun hplain)
  · intro s' order' horder' hplain hplain' htext
    have hparse := (parse_persistText_iff horder).mpr hplain
    have hparse' := (parse_persistText_iff horder').mpr hplain'
    rw [htext, hparse', Option.some.injEq] at hparse
    exact (document_inj hparse).symm

/-- An object is created whose id, name and owner are ASCII text. -/
theorem persisted_json_ascii :
    ∃ history st order, Durable (str "m.json") history st ∧ order.Possible st.1 ∧
      st.1.locateByFilename (str "a.txt") ≠ none ∧
      parseBytes (persistText st.1 order) = some (document (snapshot st.1 order)) := by
  have hcreate := @Call.create {} _ (fun n => if n = 0 then str "o" else str "c") 1
    (str "a.txt") (str "default") 3 1 4194304 _ rfl
  obtain ⟨files, hcreated⟩ := (Durable.empty (str "m.json") ∅).save hcreate rfl
  obtain ⟨order, horder⟩ := SnapshotOrder.exists_possible _
  refine ⟨_, _, order, hcreated, horder, ?_, (persisted_json_iff horder).2.1 _ _ _ hcreated ?_⟩
  · dsimp only
    decide
  · rw [List.forall_mem_singleton]
    exact ⟨@plainText_str "o" (by decide), @plainText_str "a.txt" (by decide),
      @plainText_str "default" (by decide)⟩

/-- A string with a character that needs an escape is not plain. -/
theorem not_plainText_encode {cs : List Char} {c : Char} (hc : c ∈ cs) (h : ¬ Unescaped c) :
    ¬ PlainText (encode cs) := by
  rintro ⟨cs', hencode, hall⟩
  have hdecode := congrArg decode hencode
  rw [decode_encode, decode_encode, Option.some.injEq] at hdecode
  exact h (hall c (hdecode ▸ hc))

/-- An object is created under a name with a quote, and the snapshot does not give it back. -/
theorem persisted_json_quote :
    ∃ history st order, Durable (str "m.json") history st ∧ order.Possible st.1 ∧
      parseBytes (persistText st.1 order) ≠ some (document (snapshot st.1 order)) := by
  have hcreate := @Call.create {} _ (fun n => if n = 0 then str "o" else str "c") 1
    (str "a\"b") (str "default") 3 1 4194304 _ rfl
  obtain ⟨files, hcreated⟩ := (Durable.empty (str "m.json") ∅).save hcreate rfl
  obtain ⟨order, horder⟩ := SnapshotOrder.exists_possible _
  refine ⟨_, _, order, hcreated, horder, fun hparse => ?_⟩
  have hplain := (parse_persistText_iff horder).mp hparse
  have hname := (hplain.objects (str "o") _ rfl).2.1
  exact @not_plainText_encode ['a', '"', 'b'] '"' (by simp) (by decide) hname

end StorageEngine.MetadataStore
