import StorageEngine.Lib.BoundedCursor
import StorageEngine.Chunk.Canonical

/-!
# The decoder in machine words

`read_u32`, `read_u64`, `read_string` and `deserialize` of `src/chunk/chunk_format.cpp`
with a cursor of type `size_t`.  Their bounds tests compare a sum with the size of the
buffer.  The cursor never leaves the buffer and a length has 32 bits, so the sums do not
wrap, and the tests say what they should.

* `refines_u32`, `refines_u64` and `refines_string`: the three field types.
* `deserialize_in_bounds`: every buffer of fewer than `2 ^ 63` bytes.
-/

namespace StorageEngine.ChunkFormat

open Lib.Cursor Lib.BoundedCursor

namespace Bounded

def readU32 : Parser UInt8 UInt32 := do
  let pos ← position
  let limit ← add pos 4
  if limit > (← size) then underflow
  else do
    let b0 ← get 0 pos
    let b1 ← get 0 (← add pos 1)
    let b2 ← get 0 (← add pos 2)
    let b3 ← get 0 (← add pos 3)
    moveTo (← add pos 4)
    return (b0.toUInt32 <<< 24) ||| (b1.toUInt32 <<< 16) ||| (b2.toUInt32 <<< 8) ||| b3.toUInt32

/-- The loop of `read_u64` over the bytes that are left. -/
def shiftIn : ℕ → UInt64 → Parser UInt8 UInt64
  | 0, v => return v
  | n + 1, v => do
    let pos ← position
    moveTo (← add pos 1)
    let b ← get 0 pos
    shiftIn n ((v <<< 8) ||| b.toUInt64)

def readU64 : Parser UInt8 UInt64 := do
  let pos ← position
  let limit ← add pos 8
  if limit > (← size) then underflow
  else shiftIn 8 0

/-- The check and the copy of `read_string`, once the length is known. -/
def readBytes (len : UInt32) : Parser UInt8 Str := do
  let pos ← position
  let limit ← add pos len.toUInt64
  if limit > (← size) then underflow
  else do
    let last ← add pos len.toUInt64
    let s ← slice pos last
    moveTo (← add pos len.toUInt64)
    return s

def readString : Parser UInt8 Str := do
  let len ← readU32
  readBytes len

def readFields : Parser UInt8 ChunkHeaderData := do
  let version ← readU32
  let chunkId ← readString
  let objectId ← readString
  let size ← readU64
  let checksum ← readString
  let createdAtMs ← readU64
  pure { chunkId, objectId, version, size, checksum, createdAtMs }

/-- The payload, from the cursor to the end. -/
def readPayload : Parser UInt8 Bytes := do
  let pos ← position
  slice pos (← size)

/-- The block in which `deserialize` catches exceptions. -/
def readChunk : Parser UInt8 (Option (ChunkHeaderData × Bytes)) := do
  let magic ← readU32
  if magic ≠ chunkMagic then return none
  else do
    let header ← readFields
    let payload ← readPayload
    if payload.length ≠ header.size.toNat then return none
    else if !Checksum.verify payload header.checksum then return none
    else return some (header, payload)

/-- `deserialize`, with what it has done to the buffer. -/
def deserialize (data : Bytes) : Option (ChunkHeaderData × Bytes) × State :=
  match readChunk data {} with
  | (.ok result, st) => (result, st)
  | (.error _, st) => (none, st)

end Bounded

/-! ## The fields -/

theorem refines_u32 : Refines Bounded.readU32 readU32 := by
  intro buf st hsize hsafe
  have hsum : ∀ {n : UInt64}, n.toNat ≤ 4 → Access.Safe buf.length (.sum st.pos n) :=
    fun hn => hsafe.sum hsize (by omega)
  have hadd : ∀ {n : UInt64}, n.toNat ≤ 4 → (st.pos + n).toNat = st.pos.toNat + n.toNat :=
    fun hn => hsafe.toNat_add hsize (by omega)
  have htest := @State.Safe.sum_gt_iff _ _ _ 4 hsafe hsize (by decide)
  have hchecked := hsafe.access (hsum (n := 4) (by decide))
  simp only [Bounded.readU32, bind_run, position_run, add_run, size_run]
  unfold readU32
  by_cases hfit : st.pos.toNat + 4 > buf.length
  · rw [if_pos (htest.mpr hfit), if_pos hfit]
    exact ⟨hchecked, rfl⟩
  · have hindex : ∀ {i : UInt64}, i.toNat < st.pos.toNat + 4 →
        Access.Safe buf.length (.index i) := by
      intro i hi
      rw [Access.Safe]
      omega
    have hone : (st.pos + 1).toNat = st.pos.toNat + 1 := hadd (by decide)
    have htwo : (st.pos + 2).toNat = st.pos.toNat + 2 := hadd (by decide)
    have hthree : (st.pos + 3).toNat = st.pos.toNat + 3 := hadd (by decide)
    have hfour : (st.pos + 4).toNat = st.pos.toNat + 4 := hadd (by decide)
    rw [if_neg (mt htest.mp hfit), if_neg hfit]
    simp only [bind_run, add_run, get_run, moveTo_run, pure_run]
    constructor
    · have h := hchecked.access (hindex (i := st.pos) (by omega))
      have h := h.access (hsum (n := 1) (by decide))
      have h := h.access (hindex (i := st.pos + 1) (by omega))
      have h := h.access (hsum (n := 2) (by decide))
      have h := h.access (hindex (i := st.pos + 2) (by omega))
      have h := h.access (hsum (n := 3) (by decide))
      have h := h.access (hindex (i := st.pos + 3) (by omega))
      have h := h.access (hsum (n := 4) (by decide))
      exact h.moveTo (hsafe.move hsize (show st.pos.toNat + 4 ≤ buf.length by omega))
    · rw [hone, htwo, hthree, hfour]

/-- The loop of `read_u64`: what the iterations that are left read. -/
theorem shiftIn_run {buf : Bytes} (hsize : buf.length < 2 ^ 63) (n : ℕ) (v : UInt64)
    {st : State} (hsafe : st.Safe buf) (hfit : st.pos.toNat + n ≤ buf.length) :
    ∃ st', Bounded.shiftIn n v buf st =
        (.ok ((List.range n).foldl
          (fun v i => (v <<< 8) ||| (buf.getD (st.pos.toNat + i) 0).toUInt64) v), st') ∧
      st'.Safe buf ∧ st'.pos.toNat = st.pos.toNat + n := by
  induction n generalizing v st with
  | zero => exact ⟨st, rfl, hsafe, rfl⟩
  | succ n ih =>
    have hone : (st.pos + 1).toNat = st.pos.toNat + 1 := hsafe.toNat_add hsize (by decide)
    have hsum : Access.Safe buf.length (.sum st.pos 1) := hsafe.sum hsize (by decide)
    have hmove : Access.Safe buf.length (.move st.pos (st.pos + 1)) :=
      hsafe.move hsize (show st.pos.toNat + 1 ≤ buf.length by omega)
    have hindex : Access.Safe buf.length (.index st.pos) := by
      rw [Access.Safe]
      omega
    have hnext := ((hsafe.access hsum).moveTo hmove).access hindex
    obtain ⟨st', hrun, hsafe', hpos⟩ := ih
      ((v <<< 8) ||| (buf.getD st.pos.toNat 0).toUInt64) hnext (by dsimp only; omega)
    refine ⟨st', ?_, hsafe', by rw [hpos]; dsimp only; omega⟩
    simp only [Bounded.shiftIn, bind_run, position_run, add_run, moveTo_run, get_run]
    rw [hrun, List.range_succ_eq_map, List.foldl_cons, List.foldl_map]
    dsimp only
    simp only [hone, Nat.add_zero, Nat.succ_eq_add_one, Nat.add_assoc, Nat.add_comm 1]

theorem refines_u64 : Refines Bounded.readU64 readU64 := by
  intro buf st hsize hsafe
  have htest := @State.Safe.sum_gt_iff _ _ _ 8 hsafe hsize (by decide)
  have hchecked := hsafe.access (@State.Safe.sum _ _ _ 8 hsafe hsize (by decide))
  simp only [Bounded.readU64, bind_run, position_run, add_run, size_run]
  unfold readU64
  by_cases hfit : st.pos.toNat + 8 > buf.length
  · rw [if_pos (htest.mpr hfit), if_pos hfit]
    exact ⟨hchecked, rfl⟩
  · rw [if_neg (mt htest.mp hfit), if_neg hfit]
    obtain ⟨st', hrun, hsafe', hpos⟩ := shiftIn_run hsize 8 0 hchecked (by dsimp only; omega)
    rw [hrun]
    refine ⟨hsafe', ?_⟩
    dsimp only
    rw [hpos]

theorem refines_bytes (len : UInt32) : Refines (Bounded.readBytes len) (readBytes len.toNat) := by
  intro buf st hsize hsafe
  have hlen : len.toUInt64.toNat = len.toNat := UInt32.toNat_toUInt64 len
  have hsmall : len.toUInt64.toNat < 2 ^ 63 := by
    have hlt := len.toNat_lt
    omega
  have htest := hsafe.sum_gt_iff hsize hsmall
  have hadd := hsafe.toNat_add hsize hsmall
  have hsum := hsafe.sum hsize hsmall
  have hchecked := hsafe.access hsum
  rw [hlen] at htest hadd
  simp only [Bounded.readBytes, bind_run, position_run, add_run, size_run]
  unfold readBytes
  by_cases hfit : st.pos.toNat + len.toNat > buf.length
  · rw [if_pos (htest.mpr hfit), if_pos hfit]
    exact ⟨hchecked, rfl⟩
  · rw [if_neg (mt htest.mp hfit), if_neg hfit]
    simp only [bind_run, add_run, slice_run, moveTo_run, pure_run]
    have hrange : Access.Safe buf.length (.range st.pos (st.pos + len.toUInt64)) := by
      rw [Access.Safe, hadd]
      omega
    constructor
    · have h := ((hchecked.access hsum).access hrange).access hsum
      exact h.moveTo (hsafe.move hsize (by omega))
    · rw [hadd, Nat.add_sub_cancel_left]

theorem refines_string : Refines Bounded.readString readString :=
  refines_u32.bind refines_bytes

theorem refines_fields : Refines Bounded.readFields readFields := by
  refine refines_u32.bind fun version => ?_
  refine refines_string.bind fun chunkId => ?_
  refine refines_string.bind fun objectId => ?_
  refine refines_u64.bind fun size => ?_
  refine refines_string.bind fun checksum => ?_
  refine refines_u64.bind fun createdAtMs => ?_
  exact refines_pure _

/-- The rest of the buffer, without a move of the cursor. -/
def restReader : Reader UInt8 Bytes := fun buf pos => some (buf.drop pos, pos)

theorem refines_payload : Refines Bounded.readPayload restReader := by
  intro buf st hsize hsafe
  have hlength : (UInt64.ofNat buf.length).toNat = buf.length :=
    UInt64.toNat_ofNat_of_lt' (Nat.lt_trans hsize (by decide))
  have hrange : Access.Safe buf.length (.range st.pos (UInt64.ofNat buf.length)) := by
    rw [Access.Safe, hlength]
    exact ⟨hsafe.pos, Nat.le_refl _⟩
  simp only [Bounded.readPayload, bind_run, position_run, size_run, slice_run]
  refine ⟨hsafe.access hrange, ?_⟩
  rw [restReader, hlength, List.take_of_length_le (by rw [List.length_drop])]

/-! ## The chunk -/

/-- What `deserialize` reads before it decides, as a reader. -/
def chunkReader : Reader UInt8 (Option (ChunkHeaderData × Bytes)) := do
  let magic ← readU32
  if magic ≠ chunkMagic then return none
  else do
    let header ← readFields
    let payload ← restReader
    if payload.length ≠ header.size.toNat then return none
    else if !Checksum.verify payload header.checksum then return none
    else return some (header, payload)

theorem deserialize_eq_chunkReader (data : Bytes) :
    deserialize data = ((chunkReader data 0).map Prod.fst).join := by
  unfold deserialize chunkReader
  simp only [Bind.bind, ReaderT.bind, StateT.bind]
  cases hmagic : readU32 data 0 with
  | none => rfl
  | some magic =>
    obtain ⟨magic, pos⟩ := magic
    dsimp only [Option.bind_some]
    by_cases hwrong : magic ≠ chunkMagic
    · rw [if_pos hwrong, if_pos hwrong]
      rfl
    · rw [if_neg hwrong, if_neg hwrong]
      simp only [ReaderT.bind, StateT.bind, Bind.bind]
      cases hfields : readFields data pos with
      | none => rfl
      | some fields =>
        obtain ⟨header, pos⟩ := fields
        dsimp only [Option.bind_some, restReader]
        split
        · rfl
        · split <;> rfl

theorem refines_chunk : Refines Bounded.readChunk chunkReader := by
  refine refines_u32.bind fun magic => Refines.ite (refines_pure none) ?_
  refine refines_fields.bind fun header => ?_
  refine refines_payload.bind fun payload => Refines.ite (refines_pure none) ?_
  exact Refines.ite (refines_pure none) (refines_pure _)

/-- The decoder in machine words does nothing out of bounds and returns what the decoder
does. -/
theorem deserialize_safe {data : Bytes} (hsize : data.length < 2 ^ 63) :
    (Bounded.deserialize data).2.Safe data ∧
      (Bounded.deserialize data).1 = deserialize data := by
  have hstart : State.Safe data {} := ⟨Nat.zero_le _, by simp⟩
  obtain ⟨hsafe, hresult⟩ := refines_chunk data {} hsize hstart
  unfold Bounded.deserialize
  rw [deserialize_eq_chunkReader]
  cases hrun : Bounded.readChunk data {} with
  | mk result st =>
    rw [hrun] at hsafe hresult
    cases result with
    | ok chunk =>
      have hread : chunkReader data 0 = some (chunk, st.pos.toNat) := hresult
      rw [hread]
      exact ⟨hsafe, rfl⟩
    | error e =>
      have hread : chunkReader data 0 = none := hresult
      rw [hread]
      exact ⟨hsafe, rfl⟩

/-- On a buffer of fewer than `2 ^ 63` bytes, `deserialize` reads no index and copies no
range outside of it, its cursor goes forward in it, and no sum wraps.  A buffer without all
the bytes that its header announces is refused. -/
theorem deserialize_in_bounds (data : Bytes) (hsize : data.length < 2 ^ 63) :
    let (result, st) := Bounded.deserialize data
    (∀ access ∈ st.log, access.Safe data.length) ∧ result = deserialize data ∧
      ∀ header payload, result = some (header, payload) →
        data.length = (headerOnlyBytes header).length + header.size.toNat := by
  obtain ⟨hsafe, hresult⟩ := deserialize_safe hsize
  refine ⟨hsafe.log, hresult, fun header payload hsome => ?_⟩
  obtain ⟨hvalid, hencoded⟩ := deserialize_eq_some_iff.mp (hresult.symm.trans hsome)
  rw [← hencoded, serialize, List.length_append, hvalid.size]

/-- The magic number alone is too short. -/
theorem deserialize_in_bounds_magic :
    let (result, st) := Bounded.deserialize (str "DSEK")
    (∀ access ∈ st.log, access.Safe 4) ∧ st.log ≠ [] ∧ result = none := by
  obtain ⟨hsafe, hresult, -⟩ := deserialize_in_bounds (str "DSEK") (by decide)
  exact ⟨hsafe, by decide, hresult.trans (by decide)⟩

end StorageEngine.ChunkFormat
