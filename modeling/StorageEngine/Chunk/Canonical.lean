import StorageEngine.Chunk.Format

/-!
# The chunk format is canonical

The decoder reads buffers of any origin.  What it accepts is the encoding of what it
returns, because each reader takes off the buffer exactly the bytes that the encoder
writes for the value.  The encodings are prefix-free: the header says how long the
payload is.  So a torn or padded chunk file is never accepted.
-/

namespace StorageEngine.ChunkFormat

open Lib.BigEndian Lib.Cursor

/-! ## The fields of a buffer -/

private theorem eq_four {field : Bytes} (h : field.length = 4) :
    ∃ b0 b1 b2 b3, field = [b0, b1, b2, b3] := by
  obtain ⟨b0, b1, rest, rfl⟩ : ∃ b0 b1 rest, field = b0 :: b1 :: rest := by
    cases field with
    | nil => cases h
    | cons b0 field => cases field with
      | nil => cases h
      | cons b1 rest => exact ⟨b0, b1, rest, rfl⟩
  obtain ⟨b2, b3, rfl⟩ := List.length_eq_two.mp (Nat.succ.inj (Nat.succ.inj h))
  exact ⟨b0, b1, b2, b3, rfl⟩

theorem recovers_u32 : Recovers readU32 fun v field => field = appendU32 [] v := by
  intro before rest v cursor h
  rw [readU32] at h
  split at h
  · cases h
  · next hfit =>
    rw [List.length_append] at hfit
    obtain ⟨field, after, rfl, hlength⟩ := @exists_field _ rest 4 (by omega)
    obtain ⟨b0, b1, b2, b3, rfl⟩ := eq_four hlength
    have hget : ∀ i < 4, (before ++ ([b0, b1, b2, b3] ++ after)).getD (before.length + i) 0 =
        [b0, b1, b2, b3].getD i 0 := by
      intro i hi
      rw [← List.append_assoc]
      exact getD_field before [b0, b1, b2, b3] after 0 hi
    have hfirst := hget 0 (by decide)
    rw [Nat.add_zero] at hfirst
    rw [hfirst, hget 1 (by decide), hget 2 (by decide), hget 3 (by decide), Option.some.injEq,
      Prod.mk.injEq] at h
    obtain ⟨rfl, rfl⟩ := h
    refine ⟨[b0, b1, b2, b3], after, rfl, rfl, joinBytes_inj rfl ?_⟩
    rw [joinBytes_appendU32]
    exact (joinU32 b0 b1 b2 b3).symm

theorem recovers_u64 : Recovers readU64 fun v field => field = appendU64 [] v := by
  intro before rest v cursor h
  rw [readU64] at h
  split at h
  · cases h
  · next hfit =>
    rw [List.length_append] at hfit
    obtain ⟨field, after, rfl, hlength⟩ := @exists_field _ rest 8 (by omega)
    have hloop := foldl_field (fun (w : UInt64) b => (w <<< 8) ||| b.toUInt64) 0
      before field after 0
    rw [hlength, List.append_assoc] at hloop
    rw [hloop, Option.some.injEq, Prod.mk.injEq] at h
    obtain ⟨rfl, rfl⟩ := h
    refine ⟨field, after, rfl, by rw [hlength], joinBytes_inj hlength ?_⟩
    rw [joinBytes_appendU64, joinU64 field (Nat.le_of_eq hlength)]

theorem recovers_bytes (len : Nat) :
    Recovers (readBytes len) fun s field => field = s ∧ s.length = len := by
  intro before rest s cursor h
  rw [readBytes] at h
  split at h
  · cases h
  · next hfit =>
    rw [List.length_append] at hfit
    obtain ⟨field, after, rfl, hlength⟩ := @exists_field _ rest len (by omega)
    have hfield := extract_field before field after
    rw [List.append_assoc, hlength] at hfield
    rw [hfield] at h
    cases h
    exact ⟨_, after, rfl, by rw [hlength], rfl, hlength⟩

theorem recovers_string :
    Recovers readString fun s field => field = appendString [] s ∧ s.length < 2 ^ 32 := by
  intro before rest s cursor h
  obtain ⟨field, after, hrest, hcursor, len, first, last, rfl, rfl, rfl, hlength⟩ :=
    recovers_u32.bind (fun len => recovers_bytes len.toNat) _ _ _ _ h
  refine ⟨_, after, hrest, hcursor, ?_, ?_⟩
  · rw [appendString, hlength, UInt32.ofNat_toNat]
  · rw [hlength]
    exact UInt32.toNat_lt len

/-- The fields of a header that has been read. -/
theorem recovers_fields :
    Recovers readFields fun header field => field = fieldBytes header ∧ Fits header := by
  intro before rest header cursor h
  have hfields := recovers_u32.bind fun version => recovers_string.bind fun chunkId =>
    recovers_string.bind fun objectId => recovers_u64.bind fun size =>
      recovers_string.bind fun checksum => recovers_u64.bind fun createdAtMs =>
        recovers_pure
          ({ chunkId, objectId, version, size, checksum, createdAtMs } : ChunkHeaderData)
  obtain ⟨field, after, hrest, hcursor, version, _, _, rfl, rfl, chunkId, _, _, rfl, ⟨rfl, hchunk⟩,
    objectId, _, _, rfl, ⟨rfl, hobject⟩, size, _, _, rfl, rfl, checksum, _, _, rfl,
    ⟨rfl, hchecksum⟩, createdAtMs, _, _, rfl, rfl, rfl, rfl⟩ := hfields _ _ _ _ h
  exact ⟨_, after, hrest, hcursor, rfl, hchunk, hobject, hchecksum⟩

/-! ## Valid chunks -/

/-- What an encoder may be given: strings that fit their length prefixes, and a size
and a checksum that are those of the payload. -/
structure Valid (header : ChunkHeaderData) (payload : Bytes) : Prop where
  fits : Fits header
  size : header.size.toNat = payload.length
  checksum : header.checksum = Checksum.sha256 payload

/-- What the decoder accepts is the encoding of a valid chunk. -/
theorem serialize_of_deserialize {data : Bytes} {header : ChunkHeaderData} {payload : Bytes}
    (h : deserialize data = some (header, payload)) :
    Valid header payload ∧ serialize header payload = data := by
  rw [deserialize] at h
  split at h
  · cases h
  · next magic pos hmagic =>
    split at h
    · cases h
    · next hequal =>
      rw [not_not] at hequal
      subst hequal
      split at h
      · cases h
      · next header' cursor hread =>
        simp only at h
        split at h
        · cases h
        · next hsize =>
          split at h
          · cases h
          · next hverify =>
            cases h
            rw [not_not] at hsize
            rw [Bool.not_eq_true', Bool.not_eq_false] at hverify
            -- the magic number, and then the fields
            obtain ⟨first, after, rfl, rfl, rfl⟩ := recovers_u32 [] data _ _ hmagic
            rw [List.length_nil, Nat.zero_add] at hread
            obtain ⟨fields, payload, rfl, rfl, rfl, hfits⟩ := recovers_fields _ _ _ _ hread
            rw [← List.append_assoc, ← List.length_append, List.drop_left] at hsize hverify ⊢
            refine ⟨⟨hfits, hsize.symm, ((Checksum.verify_iff _ _).mp hverify).symm⟩, ?_⟩
            rw [serialize, headerOnlyBytes_eq]

theorem deserialize_eq_some_iff {data : Bytes} {header : ChunkHeaderData} {payload : Bytes} :
    deserialize data = some (header, payload) ↔
      Valid header payload ∧ serialize header payload = data := by
  constructor
  · exact serialize_of_deserialize
  · rintro ⟨hvalid, rfl⟩
    exact deserialize_serialize hvalid.fits hvalid.size hvalid.checksum

/-! ## Encodings in a row -/

/-- The header can be read off every buffer that starts with its encoding. -/
theorem header_unique {header header' : ChunkHeaderData} {payload payload' : Bytes}
    (hfits : Fits header) (hfits' : Fits header')
    (h : serialize header payload = serialize header' payload') :
    header = header' ∧ payload = payload' := by
  rw [serialize, serialize, headerOnlyBytes_eq, headerOnlyBytes_eq, List.append_assoc,
    List.append_assoc] at h
  have hfields := List.append_cancel_left h
  have hread := reads_fields hfits [] payload
  have hread' := reads_fields hfits' [] payload'
  rw [List.nil_append, hfields] at hread
  rw [List.nil_append, hread] at hread'
  cases hread'
  exact ⟨rfl, List.append_cancel_left hfields⟩

/-- The decoder accepts exactly the encodings of the valid chunks, and different chunks
have different encodings. -/
theorem deserialize_exact :
    (∀ data header payload, deserialize data = some (header, payload) ↔
      serialize header payload = data ∧ Valid header payload) ∧
    (∀ data, deserialize data = none ↔
      ∀ header payload, Valid header payload → serialize header payload ≠ data) ∧
    ∀ header payload header' payload', Fits header → Fits header' →
      serialize header payload = serialize header' payload' →
        header = header' ∧ payload = payload' := by
  refine ⟨fun data header payload => ?_, fun data => ⟨fun h header payload hvalid => ?_, ?_⟩,
    fun header payload header' payload' hfits hfits' => header_unique hfits hfits'⟩
  · rw [deserialize_eq_some_iff, and_comm]
  · rintro rfl
    rw [deserialize_serialize hvalid.fits hvalid.size hvalid.checksum] at h
    cases h
  · intro h
    cases hdecoded : deserialize data with
    | none => rfl
    | some chunk =>
      obtain ⟨hvalid, hencoded⟩ := serialize_of_deserialize hdecoded
      exact absurd hencoded (h chunk.1 chunk.2 hvalid)

/-- An accepted buffer is not the beginning of another one: the header that both begin
with has the size of the payload. -/
theorem eq_of_initial {data data' : Bytes} (hinitial : data <+: data')
    (haccepted : (deserialize data).isSome) (haccepted' : (deserialize data').isSome) :
    data = data' := by
  obtain ⟨⟨header, payload⟩, h⟩ := Option.isSome_iff_exists.mp haccepted
  obtain ⟨⟨header', payload'⟩, h'⟩ := Option.isSome_iff_exists.mp haccepted'
  obtain ⟨hvalid, rfl⟩ := serialize_of_deserialize h
  obtain ⟨hvalid', rfl⟩ := serialize_of_deserialize h'
  obtain ⟨rest, hrest⟩ := hinitial
  have hsame : serialize header (payload ++ rest) = serialize header' payload' := by
    rw [serialize, ← List.append_assoc]
    exact hrest
  obtain ⟨rfl, rfl⟩ := header_unique hvalid.fits hvalid'.fits hsame
  have hlength := hvalid.size.symm.trans hvalid'.size
  rw [List.length_append, Nat.left_eq_add, List.length_eq_zero_iff] at hlength
  rw [hlength, List.append_nil]

/-- When the decoder accepts an encoding, it rejects the encoding cut short anywhere,
and the encoding with anything behind it. -/
theorem torn_or_padded_rejected {header : ChunkHeaderData} {payload : Bytes}
    (haccepted : (deserialize (serialize header payload)).isSome) :
    (∀ cut < (serialize header payload).length,
      deserialize ((serialize header payload).take cut) = none) ∧
    ∀ padding, padding ≠ [] → deserialize (serialize header payload ++ padding) = none := by
  refine ⟨fun cut hcut => ?_, fun padding hpadding => ?_⟩
  · by_contra htorn
    rw [← ne_eq, ← Option.isSome_iff_ne_none] at htorn
    have hlength := congrArg List.length (eq_of_initial (List.take_prefix _ _) htorn haccepted)
    rw [List.length_take_of_le (Nat.le_of_lt hcut)] at hlength
    omega
  · by_contra hpadded
    rw [← ne_eq, ← Option.isSome_iff_ne_none] at hpadded
    have hsame := eq_of_initial (List.prefix_append _ padding) haccepted hpadded
    exact hpadding (List.append_right_eq_self.mp hsame.symm)

/-- The encoding of an empty chunk, cut within the magic number. -/
theorem torn_or_padded_rejected_empty :
    deserialize ((serialize { checksum := Checksum.sha256 [] } []).take 3) = none := by
  generalize hchecksum : Checksum.sha256 [] = checksum
  have hlength : checksum.length < 2 ^ 32 := by
    rw [← hchecksum, Checksum.sha256_length]
    decide
  have haccepted : deserialize (serialize { checksum := checksum } []) =
      some ({ checksum := checksum }, []) :=
    deserialize_serialize ⟨Nat.two_pow_pos 32, Nat.two_pow_pos 32, hlength⟩ rfl hchecksum.symm
  refine (torn_or_padded_rejected (by rw [haccepted]; rfl)).1 3 ?_
  rw [serialize, headerOnlyBytes_eq, List.append_assoc, List.length_append]
  exact Nat.lt_of_lt_of_le (by decide : 3 < (appendU32 [] chunkMagic).length)
    (Nat.le_add_right _ _)

end StorageEngine.ChunkFormat
