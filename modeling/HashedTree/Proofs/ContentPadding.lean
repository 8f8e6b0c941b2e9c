import HashedTree.ContentDigest

/-!
# A content and its zeros

Filling up the last chunk of a content with zeros gives the same chunks as adding these zeros to the
content first. So a content and its padded form have one digest, and the padded form is all that the
chunks keep of a content.
-/
namespace HashedTree.ContentPadding
open ByteBlocks ContentDigest

/-- The content with zeros up to a whole number of chunks; an empty content gets none. -/
def zeroPadded (content : Bytes) : Bytes :=
  content ++ List.replicate ((chunkSize - content.length % chunkSize) % chunkSize) 0

/-- The chunks of a content, the last one filled up with zeros. -/
def chunks (content : Bytes) : List Bytes :=
  (blocks chunkSize content).map (zeroFill chunkSize)

private theorem chunkSize_pos : 0 < chunkSize := by decide

private theorem ne_nil_of_le_length {content : Bytes} (h : chunkSize ≤ content.length) :
    content ≠ [] := by
  rintro rfl
  exact absurd h (by decide)

/-- A content is empty, or shorter than a chunk, or continues behind its first chunk. -/
theorem chunk_induction {P : Bytes → Prop} (nil : P [])
    (short : ∀ content, content ≠ [] → content.length < chunkSize → P content)
    (long : ∀ content, chunkSize ≤ content.length → P (content.drop chunkSize) → P content)
    (content : Bytes) : P content := by
  induction hn : content.length using Nat.strongRecOn generalizing content with
  | ind n ih =>
    by_cases hempty : content = []
    · exact hempty ▸ nil
    rcases Nat.lt_or_ge content.length chunkSize with hlt | hge
    · exact short content hempty hlt
    · refine long content hge (ih (content.drop chunkSize).length ?_ _ rfl)
      have := chunkSize_pos
      rw [List.length_drop]
      omega

theorem zeroFill_of_length_eq {size : Nat} {bytes : Bytes} (h : bytes.length = size) :
    zeroFill size bytes = bytes := by
  simp [zeroFill, h]

private theorem length_take_chunkSize {content : Bytes} (h : chunkSize ≤ content.length) :
    (content.take chunkSize).length = chunkSize := by
  rw [List.length_take, Nat.min_eq_left h]

theorem chunks_of_ne_nil {content : Bytes} (nonempty : content ≠ []) :
    chunks content =
      zeroFill chunkSize (content.take chunkSize) :: chunks (content.drop chunkSize) := by
  rw [chunks, blocks_of_ne_nil chunkSize_pos nonempty]
  rfl

theorem chunks_of_short {content : Bytes} (nonempty : content ≠ [])
    (h : content.length < chunkSize) : chunks content = [zeroFill chunkSize content] := by
  rw [chunks, blocks_of_ne_nil chunkSize_pos nonempty, List.take_of_length_le (Nat.le_of_lt h),
    List.drop_of_length_le (Nat.le_of_lt h)]
  rfl

theorem chunks_of_long {content : Bytes} (h : chunkSize ≤ content.length) :
    chunks content = content.take chunkSize :: chunks (content.drop chunkSize) := by
  rw [chunks, blocks_of_ne_nil chunkSize_pos (ne_nil_of_le_length h), List.map_cons,
    zeroFill_of_length_eq (length_take_chunkSize h)]
  rfl

theorem zeroPadded_of_short {content : Bytes} (nonempty : content ≠ [])
    (h : content.length < chunkSize) : zeroPadded content = zeroFill chunkSize content := by
  have hpos : 0 < content.length := List.length_pos_iff.mpr nonempty
  rw [zeroPadded, zeroFill, Nat.mod_eq_of_lt h, Nat.mod_eq_of_lt (by omega)]

theorem zeroPadded_of_long {content : Bytes} (h : chunkSize ≤ content.length) :
    zeroPadded content = content.take chunkSize ++ zeroPadded (content.drop chunkSize) := by
  have hmod : content.length % chunkSize = (content.length - chunkSize) % chunkSize :=
    Nat.mod_eq_sub_mod h
  rw [zeroPadded, zeroPadded, List.length_drop, ← hmod, ← List.append_assoc, List.take_append_drop]

theorem length_of_mem_chunks (content : Bytes) :
    ∀ chunk ∈ chunks content, chunk.length = chunkSize := by
  induction content using chunk_induction with
  | nil => simp [chunks]
  | short content nonempty h =>
    rw [chunks_of_short nonempty h]
    simpa using length_zeroFill (Nat.le_of_lt h)
  | long content h ih =>
    rw [chunks_of_long h]
    simpa [length_take_chunkSize h] using ih

/-- A content takes as many chunks as are needed to hold its bytes. -/
theorem length_chunks (content : Bytes) :
    (chunks content).length = (content.length + (chunkSize - 1)) / chunkSize := by
  induction content using chunk_induction with
  | nil => rfl
  | short content nonempty h =>
    have hpos : 0 < content.length := List.length_pos_iff.mpr nonempty
    rw [chunks_of_short nonempty h, List.length_singleton]
    exact (Nat.div_eq_of_lt_le (by omega) (by omega)).symm
  | long content h ih =>
    rw [chunks_of_long h, List.length_cons, ih, List.length_drop,
      ← Nat.add_div_right _ chunkSize_pos]
    congr 1
    omega

/-- Cutting the padded content gives the chunks as they are. -/
theorem blocks_zeroPadded (content : Bytes) :
    blocks chunkSize (zeroPadded content) = chunks content := by
  induction content using chunk_induction with
  | nil => rfl
  | short content nonempty h =>
    have hfull := length_zeroFill (Nat.le_of_lt h)
    have hfilled : zeroFill chunkSize content ≠ [] := by simp [zeroFill, nonempty]
    rw [zeroPadded_of_short nonempty h, chunks_of_short nonempty h,
      blocks_of_ne_nil chunkSize_pos hfilled, List.take_of_length_le (Nat.le_of_eq hfull),
      List.drop_of_length_le (Nat.le_of_eq hfull), blocks_nil]
  | long content h ih =>
    have htake := length_take_chunkSize h
    have hpadded : zeroPadded content ≠ [] := by simp [zeroPadded, ne_nil_of_le_length h]
    rw [blocks_of_ne_nil chunkSize_pos hpadded, zeroPadded_of_long h, List.take_left' htake,
      List.drop_left' htake, ih, chunks_of_long h]

theorem chunks_zeroPadded (content : Bytes) : chunks (zeroPadded content) = chunks content := by
  rw [chunks, blocks_zeroPadded]
  refine (List.map_congr_left fun chunk hchunk => ?_).trans (List.map_id' _)
  exact zeroFill_of_length_eq (length_of_mem_chunks content chunk hchunk)

/-- The chunks in a row are the padded content. -/
theorem flatten_chunks (content : Bytes) : (chunks content).flatten = zeroPadded content := by
  induction content using chunk_induction with
  | nil => rfl
  | short content nonempty h =>
    rw [chunks_of_short nonempty h, zeroPadded_of_short nonempty h, List.flatten_singleton]
  | long content h ih =>
    rw [chunks_of_long h, zeroPadded_of_long h, List.flatten_cons, ih]

/-- The chunks determine the padded content, and it determines them. -/
theorem chunks_eq_iff {content other : Bytes} :
    chunks content = chunks other ↔ zeroPadded content = zeroPadded other := by
  constructor
  · intro h
    rw [← flatten_chunks, h, flatten_chunks]
  · intro h
    rw [← chunks_zeroPadded, h, chunks_zeroPadded]

end HashedTree.ContentPadding
