import HashedTree.ChunkBuffer
import HashedTree.Proofs.PiecewiseReading

/-!
# Chunk by chunk through one buffer

The two loops over the one buffer make the requests of a reading and come to its outcome. The bytes
in front of the offset are the current chunk: a piece is written right behind them, so none of them
is lost, and what an earlier chunk left behind them is cleared before it could be hashed.
-/
namespace HashedTree.ChunkBuffer
open ByteBlocks KeccakDigest ContentDigest ContentReading

/-- The bytes in front of an offset. -/
def Buffer.front (buffer : Buffer) (offset : Offset) : Bytes := buffer.bytes.take offset

def Filled.chunk (filled : Filled) : Bytes := filled.buffer.front filled.offset

section Buffers
variable (buffer : Buffer)

@[simp] theorem length_front (offset : Offset) : (buffer.front offset).length = offset := by
  rw [Buffer.front, List.length_take, buffer.length_bytes]
  exact Nat.min_eq_left offset.property

theorem front_zero : buffer.front ⟨0, Nat.zero_le _⟩ = [] := rfl

/-- A piece is written behind the bytes that stand there. -/
theorem front_write (offset : Offset) (piece : Bytes)
    (fits : offset.val + piece.length ≤ chunkSize) :
    (buffer.write offset piece fits).front ⟨offset + piece.length, fits⟩ =
      buffer.front offset ++ piece := by
  have length : (buffer.front offset ++ piece).length = offset + piece.length := by
    rw [List.length_append, length_front]
  exact List.take_left' length

/-- What is left of an earlier chunk is not hashed. -/
theorem bytes_clear (offset : Offset) :
    (buffer.clear offset).bytes = zeroFill chunkSize (buffer.front offset) := by
  have full : buffer.bytes.length ≤
      offset + (List.replicate (chunkSize - offset) (0 : UInt8)).length := by
    rw [buffer.length_bytes, List.length_replicate]
    omega
  rw [Buffer.clear, Buffer.bytes_write, List.drop_of_length_le full, List.append_nil, zeroFill,
    length_front, Buffer.front]

end Buffers

theorem keccak256_clear (filled : Filled) :
    keccak256 (filled.buffer.clear filled.offset).bytes = leaf filled.chunk := by
  rw [bytes_clear, leaf, Filled.chunk]

theorem length_nil_lt : ([] : Bytes).length < chunkSize := by decide

/-- A reading that made these requests before all others. -/
def preceded (requests : List Nat) (later : Reading) : Reading :=
  ⟨requests ++ later.requests, later.outcome⟩

/-- The reading in a chunk that may have become full. -/
def turned (leaves : List Digest) (chunk : Bytes) (script : Script) : Reading :=
  if room : chunk.length < chunkSize then readFrom leaves ⟨chunk, room⟩ script
  else readFrom (leaves ++ [leaf chunk]) ⟨[], length_nil_lt⟩ script

section Readings
variable {leaves : List Digest} {buffer : Buffer} {offset : Offset} {script : Script}

theorem turned_of_lt {chunk : Bytes} (room : chunk.length < chunkSize) :
    turned leaves chunk script = readFrom leaves ⟨chunk, room⟩ script := by
  rw [turned, dif_pos room]

theorem turned_of_not_lt {chunk : Bytes} (full : ¬chunk.length < chunkSize) :
    turned leaves chunk script = readFrom (leaves ++ [leaf chunk]) ⟨[], length_nil_lt⟩ script := by
  rw [turned, dif_neg full]

/-- Bytes go into the current chunk as far as it has room for them. -/
theorem readFrom_data (chunk : { bytes : Bytes // bytes.length < chunkSize }) {bytes : Bytes}
    (more : bytes ≠ []) (rest : Script) :
    readFrom leaves chunk (.data bytes :: rest) =
      preceded [chunkSize - chunk.val.length]
        (turned leaves (chunk.val ++ bytes.take (chunkSize - chunk.val.length))
          (remaining bytes (chunkSize - chunk.val.length) rest)) := by
  rw [readFrom, if_neg (by simpa using more), turned]
  dsimp only
  split
  case isTrue room => rfl
  case isFalse full => rfl

end Readings

/-- What a reading comes to when the chunk it is in is filled like this. -/
def resumed (leaves : List Digest) (filling : Filling) : Reading :=
  match filling.outcome with
  | .error message => ⟨filling.requests, .error message⟩
  | .ok filled =>
    if filled.offset.val < chunkSize then
      ⟨filling.requests, .ok (merkleRoot (closed leaves filled.chunk))⟩
    else
      preceded filling.requests
        (readFrom (leaves ++ [leaf filled.chunk]) ⟨[], length_nil_lt⟩ filled.rest)

theorem resumed_after (leaves : List Digest) (request : Nat) (later : Filling) :
    resumed leaves (later.after request) = preceded [request] (resumed leaves later) := by
  rw [resumed, resumed, Filling.after]
  cases later.outcome with
  | error message => rfl
  | ok filled =>
    dsimp only
    split <;> rfl

/-- A reading goes on by filling the chunk it is in. -/
theorem resumed_fill (leaves : List Digest) (buffer : Buffer) (offset : Offset) (script : Script) :
    resumed leaves (fill buffer offset script) =
      turned leaves (buffer.front offset) script := by
  fun_induction fill buffer offset script
  case case1 buffer offset room request =>
    rw [turned_of_lt (by simpa using room), readFrom]
    simp [resumed, room, Filled.chunk, request]
  case case2 buffer offset room request rest ih =>
    have front : (buffer.front offset).length < chunkSize := by simpa using room
    rw [resumed_after, ih, turned_of_lt front, turned_of_lt front, readFrom]
    simp [preceded, request]
  case case3 buffer offset room request message rest =>
    rw [turned_of_lt (by simpa using room), readFrom]
    simp [resumed, request]
  case case4 buffer offset room request bytes rest piece empty =>
    have ended : bytes = [] := by
      simpa [piece, request, Nat.sub_eq_zero_iff_le, Nat.not_le.mpr room] using empty
    subst ended
    rw [turned_of_lt (by simpa using room), readFrom]
    simp [resumed, room, Filled.chunk, request]
  case case5 buffer offset room request bytes rest piece more fits ih =>
    have nonempty : bytes ≠ [] := by
      rintro rfl
      exact more (by simp [piece])
    have front : (buffer.front offset).length < chunkSize := by simpa using room
    rw [resumed_after, ih, front_write, turned_of_lt front, readFrom_data _ nonempty, length_front]
  case case6 buffer offset script full =>
    rw [turned_of_not_lt (by simpa using full), resumed]
    simp [full, preceded, Filled.chunk]

/-- A chunk starts at the front of the buffer, whatever stands there. -/
theorem readFrom_eq_resumed (leaves : List Digest) (buffer : Buffer) (script : Script) :
    readFrom leaves ⟨[], length_nil_lt⟩ script =
      resumed leaves (fill buffer ⟨0, Nat.zero_le _⟩ script) := by
  rw [resumed_fill, front_zero, turned_of_lt (by decide)]

theorem hashFrom_eq_readFrom (leaves : List Digest) (buffer : Buffer) (script : Script) :
    hashFrom leaves buffer script = readFrom leaves ⟨[], length_nil_lt⟩ script := by
  fun_induction hashFrom leaves buffer script
  case case1 leaves buffer script filling message result =>
    rw [readFrom_eq_resumed leaves buffer, resumed, result]
  case case2 leaves buffer script filling filled result nothing =>
    have empty : filled.chunk = [] := by
      rw [← List.length_eq_zero_iff, Filled.chunk, length_front, nothing]
    have room : filled.offset.val < chunkSize := by
      rw [nothing]
      decide
    rw [readFrom_eq_resumed leaves buffer, resumed, result]
    dsimp only
    rw [if_pos room, closed, empty, List.isEmpty_nil, if_pos rfl]
  case case3 leaves buffer script filling filled result more chunk hashed room =>
    have nonempty : ¬filled.chunk.isEmpty := by
      rwa [List.isEmpty_iff, ← List.length_eq_zero_iff, Filled.chunk, length_front]
    rw [readFrom_eq_resumed leaves buffer, resumed, result]
    dsimp only
    rw [if_pos room, closed, if_neg nonempty, ← keccak256_clear]
  case case4 leaves buffer script filling filled result more chunk hashed full _ later ih =>
    rw [readFrom_eq_resumed leaves buffer, resumed, result]
    dsimp only
    rw [if_neg full, preceded, ← keccak256_clear, ← ih]

/-- The loops over the buffer make the same requests as a reading, and come to the same outcome. -/
theorem hashReader_eq_read (script : Script) : hashReader script = read script :=
  hashFrom_eq_readFrom [] .zeros script

theorem delivered_pieces (pieces : List Bytes) (nonempty : ∀ piece ∈ pieces, piece ≠ []) :
    delivered (pieces.map .data) = pieces.flatten := by
  induction pieces with
  | nil => rfl
  | cons piece pieces ih =>
    rw [List.forall_mem_cons] at nonempty
    rw [List.map_cons, delivered_data nonempty.1, ih nonempty.2, List.flatten_cons]

theorem failure?_pieces (pieces : List Bytes) (nonempty : ∀ piece ∈ pieces, piece ≠ []) :
    failure? (pieces.map .data) = none := by
  induction pieces with
  | nil => rfl
  | cons piece pieces ih =>
    rw [List.forall_mem_cons] at nonempty
    rw [List.map_cons, failure?_data nonempty.1, ih nonempty.2]

/-- The digest of a file's content is what the loops come to, whatever pieces it is read in. -/
theorem outcome_hashReader_pieces {pieces : List Bytes} (nonempty : ∀ piece ∈ pieces, piece ≠ []) :
    (hashReader (pieces.map .data)).outcome = .ok (contentDigest pieces.flatten) := by
  rw [hashReader_eq_read, outcome_read_eq, failure?_pieces pieces nonempty,
    delivered_pieces pieces nonempty]

end HashedTree.ChunkBuffer
