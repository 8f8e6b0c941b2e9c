import HashedTree.ContentReading

/-! # The buffer of a reading

All chunks of a content go through one buffer. The pieces of a chunk are written at their offsets,
over what the chunk before left there, and behind the last piece the buffer is cleared before it is
hashed.
-/
namespace HashedTree.ChunkBuffer
open ByteBlocks KeccakDigest ContentDigest ContentReading

structure Buffer where
  bytes : Bytes
  length_bytes : bytes.length = chunkSize

/-- A place in a buffer, or its end. -/
abbrev Offset := { offset : Nat // offset ≤ chunkSize }

namespace Buffer

def zeros : Buffer := ⟨List.replicate chunkSize 0, List.length_replicate⟩

def write (buffer : Buffer) (offset : Nat) (piece : Bytes)
    (fits : offset + piece.length ≤ chunkSize) : Buffer where
  bytes := buffer.bytes.take offset ++ piece ++ buffer.bytes.drop (offset + piece.length)
  length_bytes := by
    have := buffer.length_bytes
    simp only [List.length_append, List.length_take, List.length_drop]
    omega

theorem bytes_write (buffer : Buffer) (offset : Nat) (piece : Bytes)
    (fits : offset + piece.length ≤ chunkSize) :
    (buffer.write offset piece fits).bytes =
      buffer.bytes.take offset ++ piece ++ buffer.bytes.drop (offset + piece.length) := rfl

/-- Zeros from the offset on. -/
def clear (buffer : Buffer) (offset : Offset) : Buffer :=
  buffer.write offset (List.replicate (chunkSize - offset) 0) (by
    have := offset.property
    rw [List.length_replicate]
    omega)

end Buffer

/-- A buffer with the bytes of a chunk in front of the offset, and the answers behind them. -/
structure Filled where
  buffer : Buffer
  offset : Offset
  rest : Script

/-- The sizes of the requests for one chunk, and the filled buffer or the failure. -/
structure Filling where
  requests : List Nat
  outcome : Except String Filled

/-- A filling that made one more request before all others. -/
def Filling.after (request : Nat) (later : Filling) : Filling :=
  ⟨request :: later.requests, later.outcome⟩

/-- What is asked for fits behind the offset. -/
theorem offset_add_length_le (offset : Offset) (bytes : Bytes) :
    offset.val + (bytes.take (chunkSize - offset.val)).length ≤ chunkSize := by
  have := offset.property
  rw [List.length_take]
  omega

/-- Fills the buffer from the offset on, until it is full or the content ends. -/
def fill (buffer : Buffer) (offset : Offset) (script : Script) : Filling :=
  if offset.val < chunkSize then
    let request := chunkSize - offset.val
    match script with
    | [] => ⟨[request], .ok ⟨buffer, offset, []⟩⟩
    | .interrupted :: rest => (fill buffer offset rest).after request
    | .failed message :: _ => ⟨[request], .error message⟩
    | .data bytes :: rest =>
      let piece := bytes.take request
      if piece.isEmpty then ⟨[request], .ok ⟨buffer, offset, rest⟩⟩
      else
        have fits : offset.val + piece.length ≤ chunkSize := offset_add_length_le offset bytes
        (fill (buffer.write offset piece fits) ⟨offset + piece.length, fits⟩
          (remaining bytes request rest)).after request
  else ⟨[], .ok ⟨buffer, offset, script⟩⟩
termination_by effort script
decreasing_by
  · simp [effort]
  · exact effort_remaining_lt (by omega) rest

theorem effort_remaining_add_le (bytes : Bytes) (count : Nat) (rest : Script) :
    effort (remaining bytes count rest) + (bytes.take count).length ≤
      effort (.data bytes :: rest) := by
  rw [remaining, List.length_take]
  split
  case isTrue more =>
    simp only [effort, List.length_drop]
    omega
  case isFalse all =>
    simp only [effort]
    omega

/-- Every byte of a chunk is taken from the answers. -/
theorem effort_rest_add_le (buffer : Buffer) (offset : Offset) (script : Script) :
    ∀ {filled : Filled}, (fill buffer offset script).outcome = .ok filled →
      effort filled.rest + filled.offset.val ≤ effort script + offset.val := by
  fun_induction fill buffer offset script
  case case1 buffer offset room =>
    rintro _ ⟨⟩
    exact Nat.le_refl _
  case case2 buffer offset room rest ih =>
    intro filled h
    have := ih h
    simp only [effort]
    omega
  case case3 => rintro _ ⟨⟩
  case case4 buffer offset room request bytes rest piece empty =>
    rintro _ ⟨⟩
    simp only [effort]
    omega
  case case5 buffer offset room request bytes rest piece more fits ih =>
    intro filled h
    have := ih h
    have := effort_remaining_add_le bytes request rest
    simp only [piece] at *
    omega
  case case6 =>
    rintro _ ⟨⟩
    exact Nat.le_refl _

theorem effort_rest_lt {buffer : Buffer} {offset : Offset} {script : Script} {filled : Filled}
    (h : (fill buffer offset script).outcome = .ok filled) (more : offset.val < filled.offset.val) :
    effort filled.rest < effort script := by
  have := effort_rest_add_le buffer offset script h
  omega

/-- Hashes chunk by chunk, each in the buffer that the chunk before was in. -/
def hashFrom (leaves : List Digest) (buffer : Buffer) (script : Script) : Reading :=
  let filling := fill buffer ⟨0, Nat.zero_le _⟩ script
  match result : filling.outcome with
  | .error message => ⟨filling.requests, .error message⟩
  | .ok filled =>
    if nothing : filled.offset.val = 0 then ⟨filling.requests, .ok (merkleRoot leaves)⟩
    else
      let chunk := filled.buffer.clear filled.offset
      let hashed := leaves ++ [keccak256 chunk.bytes]
      if filled.offset.val < chunkSize then ⟨filling.requests, .ok (merkleRoot hashed)⟩
      else
        have : effort filled.rest < effort script :=
          effort_rest_lt result (Nat.pos_of_ne_zero nothing)
        let later := hashFrom hashed chunk filled.rest
        ⟨filling.requests ++ later.requests, later.outcome⟩
termination_by effort script

/-- The reading of a whole content, from a buffer of zeros. -/
def hashReader (script : Script) : Reading := hashFrom [] .zeros script

end HashedTree.ChunkBuffer
