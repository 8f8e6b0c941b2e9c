import HashedTree.ContentReading
import HashedTree.Proofs.LevelRoots

/-!
# A content that arrives in pieces

Of a source only this matters: the first failure, if one comes before an answer of no bytes, and
else all the bytes that came before that answer. The pieces they came in, the places where a chunk
was filled and the interruptions in between leave no trace in the outcome.
-/
namespace HashedTree.ContentReading
open ByteBlocks ContentDigest LevelRoots

def Answer.bytes : Answer → Bytes
  | .data bytes => bytes
  | .interrupted | .failed _ => []

def Answer.failure? : Answer → Option String
  | .failed message => some message
  | .data _ | .interrupted => none

/-- The answers before the first one of no bytes. -/
def beforeEnd (script : Script) : Script := script.takeWhile (· ≠ .data [])

/-- All bytes that are given before the content ends. -/
def delivered (script : Script) : Bytes := (beforeEnd script).flatMap Answer.bytes

/-- The first failure before the content ends. -/
def failure? (script : Script) : Option String := (beforeEnd script).findSome? Answer.failure?

section Scripts
variable {rest : Script} {bytes : Bytes}

theorem beforeEnd_cons {answer : Answer} (more : answer ≠ .data []) :
    beforeEnd (answer :: rest) = answer :: beforeEnd rest := by
  simp [beforeEnd, more]

theorem beforeEnd_end : beforeEnd (.data [] :: rest) = [] := by
  simp [beforeEnd]

@[simp] theorem delivered_end : delivered (.data [] :: rest) = [] := by
  rw [delivered, beforeEnd_end, List.flatMap_nil]

@[simp] theorem failure?_end : failure? (.data [] :: rest) = none := by
  rw [failure?, beforeEnd_end, List.findSome?_nil]

@[simp] theorem delivered_interrupted : delivered (.interrupted :: rest) = delivered rest := by
  rw [delivered, beforeEnd_cons (by simp)]
  rfl

@[simp] theorem failure?_interrupted : failure? (.interrupted :: rest) = failure? rest := by
  rw [failure?, beforeEnd_cons (by simp)]
  rfl

@[simp] theorem failure?_failed (message : String) :
    failure? (.failed message :: rest) = some message := by
  rw [failure?, beforeEnd_cons (by simp)]
  rfl

theorem delivered_data (nonempty : bytes ≠ []) :
    delivered (.data bytes :: rest) = bytes ++ delivered rest := by
  rw [delivered, beforeEnd_cons (by simpa using nonempty)]
  rfl

theorem failure?_data (nonempty : bytes ≠ []) :
    failure? (.data bytes :: rest) = failure? rest := by
  rw [failure?, beforeEnd_cons (by simpa using nonempty)]
  rfl

theorem delivered_remaining (nonempty : bytes ≠ []) (count : Nat) :
    bytes.take count ++ delivered (remaining bytes count rest) =
      delivered (.data bytes :: rest) := by
  rw [delivered_data nonempty, remaining]
  split
  case isTrue more =>
    have left : bytes.drop count ≠ [] := mt List.drop_eq_nil_iff.mp (Nat.not_le.mpr more)
    rw [delivered_data left, ← List.append_assoc, List.take_append_drop]
  case isFalse all =>
    rw [List.take_of_length_le (by omega)]

theorem failure?_remaining (nonempty : bytes ≠ []) (count : Nat) :
    failure? (remaining bytes count rest) = failure? (.data bytes :: rest) := by
  rw [failure?_data nonempty, remaining]
  split
  case isTrue more =>
    have left : bytes.drop count ≠ [] := mt List.drop_eq_nil_iff.mp (Nat.not_le.mpr more)
    rw [failure?_data left]
  case isFalse all => rfl

end Scripts

/-- What is to come of a reading: the failure ahead, or the root above the leaves of the full chunks
and those of the current chunk continued by the bytes ahead. -/
def ahead (leaves : List Digest) (chunk : Bytes) (script : Script) : Except String Digest :=
  match failure? script with
  | some message => .error message
  | none => .ok (merkleRoot (leaves ++ (blocks chunkSize (chunk ++ delivered script)).map leaf))

section Steps
variable {leaves : List Digest} {chunk bytes : Bytes} {script rest : Script}

theorem closed_eq (room : chunk.length < chunkSize) :
    closed leaves chunk = leaves ++ (blocks chunkSize chunk).map leaf := by
  rw [closed]
  cases chunk with
  | nil => simp
  | cons first others =>
    rw [blocks_of_ne_nil (by decide) (List.cons_ne_nil _ _), List.take_of_length_le (by omega),
      List.drop_of_length_le (by omega)]
    rfl

theorem ahead_of_end (room : chunk.length < chunkSize) (failure : failure? script = none)
    (nothing : delivered script = []) :
    ahead leaves chunk script = .ok (merkleRoot (closed leaves chunk)) := by
  rw [ahead, failure, nothing, List.append_nil, closed_eq room]

theorem ahead_interrupted : ahead leaves chunk (.interrupted :: rest) = ahead leaves chunk rest := by
  rw [ahead, ahead, failure?_interrupted, delivered_interrupted]

/-- Bytes that go into the current chunk change nothing of what is to come. -/
theorem ahead_filled (nonempty : bytes ≠ []) (count : Nat) :
    ahead leaves (chunk ++ bytes.take count) (remaining bytes count rest) =
      ahead leaves chunk (.data bytes :: rest) := by
  rw [ahead, ahead, failure?_remaining nonempty, List.append_assoc, delivered_remaining nonempty]

/-- Nor does closing a chunk that is full. -/
theorem ahead_closed (full : chunk.length = chunkSize) :
    ahead (leaves ++ [leaf chunk]) [] script = ahead leaves chunk script := by
  have nonempty : chunk ++ delivered script ≠ [] := fun h => by
    rw [(List.append_eq_nil_iff.mp h).1] at full
    cases full
  rw [ahead, ahead, blocks_of_ne_nil (by decide) nonempty, List.take_left' full,
    List.drop_left' full, List.nil_append, List.map_cons, List.append_assoc]
  rfl

end Steps

/-- A reading comes to what is ahead of it: pieces fill the current chunk until it is full or the
content ends, and nothing on the way changes what is ahead. -/
theorem outcome_readFrom (leaves : List Digest)
    (chunk : { bytes : Bytes // bytes.length < chunkSize }) (script : Script) :
    (readFrom leaves chunk script).outcome = ahead leaves chunk.val script := by
  induction leaves, chunk, script using readFrom.induct with
  | case1 leaves chunk => rw [readFrom, ahead_of_end chunk.property rfl rfl]
  | case2 leaves chunk rest ih => rw [readFrom, ih, ahead_interrupted]
  | case3 leaves chunk message rest => rw [readFrom, ahead, failure?_failed]
  | case4 leaves chunk bytes rest empty =>
    obtain rfl := List.isEmpty_iff.mp empty
    rw [readFrom, ahead_of_end chunk.property failure?_end delivered_end]
    rfl
  | case5 leaves chunk request bytes rest more filled room ih =>
    have nonempty : bytes ≠ [] := fun h => more (List.isEmpty_iff.mpr h)
    rw [readFrom, if_neg more, dif_pos room, ih, ahead_filled nonempty]
  | case6 leaves chunk request bytes rest more filled full ih =>
    have nonempty : bytes ≠ [] := fun h => more (List.isEmpty_iff.mpr h)
    -- the request was for no more than is missing, so the chunk is exactly full
    have exact : filled.length = chunkSize := by
      have := chunk.property
      simp only [filled, request, List.length_append, List.length_take] at full ⊢
      omega
    rw [readFrom, if_neg more, dif_neg full, ih, ahead_closed exact, ahead_filled nonempty]

theorem outcome_read_eq (script : Script) :
    (read script).outcome = match failure? script with
      | some message => .error message
      | none => .ok (contentDigest (delivered script)) :=
  outcome_readFrom _ _ script

/-- The outcome of a reading is the digest of all that is delivered before the content ends, or the
first failure if one comes before that. -/
theorem outcome_read (script : Script) :
    (∀ message, (read script).outcome = .error message ↔ failure? script = some message) ∧
      ∀ digest, (read script).outcome = .ok digest ↔
        failure? script = none ∧ HasDigest (delivered script) digest := by
  rw [outcome_read_eq]
  cases failure? script with
  | some message => simp
  | none => simp [hasDigest_iff]

end HashedTree.ContentReading
