import HashedTree.ContentDigest

/-! # Hashing a content that arrives in pieces

A source answers every request for bytes: with some bytes, with an interruption after which the
request is repeated, or with a failure. An answer of no bytes is the end of the content. The
requests always ask for what is missing from the current chunk.
-/
namespace HashedTree.ContentReading
open ByteBlocks ContentDigest

/-- One answer of a source. Bytes beyond the request stay for the next request. -/
inductive Answer where
  | data (bytes : Bytes)
  | interrupted
  | failed (message : String)
  deriving DecidableEq

/-- The answers of a source in order; after the last one, the content has ended. -/
abbrev Script := List Answer

/-- The sizes of all requests in order, and the digest or the failure. -/
structure Reading where
  requests : List Nat
  outcome : Except String Digest

def effort : Script → Nat
  | [] => 0
  | .data bytes :: rest => bytes.length + 1 + effort rest
  | .interrupted :: rest | .failed _ :: rest => 1 + effort rest

/-- The script once `count` of the bytes at its front are delivered. -/
def remaining (bytes : Bytes) (count : Nat) (rest : Script) : Script :=
  if count < bytes.length then .data (bytes.drop count) :: rest else rest

theorem effort_remaining_lt {bytes : Bytes} {count : Nat} (positive : 0 < count) (rest : Script) :
    effort (remaining bytes count rest) < effort (.data bytes :: rest) := by
  unfold remaining
  split
  · simp only [effort, List.length_drop]
    omega
  · simp only [effort]
    omega

def closed (leaves : List Digest) (chunk : Bytes) : List Digest :=
  if chunk.isEmpty then leaves else leaves ++ [leaf chunk]

/-- Reads on, with the leaves of the full chunks and the bytes of the current one. -/
def readFrom (leaves : List Digest) (chunk : { bytes : Bytes // bytes.length < chunkSize })
    (script : Script) : Reading :=
  let request := chunkSize - chunk.val.length
  let continued (r : Reading) : Reading := ⟨request :: r.requests, r.outcome⟩
  match script with
  | [] => ⟨[request], .ok (merkleRoot (closed leaves chunk))⟩
  | .interrupted :: rest => continued (readFrom leaves chunk rest)
  | .failed message :: _ => ⟨[request], .error message⟩
  | .data bytes :: rest =>
    if bytes.isEmpty then ⟨[request], .ok (merkleRoot (closed leaves chunk))⟩
    else
      let filled := chunk.val ++ bytes.take request
      if room : filled.length < chunkSize then
        continued (readFrom leaves ⟨filled, room⟩ (remaining bytes request rest))
      else
        continued (readFrom (leaves ++ [leaf filled]) ⟨[], by decide⟩ (remaining bytes request rest))
termination_by effort script
decreasing_by
  · simp [effort]
  · exact effort_remaining_lt (by have := chunk.property; omega) rest
  · exact effort_remaining_lt (by have := chunk.property; omega) rest

def read (script : Script) : Reading := readFrom [] ⟨[], by decide⟩ script

end HashedTree.ContentReading
