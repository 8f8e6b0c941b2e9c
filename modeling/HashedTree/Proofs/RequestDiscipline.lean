import HashedTree.Proofs.PiecewiseReading

/-!
# What a reading asks a source for

The calls of a reading are its requests together with what the source replies. Each request is for
what is missing from the current chunk, which depends only on the number of bytes that all earlier
calls delivered. So none is for nothing, and a reply of no bytes is the end of the content. Such a
reply and a failure come last.
-/
namespace HashedTree.RequestDiscipline
open ByteBlocks ContentDigest ContentReading

/-- What a request brings. No bytes are the end of the content. -/
inductive Reply where
  | bytes (delivered : Bytes)
  | interrupted
  | failed (message : String)
  deriving DecidableEq

/-- A request for so many bytes at most, and what it brought. -/
structure Call where
  request : Nat
  reply : Reply
  deriving DecidableEq

/-- What a source replies to a request, and the answers that stay for the next one. -/
def respond (request : Nat) : Script → Reply × Script
  | [] => (.bytes [], [])
  | .data bytes :: rest => (.bytes (bytes.take request), remaining bytes request rest)
  | .interrupted :: rest => (.interrupted, rest)
  | .failed message :: rest => (.failed message, rest)

/-- The calls that requests of these sizes come to. -/
def calls : List Nat → Script → List Call
  | [], _ => []
  | request :: requests, script =>
    ⟨request, (respond request script).1⟩ :: calls requests (respond request script).2

/-- All calls of a reading. -/
def history (script : Script) : List Call := calls (read script).requests script

def Reply.delivered : Reply → Bytes
  | .bytes delivered => delivered
  | .interrupted | .failed _ => []

/-- All bytes that these calls delivered. -/
def deliveredBy (earlier : List Call) : Bytes := earlier.flatMap fun call => call.reply.delivered

/-- No bytes or a failure that is no interruption: nothing is asked for after this. -/
def Reply.Closes (reply : Reply) : Prop := reply = .bytes [] ∨ ∃ message, reply = .failed message

/-- What a reading comes to when this reply closes it. -/
inductive Concludes (delivered : Bytes) : Reply → Except String Digest → Prop where
  | ended : Concludes delivered (.bytes []) (.ok (contentDigest delivered))
  | failed (message : String) : Concludes delivered (.failed message) (.error message)

/-- How many bytes the current chunk can take, once these are delivered. -/
def missing (delivered : Bytes) : Nat := chunkSize - delivered.length % chunkSize

/-- The calls that lead to an outcome, once some bytes are delivered. -/
inductive Disciplined : Bytes → List Call → Except String Digest → Prop where
  | last {delivered : Bytes} {request : Nat} {reply : Reply} {outcome : Except String Digest}
      (asks : request = missing delivered) (concludes : Concludes delivered reply outcome) :
      Disciplined delivered [⟨request, reply⟩] outcome
  | next {delivered : Bytes} {request : Nat} {reply : Reply} {later : List Call}
      {outcome : Except String Digest} (asks : request = missing delivered)
      (goesOn : ¬reply.Closes) (h : Disciplined (delivered ++ reply.delivered) later outcome) :
      Disciplined delivered (⟨request, reply⟩ :: later) outcome

theorem map_request_calls (requests : List Nat) (script : Script) :
    (calls requests script).map Call.request = requests := by
  induction requests generalizing script with
  | nil => rfl
  | cons request requests ih => rw [calls, List.map_cons, ih]

theorem not_closes_interrupted : ¬Reply.interrupted.Closes := by
  simp [Reply.Closes]

theorem Concludes.closes {delivered : Bytes} {reply : Reply} {outcome : Except String Digest}
    (h : Concludes delivered reply outcome) : reply.Closes := by
  cases h with
  | ended => exact .inl rfl
  | failed message => exact .inr ⟨message, rfl⟩

theorem not_closes_take {bytes : Bytes} {count : Nat} (nonempty : bytes ≠ [])
    (positive : 0 < count) : ¬(Reply.bytes (bytes.take count)).Closes := by
  simp [Reply.Closes, nonempty, Nat.ne_of_gt positive]

theorem missing_pos (delivered : Bytes) : 1 ≤ missing delivered := by
  have := Nat.mod_lt delivered.length (show 0 < chunkSize by decide)
  unfold missing
  omega

theorem missing_le (delivered : Bytes) : missing delivered ≤ chunkSize := Nat.sub_le _ _

section History
variable {delivered : Bytes} {run before after : List Call} {call : Call}
variable {outcome : Except String Digest}

theorem Disciplined.ne_nil (h : Disciplined delivered run outcome) : run ≠ [] := by
  cases h <;> exact List.cons_ne_nil _ _

private theorem of_singleton_eq {only : Call} (hrun : [only] = before ++ call :: after) :
    before = [] ∧ call = only ∧ after = [] := by
  cases before with
  | nil =>
    obtain ⟨rfl, rfl⟩ := List.cons.inj hrun
    exact ⟨rfl, rfl, rfl⟩
  | cons first before => simp at hrun

/-- Every request is for what is missing from the current chunk. -/
theorem Disciplined.request_eq (h : Disciplined delivered run outcome)
    (hrun : run = before ++ call :: after) :
    call.request = missing (delivered ++ deliveredBy before) := by
  induction h generalizing before with
  | last asks concludes =>
    obtain ⟨rfl, rfl, -⟩ := of_singleton_eq hrun
    simpa [deliveredBy] using asks
  | next asks goesOn h ih =>
    cases before with
    | nil =>
      obtain ⟨rfl, -⟩ := List.cons.inj hrun
      simpa [deliveredBy] using asks
    | cons first before =>
      obtain ⟨rfl, hlater⟩ := List.cons.inj hrun
      rw [ih hlater, List.append_assoc]
      rfl

/-- A call is the last one exactly if its reply closes the reading. -/
theorem Disciplined.eq_nil_iff (h : Disciplined delivered run outcome)
    (hrun : run = before ++ call :: after) : after = [] ↔ call.reply.Closes := by
  induction h generalizing before with
  | last asks concludes =>
    obtain ⟨-, rfl, rfl⟩ := of_singleton_eq hrun
    simp [concludes.closes]
  | next asks goesOn h ih =>
    cases before with
    | nil =>
      obtain ⟨rfl, rfl⟩ := List.cons.inj hrun
      simp [goesOn, h.ne_nil]
    | cons first before => exact ih (List.cons.inj hrun).2

theorem Disciplined.exists_last (h : Disciplined delivered run outcome) :
    ∃ before last, run = before ++ [last] ∧ (∀ call ∈ before, ¬call.reply.Closes) ∧
      Concludes (delivered ++ deliveredBy before) last.reply outcome := by
  induction h with
  | @last delivered request reply outcome asks concludes =>
    refine ⟨[], _, rfl, by simp, ?_⟩
    simpa [deliveredBy] using concludes
  | @next delivered request reply later outcome asks goesOn h ih =>
    obtain ⟨before, last, rfl, hopen, concludes⟩ := ih
    refine ⟨_ :: before, last, rfl, ?_, ?_⟩
    · rw [List.forall_mem_cons]
      exact ⟨goesOn, hopen⟩
    · rw [List.append_assoc] at concludes
      exact concludes

end History

/-- The leaves and the bytes of the current chunk hold what was delivered: the chunk is the part of
it behind the full chunks, and whatever follows is cut into blocks as it will be. -/
structure Holds (leaves : List Digest) (chunk delivered : Bytes) : Prop where
  length : delivered.length % chunkSize = chunk.length
  digests : ∀ ahead, leaves ++ (blocks chunkSize (chunk ++ ahead)).map leaf =
    (blocks chunkSize (delivered ++ ahead)).map leaf

section Steps
variable {leaves : List Digest} {chunk delivered bytes : Bytes}

theorem holds_nothing : Holds [] [] [] := ⟨rfl, fun _ => rfl⟩

theorem Holds.missing_eq (h : Holds leaves chunk delivered) :
    chunkSize - chunk.length = missing delivered := by
  rw [missing, h.length]

theorem Holds.filled (h : Holds leaves chunk delivered)
    (room : (chunk ++ bytes).length < chunkSize) :
    Holds leaves (chunk ++ bytes) (delivered ++ bytes) where
  length := by
    rw [List.length_append] at room
    rw [List.length_append, List.length_append, ← Nat.mod_add_mod, h.length, Nat.mod_eq_of_lt room]
  digests ahead := by
    rw [List.append_assoc, List.append_assoc, h.digests]

theorem Holds.turned (h : Holds leaves chunk delivered)
    (full : (chunk ++ bytes).length = chunkSize) :
    Holds (leaves ++ [leaf (chunk ++ bytes)]) [] (delivered ++ bytes) where
  length := by
    rw [List.length_append] at full
    rw [List.length_append, ← Nat.mod_add_mod, h.length, full, Nat.mod_self]
    rfl
  digests ahead := by
    have nonempty : chunk ++ (bytes ++ ahead) ≠ [] := by
      apply List.ne_nil_of_length_pos
      rw [← List.append_assoc, List.length_append, full, chunkSize]
      omega
    rw [List.append_assoc delivered, ← h.digests, blocks_of_ne_nil (by decide) nonempty,
      ← List.append_assoc chunk, List.take_left' full, List.drop_left' full, List.map_cons,
      List.append_assoc]
    rfl

theorem Holds.root_eq (h : Holds leaves chunk delivered) (room : chunk.length < chunkSize) :
    merkleRoot (closed leaves chunk) = contentDigest delivered := by
  rw [closed_eq room, contentDigest]
  simpa using congrArg merkleRoot (h.digests [])

end Steps

/-- Whatever a source replies, the calls of a reading stay disciplined: the current chunk has room
for what is asked for next, also when it was just filled. -/
theorem disciplined_readFrom (leaves : List Digest)
    (chunk : { bytes : Bytes // bytes.length < chunkSize }) (script : Script) :
    ∀ {delivered : Bytes}, Holds leaves chunk.val delivered →
      Disciplined delivered (calls (readFrom leaves chunk script).requests script)
        (readFrom leaves chunk script).outcome := by
  fun_induction readFrom leaves chunk script
  case case1 leaves chunk request =>
    intro delivered h
    rw [h.root_eq chunk.property]
    exact .last h.missing_eq .ended
  case case2 leaves chunk request continued rest ih =>
    intro delivered h
    have later := ih h
    rw [← List.append_nil delivered] at later
    exact .next h.missing_eq not_closes_interrupted later
  case case3 leaves chunk request message rest =>
    intro delivered h
    exact .last h.missing_eq (.failed message)
  case case4 leaves chunk request bytes rest empty =>
    intro delivered h
    obtain rfl := List.isEmpty_iff.mp empty
    rw [h.root_eq chunk.property]
    have ended : (respond request (.data [] :: rest)).1 = .bytes [] := by
      simp [respond]
    refine .last h.missing_eq ?_
    rw [ended]
    exact .ended
  case case5 leaves chunk request continued bytes rest more filled room ih =>
    intro delivered h
    have nonempty : bytes ≠ [] := fun h => more (List.isEmpty_iff.mpr h)
    have positive : 0 < request := Nat.sub_pos_of_lt chunk.property
    exact .next h.missing_eq (not_closes_take nonempty positive) (ih (h.filled room))
  case case6 leaves chunk request continued bytes rest more filled full ih =>
    intro delivered h
    have nonempty : bytes ≠ [] := fun h => more (List.isEmpty_iff.mpr h)
    have positive : 0 < request := Nat.sub_pos_of_lt chunk.property
    -- the request was for no more than is missing, so the chunk is exactly full
    have exact : filled.length = chunkSize := by
      simp only [filled, request, List.length_append, List.length_take] at full ⊢
      omega
    exact .next h.missing_eq (not_closes_take nonempty positive) (ih (h.turned exact))

theorem disciplined_history (script : Script) :
    Disciplined [] (history script) (read script).outcome :=
  disciplined_readFrom [] ⟨[], by decide⟩ script holds_nothing

/-- Each request of a reading is for 256 bytes less those that stand in the current chunk, so
for at least one and the same again after an interruption. No call follows a reply of no bytes or a
failure, and the one that all others precede is such a call: a reading succeeds at the first reply
of no bytes, with the digest of all bytes delivered before, and fails only by the source's
failure. -/
theorem requests_fill_chunks (script : Script) :
    (history script).map Call.request = (read script).requests ∧
    (∀ before call after, history script = before ++ call :: after →
      call.request = 256 - (deliveredBy before).length % 256 ∧
        1 ≤ call.request ∧ call.request ≤ 256 ∧
        (call.reply = .interrupted →
          ∃ again later, after = again :: later ∧ again.request = call.request) ∧
        (call.reply.Closes → after = [])) ∧
    ∃ before last, history script = before ++ [last] ∧ (∀ call ∈ before, ¬call.reply.Closes) ∧
      Concludes (deliveredBy before) last.reply (read script).outcome := by
  have disciplined := disciplined_history script
  refine ⟨map_request_calls _ _, ?_, disciplined.exists_last⟩
  intro before call after hrun
  have asked : call.request = missing (deliveredBy before) := disciplined.request_eq hrun
  refine ⟨asked, asked ▸ missing_pos _, asked ▸ missing_le _, ?_, (disciplined.eq_nil_iff hrun).mpr⟩
  intro interrupted
  cases after with
  | nil =>
    have closes := (disciplined.eq_nil_iff hrun).mp rfl
    rw [interrupted] at closes
    exact absurd closes not_closes_interrupted
  | cons again later =>
    have hagain : history script = (before ++ [call]) ++ again :: later := by
      rw [hrun, List.append_assoc]
      rfl
    refine ⟨again, later, rfl, ?_⟩
    rw [disciplined.request_eq hagain, asked, deliveredBy, List.flatMap_append]
    simp [interrupted, Reply.delivered, deliveredBy]

/-- It stops for an interruption when one byte is missing, and fails too late. -/
def haltingScript : Script :=
  [.data (List.replicate 255 7), .interrupted, .data [1, 2, 3], .data [], .failed "late"]

/-- What is asked behind the interruption. -/
def afterHalt : List Call := [⟨1, .bytes [1]⟩, ⟨256, .bytes [2, 3]⟩, ⟨254, .bytes []⟩]

theorem interrupted_request_repeated :
    history haltingScript =
        [⟨256, .bytes (List.replicate 255 7)⟩] ++ ⟨1, .interrupted⟩ :: afterHalt ∧
      1 = 256 - (deliveredBy [⟨256, .bytes (List.replicate 255 7)⟩]).length % 256 ∧
      ∃ again later, afterHalt = again :: later ∧ again.request = 1 := by
  have hrun : history haltingScript =
      [⟨256, .bytes (List.replicate 255 7)⟩] ++ ⟨1, .interrupted⟩ :: afterHalt := by
    decide +kernel
  obtain ⟨asked, -, -, repeated, -⟩ := (requests_fill_chunks haltingScript).2.1 _ _ _ hrun
  exact ⟨hrun, asked, repeated rfl⟩

end HashedTree.RequestDiscipline
