import AsioStudy.Cpp.Char

/-!
# The relay of a response

The loop at the end of `forwardRequest`: it appends what the destination sends to `response_buffer`,
writes the whole buffer to `ssl_socket`, and consumes as many bytes as the last read has brought.

The buffer is empty whenever an iteration begins (`AtIterations`), so that the two numbers are the
same.  The main result is `relaysIntact_forwardResponse`.
-/

namespace AsioStudy

namespace Socks

/-! ## The loop -/

/-- How a read ends the loop. -/
inductive ReadEnd where
  | eof
  | error
  deriving DecidableEq, Repr

/-- What `asio::write` does with its buffer: it writes all of it, or it throws after some bytes. -/
inductive WriteOutcome where
  | complete
  | throws (transferred : ℕ)
  deriving DecidableEq, Repr

/-- What happens in an iteration: `asio::read` appends some bytes, which are followed by a write, or
it appends nothing and reports the end of the stream or an error. -/
inductive Iteration where
  | received (chunk : Bytes) (write : WriteOutcome)
  | ended (how : ReadEnd)
  deriving DecidableEq, Repr

/-- What the loop does. -/
inductive RelayAction where
  /-- An iteration starts with this `response_buffer`. -/
  | starts (responseBuffer : Bytes)
  /-- Bytes are written to `ssl_socket`. -/
  | writes (bytes : Bytes)
  /-- Bytes are removed by `response_buffer.consume`. -/
  | consumes (bytes : Bytes)
  /-- An error of a read is reported. -/
  | reports
  /-- The exception of a write leaves `forwardRequest`. -/
  | throws
  deriving DecidableEq, Repr

/-- The loop of `forwardRequest`, from an iteration on; `consume` removes at most what there is. -/
def forwardResponse (responseBuffer : Bytes) : List Iteration → List RelayAction
  | [] => []
  | .ended .eof :: _ => [.starts responseBuffer]
  | .ended .error :: _ => [.starts responseBuffer, .reports]
  | .received chunk (.throws transferred) :: _ =>
    [.starts responseBuffer, .writes ((responseBuffer ++ chunk).take transferred), .throws]
  | .received chunk .complete :: iterations =>
    let bytesTransferred := chunk.length
    [.starts responseBuffer, .writes (responseBuffer ++ chunk),
      .consumes ((responseBuffer ++ chunk).take bytesTransferred)] ++
      forwardResponse ((responseBuffer ++ chunk).drop bytesTransferred) iterations

/-! ## What was written and what was consumed -/

/-- The bytes that an action writes. -/
def RelayAction.written : RelayAction → Bytes
  | .writes bytes => bytes
  | _ => []

/-- The bytes that an action consumes. -/
def RelayAction.consumed : RelayAction → Bytes
  | .consumes bytes => bytes
  | _ => []

/-- Every iteration starts with an empty buffer. -/
def AtIterations (actions : List RelayAction) : Prop :=
  ∀ responseBuffer, RelayAction.starts responseBuffer ∈ actions → responseBuffer = []

/-- At every time, what was consumed is a first part of what was written. -/
def ConsumesWritten (actions : List RelayAction) : Prop :=
  ∀ past, past <+: actions →
    past.flatMap RelayAction.consumed <+: past.flatMap RelayAction.written

/-- The bytes that the reads bring. -/
def received : List Iteration → Bytes
  | [] => []
  | .received chunk _ :: iterations => chunk ++ received iterations
  | .ended _ :: iterations => received iterations

/-- The actions of an iteration that is not the last one. -/
def relayOf (chunk : Bytes) : List RelayAction := [.starts [], .writes chunk, .consumes chunk]

/-- With an empty buffer, an iteration writes a chunk and consumes it, and then it is as before. -/
lemma forwardResponse_received (chunk : Bytes) (iterations : List Iteration) :
    forwardResponse [] (.received chunk .complete :: iterations) =
      relayOf chunk ++ forwardResponse [] iterations := by
  rw [forwardResponse]
  simp only [List.nil_append, List.take_length, List.drop_length]
  rfl

/-- What an iteration writes. -/
lemma written_relayOf (chunk : Bytes) :
    (relayOf chunk).flatMap RelayAction.written = chunk := by
  simp [relayOf, RelayAction.written]

/-- What it consumes. -/
lemma consumed_relayOf (chunk : Bytes) :
    (relayOf chunk).flatMap RelayAction.consumed = chunk := by
  simp [relayOf, RelayAction.consumed]

/-- Within an iteration, the write comes first. -/
lemma consumesWritten_relayOf (chunk : Bytes) : ConsumesWritten (relayOf chunk) := by
  intro past hpast
  rcases List.prefix_cons_iff.mp hpast with rfl | ⟨past, rfl, hwrite⟩
  · exact List.prefix_rfl
  rcases List.prefix_cons_iff.mp hwrite with rfl | ⟨past, rfl, hconsume⟩
  · exact List.prefix_rfl
  rcases List.prefix_cons_iff.mp hconsume with rfl | ⟨past, rfl, hnil⟩
  · exact List.nil_prefix
  obtain rfl := List.prefix_nil.mp hnil
  show (relayOf chunk).flatMap _ <+: (relayOf chunk).flatMap _
  rw [written_relayOf, consumed_relayOf]

/-- Actions after an iteration keep to the order if they do so on their own. -/
lemma ConsumesWritten.relayOf_append {actions : List RelayAction} (h : ConsumesWritten actions)
    (chunk : Bytes) : ConsumesWritten (relayOf chunk ++ actions) := by
  intro past hpast
  -- the past ends within the iteration, or it goes on after it
  rcases List.prefix_or_prefix_of_prefix hpast (List.prefix_append _ _) with hfirst | ⟨later, rfl⟩
  · exact consumesWritten_relayOf chunk past hfirst
  · have hlater := h later ((List.prefix_append_right_inj _).mp hpast)
    rw [List.flatMap_append, List.flatMap_append, written_relayOf, consumed_relayOf]
    exact (List.prefix_append_right_inj chunk).mpr hlater

/-! ## The whole loop -/

/-- Whatever the reads and the writes do, every iteration finds the buffer empty. -/
lemma atIterations_forwardResponse (iterations : List Iteration) :
    AtIterations (forwardResponse [] iterations) := by
  induction iterations with
  | nil => exact fun _ hmem => absurd hmem List.not_mem_nil
  | cons iteration iterations ih =>
    intro responseBuffer hmem
    match iteration with
    | .ended .eof => simpa [forwardResponse] using hmem
    | .ended .error => simpa [forwardResponse] using hmem
    | .received chunk (.throws transferred) => simpa [forwardResponse] using hmem
    | .received chunk .complete =>
      rw [forwardResponse_received] at hmem
      rcases List.mem_append.mp hmem with hfirst | hlater
      · simpa [relayOf] using hfirst
      · exact ih responseBuffer hlater

/-- Actions that consume nothing keep to the order. -/
lemma consumesWritten_of_consumed {actions : List RelayAction}
    (h : ∀ action ∈ actions, action.consumed = []) : ConsumesWritten actions := by
  intro past hpast
  have hnone : past.flatMap RelayAction.consumed = [] :=
    List.flatMap_eq_nil_iff.mpr fun action hmem => h action (hpast.subset hmem)
  rw [hnone]
  exact List.nil_prefix

/-- Whatever the reads and the writes do, only what was written is consumed. -/
lemma consumesWritten_forwardResponse (iterations : List Iteration) :
    ConsumesWritten (forwardResponse [] iterations) := by
  induction iterations with
  | nil => exact consumesWritten_of_consumed fun _ hmem => absurd hmem List.not_mem_nil
  | cons iteration iterations ih =>
    match iteration with
    | .ended .eof =>
      exact consumesWritten_of_consumed (by simp [forwardResponse, RelayAction.consumed])
    | .ended .error =>
      exact consumesWritten_of_consumed (by simp [forwardResponse, RelayAction.consumed])
    | .received chunk (.throws transferred) =>
      exact consumesWritten_of_consumed (by simp [forwardResponse, RelayAction.consumed])
    | .received chunk .complete =>
      rw [forwardResponse_received]
      exact ih.relayOf_append chunk

/-- Whatever the reads and the writes do, what is written is a first part of what was received. -/
theorem written_isPrefix_received (iterations : List Iteration) :
    (forwardResponse [] iterations).flatMap RelayAction.written <+: received iterations := by
  induction iterations with
  | nil => exact List.prefix_rfl
  | cons iteration iterations ih =>
    match iteration with
    | .ended .eof => exact List.nil_prefix
    | .ended .error => exact List.nil_prefix
    | .received chunk (.throws transferred) =>
      have hwritten : (forwardResponse [] (.received chunk (.throws transferred) ::
          iterations)).flatMap RelayAction.written = chunk.take transferred := by
        simp [forwardResponse, RelayAction.written]
      rw [hwritten]
      exact (List.take_prefix _ _).trans (List.prefix_append _ _)
    | .received chunk .complete =>
      rw [forwardResponse_received, List.flatMap_append, written_relayOf, received]
      exact (List.prefix_append_right_inj chunk).mpr ih

/-- When every write is complete, all chunks are written. -/
lemma written_forwardResponse (chunks : List Bytes) (how : ReadEnd) :
    (forwardResponse [] (chunks.map (.received · .complete) ++ [.ended how])).flatMap
      RelayAction.written = chunks.flatten := by
  induction chunks with
  | nil => cases how <;> rfl
  | cons chunk chunks ih =>
    rw [List.map_cons, List.cons_append, forwardResponse_received, List.flatMap_append,
      written_relayOf, ih, List.flatten_cons]

/-- The actions write exactly these bytes, find the buffer empty in every iteration, and consume
only what was written. -/
structure RelaysIntact (actions : List RelayAction) (bytes : Bytes) : Prop where
  /-- All bytes are written, and in this order. -/
  written_eq : actions.flatMap RelayAction.written = bytes
  /-- Nothing is left over when an iteration starts. -/
  atIterations : AtIterations actions
  /-- Nothing is removed that was not written. -/
  consumesWritten : ConsumesWritten actions

/-- **The response.**  For every sequence of chunks, ended by the end of the stream or by an error,
the relay writes exactly their concatenation, starts every iteration with an empty buffer and never
consumes what it has not written. -/
theorem relaysIntact_forwardResponse (chunks : List Bytes) (how : ReadEnd) :
    RelaysIntact (forwardResponse [] (chunks.map (.received · .complete) ++ [.ended how]))
      chunks.flatten :=
  ⟨written_forwardResponse chunks how, atIterations_forwardResponse _,
    consumesWritten_forwardResponse _⟩

end Socks

end AsioStudy
