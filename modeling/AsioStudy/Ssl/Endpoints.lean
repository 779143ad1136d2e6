import AsioStudy.Cpp.Text
import AsioStudy.Foundation.Duplex

/-!
# The client and the session of the TLS echo

`client` sends one line and reads as many bytes as it has sent; `session` echoes what it receives,
in a single buffer `data_`.  Both are machines after their handshakes.  An operation is outstanding
from the function that starts it to the handler that it calls at the end: `async_write` and
`async_read` transfer bytes in any portions until they are complete, `async_read_some` takes what
there is, and any operation may fail.

Nothing in the machines keeps operations from being outstanding together.
-/

namespace AsioStudy

namespace Ssl

/-- The constant `max_length` of the client, and the size of `data_`. -/
def maxLength : ℕ := 1024

/-- The number of bytes of `buffer(array, maxSize)`. -/
def bufferSize (maxSize : ℕ) : ℕ := min maxLength maxSize

/-- An outstanding `async_write` from the beginning of an array, or an outstanding `async_read`. -/
structure Transfer where
  /-- The size of the buffer. -/
  length : ℕ
  /-- The number of bytes that have been transferred. -/
  done : ℕ
  deriving DecidableEq, Repr

/-! ## The session -/

/-- The class `session`. -/
structure Session where
  /-- The array `data_`. -/
  data : Bytes
  /-- The outstanding reads into `data_`; those that are complete have a length. -/
  reads : List (Option ℕ)
  /-- The outstanding writes from `data_`. -/
  writes : List Transfer
  deriving DecidableEq, Repr

/-- `do_read()`. -/
def Session.doRead (s : Session) : Session := { s with reads := s.reads ++ [none] }

/-- `do_write(length)`. -/
def Session.doWrite (s : Session) (length : ℕ) : Session :=
  { s with writes := s.writes ++ [⟨bufferSize length, 0⟩] }

/-- The session after the handshake, whose handler calls `do_read`; the array is not initialised. -/
def Session.start (content : Bytes) : Session := Session.doRead ⟨content, [], []⟩

/-- What can happen at the session. -/
inductive SessionEvent where
  /-- The `i`-th outstanding read receives bytes and is complete. -/
  | readSome (i : ℕ) (bytes : Bytes)
  /-- The handler of the `i`-th outstanding read runs. -/
  | read (i : ℕ) (ok : Bool)
  /-- The `i`-th outstanding write transfers `k` bytes. -/
  | writeSome (i k : ℕ)
  /-- The handler of the `i`-th outstanding write runs. -/
  | written (i : ℕ) (ok : Bool)
  deriving DecidableEq, Repr

/-- Bytes leave the session. -/
inductive SessionOutput where
  | echoed (bytes : Bytes)
  deriving DecidableEq, Repr

/-- The effect of an event, or `none` if it is impossible. -/
def Session.step (s : Session) : SessionEvent → Option (Session × List SessionOutput)
  | .readSome i bytes =>
    if s.reads[i]? = some none ∧ bytes ≠ [] ∧ bytes.length ≤ maxLength then
      some ({ s with
        data := overwrite s.data 0 bytes
        reads := s.reads.set i (some bytes.length) }, [])
    else none
  | .read i ok =>
    match s.reads[i]?, ok with
    | some (some length), true =>
      some (Session.doWrite { s with reads := s.reads.eraseIdx i } length, [])
    | some none, false => some ({ s with reads := s.reads.eraseIdx i }, [])
    | _, _ => none
  | .writeSome i k =>
    match s.writes[i]? with
    | some op =>
      if 1 ≤ k ∧ op.done + k ≤ op.length then
        some ({ s with writes := s.writes.set i ⟨op.length, op.done + k⟩ },
          [.echoed ((s.data.drop op.done).take k)])
      else none
    | none => none
  | .written i ok =>
    match s.writes[i]?, ok with
    | some op, true =>
      if op.done = op.length then
        some (Session.doRead { s with writes := s.writes.eraseIdx i }, [])
      else none
    | some _, false => some ({ s with writes := s.writes.eraseIdx i }, [])
    | none, _ => none

/-! ## The client -/

/-- The class `client`. -/
structure Client where
  /-- The array `request_`. -/
  request : Bytes
  /-- The array `reply_`. -/
  reply : Bytes
  /-- The outstanding writes from `request_`. -/
  writes : List Transfer
  /-- The outstanding reads into `reply_`. -/
  reads : List Transfer
  deriving DecidableEq, Repr

/-- The line that comes next from the standard input. -/
def inputLine (input : Bytes) : Bytes := input.takeWhile (· ≠ ch '\n')

/-- What `std::cin.getline(array, n)` leaves in an array. -/
def getline (array : Bytes) (n : ℕ) (input : Bytes) : Bytes :=
  overwrite array 0 ((inputLine input).take (n - 1) ++ [0])

/-- `send_request()`, which the handler of the handshake calls; the arrays are not initialised. -/
def Client.sendRequest (content content' input : Bytes) : Client :=
  let request := getline content maxLength input
  -- `strlen`
  let requestLength := (cString request).length
  ⟨request, content', [⟨bufferSize requestLength, 0⟩], []⟩

/-- What can happen at the client. -/
inductive ClientEvent where
  /-- The `i`-th outstanding write transfers `k` bytes. -/
  | writeSome (i k : ℕ)
  /-- The handler of the `i`-th outstanding write runs. -/
  | written (i : ℕ) (ok : Bool)
  /-- The `i`-th outstanding read receives bytes. -/
  | readSome (i : ℕ) (bytes : Bytes)
  /-- The handler of the `i`-th outstanding read runs. -/
  | read (i : ℕ) (ok : Bool)
  deriving DecidableEq, Repr

/-- What the client does: bytes leave it, `receive_response(length)` is called, the reply is
printed, or a failure is reported. -/
inductive ClientOutput where
  | sent (bytes : Bytes)
  | receiveResponse (length : ℕ)
  | printed (bytes : Bytes)
  | writeRequestFailed
  | readResponseFailed
  deriving DecidableEq, Repr

/-- `receive_response(length)`. -/
def Client.receiveResponse (c : Client) (length : ℕ) : Client × List ClientOutput :=
  ({ c with reads := c.reads ++ [⟨bufferSize length, 0⟩] }, [.receiveResponse length])

/-- The effect of an event, or `none` if it is impossible. -/
def Client.step (c : Client) : ClientEvent → Option (Client × List ClientOutput)
  | .writeSome i k =>
    match c.writes[i]? with
    | some op =>
      if 1 ≤ k ∧ op.done + k ≤ op.length then
        some ({ c with writes := c.writes.set i ⟨op.length, op.done + k⟩ },
          [.sent ((c.request.drop op.done).take k)])
      else none
    | none => none
  | .written i ok =>
    match c.writes[i]?, ok with
    | some op, true =>
      if op.done = op.length then
        some (Client.receiveResponse { c with writes := c.writes.eraseIdx i } op.done)
      else none
    | some _, false => some ({ c with writes := c.writes.eraseIdx i }, [.writeRequestFailed])
    | none, _ => none
  | .readSome i bytes =>
    match c.reads[i]? with
    | some op =>
      if bytes ≠ [] ∧ op.done + bytes.length ≤ op.length then
        some ({ c with
          reply := overwrite c.reply op.done bytes
          reads := c.reads.set i ⟨op.length, op.done + bytes.length⟩ }, [])
      else none
    | none => none
  | .read i ok =>
    match c.reads[i]?, ok with
    | some op, true =>
      if op.done = op.length then
        some ({ c with reads := c.reads.eraseIdx i }, [.printed (c.reply.take op.done)])
      else none
    | some _, false => some ({ c with reads := c.reads.eraseIdx i }, [.readResponseFailed])
    | none, _ => none

/-! ## The two together -/

/-- What the session takes from its stream and puts into the other one. -/
def sessionPort : Duplex.Port SessionEvent SessionOutput UInt8 where
  takes
    | .readSome _ bytes => bytes
    | _ => []
  puts
    | .echoed bytes => bytes

/-- What the client takes from its stream and puts into the other one. -/
def clientPort : Duplex.Port ClientEvent ClientOutput UInt8 where
  takes
    | .readSome _ bytes => bytes
    | _ => []
  puts
    | .sent bytes => bytes
    | _ => []

/-- The client, the session, and the two directions of the TLS stream between them. -/
abbrev Echo := Duplex.State Client Session UInt8

/-- What can happen at the client or at the session. -/
abbrev EchoEvent := ClientEvent ⊕ SessionEvent

/-- The outputs of the client and of the session. -/
abbrev EchoOutput := ClientOutput ⊕ SessionOutput

/-- The effect of an event, or `none` if it is impossible. -/
def Echo.step : Echo → EchoEvent → Option (Echo × List EchoOutput) :=
  Duplex.step Client.step Session.step clientPort sessionPort

/-- Both sides after the handshake. -/
def Echo.start (content content' content'' input : Bytes) : Echo :=
  ⟨Client.sendRequest content content' input, Session.start content'', [], []⟩

end Ssl

end AsioStudy
