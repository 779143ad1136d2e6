import AsioStudy.Cpp.Text

/-!
# Chat messages

The class `chat_message`: an array of 516 bytes, of which the first four are the header, and the
length of the body.  The array is not initialised by the constructor.

`frame` is what a message with a given body looks like on the wire: its length in decimal, padded
with blanks to four characters, and the body.
-/

namespace AsioStudy

namespace Chat

/-- `chat_message::header_length`. -/
def headerLength : ℕ := 4

/-- `chat_message::max_body_length`. -/
def maxBodyLength : ℕ := 512

/-- The class `chat_message`. -/
structure ChatMessage where
  /-- The array `data_`. -/
  data : Bytes
  /-- The member `body_length_`, a `std::size_t`. -/
  bodyLength : ℕ
  deriving DecidableEq, Repr

/-- The constructor, with the bytes that happen to be in the array. -/
def ChatMessage.new (content : Bytes) : ChatMessage := ⟨content, 0⟩

/-- `length()`. -/
def ChatMessage.length (m : ChatMessage) : ℕ := headerLength + m.bodyLength

/-- The setter `body_length(new_length)`. -/
def ChatMessage.setBodyLength (m : ChatMessage) (newLength : ℕ) : ChatMessage :=
  { m with bodyLength := if newLength > maxBodyLength then maxBodyLength else newLength }

/-- `decode_header()`. -/
def ChatMessage.decodeHeader (m : ChatMessage) : Bool × ChatMessage :=
  -- `strncat` copies the header up to the first NUL
  let header := cString (m.data.take headerLength)
  let bodyLength := toSizeT (atoi header)
  if bodyLength > maxBodyLength then (false, { m with bodyLength := 0 })
  else (true, { m with bodyLength := bodyLength })

/-- `encode_header()`. -/
def ChatMessage.encodeHeader (m : ChatMessage) : ChatMessage :=
  { m with
    data := overwrite m.data 0 ((printInt4 (sizeToInt m.bodyLength)).take headerLength) }

/-- Bytes are copied to `body()`. -/
def ChatMessage.copyBody (m : ChatMessage) (bytes : Bytes) : ChatMessage :=
  { m with data := overwrite m.data headerLength bytes }

/-- Bytes are copied to `data()`. -/
def ChatMessage.copyHeader (m : ChatMessage) (bytes : Bytes) : ChatMessage :=
  { m with data := overwrite m.data 0 bytes }

/-- The bytes of the body: `body_length()` bytes from `body()`. -/
def ChatMessage.bodyBytes (m : ChatMessage) : Bytes :=
  (m.data.drop headerLength).take m.bodyLength

/-- The bytes that are written for a message: `length()` bytes from `data()`. -/
def ChatMessage.wire (m : ChatMessage) : Bytes := m.data.take m.length

/-- A message that a client builds from the bytes of a body, as `main` of `chat_client` does. -/
def ChatMessage.ofBody (content body : Bytes) : ChatMessage :=
  let msg := (ChatMessage.new content).setBodyLength body.length
  let msg := msg.copyBody (body.take msg.bodyLength)
  msg.encodeHeader

/-! ## Frames -/

/-- The header of a body of the given length. -/
def header (n : ℕ) : Bytes := printInt4 n

/-- A body with its header. -/
def frame (body : Bytes) : Bytes := header body.length ++ body

/-- A header has blanks before the digits. -/
lemma header_eq (n : ℕ) :
    header n = List.replicate (4 - (decimal n).length) (ch ' ') ++ decimal n := by
  have hnot : ¬ ((n : ℤ) < 0) := by omega
  simp [header, printInt4, hnot]

/-- A header has four characters. -/
lemma length_header {n : ℕ} (h : n ≤ maxBodyLength) : (header n).length = headerLength := by
  have hmax : n < 10 ^ 3 := by
    unfold maxBodyLength at h
    omega
  have hlen : (decimal n).length ≤ 3 := length_decimal_le hmax
  rw [header_eq, List.length_append, List.length_replicate]
  unfold headerLength
  omega

/-- There is no NUL in a header. -/
lemma zero_notMem_header (n : ℕ) : 0 ∉ header n := by
  rw [header_eq, List.mem_append, not_or]
  refine ⟨?_, ?_⟩
  · intro h
    have hblank := List.eq_of_mem_replicate h
    revert hblank
    decide
  · intro h
    have hdigit := isDigit_of_mem_decimal h
    revert hdigit
    decide

/-- A header is a C string. -/
lemma cString_header (n : ℕ) : cString (header n) = header n :=
  cString_eq_self_iff.mpr (zero_notMem_header n)

/-- A frame is four bytes longer than its body. -/
lemma length_frame {body : Bytes} (h : body.length ≤ maxBodyLength) :
    (frame body).length = headerLength + body.length := by
  rw [frame, List.length_append, length_header h]

/-- Decoding the header of a body gives the length of the body. -/
lemma decodeHeader_of_header {m : ChatMessage} {n : ℕ} (h : n ≤ maxBodyLength)
    (hdata : m.data.take headerLength = header n) :
    m.decodeHeader = (true, { m with bodyLength := n }) := by
  have hsize : toSizeT (atoi (header n)) = n := by
    rw [header_eq, atoi_blanks_decimal]
    apply toSizeT_natCast
    unfold maxBodyLength at h
    omega
  unfold ChatMessage.decodeHeader
  rw [hdata, cString_header]
  simp only [hsize]
  rw [if_neg (Nat.not_lt.mpr h)]

/-- A header that was copied to the beginning of a message. -/
lemma take_copyHeader (m : ChatMessage) {n : ℕ} (h : n ≤ maxBodyLength) :
    (m.copyHeader (header n)).data.take headerLength = header n := by
  have htake := take_drop_overwrite (Nat.zero_le m.data.length) (header n)
  rw [List.drop_zero, length_header h] at htake
  exact htake

/-- The message with a given header and body has the frame of the body on the wire. -/
lemma wire_of_header_of_body {m : ChatMessage} {body : Bytes}
    (hheader : m.data.take headerLength = header body.length)
    (hbody : (m.data.drop headerLength).take body.length = body)
    (hlength : m.bodyLength = body.length) : m.wire = frame body ∧ m.bodyBytes = body := by
  refine ⟨?_, by rw [ChatMessage.bodyBytes, hlength, hbody]⟩
  rw [ChatMessage.wire, ChatMessage.length, hlength, List.take_add, hheader, hbody, frame]

/-- What a client writes for a body is its frame. -/
lemma wire_ofBody {content body : Bytes} (hcontent : content.length = 516)
    (h : body.length ≤ maxBodyLength) :
    (ChatMessage.ofBody content body).wire = frame body ∧
      (ChatMessage.ofBody content body).bodyBytes = body := by
  have hlen : (ChatMessage.new content).setBodyLength body.length =
      ⟨content, body.length⟩ := by
    unfold ChatMessage.setBodyLength
    rw [if_neg (Nat.not_lt.mpr h)]
    rfl
  have hint : printInt4 (sizeToInt body.length) = header body.length := by
    have hmax : body.length < 2147483648 := by
      unfold maxBodyLength at h
      omega
    rw [sizeToInt_of_lt hmax, header]
  have hheader : (header body.length).take headerLength = header body.length := by
    rw [List.take_of_length_le (le_of_eq (length_header h))]
  have hmsg : ChatMessage.ofBody content body =
      ⟨overwrite (overwrite content headerLength body) 0 (header body.length), body.length⟩ := by
    unfold ChatMessage.ofBody
    rw [hlen]
    simp only [ChatMessage.copyBody, ChatMessage.encodeHeader, List.take_length, hint, hheader]
  have hpos : headerLength ≤ content.length := by
    rw [hcontent]
    decide
  rw [hmsg]
  refine wire_of_header_of_body (take_copyHeader ⟨_, 0⟩ h) ?_ rfl
  -- the header is written before the body
  have hdrop : (overwrite (overwrite content headerLength body) 0 (header body.length)).drop
      headerLength = (overwrite content headerLength body).drop headerLength := by
    have hdropLen := length_header h
    rw [overwrite, List.take_zero, List.nil_append, Nat.zero_add, List.drop_append_of_le_length
      (le_of_eq hdropLen.symm), List.drop_of_length_le (le_of_eq hdropLen), List.nil_append,
      hdropLen]
  rw [hdrop]
  exact take_drop_overwrite hpos body

end Chat

end AsioStudy
