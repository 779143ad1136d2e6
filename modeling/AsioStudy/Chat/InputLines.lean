import AsioStudy.Chat.Message
import AsioStudy.Cpp.InputStream

/-!
# The lines of a chat client

The loop in `main` of `chat_client`: it reads lines into an array of 513 bytes and makes a message
of each.  The body of the message is as long as `strlen` says, and the loop ends when `getline`
fails.

A line that is too long makes `getline` fail, so that neither this line nor a later one is sent; and
a line with a NUL is cut there.  `sendsLines_iff`: the loop sends what it should exactly if there is
no such line.
-/

namespace AsioStudy

namespace Chat

namespace ChatClient

/-! ## The loop -/

/-- What an iteration makes of the array `line`: a new message, in whose array there are some bytes,
with the characters up to the first NUL. -/
def messageOf (content line : Bytes) : ChatMessage :=
  let strlen := (cString line).length
  let msg := (ChatMessage.new content).setBodyLength strlen
  let msg := msg.copyBody (line.take msg.bodyLength)
  msg.encodeHeader

/-- The loop, from an iteration on: the messages that it hands to `write`.  `contents` are the bytes
that happen to be in the messages, and `line` is what there is in the array. -/
def sendLines (contents : ℕ → Vector UInt8 516) (i : ℕ) (line : Bytes) (stream : InputStream) :
    List ChatMessage :=
  if h : (stream.getline (maxBodyLength + 1)).2.failbit = true then []
  else
    let stored := (stream.getline (maxBodyLength + 1)).1
    let line := overwrite line 0 (stored ++ [0])
    messageOf (contents i).toList line ::
      sendLines contents (i + 1) line (stream.getline (maxBodyLength + 1)).2
termination_by stream.rest.length
decreasing_by exact InputStream.length_rest_getline_lt (eq_false_of_ne_true h)

/-- Standard input that consists of lines, each ended by a newline. -/
def inputOf (lines : List Bytes) : InputStream := .ofBytes (lines.flatMap (· ++ [ch '\n']))

/-! ## One line -/

/-- The message has the first 512 bytes of the line as its body, and its header encodes their
number. -/
structure CarriesLine (msg : ChatMessage) (line : Bytes) : Prop where
  /-- The length of the body. -/
  bodyLength_eq : msg.bodyLength = min line.length maxBodyLength
  /-- The body. -/
  bodyBytes_eq : msg.bodyBytes = line.take maxBodyLength
  /-- The header. -/
  header_eq : msg.data.take headerLength = header (min line.length maxBodyLength)

/-- A C string ends within the array when a NUL was stored. -/
lemma cString_overwrite {line : Bytes} (stored : Bytes) :
    cString (overwrite line 0 (stored ++ [0])) = cString stored := by
  rw [overwrite, List.take_zero, List.nil_append, List.append_assoc]
  exact cString_append_zero stored _

/-- The message is made of the C string in the array. -/
lemma messageOf_eq_ofBody (content line : Bytes) :
    messageOf content line = ChatMessage.ofBody content (cString line) := by
  obtain ⟨t, ht⟩ := cString_isPrefix line
  have htake : ∀ n, n ≤ (cString line).length → line.take n = (cString line).take n := by
    intro n hn
    conv_lhs => rw [← ht]
    exact List.take_append_of_le_length hn
  have hle : ((ChatMessage.new content).setBodyLength (cString line).length).bodyLength ≤
      (cString line).length := by
    simp only [ChatMessage.setBodyLength]
    split_ifs with hlong
    · exact le_of_lt hlong
    · exact le_rfl
  simp only [messageOf, ChatMessage.ofBody, htake _ hle]

/-- A message that is made of a short line carries this line exactly if there is no NUL in it. -/
lemma carriesLine_ofBody_iff (content : Vector UInt8 516) {line : Bytes}
    (h : line.length ≤ maxBodyLength) :
    CarriesLine (ChatMessage.ofBody content.toList (cString line)) line ↔ 0 ∉ line := by
  have hcontent : content.toList.length = 516 := Vector.length_toList
  have hle : (cString line).length ≤ maxBodyLength := (cString_isPrefix line).length_le.trans h
  obtain ⟨hwire, hbody⟩ := wire_ofBody hcontent hle
  constructor
  · intro hcarries
    have heq := hcarries.bodyBytes_eq
    rw [hbody, List.take_of_length_le h] at heq
    exact cString_eq_self_iff.mp heq
  · intro hnul
    rw [cString_eq_self_iff.mpr hnul] at hwire hbody ⊢
    refine ⟨?_, ?_, ?_⟩
    · rw [Nat.min_eq_left h]
      exact if_neg (Nat.not_lt.mpr h)
    · rw [hbody, List.take_of_length_le h]
    · -- the header is the first part of what is written
      have htake := congrArg (List.take headerLength) hwire
      rw [ChatMessage.wire, List.take_take, ChatMessage.length,
        Nat.min_eq_left (Nat.le_add_right _ _), frame,
        List.take_append_of_le_length (length_header h).ge,
        List.take_of_length_le (length_header h).le] at htake
      rw [htake, Nat.min_eq_left h]

/-- The loop on a line. -/
lemma sendLines_inputOf_cons (contents : ℕ → Vector UInt8 516) (i : ℕ) (array : Bytes)
    {line : Bytes} (h : ch '\n' ∉ line) (lines : List Bytes) :
    sendLines contents i array (inputOf (line :: lines)) =
      if line.length ≤ maxBodyLength then
        ChatMessage.ofBody (contents i).toList (cString line) ::
          sendLines contents (i + 1) (overwrite array 0 (line ++ [0])) (inputOf lines)
      else [] := by
  have hinput : inputOf (line :: lines) =
      .ofBytes (line ++ ch '\n' :: lines.flatMap (· ++ [ch '\n'])) := by
    simp [inputOf]
  have hline := InputStream.getline_append h (maxBodyLength + 1) (lines.flatMap (· ++ [ch '\n']))
  rw [← hinput, Nat.add_sub_cancel] at hline
  rw [sendLines]
  by_cases hfits : line.length ≤ maxBodyLength
  · rw [if_pos hfits] at hline ⊢
    rw [dif_neg (by rw [hline]; exact Bool.false_ne_true)]
    simp only [hline, messageOf_eq_ofBody, cString_overwrite]
    rfl
  · rw [if_neg hfits] at hline ⊢
    rw [dif_pos (by rw [hline])]

/-- The loop at the end of the input. -/
lemma sendLines_inputOf_nil (contents : ℕ → Vector UInt8 516) (i : ℕ) (array : Bytes) :
    sendLines contents i array (inputOf []) = [] := by
  have hfail : ((inputOf []).getline (maxBodyLength + 1)).2.failbit = true :=
    InputStream.failbit_getline_nil _
  rw [sendLines, dif_pos hfail]

/-! ## All lines -/

/-- From any iteration on, the loop sends what it should exactly if the lines to come are as they
should be. -/
lemma forall₂_sendLines_iff (contents : ℕ → Vector UInt8 516) (i : ℕ) (array : Bytes)
    {lines : List Bytes} (hlines : ∀ line ∈ lines, ch '\n' ∉ line) :
    List.Forall₂ CarriesLine (sendLines contents i array (inputOf lines)) lines ↔
      ∀ line ∈ lines, line.length ≤ maxBodyLength ∧ 0 ∉ line := by
  induction lines generalizing i array with
  | nil =>
    rw [sendLines_inputOf_nil]
    exact iff_of_true List.Forall₂.nil (List.forall_mem_nil _)
  | cons line lines ih =>
    obtain ⟨hline, hrest⟩ := List.forall_mem_cons.mp hlines
    rw [sendLines_inputOf_cons contents i array hline, List.forall_mem_cons]
    by_cases hfits : line.length ≤ maxBodyLength
    · rw [if_pos hfits, List.forall₂_cons, carriesLine_ofBody_iff (contents i) hfits, ih _ _ hrest]
      exact and_congr_left fun _ => (and_iff_right hfits).symm
    · -- the loop ends, and the line is not sent
      rw [if_neg hfits]
      exact iff_of_false (fun h => by cases h) fun h => hfits h.1.1

/-- **Lines of a client.**  For every input that consists of lines, the loop hands over one message
for each line, with the first 512 bytes of the line and their number, if and only if no line has
more than 512 bytes and no line contains a NUL. -/
theorem sendsLines_iff (contents : ℕ → Vector UInt8 516) (array : Vector UInt8 513)
    {lines : List Bytes} (hlines : ∀ line ∈ lines, ch '\n' ∉ line) :
    List.Forall₂ CarriesLine (sendLines contents 0 array.toList (inputOf lines)) lines ↔
      ∀ line ∈ lines, line.length ≤ maxBodyLength ∧ 0 ∉ line :=
  forall₂_sendLines_iff contents 0 array.toList hlines

/-- Two lines that are sent, the first of which is empty. -/
theorem sendsLines_short :
    List.Forall₂ CarriesLine
      (sendLines (fun _ => Vector.replicate 516 0) 0 (Vector.replicate 513 0).toList
        (inputOf [[], bytes "hello"])) [[], bytes "hello"] :=
  (sendsLines_iff (fun _ => Vector.replicate 516 0) (Vector.replicate 513 0) (by decide)).mpr
    (by decide)

/-- After a line of 513 characters, nothing is sent any more. -/
theorem not_sendsLines_after_long_line :
    ¬ List.Forall₂ CarriesLine
      (sendLines (fun _ => Vector.replicate 516 0) 0 (Vector.replicate 513 0).toList
        (inputOf [List.replicate 513 (ch 'a'), bytes "hello"]))
      [List.replicate 513 (ch 'a'), bytes "hello"] := by
  have hline : ch '\n' ∉ List.replicate 513 (ch 'a') := by
    intro hmem
    exact absurd (List.eq_of_mem_replicate hmem) (by decide)
  rw [sendLines_inputOf_cons _ _ _ hline, if_neg (by rw [List.length_replicate]; decide)]
  intro h
  cases h

end ChatClient

end Chat

end AsioStudy
