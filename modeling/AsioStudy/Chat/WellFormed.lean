import AsioStudy.Chat.ReadLoop

/-!
# What a chat session accepts

A session reads a header with `atoi` and leaves the room when the number is greater than 512.
`LenientHeader` describes the four bytes that are accepted in this way.  All headers that
`encode_header` writes are among them, but there are others: `atoi` skips blanks, allows a sign and
leading zeros, ignores what follows the digits, and takes a text without digits for zero.

`ChatSession.receive` is what a session makes of the bytes that have arrived.  It delivers the
longest run of well-formed frames at the beginning of the stream, and it leaves the room at the
first header that is not well-formed, if and only if that header is not a lenient one.
-/

namespace AsioStudy

namespace Chat

/-! ## Headers -/

/-- Four bytes that `encode_header` writes. -/
def IsHeader (h : Bytes) : Prop := ∃ n ≤ maxBodyLength, h = header n

/-- A header that is accepted: up to the first NUL it consists of blanks, a sign or none, digits or
none, and anything else, and the digits are worth at most 512, or nothing after a minus. -/
def LenientHeader (h : Bytes) : Prop :=
  ∃ blanks text digits rest : Bytes, cString h = blanks ++ text ∧
    (∀ b ∈ blanks, isSpace b = true) ∧ (∀ c, text.head? = some c → isSpace c = false) ∧
    (∀ b ∈ digits, IsDigit b) ∧ (∀ c, rest.head? = some c → ¬ IsDigit c) ∧
    ((text = ch '-' :: (digits ++ rest) ∧ decimalValue digits = 0) ∨
      (text = ch '+' :: (digits ++ rest) ∧ decimalValue digits ≤ maxBodyLength) ∨
      (text = digits ++ rest ∧ text.head? ≠ some (ch '-') ∧ text.head? ≠ some (ch '+') ∧
        decimalValue digits ≤ maxBodyLength))

/-- The blanks at the beginning are skipped. -/
lemma dropWhile_isSpace_append {blanks text : Bytes} (hblanks : ∀ b ∈ blanks, isSpace b = true)
    (htext : ∀ c, text.head? = some c → isSpace c = false) :
    (blanks ++ text).dropWhile isSpace = text := by
  rw [List.dropWhile_append_of_pos hblanks]
  cases text with
  | nil => rfl
  | cons c t => exact List.dropWhile_cons_of_neg (by simp [htext c rfl])

/-- A text is its leading digits and a rest that does not begin with a digit. -/
lemma exists_leadingDigits_append (s : Bytes) :
    ∃ rest, s = leadingDigits s ++ rest ∧ (∀ b ∈ leadingDigits s, IsDigit b) ∧
      ∀ c, rest.head? = some c → ¬ IsDigit c := by
  refine ⟨_, List.takeWhile_append_dropWhile.symm, fun b hb => isDigit_of_mem_leadingDigits hb,
    fun c hc => ?_⟩
  have hnot := List.head?_dropWhile_not (fun c => decide (IsDigit c)) s
  rw [hc] at hnot
  exact of_decide_eq_false hnot

/-- In a lenient header `atoi` reads a number from 0 to 512. -/
lemma LenientHeader.atoi_bounds {h : Bytes} (hh : LenientHeader h) :
    0 ≤ atoi (cString h) ∧ atoi (cString h) ≤ maxBodyLength := by
  obtain ⟨blanks, text, digits, rest, hsplit, hblanks, htext, hdigits, hrest, hnumber⟩ := hh
  have hdrop := dropWhile_isSpace_append hblanks htext
  have hleading := leadingDigits_append hdigits hrest
  rw [hsplit]
  unfold atoi
  rw [hdrop]
  rcases hnumber with ⟨rfl, hvalue⟩ | ⟨rfl, hvalue⟩ | ⟨rfl, hminus, hplus, hvalue⟩
  · simp only [if_true, hleading, hvalue]
    decide
  · have hne : ch '+' ≠ ch '-' := by decide
    simp only [if_neg hne, if_true, hleading]
    omega
  · cases hcons : digits ++ rest with
    | nil => exact ⟨le_refl 0, Int.natCast_nonneg _⟩
    | cons c t =>
      rw [hcons] at hminus hplus
      have hc : c ≠ ch '-' ∧ c ≠ ch '+' :=
        ⟨fun heq => hminus (by rw [heq]; rfl), fun heq => hplus (by rw [heq]; rfl)⟩
      simp only [if_neg hc.1, if_neg hc.2, ← hcons, hleading]
      omega

/-- A header in which `atoi` reads a number from 0 to 512 is lenient: its blanks, its sign and its
leading digits are the parts. -/
lemma lenientHeader_of_atoi {h : Bytes} (hpos : 0 ≤ atoi (cString h))
    (hle : atoi (cString h) ≤ maxBodyLength) : LenientHeader h := by
  have hsplit : cString h = (cString h).takeWhile isSpace ++ (cString h).dropWhile isSpace :=
    List.takeWhile_append_dropWhile.symm
  have hblanks : ∀ b ∈ (cString h).takeWhile isSpace, isSpace b = true :=
    fun b hb => List.mem_takeWhile_imp hb
  have htext : ∀ c, ((cString h).dropWhile isSpace).head? = some c → isSpace c = false := by
    intro c hc
    have hnot := List.head?_dropWhile_not isSpace (cString h)
    rw [hc] at hnot
    exact hnot
  unfold atoi at hpos hle
  cases hcons : (cString h).dropWhile isSpace with
  | nil =>
    exact ⟨_, _, [], [], hsplit, hblanks, htext, by simp, by simp,
      Or.inr (Or.inr ⟨hcons, by simp [hcons], by simp [hcons], Nat.zero_le _⟩)⟩
  | cons c t =>
    rw [hcons] at hpos hle
    simp only at hpos hle
    split_ifs at hpos hle with hminus hplus
    · obtain ⟨rest, heq, hdigits, hrest⟩ := exists_leadingDigits_append t
      refine ⟨_, _, _, rest, hsplit, hblanks, htext, hdigits, hrest, Or.inl ⟨?_, by omega⟩⟩
      rw [hcons, hminus, ← heq]
    · obtain ⟨rest, heq, hdigits, hrest⟩ := exists_leadingDigits_append t
      refine ⟨_, _, _, rest, hsplit, hblanks, htext, hdigits, hrest,
        Or.inr (Or.inl ⟨?_, by omega⟩)⟩
      rw [hcons, hplus, ← heq]
    · obtain ⟨rest, heq, hdigits, hrest⟩ := exists_leadingDigits_append (c :: t)
      refine ⟨_, _, _, rest, hsplit, hblanks, htext, hdigits, hrest,
        Or.inr (Or.inr ⟨?_, ?_, ?_, by omega⟩)⟩
      · rw [hcons, ← heq]
      · rw [hcons]
        simpa using hminus
      · rw [hcons]
        simpa using hplus

/-- A lenient header is one in which `atoi` reads a number from 0 to 512. -/
lemma lenientHeader_iff {h : Bytes} :
    LenientHeader h ↔ 0 ≤ atoi (cString h) ∧ atoi (cString h) ≤ maxBodyLength :=
  ⟨LenientHeader.atoi_bounds, fun hbounds => lenientHeader_of_atoi hbounds.1 hbounds.2⟩

instance (h : Bytes) : Decidable (LenientHeader h) := decidable_of_iff _ lenientHeader_iff.symm

/-- `decode_header` succeeds exactly on the lenient headers. -/
lemma decodeHeader_eq_true_iff (m : ChatMessage) :
    m.decodeHeader.1 = true ↔ LenientHeader (m.data.take headerLength) := by
  have hlen : (cString (m.data.take headerLength)).length ≤ 4 :=
    le_trans (cString_isPrefix _).length_le (List.length_take_le _ _)
  have hsize := toSizeT_le_iff (m := maxBodyLength)
    (lt_trans (natAbs_atoi_lt hlen) (by decide)) (by decide)
  rw [lenientHeader_iff, ← hsize]
  unfold ChatMessage.decodeHeader
  simp only
  split_ifs with hgreater
  · simpa using hgreater
  · simpa using hgreater

/-- The headers that `encode_header` writes are lenient. -/
lemma IsHeader.lenient {h : Bytes} (hh : IsHeader h) : LenientHeader h := by
  obtain ⟨n, hn, rfl⟩ := hh
  rw [lenientHeader_iff, cString_header, header_eq, atoi_blanks_decimal]
  omega

/-- `encode_header` restores the header from which the length was decoded: a successful
`decode_header` finds one that `encode_header` writes, and writing it again changes nothing. -/
def ChatMessage.RestoresHeader (m : ChatMessage) : Prop :=
  m.decodeHeader.1 = true →
    IsHeader (m.data.take headerLength) ∧ m.decodeHeader.2.encodeHeader.data = m.data

/-- A header is restored if and only if it is well-formed or not accepted. -/
lemma restoresHeader_iff (m : ChatMessage) :
    m.RestoresHeader ↔
      (LenientHeader (m.data.take headerLength) → IsHeader (m.data.take headerLength)) := by
  unfold ChatMessage.RestoresHeader
  rw [decodeHeader_eq_true_iff]
  refine forall_congr' fun _ => ⟨fun h => h.1, fun hh => ⟨hh, ?_⟩⟩
  obtain ⟨n, hn, hdata⟩ := hh
  have hint : sizeToInt n = n := sizeToInt_of_lt (lt_of_le_of_lt hn (by decide))
  have htake : (header n).take headerLength = header n :=
    List.take_of_length_le (le_of_eq (length_header hn))
  rw [decodeHeader_of_header hn hdata]
  simp only [ChatMessage.encodeHeader, hint]
  rw [← header, htake, overwrite, List.take_zero, List.nil_append, Nat.zero_add, length_header hn,
    ← hdata, List.take_append_drop]

/-! ## The longest run of frames -/

/-- The bodies can be sent as frames. -/
def Sendable (bodies : List Bytes) : Prop := ∀ body ∈ bodies, body.length ≤ maxBodyLength

/-- The frames of these bodies are the longest concatenation of well-formed frames with which the
stream begins. -/
structure LongestFramed (stream : Bytes) (bodies : List Bytes) : Prop where
  /-- The bodies are not too long. -/
  sendable : Sendable bodies
  /-- The stream begins with the frames. -/
  isPrefix : frames bodies <+: stream
  /-- No longer prefix of the stream is made of frames. -/
  longest : ∀ others, Sendable others → frames others <+: stream →
    (frames others).length ≤ (frames bodies).length

/-- Every stream has a longest run of frames at its beginning. -/
lemma exists_longestFramed (stream : Bytes) : ∃ bodies, LongestFramed stream bodies := by
  classical
  let P : ℕ → Prop := fun n =>
    ∃ bodies, Sendable bodies ∧ frames bodies <+: stream ∧ (frames bodies).length = n
  have hzero : P 0 := ⟨[], by simp [Sendable], List.nil_prefix, rfl⟩
  obtain ⟨bodies, hsendable, hpre, hlen⟩ : P (Nat.findGreatest P stream.length) :=
    Nat.findGreatest_spec (Nat.zero_le _) hzero
  refine ⟨bodies, hsendable, hpre, fun others hothers hframes => ?_⟩
  rw [hlen]
  exact Nat.le_findGreatest hframes.length_le ⟨others, hothers, hframes, rfl⟩

/-- The header of a body tells its length. -/
lemma header_injective {m n : ℕ} (h : header m = header n) : m = n := by
  have hread : atoi (header m) = atoi (header n) := by rw [h]
  rw [header_eq, header_eq, atoi_blanks_decimal, atoi_blanks_decimal] at hread
  exact_mod_cast hread

/-- A frame at the beginning of a stream is determined by the stream. -/
lemma frame_append_injective {body body' s s' : Bytes} (hbody : body.length ≤ maxBodyLength)
    (hbody' : body'.length ≤ maxBodyLength) (h : frame body ++ s = frame body' ++ s') :
    body = body' ∧ s = s' := by
  simp only [frame, List.append_assoc] at h
  obtain ⟨hheader, htail⟩ := List.append_inj h
    ((length_header hbody).trans (length_header hbody').symm)
  exact List.append_inj htail (header_injective hheader)

/-- Different bodies have different frames. -/
lemma frames_injective {bodies others : List Bytes} (hbodies : Sendable bodies)
    (hothers : Sendable others) (h : frames bodies = frames others) : bodies = others := by
  have hcons : ∀ (body : Bytes) rest, frames (body :: rest) = frame body ++ frames rest :=
    fun _ _ => rfl
  have hne : ∀ (body : Bytes) rest, Sendable (body :: rest) → frames (body :: rest) ≠ [] := by
    intro body rest hrest hnil
    have hlen := length_frame (hrest body List.mem_cons_self)
    rw [hcons, List.append_eq_nil_iff] at hnil
    rw [hnil.1] at hlen
    rw [List.length_nil] at hlen
    unfold headerLength at hlen
    omega
  induction bodies generalizing others with
  | nil =>
    cases others with
    | nil => rfl
    | cons other rest => exact absurd h.symm (hne other rest hothers)
  | cons body bodies ih =>
    cases others with
    | nil => exact absurd h (hne body bodies hbodies)
    | cons other others =>
      obtain ⟨rfl, hrest⟩ := frame_append_injective (hbodies body List.mem_cons_self)
        (hothers other List.mem_cons_self) h
      rw [ih (fun b hb => hbodies b (List.mem_cons_of_mem _ hb))
        (fun b hb => hothers b (List.mem_cons_of_mem _ hb)) hrest]

/-- There is only one longest run of frames. -/
lemma LongestFramed.unique {stream : Bytes} {bodies others : List Bytes}
    (h : LongestFramed stream bodies) (h' : LongestFramed stream others) : bodies = others := by
  have hle := h.longest others h'.sendable h'.isPrefix
  have hle' := h'.longest bodies h.sendable h.isPrefix
  apply frames_injective h.sendable h'.sendable
  exact (List.prefix_of_prefix_length_le h.isPrefix h'.isPrefix hle').eq_of_length
    (le_antisymm hle' hle)

/-- Behind the longest run of frames there is no further frame. -/
lemma LongestFramed.not_frame {stream s : Bytes} {bodies : List Bytes}
    (h : LongestFramed stream bodies) (hstream : stream = frames bodies ++ s) (body t : Bytes)
    (hbody : body.length ≤ maxBodyLength) : s ≠ frame body ++ t := by
  rintro rfl
  have hframes : frames (bodies ++ [body]) = frames bodies ++ frame body := by
    simp [frames]
  have hsendable : Sendable (bodies ++ [body]) := by
    intro b hb
    rcases List.mem_append.mp hb with hb | hb
    · exact h.sendable b hb
    · rw [List.mem_singleton.mp hb]
      exact hbody
  have hle := h.longest _ hsendable ⟨t, by rw [hframes, hstream, List.append_assoc]⟩
  have hlen := length_frame hbody
  rw [hframes, List.length_append, hlen] at hle
  unfold headerLength at hle
  omega

/-! ## What a session makes of a stream -/

/-- The outcome of receiving some bytes. -/
structure Received where
  /-- The read side afterwards. -/
  loop : ReadLoop
  /-- What the handlers have done. -/
  outputs : List ReadOutput
  /-- The bytes that no completed read has taken. -/
  rest : Bytes
  deriving DecidableEq, Repr

/-- An outcome, before which other handlers have run. -/
def Received.after (outputs : List ReadOutput) (later : Received) : Received :=
  { later with outputs := outputs ++ later.outputs }

/-- The outputs come in the order of the handlers. -/
lemma Received.after_after (first second : List ReadOutput) (later : Received) :
    (later.after second).after first = later.after (first ++ second) := by
  simp only [Received.after, List.append_assoc]

/-- At most one of the two reads of a message is complete. -/
lemma ReadPhase.begun_le_one (q : ReadPhase) : q.begun ≤ 1 := by
  cases q <;> decide

/-- A completed read brings the loop on: either it takes bytes, or it completes a message. -/
lemma readHandler_decreases {r : ReadLoop} {stream : Bytes} (hphase : r.phase ≠ .stopped)
    (hwanted : r.wanted ≤ stream.length) :
    2 * (stream.drop r.wanted).length +
        (ChatSession.readHandler r true (stream.take r.wanted)).1.phase.begun <
      2 * stream.length + r.phase.begun := by
  obtain ⟨msg, phase⟩ := r
  rw [List.length_drop]
  cases phase with
  | stopped => exact absurd rfl hphase
  | readBody =>
    simp only [ReadLoop.wanted] at hwanted
    simp only [ChatSession.readHandler, ReadLoop.handler, ReadLoop.bodyHandler, if_true,
      ReadLoop.wanted, ReadPhase.begun]
    omega
  | readHeader =>
    have hfour : headerLength ≤ stream.length := hwanted
    have hle := ReadPhase.begun_le_one (ChatSession.readHandler ⟨msg, .readHeader⟩ true
      (stream.take headerLength)).1.phase
    unfold headerLength at hfour
    simp only [ReadLoop.wanted]
    unfold headerLength at hle ⊢
    omega

/-- A stream arrives at a session: as long as there are as many bytes as the outstanding
`async_read` asks for, it completes with them and its handler runs. -/
def ChatSession.receive (r : ReadLoop) (stream : Bytes) : Received :=
  if _h : r.phase ≠ .stopped ∧ r.wanted ≤ stream.length then
    let next := ChatSession.readHandler r true (stream.take r.wanted)
    (ChatSession.receive next.1 (stream.drop r.wanted)).after next.2
  else ⟨r, [], stream⟩
termination_by 2 * stream.length + r.phase.begun
decreasing_by
  exact readHandler_decreases _h.1 _h.2

/-- As long as the outstanding read can complete, it does. -/
lemma receive_of_wanted_le {r : ReadLoop} {stream : Bytes} (hphase : r.phase ≠ .stopped)
    (hwanted : r.wanted ≤ stream.length) :
    ChatSession.receive r stream =
      (ChatSession.receive (ChatSession.readHandler r true (stream.take r.wanted)).1
        (stream.drop r.wanted)).after
          (ChatSession.readHandler r true (stream.take r.wanted)).2 := by
  conv_lhs => unfold ChatSession.receive
  exact dif_pos ⟨hphase, hwanted⟩

/-- When the outstanding read cannot complete, or there is none, nothing happens. -/
lemma receive_of_stuck {r : ReadLoop} {stream : Bytes}
    (h : ¬ (r.phase ≠ .stopped ∧ r.wanted ≤ stream.length)) :
    ChatSession.receive r stream = ⟨r, [], stream⟩ := by
  unfold ChatSession.receive
  exact dif_neg h

/-- **Bytes in two pieces.**  What a session makes of a stream does not depend on how it arrives:
it goes on with the bytes that it has not used. -/
lemma receive_append (r : ReadLoop) (first second : Bytes) :
    ChatSession.receive r (first ++ second) =
      (ChatSession.receive (ChatSession.receive r first).loop
        ((ChatSession.receive r first).rest ++ second)).after
          (ChatSession.receive r first).outputs := by
  induction r, first using ChatSession.receive.induct with
  | case1 r first h next ih =>
    have hwanted : r.wanted ≤ (first ++ second).length := by
      rw [List.length_append]
      exact le_trans h.2 (Nat.le_add_right _ _)
    have htake : (first ++ second).take r.wanted = first.take r.wanted :=
      List.take_append_of_le_length h.2
    have hdrop : (first ++ second).drop r.wanted = first.drop r.wanted ++ second :=
      List.drop_append_of_le_length h.2
    rw [receive_of_wanted_le h.1 hwanted, receive_of_wanted_le h.1 h.2, htake, hdrop, ih,
      Received.after_after]
    rfl
  | case2 r first h =>
    rw [receive_of_stuck h]
    rfl

/-- **Frames.**  A session that is about to read frames delivers their bodies, each with its frame,
and is then about to read a header. -/
lemma receive_of_reads (r : ReadLoop) (future : Bytes) (bodies : List Bytes)
    (h : r.Reads future bodies) :
    ∃ msgs : List ChatMessage,
      (ChatSession.receive r future).outputs = msgs.map ReadOutput.received ∧
      msgs.map ChatMessage.wire = bodies.map frame ∧
      (ChatSession.receive r future).loop.Reads [] [] ∧
      (ChatSession.receive r future).rest = [] := by
  induction r, future using ChatSession.receive.induct generalizing bodies with
  | case1 r future hread next ih =>
    rw [receive_of_wanted_le hread.1 hread.2]
    have hlen : (future.take r.wanted).length = r.wanted := List.length_take_of_le hread.2
    rw [← List.take_append_drop r.wanted future] at h
    obtain ⟨rest, msgs, hout, hbodies, hframe, hreads, -⟩ := h.handler .roomLeave hlen
    obtain ⟨later, hlater, hwires, hloop, hrest⟩ := ih rest hreads
    refine ⟨msgs ++ later, ?_, ?_, hloop, hrest⟩
    · rw [List.map_append, ← hlater, ← hout]
      rfl
    · have hmsgs : msgs.map ChatMessage.wire = (msgs.map ChatMessage.bodyBytes).map frame := by
        rw [List.map_map]
        exact List.map_congr_left hframe
      rw [List.map_append, hmsgs, hwires, hbodies, List.map_append]
  | case2 r future hstuck =>
    -- a read of frames gets stuck only when all of them have been read
    have hnil : bodies = [] := by
      by_contra hne
      exact hstuck ⟨h.phase_ne, h.wanted_le hne⟩
    subst hnil
    have hfuture : future = [] := by
      rcases h.future_eq with ⟨-, hfuture⟩ | ⟨body, rest, -, hbodies, -⟩
      · exact hfuture
      · cases hbodies
    subst hfuture
    rw [receive_of_stuck hstuck]
    exact ⟨[], rfl, rfl, h, rfl⟩

/-! ## The first header that is not well-formed -/

/-- The messages that are delivered to the room. -/
def passedOnMsgs (outputs : List ReadOutput) : List ChatMessage :=
  outputs.filterMap fun o =>
    match o with
    | .received msg => some msg
    | .reacted _ => none

/-- The messages of two stretches of handlers. -/
@[simp] lemma passedOnMsgs_append (first second : List ReadOutput) :
    passedOnMsgs (first ++ second) = passedOnMsgs first ++ passedOnMsgs second :=
  List.filterMap_append

/-- Messages that are passed on are delivered. -/
@[simp] lemma passedOnMsgs_map_received (msgs : List ChatMessage) :
    passedOnMsgs (msgs.map ReadOutput.received) = msgs := by
  rw [passedOnMsgs, List.filterMap_map]
  exact List.filterMap_some

/-- The session has left the room, it has done nothing since, and it has not read the bytes `t`. -/
structure Received.LeftBefore (q : Received) (t : Bytes) : Prop where
  /-- Nothing is read any more. -/
  stopped : q.loop.phase = .stopped
  /-- The last handler has left the room. -/
  left : q.outputs.getLast? = some (.reacted .roomLeave)
  /-- The bytes behind the header are unread. -/
  rest_eq : q.rest = t

/-- Messages delivered before do not matter for whether a session has left the room. -/
lemma leftBefore_after_iff {q : Received} {t : Bytes} (msgs : List ChatMessage) :
    (q.after (msgs.map ReadOutput.received)).LeftBefore t ↔ q.LeftBefore t := by
  have hlast : (msgs.map ReadOutput.received ++ q.outputs).getLast? = some (.reacted .roomLeave) ↔
      q.outputs.getLast? = some (.reacted .roomLeave) := by
    rw [List.getLast?_append]
    cases hq : q.outputs.getLast? with
    | some o => simp
    | none => simp [List.getLast?_map]
  constructor
  · intro h
    exact ⟨h.stopped, hlast.mp h.left, h.rest_eq⟩
  · intro h
    exact ⟨h.stopped, hlast.mpr h.left, h.rest_eq⟩

/-- A header that arrives is what `decode_header` decodes. -/
lemma take_copyHeader_of_length (m : ChatMessage) {h : Bytes} (hlen : h.length = headerLength) :
    (m.copyHeader h).data.take headerLength = h := by
  have htake := take_drop_overwrite (Nat.zero_le m.data.length) h
  rwa [List.drop_zero, hlen] at htake

/-- What a session that reads a header makes of a stream that contains it. -/
lemma receive_header {r : ReadLoop} {h t : Bytes} (hphase : r.phase = .readHeader)
    (hlen : h.length = headerLength) :
    ChatSession.receive r (h ++ t) =
      (ChatSession.receive (ChatSession.readHandler r true h).1 t).after
        (ChatSession.readHandler r true h).2 := by
  have hwanted : r.wanted = h.length := by
    rw [ReadLoop.wanted, hphase, hlen]
  have hne : r.phase ≠ .stopped := by
    rw [hphase]
    decide
  have hle : r.wanted ≤ (h ++ t).length := by
    rw [hwanted, List.length_append]
    exact Nat.le_add_right _ _
  rw [receive_of_wanted_le hne hle, hwanted, List.take_left, List.drop_left]

/-- A session leaves the room when a header is not lenient. -/
lemma receive_of_rejected {r : ReadLoop} {h : Bytes} (hphase : r.phase = .readHeader)
    (hlen : h.length = headerLength) (hreject : ¬ LenientHeader h) (t : Bytes) :
    (ChatSession.receive r (h ++ t)).LeftBefore t ∧
      passedOnMsgs (ChatSession.receive r (h ++ t)).outputs = [] := by
  have hdecode : (r.readMsg.copyHeader h).decodeHeader.1 = false := by
    rw [← Bool.not_eq_true, decodeHeader_eq_true_iff, take_copyHeader_of_length _ hlen]
    exact hreject
  have hhandler : ChatSession.readHandler r true h =
      (⟨(r.readMsg.copyHeader h).decodeHeader.2, .stopped⟩, [.reacted .roomLeave]) := by
    simp [ChatSession.readHandler, ReadLoop.handler, hphase, ReadLoop.headerHandler, hdecode]
  rw [receive_header hphase hlen, hhandler, receive_of_stuck (by simp)]
  exact ⟨⟨rfl, rfl, rfl⟩, rfl⟩

/-- A session goes on to read a body when a header is lenient. -/
lemma receive_of_accepted {r : ReadLoop} {h : Bytes} (hphase : r.phase = .readHeader)
    (hlen : h.length = headerLength) (haccept : LenientHeader h) (t : Bytes) :
    ChatSession.receive r (h ++ t) =
      ChatSession.receive ⟨(r.readMsg.copyHeader h).decodeHeader.2, .readBody⟩ t := by
  have hdecode : (r.readMsg.copyHeader h).decodeHeader.1 = true := by
    rw [decodeHeader_eq_true_iff, take_copyHeader_of_length _ hlen]
    exact haccept
  have hhandler : ChatSession.readHandler r true h =
      (⟨(r.readMsg.copyHeader h).decodeHeader.2, .readBody⟩, []) := by
    simp [ChatSession.readHandler, ReadLoop.handler, hphase, ReadLoop.headerHandler, hdecode]
  rw [receive_header hphase hlen, hhandler]
  rfl

/-- A session that reads a body delivers a message as soon as the body is there, and waits for it
until then. -/
lemma receive_body (m : ChatMessage) (t : Bytes) :
    (t.length < m.bodyLength ∧ ChatSession.receive ⟨m, .readBody⟩ t = ⟨⟨m, .readBody⟩, [], t⟩) ∨
      (m.bodyLength ≤ t.length ∧
        passedOnMsgs (ChatSession.receive ⟨m, .readBody⟩ t).outputs ≠ []) := by
  rcases Nat.lt_or_ge t.length m.bodyLength with hlt | hle
  · refine Or.inl ⟨hlt, receive_of_stuck ?_⟩
    simp only [ReadLoop.wanted, not_and, not_le]
    exact fun _ => hlt
  · refine Or.inr ⟨hle, ?_⟩
    have hphase : (⟨m, .readBody⟩ : ReadLoop).phase ≠ .stopped := ReadPhase.noConfusion
    rw [receive_of_wanted_le hphase hle]
    simp [Received.after, ChatSession.readHandler, ReadLoop.handler, ReadLoop.bodyHandler,
      passedOnMsgs]

/-- **Behind the frames.**  A session that is about to read a header, from a stream that does not
begin with a well-formed frame, delivers nothing and leaves the room at a header that is not
well-formed, if and only if such a header is not lenient. -/
lemma receive_after_frames_iff {r : ReadLoop} {s : Bytes} (hphase : r.phase = .readHeader)
    (hs : ∀ body t : Bytes, body.length ≤ maxBodyLength → s ≠ frame body ++ t) :
    (passedOnMsgs (ChatSession.receive r s).outputs = [] ∧
        ∀ h t, s = h ++ t → h.length = headerLength → ¬ IsHeader h →
          (ChatSession.receive r s).LeftBefore t) ↔
      ∀ h t, s = h ++ t → h.length = headerLength → ¬ IsHeader h → ¬ LenientHeader h := by
  constructor
  · rintro ⟨hnone, hleave⟩ h t rfl hlen hbad hlenient
    have hstop := (hleave h t rfl hlen hbad).stopped
    rw [receive_of_accepted hphase hlen hlenient] at hnone hstop
    rcases receive_body (r.readMsg.copyHeader h).decodeHeader.2 t with ⟨-, hwait⟩ | ⟨-, hsome⟩
    · rw [hwait] at hstop
      cases hstop
    · exact hsome hnone
  · intro hcond
    refine ⟨?_, ?_⟩
    · rcases Nat.lt_or_ge s.length headerLength with hshort | hlong
      · -- the header is not complete
        have hwanted : r.wanted = headerLength := by
          rw [ReadLoop.wanted, hphase]
        rw [receive_of_stuck (by rw [hwanted]; omega)]
        rfl
      · obtain ⟨h, t, rfl, hlen⟩ : ∃ h t, s = h ++ t ∧ h.length = headerLength :=
          ⟨_, _, (List.take_append_drop headerLength s).symm, List.length_take_of_le hlong⟩
        by_cases hheader : IsHeader h
        · -- the body is not complete
          rw [receive_of_accepted hphase hlen hheader.lenient]
          obtain ⟨n, hn, rfl⟩ := hheader
          have htake := take_copyHeader r.readMsg hn
          rw [decodeHeader_of_header hn htake]
          rcases receive_body { r.readMsg.copyHeader (header n) with bodyLength := n } t with
            ⟨-, hwait⟩ | ⟨hle, -⟩
          · rw [hwait]
            rfl
          · have hbody : (t.take n).length = n := List.length_take_of_le hle
            refine absurd ?_ (hs (t.take n) (t.drop n) (by rw [hbody]; exact hn))
            rw [frame, hbody, List.append_assoc, List.take_append_drop]
        · exact (receive_of_rejected hphase hlen (hcond h t rfl hlen hheader) t).2
    · rintro h t rfl hlen hbad
      exact (receive_of_rejected hphase hlen (hcond h t rfl hlen hbad) t).1

/-! ## Only well-formed frames -/

/-- A session whose message has the given content at the beginning accepts only well-formed frames
from a stream: it delivers the longest run of them at the beginning of the stream, and at the first
header that is not well-formed it leaves the room. -/
def AcceptsOnlyFrames (content stream : Bytes) : Prop :=
  ∃ bodies, LongestFramed stream bodies ∧
    (passedOnMsgs (ChatSession.receive (ReadLoop.new content) stream).outputs).map
      ChatMessage.wire = bodies.map frame ∧
    ∀ h t, stream = frames bodies ++ (h ++ t) → h.length = headerLength → ¬ IsHeader h →
      (ChatSession.receive (ReadLoop.new content) stream).LeftBefore t

/-- The longest run of well-formed frames is followed by a header that is lenient, but not
well-formed. -/
def LenientHeaderFollows (stream : Bytes) : Prop :=
  ∃ bodies h t, LongestFramed stream bodies ∧ stream = frames bodies ++ (h ++ t) ∧
    h.length = headerLength ∧ ¬ IsHeader h ∧ LenientHeader h

/-- What a session makes of the longest run of frames and of the bytes behind it. -/
lemma receive_longestFramed {content stream s : Bytes} {bodies : List Bytes}
    (hcontent : content.length = 516) (h : LongestFramed stream bodies)
    (hstream : stream = frames bodies ++ s) :
    ∃ (r : ReadLoop) (msgs : List ChatMessage), r.phase = .readHeader ∧
      msgs.map ChatMessage.wire = bodies.map frame ∧
      ChatSession.receive (ReadLoop.new content) stream =
        (ChatSession.receive r s).after (msgs.map ReadOutput.received) := by
  obtain ⟨msgs, hout, hwires, hloop, hrest⟩ :=
    receive_of_reads _ _ bodies (reads_new hcontent h.sendable)
  refine ⟨(ChatSession.receive (ReadLoop.new content) (frames bodies)).loop, msgs, ?_, hwires, ?_⟩
  · rcases hloop.future_eq with ⟨hphase, -⟩ | ⟨body, rest, -, hbodies, -⟩
    · exact hphase
    · cases hbodies
  · rw [hstream, receive_append, hrest, hout, List.nil_append]

/-- **Only well-formed frames.**  A session accepts only well-formed frames from a stream if and
only if no lenient header follows them that is not well-formed itself; and `encode_header` restores
a decoded header if and only if a lenient header is well-formed. -/
theorem accepts_only_frames_iff {content : Bytes} (hcontent : content.length = 516) :
    (∀ stream, AcceptsOnlyFrames content stream ↔ ¬ LenientHeaderFollows stream) ∧
      ∀ m : ChatMessage, m.RestoresHeader ↔
        (LenientHeader (m.data.take headerLength) → IsHeader (m.data.take headerLength)) := by
  refine ⟨fun stream => ?_, restoresHeader_iff⟩
  obtain ⟨bodies, hbodies⟩ := exists_longestFramed stream
  obtain ⟨s, hstream⟩ := hbodies.isPrefix
  obtain ⟨r, msgs, hphase, hwires, hreceive⟩ :=
    receive_longestFramed hcontent hbodies hstream.symm
  have hiff := receive_after_frames_iff hphase (hbodies.not_frame hstream.symm)
  -- the messages delivered before are the frames, so nothing else may be delivered
  have hdelivered :
      (passedOnMsgs (ChatSession.receive (ReadLoop.new content) stream).outputs).map
        ChatMessage.wire = bodies.map frame ↔
      passedOnMsgs (ChatSession.receive r s).outputs = [] := by
    rw [hreceive, Received.after, passedOnMsgs_append, passedOnMsgs_map_received, List.map_append,
      hwires, List.append_right_eq_self, List.map_eq_nil_iff]
  have hleft : ∀ t, (ChatSession.receive (ReadLoop.new content) stream).LeftBefore t ↔
      (ChatSession.receive r s).LeftBefore t := by
    intro t
    rw [hreceive]
    exact leftBefore_after_iff msgs
  have hcut : ∀ h t, stream = frames bodies ++ (h ++ t) ↔ s = h ++ t := by
    intro h t
    rw [← hstream]
    exact List.append_right_inj _
  constructor
  · rintro ⟨others, hothers, hwire, hleave⟩ ⟨others', h, t, hothers', hsplit, hlen, hbad, hlenient⟩
    obtain rfl := hothers.unique hbodies
    obtain rfl := hothers'.unique hothers
    refine hiff.mp ⟨hdelivered.mp hwire, fun h t hst hlen hbad => ?_⟩ h t
      ((hcut h t).mp hsplit) hlen hbad hlenient
    exact (hleft t).mp (hleave h t ((hcut h t).mpr hst) hlen hbad)
  · intro hnone
    obtain ⟨hnil, hleave⟩ := hiff.mpr fun h t hst hlen hbad hlenient =>
      hnone ⟨bodies, h, t, hbodies, (hcut h t).mpr hst, hlen, hbad, hlenient⟩
    refine ⟨bodies, hbodies, hdelivered.mpr hnil, fun h t hst hlen hbad => ?_⟩
    exact (hleft t).mpr (hleave h t ((hcut h t).mp hst) hlen hbad)

/-- A message that is all zero at the beginning, and the stream of one frame and half a header. -/
theorem accepts_only_frames_iff_zeroed :
    (List.replicate 516 (0 : UInt8)).length = 516 ∧
      (AcceptsOnlyFrames (List.replicate 516 0) (bytes "   2hi  ") ↔
        ¬ LenientHeaderFollows (bytes "   2hi  ")) :=
  ⟨List.length_replicate, (accepts_only_frames_iff List.length_replicate).1 _⟩

/-- The header `abcd` is taken for that of an empty message, which is delivered. -/
theorem accepts_letters :
    ¬ ∀ content stream : Bytes, content.length = 516 → AcceptsOnlyFrames content stream := by
  intro h
  obtain ⟨bodies, -, hwires, -⟩ :=
    h (List.replicate 516 0) (bytes "abcd") List.length_replicate
  have hrun : (passedOnMsgs (ChatSession.receive (ReadLoop.new (List.replicate 516 0))
      (bytes "abcd")).outputs).map ChatMessage.wire = [bytes "abcd"] := by
    decide +kernel
  rw [hrun] at hwires
  have hmem : bytes "abcd" ∈ bodies.map frame := by
    rw [← hwires]
    exact List.mem_singleton.mpr rfl
  obtain ⟨body, -, hbody⟩ := List.mem_map.mp hmem
  -- a frame of four bytes has no body
  have hshort : body.length ≤ 4 := by
    have hlen : (header body.length ++ body).length = 4 := congrArg List.length hbody
    rw [List.length_append] at hlen
    omega
  have hlen := length_frame (le_trans hshort (by decide))
  rw [hbody] at hlen
  have hnil : body = [] := by
    have hfour : (bytes "abcd").length = headerLength := by decide
    exact List.eq_nil_of_length_eq_zero (by omega)
  rw [hnil] at hbody
  revert hbody
  decide

end Chat

end AsioStudy
