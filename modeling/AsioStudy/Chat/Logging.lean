import AsioStudy.Chat.Bounds
import AsioStudy.Chat.Server

/-!
# The log of the chat server

`chat_room::join`, `chat_room::deliver` and `chat_session::do_read_body` print `msg.data()` as a C
string.  Nothing ends this string but a NUL that happens to be in the array: the array is used for
all messages of a session and is never cleared.

`logsWithin_iff` says exactly in which runs what is printed of a message is part of this message: a
body that is read has to bring a NUL or to find one, in its header or right behind it.
`atEach_endsBody_iff` says the same of the streams that the sessions read.
-/

namespace AsioStudy

namespace Chat

/-! ## Printing a message -/

/-- What is printed for `msg.data()`, or `none` if the search for the NUL leaves the array. -/
def ChatMessage.printed (m : ChatMessage) : Option Bytes :=
  if 0 ∈ m.data then some (cString m.data) else none

/-- The NUL is found in the array, and what is printed belongs to the header and the body. -/
def ChatMessage.PrintsWithin (m : ChatMessage) : Prop :=
  ∃ text, m.printed = some text ∧ text <+: m.wire

/-- A NUL is among the first bytes exactly if there is one at all and the C string is so short. -/
lemma zero_mem_take_iff {s : Bytes} {n : ℕ} :
    0 ∈ s.take (n + 1) ↔ 0 ∈ s ∧ (cString s).length ≤ n := by
  by_cases hmem : 0 ∈ s
  · obtain ⟨before, after, rfl, hbefore⟩ := List.eq_append_cons_of_mem hmem
    rw [cString_append_zero, cString_eq_self_iff.mpr hbefore]
    constructor
    · intro htake
      refine ⟨hmem, ?_⟩
      by_contra hlong
      rw [List.take_append_of_le_length (by omega)] at htake
      exact hbefore (List.mem_of_mem_take htake)
    · rintro ⟨-, hshort⟩
      have hprefix : before ++ [0] <+: (before ++ 0 :: after).take (n + 1) := by
        refine List.prefix_take_iff.mpr ⟨⟨after, by simp⟩, ?_⟩
        rw [List.length_append, List.length_singleton]
        omega
      exact hprefix.subset (List.mem_append_right _ List.mem_cons_self)
  · exact iff_of_false (fun h => hmem (List.mem_of_mem_take h)) fun h => hmem h.1

/-- What is printed belongs to the message exactly if there is a NUL in it or right behind it. -/
lemma printsWithin_iff {m : ChatMessage} : m.PrintsWithin ↔ 0 ∈ m.data.take (m.length + 1) := by
  rw [zero_mem_take_iff, ChatMessage.PrintsWithin, ChatMessage.printed]
  have hprefix : cString m.data <+: m.wire ↔ (cString m.data).length ≤ m.length := by
    constructor
    · exact fun h => h.length_le.trans (List.length_take_le _ _)
    · exact fun h => List.prefix_take_iff.mpr ⟨cString_isPrefix _, h⟩
  split_ifs with hmem
  · simp [hmem, hprefix]
  · simp [hmem]

/-- A body that has been read is printed within its message exactly if there is a NUL in the header,
in the body, or right behind the body. -/
lemma printsWithin_copyBody_iff {m : ChatMessage} (h : m.Bounded) {data : Bytes}
    (hdata : data.length = m.bodyLength) :
    (m.copyBody data).PrintsWithin ↔
      0 ∈ m.data.take headerLength ∨ 0 ∈ data ∨ m.data[headerLength + data.length]? = some 0 := by
  have hheader : (m.data.take headerLength).length = headerLength := by
    rw [List.length_take_of_le (h.length_data ▸ Nat.le_add_right _ _)]
  have htake : (m.copyBody data).data.take ((m.copyBody data).length + 1) =
      m.data.take headerLength ++ (data ++ (m.data.drop (headerLength + data.length)).take 1) := by
    have hlength : (m.copyBody data).length + 1 =
        (m.data.take headerLength ++ data).length + 1 := by
      rw [List.length_append, hheader, hdata]
      rfl
    rw [hlength, ChatMessage.copyBody, overwrite, List.take_length_add_append, List.append_assoc]
  have hnext : 0 ∈ (m.data.drop (headerLength + data.length)).take 1 ↔
      m.data[headerLength + data.length]? = some 0 := by
    rw [← List.head?_drop]
    cases m.data.drop (headerLength + data.length) with
    | nil => simp
    | cons b rest => simp [eq_comm]
  rw [printsWithin_iff, htake, List.mem_append, List.mem_append, hnext]

/-! ## What the room prints -/

section Room

variable {P M : Type*} [DecidableEq P]

/-- The messages that are printed in a call: the session prints a message before it delivers it, the
room prints it once for each participant, and a new participant is shown the recent ones. -/
def ChatRoom.logged (room : ChatRoom P M) : Call P M → List M
  | .join _ => room.recentMsgs
  | .leave _ => []
  | .deliver msg => msg :: room.participants.map fun _ => msg

/-- The messages that are printed in a sequence of calls. -/
def ChatRoom.log (room : ChatRoom P M) : List (Call P M) → List M
  | [] => []
  | c :: calls => room.logged c ++ (room.call c).1.log calls

/-- When the recent messages have a property, all printed messages have it exactly if all delivered
messages have it. -/
lemma forall_mem_log_iff {room : ChatRoom P M} {Q : M → Prop} (h : ∀ msg ∈ room.recentMsgs, Q msg)
    (calls : List (Call P M)) :
    (∀ msg ∈ room.log calls, Q msg) ↔ ∀ msg ∈ delivered calls, Q msg := by
  induction calls generalizing room with
  | nil => exact iff_of_true (List.forall_mem_nil _) (List.forall_mem_nil _)
  | cons c calls ih =>
    rw [ChatRoom.log, List.forall_mem_append]
    cases c with
    | join p => exact (and_iff_right h).trans (ih h)
    | leave p => exact (and_iff_right (List.forall_mem_nil _)).trans (ih h)
    | deliver msg =>
      have hlogged : (∀ m ∈ room.logged (.deliver msg), Q m) ↔ Q msg := by
        rw [ChatRoom.logged, List.forall_mem_cons]
        refine and_iff_left_of_imp fun hmsg m hmem => ?_
        obtain ⟨p, -, rfl⟩ := List.mem_map.mp hmem
        exact hmsg
      have hdelivered : delivered (.deliver msg :: calls) = msg :: delivered calls := rfl
      rw [hlogged, hdelivered, List.forall_mem_cons]
      refine and_congr_right fun hmsg => ih ?_
      -- the history consists of older messages and this one
      have hrecent : ∀ m ∈ room.recentMsgs ++ [msg], Q m :=
        List.forall_mem_append.mpr ⟨h, List.forall_mem_singleton.mpr hmsg⟩
      intro m hmem
      simp only [ChatRoom.call, ChatRoom.deliver, popExcess_eq_lastN] at hmem
      exact hrecent m ((History.lastN_suffix _ _).subset hmem)

end Room

/-! ## What the server prints -/

/-- The messages that are delivered in a stretch of a run. -/
def deliveries (out : List ServerOutput) : List ChatMessage :=
  delivered ((roomCalls out).map Prod.snd)

/-- The messages that the server prints in a run. -/
def serverLog (out : List ServerOutput) : List ChatMessage :=
  ChatRoom.new.log ((roomCalls out).map Prod.snd)

/-- The calls of one session, without its number. -/
lemma map_snd_roomCalls {out : List ServerOutput} {i : ℕ} {calls : List (Call ℕ ChatMessage)}
    (h : roomCalls out = calls.map (i, ·)) : (roomCalls out).map Prod.snd = calls := by
  rw [h, List.map_map]
  exact List.map_id calls

/-- The log is that of the room: in a run from the beginning, the room is always what the calls have
made of it. -/
theorem room_eq_run {events : List ServerEvent} {s : ChatServer} {out : List ServerOutput}
    (hrun : Machine.run ChatServer.step .new events = some (s, out)) :
    s.room = (ChatRoom.new.run ((roomCalls out).map Prod.snd)).1 := by
  refine Machine.run_history
    (I := fun t _ out => t.room = (ChatRoom.new.run ((roomCalls out).map Prod.snd)).1) hrun rfl ?_
  intro t t' e es o o' ht he
  obtain ⟨i, calls, hroom, hcalls, -⟩ := ChatServer.step_spec he
  rw [hroom, ht, roomCalls_append, List.map_append, run_append, map_snd_roomCalls hcalls]

/-- A body that is read is ended by a NUL: there is one in the header, in the body, or right behind
the body in the array. -/
def ChatServer.EndsBody (s : ChatServer) : ServerEvent → Prop
  | .read i true data =>
    ∀ r, s.readLoops[i]? = some r → r.phase = .readBody →
      0 ∈ r.readMsg.data.take headerLength ∨ 0 ∈ data ∨
        r.readMsg.data[headerLength + data.length]? = some 0
  | _ => True

/-- The messages of all sessions came about by operations. -/
def ChatServer.MsgsReachable (s : ChatServer) : Prop := ∀ r ∈ s.readLoops, r.readMsg.IsReachable

/-- The event is possible for a `chat_message`, whose array has 516 bytes. -/
def ServerEvent.HasArray : ServerEvent → Prop
  | .accept content => content.length = 516
  | _ => True

/-- What the handler of a read delivers. -/
lemma delivered_readHandler {r : ReadLoop} {ok : Bool} {data : Bytes}
    (h : r.CanComplete ok data) (i : ℕ) :
    delivered ((ChatSession.readHandler r ok data).2.map (callOfRead i)) =
      if r.phase = .readBody ∧ ok = true then [r.readMsg.copyBody data] else [] := by
  unfold ChatSession.readHandler ReadLoop.handler
  cases hphase : r.phase with
  | readHeader =>
    simp only [ReadLoop.headerHandler]
    split_ifs <;> simp_all <;> rfl
  | readBody => cases ok <;> rfl
  | stopped => exact absurd hphase h.1

/-- It is decidable whether an event is possible for a `chat_message`. -/
instance : DecidablePred ServerEvent.HasArray := fun e =>
  match e with
  | .accept content => inferInstanceAs (Decidable (content.length = 516))
  | .read _ _ _ => isTrue trivial
  | .write _ _ _ => isTrue trivial

/-- **One event.**  The messages that are delivered are printed within their bounds exactly if the
body that is read is ended by a NUL. -/
lemma ChatServer.MsgsReachable.step {s s' : ChatServer} {e : ServerEvent} {out : List ServerOutput}
    (hs : s.MsgsReachable) (he : e.HasArray) (h : s.step e = some (s', out)) :
    s'.MsgsReachable ∧ ((∀ m ∈ deliveries out, m.PrintsWithin) ↔ s.EndsBody e) := by
  obtain ⟨i, calls, -, hcalls, hcases⟩ := ChatServer.step_spec h
  rw [deliveries, map_snd_roomCalls hcalls]
  rcases hcases with ⟨content, rfl, rfl, hloops, rfl⟩ |
    ⟨ok, data, r, rfl, hr, hcomplete, hloops, rfl⟩ | ⟨k, ok, rfl, -, hloops, rfl⟩
  · refine ⟨?_, iff_of_true (List.forall_mem_nil _) trivial⟩
    have hnew : (ReadLoop.new content).readMsg.IsReachable :=
      ⟨⟨content.toArray, he⟩, Machine.Reachable.init _⟩
    rw [ChatServer.MsgsReachable, hloops]
    exact List.forall_mem_append.mpr ⟨hs, List.forall_mem_singleton.mpr hnew⟩
  · have hmsg := hs r (List.mem_of_getElem? hr)
    refine ⟨?_, ?_⟩
    · rw [ChatServer.MsgsReachable, hloops]
      intro r' hmem
      rcases List.mem_or_eq_of_mem_set hmem with hold | rfl
      · exact hs r' hold
      · exact (reachable_handler hmsg hcomplete).1
    · rw [delivered_readHandler hcomplete]
      cases ok with
      | false =>
        rw [if_neg (by simp)]
        exact iff_of_true (List.forall_mem_nil _) trivial
      | true =>
        have hends : s.EndsBody (.read i true data) ↔ (r.phase = .readBody →
            0 ∈ r.readMsg.data.take headerLength ∨ 0 ∈ data ∨
              r.readMsg.data[headerLength + data.length]? = some 0) := by
          simp only [ChatServer.EndsBody, hr, Option.some.injEq, forall_eq']
        rw [hends]
        by_cases hphase : r.phase = .readBody
        · have hlength : data.length = r.readMsg.bodyLength := by
            have hwanted : data.length = r.wanted := hcomplete.2
            rw [hwanted, ReadLoop.wanted, hphase]
          rw [if_pos ⟨hphase, rfl⟩, List.forall_mem_singleton,
            printsWithin_copyBody_iff hmsg.bounded hlength]
          exact ⟨fun h _ => h, fun h => h hphase⟩
        · rw [if_neg fun h => hphase h.1]
          exact iff_of_true (List.forall_mem_nil _) fun h => absurd h hphase
  · -- a write side calls nothing but `leave`
    rw [ChatServer.MsgsReachable, hloops]
    refine ⟨hs, iff_of_true ?_ trivial⟩
    cases ok with
    | true => exact List.forall_mem_nil _
    | false => exact List.forall_mem_nil _

/-- A message is delivered by a call. -/
lemma mem_deliveries {out : List ServerOutput} {m : ChatMessage} :
    m ∈ deliveries out ↔ ∃ i, .called i (.deliver m) ∈ out := by
  unfold deliveries delivered roomCalls
  simp only [List.mem_filterMap, List.mem_map]
  constructor
  · rintro ⟨c, ⟨⟨i, c'⟩, ⟨o, ho, hcalled⟩, rfl⟩, hc⟩
    cases o with
    | called j d =>
      obtain ⟨rfl, rfl⟩ := Prod.mk.inj (Option.some.inj hcalled)
      cases d with
      | deliver m' =>
        obtain rfl := Option.some.inj hc
        exact ⟨j, ho⟩
      | join p => cases hc
      | leave p => cases hc
    | wrote j w => cases hcalled
  · rintro ⟨i, hmem⟩
    exact ⟨.deliver m, ⟨(i, .deliver m), ⟨_, hmem, rfl⟩, rfl⟩, rfl⟩

/-- **The log.**  For every run of the server, everything that is printed is found to end within its
array and consists of bytes of the header and the body of the message, if and only if every body
that is read is ended by a NUL: in the header, in the body, or right behind it. -/
theorem logsWithin_iff {events : List ServerEvent} {s : ChatServer} {out : List ServerOutput}
    (hevents : ∀ e ∈ events, e.HasArray)
    (hrun : Machine.run ChatServer.step .new events = some (s, out)) :
    (∀ m ∈ serverLog out, m.PrintsWithin) ↔
      Machine.AtEach ChatServer.step ChatServer.EndsBody .new events := by
  have hdelivered : ∀ o : List ServerOutput, (∀ m ∈ deliveries o, m.PrintsWithin) ↔
      ∀ a ∈ o, ∀ i m, a = .called i (.deliver m) → m.PrintsWithin := by
    intro o
    simp only [mem_deliveries]
    constructor
    · rintro h a ha i m rfl
      exact h m ⟨i, ha⟩
    · rintro h m ⟨i, hmem⟩
      exact h _ hmem i m rfl
  rw [serverLog, forall_mem_log_iff (List.forall_mem_nil _), ← deliveries, hdelivered]
  refine Machine.forall_mem_iff_atEach (I := ChatServer.MsgsReachable) ?_ hrun
    (List.forall_mem_nil _)
  intro t t' e o he ht hstep
  rw [← hdelivered]
  exact ht.step (hevents e he) hstep

/-- A message of five bytes, which is ended by a NUL of the new array, and one of a single byte. -/
def shorterMessage : List ServerEvent :=
  [.accept (List.replicate 516 0), .read 0 true (bytes "   5"), .read 0 true (bytes "aaaaa"),
    .read 0 true (bytes "   1"), .read 0 true (bytes "b")]

/-- The first message alone is printed as it should be. -/
theorem logsWithin_iff_first :
    ∃ s out, Machine.run ChatServer.step .new (shorterMessage.take 3) = some (s, out) ∧
      ((∀ m ∈ serverLog out, m.PrintsWithin) ↔
        Machine.AtEach ChatServer.step ChatServer.EndsBody .new (shorterMessage.take 3)) := by
  obtain ⟨⟨s, out⟩, hrun⟩ := Option.isSome_iff_exists.mp
    (show (Machine.run ChatServer.step .new (shorterMessage.take 3)).isSome = true by
      decide +kernel)
  exact ⟨s, out, hrun, logsWithin_iff (by decide +kernel) hrun⟩

/-- After the second message, what is printed of it goes on with the end of the first one. -/
theorem logs_earlier_message :
    ∃ s out m, Machine.run ChatServer.step .new shorterMessage = some (s, out) ∧
      m ∈ serverLog out ∧ m.printed = some (bytes "   1baaaa") ∧ ¬ m.PrintsWithin := by
  have hlast : ((Machine.run ChatServer.step .new shorterMessage).bind fun r =>
      (serverLog r.2).getLast?).map (fun m => (m.printed, m.length)) =
        some (some (bytes "   1baaaa"), 5) := by
    decide +kernel
  obtain ⟨m, hm, heq⟩ := Option.map_eq_some_iff.mp hlast
  obtain ⟨⟨s, out⟩, hrun, hget⟩ := Option.bind_eq_some_iff.mp hm
  obtain ⟨hprinted, hlength⟩ := Prod.mk.inj heq
  refine ⟨s, out, m, hrun, List.mem_of_getLast? hget, hprinted, ?_⟩
  rintro ⟨text, htext, hprefix⟩
  rw [hprinted] at htext
  obtain rfl := Option.some.inj htext
  -- four bytes are too many
  have hle := hprefix.length_le.trans (List.length_take_le _ _)
  rw [hlength] at hle
  exact absurd hle (by decide)

/-! ## The condition on the streams

The array of a session is what its reads have written over the initial content: the header is that
of the last read, and a byte behind it belongs to the last body that was long enough.  So it is
decided by the streams whether a body is ended. -/

/-- What was in the arrays of the sessions at the beginning. -/
def initialContents (events : List ServerEvent) : List Bytes :=
  events.filterMap fun
    | .accept content => some content
    | _ => none

/-- What the reads of the session `i` have brought. -/
def readsOf (i : ℕ) (events : List ServerEvent) : List Bytes :=
  events.filterMap fun
    | .read j _ data => if j = i then some data else none
    | _ => none

/-- The bodies among the reads, of which every second one is that of a body. -/
def bodiesOf : List Bytes → List Bytes
  | _ :: body :: reads => body :: bodiesOf reads
  | _ => []

/-- The byte at the place `n` behind the header: that of the last body that reaches there, or the
initial one. -/
def byteBehind (content : Bytes) (bodies : List Bytes) (n : ℕ) : Option UInt8 :=
  bodies.foldl (fun b body => if n < body.length then body[n]? else b) content[headerLength + n]?

/-- Every body in the streams is ended by a NUL: in its header, in itself, or as the byte that
earlier bodies or the initial content have left right behind it. -/
def StreamsEndBodies (events : List ServerEvent) : Prop :=
  ∀ before after i data content pre header,
    events = before ++ .read i true data :: after → (initialContents before)[i]? = some content →
    readsOf i before = pre ++ [header] → Even pre.length →
      0 ∈ header ∨ 0 ∈ data ∨ byteBehind content (bodiesOf pre) data.length = some 0

/-- The bodies of whole messages and of what follows them. -/
lemma bodiesOf_append {pre : List Bytes} (h : Even pre.length) (reads : List Bytes) :
    bodiesOf (pre ++ reads) = bodiesOf pre ++ bodiesOf reads := by
  fun_induction bodiesOf pre with
  | case1 header body pre ih =>
    rw [List.length_cons, List.length_cons, Nat.even_add_one, Nat.even_add_one, not_not] at h
    exact congrArg (body :: ·) (ih h)
  | case2 pre hshort =>
    rcases pre with _ | ⟨header, _ | ⟨body, pre⟩⟩
    · rfl
    · rw [List.length_singleton] at h
      exact absurd h (by decide)
    · exact absurd rfl (hshort header body pre)

/-- A header whose body has not been read yet adds nothing. -/
lemma bodiesOf_header {pre : List Bytes} (h : Even pre.length) (header : Bytes) :
    bodiesOf (pre ++ [header]) = bodiesOf pre :=
  (bodiesOf_append h [header]).trans (List.append_nil _)

/-- A body that comes last covers what was behind the header before. -/
lemma byteBehind_concat (content : Bytes) (bodies : List Bytes) (body : Bytes) (n : ℕ) :
    byteBehind content (bodies ++ [body]) n =
      if n < body.length then body[n]? else byteBehind content bodies n := by
  rw [byteBehind, List.foldl_append]
  rfl

/-- A header that is read leaves alone what is behind it. -/
lemma getElem?_copyHeader {data : Bytes} (h : data.length = headerLength) (m : ChatMessage)
    (n : ℕ) : (m.copyHeader data).data[headerLength + n]? = m.data[headerLength + n]? := by
  rw [ChatMessage.copyHeader, overwrite, List.take_zero, List.nil_append, Nat.zero_add,
    List.getElem?_append_right (by omega), List.getElem?_drop]
  congr 1
  omega

/-- A body that is read covers what is behind the header, as far as it reaches. -/
lemma getElem?_copyBody {m : ChatMessage} (h : m.Bounded) (data : Bytes) (n : ℕ) :
    (m.copyBody data).data[headerLength + n]? =
      if n < data.length then data[n]? else m.data[headerLength + n]? := by
  have hheader : (m.data.take headerLength).length = headerLength := by
    rw [List.length_take_of_le (h.length_data ▸ Nat.le_add_right _ _)]
  rw [ChatMessage.copyBody, overwrite, List.append_assoc,
    List.getElem?_append_right (by omega), hheader, Nat.add_sub_cancel_left]
  split_ifs with hn
  · exact List.getElem?_append_left hn
  · rw [List.getElem?_append_right (Nat.not_lt.mp hn), List.getElem?_drop]
    congr 1
    omega

/-- The message of a read side holds what the given reads have written over the given content, and
the next read is the one whose turn it is. -/
structure ReadLoop.Recalls (r : ReadLoop) (content : Bytes) (reads : List Bytes) : Prop where
  /-- What is behind the header. -/
  behind : ∀ n, r.readMsg.data[headerLength + n]? = byteBehind content (bodiesOf reads) n
  /-- Headers and bodies take turns, and before a body the header is the last thing read. -/
  turn : (r.phase = .readHeader ∧ Even reads.length) ∨
    ∃ pre header, r.phase = .readBody ∧ reads = pre ++ [header] ∧ Even pre.length ∧
      r.readMsg.data.take headerLength = header

/-- A new read side has read nothing. -/
lemma recalls_new (content : Bytes) : (ReadLoop.new content).Recalls content [] :=
  ⟨fun _ => rfl, Or.inl ⟨rfl, Even.zero⟩⟩

/-- **One read.**  Unless it is the last one, a read becomes part of what the message recalls. -/
lemma ReadLoop.Recalls.readHandler {r : ReadLoop} {content data : Bytes} {reads : List Bytes}
    {ok : Bool} (h : r.Recalls content reads) (hmsg : r.readMsg.Bounded)
    (hcomplete : r.CanComplete ok data)
    (hnext : (ChatSession.readHandler r ok data).1.phase ≠ .stopped) :
    (ChatSession.readHandler r ok data).1.Recalls content (reads ++ [data]) := by
  unfold ChatSession.readHandler at hnext ⊢
  rcases h.turn with ⟨hphase, heven⟩ | ⟨pre, header, hphase, rfl, heven, htake⟩
  · simp only [ReadLoop.handler, hphase, ReadLoop.headerHandler] at hnext ⊢
    split_ifs at hnext ⊢ with hok hdecode
    · -- the header was read and can be decoded
      have hlength : data.length = headerLength := by
        have hwanted := hcomplete.2
        rw [if_pos hok, ReadLoop.wanted, hphase] at hwanted
        exact hwanted
      have hdata : (r.readMsg.copyHeader data).decodeHeader.2.data =
          (r.readMsg.copyHeader data).data := by
        unfold ChatMessage.decodeHeader
        simp only
        split_ifs <;> rfl
      refine ⟨fun n => ?_, Or.inr ⟨reads, data, rfl, rfl, heven, ?_⟩⟩
      · rw [bodiesOf_header heven, ← h.behind n, ← getElem?_copyHeader hlength r.readMsg n]
        exact congrArg (·[headerLength + n]?) hdata
      · have hfront := take_drop_overwrite (Nat.zero_le r.readMsg.data.length) data
        rw [List.drop_zero, hlength] at hfront
        exact (congrArg (List.take headerLength) hdata).trans hfront
    · exact absurd rfl hnext
    · exact absurd rfl hnext
  · simp only [ReadLoop.handler, hphase, ReadLoop.bodyHandler] at hnext ⊢
    split_ifs at hnext ⊢ with hok
    · -- the body was read and the next header is
      have hbodies : bodiesOf (pre ++ [header] ++ [data]) = bodiesOf pre ++ [data] := by
        rw [List.append_assoc, bodiesOf_append heven]
        rfl
      refine ⟨fun n => ?_, Or.inl ⟨rfl, ?_⟩⟩
      · rw [hbodies, byteBehind_concat, ← bodiesOf_header heven header, ← h.behind n]
        exact getElem?_copyBody hmsg data n
      · rw [List.length_append, List.length_append]
        exact heven.add (by decide : Even 2)
    · exact absurd rfl hnext

/-- Every read side that reads on recalls the reads of its session. -/
def ChatServer.Recalls (s : ChatServer) (events : List ServerEvent) : Prop :=
  (initialContents events).length = s.readLoops.length ∧
    (∀ i, s.readLoops.length ≤ i → readsOf i events = []) ∧
    ∀ i, ∀ r : ReadLoop, s.readLoops[i]? = some r → r.phase ≠ .stopped →
      ∃ content, (initialContents events)[i]? = some content ∧
        r.Recalls content (readsOf i events)

/-- What an event adds to the initial contents. -/
lemma initialContents_concat (events : List ServerEvent) (e : ServerEvent) :
    initialContents (events ++ [e]) = initialContents events ++ initialContents [e] :=
  List.filterMap_append

/-- What an event adds to the reads of a session. -/
lemma readsOf_concat (i : ℕ) (events : List ServerEvent) (e : ServerEvent) :
    readsOf i (events ++ [e]) = readsOf i events ++ readsOf i [e] :=
  List.filterMap_append

/-- A new session comes last, and nothing has been read for it. -/
lemma ChatServer.Recalls.accept {s s' : ChatServer} {events : List ServerEvent}
    (h : s.Recalls events) (content : Bytes)
    (hloops : s'.readLoops = s.readLoops ++ [ReadLoop.new content]) :
    s'.Recalls (events ++ [.accept content]) := by
  obtain ⟨hcontents, hnone, hrecalls⟩ := h
  have hinitial : initialContents (events ++ [.accept content]) =
      initialContents events ++ [content] := initialContents_concat _ _
  have hreads : ∀ i, readsOf i (events ++ [.accept content]) = readsOf i events := fun i =>
    (readsOf_concat i _ _).trans (List.append_nil _)
  rw [ChatServer.Recalls, hinitial, hloops]
  refine ⟨by rw [List.length_append, List.length_append, hcontents]; rfl, fun i hi => ?_,
    fun i r hr hphase => ?_⟩
  · rw [List.length_append] at hi
    rw [hreads]
    exact hnone i (by omega)
  · rw [hreads]
    rcases lt_or_ge i s.readLoops.length with hlt | hge
    · rw [List.getElem?_append_left hlt] at hr
      rw [List.getElem?_append_left (hcontents ▸ hlt)]
      exact hrecalls i r hr hphase
    · rw [List.getElem?_append_right hge] at hr
      rw [List.getElem?_append_right (hcontents ▸ hge), hcontents, hnone i hge]
      obtain ⟨hzero, hnew⟩ := List.getElem?_eq_some_iff.mp hr
      have hlast : i - s.readLoops.length = 0 := Nat.lt_one_iff.mp hzero
      simp only [hlast, List.getElem_cons_zero] at hnew
      rw [hlast, ← hnew]
      exact ⟨content, rfl, recalls_new content⟩

/-- The session whose read completes has one read more. -/
lemma ChatServer.Recalls.read {s s' : ChatServer} {events : List ServerEvent}
    (h : s.Recalls events) (hmsgs : s.MsgsReachable) {j : ℕ} {ok : Bool} {data : Bytes}
    {r : ReadLoop} (hr : s.readLoops[j]? = some r) (hcomplete : r.CanComplete ok data)
    (hloops : s'.readLoops = s.readLoops.set j (ChatSession.readHandler r ok data).1) :
    s'.Recalls (events ++ [.read j ok data]) := by
  obtain ⟨hcontents, hnone, hrecalls⟩ := h
  have hinitial : initialContents (events ++ [.read j ok data]) = initialContents events :=
    (initialContents_concat _ _).trans (List.append_nil _)
  have hreads : ∀ i, readsOf i (events ++ [.read j ok data]) =
      if j = i then readsOf i events ++ [data] else readsOf i events := by
    intro i
    rw [readsOf_concat]
    split_ifs with hji
    · simp [readsOf, hji]
    · simp [readsOf, hji]
  have hlength : s'.readLoops.length = s.readLoops.length := by
    rw [hloops, List.length_set]
  have hj : j < s.readLoops.length := (List.getElem?_eq_some_iff.mp hr).1
  rw [ChatServer.Recalls, hinitial, hlength]
  refine ⟨hcontents, fun i hi => ?_, fun i r' hr' hphase => ?_⟩
  · rw [hreads, if_neg (by omega)]
    exact hnone i hi
  · rw [hloops, List.getElem?_set] at hr'
    rw [hreads]
    split_ifs at hr' ⊢ with hji
    · subst hji
      obtain rfl := Option.some.inj hr'
      have hgoing : r.phase ≠ .stopped := hcomplete.1
      obtain ⟨content, hcontent, hread⟩ := hrecalls j r hr hgoing
      exact ⟨content, hcontent,
        hread.readHandler (hmsgs r (List.mem_of_getElem? hr)).bounded hcomplete hphase⟩
    · exact hrecalls i r' hr' hphase

/-- **One event.**  The sessions go on recalling what they have read. -/
lemma ChatServer.Recalls.step {s s' : ChatServer} {events : List ServerEvent} {e : ServerEvent}
    {out : List ServerOutput} (h : s.Recalls events) (hmsgs : s.MsgsReachable)
    (hstep : s.step e = some (s', out)) : s'.Recalls (events ++ [e]) := by
  obtain ⟨j, calls, -, -, ⟨content, rfl, -, hloops, -⟩ |
    ⟨ok, data, r, rfl, hr, hcomplete, hloops, -⟩ | ⟨k, ok, rfl, -, hloops, -⟩⟩ :=
    ChatServer.step_spec hstep
  · exact h.accept content hloops
  · exact h.read hmsgs hr hcomplete hloops
  · -- a write reads nothing
    have hinitial : initialContents (events ++ [.write j k ok]) = initialContents events :=
      (initialContents_concat _ _).trans (List.append_nil _)
    have hreads : ∀ i, readsOf i (events ++ [.write j k ok]) = readsOf i events := fun i =>
      (readsOf_concat i _ _).trans (List.append_nil _)
    rw [ChatServer.Recalls, hinitial, hloops]
    simp only [hreads]
    exact h

/-- In a run from the beginning, every session recalls what it has read. -/
lemma recalls_run {events : List ServerEvent} {s : ChatServer} {out : List ServerOutput}
    (hevents : ∀ e ∈ events, e.HasArray)
    (hrun : Machine.run ChatServer.step .new events = some (s, out)) : s.Recalls events := by
  have h : (∀ e ∈ events, e.HasArray) → s.MsgsReachable ∧ s.Recalls events := by
    refine Machine.run_history
      (I := fun t es _ => (∀ e ∈ es, e.HasArray) → t.MsgsReachable ∧ t.Recalls es) hrun ?_ ?_
    · exact fun _ => ⟨List.forall_mem_nil _, rfl, fun _ _ => rfl, fun _ _ h => nomatch h⟩
    · intro t t' e es o o' ht hstep harrays
      obtain ⟨hes, he⟩ := List.forall_mem_append.mp harrays
      obtain ⟨hmsgs, hrecalls⟩ := ht hes
      exact ⟨(hmsgs.step (he e List.mem_cons_self) hstep).1, hrecalls.step hmsgs hstep⟩
  exact (h hevents).2

/-- Whether the body that a possible read brings is ended can be seen from the streams. -/
lemma ChatServer.Recalls.endsBody_iff {s : ChatServer} {events : List ServerEvent}
    (h : s.Recalls events) {i : ℕ} {data : Bytes} {r : ReadLoop} (hr : s.readLoops[i]? = some r)
    (hphase : r.phase ≠ .stopped) :
    s.EndsBody (.read i true data) ↔
      ∀ content pre header, (initialContents events)[i]? = some content →
        readsOf i events = pre ++ [header] → Even pre.length →
          0 ∈ header ∨ 0 ∈ data ∨ byteBehind content (bodiesOf pre) data.length = some 0 := by
  obtain ⟨content, hcontent, hrecalls⟩ := h.2.2 i r hr hphase
  have hends : s.EndsBody (.read i true data) ↔ (r.phase = .readBody →
      0 ∈ r.readMsg.data.take headerLength ∨ 0 ∈ data ∨
        r.readMsg.data[headerLength + data.length]? = some 0) := by
    simp only [ChatServer.EndsBody, hr, Option.some.injEq, forall_eq']
  rw [hends]
  rcases hrecalls.turn with ⟨hturn, heven⟩ | ⟨pre, header, hturn, hreads, heven, htake⟩
  · -- it is the turn of a header
    refine iff_of_true (fun hbody => ?_) fun c pre header _ hreads hpre => ?_
    · rw [hturn] at hbody
      cases hbody
    · rw [hreads, List.length_append, List.length_singleton, Nat.even_add_one] at heven
      exact absurd hpre heven
  · have hbehind : r.readMsg.data[headerLength + data.length]? =
        byteBehind content (bodiesOf pre) data.length := by
      rw [hrecalls.behind, hreads, bodiesOf_header heven]
    rw [htake, hbehind]
    constructor
    · intro hall c pre' header' hc hreads' _
      obtain ⟨rfl, hheader⟩ := List.append_inj' (hreads.symm.trans hreads') rfl
      obtain rfl := (List.cons.inj hheader).1
      obtain rfl := Option.some.inj (hcontent.symm.trans hc)
      exact hall hturn
    · exact fun hall _ => hall content pre header hcontent hreads heven

/-- **The log, from the streams.**  Which bodies are ended is decided by what the sessions read and
by what their arrays held at the beginning, whatever else happens in the run. -/
theorem atEach_endsBody_iff {events : List ServerEvent} {s : ChatServer} {out : List ServerOutput}
    (hevents : ∀ e ∈ events, e.HasArray)
    (hrun : Machine.run ChatServer.step .new events = some (s, out)) :
    Machine.AtEach ChatServer.step ChatServer.EndsBody .new events ↔ StreamsEndBodies events := by
  -- a read that happens in the run is possible, and its session recalls what it has read
  have hread : ∀ before after i data t o, events = before ++ .read i true data :: after →
      Machine.run ChatServer.step .new before = some (t, o) →
      ∃ r, t.readLoops[i]? = some r ∧ r.phase ≠ .stopped ∧ t.Recalls before := by
    intro before after i data t o hsplit hbefore
    rw [hsplit] at hrun hevents
    obtain ⟨t', _, _, hrun', htail, -⟩ := Machine.run_append_iff.mp hrun
    obtain ⟨rfl, -⟩ := Prod.mk.inj (Option.some.inj (hbefore.symm.trans hrun'))
    obtain ⟨t'', _, _, hstep, -, -⟩ := Machine.run_cons_iff.mp htail
    obtain ⟨j, calls, -, -, ⟨content, hread, -⟩ | ⟨ok, bytes, r, hread, hr, hcomplete, -⟩ |
      ⟨k, ok, hread, -⟩⟩ := ChatServer.step_spec hstep
    · cases hread
    · cases hread
      exact ⟨r, hr, hcomplete.1,
        recalls_run (fun e he => hevents e (List.mem_append_left _ he)) hbefore⟩
    · cases hread
  constructor
  · intro hall before after i data content pre header hsplit hcontent hreads heven
    rw [hsplit] at hrun
    obtain ⟨t, o, _, hbefore, -, -⟩ := Machine.run_append_iff.mp hrun
    obtain ⟨r, hr, hphase, hrecalls⟩ := hread before after i data t o hsplit hbefore
    have hends := hall before (.read i true data) after t o hsplit hbefore
    exact (hrecalls.endsBody_iff hr hphase).mp hends content pre header hcontent hreads heven
  · intro hall before e after t o hsplit hbefore
    rcases e with content | ⟨i, ok, data⟩ | ⟨i, k, ok⟩
    · trivial
    · cases ok with
      | false => trivial
      | true =>
        obtain ⟨r, hr, hphase, hrecalls⟩ := hread before after i data t o hsplit hbefore
        exact (hrecalls.endsBody_iff hr hphase).mpr fun content pre header hc hreads heven =>
          hall before after i data content pre header hsplit hc hreads heven
    · trivial

end Chat

end AsioStudy
