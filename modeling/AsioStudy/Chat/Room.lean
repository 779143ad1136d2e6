import AsioStudy.Foundation.History
import AsioStudy.Foundation.Machine

/-!
# The chat room

The class `chat_room`, over any type of participants and any type of messages.  A call of one of its
members changes the room and passes messages to participants; the record of these calls of
`participant->deliver` is the output.

The main result is `room_delivery`: what a participant receives is a contiguous part of the one
sequence of delivered messages.
-/

namespace AsioStudy

namespace Chat

variable {P M : Type*} [DecidableEq P]

/-- The class `chat_room`. -/
structure ChatRoom (P M : Type*) where
  /-- The participants, a set. -/
  participants : List P
  /-- The messages that a new participant is shown. -/
  recentMsgs : List M
  deriving DecidableEq, Repr

/-- `max_recent_msgs`. -/
def maxRecentMsgs : ℕ := 100

/-- `while (recent_msgs_.size() > max_recent_msgs) recent_msgs_.pop_front()`. -/
def popExcess : List M → List M
  | [] => []
  | m :: ms => if (m :: ms).length > maxRecentMsgs then popExcess ms else m :: ms

/-- A new room. -/
def ChatRoom.new : ChatRoom P M := ⟨[], []⟩

/-- `chat_room::join`. -/
def ChatRoom.join (room : ChatRoom P M) (participant : P) : ChatRoom P M × List (P × M) :=
  ({ room with participants := room.participants.insert participant },
    room.recentMsgs.map fun msg => (participant, msg))

/-- `chat_room::leave`. -/
def ChatRoom.leave (room : ChatRoom P M) (participant : P) : ChatRoom P M × List (P × M) :=
  ({ room with participants := room.participants.filter (· ≠ participant) }, [])

/-- `chat_room::deliver`. -/
def ChatRoom.deliver (room : ChatRoom P M) (msg : M) : ChatRoom P M × List (P × M) :=
  ({ room with recentMsgs := popExcess (room.recentMsgs ++ [msg]) },
    room.participants.map fun participant => (participant, msg))

/-- A call of a member of the room. -/
inductive Call (P M : Type*) where
  | join (participant : P)
  | leave (participant : P)
  | deliver (msg : M)
  deriving DecidableEq, Repr

/-- The effect of a call. -/
def ChatRoom.call (room : ChatRoom P M) : Call P M → ChatRoom P M × List (P × M)
  | .join participant => room.join participant
  | .leave participant => room.leave participant
  | .deliver msg => room.deliver msg

/-- The effect of a sequence of calls. -/
def ChatRoom.run (room : ChatRoom P M) (calls : List (Call P M)) : ChatRoom P M × List (P × M) :=
  Machine.runTotal ChatRoom.call room calls

/-! ## What the calls say -/

/-- The messages that were delivered to the room. -/
def delivered (calls : List (Call P M)) : List M :=
  calls.filterMap fun c =>
    match c with
    | .deliver msg => some msg
    | _ => none

/-- The participants that have joined. -/
def joined (calls : List (Call P M)) : List P :=
  calls.filterMap fun c =>
    match c with
    | .join participant => some participant
    | _ => none

/-- The messages that were passed to a participant. -/
def receivedBy (p : P) (log : List (P × M)) : List M :=
  (log.filter fun x => x.1 = p).map Prod.snd

omit [DecidableEq P] in
/-- The messages of two sequences of calls. -/
@[simp] lemma delivered_append (calls calls' : List (Call P M)) :
    delivered (calls ++ calls') = delivered calls ++ delivered calls' :=
  List.filterMap_append

/-- What a participant receives in two stretches of a run. -/
@[simp] lemma receivedBy_append (p : P) (log log' : List (P × M)) :
    receivedBy p (log ++ log') = receivedBy p log ++ receivedBy p log' := by
  rw [receivedBy, List.filter_append, List.map_append, receivedBy, receivedBy]

omit [DecidableEq P] in
/-- Who has joined did so by a call. -/
lemma mem_joined {calls : List (Call P M)} {p : P} : p ∈ joined calls ↔ .join p ∈ calls := by
  rw [joined, List.mem_filterMap]
  constructor
  · intro ⟨c, hc, heq⟩
    cases c with
    | join q =>
      have hqp : q = p := Option.some.inj heq
      rw [← hqp]
      exact hc
    | leave q => cases heq
    | deliver msg => cases heq
  · intro h
    exact ⟨_, h, rfl⟩

/-! ## The bounded history -/

/-- The loop keeps the most recent messages. -/
lemma popExcess_eq_lastN (msgs : List M) : popExcess msgs = History.lastN maxRecentMsgs msgs := by
  induction msgs with
  | nil => rfl
  | cons m ms ih =>
    rw [popExcess]
    split
    · rename_i hlong
      rw [ih, History.lastN_cons_of_le m (Nat.le_of_lt_succ hlong)]
    · rename_i hshort
      rw [History.lastN_of_length_le (Nat.le_of_not_gt hshort)]

/-- The run over a first call and further calls. -/
lemma run_cons (room : ChatRoom P M) (c : Call P M) (calls : List (Call P M)) :
    room.run (c :: calls) =
      (((room.call c).1.run calls).1, (room.call c).2 ++ ((room.call c).1.run calls).2) := rfl

/-- The run over two sequences of calls. -/
lemma run_append (room : ChatRoom P M) (calls calls' : List (Call P M)) :
    room.run (calls ++ calls') =
      (((room.run calls).1.run calls').1,
        (room.run calls).2 ++ ((room.run calls).1.run calls').2) :=
  Machine.runTotal_append _ _ _ _

/-- After any calls the room holds the most recent messages. -/
lemma recentMsgs_run {room : ChatRoom P M} {past : List M}
    (h : room.recentMsgs = History.lastN maxRecentMsgs past) (calls : List (Call P M)) :
    (room.run calls).1.recentMsgs = History.lastN maxRecentMsgs (past ++ delivered calls) := by
  induction calls generalizing room past with
  | nil =>
    have hnil : delivered ([] : List (Call P M)) = [] := rfl
    rw [hnil, List.append_nil]
    exact h
  | cons c calls ih =>
    rw [run_cons]
    cases c with
    | join p => exact ih h
    | leave p => exact ih h
    | deliver msg =>
      have hcons : delivered (.deliver msg :: calls) = [msg] ++ delivered calls := rfl
      rw [hcons, ← List.append_assoc]
      apply ih
      simp only [ChatRoom.call, ChatRoom.deliver]
      rw [popExcess_eq_lastN, h, History.lastN_append_lastN]

/-! ## What a participant receives -/

/-- A call passes nothing to a participant who is not in the room, and only joining brings it in. -/
lemma call_of_notMem {room : ChatRoom P M} {p : P} (hp : p ∉ room.participants) {c : Call P M}
    (hc : c ≠ .join p) :
    p ∉ (room.call c).1.participants ∧ receivedBy p (room.call c).2 = [] := by
  cases c with
  | join q =>
    have hne : p ≠ q := by
      intro heq
      exact hc (by rw [heq])
    refine ⟨?_, ?_⟩
    · simp only [ChatRoom.call, ChatRoom.join, List.mem_insert_iff, not_or]
      exact ⟨hne, hp⟩
    · simp [ChatRoom.call, ChatRoom.join, receivedBy, Ne.symm hne]
  | leave q =>
    refine ⟨?_, rfl⟩
    simp only [ChatRoom.call, ChatRoom.leave, List.mem_filter, not_and_or]
    exact Or.inl hp
  | deliver msg =>
    refine ⟨hp, ?_⟩
    simp only [ChatRoom.call, ChatRoom.deliver, receivedBy, List.filter_map, List.map_map]
    rw [List.map_eq_nil_iff, List.filter_eq_nil_iff]
    intro q hq hqp
    have hqp' : q = p := by simpa using hqp
    exact hp (hqp' ▸ hq)

/-- Someone who is not in the room receives nothing until joining. -/
lemma run_of_notMem {room : ChatRoom P M} {p : P} (hp : p ∉ room.participants)
    {calls : List (Call P M)} (hcalls : .join p ∉ calls) :
    p ∉ (room.run calls).1.participants ∧ receivedBy p (room.run calls).2 = [] := by
  induction calls generalizing room with
  | nil => exact ⟨hp, rfl⟩
  | cons c calls ih =>
    rw [List.mem_cons, not_or] at hcalls
    obtain ⟨hp', hout⟩ := call_of_notMem hp (Ne.symm hcalls.1)
    obtain ⟨hp'', hout'⟩ := ih hp' hcalls.2
    rw [run_cons]
    refine ⟨hp'', ?_⟩
    rw [receivedBy_append, hout, hout', List.append_nil]

/-- The participants are a set. -/
lemma nodup_call {room : ChatRoom P M} (h : room.participants.Nodup) (c : Call P M) :
    (room.call c).1.participants.Nodup := by
  cases c with
  | join q => exact h.insert
  | leave q => exact h.filter _
  | deliver msg => exact h

/-- The participants remain a set. -/
lemma nodup_run {room : ChatRoom P M} (h : room.participants.Nodup) (calls : List (Call P M)) :
    (room.run calls).1.participants.Nodup := by
  induction calls generalizing room with
  | nil => exact h
  | cons c calls ih => exact ih (nodup_call h c)

/-- A participant receives a delivered message once, and stays until leaving. -/
lemma call_of_mem {room : ChatRoom P M} (hnodup : room.participants.Nodup) {p : P}
    (hp : p ∈ room.participants) {c : Call P M} (hjoin : c ≠ .join p) (hleave : c ≠ .leave p) :
    p ∈ (room.call c).1.participants ∧ receivedBy p (room.call c).2 = delivered [c] := by
  cases c with
  | join q =>
    have hne : q ≠ p := by
      intro heq
      exact hjoin (by rw [heq])
    refine ⟨?_, ?_⟩
    · simp only [ChatRoom.call, ChatRoom.join, List.mem_insert_iff]
      exact Or.inr hp
    · simp [ChatRoom.call, ChatRoom.join, receivedBy, hne, delivered]
  | leave q =>
    have hne : p ≠ q := by
      intro heq
      exact hleave (by rw [heq])
    refine ⟨?_, rfl⟩
    simp only [ChatRoom.call, ChatRoom.leave, List.mem_filter]
    exact ⟨hp, by simpa using hne⟩
  | deliver msg =>
    refine ⟨hp, ?_⟩
    -- a set contains the participant exactly once
    have hfilter : room.participants.filter (· = p) = [p] := by
      have hcount := List.count_eq_one_of_mem hnodup hp
      rw [List.filter_eq, hcount]
      rfl
    simp only [ChatRoom.call, ChatRoom.deliver, receivedBy, List.filter_map, List.map_map]
    have hcomp : ((fun x : P × M => decide (x.1 = p)) ∘ fun q => (q, msg)) =
        fun q => decide (q = p) := rfl
    rw [hcomp, hfilter]
    rfl

/-- A participant receives exactly what is delivered until leaving. -/
lemma run_of_mem {room : ChatRoom P M} (hnodup : room.participants.Nodup) {p : P}
    (hp : p ∈ room.participants) {calls : List (Call P M)} (hjoin : .join p ∉ calls)
    (hleave : .leave p ∉ calls) :
    p ∈ (room.run calls).1.participants ∧
      receivedBy p (room.run calls).2 = delivered calls := by
  induction calls generalizing room with
  | nil => exact ⟨hp, rfl⟩
  | cons c calls ih =>
    rw [List.mem_cons, not_or] at hjoin hleave
    obtain ⟨hp', hout⟩ := call_of_mem hnodup hp (Ne.symm hjoin.1) (Ne.symm hleave.1)
    obtain ⟨hp'', hout'⟩ := ih (nodup_call hnodup c) hp' hjoin.2 hleave.2
    have hcons : delivered (c :: calls) = delivered [c] ++ delivered calls :=
      delivered_append [c] calls
    rw [run_cons]
    refine ⟨hp'', ?_⟩
    rw [receivedBy_append, hout, hout', hcons]

/-- The calls after someone has joined, up to the first time that one leaves. -/
def untilLeave (p : P) (calls : List (Call P M)) : List (Call P M) :=
  calls.takeWhile fun c =>
    match c with
    | .leave q => q ≠ p
    | _ => true

/-- What follows this stretch begins with the call by which the participant leaves. -/
lemma exists_untilLeave_append (p : P) (calls : List (Call P M)) :
    .leave p ∉ untilLeave p calls ∧ ∃ rest, calls = untilLeave p calls ++ rest ∧
      (rest = [] ∨ ∃ rest', rest = .leave p :: rest') := by
  induction calls with
  | nil => exact ⟨by simp [untilLeave], [], rfl, Or.inl rfl⟩
  | cons c calls ih =>
    obtain ⟨hnot, rest, hrest, hcases⟩ := ih
    by_cases hc : c = .leave p
    · subst hc
      have hnil : untilLeave p (.leave p :: calls) = [] := by simp [untilLeave]
      rw [hnil]
      exact ⟨by simp, .leave p :: calls, rfl, Or.inr ⟨calls, rfl⟩⟩
    · have hcons : untilLeave p (c :: calls) = c :: untilLeave p calls := by
        unfold untilLeave
        rw [List.takeWhile_cons_of_pos]
        cases c with
        | join q => rfl
        | leave q =>
          have hne : q ≠ p := by
            intro heq
            exact hc (by rw [heq])
          simpa using hne
        | deliver msg => rfl
      rw [hcons]
      refine ⟨?_, rest, ?_, hcases⟩
      · rw [List.mem_cons, not_or]
        exact ⟨Ne.symm hc, hnot⟩
      · rw [List.cons_append, ← hrest]

/-- What a member receives from now on, who does not join again. -/
lemma receivedBy_run_of_mem {room : ChatRoom P M} (hnodup : room.participants.Nodup) {p : P}
    (hp : p ∈ room.participants) {calls : List (Call P M)} (hcalls : .join p ∉ calls) :
    receivedBy p (room.run calls).2 = delivered (untilLeave p calls) := by
  obtain ⟨hleave, rest, hrest, hcases⟩ := exists_untilLeave_append p calls
  have hjoin : .join p ∉ untilLeave p calls ∧ .join p ∉ rest := by
    rw [hrest, List.mem_append, not_or] at hcalls
    exact hcalls
  obtain ⟨-, hmember⟩ := run_of_mem hnodup hp hjoin.1 hleave
  -- after leaving nothing is received
  have hafter : receivedBy p ((room.run (untilLeave p calls)).1.run rest).2 = [] := by
    rcases hcases with rfl | ⟨rest', rfl⟩
    · rfl
    · have hout : p ∉ ((room.run (untilLeave p calls)).1.call (.leave p)).1.participants := by
        simp [ChatRoom.call, ChatRoom.leave]
      have hrest' : .join p ∉ rest' := fun h => hjoin.2 (List.mem_cons_of_mem _ h)
      rw [run_cons, receivedBy_append, (run_of_notMem hout hrest').2]
      rfl
  calc receivedBy p (room.run calls).2
      = receivedBy p (room.run (untilLeave p calls ++ rest)).2 := by rw [← hrest]
    _ = delivered (untilLeave p calls) := by
      rw [run_append, receivedBy_append, hmember, hafter, List.append_nil]

/-- Somebody receives all messages of a list that are passed to that one. -/
lemma receivedBy_map_self (p : P) (msgs : List M) :
    receivedBy p (msgs.map fun msg => (p, msg)) = msgs := by
  induction msgs with
  | nil => rfl
  | cons msg msgs ih =>
    rw [receivedBy] at ih
    simp [receivedBy, ih]

/-- What someone receives who joins a new room once. -/
lemma receivedBy_run_join {p : P} {pre post : List (Call P M)} (hpre : .join p ∉ pre)
    (hpost : .join p ∉ post) :
    receivedBy p (ChatRoom.new.run (pre ++ .join p :: post)).2 =
      History.lastN maxRecentMsgs (delivered pre) ++ delivered (untilLeave p post) := by
  have hbefore : receivedBy p (ChatRoom.new.run pre).2 = [] :=
    (run_of_notMem (by simp [ChatRoom.new]) hpre).2
  have hrecent : (ChatRoom.new.run pre).1.recentMsgs =
      History.lastN maxRecentMsgs ([] ++ delivered pre) := recentMsgs_run rfl pre
  have hnodup : (ChatRoom.new.run pre).1.participants.Nodup := nodup_run List.nodup_nil pre
  have hshown : receivedBy p ((ChatRoom.new.run pre).1.call (.join p)).2 =
      History.lastN maxRecentMsgs (delivered pre) := by
    simp only [ChatRoom.call, ChatRoom.join, receivedBy_map_self, hrecent, List.nil_append]
  have hmem : p ∈ ((ChatRoom.new.run pre).1.call (.join p)).1.participants := by
    simp [ChatRoom.call, ChatRoom.join]
  rw [run_append, run_cons, receivedBy_append, receivedBy_append, hbefore, hshown,
    List.nil_append, receivedBy_run_of_mem (nodup_call hnodup _) hmem hpost]

/-! ## The order of the messages -/

omit [DecidableEq P] in
/-- Each joins once: the calls before and after the one by which somebody joins. -/
lemma join_notMem_of_nodup {p : P} {pre post : List (Call P M)}
    (h : (joined (pre ++ .join p :: post)).Nodup) : .join p ∉ pre ∧ .join p ∉ post := by
  have hsplit : joined (pre ++ .join p :: post) = joined pre ++ p :: joined post := by
    rw [joined, List.filterMap_append]
    rfl
  rw [hsplit, List.nodup_append] at h
  obtain ⟨-, hcons, hdisj⟩ := h
  refine ⟨fun hp => ?_, fun hp => ?_⟩
  · exact hdisj p (mem_joined.mpr hp) p List.mem_cons_self rfl
  · exact (List.nodup_cons.mp hcons).1 (mem_joined.mpr hp)

/-- What someone receives is a contiguous part of what was delivered to the room. -/
lemma receivedBy_isInfix {calls : List (Call P M)} (h : (joined calls).Nodup) (p : P) :
    receivedBy p (ChatRoom.new.run calls).2 <:+: delivered calls := by
  by_cases hp : .join p ∈ calls
  · obtain ⟨pre, post, rfl⟩ := List.append_of_mem hp
    obtain ⟨hpre, hpost⟩ := join_notMem_of_nodup h
    obtain ⟨-, rest, hrest, -⟩ := exists_untilLeave_append p post
    obtain ⟨old, hold⟩ := History.lastN_suffix maxRecentMsgs (delivered pre)
    refine ⟨old, delivered rest, ?_⟩
    have hcons : delivered (.join p :: post) = delivered post := rfl
    have hpost' : delivered post = delivered (untilLeave p post) ++ delivered rest := by
      rw [← delivered_append, ← hrest]
    rw [receivedBy_run_join hpre hpost, delivered_append, hcons, hpost', ← List.append_assoc, hold,
      List.append_assoc]
  · rw [(run_of_notMem (by simp [ChatRoom.new]) hp).2]
    exact List.nil_infix

/-- **One total order with bounded history.**  In a new room that everyone joins at most once, a
participant receives the last hundred messages delivered before joining and then all messages until
leaving, nobody else receives anything, and the room holds the last hundred messages.  What each
receives is therefore a contiguous part of the one sequence of delivered messages, and two
participants see the messages that they have in common in the same order. -/
theorem room_delivery [DecidableEq M] (calls : List (Call P M)) (hjoin : (joined calls).Nodup) :
    (∀ p pre post, calls = pre ++ .join p :: post →
      receivedBy p (ChatRoom.new.run calls).2 =
        History.lastN 100 (delivered pre) ++ delivered (untilLeave p post)) ∧
    (∀ p, .join p ∉ calls → receivedBy p (ChatRoom.new.run calls).2 = []) ∧
    (ChatRoom.new.run calls).1.recentMsgs = History.lastN 100 (delivered calls) ∧
    (∀ p, receivedBy p (ChatRoom.new.run calls).2 <:+: delivered calls) ∧
    ((delivered calls).Nodup → ∀ p q,
      (receivedBy p (ChatRoom.new.run calls).2).filter
          (· ∈ receivedBy q (ChatRoom.new.run calls).2) =
        (receivedBy q (ChatRoom.new.run calls).2).filter
          (· ∈ receivedBy p (ChatRoom.new.run calls).2)) := by
  have hmax : maxRecentMsgs = 100 := rfl
  rw [← hmax]
  refine ⟨?_, ?_, ?_, receivedBy_isInfix hjoin, ?_⟩
  · intro p pre post hcalls
    subst hcalls
    obtain ⟨hpre, hpost⟩ := join_notMem_of_nodup hjoin
    exact receivedBy_run_join hpre hpost
  · intro p hp
    exact (run_of_notMem (by simp [ChatRoom.new]) hp).2
  · have hrecent : (ChatRoom.new.run calls).1.recentMsgs =
        History.lastN maxRecentMsgs ([] ++ delivered calls) := recentMsgs_run rfl calls
    rw [hrecent, List.nil_append]
  · intro hnodup p q
    exact History.filter_mem_comm (receivedBy_isInfix hjoin p).sublist
      (receivedBy_isInfix hjoin q).sublist hnodup

/-- Two participants, one of whom joins late and leaves early. -/
theorem room_delivery_late_joiner :
    ∃ calls : List (Call ℕ ℕ),
      calls = [.join 0, .deliver 7, .join 1, .deliver 8, .leave 1, .deliver 9] ∧
      (∀ p pre post, calls = pre ++ .join p :: post →
        receivedBy p (ChatRoom.new.run calls).2 =
          History.lastN 100 (delivered pre) ++ delivered (untilLeave p post)) ∧
      (∀ p, .join p ∉ calls → receivedBy p (ChatRoom.new.run calls).2 = []) ∧
      (ChatRoom.new.run calls).1.recentMsgs = History.lastN 100 (delivered calls) ∧
      (∀ p, receivedBy p (ChatRoom.new.run calls).2 <:+: delivered calls) ∧
      ((delivered calls).Nodup → ∀ p q,
        (receivedBy p (ChatRoom.new.run calls).2).filter
            (· ∈ receivedBy q (ChatRoom.new.run calls).2) =
          (receivedBy q (ChatRoom.new.run calls).2).filter
            (· ∈ receivedBy p (ChatRoom.new.run calls).2)) :=
  ⟨[.join 0, .deliver 7, .join 1, .deliver 8, .leave 1, .deliver 9], rfl,
    room_delivery _ (by decide)⟩

end Chat

end AsioStudy
