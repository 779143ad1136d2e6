import AsioStudy.Chat.Path

/-!
# The framing survives the path

What a run of the path shows: the session delivers to the room the messages that the client has
written, in their order, the member's session writes their frames, and the member's client prints
their bodies.  At every moment this is true of a first part of the messages; the work on them ends
after a bounded number of events, and where it ends it is true of all of them.

The main result is `framing_end_to_end`.
-/

namespace AsioStudy

namespace Chat

/-- The messages that a client builds from lines of input: each line comes with the bytes that were
in the array of its message before. -/
def clientMsgs (lines : List (Bytes × Bytes)) : List ChatMessage :=
  lines.map fun line => ChatMessage.ofBody line.1 line.2

/-- What a run of the path has to show of the messages of the client. -/
structure FramingProperties (member sender : ℕ) (lines : List (Bytes × Bytes))
    (events : List PathEvent) (s : Path) (out : List PathOutput) : Prop where
  /-- The messages delivered to the room are the first messages of the client: their bodies are
  the lines, and they have the same bytes. -/
  delivered : (deliveredMsgs out).map ChatMessage.bodyBytes <+: lines.map Prod.snd ∧
    (deliveredMsgs out).map ChatMessage.wire <+: (clientMsgs lines).map ChatMessage.wire
  /-- The member's session sends a first part of the bytes of the client. -/
  sent : sentBytes out <+: wires (clientMsgs lines)
  /-- The member's client prints the first lines. -/
  printed : printedBodies out <+: lines.map Prod.snd
  /-- Only finitely many events can happen to the messages. -/
  bounded : (events.filter PathEvent.isProgress).length ≤
    3 * (wires (clientMsgs lines)).length + 5 * lines.length
  /-- When nothing can happen to the messages any more, all of them have gone the whole way. -/
  complete : (∀ e : PathEvent, e.isProgress = true → s.step member sender e = none) →
    (deliveredMsgs out).map ChatMessage.bodyBytes = lines.map Prod.snd ∧
      (deliveredMsgs out).map ChatMessage.wire = (clientMsgs lines).map ChatMessage.wire ∧
      sentBytes out = wires (clientMsgs lines) ∧ printedBodies out = lines.map Prod.snd

/-! ## Frames and messages -/

/-- Delivered frames have the bytes of the frames of their bodies. -/
lemma map_wire_eq {msgs : List ChatMessage} (h : ∀ msg ∈ msgs, msg.IsFrame) :
    msgs.map ChatMessage.wire = (msgs.map ChatMessage.bodyBytes).map frame := by
  rw [List.map_map]
  exact List.map_congr_left h

/-- The client writes the frames of its lines. -/
lemma clientMsgs_isFrame {lines : List (Bytes × Bytes)}
    (h : ∀ line ∈ lines, line.1.length = 516 ∧ line.2.length ≤ maxBodyLength) :
    (∀ msg ∈ clientMsgs lines, msg.IsFrame) ∧
      (clientMsgs lines).map ChatMessage.bodyBytes = lines.map Prod.snd := by
  refine ⟨?_, ?_⟩
  · intro msg hmsg
    obtain ⟨line, hline, rfl⟩ := List.mem_map.mp hmsg
    obtain ⟨hwire, hbody⟩ := wire_ofBody (h line hline).1 (h line hline).2
    rw [ChatMessage.IsFrame, hwire, hbody]
  · rw [clientMsgs, List.map_map]
    refine List.map_congr_left fun line hline => ?_
    exact (wire_ofBody (h line hline).1 (h line hline).2).2

/-- The frames of the first bodies are the first part of the frames. -/
lemma frames_isPrefix {bodies bodies' : List Bytes} (h : bodies <+: bodies') :
    frames bodies <+: frames bodies' := by
  obtain ⟨rest, rfl⟩ := h
  exact ⟨frames rest, (List.flatMap_append ..).symm⟩

/-! ## Runs -/

variable {member sender : ℕ} {bodies : List Bytes} {s : Path} {out : List PathOutput}
  {back : List Bytes} {events : List WriteEvent} {wout : List WriteOutput}

/-- The invariant holds before anything has arrived. -/
lemma inv_start {room : ChatRoom ℕ ChatMessage} (hnodup : room.participants.Nodup)
    (hmember : member ∈ room.participants) {content content' : Bytes}
    (hcontent : content.length = 516) (hcontent' : content'.length = 516)
    (hbodies : ∀ body ∈ bodies, body.length ≤ maxBodyLength) :
    (Path.start room content content' (frames bodies)).Inv member bodies [] := by
  refine ⟨⟨bodies, rfl, reads_new hcontent hbodies⟩, [], [], [], ?_⟩
  have hclient : (ReadLoop.new content').Reads (frames []) [] := reads_new hcontent' (by simp)
  exact ⟨by simp [deliveredMsgs], by simp [deliveredMsgs], hmember, hnodup,
    SingleWriter.inv_new, rfl, rfl, le_rfl, rfl, rfl, hclient⟩

/-- The invariant holds after every run, and the events of the run are paid by what was done. -/
lemma inv_of_run {start : Path} {events : List PathEvent}
    (hstart : start.Inv member bodies [])
    (hrun : Machine.run (Path.step member sender) start events = some (s, out)) :
    s.Inv member bodies out ∧
      s.debt + start.done [] + (events.filter PathEvent.isProgress).length ≤
        start.debt + s.done out := by
  refine Machine.run_history
    (I := fun s events out => s.Inv member bodies out ∧
      s.debt + start.done [] + (events.filter PathEvent.isProgress).length ≤
        start.debt + s.done out) hrun ⟨hstart, le_rfl⟩ ?_
  intro s s' e events out o ⟨hinv, hpaid⟩ hstep
  obtain ⟨hinv', hprogress⟩ := hinv.step hstep
  refine ⟨hinv', ?_⟩
  have hcount : ([e].filter PathEvent.isProgress).length = if e.isProgress then 1 else 0 := by
    cases h : e.isProgress <;> simp [h]
  rw [List.filter_append, List.length_append, hcount]
  omega

/-- The messages delivered so far have been sent, in part or as a whole, in their order. -/
lemma Path.Back.sent_isPrefix (h : s.Back member out back events wout) :
    sentBytes out <+: frames ((deliveredMsgs out).map ChatMessage.bodyBytes) := by
  have hwires : wires (deliveredMsgs out) =
      wires (SingleWriter.written wout) ++ wires s.writer.queue := by
    rw [← h.queued_eq, h.writer_inv.conserved]
    exact List.flatMap_append ..
  rw [← wires_eq_frames h.isFrame, hwires, h.sent_eq]
  exact (List.prefix_append_right_inj _).mpr (List.take_prefix _ _)

/-- What has been done is bounded by the messages. -/
lemma Path.Inv.done_le (h : s.Inv member bodies out) :
    s.done out ≤ 2 * (frames bodies).length + 5 * bodies.length := by
  obtain ⟨rest, hbodies, hreads⟩ := h.forward
  obtain ⟨back, events, wout, hback⟩ := h.back
  have hsession := hreads.begun_le
  have hclient := hback.client_reads.begun_le
  have hdelivered : bodies.length = (deliveredMsgs out).length + rest.length := by
    rw [hbodies, List.length_append, List.length_map]
  have hprinted : (deliveredMsgs out).length = (printedBodies out).length + back.length := by
    have hlength := congrArg List.length hback.printed_eq
    rwa [List.length_map, List.length_append] at hlength
  have hsent : (sentBytes out).length ≤ (frames bodies).length := by
    refine (hback.sent_isPrefix.trans (frames_isPrefix ?_)).length_le
    exact ⟨rest, hbodies.symm⟩
  unfold Path.done
  omega

/-! ## The end of the work -/

/-- When the client's session can do nothing any more, it has read everything. -/
lemma Path.Inv.read_all (h : s.Inv member bodies out)
    (hquiet : ∀ e : PathEvent, e.isProgress = true → s.step member sender e = none) :
    (deliveredMsgs out).map ChatMessage.bodyBytes = bodies := by
  obtain ⟨rest, hbodies, hreads⟩ := h.forward
  have hcoming : s.coming = [] := by
    by_contra hne
    have hpos := List.length_pos_iff.mpr hne
    have hnone := hquiet (.arrive s.coming.length) rfl
    rw [Path.step, if_pos ⟨hpos, le_rfl⟩] at hnone
    cases hnone
  have hrest : rest = [] := by
    by_contra hne
    have hwanted := hreads.wanted_le hne
    rw [hcoming, List.append_nil] at hwanted
    have hnone := hquiet .read rfl
    rw [Path.step, if_pos ⟨hreads.phase_ne, hwanted⟩] at hnone
    cases hnone
  rw [hbodies, hrest, List.append_nil]

/-- When the member's session can write nothing any more, its queue is empty. -/
lemma Path.Back.queue_eq_nil (h : s.Back member out back events wout)
    (hquiet : ∀ e : PathEvent, e.isProgress = true → s.step member sender e = none) :
    s.writer.queue = [] := by
  by_contra hne
  obtain ⟨msg, msgs, hqueue⟩ := List.exists_cons_of_ne_nil hne
  have hflight : s.writer.inFlight = [msg] := by
    rw [h.writer_inv.inFlight_eq h.not_failed, hqueue]
    rfl
  have hle : s.transmitted ≤ msg.wire.length := by
    have hle := h.transmitted_le
    rw [hqueue] at hle
    simpa [wires] using hle
  rcases Nat.lt_or_ge s.transmitted msg.wire.length with hlt | hge
  · have hnone := hquiet (.transmit (msg.wire.length - s.transmitted)) rfl
    simp only [Path.step, hflight] at hnone
    rw [if_pos (by omega)] at hnone
    cases hnone
  · have hnone := hquiet .written rfl
    simp only [Path.step, hflight] at hnone
    rw [if_pos (le_antisymm hle hge)] at hnone
    cases hnone

/-- When nothing can happen on the way back any more, everything was sent and printed. -/
lemma Path.Back.print_all (h : s.Back member out back events wout)
    (hquiet : ∀ e : PathEvent, e.isProgress = true → s.step member sender e = none) :
    sentBytes out = frames ((deliveredMsgs out).map ChatMessage.bodyBytes) ∧
      printedBodies out = (deliveredMsgs out).map ChatMessage.bodyBytes := by
  have hqueue := h.queue_eq_nil hquiet
  have hcoming : s.comingBack = [] := by
    by_contra hne
    have hpos := List.length_pos_iff.mpr hne
    have hnone := hquiet (.arriveBack s.comingBack.length) rfl
    rw [Path.step, if_pos ⟨hpos, le_rfl⟩] at hnone
    cases hnone
  have hreads := h.client_reads
  have hwires : wires s.writer.queue = [] := by
    rw [hqueue]
    rfl
  rw [hcoming, hwires, List.drop_nil, List.append_nil, List.append_nil] at hreads
  have hback : back = [] := by
    by_contra hne
    have hwanted := hreads.wanted_le hne
    have hnone := hquiet .readBack rfl
    rw [Path.step, if_pos ⟨hreads.phase_ne, hwanted⟩] at hnone
    cases hnone
  refine ⟨?_, ?_⟩
  · have hwritten : SingleWriter.written wout = deliveredMsgs out := by
      rw [← h.queued_eq, h.writer_inv.conserved, hqueue, List.append_nil]
    rw [h.sent_eq, hwires, List.take_nil, List.append_nil, hwritten, wires_eq_frames h.isFrame]
  · rw [h.printed_eq, hback, List.append_nil]

/-- **Framing from client to client.**  For all lines of at most 512 bytes, whatever was in the
arrays of the messages before, in whatever portions the bytes arrive and in whatever order the
handlers run: the session delivers exactly the messages of the client, the session of a member
sends exactly their bytes, and the client of the member prints exactly the lines. -/
theorem framing_end_to_end (member sender : ℕ) (lines : List (Bytes × Bytes))
    (hlines : ∀ line ∈ lines, line.1.length = 516 ∧ line.2.length ≤ maxBodyLength)
    (room : ChatRoom ℕ ChatMessage) (hnodup : room.participants.Nodup)
    (hmember : member ∈ room.participants) (content content' : Bytes)
    (hcontent : content.length = 516) (hcontent' : content'.length = 516)
    (events : List PathEvent) (s : Path) (out : List PathOutput)
    (hrun : Machine.run (Path.step member sender)
      (Path.start room content content' (wires (clientMsgs lines))) events = some (s, out)) :
    FramingProperties member sender lines events s out := by
  obtain ⟨hframe, hbodies⟩ := clientMsgs_isFrame hlines
  have hwires : wires (clientMsgs lines) = frames (lines.map Prod.snd) := by
    rw [wires_eq_frames hframe, hbodies]
  have hlen : ∀ body ∈ lines.map Prod.snd, body.length ≤ maxBodyLength := by
    intro body hbody
    obtain ⟨line, hline, rfl⟩ := List.mem_map.mp hbody
    exact (hlines line hline).2
  have hmap : (clientMsgs lines).map ChatMessage.wire = (lines.map Prod.snd).map frame := by
    rw [map_wire_eq hframe, hbodies]
  rw [hwires] at hrun
  obtain ⟨hinv, hpaid⟩ := inv_of_run (inv_start hnodup hmember hcontent hcontent' hlen) hrun
  obtain ⟨back, wevents, wout, hback⟩ := hinv.back
  have hdelivered : (deliveredMsgs out).map ChatMessage.bodyBytes <+: lines.map Prod.snd := by
    obtain ⟨rest, hrest, -⟩ := hinv.forward
    exact ⟨rest, hrest.symm⟩
  refine ⟨⟨hdelivered, ?_⟩, ?_, ?_, ?_, ?_⟩
  · rw [hmap, map_wire_eq hback.isFrame]
    exact hdelivered.map frame
  · rw [hwires]
    exact hback.sent_isPrefix.trans (frames_isPrefix hdelivered)
  · have hprinted : printedBodies out <+: (deliveredMsgs out).map ChatMessage.bodyBytes :=
      ⟨back, hback.printed_eq.symm⟩
    exact hprinted.trans hdelivered
  · have hdebt : (Path.start room content content' (frames (lines.map Prod.snd))).debt =
        (frames (lines.map Prod.snd)).length := rfl
    have hdone := hinv.done_le
    rw [List.length_map] at hdone
    rw [hwires]
    omega
  · intro hquiet
    have hread := hinv.read_all hquiet
    obtain ⟨hsent, hprinted⟩ := hback.print_all hquiet
    rw [hmap, hwires, map_wire_eq hback.isFrame, hsent, hprinted, hread]
    exact ⟨rfl, rfl, rfl, rfl⟩

/-- A long line followed by a short one, which are read into the same array; all bytes arrive at
once at the server and in two portions at the client. -/
theorem framing_end_to_end_two_lines :
    let lines := [(List.replicate 516 0, bytes "9 letters"), (List.replicate 516 88, bytes "7")]
    let room : ChatRoom ℕ ChatMessage := ⟨[1, 2], []⟩
    let events : List PathEvent := [.arrive 18, .read, .read, .transmit 13, .otherLeaves 1, .read,
      .read, .written, .transmit 5, .arriveBack 8, .arriveBack 10, .readBack, .readBack, .written,
      .readBack, .readBack]
    ∃ s out, Machine.run (Path.step 2 1) (Path.start room (List.replicate 516 77)
        (List.replicate 516 77) (wires (clientMsgs lines))) events = some (s, out) ∧
      printedBodies out = [bytes "9 letters", bytes "7"] ∧
      FramingProperties 2 1 lines events s out := by
  intro lines room events
  have hprinted : (Machine.run (Path.step 2 1) (Path.start room (List.replicate 516 77)
      (List.replicate 516 77) (wires (clientMsgs lines))) events).map
        (fun r => printedBodies r.2) = some [bytes "9 letters", bytes "7"] := by
    decide +kernel
  obtain ⟨⟨s, out⟩, hrun, hout⟩ := Option.map_eq_some_iff.mp hprinted
  have hlines : ∀ line ∈ lines, line.1.length = 516 ∧ line.2.length ≤ maxBodyLength := by
    decide +kernel
  exact ⟨s, out, hrun, hout, framing_end_to_end 2 1 lines hlines room (by decide) (by decide) _ _
    List.length_replicate List.length_replicate events s out hrun⟩

end Chat

end AsioStudy
