import AsioStudy.Http.Server4Refinement

/-!
# Does the coroutine server go on accepting?

In `http_server1` the handler of an accept calls `do_accept` again whatever its error code is.  In
`http_server4` the coroutine that accepts and its children are copies of one object, and the test
`if (!ec)` in front of the coroutine, which ends a child whose socket has failed, also ends the
parent when an accept has failed.

`accepting_iff` says exactly when the server keeps its accept outstanding: as long as no handler of
an accept is called with an error.  After the first such call no accept is ever outstanding again.
-/

namespace AsioStudy

namespace Http

namespace Server4

/-- The operation is an `async_accept` on the acceptor. -/
def AsyncOp.isAccept : AsyncOp → Bool
  | .asyncAccept _ => true
  | _ => false

/-- An accept is one. -/
@[simp] lemma isAccept_asyncAccept (a : ℕ) : (AsyncOp.asyncAccept a).isAccept = true := rfl

/-- A read is not an accept. -/
@[simp] lemma isAccept_asyncReadSome (a b : ℕ) :
    (AsyncOp.asyncReadSome a b).isAccept = false := rfl

/-- A write is not an accept. -/
@[simp] lemma isAccept_asyncWrite (a : ℕ) (w : Bytes) :
    (AsyncOp.asyncWrite a w).isAccept = false := rfl

/-- The number of accepts whose handlers have not run. -/
def State.acceptsOutstanding (s : State) : ℕ := s.pending.countP fun p => p.op.isAccept

/-- The event is the call of the handler of an accept that has failed. -/
def State.FailsAccept (s : State) : Event → Prop
  | .complete _ _ _ => False
  | .handle k _ =>
    ∃ p ec data, s.pending[k]? = some p ∧ p.op.isAccept = true ∧ p.result = some (ec, data) ∧
      ec ≠ .success

variable {docRoot : Bytes} {fs : FileSystem}

/-- Taking a pending operation away lowers the number of accepts if it is one. -/
lemma countP_eraseIdx {l : List Pending} {k : ℕ} {p : Pending} (hp : l[k]? = some p) :
    (l.eraseIdx k).countP (fun p => p.op.isAccept) + (if p.op.isAccept then 1 else 0) =
      l.countP fun p => p.op.isAccept := by
  rw [(perm_cons_eraseIdx hp).countP_eq, List.countP_cons]

/-- The completion of an operation does not change which operations are outstanding. -/
lemma countP_set_result {l : List Pending} {k : ℕ} {p : Pending} (hp : l[k]? = some p)
    (result : Option (ErrorCode × Bytes)) :
    (l.set k { p with result := result }).countP (fun p => p.op.isAccept) =
      l.countP fun p => p.op.isAccept := by
  have hlt : k < l.length := (List.getElem?_eq_some_iff.mp hp).1
  rw [(set_perm_cons_eraseIdx hp _).countP_eq, List.countP_cons, ← countP_eraseIdx hp]

/-- What the call of a handler does to the operations: an accept that has succeeded is replaced, and
no other handler starts one. -/
lemma State.Inv.acceptsOutstanding_call {content : Bytes} {s s' : State} {out o : List Output}
    (h : s.Inv docRoot fs content out) {k : ℕ} {p : Pending} (hp : s.pending[k]? = some p)
    {ec : ErrorCode} {data : Bytes} (hresult : p.result = some (ec, data)) (content' : Bytes)
    (hcall : p.handler.call docRoot fs ec data.length content' ⟨s.heap, s.pending.eraseIdx k⟩ =
      some (s', o)) :
    s'.acceptsOutstanding + (if p.op.isAccept ∧ ec ≠ .success then 1 else 0) =
      s.acceptsOutstanding := by
  have herase := countP_eraseIdx hp
  have hok := h.ok p (List.mem_of_getElem? hp)
  by_cases hec : ec = .success
  · subst hec
    unfold Pending.Ok at hok
    cases hop : p.op with
    | asyncAccept a =>
      rw [hop] at hok herase
      rw [hok.1, call_accept] at hcall
      cases hcall
      -- the parent takes the place of the handler
      simpa [State.acceptsOutstanding] using herase
    | asyncReadSome a b =>
      rw [hop] at hok herase
      obtain ⟨-, r, res, ses, -, hhandler, hr, -, -, buf, hb, -⟩ := hok
      rw [hhandler, call_read hr hb] at hcall
      cases hcall
      have hnext : ∀ replies o',
          (nextPending docRoot fs a b r replies o').op.isAccept = false := by
        intro replies o'
        unfold nextPending
        split <;> rfl
      simpa [State.acceptsOutstanding, hnext] using herase
    | asyncWrite a w =>
      rw [hop] at hok herase
      obtain ⟨-, hpos, hsock, -⟩ := hok
      simp only [Server.call, hpos, hsock] at hcall
      cases hcall
      simpa [State.acceptsOutstanding] using herase
  · rw [Server.call, if_neg hec] at hcall
    cases hcall
    simpa [State.acceptsOutstanding, hec] using herase

/-- An event lowers the number of outstanding accepts exactly if it is the call of the handler of a
failed accept. -/
lemma State.Inv.acceptsOutstanding_step {content : Bytes} {s s' : State} {out o : List Output}
    {e : Event} (h : s.Inv docRoot fs content out) (hstep : s.step docRoot fs e = some (s', o)) :
    (s.FailsAccept e → s'.acceptsOutstanding + 1 = s.acceptsOutstanding) ∧
      (¬ s.FailsAccept e → s'.acceptsOutstanding = s.acceptsOutstanding) := by
  rcases State.step_cases hstep with
    ⟨k, ec, data, p, rfl, hp, -, -, rfl, -⟩ |
    ⟨k, content', p, ec, data, o', rfl, hp, hresult, hcall, -⟩
  · exact ⟨False.elim, fun _ => countP_set_result hp _⟩
  · have hcount := h.acceptsOutstanding_call hp hresult content' hcall
    have hfails : s.FailsAccept (.handle k content') ↔ p.op.isAccept = true ∧ ec ≠ .success := by
      constructor
      · rintro ⟨q, ec', data', hq, haccept, hresult', hec⟩
        obtain rfl : p = q := Option.some.inj (hp.symm.trans hq)
        cases hresult.symm.trans hresult'
        exact ⟨haccept, hec⟩
      · rintro ⟨haccept, hec⟩
        exact ⟨p, ec, data, hp, haccept, hresult, hec⟩
    rw [hfails]
    constructor
    · intro hfail
      rw [if_pos hfail] at hcount
      exact hcount
    · intro hfail
      rw [if_neg hfail] at hcount
      exact hcount

/-- The invariant, whatever the program has done so far. -/
def State.Sound (docRoot : Bytes) (fs : FileSystem) (s : State) : Prop :=
  ∃ out, s.Inv docRoot fs [] out

/-- Every event keeps the invariant. -/
lemma State.Sound.step {s s' : State} {o : List Output} {e : Event} (h : s.Sound docRoot fs)
    (hstep : s.step docRoot fs e = some (s', o)) : s'.Sound docRoot fs := by
  obtain ⟨out, hinv⟩ := h
  exact ⟨out ++ o, hinv.step hstep⟩

/-- No event brings an accept back. -/
lemma State.Sound.acceptsOutstanding_run_le {s s' : State} {events : List Event}
    {o : List Output} (h : s.Sound docRoot fs)
    (hrun : Machine.run (State.step docRoot fs) s events = some (s', o)) :
    s'.Sound docRoot fs ∧ s'.acceptsOutstanding ≤ s.acceptsOutstanding := by
  refine Machine.run_invariant (I := fun t => t.Sound docRoot fs ∧
    t.acceptsOutstanding ≤ s.acceptsOutstanding) ?_ hrun ⟨h, le_rfl⟩
  rintro t t' e o ⟨ht, hle⟩ hstep
  obtain ⟨out, hinv⟩ := id ht
  obtain ⟨hfail, hkeep⟩ := hinv.acceptsOutstanding_step hstep
  refine ⟨ht.step hstep, ?_⟩
  by_cases hf : t.FailsAccept e
  · have := hfail hf
    omega
  · rw [hkeep hf]
    exact hle

/-- **When the coroutine server keeps accepting.**  In every run, with any interleaving of accepts,
reads and writes and any errors: exactly one accept is outstanding in every state of the run if and
only if no event of the run is the call of the handler of an accept that has failed.  If there was
such a call, no accept is outstanding in the end. -/
theorem accepting_iff (docRoot : Bytes) (fs : FileSystem) (events : List Event) (s : State)
    (out : List Output)
    (hrun : Machine.run (State.step docRoot fs) State.init events = some (s, out)) :
    (Machine.Always (State.step docRoot fs) (fun t => t.acceptsOutstanding = 1) State.init events ↔
      Machine.AtEach (State.step docRoot fs) (fun t e => ¬ t.FailsAccept e) State.init events) ∧
      (¬ Machine.AtEach (State.step docRoot fs) (fun t e => ¬ t.FailsAccept e) State.init events →
        s.acceptsOutstanding = 0) := by
  have hinit : State.init.Sound docRoot fs := ⟨[], inv_init⟩
  have hone : ∀ (t t' : State) e o, t.Sound docRoot fs → t.acceptsOutstanding = 1 →
      t.step docRoot fs e = some (t', o) → (t'.acceptsOutstanding = 1 ↔ ¬ t.FailsAccept e) := by
    rintro t t' e o ⟨acts, hinv⟩ hone hstep
    obtain ⟨hfail, hkeep⟩ := hinv.acceptsOutstanding_step hstep
    by_cases hf : t.FailsAccept e
    · have := hfail hf
      exact iff_of_false (by omega) (not_not_intro hf)
    · exact iff_of_true ((hkeep hf).trans hone) hf
  have hiff := Machine.always_iff_atEach (fun _ _ _ _ ht hstep => ht.step hstep) hone hrun hinit rfl
  refine ⟨hiff, fun hnot => ?_⟩
  by_contra hne
  refine hnot (hiff.mp ?_)
  -- the number of accepts never grows, so that it has been 1 all the time
  intro fs' gs t o hevents ht
  rw [hevents] at hrun
  obtain ⟨t', o₁, o₂, ht', hrest, -⟩ := Machine.run_append_iff.mp hrun
  rw [ht] at ht'
  cases ht'
  obtain ⟨hsound, hle⟩ := hinit.acceptsOutstanding_run_le ht
  have hle' := (hsound.acceptsOutstanding_run_le hrest).2
  have hinit_eq : State.init.acceptsOutstanding = 1 := rfl
  omega

/-- Two connections are accepted, and then a read fails. -/
theorem accepting_iff_read_error :
    ∃ s out, Machine.run (State.step [] fun _ => none) State.init
        [.complete 0 .success [], .handle 0 [], .complete 1 .success [], .handle 1 [],
          .complete 0 .other [], .handle 0 []] = some (s, out) ∧
      (Machine.Always (State.step [] fun _ => none) (fun t => t.acceptsOutstanding = 1) State.init
          [.complete 0 .success [], .handle 0 [], .complete 1 .success [], .handle 1 [],
            .complete 0 .other [], .handle 0 []] ↔
        Machine.AtEach (State.step [] fun _ => none) (fun t e => ¬ t.FailsAccept e) State.init
          [.complete 0 .success [], .handle 0 [], .complete 1 .success [], .handle 1 [],
            .complete 0 .other [], .handle 0 []]) :=
  ⟨_, _, rfl, (accepting_iff [] (fun _ => none) _ _ _ rfl).1⟩

/-- The first accept fails, for example because no descriptor is free; its handler starts no other
one. -/
theorem accept_lost_after_error :
    ∃ s out, Machine.run (State.step [] fun _ => none) State.init
        [.complete 0 .other [], .handle 0 []] = some (s, out) ∧ s.acceptsOutstanding ≠ 1 :=
  ⟨_, _, rfl, Nat.zero_ne_one⟩

end Server4

end Http

end AsioStudy
