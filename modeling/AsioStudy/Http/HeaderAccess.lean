import AsioStudy.Http.RequestParser

/-!
# The last header

Four states of the parser use `req.headers.back()` without a test, which is undefined for an empty
list.  `RequestParser.backAccess` is the list of which a call of `consume` takes the last element,
if it does so.

`HasLastHeader` is the invariant that relates the state to the headers.  It does not depend on the
result of a call, so that it also holds when the caller goes on after a definite result.  The main
result is `hasLastHeader_feed`.
-/

namespace AsioStudy

namespace Http

/-! ## Where the last header is used -/

/-- The list `headers` whose `back()` is evaluated in a call of `consume`, if this happens. -/
def RequestParser.backAccess (p : RequestParser) (req : Request) (input : UInt8) :
    Option (List Header) :=
  let c := charToInt input
  match p.state with
  | .headerLineStart =>
    if input = ch '\r' then none
    else if !req.headers.isEmpty && (input == ch ' ' || input == ch '\t') then none
    else if !isChar c || isCtl c || isTspecial c then none
    else some req.pushHeader.headers
  | .headerLws =>
    if input = ch '\r' then none
    else if input = ch ' ' ∨ input = ch '\t' then none
    else if isCtl c then none
    else some req.headers
  | .headerName =>
    if input = ch ':' then none
    else if !isChar c || isCtl c || isTspecial c then none
    else some req.headers
  | .headerValue =>
    if input = ch '\r' then none
    else if isCtl c then none
    else some req.headers
  | _ => none

/-- Whether an element is modified by a call of `consume` is told by `backAccess`: the call leaves
the headers alone, or it modifies the last one of the list that `backAccess` yields. -/
lemma headers_consume (p : RequestParser) (req : Request) (input : UInt8) :
    ∃ f, (p.consume req input).2.2.headers =
      (p.backAccess req input).elim req.headers (modifyBack f) := by
  obtain ⟨state⟩ := p
  cases state with
  | headerLineStart | headerName =>
    refine ⟨fun h => { h with name := h.name ++ [input] }, ?_⟩
    simp only [RequestParser.consume, RequestParser.backAccess]
    split_ifs <;> rfl
  | headerLws | headerValue =>
    refine ⟨fun h => { h with value := h.value ++ [input] }, ?_⟩
    simp only [RequestParser.consume, RequestParser.backAccess]
    split_ifs <;> rfl
  | expectingNewline3 => exact ⟨id, rfl⟩
  | _ =>
    refine ⟨id, ?_⟩
    simp only [RequestParser.consume, RequestParser.backAccess, Option.elim_none]
    split_ifs <;> rfl

/-! ## The invariant -/

/-- The states in which there is a header: it is being read, or its line has just been read. -/
def ParserState.isInHeader : ParserState → Bool
  | .headerName | .spaceBeforeHeaderValue | .headerValue | .headerLws | .expectingNewline2 => true
  | _ => false

/-- There is a last header, and it has a name. -/
def HasNamedBack (headers : List Header) : Prop :=
  ∃ h, headers.getLast? = some h ∧ h.name ≠ []

/-- A list with a last header is not empty. -/
lemma HasNamedBack.ne_nil {headers : List Header} (h : HasNamedBack headers) : headers ≠ [] := by
  rintro rfl
  obtain ⟨a, hlast, -⟩ := h
  cases hlast

/-- Modifying the last header keeps its name if the modification does so. -/
lemma HasNamedBack.modifyBack {headers : List Header} (h : HasNamedBack headers)
    {f : Header → Header} (hf : ∀ a, a.name ≠ [] → (f a).name ≠ []) :
    HasNamedBack (modifyBack f headers) := by
  obtain ⟨a, hlast, hname⟩ := h
  refine ⟨f a, ?_, hf a hname⟩
  rw [Http.modifyBack, hlast, List.getLast?_concat]

/-- The relation between the state of the parser and the headers that it has made: every list of
headers has a named last one, and in some states there are headers. -/
structure HasLastHeader (q : RequestParser × Request) : Prop where
  /-- A header that has been begun has a name. -/
  named : q.2.headers ≠ [] → HasNamedBack q.2.headers
  /-- Within a header, there is one. -/
  ne_nil : q.1.state.isInHeader = true → q.2.headers ≠ []

/-- A fresh parser and an empty request. -/
lemma hasLastHeader_fresh : HasLastHeader (.fresh, .empty) :=
  ⟨fun h => absurd rfl h, fun h => by cases h⟩

/-- A call that leaves the headers alone keeps the relation, unless it enters a header where there
is none. -/
lemma HasLastHeader.of_headers_eq {q q' : RequestParser × Request} (h : HasLastHeader q)
    (hheaders : q'.2.headers = q.2.headers)
    (hstate : q'.1.state.isInHeader = true → q.2.headers ≠ []) : HasLastHeader q' :=
  ⟨by rw [hheaders]; exact h.named, by rw [hheaders]; exact hstate⟩

/-- A call after which the last header has a name keeps it. -/
lemma hasLastHeader_of_named {q : RequestParser × Request} (h : HasNamedBack q.2.headers) :
    HasLastHeader q := ⟨fun _ => h, fun _ => h.ne_nil⟩

/-- A header that was just begun with a character has a name. -/
lemma hasNamedBack_pushName_pushHeader (req : Request) (input : UInt8) :
    HasNamedBack (req.pushHeader.pushName input).headers := by
  refine ⟨⟨[input], []⟩, ?_, by simp⟩
  simp [Request.pushName, Request.pushHeader]

/-- **One byte.**  Every call of `consume` keeps the relation, whatever its result is. -/
lemma HasLastHeader.consume {q : RequestParser × Request} (h : HasLastHeader q) (input : UInt8) :
    HasLastHeader (consumeStep q input).2 := by
  obtain ⟨⟨state⟩, req⟩ := q
  cases state with
  | headerLineStart =>
    simp only [consumeStep, RequestParser.consume]
    split_ifs with hcr hlws hbad
    · exact h.of_headers_eq rfl fun hstate => by cases hstate
    · -- a continuation line is entered only if there is a header to be continued
      refine h.of_headers_eq rfl fun _ hnil => ?_
      rw [hnil] at hlws
      cases hlws
    · exact h
    · exact hasLastHeader_of_named (hasNamedBack_pushName_pushHeader req input)
  | headerName =>
    have hnamed := h.named (h.ne_nil rfl)
    simp only [consumeStep, RequestParser.consume]
    split_ifs
    · exact hasLastHeader_of_named hnamed
    · exact h
    · exact hasLastHeader_of_named (hnamed.modifyBack fun a _ => by simp)
  | headerLws | headerValue =>
    have hnamed := h.named (h.ne_nil rfl)
    have hpush : HasNamedBack (req.pushValue input).headers := hnamed.modifyBack fun a ha => ha
    simp only [consumeStep, RequestParser.consume]
    split_ifs <;> first | exact hasLastHeader_of_named hnamed | exact hasLastHeader_of_named hpush
  | spaceBeforeHeaderValue | expectingNewline2 =>
    have hnamed := h.named (h.ne_nil rfl)
    simp only [consumeStep, RequestParser.consume]
    split_ifs <;> exact hasLastHeader_of_named hnamed
  | expectingNewline3 => exact h
  | _ =>
    -- the request line
    simp only [consumeStep, RequestParser.consume]
    split_ifs <;> exact h.of_headers_eq rfl fun hstate => by cases hstate

/-- The list of which the last element is used is not empty. -/
lemma HasLastHeader.backAccess_ne_nil {q : RequestParser × Request} (h : HasLastHeader q)
    {input : UInt8} {headers : List Header} (haccess : q.1.backAccess q.2 input = some headers) :
    headers ≠ [] := by
  obtain ⟨⟨state⟩, req⟩ := q
  cases state with
  | headerLineStart =>
    simp only [RequestParser.backAccess] at haccess
    split_ifs at haccess
    cases haccess
    simp [Request.pushHeader]
  | headerLws | headerName | headerValue =>
    simp only [RequestParser.backAccess] at haccess
    split_ifs at haccess
    cases haccess
    exact h.ne_nil rfl
  | _ => cases haccess

/-! ## Feeding a parser -/

/-- The arguments of the calls of `consume` in a call of `parse`. -/
def RequestParser.consumeCalls (p : RequestParser) (req : Request) :
    Bytes → List ((RequestParser × Request) × UInt8)
  | [] => []
  | b :: range =>
    ((p, req), b) ::
      match p.consume req b with
      | (.indeterminate, p', req') => p'.consumeCalls req' range
      | _ => []

/-- The parser and the request after calls of `parse` on some ranges, one after the other.  A range
may follow on the last one or begin with what a definite result has left of it. -/
def feed (q : RequestParser × Request) : List Bytes → RequestParser × Request
  | [] => q
  | range :: ranges =>
    let o := q.1.parse q.2 range
    feed (o.parser, o.request) ranges

/-- A call of `parse` keeps the relation, and it holds before each call of `consume`. -/
lemma HasLastHeader.parse {p : RequestParser} {req : Request} (h : HasLastHeader (p, req))
    (range : Bytes) :
    HasLastHeader ((p.parse req range).parser, (p.parse req range).request) ∧
      ∀ call ∈ p.consumeCalls req range, HasLastHeader call.1 := by
  induction range generalizing p req with
  | nil => exact ⟨h, fun call hmem => absurd hmem List.not_mem_nil⟩
  | cons b range ih =>
    have hnext := h.consume b
    rw [consumeStep] at hnext
    rw [RequestParser.parse, RequestParser.consumeCalls]
    rcases hconsume : p.consume req b with ⟨result, p', req'⟩
    rw [hconsume] at hnext
    cases result with
    | indeterminate =>
      exact ⟨(ih hnext).1, List.forall_mem_cons.mpr ⟨h, (ih hnext).2⟩⟩
    | good => exact ⟨hnext, List.forall_mem_singleton.mpr h⟩
    | bad => exact ⟨hnext, List.forall_mem_singleton.mpr h⟩

/-- Feeding a parser keeps the relation. -/
lemma HasLastHeader.feed {q : RequestParser × Request} (h : HasLastHeader q)
    (ranges : List Bytes) : HasLastHeader (Http.feed q ranges) := by
  induction ranges generalizing q with
  | nil => exact h
  | cons range ranges ih => exact ih (h.parse range).1

/-- In four states, a named last header is at hand. -/
def IsAtHeader (q : RequestParser × Request) : Prop :=
  q.1.state ∈ [ParserState.headerName, .spaceBeforeHeaderValue, .headerValue, .headerLws] →
    HasNamedBack q.2.headers

/-- The relation provides for it. -/
lemma HasLastHeader.isAtHeader {q : RequestParser × Request} (h : HasLastHeader q) :
    IsAtHeader q := by
  intro hmem
  refine h.named (h.ne_nil ?_)
  revert hmem
  generalize q.1.state = state
  cases state <;> decide

/-- **The last header.**  However a fresh parser and an empty request are fed, and whatever the
results are: in the states that are within a header, the last header has a name; and whenever a call
of `consume` in a further call of `parse` evaluates `back()`, the list is not empty. -/
theorem hasLastHeader_feed (ranges : List Bytes) (range : Bytes) :
    IsAtHeader (feed (.fresh, .empty) ranges) ∧
      ∀ call ∈ (feed (.fresh, .empty) ranges).1.consumeCalls (feed (.fresh, .empty) ranges).2 range,
        IsAtHeader call.1 ∧
          ∀ headers, call.1.1.backAccess call.1.2 call.2 = some headers → headers ≠ [] := by
  have hfeed := hasLastHeader_fresh.feed ranges
  refine ⟨hfeed.isAtHeader, fun call hmem => ?_⟩
  have hcall := (hfeed.parse range).2 call hmem
  exact ⟨hcall.isAtHeader, fun headers haccess => hcall.backAccess_ne_nil haccess⟩

/-- The invariant is needed: on a continuation line without a header, `back()` is undefined. -/
example : (RequestParser.mk .headerLws).backAccess .empty (ch 'a') = some [] := by decide

end Http

end AsioStudy
