import AsioStudy.Http.ParserRuns

/-!
# Folded header values

A header value may go on after the end of its line if the next line begins with a blank.  The parser
drops the end of the line and the blanks and appends what follows to the value, with nothing in
between: a fold is read as if it were not there (`fold_joins`), while a space in its place becomes a
part of the value.

The proof compares runs.  Behind the blanks of a fold the parser is in `headerLws` with the request
it had before; the next byte leads to the same state as from `headerValue`.  With a space in place
of the fold the two runs go through the same states, and `SpaceApart` is what they keep.
-/

namespace AsioStudy

namespace Http

open Recogniser

/-! ## Folds -/

/-- A text of blanks that is not empty. -/
def IsBlanks (s : Bytes) : Prop := s ≠ [] ∧ ∀ b ∈ s, IsBlank b

/-- A beginning of a field value: every line but the first one begins with a blank. -/
def IsValueStart (x : Bytes) : Prop :=
  ∀ u b v, x = u ++ (lineEnd ++ b :: v) → IsBlank b

/-- The text of a request up to the point `x` of the value of the header `name`. -/
def valueStart (lines name x : Bytes) : Bytes :=
  lines ++ (lineEnd ++ (name ++ [ch ':', ch ' '] ++ x))

/-- In the text `valueStart lines name x ++ (lineEnd ++ (w ++ y))` the value of the header `name` is
folded behind `x`. -/
structure IsFold (name x w y : Bytes) : Prop where
  /-- The name of the header. -/
  name : IsTokenText name
  /-- The lines of `x` belong to the value of the header. -/
  value : IsValueStart x
  /-- The fold is not preceded by a blank of the value. -/
  last : ∀ u b, x = u ++ [b] → ¬ IsBlank b
  /-- The next line begins with blanks. -/
  blanks : IsBlanks w
  /-- The blanks are followed by something else. -/
  rest : ∃ b v, y = b :: v ∧ ¬ IsBlank b

/-- The text is accepted to its last byte, and the request is `req`. -/
structure Accepts (text : Bytes) (req : Request) : Prop where
  /-- The request is complete. -/
  result : (RequestParser.fresh.parse Request.empty text).result = .good
  /-- Nothing is left. -/
  rest : (RequestParser.fresh.parse Request.empty text).rest = []
  /-- The request that was parsed. -/
  request : (RequestParser.fresh.parse Request.empty text).request = req

/-- The headers `hs'` are the headers `hs` with a space behind the value with which `start` ends,
which is a value of the header `name`. -/
def SpaceAdded (name : Bytes) (start hs hs' : List Header) : Prop :=
  ∃ headers value rest more, start = headers ++ [⟨name, value⟩] ∧
    hs = headers ++ ⟨name, value ++ rest⟩ :: more ∧
    hs' = headers ++ ⟨name, value ++ ch ' ' :: rest⟩ :: more

/-- An accepted text as a run of the recogniser. -/
lemma accepts_iff {text : Bytes} {req : Request} :
    Accepts text req ↔
      ∃ p, run consumeStep (RequestParser.fresh, Request.empty) text = (.good, (p, req), []) := by
  constructor
  · rintro ⟨hresult, hrest, hrequest⟩
    rw [parse_eq_run] at hresult hrest hrequest
    exact ⟨_, Prod.ext hresult (Prod.ext (Prod.ext rfl hrequest) hrest)⟩
  · rintro ⟨p, hrun⟩
    refine ⟨?_, ?_, ?_⟩ <;> rw [parse_eq_run, hrun]

/-! ## The way to a fold -/

/-- A line feed that is read is the end of a line. -/
lemma consumeStep_lineFeed {q q' : RequestParser × Request}
    (h : consumeStep q (ch '\n') = (.indeterminate, q')) : q'.1.state = .headerLineStart := by
  obtain ⟨⟨state⟩, req⟩ := q
  have hblank : (ch '\n' == ch ' ' || ch '\n' == ch '\t') = false := by decide
  cases state with
  | expectingNewline1 | expectingNewline2 =>
    cases h
    rfl
  | _ =>
    -- in all other states a line feed is not read
    simp +decide only [consumeStep, RequestParser.consume, if_true, if_false, hblank,
      Bool.and_false] at h
    cases h

/-- The parser comes to the beginning of a line behind the end of a line. -/
lemma state_of_reads_lineEnd {q q' : RequestParser × Request} {lines : Bytes}
    (h : Reads consumeStep q (lines ++ lineEnd) q') : q'.1.state = .headerLineStart := by
  have hsplit : lines ++ lineEnd = (lines ++ [ch '\r']) ++ [ch '\n'] := by simp [lineEnd]
  rw [hsplit] at h
  obtain ⟨q₁, -, hlast⟩ := h.append_inv
  obtain ⟨q₂, hstep, hnil⟩ := hlast.cons_inv
  obtain rfl : q₂ = q' := congrArg (fun r => r.2.1) hnil
  exact consumeStep_lineFeed hstep

/-- A blank at the beginning of a line continues the last header. -/
lemma consumeStep_foldStart {req : Request} (hheaders : req.headers ≠ []) {b : UInt8}
    (hb : IsBlank b) :
    consumeStep (⟨.headerLineStart⟩, req) b = (.indeterminate, ⟨.headerLws⟩, req) := by
  have hcr : b ≠ ch '\r' := ne_of_class hb (by decide)
  have hblank : (!req.headers.isEmpty && (b == ch ' ' || b == ch '\t')) = true := by
    rcases hb with rfl | rfl <;> simp [hheaders]
  simp only [consumeStep, RequestParser.consume, if_neg hcr, if_pos hblank]

/-- What the parser has made of the beginning `x` of a value of the header `name` behind the headers
`headers`: unless a line of `x` does not begin with a blank, it is still at that value. -/
def InValue (name : Bytes) (headers : List Header) (x : Bytes) (q : RequestParser × Request) :
    Prop :=
  (∃ u b v, x = u ++ (lineEnd ++ b :: v) ∧ ¬ IsBlank b) ∨
    ((∃ value, q.2.headers = headers ++ [⟨name, value⟩]) ∧
      match q.1.state with
      | .headerValue => True
      | .headerLws => ∃ u b, x = u ++ [b] ∧ IsBlank b
      | .expectingNewline2 => ∃ u, x = u ++ [ch '\r']
      | .headerLineStart => ∃ u, x = u ++ lineEnd
      | _ => False)

/-- A byte that is appended to the value at which the parser is. -/
lemma pushValue_headers {req : Request} {name : Bytes} {headers : List Header}
    (h : ∃ value, req.headers = headers ++ [⟨name, value⟩]) (b : UInt8) :
    ∃ value, (req.pushValue b).headers = headers ++ [⟨name, value⟩] := by
  obtain ⟨value, hvalue⟩ := h
  refine ⟨value ++ [b], ?_⟩
  rw [Request.pushValue, hvalue, modifyBack_append_singleton]

/-- **One byte** of a value. -/
lemma InValue.step {name : Bytes} {headers : List Header} {x : Bytes}
    {q q' : RequestParser × Request} {b : UInt8} (h : InValue name headers x q)
    (hb : consumeStep q b = (.indeterminate, q')) : InValue name headers (x ++ [b]) q' := by
  rcases h with ⟨u, c, v, rfl, hc⟩ | ⟨hheaders, hstate⟩
  · exact Or.inl ⟨u, c, v ++ [b], by simp, hc⟩
  obtain ⟨⟨state⟩, req⟩ := q
  cases state with
  | headerValue =>
    rcases of_ite_or hb with ⟨rfl, rfl⟩ | ⟨-, hb⟩
    · exact Or.inr ⟨hheaders, x, rfl⟩
    · obtain ⟨-, rfl⟩ := of_ite_bad hb
      exact Or.inr ⟨pushValue_headers hheaders b, trivial⟩
  | headerLws =>
    rcases of_ite_or hb with ⟨rfl, rfl⟩ | ⟨-, hb⟩
    · exact Or.inr ⟨hheaders, x, rfl⟩
    · rcases of_ite_or hb with ⟨hblank, rfl⟩ | ⟨-, hb⟩
      · exact Or.inr ⟨hheaders, x, b, rfl, hblank⟩
      · obtain ⟨-, rfl⟩ := of_ite_bad hb
        exact Or.inr ⟨pushValue_headers hheaders b, trivial⟩
  | expectingNewline2 =>
    obtain ⟨u, rfl⟩ := hstate
    obtain ⟨rfl, rfl⟩ := of_ite_indeterminate hb
    exact Or.inr ⟨hheaders, u, List.append_assoc _ _ _⟩
  | headerLineStart =>
    obtain ⟨u, rfl⟩ := hstate
    by_cases hblank : IsBlank b
    · obtain ⟨value, hvalue⟩ := hheaders
      have hne : req.headers ≠ [] := by
        rw [hvalue]
        simp
      rw [consumeStep_foldStart hne hblank] at hb
      cases hb
      exact Or.inr ⟨⟨value, hvalue⟩, u ++ lineEnd, b, rfl, hblank⟩
    · exact Or.inl ⟨u, b, [], by simp, hblank⟩
  | _ => exact hstate.elim

/-- The text before a fold is a beginning of a value. -/
lemma IsFold.state {name x w y : Bytes} (hfold : IsFold name x w y) {headers : List Header}
    {p : RequestParser} {req : Request} {q : RequestParser × Request}
    (h : InValue name headers x (p, req))
    (hrun : run consumeStep (p, req) (lineEnd ++ (w ++ y)) = (.good, q, [])) :
    p = ⟨.headerValue⟩ ∧ ∃ value, req.headers = headers ++ [⟨name, value⟩] := by
  rcases h with ⟨u, b, v, hx, hb⟩ | ⟨hheaders, hstate⟩
  · exact absurd (hfold.value u b v hx) hb
  obtain ⟨state⟩ := p
  cases state with
  | headerValue => exact ⟨rfl, hheaders⟩
  | headerLws =>
    obtain ⟨u, b, hx, hb⟩ := hstate
    exact absurd hb (hfold.last u b hx)
  | expectingNewline2 => cases hrun
  | headerLineStart =>
    -- the end of the line would be the end of the request
    have hrest : w ++ y = [] := congrArg (fun r => r.2.2) hrun
    exact absurd (List.append_eq_nil_iff.mp hrest).1 hfold.blanks.1
  | _ => exact hstate.elim

/-- **The state at a fold.**  Before a fold the parser is at a value of the header. -/
lemma IsFold.reads {lines name x w y : Bytes} (hfold : IsFold name x w y)
    {q : RequestParser × Request}
    (hrun : run consumeStep (RequestParser.fresh, Request.empty)
      (valueStart lines name x ++ (lineEnd ++ (w ++ y))) = (.good, q, [])) :
    ∃ req headers value,
      Reads consumeStep (RequestParser.fresh, Request.empty) (valueStart lines name x)
        (⟨.headerValue⟩, req) ∧ req.headers = headers ++ [⟨name, value⟩] ∧
      run consumeStep (⟨.headerValue⟩, req) (lineEnd ++ (w ++ y)) = (.good, q, []) := by
  have hsplit : valueStart lines name x ++ (lineEnd ++ (w ++ y)) =
      (lines ++ lineEnd) ++ ((name ++ [ch ':', ch ' ']) ++ (x ++ (lineEnd ++ (w ++ y)))) := by
    simp [valueStart]
  rw [hsplit] at hrun
  obtain ⟨⟨p, req⟩, hlines, hrun⟩ := exists_reads_of_run_append hrun (by simp [lineEnd])
  obtain rfl : p = ⟨.headerLineStart⟩ :=
    congrArg RequestParser.mk (state_of_reads_lineEnd hlines)
  have hname := reads_name hfold.name req
  rw [hname.run_append] at hrun
  obtain ⟨⟨p, req'⟩, hvalue, hrun⟩ := exists_reads_of_run_append hrun (by simp [lineEnd])
  have hin : InValue name req.headers x (p, req') := by
    refine Reads.invariant (P := InValue name req.headers) ?_ InValue.step hvalue
    exact Or.inr ⟨⟨[], rfl⟩, trivial⟩
  obtain ⟨rfl, value, hheaders⟩ := hfold.state hin hrun
  refine ⟨req', req.headers, value, ?_, hheaders, hrun⟩
  rw [valueStart, ← List.append_assoc]
  exact hlines.trans (hname.trans hvalue)

/-! ## Over a fold -/

/-- Blanks are skipped. -/
lemma reads_blanks {w : Bytes} (hw : ∀ b ∈ w, IsBlank b) (req : Request) :
    Reads consumeStep (⟨.headerLws⟩, req) w (⟨.headerLws⟩, req) := by
  refine Reads.foldl (fun _ : Unit => ((⟨.headerLws⟩, req) : RequestParser × Request))
    (g := fun _ _ => ()) (fun _ b hb => ?_) hw ()
  have hcr : b ≠ ch '\r' := ne_of_class hb (by decide)
  simp only [consumeStep, RequestParser.consume, if_neg hcr]
  exact if_pos hb

/-- A fold leaves the request alone. -/
lemma reads_fold {req : Request} (hheaders : req.headers ≠ []) {w : Bytes} (hw : IsBlanks w) :
    Reads consumeStep (⟨.headerValue⟩, req) (lineEnd ++ w) (⟨.headerLws⟩, req) := by
  obtain ⟨hne, hblanks⟩ := hw
  obtain ⟨b, w, rfl⟩ := List.exists_cons_of_ne_nil hne
  have hend : Reads consumeStep (⟨.headerValue⟩, req) lineEnd (⟨.headerLineStart⟩, req) := rfl
  have hfirst := Reads.single (consumeStep_foldStart hheaders (hblanks b List.mem_cons_self))
  have hrest := reads_blanks (fun c hc => hblanks c (List.mem_cons_of_mem b hc)) req
  exact hend.trans (hfirst.trans hrest)

/-- Behind the blanks a value goes on as if there had been no fold. -/
lemma run_headerLws {y : Bytes} {req : Request} {q : RequestParser × Request}
    (hy : ∃ b v, y = b :: v ∧ ¬ IsBlank b)
    (h : run consumeStep (⟨.headerLws⟩, req) y = (.good, q, [])) :
    run consumeStep (⟨.headerValue⟩, req) y = (.good, q, []) := by
  obtain ⟨b, v, rfl, hblank⟩ := hy
  have hskip : ¬ (b = ch ' ' ∨ b = ch '\t') := hblank
  by_cases hcr : b = ch '\r'
  · subst hcr
    exact h
  · by_cases hctl : isCtl (charToInt b) = true
    · have hbad : consumeStep (⟨.headerLws⟩, req) b = (.bad, ⟨.headerLws⟩, req) := by
        simp only [consumeStep, RequestParser.consume, if_neg hcr, if_neg hskip, if_pos hctl]
      rw [run_cons_of_ne (by simp [hbad]), hbad] at h
      cases h
    · have hlws : consumeStep (⟨.headerLws⟩, req) b =
          (.indeterminate, ⟨.headerValue⟩, req.pushValue b) := by
        simp only [consumeStep, RequestParser.consume, if_neg hcr, if_neg hskip, if_neg hctl]
      have hvalue : consumeStep (⟨.headerValue⟩, req) b =
          (.indeterminate, ⟨.headerValue⟩, req.pushValue b) := by
        simp only [consumeStep, RequestParser.consume, if_neg hcr, if_neg hctl]
      rw [run_cons_of_eq (by rw [hlws]), hlws] at h
      rw [run_cons_of_eq (by rw [hvalue]), hvalue]
      exact h

/-! ## A space in place of a fold -/

/-- Two lists of headers that differ in a space in a value of the header `name`. -/
def SpaceBehind (headers : List Header) (name value : Bytes) (hs hs' : List Header) : Prop :=
  ∃ rest more, hs = headers ++ ⟨name, value ++ rest⟩ :: more ∧
    hs' = headers ++ ⟨name, value ++ ch ' ' :: rest⟩ :: more

section SpaceBehind

variable {headers hs hs' : List Header} {name value : Bytes}

/-- Headers that are appended to both lists. -/
lemma SpaceBehind.append (h : SpaceBehind headers name value hs hs') (added : List Header) :
    SpaceBehind headers name value (hs ++ added) (hs' ++ added) := by
  obtain ⟨rest, more, rfl, rfl⟩ := h
  exact ⟨rest, more ++ added, by simp, by simp⟩

/-- A byte that is appended to the last value of both lists. -/
lemma SpaceBehind.pushValue (h : SpaceBehind headers name value hs hs') (b : UInt8) :
    SpaceBehind headers name value
      (modifyBack (fun h => { h with value := h.value ++ [b] }) hs)
      (modifyBack (fun h => { h with value := h.value ++ [b] }) hs') := by
  obtain ⟨rest, more, rfl, rfl⟩ := h
  rcases List.eq_nil_or_concat more with rfl | ⟨more, last, rfl⟩
  · refine ⟨rest ++ [b], [], ?_, ?_⟩ <;> simp
  · have happend : ∀ first : Header, headers ++ first :: (more ++ [last]) =
        (headers ++ first :: more) ++ [last] := by simp
    refine ⟨rest, more ++ [{ last with value := last.value ++ [b] }], ?_, ?_⟩ <;>
      rw [List.concat_eq_append, happend, modifyBack_append_singleton, List.append_assoc,
        List.cons_append]

end SpaceBehind

/-- Two parsers in the same state behind the request line, whose requests differ in a space in a
value of the header `name`. -/
structure SpaceApart (headers : List Header) (name value : Bytes)
    (q q' : RequestParser × Request) : Prop where
  /-- The parsers are in the same state. -/
  parser : q'.1 = q.1
  /-- The request line has been read. -/
  behind : q.1.state.isBehindLine = true
  /-- The requests differ in the headers only. -/
  request : q'.2 = { q.2 with headers := q'.2.headers }
  /-- The headers differ in a space. -/
  space : SpaceBehind headers name value q.2.headers q'.2.headers
  /-- A header whose name is being read is behind the one with the space. -/
  named : q.1.state = .headerName → ∃ hs hs' last, q.2.headers = hs ++ [last] ∧
    q'.2.headers = hs' ++ [last] ∧ SpaceBehind headers name value hs hs'

namespace SpaceApart

variable {headers hs' : List Header} {name value : Bytes} {state : ParserState} {req : Request}

/-- Both parsers come to a state in which no name is read. -/
lemma goto (h : SpaceApart headers name value (⟨state⟩, req) (⟨state⟩, { req with headers := hs' }))
    {state' : ParserState} (hbehind : state'.isBehindLine = true) (hname : state' ≠ .headerName) :
    SpaceApart headers name value (⟨state'⟩, req) (⟨state'⟩, { req with headers := hs' }) :=
  ⟨rfl, hbehind, rfl, h.space, fun heq => absurd heq hname⟩

/-- Both parsers read a byte of a value. -/
lemma pushValue
    (h : SpaceApart headers name value (⟨state⟩, req) (⟨state⟩, { req with headers := hs' }))
    (b : UInt8) :
    SpaceApart headers name value (⟨.headerValue⟩, req.pushValue b)
      (⟨.headerValue⟩, Request.pushValue { req with headers := hs' } b) :=
  ⟨rfl, rfl, rfl, h.space.pushValue b, fun heq => by cases heq⟩

/-- Both parsers read the first byte of a name. -/
lemma pushHeader
    (h : SpaceApart headers name value (⟨state⟩, req) (⟨state⟩, { req with headers := hs' }))
    (b : UInt8) :
    SpaceApart headers name value (⟨.headerName⟩, req.pushHeader.pushName b)
      (⟨.headerName⟩, (Request.pushHeader { req with headers := hs' }).pushName b) := by
  have hadded : ∀ r : Request, (r.pushHeader.pushName b).headers = r.headers ++ [⟨[b], []⟩] := by
    intro r
    rw [Request.pushName, Request.pushHeader, modifyBack_append_singleton, List.nil_append]
  refine ⟨rfl, rfl, rfl, ?_, fun _ => ⟨req.headers, hs', ⟨[b], []⟩, hadded _, hadded _, h.space⟩⟩
  rw [hadded, hadded]
  exact h.space.append _

/-- Both parsers read a further byte of a name. -/
lemma pushName
    (h : SpaceApart headers name value (⟨.headerName⟩, req)
      (⟨.headerName⟩, { req with headers := hs' })) (b : UInt8) :
    SpaceApart headers name value (⟨.headerName⟩, req.pushName b)
      (⟨.headerName⟩, Request.pushName { req with headers := hs' } b) := by
  obtain ⟨hs, hs₁, last, hlast, hlast', hspace⟩ := h.named rfl
  have hpushed : (req.pushName b).headers = hs ++ [{ last with name := last.name ++ [b] }] := by
    rw [Request.pushName, hlast, modifyBack_append_singleton]
  have hpushed' : (Request.pushName { req with headers := hs' } b).headers =
      hs₁ ++ [{ last with name := last.name ++ [b] }] := by
    rw [Request.pushName, hlast', modifyBack_append_singleton]
  refine ⟨rfl, rfl, rfl, ?_, fun _ => ⟨hs, hs₁, _, hpushed, hpushed', hspace⟩⟩
  rw [hpushed, hpushed']
  exact hspace.append _

/-- Neither list of headers is empty. -/
lemma isEmpty_headers (h : SpaceApart headers name value (⟨state⟩, req)
    (⟨state⟩, { req with headers := hs' })) :
    req.headers.isEmpty = false ∧ hs'.isEmpty = false := by
  obtain ⟨rest, more, hhs, hhs'⟩ := h.space
  rw [hhs, show hs' = _ from hhs']
  exact ⟨by simp, by simp⟩

/-- **One byte** is answered alike and keeps the difference. -/
lemma step {q q' : RequestParser × Request} {b : UInt8} (h : SpaceApart headers name value q q') :
    (consumeStep q b).1 = (consumeStep q' b).1 ∧
      SpaceApart headers name value (consumeStep q b).2 (consumeStep q' b).2 := by
  obtain ⟨⟨state⟩, req⟩ := q
  obtain ⟨p, req'⟩ := q'
  obtain ⟨hs', rfl⟩ : ∃ hs', req' = { req with headers := hs' } := ⟨_, h.request⟩
  obtain rfl : p = ⟨state⟩ := h.parser
  obtain ⟨hempty, hempty'⟩ := h.isEmpty_headers
  have hbehind := h.behind
  cases state with
  | headerLineStart =>
    simp only [consumeStep, RequestParser.consume, hempty, hempty']
    split_ifs
    · exact ⟨rfl, h.goto rfl (by decide)⟩
    · exact ⟨rfl, h.goto rfl (by decide)⟩
    · exact ⟨rfl, h⟩
    · exact ⟨rfl, h.pushHeader b⟩
  | headerLws =>
    simp only [consumeStep, RequestParser.consume]
    split_ifs
    · exact ⟨rfl, h.goto rfl (by decide)⟩
    · exact ⟨rfl, h⟩
    · exact ⟨rfl, h⟩
    · exact ⟨rfl, h.pushValue b⟩
  | headerName =>
    simp only [consumeStep, RequestParser.consume]
    split_ifs
    · exact ⟨rfl, h.goto rfl (by decide)⟩
    · exact ⟨rfl, h⟩
    · exact ⟨rfl, h.pushName b⟩
  | headerValue =>
    simp only [consumeStep, RequestParser.consume]
    split_ifs
    · exact ⟨rfl, h.goto rfl (by decide)⟩
    · exact ⟨rfl, h⟩
    · exact ⟨rfl, h.pushValue b⟩
  | spaceBeforeHeaderValue | expectingNewline2 =>
    simp only [consumeStep, RequestParser.consume]
    split_ifs
    · exact ⟨rfl, h.goto rfl (by decide)⟩
    · exact ⟨rfl, h⟩
  | expectingNewline3 => exact ⟨rfl, h⟩
  | _ => cases hbehind

end SpaceApart

/-! ## The law -/

/-- **Folds.**  If a text with a folded value is accepted, then the text without the end of the line
and the blanks behind it is accepted and yields the same request.  The text with a single space in
their place is accepted, too, and yields the same request but for a space behind that value as far
as it was read before the fold. -/
theorem fold_joins {lines name x w y : Bytes} {req : Request} (hfold : IsFold name x w y)
    (h : Accepts (valueStart lines name x ++ (lineEnd ++ (w ++ y))) req) :
    Accepts (valueStart lines name x ++ y) req ∧
      ∃ hs, Accepts (valueStart lines name x ++ ch ' ' :: y) { req with headers := hs } ∧
        SpaceAdded name
          (RequestParser.fresh.parse Request.empty (valueStart lines name x)).request.headers
          req.headers hs := by
  obtain ⟨p, hrun⟩ := accepts_iff.mp h
  obtain ⟨start, headers, value, hstart, hheaders, hrest⟩ := hfold.reads hrun
  have hne : start.headers ≠ [] := by
    rw [hheaders]
    simp
  rw [← List.append_assoc, (reads_fold hne hfold.blanks).run_append] at hrest
  have hjoined := run_headerLws hfold.rest hrest
  have hparse : (RequestParser.fresh.parse Request.empty (valueStart lines name x)).request =
      start := by
    rw [parse_eq_run, hstart]
  refine ⟨accepts_iff.mpr ⟨p, ?_⟩, ?_⟩
  · rw [hstart.run_append, hjoined]
  -- with a space the two runs are in the same state again
  have hspace : Reads consumeStep (⟨.headerValue⟩, start) [ch ' ']
      (⟨.headerValue⟩, start.pushValue (ch ' ')) :=
    Reads.single (consumeStep_value (by decide) start)
  have hpushed : (start.pushValue (ch ' ')).headers = headers ++ [⟨name, value ++ [ch ' ']⟩] := by
    rw [Request.pushValue, hheaders, modifyBack_append_singleton]
  have hapart : SpaceApart headers name value (⟨.headerValue⟩, start)
      (⟨.headerValue⟩, start.pushValue (ch ' ')) := by
    refine ⟨rfl, rfl, rfl, ⟨[], [], ?_, hpushed⟩, fun heq => by cases heq⟩
    rw [hheaders, List.append_nil]
  obtain ⟨hanswer, hend, hleft⟩ := run_related (δ := consumeStep) SpaceApart.step hapart y
  rcases hspaced : run consumeStep (⟨.headerValue⟩, start.pushValue (ch ' ')) y with
    ⟨verdict, ⟨p', req'⟩, left⟩
  rw [hjoined, hspaced] at hanswer hend hleft
  obtain rfl : .good = verdict := hanswer
  obtain rfl : [] = left := hleft
  obtain rfl : p' = p := hend.parser
  obtain ⟨rest, more, hhs, hhs'⟩ := hend.space
  refine ⟨req'.headers, accepts_iff.mpr ⟨p', ?_⟩, headers, value, rest, more, ?_, hhs, hhs'⟩
  · rw [hstart.run_append, ← List.singleton_append, hspace.run_append, hspaced]
    exact congrArg (fun r => (Verdict.good, (p', r), [])) hend.request
  · rw [hparse, hheaders]

/-- A request whose only header has a value that was written on several lines. -/
def foldedRequest : Request :=
  ⟨bytes "GET", bytes "/", some 1, some 0, [⟨bytes "A", bytes "bcd"⟩]⟩

/-- A value that is folded a second time. -/
theorem fold_joins_second_fold :
    Accepts (valueStart (bytes "GET / HTTP/1.0") (bytes "A") (bytes "b\r\n c") ++
        bytes "d\r\n\r\n") foldedRequest ∧
      ∃ hs, Accepts (valueStart (bytes "GET / HTTP/1.0") (bytes "A") (bytes "b\r\n c") ++
          ch ' ' :: bytes "d\r\n\r\n") { foldedRequest with headers := hs } ∧
        SpaceAdded (bytes "A")
          (RequestParser.fresh.parse Request.empty (valueStart (bytes "GET / HTTP/1.0") (bytes "A")
            (bytes "b\r\n c"))).request.headers
          foldedRequest.headers hs := by
  have hx : bytes "b\r\n c" = [ch 'b', ch '\r', ch '\n', ch ' ', ch 'c'] := by decide +kernel
  refine fold_joins (w := bytes "\t ")
    ⟨by decide +kernel, ?_, ?_, ⟨by decide +kernel, by decide +kernel⟩, ?_⟩
    ⟨by decide +kernel, by decide +kernel, by decide +kernel⟩
  · intro u b v h
    rw [hx] at h
    rcases u with _ | ⟨b₁, _ | ⟨b₂, u⟩⟩
    · exact absurd (List.cons.inj h).1 (by decide)
    · injection h with h₁ h
      injection h with h₂ h
      injection h with h₃ h
      injection h with h₄ h
      exact Or.inl h₄.symm
    · injection h with h₁ h
      injection h with h₂ h
      have hcr : ch '\r' ∈ [ch '\n', ch ' ', ch 'c'] := by
        rw [h]
        simp [lineEnd]
      exact absurd hcr (by decide)
  · intro u b h
    rw [hx] at h
    have hlast := congrArg List.getLast? h
    rw [List.getLast?_concat] at hlast
    obtain rfl : ch 'c' = b := Option.some.inj hlast
    decide
  · exact ⟨ch 'd', bytes "\r\n\r\n", rfl, by decide⟩

/-- The text with a space in place of the fold does not yield the same request. -/
theorem fold_is_no_space :
    IsFold (bytes "A") (bytes "b") (bytes " ") (bytes "cd\r\n\r\n") ∧
      Accepts (valueStart (bytes "GET / HTTP/1.0") (bytes "A") (bytes "b") ++
        (lineEnd ++ (bytes " " ++ bytes "cd\r\n\r\n"))) foldedRequest ∧
      ¬ Accepts (valueStart (bytes "GET / HTTP/1.0") (bytes "A") (bytes "b") ++
        ch ' ' :: bytes "cd\r\n\r\n") foldedRequest := by
  have hx : bytes "b" = [ch 'b'] := by decide
  refine ⟨⟨by decide +kernel, ?_, ?_, ⟨by decide, by decide +kernel⟩, ?_⟩,
    ⟨by decide +kernel, by decide +kernel, by decide +kernel⟩, ?_⟩
  · intro u b v h
    have hcr : ch '\r' ∈ bytes "b" := by
      rw [h]
      simp [lineEnd]
    exact absurd hcr (by decide)
  · intro u b h
    have hlast := congrArg List.getLast? h
    rw [List.getLast?_concat, hx] at hlast
    obtain rfl : ch 'b' = b := Option.some.inj hlast
    decide
  · exact ⟨ch 'c', bytes "d\r\n\r\n", rfl, by decide⟩
  · rintro ⟨-, -, hrequest⟩
    exact absurd hrequest (by decide +kernel)

end Http

end AsioStudy
