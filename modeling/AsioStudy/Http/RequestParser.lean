import AsioStudy.Foundation.Recogniser
import AsioStudy.Http.Request

/-!
# The request parser

`request_parser` of the HTTP servers: a byte-at-a-time state machine of twenty states that fills a
`request` as it goes.  The text of `consume` and `parse` is the same in `http_server1` to
`http_server4`.

`RequestParser.consume` is one call of `consume`, `RequestParser.parse` the loop over an input
range; the range that has not been consumed is returned as the list of its bytes.
`parse_eq_run` presents the loop as a run of a recogniser.
-/

namespace AsioStudy

namespace Http

/-- The result of a call of `parse` or `consume`: a complete request, invalid data, or more data
required. -/
abbrev ResultType := Recogniser.Verdict

/-- The states of the parser, `enum state`. -/
inductive ParserState where
  | methodStart
  | method
  | uri
  | httpVersionH
  | httpVersionT1
  | httpVersionT2
  | httpVersionP
  | httpVersionSlash
  | httpVersionMajorStart
  | httpVersionMajor
  | httpVersionMinorStart
  | httpVersionMinor
  | expectingNewline1
  | headerLineStart
  | headerLws
  | headerName
  | spaceBeforeHeaderValue
  | headerValue
  | expectingNewline2
  | expectingNewline3
  deriving DecidableEq, Repr

/-- `request_parser`: its only member is the current state. -/
structure RequestParser where
  /-- The current state of the parser. -/
  state : ParserState
  deriving DecidableEq, Repr

/-- The default constructor: ready to parse the request method. -/
def RequestParser.fresh : RequestParser := ⟨.methodStart⟩

/-! ## Character classes -/

/-- Check if a byte is an HTTP character. -/
def isChar (c : ℤ) : Bool := 0 ≤ c && c ≤ 127

/-- Check if a byte is an HTTP control character. -/
def isCtl (c : ℤ) : Bool := (0 ≤ c && c ≤ 31) || c == 127

/-- Check if a byte is defined as an HTTP tspecial character. -/
def isTspecial (c : ℤ) : Bool :=
  ((bytes "()<>@,;:\\\"/[]?={} \t").map charToInt).contains c

/-- Check if a byte is a digit. -/
def isDigit (c : ℤ) : Bool := charToInt (ch '0') ≤ c && c ≤ charToInt (ch '9')

/-! ## One byte -/

/-- `v * 10 + input - '0'` on a version field, in `int` arithmetic. -/
def accumulateDigit (v : Option Int32) (input : UInt8) : Option Int32 :=
  v.map fun n => n * 10 + Int32.ofInt (charToInt input) - Int32.ofInt (charToInt (ch '0'))

/-- Handle the next character of input. -/
def RequestParser.consume (p : RequestParser) (req : Request) (input : UInt8) :
    ResultType × RequestParser × Request :=
  let c := charToInt input
  match p.state with
  | .methodStart =>
    if !isChar c || isCtl c || isTspecial c then (.bad, p, req)
    else (.indeterminate, ⟨.method⟩, { req with method := req.method ++ [input] })
  | .method =>
    if input = ch ' ' then (.indeterminate, ⟨.uri⟩, req)
    else if !isChar c || isCtl c || isTspecial c then (.bad, p, req)
    else (.indeterminate, p, { req with method := req.method ++ [input] })
  | .uri =>
    if input = ch ' ' then (.indeterminate, ⟨.httpVersionH⟩, req)
    else if isCtl c then (.bad, p, req)
    else (.indeterminate, p, { req with uri := req.uri ++ [input] })
  | .httpVersionH =>
    if input = ch 'H' then (.indeterminate, ⟨.httpVersionT1⟩, req) else (.bad, p, req)
  | .httpVersionT1 =>
    if input = ch 'T' then (.indeterminate, ⟨.httpVersionT2⟩, req) else (.bad, p, req)
  | .httpVersionT2 =>
    if input = ch 'T' then (.indeterminate, ⟨.httpVersionP⟩, req) else (.bad, p, req)
  | .httpVersionP =>
    if input = ch 'P' then (.indeterminate, ⟨.httpVersionSlash⟩, req) else (.bad, p, req)
  | .httpVersionSlash =>
    if input = ch '/' then
      (.indeterminate, ⟨.httpVersionMajorStart⟩,
        { req with httpVersionMajor := some 0, httpVersionMinor := some 0 })
    else (.bad, p, req)
  | .httpVersionMajorStart =>
    if isDigit c then
      (.indeterminate, ⟨.httpVersionMajor⟩,
        { req with httpVersionMajor := accumulateDigit req.httpVersionMajor input })
    else (.bad, p, req)
  | .httpVersionMajor =>
    if input = ch '.' then (.indeterminate, ⟨.httpVersionMinorStart⟩, req)
    else if isDigit c then
      (.indeterminate, p,
        { req with httpVersionMajor := accumulateDigit req.httpVersionMajor input })
    else (.bad, p, req)
  | .httpVersionMinorStart =>
    if isDigit c then
      (.indeterminate, ⟨.httpVersionMinor⟩,
        { req with httpVersionMinor := accumulateDigit req.httpVersionMinor input })
    else (.bad, p, req)
  | .httpVersionMinor =>
    if input = ch '\r' then (.indeterminate, ⟨.expectingNewline1⟩, req)
    else if isDigit c then
      (.indeterminate, p,
        { req with httpVersionMinor := accumulateDigit req.httpVersionMinor input })
    else (.bad, p, req)
  | .expectingNewline1 =>
    if input = ch '\n' then (.indeterminate, ⟨.headerLineStart⟩, req) else (.bad, p, req)
  | .headerLineStart =>
    if input = ch '\r' then (.indeterminate, ⟨.expectingNewline3⟩, req)
    else if !req.headers.isEmpty && (input == ch ' ' || input == ch '\t') then
      (.indeterminate, ⟨.headerLws⟩, req)
    else if !isChar c || isCtl c || isTspecial c then (.bad, p, req)
    else
      (.indeterminate, ⟨.headerName⟩, req.pushHeader.pushName input)
  | .headerLws =>
    if input = ch '\r' then (.indeterminate, ⟨.expectingNewline2⟩, req)
    else if input = ch ' ' ∨ input = ch '\t' then (.indeterminate, p, req)
    else if isCtl c then (.bad, p, req)
    else (.indeterminate, ⟨.headerValue⟩, req.pushValue input)
  | .headerName =>
    if input = ch ':' then (.indeterminate, ⟨.spaceBeforeHeaderValue⟩, req)
    else if !isChar c || isCtl c || isTspecial c then (.bad, p, req)
    else (.indeterminate, p, req.pushName input)
  | .spaceBeforeHeaderValue =>
    if input = ch ' ' then (.indeterminate, ⟨.headerValue⟩, req) else (.bad, p, req)
  | .headerValue =>
    if input = ch '\r' then (.indeterminate, ⟨.expectingNewline2⟩, req)
    else if isCtl c then (.bad, p, req)
    else (.indeterminate, p, req.pushValue input)
  | .expectingNewline2 =>
    if input = ch '\n' then (.indeterminate, ⟨.headerLineStart⟩, req) else (.bad, p, req)
  | .expectingNewline3 =>
    (if input = ch '\n' then .good else .bad, p, req)

/-! ## The loop over an input range -/

/-- What a call of `parse` leaves: its result, the range `[begin, end)` it has not consumed, and
the parser and the request it has updated. -/
structure ParseOutcome where
  /-- The result of the call. -/
  result : ResultType
  /-- The bytes from the returned iterator to the end of the range. -/
  rest : Bytes
  /-- The parser after the call. -/
  parser : RequestParser
  /-- The request after the call. -/
  request : Request
  deriving DecidableEq, Repr

/-- Parse some data: consume the range until a definite result or its end. -/
def RequestParser.parse (p : RequestParser) (req : Request) : Bytes → ParseOutcome
  | [] => ⟨.indeterminate, [], p, req⟩
  | b :: range =>
    match p.consume req b with
    | (.indeterminate, p', req') => p'.parse req' range
    | (result, p', req') => ⟨result, range, p', req'⟩

/-- The call consumed exactly the first `k` bytes of the range `s`. -/
def ParseOutcome.Consumed (o : ParseOutcome) (s : Bytes) (k : ℕ) : Prop :=
  k ≤ s.length ∧ o.rest = s.drop k

/-- One call of `consume` as a transition on the pair of the parser and the request. -/
def consumeStep (q : RequestParser × Request) (b : UInt8) :
    ResultType × RequestParser × Request := q.1.consume q.2 b

/-- The loop of `parse` is the run of the recogniser whose transition is `consume`. -/
theorem parse_eq_run (p : RequestParser) (req : Request) (s : Bytes) :
    p.parse req s =
      ⟨(Recogniser.run consumeStep (p, req) s).1, (Recogniser.run consumeStep (p, req) s).2.2,
        (Recogniser.run consumeStep (p, req) s).2.1.1,
        (Recogniser.run consumeStep (p, req) s).2.1.2⟩ := by
  induction s generalizing p req with
  | nil => rfl
  | cons b s ih =>
    rw [RequestParser.parse, Recogniser.run, consumeStep]
    cases h : p.consume req b with
    | mk v q =>
      obtain ⟨p', req'⟩ := q
      cases v with
      | good => rfl
      | bad => rfl
      | indeterminate => exact ih p' req'

/-- Splitting the range of a call of `parse` at a point where it is undecided. -/
lemma parse_append_of_indeterminate {p : RequestParser} {req : Request} {s : Bytes}
    (h : (p.parse req s).result = .indeterminate) (t : Bytes) :
    p.parse req (s ++ t) =
      (p.parse req s).parser.parse (p.parse req s).request t := by
  rw [parse_eq_run] at h
  rw [parse_eq_run, Recogniser.run_append_of_indeterminate h, parse_eq_run p req s, parse_eq_run]

/-- What follows the deciding byte is left alone by `parse`. -/
lemma parse_append_of_ne_indeterminate {p : RequestParser} {req : Request} {s : Bytes}
    (h : (p.parse req s).result ≠ .indeterminate) (t : Bytes) :
    p.parse req (s ++ t) = { p.parse req s with rest := (p.parse req s).rest ++ t } := by
  rw [parse_eq_run] at h
  rw [parse_eq_run, Recogniser.run_append_of_ne_indeterminate h, parse_eq_run]

end Http

end AsioStudy
