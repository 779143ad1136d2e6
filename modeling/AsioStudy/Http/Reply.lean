import AsioStudy.Cpp.Text
import AsioStudy.Http.Request

/-!
# HTTP replies

The value type `reply` of the HTTP servers, its serialisation `to_buffers` and the stock replies.
The text of these functions is the same in `http_server1` to `http_server4`.

The status of a default-constructed reply is not initialised, so that it need not be one of the
enumerators; such a value is written `none`, and the `switch` statements treat it by their
`default` branch.
-/

namespace AsioStudy

namespace Http

/-- The enumerators of `reply::status_type`. -/
inductive StatusType where
  | ok
  | created
  | accepted
  | noContent
  | multipleChoices
  | movedPermanently
  | movedTemporarily
  | notModified
  | badRequest
  | unauthorized
  | forbidden
  | notFound
  | internalServerError
  | notImplemented
  | badGateway
  | serviceUnavailable
  deriving DecidableEq, Repr

/-- A reply to be sent to a client, `struct reply`. -/
structure Reply where
  /-- The status of the reply, `none` while it is not one of the enumerators. -/
  status : Option StatusType
  /-- The headers to be included in the reply. -/
  headers : List Header
  /-- The content to be sent in the reply. -/
  content : Bytes
  deriving DecidableEq, Repr

/-- A default-constructed reply. -/
def Reply.empty : Reply := ⟨none, [], []⟩

/-! ## Serialisation -/

/-- The status line of an enumerator, `namespace status_strings`. -/
def statusString : StatusType → Bytes
  | .ok => bytes "HTTP/1.0 200 OK\r\n"
  | .created => bytes "HTTP/1.0 201 Created\r\n"
  | .accepted => bytes "HTTP/1.0 202 Accepted\r\n"
  | .noContent => bytes "HTTP/1.0 204 No Content\r\n"
  | .multipleChoices => bytes "HTTP/1.0 300 Multiple Choices\r\n"
  | .movedPermanently => bytes "HTTP/1.0 301 Moved Permanently\r\n"
  | .movedTemporarily => bytes "HTTP/1.0 302 Moved Temporarily\r\n"
  | .notModified => bytes "HTTP/1.0 304 Not Modified\r\n"
  | .badRequest => bytes "HTTP/1.0 400 Bad Request\r\n"
  | .unauthorized => bytes "HTTP/1.0 401 Unauthorized\r\n"
  | .forbidden => bytes "HTTP/1.0 403 Forbidden\r\n"
  | .notFound => bytes "HTTP/1.0 404 Not Found\r\n"
  | .internalServerError => bytes "HTTP/1.0 500 Internal Server Error\r\n"
  | .notImplemented => bytes "HTTP/1.0 501 Not Implemented\r\n"
  | .badGateway => bytes "HTTP/1.0 502 Bad Gateway\r\n"
  | .serviceUnavailable => bytes "HTTP/1.0 503 Service Unavailable\r\n"

/-- `status_strings::to_buffer`. -/
def toBuffer : Option StatusType → Bytes
  | some status => statusString status
  | none => statusString .internalServerError

/-- `misc_strings::name_value_separator`. -/
def nameValueSeparator : Bytes := [ch ':', ch ' ']

/-- `misc_strings::crlf`. -/
def crlfBytes : Bytes := [ch '\r', ch '\n']

/-- Convert the reply into a vector of buffers, given by the bytes they refer to. -/
def Reply.toBuffers (rep : Reply) : List Bytes :=
  toBuffer rep.status ::
    rep.headers.flatMap (fun h => [h.name, nameValueSeparator, h.value, crlfBytes]) ++
      [crlfBytes, rep.content]

/-- The bytes sent when the buffers of a reply are written. -/
def Reply.wire (rep : Reply) : Bytes := rep.toBuffers.flatten

/-! ## Stock replies -/

/-- The content of a stock reply, `stock_replies::to_string`. -/
def stockContent : StatusType → Bytes
  | .ok => []
  | .created =>
    bytes "<html><head><title>Created</title></head><body><h1>201 Created</h1></body></html>"
  | .accepted =>
    bytes "<html><head><title>Accepted</title></head><body><h1>202 Accepted</h1></body></html>"
  | .noContent =>
    bytes "<html><head><title>No Content</title></head><body><h1>204 Content</h1></body></html>"
  | .multipleChoices =>
    bytes ("<html><head><title>Multiple Choices</title></head>" ++
      "<body><h1>300 Multiple Choices</h1></body></html>")
  | .movedPermanently =>
    bytes ("<html><head><title>Moved Permanently</title></head>" ++
      "<body><h1>301 Moved Permanently</h1></body></html>")
  | .movedTemporarily =>
    bytes ("<html><head><title>Moved Temporarily</title></head>" ++
      "<body><h1>302 Moved Temporarily</h1></body></html>")
  | .notModified =>
    bytes ("<html><head><title>Not Modified</title></head>" ++
      "<body><h1>304 Not Modified</h1></body></html>")
  | .badRequest =>
    bytes ("<html><head><title>Bad Request</title></head>" ++
      "<body><h1>400 Bad Request</h1></body></html>")
  | .unauthorized =>
    bytes ("<html><head><title>Unauthorized</title></head>" ++
      "<body><h1>401 Unauthorized</h1></body></html>")
  | .forbidden =>
    bytes "<html><head><title>Forbidden</title></head><body><h1>403 Forbidden</h1></body></html>"
  | .notFound =>
    bytes "<html><head><title>Not Found</title></head><body><h1>404 Not Found</h1></body></html>"
  | .internalServerError =>
    bytes ("<html><head><title>Internal Server Error</title></head>" ++
      "<body><h1>500 Internal Server Error</h1></body></html>")
  | .notImplemented =>
    bytes ("<html><head><title>Not Implemented</title></head>" ++
      "<body><h1>501 Not Implemented</h1></body></html>")
  | .badGateway =>
    bytes ("<html><head><title>Bad Gateway</title></head>" ++
      "<body><h1>502 Bad Gateway</h1></body></html>")
  | .serviceUnavailable =>
    bytes ("<html><head><title>Service Unavailable</title></head>" ++
      "<body><h1>503 Service Unavailable</h1></body></html>")

/-- The two header lines that every reply of the servers carries. -/
def contentHeaders (length : ℕ) (type : Bytes) : List Header :=
  [⟨bytes "Content-Length", decimal length⟩, ⟨bytes "Content-Type", type⟩]

/-- Get a stock reply. -/
def stockReply (status : StatusType) : Reply where
  status := some status
  content := stockContent status
  headers := contentHeaders (stockContent status).length (bytes "text/html")

/-- The bytes of a reply that carries the two usual header lines. -/
lemma wire_contentHeaders (status : StatusType) (n : ℕ) (type content : Bytes) :
    Reply.wire ⟨some status, contentHeaders n type, content⟩ =
      statusString status ++ (bytes "Content-Length: " ++ decimal n ++ crlfBytes) ++
        (bytes "Content-Type: " ++ type ++ crlfBytes) ++ crlfBytes ++ content := by
  have hlength : bytes "Content-Length: " = bytes "Content-Length" ++ nameValueSeparator := rfl
  have htype : bytes "Content-Type: " = bytes "Content-Type" ++ nameValueSeparator := rfl
  simp only [Reply.wire, Reply.toBuffers, contentHeaders, toBuffer, hlength, htype,
    List.flatMap_cons, List.flatMap_nil, List.flatten_cons, List.flatten_nil, List.append_assoc,
    List.append_nil, List.cons_append, List.nil_append]

/-! ## The end of the head -/

/-- An empty line: the end of a line followed by another one. -/
def blankLine : Bytes := crlfBytes ++ crlfBytes

/-- Text without a carriage return does not begin an empty line. -/
lemma findFrom_blankLine_append {text : Bytes} (h : ch '\r' ∉ text) (pos : ℕ) (s : Bytes) :
    findFrom blankLine pos (text ++ s) = findFrom blankLine (pos + text.length) s := by
  induction text generalizing pos with
  | nil => rfl
  | cons b text ih =>
    rw [List.mem_cons, not_or] at h
    have hpre : blankLine.isPrefixOf (b :: (text ++ s)) = false := by
      simp [blankLine, crlfBytes, List.isPrefixOf, h.1]
    rw [List.cons_append, findFrom, hpre, if_neg Bool.false_ne_true, ih h.2, List.length_cons]
    congr 1
    omega

/-- The end of a line is no empty line when another line begins after it. -/
lemma findFrom_blankLine_crlf {b : UInt8} (h : b ≠ ch '\r') (pos : ℕ) (s : Bytes) :
    findFrom blankLine pos (crlfBytes ++ b :: s) = findFrom blankLine (pos + 2) (b :: s) := by
  have hfirst : blankLine.isPrefixOf (ch '\r' :: ch '\n' :: b :: s) = false := by
    simp [blankLine, crlfBytes, List.isPrefixOf, Ne.symm h]
  have hsecond : blankLine.isPrefixOf (ch '\n' :: b :: s) = false := by
    have hne : ch '\r' ≠ ch '\n' := by decide
    simp [blankLine, crlfBytes, List.isPrefixOf, hne]
  change findFrom blankLine pos (ch '\r' :: ch '\n' :: b :: s) = _
  rw [findFrom, hfirst, if_neg Bool.false_ne_true, findFrom, hsecond, if_neg Bool.false_ne_true]

/-- An empty line is found where it begins. -/
lemma findFrom_blankLine_self (pos : ℕ) (s : Bytes) :
    findFrom blankLine pos (blankLine ++ s) = some pos := by
  have hpre : blankLine.isPrefixOf (blankLine ++ s) = true :=
    List.isPrefixOf_iff_prefix.mpr (List.prefix_append _ _)
  change findFrom blankLine pos (ch '\r' :: (crlfBytes.tail ++ crlfBytes ++ s)) = some pos
  rw [findFrom, if_pos]
  exact hpre

/-- The text of a status line. -/
def statusText (status : StatusType) : Bytes := (statusString status).dropLast.dropLast

/-- A status line is its text, which contains no carriage return, and the end of the line. -/
lemma statusString_eq (status : StatusType) :
    statusString status = statusText status ++ crlfBytes ∧ ch '\r' ∉ statusText status := by
  cases status <;> decide

/-- The text of a reply's head before its empty line, with the two usual header lines. -/
def headText (status : StatusType) (n : ℕ) (type : Bytes) : Bytes :=
  statusText status ++ crlfBytes ++ (bytes "Content-Length: " ++ decimal n) ++ crlfBytes ++
    (bytes "Content-Type: " ++ type)

/-- A reply with the two usual header lines is its head, an empty line and its content. -/
lemma wire_eq_headText (status : StatusType) (n : ℕ) (type content : Bytes) :
    Reply.wire ⟨some status, contentHeaders n type, content⟩ =
      headText status n type ++ blankLine ++ content := by
  rw [wire_contentHeaders, (statusString_eq status).1]
  simp only [headText, blankLine, List.append_assoc]

/-- The first empty line of such a reply ends its head, provided that the type contains no
carriage return. -/
lemma find_blankLine_wire (status : StatusType) (n : ℕ) {type : Bytes} (htype : ch '\r' ∉ type)
    (content : Bytes) :
    find (Reply.wire ⟨some status, contentHeaders n type, content⟩) blankLine =
      some (headText status n type).length := by
  obtain ⟨hstatus, hstatusText⟩ := statusString_eq status
  have hdecimal : ch '\r' ∉ decimal n := by
    intro h
    have hdigit := isDigit_of_mem_decimal h
    revert hdigit
    decide
  have hlength : ch '\r' ∉ bytes "Content-Length: " ++ decimal n := by
    rw [List.mem_append, not_or]
    exact ⟨by decide, hdecimal⟩
  have htypeLine : ch '\r' ∉ bytes "Content-Type: " ++ type := by
    rw [List.mem_append, not_or]
    exact ⟨by decide, htype⟩
  rw [wire_eq_headText, find, headText]
  simp only [List.append_assoc] at hlength htypeLine ⊢
  rw [findFrom_blankLine_append hstatusText]
  -- each of the two header lines begins with the letter `C`
  change findFrom blankLine _ (crlfBytes ++ ch 'C' :: _) = _
  rw [findFrom_blankLine_crlf (by decide)]
  change findFrom blankLine _ (bytes "Content-Length: " ++ (decimal n ++ _)) = _
  rw [← List.append_assoc (bytes "Content-Length: "), findFrom_blankLine_append hlength]
  change findFrom blankLine _ (crlfBytes ++ ch 'C' :: _) = _
  rw [findFrom_blankLine_crlf (by decide)]
  change findFrom blankLine _ (bytes "Content-Type: " ++ (type ++ _)) = _
  rw [← List.append_assoc (bytes "Content-Type: "), findFrom_blankLine_append htypeLine,
    findFrom_blankLine_self]
  simp only [List.length_append, crlfBytes, List.length_cons, List.length_nil]
  congr 1
  omega

end Http

end AsioStudy
