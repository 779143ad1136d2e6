import AsioStudy.Foundation.LexicalPath
import AsioStudy.Http.Reply

/-!
# The request handler

`request_handler` of `http_server1` to `http_server3` and `file_handler` of `http_server4`, which
have the same text: decoding of the request target, the checks on the decoded path, the opening and
reading of the file and the composition of the reply.

The operating system appears as a `FileSystem`, which opens a C string or fails.  `handleRequest`
also returns the C string it opened, if it came so far.  The main result of the file is that this
string never leaves the document root (`opened_confined`).
-/

namespace AsioStudy

namespace Http

/-! ## MIME types -/

/-- The table `mime_types::mappings`. -/
def mappings : List (Bytes × Bytes) :=
  [(bytes "gif", bytes "image/gif"),
    (bytes "htm", bytes "text/html"),
    (bytes "html", bytes "text/html"),
    (bytes "jpg", bytes "image/jpeg"),
    (bytes "png", bytes "image/png"),
    (bytes "ttf", bytes "font/ttf"),
    (bytes "woff", bytes "font/woff"),
    (bytes "woff2", bytes "font/woff2")]

/-- Convert a file extension into a MIME type. -/
def extensionToType (extension : Bytes) : Bytes :=
  match mappings.find? fun m => m.1 == extension with
  | some m => m.2
  | none => bytes "text/plain"

/-- The type of a reply is in the fixed table or is `text/plain`. -/
lemma extensionToType_mem (extension : Bytes) :
    extensionToType extension ∈ bytes "text/plain" :: mappings.map Prod.snd := by
  unfold extensionToType
  cases h : mappings.find? fun m => m.1 == extension with
  | none => exact List.mem_cons_self
  | some m => exact List.mem_cons_of_mem _ (List.mem_map_of_mem (List.mem_of_find?_eq_some h))

/-! ## Files -/

/-- A file that can be opened: its content, and after how many blocks of 512 bytes a read fails, if
one does. -/
structure OpenFile where
  /-- The bytes of the file. -/
  content : Bytes
  /-- The number of reads that succeed before one fails. -/
  badAfter : Option ℕ
  deriving DecidableEq, Repr

/-- What the operating system answers when a path is opened for reading. -/
abbrev FileSystem := Bytes → Option OpenFile

/-- A file system in which every file that opens is read without error. -/
def readableFiles (files : Bytes → Option Bytes) : FileSystem :=
  fun path => (files path).map fun content => ⟨content, none⟩

/-- The state of an `std::ifstream` that has been opened. -/
structure IFStream where
  /-- The bytes of the file that have not been read. -/
  rest : Bytes
  /-- How many further reads succeed before one fails. -/
  goodReads : Option ℕ
  /-- Whether one of the failure bits is set. -/
  failed : Bool

/-- The stream of a file that was just opened. -/
def OpenFile.stream (file : OpenFile) : IFStream := ⟨file.content, file.badAfter, false⟩

/-- `is.read(buf, n)`: the `gcount()` bytes that were read and the stream afterwards.  A short
read sets the failure bits and a failing one delivers nothing. -/
def IFStream.read (is : IFStream) (n : ℕ) : Bytes × IFStream :=
  if is.failed || is.goodReads == some 0 then ([], { is with failed := true })
  else
    (is.rest.take n,
      { rest := is.rest.drop n
        goodReads := is.goodReads.map (· - 1)
        failed := is.rest.length < n })

/-- A read that delivers something shortens the stream. -/
lemma IFStream.length_rest_read_lt {is : IFStream} {n : ℕ} (h : (is.read n).1.length > 0) :
    (is.read n).2.rest.length < is.rest.length := by
  unfold IFStream.read at h ⊢
  split at h
  · exact absurd h (lt_irrefl 0)
  · rename_i hgood
    rw [if_neg hgood, List.length_drop]
    rw [List.length_take] at h
    omega

/-- `while (is.read(buf, sizeof(buf)).gcount() > 0) content.append(buf, is.gcount())`. -/
def readContent (is : IFStream) (content : Bytes) : Bytes :=
  if (is.read 512).1.length > 0 then
    readContent (is.read 512).2 (content ++ (is.read 512).1)
  else content
termination_by is.rest.length
decreasing_by exact IFStream.length_rest_read_lt (by assumption)

/-- A stream that has failed delivers nothing more. -/
lemma readContent_failed (rest : Bytes) (g : Option ℕ) (content : Bytes) :
    readContent ⟨rest, g, true⟩ content = content := by
  rw [readContent]
  simp [IFStream.read]

/-- The reading loop delivers the whole file when no read fails. -/
lemma readContent_readable (rest content : Bytes) :
    readContent ⟨rest, none, false⟩ content = content ++ rest := by
  induction hn : rest.length using Nat.strong_induction_on generalizing rest content with
  | _ n ih =>
    rw [readContent]
    have hread : (⟨rest, none, false⟩ : IFStream).read 512 =
        (rest.take 512, ⟨rest.drop 512, none, rest.length < 512⟩) := rfl
    rw [hread]
    by_cases hrest : rest = []
    · simp [hrest]
    · have hpos : 0 < rest.length := List.length_pos_iff.mpr hrest
      have htake : (rest.take 512).length > 0 := by
        rw [List.length_take]
        omega
      rw [if_pos htake]
      -- a short block is the last one, a full block is followed by the rest of the file
      by_cases hshort : rest.length < 512
      · rw [decide_eq_true hshort, readContent_failed, List.take_of_length_le (le_of_lt hshort)]
      · have hlt : (rest.drop 512).length < n := by
          rw [List.length_drop]
          omega
        rw [decide_eq_false hshort, ih _ hlt _ _ rfl, List.append_assoc, List.take_append_drop]

/-! ## URL decoding -/

/-- The loop of `url_decode`, from the index whose suffix of the input is given, with the output
written so far. -/
def urlDecodeFrom : Bytes → Bytes → Bool × Bytes
  | [], out => (true, out)
  | c :: s, out =>
    if c = ch '%' then
      match s with
      | a :: b :: s' =>
        match extractHexInt [a, b] with
        | some value => urlDecodeFrom s' (out ++ [intToChar value])
        | none => (false, out)
      | _ => (false, out)
    else if c = ch '+' then urlDecodeFrom s (out ++ [ch ' '])
    else urlDecodeFrom s (out ++ [c])

/-- Perform URL-decoding on a string: the returned flag and the final value of `out`, which is
cleared first. -/
def urlDecode (inp : Bytes) : Bool × Bytes := urlDecodeFrom inp []

/-! ## The handler -/

/-- The file extension of a path: the text after its last dot, unless a slash follows it. -/
def pathExtension (path : Bytes) : Bytes :=
  match findLastOf (ch '.') path, findLastOf (ch '/') path with
  | some lastDotPos, some lastSlashPos =>
    if lastDotPos > lastSlashPos then path.drop (lastDotPos + 1) else []
  | _, _ => []

/-- The path of the file that a decoded target asks for: if the path ends in a slash then
`index.html` is added. -/
def servedPath (requestPath : Bytes) : Bytes :=
  if requestPath.getLast? = some (ch '/') then requestPath ++ bytes "index.html" else requestPath

/-- What a call of `handle_request` leaves: the reply, and the C string that was handed to the
operating system if the call came to the opening of the file. -/
structure HandlerOutcome where
  /-- The reply after the call. -/
  rep : Reply
  /-- The path that was opened. -/
  opened : Option Bytes
  deriving DecidableEq, Repr

/-- Handle a request and produce a reply. -/
def handleRequest (docRoot : Bytes) (fs : FileSystem) (req : Request) (rep : Reply) :
    HandlerOutcome :=
  -- decode url to path
  let decoded := urlDecode req.uri
  let requestPath := decoded.2
  if !decoded.1 then ⟨stockReply .badRequest, none⟩
  -- the request path must be absolute and not contain ".."
  else if requestPath.isEmpty || requestPath.head? != some (ch '/')
      || (find requestPath (bytes "..")).isSome then
    ⟨stockReply .badRequest, none⟩
  else
    let requestPath := servedPath requestPath
    let extension := pathExtension requestPath
    -- open the file to send back
    let path := cString (docRoot ++ requestPath)
    match fs path with
    | none => ⟨stockReply .notFound, some path⟩
    | some file =>
      let content := readContent file.stream rep.content
      ⟨{ status := some .ok
         content := content
         headers := contentHeaders content.length (extensionToType extension) }, some path⟩

/-! ## Confinement to the document root -/

/-- The check of `handle_request` on a decoded target. -/
def IsServable (requestPath : Bytes) : Prop :=
  requestPath.head? = some (ch '/') ∧ ¬ bytes ".." <:+: requestPath

/-- The condition that `handle_request` evaluates is the negation of `IsServable`. -/
lemma rejected_iff (requestPath : Bytes) :
    (requestPath.isEmpty || requestPath.head? != some (ch '/')
        || (find requestPath (bytes "..")).isSome) = true ↔ ¬ IsServable requestPath := by
  rw [Bool.or_eq_true, Bool.or_eq_true, isSome_find_iff, bne_iff_ne, List.isEmpty_iff, IsServable,
    not_and_or, not_not]
  constructor
  · intro h
    rcases h with (h | h) | h
    · rw [h]
      exact Or.inl (by simp)
    · exact Or.inl h
    · exact Or.inr h
  · intro h
    rcases h with h | h
    · exact Or.inl (Or.inr h)
    · exact Or.inr h

/-- The reply with the file of a target that is decoded, servable and opened. -/
lemma handleRequest_of_opened {docRoot : Bytes} {fs : FileSystem} {req : Request} (rep : Reply)
    {requestPath : Bytes} {file : OpenFile} (hdecode : urlDecode req.uri = (true, requestPath))
    (hserv : IsServable requestPath)
    (hfile : fs (cString (docRoot ++ servedPath requestPath)) = some file) :
    handleRequest docRoot fs req rep =
      ⟨⟨some .ok,
        contentHeaders (readContent file.stream rep.content).length
          (extensionToType (pathExtension (servedPath requestPath))),
        readContent file.stream rep.content⟩,
        some (cString (docRoot ++ servedPath requestPath))⟩ := by
  have hrejected := mt (rejected_iff requestPath).mp (not_not_intro hserv)
  unfold handleRequest
  simp only [hdecode, if_neg hrejected, hfile]
  rfl

/-- The three ways out of `handle_request`: the stock 400 reply before any file is opened, the
stock 404 reply when the opening fails, and the file with its two header lines. -/
lemma handleRequest_cases (docRoot : Bytes) (fs : FileSystem) (req : Request) (rep : Reply) :
    handleRequest docRoot fs req rep = ⟨stockReply .badRequest, none⟩ ∨
    ∃ requestPath path, urlDecode req.uri = (true, requestPath) ∧ IsServable requestPath ∧
      path = cString (docRoot ++ servedPath requestPath) ∧
      ((fs path = none ∧ handleRequest docRoot fs req rep = ⟨stockReply .notFound, some path⟩) ∨
        ∃ file, fs path = some file ∧
          handleRequest docRoot fs req rep =
            ⟨⟨some .ok,
              contentHeaders (readContent file.stream rep.content).length
                (extensionToType (pathExtension (servedPath requestPath))),
              readContent file.stream rep.content⟩, some path⟩) := by
  by_cases hdec : (urlDecode req.uri).1 = true
  · by_cases hserv : IsServable (urlDecode req.uri).2
    · refine Or.inr ⟨(urlDecode req.uri).2, _, Prod.ext hdec rfl, hserv, rfl, ?_⟩
      cases hfs : fs (cString (docRoot ++ servedPath (urlDecode req.uri).2)) with
      | none =>
        have hrejected := mt (rejected_iff _).mp (not_not_intro hserv)
        refine Or.inl ⟨rfl, ?_⟩
        unfold handleRequest
        rw [if_neg (by simp [hdec]), if_neg hrejected]
        simp only [hfs]
      | some file =>
        exact Or.inr ⟨file, rfl, handleRequest_of_opened rep (Prod.ext hdec rfl) hserv hfs⟩
    · left
      unfold handleRequest
      rw [if_neg (by simp [hdec]), if_pos ((rejected_iff _).mpr hserv)]
  · left
    unfold handleRequest
    rw [if_pos (by simpa using hdec)]

/-- Adding `index.html` after a slash does not bring two dots together. -/
lemma not_infix_servedPath {requestPath : Bytes} (h : ¬ bytes ".." <:+: requestPath) :
    ¬ bytes ".." <:+: servedPath requestPath := by
  unfold servedPath
  split
  · rename_i hslash
    apply LexicalPath.not_pair_infix_append h (by decide)
    rw [hslash]
    decide
  · exact h

/-- A served path begins with a slash. -/
lemma exists_servedPath_eq_cons {requestPath : Bytes} (h : requestPath.head? = some (ch '/')) :
    ∃ path, servedPath requestPath = ch '/' :: path := by
  obtain ⟨path, rfl⟩ : ∃ path, requestPath = ch '/' :: path := List.head?_eq_some_iff.mp h
  unfold servedPath
  split
  · exact ⟨path ++ bytes "index.html", rfl⟩
  · exact ⟨path, rfl⟩

/-- The part of the opened C string below the document root: it begins with a slash and two dots
occur nowhere next to each other in it. -/
lemma cString_servedPath {requestPath : Bytes} (h : IsServable requestPath) :
    (cString (servedPath requestPath)).head? = some (ch '/') ∧
      ¬ bytes ".." <:+: cString (servedPath requestPath) := by
  have hdots := not_infix_servedPath h.2
  obtain ⟨path, hpath⟩ := exists_servedPath_eq_cons h.1
  refine ⟨?_, fun hpart => hdots (hpart.trans (cString_isPrefix _).isInfix)⟩
  rw [hpath, cString, List.takeWhile_cons_of_pos (by decide), List.head?_cons]

/-- **Document-root confinement.**  For a document root without NUL bytes and any request, if the
handler comes to the opening of the file, the C string it hands to the operating system is the
document root followed by a string that begins with a slash and never climbs above the root when it
is resolved lexically. -/
theorem opened_confined (docRoot : Bytes) (hroot : 0 ∉ docRoot) (fs : FileSystem) (req : Request)
    (rep : Reply) (path : Bytes) (hopen : (handleRequest docRoot fs req rep).opened = some path) :
    ∃ below : Bytes, path = docRoot ++ below ∧ below.head? = some (ch '/') ∧
      LexicalPath.NeverClimbs (ch '/') (ch '.') below := by
  rcases handleRequest_cases docRoot fs req rep with h | ⟨requestPath, p, -, hserv, hp, h⟩
  · rw [h] at hopen
    cases hopen
  · have hpath : p = path := by
      rcases h with ⟨-, h⟩ | ⟨file, -, h⟩
      · rw [h] at hopen
        exact Option.some.inj hopen
      · rw [h] at hopen
        exact Option.some.inj hopen
    obtain ⟨hhead, hdots⟩ := cString_servedPath hserv
    refine ⟨cString (servedPath requestPath), ?_, hhead,
      LexicalPath.neverClimbs_of_not_infix hdots⟩
    rw [← hpath, hp, cString_append hroot]

/-- A target with a percent-encoded NUL byte: the opened path is cut before the suffix. -/
theorem opened_confined_encoded_nul :
    ∃ below : Bytes, bytes "/srv/./a" = bytes "/srv" ++ below ∧ below.head? = some (ch '/') ∧
      LexicalPath.NeverClimbs (ch '/') (ch '.') below :=
  opened_confined (bytes "/srv") (by decide) (fun _ => none)
    { Request.empty with uri := bytes "/./a%00b/" } Reply.empty (bytes "/srv/./a")
    (by decide +kernel)

end Http

end AsioStudy
