import AsioStudy.Http.RequestHandler

/-!
# The content of the file that is sent

The loop of `handle_request` reads blocks of 512 bytes until `gcount()` is zero, which is the case
at the end of the file and also when a read fails.  `readContent_failing` says what it has read
then, and `never_truncates_iff` for which files a 200 reply is complete.
-/

namespace AsioStudy

namespace Http

/-- The statuses of the replies that report an error. -/
def StatusType.isError : StatusType → Bool
  | .badRequest | .unauthorized | .forbidden | .notFound | .internalServerError | .notImplemented
  | .badGateway | .serviceUnavailable => true
  | _ => false

/-- A read of the file fails while there are bytes left. -/
def OpenFile.FailsEarly (file : OpenFile) : Prop :=
  ∃ k, file.badAfter = some k ∧ 512 * k < file.content.length

/-- The values of the `Content-Length` headers of a reply. -/
def contentLengths (rep : Reply) : List Bytes :=
  (rep.headers.filter fun h => h.name == bytes "Content-Length").map Header.value

/-- For the file that the handler opens: a 200 reply carries its whole content and its length, and a
read that fails before the end of the file leads to an error reply. -/
def NeverTruncates (docRoot : Bytes) (fs : FileSystem) (req : Request) (rep : Reply) : Prop :=
  ∀ path file, (handleRequest docRoot fs req rep).opened = some path → fs path = some file →
    ((handleRequest docRoot fs req rep).rep.status = some .ok →
      (handleRequest docRoot fs req rep).rep.content = file.content ∧
        contentLengths (handleRequest docRoot fs req rep).rep =
          [decimal file.content.length]) ∧
    (file.FailsEarly →
      ∃ status, (handleRequest docRoot fs req rep).rep.status = some status ∧
        status.isError = true)

/-- A read of a stream that is not going to fail now. -/
lemma IFStream.read_of_good {rest : Bytes} {g : Option ℕ} (h : g ≠ some 0) (n : ℕ) :
    (⟨rest, g, false⟩ : IFStream).read n =
      (rest.take n, ⟨rest.drop n, g.map (· - 1), rest.length < n⟩) := by
  unfold IFStream.read
  rw [if_neg]
  simpa using h

/-- **The loop.**  Before a read fails the loop has read the blocks of the reads before. -/
lemma readContent_failing (rest : Bytes) (k : ℕ) (content : Bytes) :
    readContent ⟨rest, some k, false⟩ content = content ++ rest.take (512 * k) := by
  induction k generalizing rest content with
  | zero =>
    rw [readContent]
    simp [IFStream.read]
  | succ k ih =>
    rw [readContent, IFStream.read_of_good (by simp)]
    by_cases hrest : rest = []
    · simp [hrest]
    · have hpos : (rest.take 512).length > 0 := by
        have hlength := List.length_pos_iff.mpr hrest
        rw [List.length_take]
        omega
      rw [if_pos hpos, Option.map_some, Nat.add_sub_cancel]
      -- after a short block the stream has failed, after a full one the loop goes on
      by_cases hshort : rest.length < 512
      · rw [decide_eq_true hshort, readContent_failed, List.take_of_length_le (le_of_lt hshort),
          List.take_of_length_le (by omega)]
      · rw [decide_eq_false hshort, ih, List.append_assoc, Nat.mul_succ, Nat.add_comm,
          List.take_add]

/-- The loop reads the whole file unless a read fails early. -/
lemma readContent_stream_iff (file : OpenFile) :
    readContent file.stream [] = file.content ↔ ¬ file.FailsEarly := by
  obtain ⟨content, badAfter⟩ := file
  unfold OpenFile.stream OpenFile.FailsEarly
  cases badAfter with
  | none => simp [readContent_readable]
  | some k =>
    rw [readContent_failing, List.nil_append, List.take_eq_self_iff]
    simp

/-- **No truncated files.**  For a target and a file system, a 200 reply is complete and a failing
read leads to an error reply if and only if no read fails early of the file that the target asks
for. -/
theorem never_truncates_iff (docRoot : Bytes) (fs : FileSystem) (req : Request) {rep : Reply}
    (hrep : rep.content = []) :
    NeverTruncates docRoot fs req rep ↔
      ∀ requestPath file, urlDecode req.uri = (true, requestPath) → IsServable requestPath →
        fs (cString (docRoot ++ servedPath requestPath)) = some file → ¬ file.FailsEarly := by
  constructor
  · intro h requestPath file hdecode hserv hfile hearly
    have houtcome := handleRequest_of_opened rep hdecode hserv hfile
    unfold NeverTruncates at h
    rw [houtcome] at h
    obtain ⟨-, herror⟩ := h _ file rfl hfile
    obtain ⟨status, hstatus, hisError⟩ := herror hearly
    cases hstatus
    cases hisError
  · intro h path file hopened hfile
    rcases handleRequest_cases docRoot fs req rep with
      hbad | ⟨requestPath, path', hdecode, hserv, hpath, ⟨hmissing, hnone⟩ | ⟨file', hfile', hsome⟩⟩
    · rw [hbad] at hopened
      cases hopened
    · rw [hnone] at hopened
      cases hopened
      rw [hmissing] at hfile
      cases hfile
    · rw [hsome] at hopened
      cases hopened
      obtain rfl : file' = file := Option.some.inj (hfile'.symm.trans hfile)
      have hgood := h requestPath file' hdecode hserv (hpath ▸ hfile)
      have hcontent := (readContent_stream_iff file').mpr hgood
      rw [← hrep] at hcontent
      rw [hsome, hcontent]
      exact ⟨fun _ => ⟨rfl, rfl⟩, fun hearly => absurd hearly hgood⟩

/-- A file of one byte, of which the read after its last one fails. -/
theorem never_truncates_iff_late_failure :
    NeverTruncates (bytes "/srv") (fun _ => some ⟨bytes "x", some 1⟩)
      { Request.empty with uri := bytes "/a" } Reply.empty := by
  refine (never_truncates_iff _ _ _ rfl).mpr fun requestPath file _ _ hfile => ?_
  obtain rfl := Option.some.inj hfile
  rintro ⟨k, hk, hlt⟩
  obtain rfl := Option.some.inj hk
  revert hlt
  decide

/-- A file of one byte of which already the first read fails is answered with 200 and without
content. -/
theorem truncated_by_first_read :
    ¬ NeverTruncates (bytes "/srv") (fun _ => some ⟨bytes "x", some 0⟩)
      { Request.empty with uri := bytes "/a" } Reply.empty := by
  intro h
  have hdecode : urlDecode (bytes "/a") = (true, bytes "/a") := by decide
  have hserv : IsServable (bytes "/a") := by
    unfold IsServable
    decide
  have houtcome : handleRequest (bytes "/srv") (fun _ => some ⟨bytes "x", some 0⟩)
      { Request.empty with uri := bytes "/a" } Reply.empty = _ :=
    handleRequest_of_opened Reply.empty hdecode hserv rfl
  unfold NeverTruncates at h
  rw [houtcome] at h
  obtain ⟨hcomplete, -⟩ := h _ _ rfl rfl
  obtain ⟨hcontent, -⟩ := hcomplete rfl
  have hempty : readContent (⟨bytes "x", some 0⟩ : OpenFile).stream Reply.empty.content = [] :=
    readContent_failing (bytes "x") 0 []
  rw [hempty] at hcontent
  cases hcontent

end Http

end AsioStudy
