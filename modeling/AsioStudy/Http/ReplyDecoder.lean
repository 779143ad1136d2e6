import AsioStudy.Http.Reply

/-!
# Decoding a reply

`to_buffers` writes a status line, the header lines, an empty line and the content, without any
quoting.  `decodeReply` reads this back: the status line ends at the first CRLF, every header line
is cut at its first `: `, and what is behind the empty line is the content.

`toBuffers_injective`: the decoder recovers every reply whose names contain no colon and whose
header lines contain no line ends, so that two such replies never have the same bytes.
-/

namespace AsioStudy

namespace Http

/-! ## The decoder -/

/-- The enumerators of `reply::status_type` in their order. -/
def statusTypes : List StatusType :=
  [.ok, .created, .accepted, .noContent, .multipleChoices, .movedPermanently, .movedTemporarily,
    .notModified, .badRequest, .unauthorized, .forbidden, .notFound, .internalServerError,
    .notImplemented, .badGateway, .serviceUnavailable]

/-- The enumerator with the given status line, which is written without its CRLF. -/
def decodeStatus (line : Bytes) : Option StatusType :=
  statusTypes.find? fun status => statusString status == line ++ crlfBytes

/-- The header lines up to the empty line, and what is behind it. -/
def decodeHeaders (s : Bytes) : Option (List Header × Bytes) :=
  match _h : splitAtFirst crlfBytes s with
  | none => none
  | some (line, rest) =>
    if line = [] then some ([], rest)
    else
      match splitAtFirst nameValueSeparator line with
      | none => none
      | some (name, value) =>
        (decodeHeaders rest).map fun r => (⟨name, value⟩ :: r.1, r.2)
termination_by s.length
decreasing_by
  apply length_lt_of_splitAtFirst (List.cons_ne_nil (ch '\r') [ch '\n'])
  assumption

/-- The reply with the given bytes. -/
def decodeReply (s : Bytes) : Option Reply := do
  let (line, rest) ← splitAtFirst crlfBytes s
  let status ← decodeStatus line
  let (headers, content) ← decodeHeaders rest
  pure ⟨some status, headers, content⟩

/-! ## Recovering a reply -/

/-- A header whose line can be cut again: there is no colon in the name and no line end in either
part. -/
structure Header.IsPlain (h : Header) : Prop where
  /-- There is no colon in the name. -/
  colon_notMem_name : ch ':' ∉ h.name
  /-- There is no carriage return in the name. -/
  cr_notMem_name : ch '\r' ∉ h.name
  /-- There is no line feed in the name. -/
  lf_notMem_name : ch '\n' ∉ h.name
  /-- There is no carriage return in the value. -/
  cr_notMem_value : ch '\r' ∉ h.value
  /-- There is no line feed in the value. -/
  lf_notMem_value : ch '\n' ∉ h.value

/-- A reply with one of the enumerators and with plain headers; its content is arbitrary. -/
structure Reply.IsPlain (rep : Reply) : Prop where
  /-- The status is one of the enumerators. -/
  isSome_status : rep.status.isSome = true
  /-- The headers are plain. -/
  headers : ∀ h ∈ rep.headers, h.IsPlain

/-- The line of a header. -/
def Header.line (h : Header) : Bytes := h.name ++ nameValueSeparator ++ h.value

/-- The bytes of a reply: the status line, the header lines, an empty line and the content. -/
lemma wire_eq (rep : Reply) :
    rep.wire = toBuffer rep.status ++
      (rep.headers.flatMap (fun h => h.line ++ crlfBytes) ++ (crlfBytes ++ rep.content)) := by
  have hheaders : ∀ headers : List Header,
      (headers.flatMap fun h => [h.name, nameValueSeparator, h.value, crlfBytes]).flatten =
        headers.flatMap fun h => h.line ++ crlfBytes := by
    intro headers
    induction headers with
    | nil => rfl
    | cons h headers ih =>
      rw [List.flatMap_cons, List.flatten_append, ih, List.flatMap_cons]
      simp only [Header.line, List.flatten_cons, List.flatten_nil, List.append_nil,
        List.append_assoc]
  unfold Reply.wire Reply.toBuffers
  rw [List.flatten_append, List.flatten_cons, hheaders, List.append_assoc]
  simp only [List.flatten_cons, List.flatten_nil, List.append_nil]

/-- A line without a carriage return is cut off at its end. -/
lemma splitAtFirst_crlfBytes {line : Bytes} (h : ch '\r' ∉ line) (rest : Bytes) :
    splitAtFirst crlfBytes (line ++ (crlfBytes ++ rest)) = some (line, rest) :=
  splitAtFirst_append h [ch '\n'] rest

/-- Every status line belongs to one enumerator. -/
lemma decodeStatus_statusText (status : StatusType) :
    decodeStatus (statusText status) = some status := by
  have hmem : status ∈ statusTypes := by cases status <;> decide
  have hall : ∀ status ∈ statusTypes, decodeStatus (statusText status) = some status := by
    decide +kernel
  exact hall status hmem

/-- The line of a plain header is not empty, contains no carriage return and is cut at the end of
the name. -/
lemma Header.IsPlain.line_spec {h : Header} (hh : h.IsPlain) :
    h.line ≠ [] ∧ ch '\r' ∉ h.line ∧
      splitAtFirst nameValueSeparator h.line = some (h.name, h.value) := by
  unfold Header.line
  refine ⟨?_, ?_, ?_⟩
  · simp [nameValueSeparator]
  · rw [List.mem_append, List.mem_append, not_or, not_or]
    exact ⟨⟨hh.cr_notMem_name, by decide⟩, hh.cr_notMem_value⟩
  · rw [List.append_assoc]
    exact splitAtFirst_append hh.colon_notMem_name [ch ' '] h.value

/-- Plain header lines are read up to the empty line, whatever the content is. -/
lemma decodeHeaders_append {headers : List Header} (h : ∀ x ∈ headers, x.IsPlain)
    (content : Bytes) :
    decodeHeaders (headers.flatMap (fun x => x.line ++ crlfBytes) ++ (crlfBytes ++ content)) =
      some (headers, content) := by
  induction headers with
  | nil =>
    have hsplit : splitAtFirst crlfBytes (crlfBytes ++ content) = some ([], content) :=
      splitAtFirst_crlfBytes List.not_mem_nil content
    rw [List.flatMap_nil, List.nil_append, decodeHeaders.eq_def]
    split
    · rename_i hnone
      rw [hsplit] at hnone
      cases hnone
    · rename_i line rest hsome
      rw [hsplit] at hsome
      cases hsome
      rfl
  | cons x headers ih =>
    obtain ⟨hne, hcr, hcut⟩ := (h x List.mem_cons_self).line_spec
    have hrest := ih fun y hy => h y (List.mem_cons_of_mem x hy)
    have hsplit := splitAtFirst_crlfBytes hcr
      (headers.flatMap (fun x => x.line ++ crlfBytes) ++ (crlfBytes ++ content))
    rw [List.flatMap_cons, List.append_assoc, List.append_assoc, decodeHeaders.eq_def]
    split
    · rename_i hnone
      rw [hsplit] at hnone
      cases hnone
    · rename_i line rest hsome
      rw [hsplit] at hsome
      cases hsome
      rw [if_neg hne, hcut]
      simp only [hrest, Option.map_some]

/-- A plain reply is recovered from its bytes. -/
lemma decodeReply_wire {rep : Reply} (h : rep.IsPlain) : decodeReply rep.wire = some rep := by
  obtain ⟨status, headers, content⟩ := rep
  obtain ⟨status, rfl⟩ := Option.isSome_iff_exists.mp h.isSome_status
  obtain ⟨hstatus, hcr⟩ := statusString_eq status
  rw [wire_eq, toBuffer, hstatus, List.append_assoc]
  unfold decodeReply
  rw [splitAtFirst_crlfBytes hcr]
  simp only [Option.bind_eq_bind, Option.bind_some, decodeStatus_statusText,
    decodeHeaders_append h.headers]
  rfl

/-- **Injectivity.**  A plain reply is recovered from the bytes of its buffers, hence no other plain
reply has the same bytes. -/
theorem toBuffers_injective {rep : Reply} (h : rep.IsPlain) :
    decodeReply rep.wire = some rep ∧
      ∀ rep' : Reply, rep'.IsPlain → rep'.wire = rep.wire → rep' = rep := by
  refine ⟨decodeReply_wire h, fun rep' h' hwire => ?_⟩
  have hdecode := decodeReply_wire h'
  rw [hwire, decodeReply_wire h] at hdecode
  exact (Option.some.inj hdecode).symm

/-- A reply with an empty name and an empty value, and with an empty line in its content. -/
theorem toBuffers_injective_empty_header :
    decodeReply (Reply.wire ⟨some .ok, [⟨[], []⟩], blankLine⟩) =
        some ⟨some .ok, [⟨[], []⟩], blankLine⟩ ∧
      ∀ rep' : Reply, rep'.IsPlain → rep'.wire = Reply.wire ⟨some .ok, [⟨[], []⟩], blankLine⟩ →
        rep' = ⟨some .ok, [⟨[], []⟩], blankLine⟩ := by
  refine toBuffers_injective ⟨rfl, fun h hh => ?_⟩
  rw [List.mem_singleton.mp hh]
  exact ⟨List.not_mem_nil, List.not_mem_nil, List.not_mem_nil, List.not_mem_nil, List.not_mem_nil⟩

end Http

end AsioStudy
