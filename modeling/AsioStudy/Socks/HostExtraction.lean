import AsioStudy.Foundation.Lines
import AsioStudy.Socks.SslProxy

/-!
# The host of a proxied request

`forwardRequest` looks for the first `Host: ` in the whole of what it has received, for the next
colon and for the next end of a line.  Nothing ties what it finds to the line of the field `Host`:
`Host: ` may belong to another field or to the request target, and the colon may be in a later line.

`extractsHost_iff` says exactly for which requests the host and the port are those of the field.
-/

namespace AsioStudy

namespace Socks

open Asio Lines

/-! ## Requests and their host -/

/-- A blank. -/
def IsBlank (b : UInt8) : Prop := b = ch ' ' ∨ b = ch '\t'

instance : DecidablePred IsBlank := fun b => inferInstanceAs (Decidable (b = ch ' ' ∨ b = ch '\t'))

/-- The name of the field with its colon. -/
def hostName : Bytes := bytes "Host:"

/-- A request: a request line, header lines and a body. -/
structure RequestText where
  line : Bytes
  headers : List Bytes
  body : Bytes
  /-- A line ends at the first end of a line. -/
  crlf_not_infix : ∀ l ∈ line :: headers, ¬ crlf <:+: l
  /-- The first empty line ends the headers. -/
  headers_ne_nil : ∀ l ∈ headers, l ≠ []

/-- The bytes of a request. -/
def RequestText.text (r : RequestText) : Bytes :=
  joinLines crlf (r.line :: r.headers) ++ crlf ++ r.body

/-- The first header line whose field name is `Host` comes after the given header lines and has the
given text behind its colon. -/
structure RequestText.IsHostLine (r : RequestText) (before : List Bytes) (value : Bytes) :
    Prop where
  /-- The place of the line. -/
  headers_eq : ∃ after, r.headers = before ++ (hostName ++ value) :: after
  /-- It is the first one. -/
  first : ∀ l ∈ before, ¬ hostName <+: l

/-- The text behind a colon has the value `h ':' p`, with blanks before it and behind it. -/
structure IsHostValue (value blanks h p : Bytes) : Prop where
  /-- The blanks behind the value. -/
  value_eq : ∃ blanks', value = blanks ++ ((h ++ ch ':' :: p) ++ blanks') ∧ ∀ b ∈ blanks', IsBlank b
  /-- The blanks before the value. -/
  isBlank : ∀ b ∈ blanks, IsBlank b
  /-- The first colon of the value stands between the host and the port. -/
  colon_notMem : ch ':' ∉ h
  /-- The host is not empty, and the value does not begin with a blank. -/
  head_h : ∃ c t, h = c :: t ∧ ¬ IsBlank c
  /-- The port is not empty, and the value does not end with a blank. -/
  last_p : ∃ t c, p = t ++ [c] ∧ ¬ IsBlank c

/-- The field `Host` of the request has the value `h ':' p`, which begins at a place of the text. -/
def RequestText.HostAt (r : RequestText) (pos : ℕ) (h p : Bytes) : Prop :=
  ∃ before value blanks, r.IsHostLine before value ∧ IsHostValue value blanks h p ∧
    pos = (joinLines crlf (r.line :: before) ++ hostName ++ blanks).length

/-- There is only one such line. -/
lemma RequestText.IsHostLine.unique {r : RequestText} {before before' : List Bytes}
    {value value' : Bytes} (h : r.IsHostLine before value) (h' : r.IsHostLine before' value') :
    before = before' ∧ value = value' := by
  obtain ⟨⟨after, heq⟩, hfirst⟩ := h
  obtain ⟨⟨after', heq'⟩, hfirst'⟩ := h'
  obtain ⟨hbefore, hline, -⟩ := split_first_unique (heq.symm.trans heq') hfirst hfirst'
    (List.prefix_append _ _) (List.prefix_append _ _)
  exact ⟨hbefore, List.append_cancel_left hline⟩

/-- There is only one such value. -/
lemma IsHostValue.unique {value blanks blanks' h h' p p' : Bytes}
    (hv : IsHostValue value blanks h p) (hv' : IsHostValue value blanks' h' p') :
    blanks = blanks' ∧ h = h' ∧ p = p' := by
  obtain ⟨⟨behind, heq, hbehind⟩, hblanks, hcolon, ⟨c, t, rfl, hc⟩, u, d, rfl, hd⟩ := hv
  obtain ⟨⟨behind', heq', hbehind'⟩, hblanks', hcolon', ⟨c', t', rfl, hc'⟩, u', d', rfl, hd'⟩ := hv'
  rw [heq] at heq'
  -- the first character that is not a blank begins the host
  obtain ⟨rfl, rfl, hrest⟩ := split_first_unique (Q := fun b => ¬ IsBlank b) heq'
    (fun b hb => not_not.mpr (hblanks b hb)) (fun b hb => not_not.mpr (hblanks' b hb)) hc hc'
  simp only [List.append_eq, List.append_assoc, List.cons_append, List.nil_append] at hrest
  have hcolon_t : ∀ x ∈ t, ¬ x = ch ':' := fun x hx heq =>
    hcolon (heq ▸ List.mem_cons_of_mem c hx)
  have hcolon_t' : ∀ x ∈ t', ¬ x = ch ':' := fun x hx heq =>
    hcolon' (heq ▸ List.mem_cons_of_mem c hx)
  obtain ⟨rfl, -, hport⟩ := split_first_unique hrest hcolon_t hcolon_t' rfl rfl
  -- the last one ends the port
  obtain ⟨rfl, rfl, -⟩ := split_last_unique (Q := fun b => ¬ IsBlank b) hport
    (fun b hb => not_not.mpr (hbehind b hb)) (fun b hb => not_not.mpr (hbehind' b hb)) hd hd'
  exact ⟨rfl, rfl, rfl⟩

/-- There is only one host. -/
lemma RequestText.HostAt.unique {r : RequestText} {pos pos' : ℕ} {h h' p p' : Bytes}
    (hat : r.HostAt pos h p) (hat' : r.HostAt pos' h' p') : (pos, h, p) = (pos', h', p') := by
  obtain ⟨before, value, blanks, hline, hvalue, rfl⟩ := hat
  obtain ⟨before', value', blanks', hline', hvalue', rfl⟩ := hat'
  obtain ⟨rfl, rfl⟩ := hline.unique hline'
  obtain ⟨rfl, rfl, rfl⟩ := hvalue.unique hvalue'
  rfl

/-! ## What is extracted -/

/-- The place `host_start` of the host name that `forwardRequest` extracts, the host name and the
port; `none` if it stops because one of them is empty. -/
def extractHostAt (request : Bytes) : Option (ℕ × Bytes × Bytes) :=
  (find request hostField).bind fun pos =>
    let (hostname, port) := extractHost request
    if hostname = [] ∨ port = [] then none else some (pos + 6, hostname, port)

/-- What `forwardRequest` does with the string that it makes of the buffer. -/
lemma forwardRequest_eq_elim {grow : ℕ → ℕ → ℕ} {reads : List Bytes} {sb : Streambuf}
    (hread : readUntil grow crlf (Streambuf.new grow) 0 reads = .ok sb) (mem : Bytes) :
    forwardRequest grow mem reads =
      (extractHostAt (cString (sb.buffer ++ mem))).elim .invalidFormat fun found =>
        .forwarded found.2.1 found.2.2 (cString (sb.buffer ++ mem)) := by
  unfold forwardRequest extractHostAt
  rw [hread]
  simp only
  generalize cString (sb.buffer ++ mem) = request
  obtain ⟨hostname, port, hextract⟩ : ∃ hostname port, extractHost request = (hostname, port) :=
    ⟨_, _, rfl⟩
  rw [hextract]
  simp only
  cases hfind : find request hostField with
  | none =>
    rw [extractHost, hfind] at hextract
    obtain ⟨rfl, rfl⟩ := Prod.mk.inj hextract
    rfl
  | some pos =>
    rw [Option.bind_some]
    split_ifs <;> rfl

/-- What is extracted follows the first `Host: `, with a colon and the end of a line behind it. -/
lemma extractHostAt_eq_some_iff {request h p : Bytes} {pos : ℕ} :
    extractHostAt request = some (pos, h, p) ↔
      NamesHost request h p ∧ ∃ before rest, pos = before.length + 6 ∧
        request = before ++ (hostField ++ (h ++ (ch ':' :: (p ++ (crlf ++ rest))))) ∧
        find request hostField = some before.length := by
  unfold extractHostAt
  constructor
  · intro heq
    obtain ⟨i, hfind, heq⟩ := Option.bind_eq_some_iff.mp heq
    obtain ⟨hostname, port, hextract⟩ : ∃ hostname port, extractHost request = (hostname, port) :=
      ⟨_, _, rfl⟩
    rw [hextract] at heq
    obtain ⟨hne, heq⟩ := Option.ite_none_left_eq_some.mp heq
    cases heq
    rw [not_or] at hne
    have hnames := (extractHost_iff hne.1 hne.2).mp hextract
    obtain ⟨before, rest, hrequest, hfirst⟩ := hnames.request_eq
    rw [hfirst] at hfind
    obtain rfl := Option.some.inj hfind
    exact ⟨hnames, before, rest, rfl, hrequest, hfirst⟩
  · rintro ⟨hnames, before, rest, rfl, -, hfirst⟩
    have hextract := (extractHost_iff hnames.hostname_ne_nil hnames.port_ne_nil).mpr hnames
    rw [hfirst, Option.bind_some, hextract]
    exact if_neg (not_or.mpr ⟨hnames.hostname_ne_nil, hnames.port_ne_nil⟩)

/-- Nothing is extracted exactly if no host is named. -/
lemma extractHostAt_eq_none_iff {request : Bytes} :
    extractHostAt request = none ↔ ∀ h p, ¬ NamesHost request h p := by
  constructor
  · intro hnone h p hnames
    obtain ⟨before, rest, hrequest, hfirst⟩ := hnames.request_eq
    have hsome := extractHostAt_eq_some_iff.mpr ⟨hnames, before, rest, rfl, hrequest, hfirst⟩
    rw [hnone] at hsome
    cases hsome
  · intro hnone
    apply Option.eq_none_iff_forall_ne_some.mpr
    rintro ⟨pos, h, p⟩ hsome
    exact hnone h p (extractHostAt_eq_some_iff.mp hsome).1

/-- The host and the port are those of the field `Host` of the request, taken from there and without
the end of a line in them; and when there is no such field, nothing is forwarded. -/
structure ExtractsHost (grow : ℕ → ℕ → ℕ) (mem : Bytes) (reads : List Bytes) (r : RequestText)
    (request : Bytes) : Prop where
  /-- The place, the host and the port are those of the field. -/
  extracts_iff : ∀ pos h p, extractHostAt request = some (pos, h, p) ↔ r.HostAt pos h p
  /-- They are what the request is forwarded to. -/
  forwards_iff : ∀ h p, (∃ req, forwardRequest grow mem reads = .forwarded h p req) ↔
    ∃ pos, r.HostAt pos h p
  /-- Without a host in the field, the format is invalid. -/
  invalid : (∀ pos h p, ¬ r.HostAt pos h p) → forwardRequest grow mem reads = .invalidFormat
  /-- There is no end of a line in them. -/
  noLineBreak : ∀ h p req, forwardRequest grow mem reads = .forwarded h p req →
    ch '\r' ∉ h ++ p ∧ ch '\n' ∉ h ++ p

/-- The properties of `forwardRequest` follow from those of the extraction. -/
lemma extractsHost_of_extracts_iff {grow : ℕ → ℕ → ℕ} {mem : Bytes} {reads : List Bytes}
    {sb : Streambuf} (hread : readUntil grow crlf (Streambuf.new grow) 0 reads = .ok sb)
    {r : RequestText} :
    ExtractsHost grow mem reads r (cString (sb.buffer ++ mem)) ↔
      (∀ pos h p, extractHostAt (cString (sb.buffer ++ mem)) = some (pos, h, p) ↔
        r.HostAt pos h p) ∧
      ∀ pos h p, extractHostAt (cString (sb.buffer ++ mem)) = some (pos, h, p) →
        ch '\r' ∉ h ++ p ∧ ch '\n' ∉ h ++ p := by
  have hforward := forwardRequest_eq_elim hread mem
  generalize cString (sb.buffer ++ mem) = request at hforward ⊢
  -- what is forwarded is what is extracted
  have hiff : ∀ h p, (∃ req, forwardRequest grow mem reads = .forwarded h p req) ↔
      ∃ pos, extractHostAt request = some (pos, h, p) := by
    intro h p
    rw [hforward]
    cases extractHostAt request with
    | none => simp
    | some found => simp [Prod.ext_iff]
  constructor
  · intro h
    refine ⟨h.extracts_iff, fun pos h' p heq => ?_⟩
    obtain ⟨req, hreq⟩ := (hiff h' p).mpr ⟨pos, heq⟩
    exact h.noLineBreak h' p req hreq
  · rintro ⟨hextracts, hbreak⟩
    refine ⟨hextracts, fun h p => ?_, fun hnone => ?_, fun h p req hreq => ?_⟩
    · rw [hiff h p]
      exact exists_congr fun pos => hextracts pos h p
    · have hnot : extractHostAt request = none := by
        apply Option.eq_none_iff_forall_ne_some.mpr
        rintro ⟨pos, h, p⟩ hsome
        exact hnone pos h p ((hextracts pos h p).mp hsome)
      rw [hforward, hnot, Option.elim_none]
    · obtain ⟨pos, hpos⟩ := (hiff h p).mp ⟨req, hreq⟩
      exact hbreak pos h p hpos

/-! ## When the host is that of the field -/

/-- The field `Host` is written in the way `forwardRequest` assumes, and nothing before it looks
like it. -/
structure RequestText.PlainlyNamed (r : RequestText) (before : List Bytes) (h p : Bytes) :
    Prop where
  /-- There is one blank before the host and none behind the port. -/
  isHostLine : r.IsHostLine before (ch ' ' :: (h ++ ch ':' :: p))
  /-- The value is a host and a port. -/
  isHostValue : IsHostValue (ch ' ' :: (h ++ ch ':' :: p)) [ch ' '] h p
  /-- `Host: ` occurs neither in the request line nor in a header line before. -/
  hostField_not_infix : ∀ l ∈ r.line :: before, ¬ hostField <:+: l
  /-- There is no NUL up to the end of the port. -/
  zero_notMem : 0 ∉ joinLines crlf (r.line :: before) ++ (h ++ p)
  /-- There is no carriage return and no line feed in the host and the port. -/
  noLineBreak : ch '\r' ∉ h ++ p ∧ ch '\n' ∉ h ++ p

/-- A pattern is found behind a text without it, if the text ends with a character that is not in
the pattern. -/
lemma find_append_of_not_infix {u pat : Bytes} {c : UInt8} (hc : c ∉ pat) (hu : ¬ pat <:+: u)
    (rest : Bytes) : find (u ++ [c] ++ (pat ++ rest)) pat = some (u ++ [c]).length := by
  refine find_eq_some_iff.mpr ⟨?_, fun j hj hpre => ?_⟩
  · rw [List.drop_left]
    exact List.prefix_append pat rest
  · -- an earlier occurrence would end before this character
    rw [List.length_append, List.length_singleton] at hj
    rw [List.append_assoc, List.drop_append_of_le_length (by omega)] at hpre
    have hin : pat <+: u.drop j := prefix_of_prefix_append_cons hc hpre
    exact hu (hin.isInfix.trans (List.drop_suffix j u).isInfix)

/-- The lines before the field end with a line feed. -/
lemma exists_lines_eq_concat (line : Bytes) (before : List Bytes) :
    ∃ u, joinLines crlf (line :: before) = u ++ [ch '\n'] :=
  exists_joinLines_eq_concat [ch '\r'] (ch '\n') (List.cons_ne_nil line before)

/-- `Host: ` occurs in some lines exactly if it occurs in one of them. -/
lemma hostField_infix_iff (lines : List Bytes) :
    hostField <:+: joinLines crlf lines ↔ ∃ l ∈ lines, hostField <:+: l :=
  infix_joinLines_iff (by decide) (by decide +kernel) (by decide) lines

/-- `Host: ` is found behind lines without it. -/
lemma find_hostField_append {line : Bytes} {before : List Bytes}
    (h : ∀ l ∈ line :: before, ¬ hostField <:+: l) (rest : Bytes) :
    find (joinLines crlf (line :: before) ++ (hostField ++ rest)) hostField =
      some (joinLines crlf (line :: before)).length := by
  obtain ⟨u, hu⟩ := exists_lines_eq_concat line before
  have hfeed : ch '\n' ∉ hostField := by decide
  have hnot : ¬ hostField <:+: u := by
    intro hin
    have hlines : hostField <:+: joinLines crlf (line :: before) := by
      rw [hu]
      exact hin.trans (List.prefix_append u [ch '\n']).isInfix
    obtain ⟨l, hl, hline⟩ := (hostField_infix_iff _).mp hlines
    exact h l hl hline
  rw [hu]
  exact find_append_of_not_infix hfeed hnot rest

/-- The name of the field ends with its colon. -/
lemma append_hostName (text : Bytes) : text ++ hostName = text ++ bytes "Host" ++ [ch ':'] := by
  rw [List.append_assoc]
  rfl

/-- A text up to the field that ends with `Host: ` has exactly one blank in the field. -/
lemma blanks_eq_of_append {text before blanks : Bytes} (hblanks : ∀ b ∈ blanks, IsBlank b)
    (heq : text ++ hostName ++ blanks = before ++ hostField) :
    text = before ∧ blanks = [ch ' '] := by
  have hfield : before ++ hostField = before ++ hostName ++ [ch ' '] := by
    rw [List.append_assoc]
    rfl
  rw [hfield] at heq
  rcases List.eq_nil_or_concat blanks with rfl | ⟨init, last, rfl⟩
  · -- the name of the field ends with a colon
    rw [List.append_nil, append_hostName] at heq
    have hcolon := List.append_inj_right' heq rfl
    exact absurd (List.singleton_inj.mp hcolon) (by decide)
  · rw [List.concat_eq_append] at hblanks heq ⊢
    rw [← List.append_assoc] at heq
    obtain ⟨heq, hlast⟩ := List.append_inj' heq rfl
    rw [hlast]
    rcases List.eq_nil_or_concat init with rfl | ⟨init', last', rfl⟩
    · rw [List.append_nil] at heq
      exact ⟨List.append_cancel_right heq, rfl⟩
    · -- the colon is not a blank
      have hblank : IsBlank last' := hblanks last' (by simp)
      rw [List.concat_eq_append, append_hostName before, ← List.append_assoc] at heq
      have hcolon := List.append_inj_right' heq rfl
      rw [List.singleton_inj.mp hcolon] at hblank
      exact absurd hblank (by decide)

/-- Text behind the field that begins with the end of a line has no blanks before it. -/
lemma blanks_eq_nil_of_append {blanks rest rest' : Bytes} (hblanks : ∀ b ∈ blanks, IsBlank b)
    (heq : crlf ++ rest = blanks ++ rest') : blanks = [] := by
  cases blanks with
  | nil => rfl
  | cons b blanks =>
    have hreturn : ch '\r' = b := (List.cons.inj heq).1
    have hblank := hblanks b List.mem_cons_self
    rw [← hreturn] at hblank
    exact absurd hblank (by decide)

/-- The text of a request up to the line of the field and behind it. -/
lemma RequestText.IsHostLine.text_eq {r : RequestText} {before : List Bytes} {value : Bytes}
    (hr : r.IsHostLine before value) :
    ∃ rest, r.text =
      joinLines crlf (r.line :: before) ++ (hostName ++ (value ++ (crlf ++ rest))) := by
  obtain ⟨after, hheaders⟩ := hr.headers_eq
  refine ⟨joinLines crlf after ++ crlf ++ r.body, ?_⟩
  rw [RequestText.text, hheaders, ← List.cons_append, joinLines_append, joinLines_cons _ (_ ++ _)]
  simp only [List.append_assoc]

/-- What is extracted behind lines without `Host: `. -/
lemma extractHostAt_append {line : Bytes} {before : List Bytes} {h p : Bytes}
    (hlines : ∀ l ∈ line :: before, ¬ hostField <:+: l) (hcolon : ch ':' ∉ h)
    (hreturn : ch '\r' ∉ p) (hh : h ≠ []) (hp : p ≠ []) (rest : Bytes) :
    extractHostAt (joinLines crlf (line :: before) ++
        (hostField ++ (h ++ (ch ':' :: (p ++ (crlf ++ rest)))))) =
      some ((joinLines crlf (line :: before)).length + 6, h, p) := by
  have hfirst := find_hostField_append hlines (h ++ (ch ':' :: (p ++ (crlf ++ rest))))
  have hport : ¬ crlf <:+: p := by
    intro hin
    exact hreturn (hin.subset (by decide))
  exact extractHostAt_eq_some_iff.mpr
    ⟨⟨⟨_, _, rfl, hfirst⟩, hcolon, hport, hh, hp⟩, _, _, rfl, rfl, hfirst⟩

/-- The string that is made of a buffer with a plainly named host goes up to the end of the line of
the field. -/
lemma RequestText.PlainlyNamed.cString_eq {r : RequestText} {before : List Bytes} {h p : Bytes}
    (hr : r.PlainlyNamed before h p) (behind : Bytes) :
    ∃ rest, cString (r.text ++ behind) = joinLines crlf (r.line :: before) ++
      (hostField ++ (h ++ (ch ':' :: (p ++ (crlf ++ rest))))) := by
  obtain ⟨rest, htext⟩ := hr.isHostLine.text_eq
  have hwhole : r.text ++ behind = (joinLines crlf (r.line :: before) ++
      (hostField ++ (h ++ (ch ':' :: (p ++ crlf))))) ++ (rest ++ behind) := by
    rw [htext]
    simp only [List.append_assoc, List.cons_append]
    rfl
  have hnul : 0 ∉ joinLines crlf (r.line :: before) ++
      (hostField ++ (h ++ (ch ':' :: (p ++ crlf)))) := by
    have hzero := hr.zero_notMem
    have hfield : (0 : UInt8) ∉ hostField := by decide
    have hcolon : (0 : UInt8) ≠ ch ':' := by decide
    have hcrlf : (0 : UInt8) ∉ crlf := by decide
    simp only [List.mem_append, List.mem_cons, not_or] at hzero ⊢
    exact ⟨hzero.1, hfield, hzero.2.1, hcolon, hzero.2.2, hcrlf⟩
  refine ⟨cString (rest ++ behind), ?_⟩
  rw [hwhole, cString_append hnul]
  simp only [List.append_assoc, List.cons_append]

/-- A plainly named host is that of the field, and it is extracted. -/
lemma RequestText.PlainlyNamed.extractHostAt_eq {r : RequestText} {before : List Bytes}
    {h p : Bytes} (hr : r.PlainlyNamed before h p) (behind : Bytes) :
    ∃ pos, r.HostAt pos h p ∧ extractHostAt (cString (r.text ++ behind)) = some (pos, h, p) := by
  have hpos : (joinLines crlf (r.line :: before) ++ hostName ++ [ch ' ']).length =
      (joinLines crlf (r.line :: before)).length + 6 := by
    rw [List.append_assoc, List.length_append]
    rfl
  obtain ⟨rest, hstring⟩ := hr.cString_eq behind
  have hreturn : ch '\r' ∉ p := fun hmem => hr.noLineBreak.1 (List.mem_append_right h hmem)
  obtain ⟨c, t, hh, -⟩ := hr.isHostValue.head_h
  obtain ⟨t', d, hp, -⟩ := hr.isHostValue.last_p
  refine ⟨_, ⟨before, _, _, hr.isHostLine, hr.isHostValue, rfl⟩, ?_⟩
  rw [hpos, hstring]
  apply extractHostAt_append hr.hostField_not_infix hr.isHostValue.colon_notMem hreturn
  · rw [hh]
    exact List.cons_ne_nil c t
  · rw [hp]
    exact List.append_ne_nil_of_right_ne_nil t' (List.cons_ne_nil d [])

/-- If what is extracted has the place of the field, then there is exactly one blank in the field,
and the end of the line follows the port. -/
lemma RequestText.IsHostLine.value_eq {r : RequestText} {before : List Bytes}
    {value blanks h p text rest behind : Bytes} (hline : r.IsHostLine before value)
    (hvalue : IsHostValue value blanks h p)
    (hpre : text ++ hostField ++ (h ++ ch ':' :: p ++ (crlf ++ rest)) <+: r.text ++ behind)
    (hlength : (text ++ hostField).length =
      (joinLines crlf (r.line :: before) ++ hostName ++ blanks).length) :
    joinLines crlf (r.line :: before) = text ∧ blanks = [ch ' '] ∧
      value = ch ' ' :: (h ++ ch ':' :: p) := by
  obtain ⟨rest', htext⟩ := hline.text_eq
  obtain ⟨blanks', heq, hblanks'⟩ := hvalue.value_eq
  have hwhole : r.text ++ behind = (joinLines crlf (r.line :: before) ++ hostName ++ blanks) ++
      (h ++ ch ':' :: p ++ (blanks' ++ (crlf ++ rest' ++ behind))) := by
    rw [htext, heq]
    simp only [List.append_assoc, List.cons_append]
  obtain ⟨more, hmore⟩ := hpre
  rw [hwhole, List.append_assoc] at hmore
  obtain ⟨hbefore, hbehind⟩ := List.append_inj hmore hlength
  obtain ⟨hlines, rfl⟩ := blanks_eq_of_append hvalue.isBlank hbefore.symm
  rw [List.append_assoc] at hbehind
  have hend := List.append_cancel_left hbehind
  rw [List.append_assoc] at hend
  obtain rfl : blanks' = [] := blanks_eq_nil_of_append hblanks' hend
  rw [List.append_nil] at heq
  exact ⟨hlines, rfl, heq⟩

/-- A host that is that of the field and that is extracted without the end of a line in it is
plainly named. -/
lemma RequestText.HostAt.plainlyNamed {r : RequestText} {pos : ℕ} {h p behind : Bytes}
    (hat : r.HostAt pos h p)
    (hextract : extractHostAt (cString (r.text ++ behind)) = some (pos, h, p))
    (hbreak : ch '\r' ∉ h ++ p ∧ ch '\n' ∉ h ++ p) : ∃ before, r.PlainlyNamed before h p := by
  obtain ⟨before, value, blanks, hline, hvalue, hpos⟩ := hat
  obtain ⟨-, text, rest, hlen, hstring, hfirst⟩ := extractHostAt_eq_some_iff.mp hextract
  have hpre : text ++ hostField ++ (h ++ ch ':' :: p ++ (crlf ++ rest)) <+: r.text ++ behind := by
    have hprefix : cString (r.text ++ behind) <+: r.text ++ behind := cString_isPrefix _
    rw [hstring] at hprefix
    simpa only [List.append_assoc, List.cons_append] using hprefix
  have hlength : (text ++ hostField).length =
      (joinLines crlf (r.line :: before) ++ hostName ++ blanks).length := by
    rw [← hpos, hlen, List.length_append]
    rfl
  obtain ⟨rfl, rfl, rfl⟩ := hline.value_eq hvalue hpre hlength
  refine ⟨before, hline, hvalue, fun l hl hin => ?_, ?_, hbreak⟩
  · -- what is extracted follows the first `Host: `
    obtain ⟨u, v, hsplit, hlenu, hnot⟩ := exists_append_of_find (by decide) hfirst
    rw [hstring] at hsplit
    obtain ⟨rfl, -⟩ := List.append_inj hsplit hlenu.symm
    exact hnot ((hostField_infix_iff _).mpr ⟨l, hl, hin⟩)
  · -- and there is no NUL in a string
    intro hmem
    have hzero : (0 : UInt8) ∈ cString (r.text ++ behind) := by
      rw [hstring]
      simp only [List.mem_append, List.mem_cons] at hmem ⊢
      rcases hmem with hlines | hhost | hport
      · exact Or.inl hlines
      · exact Or.inr (Or.inr (Or.inl hhost))
      · exact Or.inr (Or.inr (Or.inr (Or.inr (Or.inl hport))))
    exact absurd (List.mem_takeWhile_imp hzero) (by simp)

/-- **The host of a proxied request.**  When the text of a request is in the buffer, what is
extracted is the host and the port of its field `Host`, and without such a host nothing, if and only
if either the field is plainly named, or there is no such host and none is named by what follows the
first `Host: ` either.  The host ends at the first colon of the value, so that an address of IPv6,
which contains colons, is split within itself. -/
theorem extractsHost_iff {grow : ℕ → ℕ → ℕ} {mem : Bytes} {reads : List Bytes} {sb : Streambuf}
    (hread : readUntil grow crlf (Streambuf.new grow) 0 reads = .ok sb) {r : RequestText}
    (hbuffer : r.text <+: sb.data) :
    ExtractsHost grow mem reads r (cString (sb.buffer ++ mem)) ↔
      (∃ before h p, r.PlainlyNamed before h p) ∨
        (∀ pos h p, ¬ r.HostAt pos h p) ∧ ∀ h p, ¬ NamesHost (cString (sb.buffer ++ mem)) h p := by
  obtain ⟨behind, hbehind⟩ := (hbuffer.trans (List.take_prefix _ _)).trans
    (List.prefix_append sb.buffer mem)
  rw [extractsHost_of_extracts_iff hread, ← hbehind]
  constructor
  · rintro ⟨hextracts, hbreak⟩
    cases hfound : extractHostAt (cString (r.text ++ behind)) with
    | none =>
      refine Or.inr ⟨fun pos h p hat => ?_, extractHostAt_eq_none_iff.mp hfound⟩
      have hsome := (hextracts pos h p).mpr hat
      rw [hfound] at hsome
      cases hsome
    | some found =>
      obtain ⟨pos, h, p⟩ := found
      obtain ⟨before, hplain⟩ := ((hextracts pos h p).mp hfound).plainlyNamed hfound
        (hbreak pos h p hfound)
      exact Or.inl ⟨before, h, p, hplain⟩
  · rintro (⟨before, h, p, hplain⟩ | ⟨hnone, hnames⟩)
    · obtain ⟨pos, hat, hfound⟩ := hplain.extractHostAt_eq behind
      rw [hfound]
      refine ⟨fun pos' h' p' => ⟨fun heq => ?_, fun hat' => ?_⟩, fun pos' h' p' heq => ?_⟩
      · cases heq
        exact hat
      · rw [hat.unique hat']
      · cases heq
        exact hplain.noLineBreak
    · rw [extractHostAt_eq_none_iff.mpr hnames]
      refine ⟨fun pos h p => iff_of_false (fun heq => by cases heq) (hnone pos h p), ?_⟩
      intro pos h p heq
      cases heq

/-! ## Two requests -/

/-- A request with a host and a port in its field `Host`. -/
def plainRequest : RequestText :=
  ⟨bytes "GET / HTTP/1.1", [bytes "Host: a:80"], [], by decide, by decide⟩

/-- A request without the port. -/
def portlessRequest : RequestText :=
  ⟨bytes "GET / HTTP/1.1", [bytes "Host: a", bytes "Accept: b"], [], by decide, by decide⟩

/-- From the first request the host of its field is extracted. -/
theorem extractsHost_plainRequest :
    ExtractsHost doubling [] [plainRequest.text] plainRequest plainRequest.text := by
  have hread : readUntil doubling crlf (Streambuf.new doubling) 0 [plainRequest.text] =
      .ok (Streambuf.after doubling [plainRequest.text]) := by
    decide +kernel
  have hbuffer : plainRequest.text <+: (Streambuf.after doubling [plainRequest.text]).data := by
    decide +kernel
  have hstring : cString ((Streambuf.after doubling [plainRequest.text]).buffer ++ []) =
      plainRequest.text := by
    decide +kernel
  have hvalue : IsHostValue (ch ' ' :: (bytes "a" ++ ch ':' :: bytes "80")) [ch ' '] (bytes "a")
      (bytes "80") :=
    ⟨⟨[], by decide, List.forall_mem_nil _⟩, by decide +kernel, by decide,
      ⟨ch 'a', [], by decide +kernel⟩, bytes "8", ch '0', by decide +kernel⟩
  have hplain : plainRequest.PlainlyNamed [] (bytes "a") (bytes "80") :=
    ⟨⟨⟨[], by decide⟩, List.forall_mem_nil _⟩, hvalue, by decide +kernel, by decide +kernel,
      by decide +kernel⟩
  have hextracts : ExtractsHost doubling [] [plainRequest.text] plainRequest
      (cString ((Streambuf.after doubling [plainRequest.text]).buffer ++ [])) :=
    (extractsHost_iff hread hbuffer).mpr (Or.inl ⟨[], _, _, hplain⟩)
  rwa [hstring] at hextracts

/-- From the second one it is taken together with the name of the next field. -/
theorem not_extractsHost_portlessRequest :
    ¬ ∀ (grow : ℕ → ℕ → ℕ) (mem : Bytes) (reads : List Bytes) (sb : Streambuf) (r : RequestText),
      readUntil grow crlf (Streambuf.new grow) 0 reads = .ok sb → r.text <+: sb.data →
        ExtractsHost grow mem reads r (cString (sb.buffer ++ mem)) := by
  intro h
  have hread : readUntil doubling crlf (Streambuf.new doubling) 0 [portlessRequest.text] =
      .ok (Streambuf.after doubling [portlessRequest.text]) := by
    decide +kernel
  have hextracts := h doubling [] _ _ portlessRequest hread (by decide +kernel)
  have hrun : forwardRequest doubling [] [portlessRequest.text] =
      .forwarded (bytes "a\r\nAccept") (bytes " b") portlessRequest.text := by
    decide +kernel
  exact absurd (hextracts.noLineBreak _ _ _ hrun).1 (by decide +kernel)

end Socks

end AsioStudy
