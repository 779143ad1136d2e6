import AsioStudy.Asio.ReadUntil

/-!
# The TLS proxy

`forwardRequest` reads a request with `read_until` up to the end of its first line, takes whatever
the stream buffer holds for a C string, looks in it for the host and the port, and writes it to
that host.  How much of the request this is depends on how it arrives, and the buffer is not a C
string: nothing ends it when it is full.

The main result is `forwards_intact_iff`.
-/

namespace AsioStudy

namespace Socks

open Asio

/-- The end of a line. -/
def crlf : Bytes := bytes "\r\n"

/-- The text before a host. -/
def hostField : Bytes := bytes "Host: "

/-- `s.find(pat, pos)`, where `none` is `npos`. -/
def findAt (s pat : Bytes) (pos : ℕ) : Option ℕ := (find (s.drop pos) pat).map (pos + ·)

/-- `s.substr(pos, count)`. -/
def substr (s : Bytes) (pos count : ℕ) : Bytes := (s.drop pos).take count

/-- The host name and the port that `forwardRequest` extracts from a request; they stay empty when
there are none. -/
def extractHost (request : Bytes) : Bytes × Bytes :=
  match find request hostField with
  | none => ([], [])
  | some pos =>
    let hostStart := pos + 6
    let hostEnd := findAt request [ch ':'] hostStart
    -- `npos + 1` is zero
    let portEnd := findAt request crlf (hostEnd.elim 0 (· + 1))
    match hostEnd, portEnd with
    | some hostEnd, some portEnd =>
      (substr request hostStart (hostEnd - hostStart),
        substr request (hostEnd + 1) (portEnd - hostEnd - 1))
    | _, _ => ([], [])

/-- What `forwardRequest` comes to: it reports an error, or it resolves a host name and a port,
connects to them and writes a request. -/
inductive Forwarding where
  | readError
  | invalidFormat
  | forwarded (hostname port request : Bytes)
  deriving DecidableEq, Repr

/-- `forwardRequest`, up to the response: `reads` are what the reads from the TLS stream return, and
`behind` are the bytes in memory behind the vector of the stream buffer. -/
def forwardRequest (grow : ℕ → ℕ → ℕ) (behind : Bytes) (reads : List Bytes) : Forwarding :=
  match readUntil grow crlf (Streambuf.new grow) 0 reads with
  | .error _ => .readError
  | .ok requestBuffer =>
    -- `buffer_cast` gives a pointer, from which a `std::string` is made
    let request := cString (requestBuffer.buffer ++ behind)
    let (hostname, port) := extractHost request
    if hostname = [] ∨ port = [] then .invalidFormat else .forwarded hostname port request

/-! ## Extracting the host -/

/-- What follows the first `Host: ` in a request is a host name, a colon, a port and the end of a
line; the colon and the end of the line are the first ones. -/
structure NamesHost (request hostname port : Bytes) : Prop where
  /-- The texts are at the first place at which a host begins. -/
  request_eq : ∃ before rest,
    request = before ++ (hostField ++ (hostname ++ (ch ':' :: (port ++ (crlf ++ rest))))) ∧
      find request hostField = some before.length
  /-- There is no colon in the host name. -/
  colon_notMem : ch ':' ∉ hostname
  /-- The port does not extend over the end of a line. -/
  crlf_not_infix : ¬ crlf <:+: port
  /-- There is a host name. -/
  hostname_ne_nil : hostname ≠ []
  /-- There is a port. -/
  port_ne_nil : port ≠ []

/-- A character is found behind a text without it. -/
lemma find_singleton_append {before : Bytes} {c : UInt8} (h : c ∉ before) (rest : Bytes) :
    find (before ++ c :: rest) [c] = some before.length :=
  find_append_of_notMem h [] rest

/-- The end of a line is found behind a text without one. -/
lemma find_crlf_append {before : Bytes} (h : ¬ crlf <:+: before) (rest : Bytes) :
    find (before ++ (crlf ++ rest)) crlf = some before.length := by
  refine find_eq_some_iff.mpr ⟨?_, fun j hj hpre => ?_⟩
  · rw [List.drop_left]
    exact List.prefix_append crlf rest
  · rw [List.drop_append_of_le_length (le_of_lt hj)] at hpre
    have hsuffix : before.drop j <:+ before := List.drop_suffix j before
    match hcons : before.drop j with
    | [] => exact absurd (List.drop_eq_nil_iff.mp hcons) (by omega)
    | [x] =>
      -- it would begin with the last character before and the carriage return
      rw [hcons] at hpre
      have hfalse : ¬ [ch '\n'] <+: ch '\r' :: (ch '\n' :: rest) := by
        rw [List.cons_prefix_cons]
        exact fun hne => absurd hne.1 (by decide)
      exact hfalse (List.cons_prefix_cons.mp hpre).2
    | x :: y :: t =>
      rw [hcons] at hpre hsuffix
      obtain ⟨hx, hpre⟩ := List.cons_prefix_cons.mp hpre
      obtain ⟨hy, -⟩ := List.cons_prefix_cons.mp hpre
      refine h (List.IsInfix.trans ⟨[], t, ?_⟩ hsuffix.isInfix)
      rw [← hx, ← hy]
      rfl

/-- What is extracted from the text behind the first `Host: `. -/
lemma extractHost_append {before s : Bytes}
    (hfirst : find (before ++ (hostField ++ s)) hostField = some before.length) :
    extractHost (before ++ (hostField ++ s)) =
      match find s [ch ':'] with
      | none => ([], [])
      | some i =>
        match find (s.drop (i + 1)) crlf with
        | none => ([], [])
        | some k => (s.take i, (s.drop (i + 1)).take k) := by
  have hdrop : ∀ n, (before ++ (hostField ++ s)).drop (before.length + 6 + n) = s.drop n := by
    intro n
    have hlen : (before ++ hostField).length = before.length + 6 := by
      rw [List.length_append]
      rfl
    rw [← List.append_assoc, ← List.drop_drop, ← hlen, List.drop_left]
  have hzero := hdrop 0
  rw [Nat.add_zero, List.drop_zero] at hzero
  unfold extractHost
  rw [hfirst]
  simp only [findAt, hzero]
  cases find s [ch ':'] with
  | none => rfl
  | some i =>
    simp only [Option.map_some, Option.elim_some, Nat.add_assoc _ i 1, hdrop]
    cases find (s.drop (i + 1)) crlf with
    | none => rfl
    | some k =>
      have hcount : before.length + 6 + (i + 1) + k - (before.length + 6 + i) - 1 = k := by
        omega
      simp only [Option.map_some, substr, hzero, Nat.add_sub_cancel_left, hcount]
      rw [Nat.add_assoc _ i 1, hdrop]

/-- **The host.**  A host name and a port that are not empty are extracted from a request exactly if
the request names them. -/
lemma extractHost_iff {request hostname port : Bytes} (hhostname : hostname ≠ [])
    (hport : port ≠ []) :
    extractHost request = (hostname, port) ↔ NamesHost request hostname port := by
  constructor
  · intro h
    cases hfind : find request hostField with
    | none =>
      rw [extractHost, hfind] at h
      exact absurd (Prod.mk.inj h).1.symm hhostname
    | some pos =>
      obtain ⟨before, s, rfl, rfl, -⟩ := exists_append_of_find (by decide) hfind
      rw [extractHost_append hfind] at h
      cases hcolon : find s [ch ':'] with
      | none =>
        rw [hcolon] at h
        exact absurd (Prod.mk.inj h).1.symm hhostname
      | some i =>
        obtain ⟨name, u, rfl, rfl, hname⟩ := exists_append_of_find (by decide) hcolon
        have hdrop : (name ++ ([ch ':'] ++ u)).drop (name.length + 1) = u := by
          rw [← List.drop_drop, List.drop_left]
          rfl
        rw [hcolon] at h
        simp only [hdrop] at h
        cases hcrlf : find u crlf with
        | none =>
          rw [hcrlf] at h
          exact absurd (Prod.mk.inj h).1.symm hhostname
        | some k =>
          obtain ⟨number, rest, rfl, rfl, hnumber⟩ := exists_append_of_find (by decide) hcrlf
          rw [hcrlf] at h
          simp only [List.take_left] at h
          obtain ⟨rfl, rfl⟩ := Prod.mk.inj h
          rw [List.singleton_infix_iff] at hname
          exact ⟨⟨before, rest, rfl, hfind⟩, hname, hnumber, hhostname, hport⟩
  · rintro ⟨⟨before, rest, rfl, hfirst⟩, hcolon, hcrlf, -, -⟩
    have hdrop : (hostname ++ ch ':' :: (port ++ (crlf ++ rest))).drop (hostname.length + 1) =
        port ++ (crlf ++ rest) := by
      rw [← List.drop_drop, List.drop_left]
      rfl
    rw [extractHost_append hfirst, find_singleton_append hcolon]
    simp only [hdrop, find_crlf_append hcrlf, List.take_left]

/-! ## When a request is forwarded intact -/

/-- What it means that a request was forwarded. -/
lemma forwardRequest_eq_forwarded_iff {grow : ℕ → ℕ → ℕ} {behind hostname port request : Bytes}
    {reads : List Bytes} :
    forwardRequest grow behind reads = .forwarded hostname port request ↔
      ∃ sb, readUntil grow crlf (Streambuf.new grow) 0 reads = .ok sb ∧
        cString (sb.buffer ++ behind) = request ∧ NamesHost request hostname port := by
  unfold forwardRequest
  cases readUntil grow crlf (Streambuf.new grow) 0 reads with
  | error e => simp
  | ok sb =>
    simp only [Except.ok.injEq, exists_eq_left']
    generalize cString (sb.buffer ++ behind) = text
    obtain ⟨name, number, hextract⟩ : ∃ name number, extractHost text = (name, number) :=
      ⟨_, _, rfl⟩
    rw [hextract]
    simp only
    split_ifs with hempty
    · refine iff_of_false (fun h => by cases h) ?_
      rintro ⟨rfl, hnames⟩
      rw [(extractHost_iff hnames.hostname_ne_nil hnames.port_ne_nil).mpr hnames] at hextract
      obtain ⟨rfl, rfl⟩ := Prod.mk.inj hextract
      rcases hempty with h | h
      · exact hnames.hostname_ne_nil h
      · exact hnames.port_ne_nil h
    · rw [not_or] at hempty
      constructor
      · intro h
        cases h
        exact ⟨rfl, (extractHost_iff hempty.1 hempty.2).mp hextract⟩
      · rintro ⟨rfl, hnames⟩
        rw [(extractHost_iff hnames.hostname_ne_nil hnames.port_ne_nil).mpr hnames] at hextract
        obtain ⟨rfl, rfl⟩ := Prod.mk.inj hextract
        rfl

/-- The reads bring a request so that `forwardRequest` has it as a C string: the reads before the
last one do not bring the end of the first line, after the last one there is room left in the
vector, and the request contains no NUL. -/
structure ArrivesWhole (grow : ℕ → ℕ → ℕ) (reads : List Bytes) : Prop where
  /-- `read_until` does not stop before the last read. -/
  crlf_not_infix : ¬ crlf <:+: reads.dropLast.flatten
  /-- The vector ends with a zero. -/
  room : (Streambuf.after grow reads).size < (Streambuf.after grow reads).buffer.length
  /-- There is no NUL before. -/
  zero_notMem : 0 ∉ reads.flatten

/-- **Forwarding intact.**  A request that arrives in the given reads is forwarded to the given host
and port and as it is, whatever there is in memory, if and only if it arrives whole and names this
host and this port. -/
theorem forwards_intact_iff {grow : ℕ → ℕ → ℕ} {reads : List Bytes}
    (hreads : Reads grow crlf reads) (hostname port : Bytes) :
    (∀ behind, forwardRequest grow behind reads = .forwarded hostname port reads.flatten) ↔
      ArrivesWhole grow reads ∧ NamesHost reads.flatten hostname port := by
  have hcrlf : crlf ≠ [] := by decide
  constructor
  · intro h
    obtain ⟨sb, hread, hstring, hnames⟩ := forwardRequest_eq_forwarded_iff.mp (h [])
    rcases readUntil_spec hcrlf hreads with
      ⟨used, rest, rfl, -, hfirst, hok⟩ | ⟨-, e, herror⟩
    · rw [hok] at hread
      cases hread
      obtain ⟨room, hholds⟩ := holds_after grow used
      rw [hholds.buffer_eq, List.append_nil, cString_append_replicate_zero] at hstring
      -- the string consists of bytes that were read, so all reads were made
      have hlen := (cString_isPrefix used.flatten).length_le
      rw [hstring, List.flatten_append, List.length_append] at hlen
      obtain rfl : rest = [] := by
        apply hreads.eq_nil_of_flatten
        exact List.eq_nil_of_length_eq_zero (by omega)
      rw [List.append_nil] at h hok hstring hnames ⊢
      refine ⟨⟨hfirst, ?_, cString_eq_self_iff.mp hstring⟩, hnames⟩
      -- in a vector without room the string goes on behind it
      by_contra hfull
      have hroom : room = 0 := by
        rw [hholds.room_eq]
        omega
      obtain ⟨sb, hread, hstring', -⟩ := forwardRequest_eq_forwarded_iff.mp (h [1])
      rw [hok] at hread
      cases hread
      rw [hholds.buffer_eq, hroom, List.replicate_zero, List.append_nil,
        cString_append (cString_eq_self_iff.mp hstring)] at hstring'
      have hone : cString [1] = [] := List.append_right_eq_self.mp hstring'
      revert hone
      decide
    · rw [herror] at hread
      cases hread
  · rintro ⟨⟨hwhole, hroom, hnul⟩, hnames⟩ behind
    refine forwardRequest_eq_forwarded_iff.mpr ⟨Streambuf.after grow reads, ?_, ?_, hnames⟩
    · rcases readUntil_spec hcrlf hreads with
        ⟨used, rest, rfl, hused, -, hok⟩ | ⟨hnone, -⟩
      · obtain rfl : rest = [] := eq_nil_of_not_infix_dropLast hused hwhole
        rw [List.append_nil] at hok ⊢
        exact hok
      · obtain ⟨before, rest, hrequest, -⟩ := hnames.request_eq
        refine absurd ⟨before ++ (hostField ++ (hostname ++ (ch ':' :: port))), rest, ?_⟩ hnone
        rw [hrequest]
        simp only [List.append_assoc, List.cons_append]
    · obtain ⟨room, hholds⟩ := holds_after grow reads
      obtain ⟨n, rfl⟩ : ∃ n, room = n + 1 := by
        apply Nat.exists_eq_succ_of_ne_zero
        rw [hholds.room_eq]
        omega
      rw [hholds.buffer_eq, List.replicate_succ, List.append_assoc, List.cons_append,
        cString_append_zero]
      exact cString_eq_self_iff.mpr hnul

/-! ## A request in one read and in two -/

/-- A vector that is enlarged at least doubles its size. -/
def doubling (size newSize : ℕ) : ℕ := max (2 * size) newSize

/-- A request for the host `a` and the port 1, without its first line. -/
def shortHeaders : Bytes := bytes "Host: a:1\r\n\r\n"

/-- The whole request. -/
def shortRequest : Bytes := bytes "GET / HTTP/1.1\r\n" ++ shortHeaders

/-- A request that a read brings at once is forwarded, without what is behind it in memory. -/
theorem forwards_intact_iff_short :
    forwardRequest doubling (bytes "more") [shortRequest] =
      .forwarded (bytes "a") (bytes "1") shortRequest := by
  have hreads : Reads doubling crlf [shortRequest] := by
    refine ⟨by decide, fun before r rest heq _ => ?_⟩
    cases before with
    | nil =>
      obtain ⟨rfl, -⟩ := List.cons.inj heq
      decide +kernel
    | cons b before => simp at heq
  refine (forwards_intact_iff hreads (bytes "a") (bytes "1")).mpr
    ⟨⟨by decide, ?_, by decide⟩, ?_⟩ (bytes "more")
  · decide +kernel
  · exact ⟨⟨bytes "GET / HTTP/1.1\r\n", bytes "\r\n", by decide, by decide⟩, by decide, by decide,
      by decide, by decide⟩

/-- A request of HTTP: a line, header lines, one of which names the host, an empty line, and a
body. -/
structure IsHttpRequest (request hostname port : Bytes) : Prop where
  /-- The parts of the request. -/
  request_eq : ∃ (line : Bytes) (before after : List Bytes) (body : Bytes),
    request = line ++ crlf ++
      (before ++ [hostField ++ hostname ++ [ch ':'] ++ port] ++ after).flatMap (· ++ crlf) ++
        crlf ++ body ∧
      ∀ l ∈ line :: (before ++ [hostField ++ hostname ++ [ch ':'] ++ port] ++ after),
        ¬ crlf <:+: l
  /-- There is a host name. -/
  hostname_ne_nil : hostname ≠ []
  /-- There is a port. -/
  port_ne_nil : port ≠ []

/-- When the first line of the request arrives on its own, nothing is forwarded. -/
theorem forwards_nothing :
    ¬ ∀ (grow : ℕ → ℕ → ℕ) (reads : List Bytes) (hostname port : Bytes), Reads grow crlf reads →
      IsHttpRequest reads.flatten hostname port →
      ∀ behind, forwardRequest grow behind reads = .forwarded hostname port reads.flatten := by
  intro h
  have hreads : Reads doubling crlf [bytes "GET / HTTP/1.1\r\n", shortHeaders] := by
    refine ⟨by decide, fun before r rest heq hnone => ?_⟩
    cases before with
    | nil =>
      obtain ⟨rfl, -⟩ := List.cons.inj heq
      decide +kernel
    | cons b before =>
      -- the end of the first line has been read
      obtain ⟨rfl, htail⟩ := List.cons.inj heq
      have hline : crlf <:+: bytes "GET / HTTP/1.1\r\n" := by decide
      refine absurd (hline.trans ?_) hnone
      rw [List.flatten_cons]
      exact (List.prefix_append _ _).isInfix
  have hrequest : IsHttpRequest [bytes "GET / HTTP/1.1\r\n", shortHeaders].flatten (bytes "a")
      (bytes "1") :=
    ⟨⟨bytes "GET / HTTP/1.1", [], [], [], by decide, by decide⟩, by decide, by decide⟩
  have hforwarded := h doubling _ _ _ hreads hrequest []
  have hrun : forwardRequest doubling [] [bytes "GET / HTTP/1.1\r\n", shortHeaders] =
      .invalidFormat := by
    decide +kernel
  rw [hrun] at hforwarded
  cases hforwarded

end Socks

end AsioStudy
