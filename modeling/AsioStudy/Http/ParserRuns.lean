import AsioStudy.Http.RequestGrammar

/-!
# What the parser builds

The runs of the parser over the parts of a request: the method, the target, the two version numbers
and the header lines.  Each of them says which state the parser comes to and what has become of the
request; the runs over whole texts are put together from these.
-/

namespace AsioStudy

namespace Http

open Recogniser

/-! ## The parts of a request -/

/-- A nonempty text of token bytes. -/
def IsTokenText (s : Bytes) : Prop := s ≠ [] ∧ ∀ b ∈ s, IsToken b

/-- A nonempty text of digits. -/
def IsNumber (s : Bytes) : Prop := s ≠ [] ∧ ∀ b ∈ s, IsDigit b

instance : DecidablePred IsUriByte := fun _ => inferInstanceAs (Decidable (_ ∧ _))

instance : DecidablePred IsNonCtl := fun _ => inferInstanceAs (Decidable (¬ _))

instance (s : Bytes) : Decidable (IsTokenText s) := inferInstanceAs (Decidable (_ ∧ _))

instance (s : Bytes) : Decidable (IsNumber s) := inferInstanceAs (Decidable (_ ∧ _))

/-- The field that has accumulated a text of digits. -/
def versionOf (digits : Bytes) : Option Int32 := digits.foldl accumulateDigit (some 0)

/-- A digit more. -/
lemma versionOf_concat (digits : Bytes) (b : UInt8) :
    versionOf (digits ++ [b]) = accumulateDigit (versionOf digits) b := by
  rw [versionOf, List.foldl_append]
  rfl

/-- The number that a text of digits writes, with a digit more. -/
lemma decimalValue_concat (digits : Bytes) (b : UInt8) :
    decimalValue (digits ++ [b]) = decimalValue digits * 10 + (b.toNat - 48) := by
  rw [decimalValue, List.foldl_append]
  rfl

/-- The promotion of a digit. -/
lemma charToInt_of_isDigit {b : UInt8} (hb : IsDigit b) : charToInt b = b.toNat := by
  have hcases := charToInt_cases b
  unfold IsDigit at hb
  omega

/-- A version field holds the number that was written, as an `int`. -/
lemma versionOf_eq {digits : Bytes} (h : ∀ b ∈ digits, IsDigit b) :
    versionOf digits = some (Int32.ofNat (decimalValue digits)) := by
  induction digits using List.reverseRecOn with
  | nil => rfl
  | append_singleton digits b ih =>
    have hb : IsDigit b := h b (List.mem_append_right _ List.mem_cons_self)
    have hzero : charToInt (ch '0') = ((48 : ℕ) : ℤ) := by decide
    rw [versionOf_concat, ih fun c hc => h c (List.mem_append_left _ hc), decimalValue_concat,
      accumulateDigit, Option.map_some, charToInt_of_isDigit hb, hzero, Int32.ofInt_eq_ofNat,
      Int32.ofInt_eq_ofNat, Int32.ofNat_add, Int32.ofNat_mul, Int32.ofNat_sub _ _ hb.1]
    congr 1
    rw [Int32.sub_eq_add_neg, Int32.sub_eq_add_neg, Int32.add_assoc]
    rfl

/-! ## One byte -/

/-- A byte of a class differs from the bytes outside of the class. -/
lemma ne_of_class {P : UInt8 → Prop} {b c : UInt8} (hb : P b) (hc : ¬ P c) : b ≠ c :=
  fun heq => hc (heq ▸ hb)

/-- The first byte of the method. -/
lemma consumeStep_methodStart {b : UInt8} (hb : IsToken b) (req : Request) :
    consumeStep (⟨.methodStart⟩, req) b =
      (.indeterminate, ⟨.method⟩, { req with method := req.method ++ [b] }) := by
  have htoken := notToken_charToInt.not.mpr (not_not_intro hb)
  simp only [consumeStep, RequestParser.consume, if_neg htoken]

/-- A further byte of the method. -/
lemma consumeStep_method {b : UInt8} (hb : IsToken b) (req : Request) :
    consumeStep (⟨.method⟩, req) b =
      (.indeterminate, ⟨.method⟩, { req with method := req.method ++ [b] }) := by
  have htoken := notToken_charToInt.not.mpr (not_not_intro hb)
  have hspace : b ≠ ch ' ' := ne_of_class hb (by decide)
  simp only [consumeStep, RequestParser.consume, if_neg hspace, if_neg htoken]

/-- A byte of the target. -/
lemma consumeStep_uri {b : UInt8} (hb : IsUriByte b) (req : Request) :
    consumeStep (⟨.uri⟩, req) b =
      (.indeterminate, ⟨.uri⟩, { req with uri := req.uri ++ [b] }) := by
  have hctl := isCtl_charToInt.not.mpr hb.1
  simp only [consumeStep, RequestParser.consume, if_neg hb.2, if_neg hctl]

/-- The first digit of the major version. -/
lemma consumeStep_majorStart {b : UInt8} (hb : IsDigit b) (req : Request) :
    consumeStep (⟨.httpVersionMajorStart⟩, req) b =
      (.indeterminate, ⟨.httpVersionMajor⟩,
        { req with httpVersionMajor := accumulateDigit req.httpVersionMajor b }) := by
  simp only [consumeStep, RequestParser.consume, if_pos (isDigit_charToInt.mpr hb)]

/-- A further digit of the major version. -/
lemma consumeStep_major {b : UInt8} (hb : IsDigit b) (req : Request) :
    consumeStep (⟨.httpVersionMajor⟩, req) b =
      (.indeterminate, ⟨.httpVersionMajor⟩,
        { req with httpVersionMajor := accumulateDigit req.httpVersionMajor b }) := by
  have hdot : b ≠ ch '.' := ne_of_class hb (by decide)
  simp only [consumeStep, RequestParser.consume, if_neg hdot, if_pos (isDigit_charToInt.mpr hb)]

/-- The first digit of the minor version. -/
lemma consumeStep_minorStart {b : UInt8} (hb : IsDigit b) (req : Request) :
    consumeStep (⟨.httpVersionMinorStart⟩, req) b =
      (.indeterminate, ⟨.httpVersionMinor⟩,
        { req with httpVersionMinor := accumulateDigit req.httpVersionMinor b }) := by
  simp only [consumeStep, RequestParser.consume, if_pos (isDigit_charToInt.mpr hb)]

/-- A further digit of the minor version. -/
lemma consumeStep_minor {b : UInt8} (hb : IsDigit b) (req : Request) :
    consumeStep (⟨.httpVersionMinor⟩, req) b =
      (.indeterminate, ⟨.httpVersionMinor⟩,
        { req with httpVersionMinor := accumulateDigit req.httpVersionMinor b }) := by
  have hcr : b ≠ ch '\r' := ne_of_class hb (by decide)
  simp only [consumeStep, RequestParser.consume, if_neg hcr, if_pos (isDigit_charToInt.mpr hb)]

/-- The first byte of a field name begins a header. -/
lemma consumeStep_lineStart {b : UInt8} (hb : IsToken b) (req : Request) :
    consumeStep (⟨.headerLineStart⟩, req) b =
      (.indeterminate, ⟨.headerName⟩, { req with headers := req.headers ++ [⟨[b], []⟩] }) := by
  have htoken := notToken_charToInt.not.mpr (not_not_intro hb)
  have hcr : b ≠ ch '\r' := ne_of_class hb (by decide)
  have hspace : b ≠ ch ' ' := ne_of_class hb (by decide)
  have htab : b ≠ ch '\t' := ne_of_class hb (by decide)
  have hblank : ¬ (!req.headers.isEmpty && (b == ch ' ' || b == ch '\t')) = true := by
    simp [hspace, htab]
  simp only [consumeStep, RequestParser.consume, if_neg hcr, if_neg hblank, if_neg htoken,
    Request.pushHeader, Request.pushName, modifyBack_append_singleton, List.nil_append]

/-- A further byte of a field name. -/
lemma consumeStep_name {b : UInt8} (hb : IsToken b) (req : Request) :
    consumeStep (⟨.headerName⟩, req) b = (.indeterminate, ⟨.headerName⟩, req.pushName b) := by
  have htoken := notToken_charToInt.not.mpr (not_not_intro hb)
  have hcolon : b ≠ ch ':' := ne_of_class hb (by decide)
  simp only [consumeStep, RequestParser.consume, if_neg hcolon, if_neg htoken]

/-- A byte of a field value. -/
lemma consumeStep_value {b : UInt8} (hb : IsNonCtl b) (req : Request) :
    consumeStep (⟨.headerValue⟩, req) b = (.indeterminate, ⟨.headerValue⟩, req.pushValue b) := by
  have hctl := isCtl_charToInt.not.mpr hb
  have hcr : b ≠ ch '\r' := ne_of_class hb (by decide)
  simp only [consumeStep, RequestParser.consume, if_neg hcr, if_neg hctl]

/-! ## Behind the request line -/

section Answers

variable {γ : Type} {q q₁ q₂ q' : γ}

/-- An answer to a byte that has to pass a test. -/
lemma of_ite_bad {T : Prop} [Decidable T]
    (h : (if T then (Verdict.bad, q) else (.indeterminate, q₁)) = (.indeterminate, q')) :
    ¬ T ∧ q' = q₁ := by
  split_ifs at h with hT
  · cases h
  · exact ⟨hT, (Prod.mk.inj h).2.symm⟩

/-- An answer to a byte that has to satisfy a condition. -/
lemma of_ite_indeterminate {T : Prop} [Decidable T]
    (h : (if T then (Verdict.indeterminate, q₁) else (.bad, q)) = (.indeterminate, q')) :
    T ∧ q' = q₁ := by
  split_ifs at h with hT
  · exact ⟨hT, (Prod.mk.inj h).2.symm⟩
  · cases h

/-- An answer in a state that goes on up to a certain byte. -/
lemma of_ite_or {T : Prop} [Decidable T] {answer : Verdict × γ}
    (h : (if T then (Verdict.indeterminate, q₂) else answer) = (.indeterminate, q')) :
    (T ∧ q' = q₂) ∨ (¬ T ∧ answer = (.indeterminate, q')) := by
  split_ifs at h with hT
  · exact Or.inl ⟨hT, (Prod.mk.inj h).2.symm⟩
  · exact Or.inr ⟨hT, h⟩

end Answers

/-- The states behind the request line. -/
def ParserState.isBehindLine : ParserState → Bool
  | .headerLineStart | .headerLws | .headerName | .spaceBeforeHeaderValue | .headerValue
  | .expectingNewline2 | .expectingNewline3 => true
  | _ => false

/-- In these states the parser stays in them and changes nothing but the headers. -/
lemma consumeStep_of_isBehindLine {p : RequestParser} {req : Request} {b : UInt8}
    {q' : RequestParser × Request} (h : p.state.isBehindLine = true)
    (hb : consumeStep (p, req) b = (.indeterminate, q')) :
    q'.1.state.isBehindLine = true ∧ q'.2 = { req with headers := q'.2.headers } := by
  obtain ⟨state⟩ := p
  cases state with
  | headerLineStart =>
    simp only [consumeStep, RequestParser.consume] at hb
    rcases of_ite_or hb with ⟨-, rfl⟩ | ⟨-, hb⟩
    · exact ⟨rfl, rfl⟩
    · rcases of_ite_or hb with ⟨-, rfl⟩ | ⟨-, hb⟩
      · exact ⟨rfl, rfl⟩
      · obtain ⟨-, rfl⟩ := of_ite_bad hb
        exact ⟨rfl, rfl⟩
  | headerLws =>
    simp only [consumeStep, RequestParser.consume] at hb
    rcases of_ite_or hb with ⟨-, rfl⟩ | ⟨-, hb⟩
    · exact ⟨rfl, rfl⟩
    · rcases of_ite_or hb with ⟨-, rfl⟩ | ⟨-, hb⟩
      · exact ⟨rfl, rfl⟩
      · obtain ⟨-, rfl⟩ := of_ite_bad hb
        exact ⟨rfl, rfl⟩
  | headerName | headerValue =>
    simp only [consumeStep, RequestParser.consume] at hb
    rcases of_ite_or hb with ⟨-, rfl⟩ | ⟨-, hb⟩
    · exact ⟨rfl, rfl⟩
    · obtain ⟨-, rfl⟩ := of_ite_bad hb
      exact ⟨rfl, rfl⟩
  | spaceBeforeHeaderValue | expectingNewline2 =>
    obtain ⟨-, rfl⟩ := of_ite_indeterminate hb
    exact ⟨rfl, rfl⟩
  | expectingNewline3 =>
    simp only [consumeStep, RequestParser.consume] at hb
    split_ifs at hb <;> cases hb
  | _ => cases h

/-! ## The request line -/

/-- The end of a line. -/
def lineEnd : Bytes := [ch '\r', ch '\n']

/-- The text before the version numbers. -/
def versionHead (method uri : Bytes) : Bytes :=
  method ++ ([ch ' '] ++ (uri ++ ([ch ' '] ++ bytes "HTTP/")))

/-- The text of a request line, with the end of the line. -/
def requestLineText (method uri major minor : Bytes) : Bytes :=
  versionHead method uri ++ (major ++ ([ch '.'] ++ (minor ++ lineEnd)))

/-- The parser reads the text before the version numbers. -/
lemma reads_versionHead {method uri : Bytes} (hmethod : IsTokenText method)
    (huri : ∀ b ∈ uri, IsUriByte b) :
    Reads consumeStep (RequestParser.fresh, Request.empty) (versionHead method uri)
      (⟨.httpVersionMajorStart⟩, ⟨method, uri, some 0, some 0, []⟩) := by
  obtain ⟨hne, htokens⟩ := hmethod
  obtain ⟨b, method, rfl⟩ := List.exists_cons_of_ne_nil hne
  have hfirst : Reads consumeStep (RequestParser.fresh, Request.empty) [b]
      (⟨.method⟩, ⟨[b], [], none, none, []⟩) :=
    Reads.single (consumeStep_methodStart (htokens b List.mem_cons_self) Request.empty)
  have hmethod : Reads consumeStep (⟨.method⟩, ⟨[b], [], none, none, []⟩) method
      (⟨.method⟩, ⟨b :: method, [], none, none, []⟩) :=
    Reads.append (fun m => ((⟨.method⟩, ⟨m, [], none, none, []⟩) : RequestParser × Request))
      (fun m c hc => consumeStep_method hc ⟨m, [], none, none, []⟩)
      (fun c hc => htokens c (List.mem_cons_of_mem b hc)) [b]
  have hspace : Reads consumeStep (⟨.method⟩, ⟨b :: method, [], none, none, []⟩) [ch ' ']
      (⟨.uri⟩, ⟨b :: method, [], none, none, []⟩) := Reads.single rfl
  have huri : Reads consumeStep (⟨.uri⟩, ⟨b :: method, [], none, none, []⟩) uri
      (⟨.uri⟩, ⟨b :: method, uri, none, none, []⟩) :=
    Reads.append
      (fun u => ((⟨.uri⟩, ⟨b :: method, u, none, none, []⟩) : RequestParser × Request))
      (fun u c hc => consumeStep_uri hc ⟨b :: method, u, none, none, []⟩) huri []
  have hversion : Reads consumeStep (⟨.uri⟩, ⟨b :: method, uri, none, none, []⟩)
      ([ch ' '] ++ bytes "HTTP/")
      (⟨.httpVersionMajorStart⟩, ⟨b :: method, uri, some 0, some 0, []⟩) := rfl
  exact (hfirst.trans hmethod).trans (hspace.trans (huri.trans hversion))

/-- The parser reads the digits of the major version. -/
lemma reads_major {major : Bytes} (h : IsNumber major) (method uri : Bytes) :
    Reads consumeStep (⟨.httpVersionMajorStart⟩, ⟨method, uri, some 0, some 0, []⟩) major
      (⟨.httpVersionMajor⟩, ⟨method, uri, versionOf major, some 0, []⟩) := by
  obtain ⟨hne, hdigits⟩ := h
  obtain ⟨b, major, rfl⟩ := List.exists_cons_of_ne_nil hne
  have hfirst := Reads.single (consumeStep_majorStart (hdigits b List.mem_cons_self)
    ⟨method, uri, some 0, some 0, []⟩)
  have hrest := Reads.foldl
    (fun v => ((⟨.httpVersionMajor⟩, ⟨method, uri, v, some 0, []⟩) : RequestParser × Request))
    (fun v c hc => consumeStep_major hc ⟨method, uri, v, some 0, []⟩)
    (fun c hc => hdigits c (List.mem_cons_of_mem b hc)) (accumulateDigit (some 0) b)
  exact hfirst.trans hrest

/-- The parser reads the digits of the minor version. -/
lemma reads_minor {minor : Bytes} (h : IsNumber minor) (method uri : Bytes) (v : Option Int32) :
    Reads consumeStep (⟨.httpVersionMinorStart⟩, ⟨method, uri, v, some 0, []⟩) minor
      (⟨.httpVersionMinor⟩, ⟨method, uri, v, versionOf minor, []⟩) := by
  obtain ⟨hne, hdigits⟩ := h
  obtain ⟨b, minor, rfl⟩ := List.exists_cons_of_ne_nil hne
  have hfirst := Reads.single (consumeStep_minorStart (hdigits b List.mem_cons_self)
    ⟨method, uri, v, some 0, []⟩)
  have hrest := Reads.foldl
    (fun w => ((⟨.httpVersionMinor⟩, ⟨method, uri, v, w, []⟩) : RequestParser × Request))
    (fun w c hc => consumeStep_minor hc ⟨method, uri, v, w, []⟩)
    (fun c hc => hdigits c (List.mem_cons_of_mem b hc)) (accumulateDigit (some 0) b)
  exact hfirst.trans hrest

/-- The parser reads a request line. -/
lemma reads_requestLine {method uri major minor : Bytes} (hmethod : IsTokenText method)
    (huri : ∀ b ∈ uri, IsUriByte b) (hmajor : IsNumber major) (hminor : IsNumber minor) :
    Reads consumeStep (RequestParser.fresh, Request.empty) (requestLineText method uri major minor)
      (⟨.headerLineStart⟩, ⟨method, uri, versionOf major, versionOf minor, []⟩) := by
  have hdot : Reads consumeStep (⟨.httpVersionMajor⟩, ⟨method, uri, versionOf major, some 0, []⟩)
      [ch '.'] (⟨.httpVersionMinorStart⟩, ⟨method, uri, versionOf major, some 0, []⟩) :=
    Reads.single rfl
  have hend : Reads consumeStep
      (⟨.httpVersionMinor⟩, ⟨method, uri, versionOf major, versionOf minor, []⟩) lineEnd
      (⟨.headerLineStart⟩, ⟨method, uri, versionOf major, versionOf minor, []⟩) := rfl
  exact (reads_versionHead hmethod huri).trans
    ((reads_major hmajor method uri).trans
      (hdot.trans ((reads_minor hminor method uri (versionOf major)).trans hend)))

/-! ## Header lines -/

/-- The parser reads a field name. -/
lemma reads_name {name : Bytes} (h : IsTokenText name) (req : Request) :
    Reads consumeStep (⟨.headerLineStart⟩, req) (name ++ [ch ':', ch ' '])
      (⟨.headerValue⟩, { req with headers := req.headers ++ [⟨name, []⟩] }) := by
  obtain ⟨hne, htokens⟩ := h
  obtain ⟨b, name, rfl⟩ := List.exists_cons_of_ne_nil hne
  have hfirst := Reads.single (consumeStep_lineStart (htokens b List.mem_cons_self) req)
  have hrest : Reads consumeStep
      (⟨.headerName⟩, { req with headers := req.headers ++ [⟨[b], []⟩] }) name
      (⟨.headerName⟩, { req with headers := req.headers ++ [⟨b :: name, []⟩] }) := by
    refine Reads.append (fun n => ((⟨.headerName⟩,
      { req with headers := req.headers ++ [⟨n, []⟩] }) : RequestParser × Request))
      (P := IsToken) (fun n c hc => ?_)
      (fun c hc => htokens c (List.mem_cons_of_mem b hc)) [b]
    rw [consumeStep_name hc, Request.pushName, modifyBack_append_singleton]
  have hcolon : Reads consumeStep
      (⟨.headerName⟩, { req with headers := req.headers ++ [⟨b :: name, []⟩] }) [ch ':', ch ' ']
      (⟨.headerValue⟩, { req with headers := req.headers ++ [⟨b :: name, []⟩] }) := rfl
  exact (hfirst.trans hrest).trans hcolon

/-- The parser reads a part of a field value. -/
lemma reads_value {value : Bytes} (h : ∀ b ∈ value, IsNonCtl b) (req : Request)
    (headers : List Header) (name start : Bytes) :
    Reads consumeStep (⟨.headerValue⟩, { req with headers := headers ++ [⟨name, start⟩] }) value
      (⟨.headerValue⟩, { req with headers := headers ++ [⟨name, start ++ value⟩] }) := by
  refine Reads.append (fun v => ((⟨.headerValue⟩,
    { req with headers := headers ++ [⟨name, v⟩] }) : RequestParser × Request))
    (P := IsNonCtl) (fun v c hc => ?_) h start
  rw [consumeStep_value hc, Request.pushValue, modifyBack_append_singleton]

/-- The text of a header line, with the end of the line. -/
def headerLineText (h : Header) : Bytes := h.name ++ [ch ':', ch ' '] ++ (h.value ++ lineEnd)

/-- The parser reads a header line. -/
lemma reads_headerLine {h : Header} (hname : IsTokenText h.name)
    (hvalue : ∀ b ∈ h.value, IsNonCtl b) (req : Request) :
    Reads consumeStep (⟨.headerLineStart⟩, req) (headerLineText h)
      (⟨.headerLineStart⟩, { req with headers := req.headers ++ [h] }) := by
  have hend : Reads consumeStep (⟨.headerValue⟩, { req with headers := req.headers ++ [h] }) lineEnd
      (⟨.headerLineStart⟩, { req with headers := req.headers ++ [h] }) := rfl
  have hvalueRead := reads_value hvalue req req.headers h.name []
  exact (reads_name hname req).trans (hvalueRead.trans hend)

end Http

end AsioStudy
