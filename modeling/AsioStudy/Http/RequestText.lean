import AsioStudy.Http.ParserRuns

/-!
# Printing a request

`Request.text` writes a request: the request line, one line for each header and an empty line.  The
parser reads this text back, whatever follows it (`parse_text`).
-/

namespace AsioStudy

namespace Http

open Recogniser

/-- The digits of a version number. -/
def versionText (v : Option Int32) : Bytes := decimal (v.getD 0).toInt.toNat

/-- The text of a request. -/
def Request.text (r : Request) : Bytes :=
  requestLineText r.method r.uri (versionText r.httpVersionMajor)
    (versionText r.httpVersionMinor) ++ (r.headers.flatMap headerLineText ++ lineEnd)

/-- A version number that can be accumulated without an overflow, which would happen at the
addition of the last digit's character. -/
def IsVersion (v : Option Int32) : Prop := ∃ n : ℕ, n ≤ 2147483599 ∧ v = some (Int32.ofNat n)

/-- A request that can be written: its parts consist of the bytes that may stand in them. -/
structure Request.IsPrintable (r : Request) : Prop where
  /-- The method is a nonempty token. -/
  method : IsTokenText r.method
  /-- The target contains neither control characters nor spaces. -/
  uri : ∀ b ∈ r.uri, IsUriByte b
  /-- The major version is in range. -/
  major : IsVersion r.httpVersionMajor
  /-- The minor version is in range. -/
  minor : IsVersion r.httpVersionMinor
  /-- Every name is a nonempty token. -/
  names : ∀ h ∈ r.headers, IsTokenText h.name
  /-- No value contains a control character. -/
  values : ∀ h ∈ r.headers, ∀ b ∈ h.value, IsNonCtl b

/-- The digits of a version number are read as the number. -/
lemma versionText_spec {v : Option Int32} (h : IsVersion v) :
    IsNumber (versionText v) ∧ versionOf (versionText v) = v := by
  obtain ⟨n, hn, rfl⟩ := h
  have htext : versionText (some (Int32.ofNat n)) = decimal n := by
    rw [versionText, Option.getD_some, Int32.toInt_ofNat_of_lt (by omega), Int.toNat_natCast]
  have hdigits : ∀ b ∈ decimal n, IsDigit b := fun b hb => isDigit_of_mem_decimal hb
  rw [htext]
  refine ⟨⟨decimal_ne_nil n, hdigits⟩, ?_⟩
  rw [versionOf_eq hdigits, decimalValue_decimal]

/-- The parser reads header lines one after the other. -/
lemma reads_headerLines {headers : List Header} (hnames : ∀ h ∈ headers, IsTokenText h.name)
    (hvalues : ∀ h ∈ headers, ∀ b ∈ h.value, IsNonCtl b) (req : Request) :
    Reads consumeStep (⟨.headerLineStart⟩, req) (headers.flatMap headerLineText)
      (⟨.headerLineStart⟩, { req with headers := req.headers ++ headers }) := by
  induction headers generalizing req with
  | nil =>
    rw [List.append_nil]
    exact Reads.refl _
  | cons h headers ih =>
    have hfirst := reads_headerLine (hnames h List.mem_cons_self) (hvalues h List.mem_cons_self) req
    have hrest := ih (fun x hx => hnames x (List.mem_cons_of_mem h hx))
      (fun x hx => hvalues x (List.mem_cons_of_mem h hx))
      { req with headers := req.headers ++ [h] }
    rw [List.append_assoc, List.singleton_append] at hrest
    exact hfirst.trans hrest

/-- **Printing and parsing.**  From the text of a printable request and anything that follows, a
fresh parser recovers the request and consumes the text. -/
theorem parse_text {r : Request} (h : r.IsPrintable) (t : Bytes) :
    (RequestParser.fresh.parse Request.empty (r.text ++ t)).result = .good ∧
      (RequestParser.fresh.parse Request.empty (r.text ++ t)).Consumed (r.text ++ t)
        r.text.length ∧
      (RequestParser.fresh.parse Request.empty (r.text ++ t)).request = r := by
  obtain ⟨method, uri, major, minor, headers⟩ := r
  obtain ⟨hmajor, hmajorValue⟩ := versionText_spec h.major
  obtain ⟨hminor, hminorValue⟩ := versionText_spec h.minor
  have hline := reads_requestLine h.method h.uri hmajor hminor
  have hheaders := reads_headerLines h.names h.values
    ⟨method, uri, versionOf (versionText major), versionOf (versionText minor), []⟩
  rw [hmajorValue, hminorValue] at hline hheaders
  have hrun : run consumeStep (RequestParser.fresh, Request.empty)
      (Request.text ⟨method, uri, major, minor, headers⟩ ++ t) =
        (.good, (⟨.expectingNewline3⟩, ⟨method, uri, major, minor, headers⟩), t) := by
    rw [Request.text, List.append_assoc, hline.run_append, List.append_assoc, hheaders.run_append]
    rfl
  rw [parse_eq_run, hrun]
  refine ⟨rfl, ⟨?_, (List.drop_left).symm⟩, rfl⟩
  rw [List.length_append]
  exact Nat.le_add_right _ _

/-- A request with two headers, one of which has an empty value and the other one a value that
begins with a space. -/
def twoHeaders : Request :=
  ⟨bytes "GET", bytes "/", some 1, some 0, [⟨bytes "Host", []⟩, ⟨bytes "X", bytes " a: b"⟩]⟩

/-- This request is read back from its text before other bytes. -/
theorem parse_text_two_headers :
    (RequestParser.fresh.parse Request.empty (twoHeaders.text ++ bytes "body")).result = .good ∧
      (RequestParser.fresh.parse Request.empty (twoHeaders.text ++ bytes "body")).Consumed
        (twoHeaders.text ++ bytes "body") twoHeaders.text.length ∧
      (RequestParser.fresh.parse Request.empty (twoHeaders.text ++ bytes "body")).request =
        twoHeaders := by
  refine parse_text ⟨?_, ?_, ⟨1, by decide, rfl⟩, ⟨0, by decide, rfl⟩, ?_, ?_⟩ (bytes "body")
  · decide +kernel
  · decide +kernel
  · decide +kernel
  · decide +kernel

end Http

end AsioStudy
