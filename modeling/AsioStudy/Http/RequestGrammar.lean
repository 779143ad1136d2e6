import AsioStudy.Foundation.SymbolClass
import AsioStudy.Cpp.Text
import AsioStudy.Http.RequestParser

/-!
# The grammar accepted by the request parser

`requestGrammar` is the language of the request heads the parser is meant for: a request line, a
block of header lines in which every line after the first may be a continuation, and an empty
line.  The residual languages `residual` describe, for every parser state, what may still follow;
they depend on the request built so far only through the emptiness of its header list.

`consumeStep_isResidual` checks the twenty states of `consume` against these languages one symbol
at a time, and the general theory of recognisers then gives the exact meaning of the three results
of `parse` on every byte string (`parse_fresh_iff_requestGrammar`).
-/

open Computability

namespace AsioStudy

namespace Http

open SymbolClass Recogniser

/-! ## Byte classes -/

/-- The control characters: `0` to `31` and `127`. -/
def IsCtl (b : UInt8) : Prop := b.toNat ≤ 31 ∨ b.toNat = 127

/-- The tspecial characters. -/
def IsTspecial (b : UInt8) : Prop := b ∈ bytes "()<>@,;:\\\"/[]?={} \t"

/-- The token bytes: `0` to `127` without the control and the tspecial characters. -/
def IsToken (b : UInt8) : Prop := b.toNat ≤ 127 ∧ ¬ IsCtl b ∧ ¬ IsTspecial b

/-- Space and horizontal tab. -/
def IsBlank (b : UInt8) : Prop := b = ch ' ' ∨ b = ch '\t'

/-- The bytes that are not control characters, those above `127` included. -/
def IsNonCtl (b : UInt8) : Prop := ¬ IsCtl b

/-- The bytes of a request target: neither control characters nor a space. -/
def IsUriByte (b : UInt8) : Prop := ¬ IsCtl b ∧ b ≠ ch ' '

/-- The bytes that end the blanks of a continuation line. -/
def IsTextStart (b : UInt8) : Prop := ¬ IsCtl b ∧ ¬ IsBlank b

instance : DecidablePred IsCtl := fun _ => inferInstanceAs (Decidable (_ ∨ _))

instance : DecidablePred IsTspecial := fun b => inferInstanceAs (Decidable (b ∈ bytes _))

instance : DecidablePred IsToken := fun _ => inferInstanceAs (Decidable (_ ∧ _ ∧ _))

instance : DecidablePred IsBlank := fun _ => inferInstanceAs (Decidable (_ ∨ _))

/-- `is_char` of a promoted byte. -/
lemma isChar_charToInt {b : UInt8} : isChar (charToInt b) = true ↔ b.toNat ≤ 127 := by
  have hb := charToInt_cases b
  simp only [isChar, Bool.and_eq_true, decide_eq_true_eq]
  omega

/-- `is_ctl` of a promoted byte: a byte above `127` is negative, hence no control character. -/
lemma isCtl_charToInt {b : UInt8} : isCtl (charToInt b) = true ↔ IsCtl b := by
  have hb := charToInt_cases b
  simp only [isCtl, IsCtl, Bool.or_eq_true, Bool.and_eq_true, decide_eq_true_eq, beq_iff_eq]
  omega

/-- `is_tspecial` of a promoted byte. -/
lemma isTspecial_charToInt {b : UInt8} : isTspecial (charToInt b) = true ↔ IsTspecial b := by
  rw [isTspecial, List.contains_iff_mem, List.mem_map_of_injective charToInt_injective]
  rfl

/-- `is_digit` of a promoted byte. -/
lemma isDigit_charToInt {b : UInt8} : isDigit (charToInt b) = true ↔ IsDigit b := by
  have hb := charToInt_cases b
  have h0 : charToInt (ch '0') = 48 := by decide
  have h9 : charToInt (ch '9') = 57 := by decide
  simp only [isDigit, IsDigit, h0, h9, Bool.and_eq_true, decide_eq_true_eq]
  omega

/-- The test that `consume` makes on a byte of a token. -/
lemma notToken_charToInt {b : UInt8} :
    (!isChar (charToInt b) || isCtl (charToInt b) || isTspecial (charToInt b)) = true ↔
      ¬ IsToken b := by
  rw [Bool.or_eq_true, Bool.or_eq_true, Bool.not_eq_true', ← Bool.not_eq_true, isChar_charToInt,
    isCtl_charToInt, isTspecial_charToInt, IsToken]
  tauto

/-! ## The grammar -/

/-- A carriage return followed by a line feed. -/
def crlf : Language UInt8 := word [ch '\r', ch '\n']

/-- A field line: `1*token ":" SP *(non-CTL) CRLF`. -/
def fieldLine : Language UInt8 :=
  oneOf IsToken * (oneOf IsToken)∗ * word [ch ':'] * word [ch ' '] * (oneOf IsNonCtl)∗ * crlf

/-- A continuation line: blanks, optionally followed by a text that does not begin with one. -/
def continuationLine : Language UInt8 :=
  oneOf IsBlank * (oneOf IsBlank)∗ * (1 + oneOf IsTextStart * (oneOf IsNonCtl)∗) * crlf

/-- The header lines of a request: the first one cannot be a continuation. -/
def headerBlock : Language UInt8 :=
  1 + fieldLine * (fieldLine + continuationLine)∗

/-- The request line. -/
def requestLine : Language UInt8 :=
  oneOf IsToken * (oneOf IsToken)∗ * word [ch ' '] * (oneOf IsUriByte)∗ * word [ch ' '] *
    word (bytes "HTTP/") * (oneOf IsDigit * (oneOf IsDigit)∗) * word [ch '.'] *
    (oneOf IsDigit * (oneOf IsDigit)∗) * crlf

/-- A request head: the request line, the header lines and an empty line. -/
def requestGrammar : Language UInt8 := requestLine * headerBlock * crlf

/-! ## Residual languages of the parser states -/

/-- What may follow the end of a line, depending on whether the request has no header yet. -/
def lineStart : Bool → Language UInt8
  | true => headerBlock * crlf
  | false => (fieldLine + continuationLine)∗ * crlf

/-- What may follow inside a field value. -/
def valueRest (e : Bool) : Language UInt8 := (oneOf IsNonCtl)∗ * (crlf * lineStart e)

/-- What may follow inside a field name. -/
def nameRest (e : Bool) : Language UInt8 :=
  (oneOf IsToken)∗ * (word [ch ':'] * (word [ch ' '] * valueRest e))

/-- What may follow inside the blanks of a continuation line. -/
def lwsRest (e : Bool) : Language UInt8 :=
  (oneOf IsBlank)∗ * ((1 + oneOf IsTextStart * (oneOf IsNonCtl)∗) * (crlf * lineStart e))

/-- What may follow inside the minor version. -/
def minorRest (e : Bool) : Language UInt8 := (oneOf IsDigit)∗ * (crlf * lineStart e)

/-- What may follow inside the major version. -/
def majorRest (e : Bool) : Language UInt8 :=
  (oneOf IsDigit)∗ * (word [ch '.'] * (oneOf IsDigit * minorRest e))

/-- What may follow the request target. -/
def versionRest (u : Bytes) (e : Bool) : Language UInt8 :=
  word u * (oneOf IsDigit * majorRest e)

/-- What may follow inside the request target. -/
def uriRest (e : Bool) : Language UInt8 :=
  (oneOf IsUriByte)∗ * (word [ch ' '] * versionRest (bytes "HTTP/") e)

/-- The inputs that lead from a parser state to a complete request, where `e` tells whether the
request has no header yet. -/
def residual (e : Bool) : ParserState → Language UInt8
  | .methodStart => oneOf IsToken * ((oneOf IsToken)∗ * (word [ch ' '] * uriRest e))
  | .method => (oneOf IsToken)∗ * (word [ch ' '] * uriRest e)
  | .uri => uriRest e
  | .httpVersionH => versionRest (bytes "HTTP/") e
  | .httpVersionT1 => versionRest (bytes "TTP/") e
  | .httpVersionT2 => versionRest (bytes "TP/") e
  | .httpVersionP => versionRest (bytes "P/") e
  | .httpVersionSlash => versionRest (bytes "/") e
  | .httpVersionMajorStart => oneOf IsDigit * majorRest e
  | .httpVersionMajor => majorRest e
  | .httpVersionMinorStart => oneOf IsDigit * minorRest e
  | .httpVersionMinor => minorRest e
  | .expectingNewline1 => word [ch '\n'] * lineStart e
  | .headerLineStart => lineStart e
  | .headerLws => lwsRest e
  | .headerName => nameRest e
  | .spaceBeforeHeaderValue => word [ch ' '] * valueRest e
  | .headerValue => valueRest e
  | .expectingNewline2 => word [ch '\n'] * lineStart e
  | .expectingNewline3 => word [ch '\n']

/-- The grammar is the residual language of the initial state. -/
lemma requestGrammar_eq_residual : requestGrammar = residual true .methodStart := by
  simp only [requestGrammar, requestLine, residual, uriRest, versionRest, majorRest, minorRest,
    lineStart, mul_assoc]

/-- Between two lines the request ends, or a field line follows, or, when the request has a header,
a continuation line. -/
lemma lineStart_eq (e : Bool) :
    lineStart e = crlf + oneOf IsToken * nameRest false +
      (if e then 0 else oneOf IsBlank * lwsRest false) := by
  have hline : fieldLine * lineStart false = oneOf IsToken * nameRest false := by
    simp only [fieldLine, nameRest, valueRest, mul_assoc]
  have hcont : continuationLine * lineStart false = oneOf IsBlank * lwsRest false := by
    simp only [continuationLine, lwsRest, mul_assoc]
  cases e with
  | true =>
    rw [lineStart, headerBlock, add_mul, one_mul, mul_assoc, ← lineStart, hline]
    simp
  | false =>
    rw [← hline, ← hcont, add_assoc]
    conv_lhs => rw [lineStart, kstar_mul_eq, add_mul, ← lineStart]
    simp

/-! ## One byte against the residual languages -/

/-- The residual language at a parser and the request it is filling. -/
def residualOf (q : RequestParser × Request) : Language UInt8 :=
  residual q.2.headers.isEmpty q.1.state

/-- What the residual languages require of the rest `w` of the input after the answer `r`. -/
def Continues (w : Bytes) (r : ResultType × RequestParser × Request) : Prop :=
  match r.1 with
  | .good => w = []
  | .bad => False
  | .indeterminate => w ∈ residualOf r.2

section Answers

variable {b c : UInt8} {w : Bytes} {q q₁ q₂ : RequestParser × Request}

/-- A state that expects the byte `c`. -/
lemma expect_iff {X : Language UInt8} (hX : X = residualOf q₁) :
    (b = c ∧ w ∈ X) ↔ Continues w (if b = c then (.indeterminate, q₁) else (.bad, q)) := by
  by_cases h : b = c
  · rw [if_pos h, Continues, ← hX]
    exact and_iff_right h
  · rw [if_neg h, Continues]
    exact iff_of_false (fun hc => h hc.1) id

/-- A state that expects a byte of the class `P`. -/
lemma class_iff {P : UInt8 → Prop} {X : Language UInt8} {T : Prop} [Decidable T]
    (hX : X = residualOf q₁) (hT : T ↔ ¬ P b) :
    (P b ∧ w ∈ X) ↔ Continues w (if T then (.bad, q) else (.indeterminate, q₁)) := by
  by_cases h : T
  · rw [if_pos h, Continues]
    exact iff_of_false (fun hp => hT.mp h hp.1) id
  · rw [if_neg h, Continues, ← hX]
    exact and_iff_right (not_not.mp (mt hT.mpr h))

/-- A state that repeats bytes of the class `P` up to the byte `c`. -/
lemma until_iff {P : UInt8 → Prop} {X Y : Language UInt8} {T : Prop} [Decidable T]
    (hX : X = residualOf q₁) (hY : Y = residualOf q₂) (hc : ¬ P c) (hT : b ≠ c → (T ↔ ¬ P b)) :
    ((P b ∧ w ∈ X) ∨ (b = c ∧ w ∈ Y)) ↔
      Continues w (if b = c then (.indeterminate, q₂)
        else if T then (.bad, q) else (.indeterminate, q₁)) := by
  by_cases h : b = c
  · have hP : ¬ P b := h ▸ hc
    rw [if_pos h, Continues, ← hY]
    refine ⟨fun hw => ?_, fun hw => Or.inr ⟨h, hw⟩⟩
    rcases hw with hw | hw
    · exact absurd hw.1 hP
    · exact hw.2
  · rw [if_neg h, ← class_iff hX (hT h)]
    simp only [h, false_and, or_false]

end Answers

/-- A digit test written the other way round. -/
lemma ite_isDigit {α : Type*} (b : UInt8) (x y : α) :
    (if isDigit (charToInt b) = true then x else y) =
      if ¬ IsDigit b then y else x := by
  rw [ite_not]
  exact if_congr isDigit_charToInt rfl rfl

/-- At the start of a line: the end of the head, a continuation line or a field line. -/
lemma cons_mem_lineStart (req : Request) (b : UInt8) (w : Bytes) :
    b :: w ∈ lineStart req.headers.isEmpty ↔
      Continues w (consumeStep (⟨.headerLineStart⟩, req) b) := by
  have hcrToken : ¬ IsToken (ch '\r') := by decide
  have hcrBlank : ¬ IsBlank (ch '\r') := by decide
  have hblank : IsBlank b → ¬ IsToken b := by
    rintro (rfl | rfl) <;> decide
  have hpush : (req.pushHeader.pushName b).headers.isEmpty = false := by
    simp [Request.pushName, Request.pushHeader]
  rw [lineStart_eq, Language.mem_add, Language.mem_add, cons_mem_oneOf_mul, consumeStep,
    RequestParser.consume]
  have hcr : b :: w ∈ crlf ↔ b = ch '\r' ∧ w ∈ word [ch '\n'] := by
    rw [← mul_one crlf, crlf, cons_mem_word_mul, mul_one]
  simp only [notToken_charToInt, hcr]
  by_cases h : b = ch '\r'
  · subst h
    cases he : req.headers.isEmpty <;>
      simp [hcrToken, hcrBlank, Continues, residualOf, residual, cons_mem_oneOf_mul]
  · cases he : req.headers.isEmpty with
    | true =>
      by_cases ht : IsToken b <;> simp [h, ht, Continues, residualOf, residual, hpush]
    | false =>
      by_cases hbl : IsBlank b
      · have hor : b = ch ' ' ∨ b = ch '\t' := hbl
        simp [h, hbl, hblank hbl, hor, he, Continues, residualOf, residual, cons_mem_oneOf_mul]
      · have hor : ¬ (b = ch ' ' ∨ b = ch '\t') := hbl
        by_cases ht : IsToken b <;>
          simp [h, hbl, ht, hor, Continues, residualOf, residual, hpush, cons_mem_oneOf_mul]

/-- In the blanks of a continuation line: another blank, the text or the end of the line. -/
lemma cons_mem_lwsRest (req : Request) (b : UInt8) (w : Bytes) :
    b :: w ∈ lwsRest req.headers.isEmpty ↔
      Continues w (consumeStep (⟨.headerLws⟩, req) b) := by
  have hcrBlank : ¬ IsBlank (ch '\r') := by decide
  have hcrText : ¬ IsTextStart (ch '\r') := by
    intro h
    exact h.1 (by decide)
  have hpush : (req.pushValue b).headers.isEmpty = req.headers.isEmpty := by
    simp [Request.pushValue]
  rw [lwsRest, cons_mem_kstar_oneOf_mul, ← lwsRest, add_mul, one_mul, Language.mem_add, mul_assoc,
    cons_mem_oneOf_mul, ← valueRest, crlf, cons_mem_word_mul, consumeStep, RequestParser.consume]
  simp only [isCtl_charToInt]
  by_cases h : b = ch '\r'
  · subst h
    simp [hcrBlank, hcrText, Continues, residualOf, residual]
  · by_cases hbl : b = ch ' ' ∨ b = ch '\t'
    · have hbl' : IsBlank b := hbl
      simp [h, hbl, hbl', IsTextStart, Continues, residualOf, residual]
    · have hbl' : ¬ IsBlank b := hbl
      by_cases hc : IsCtl b <;>
        simp [h, hbl, hbl', hc, IsTextStart, Continues, residualOf, residual, hpush]

/-- **One byte.**  The strings that lead to a complete request and begin with `b` are those that
the answer of `consume` to `b` allows. -/
theorem cons_mem_residualOf (q : RequestParser × Request) (b : UInt8) (w : Bytes) :
    b :: w ∈ residualOf q ↔ Continues w (consumeStep q b) := by
  obtain ⟨⟨state⟩, req⟩ := q
  have hvalue : valueRest req.headers.isEmpty =
      residualOf (⟨.headerValue⟩, req.pushValue b) := by
    simp [residualOf, residual, Request.pushValue]
  have hname : nameRest req.headers.isEmpty =
      residualOf (⟨.headerName⟩, req.pushName b) := by
    simp [residualOf, residual, Request.pushName]
  cases state with
  | methodStart =>
    apply cons_mem_oneOf_mul.trans
    exact class_iff rfl notToken_charToInt
  | method =>
    refine cons_mem_kstar_oneOf_mul.trans ((or_congr_right cons_mem_word_mul).trans ?_)
    exact until_iff (P := IsToken) rfl (one_mul _) (by decide) fun _ => notToken_charToInt
  | uri =>
    refine cons_mem_kstar_oneOf_mul.trans ((or_congr_right cons_mem_word_mul).trans ?_)
    refine until_iff (P := IsUriByte) rfl (one_mul _) (fun h => h.2 rfl) fun hne => ?_
    rw [isCtl_charToInt, IsUriByte, not_and_or, not_not]
    exact (or_iff_left (not_not_intro hne)).symm
  | httpVersionH => exact cons_mem_word_mul.trans (expect_iff rfl)
  | httpVersionT1 => exact cons_mem_word_mul.trans (expect_iff rfl)
  | httpVersionT2 => exact cons_mem_word_mul.trans (expect_iff rfl)
  | httpVersionP => exact cons_mem_word_mul.trans (expect_iff rfl)
  | httpVersionSlash => exact cons_mem_word_mul.trans (expect_iff (one_mul _))
  | httpVersionMajorStart =>
    apply cons_mem_oneOf_mul.trans
    simp only [consumeStep, RequestParser.consume, ite_isDigit]
    exact class_iff rfl Iff.rfl
  | httpVersionMajor =>
    refine cons_mem_kstar_oneOf_mul.trans ((or_congr_right cons_mem_word_mul).trans ?_)
    simp only [consumeStep, RequestParser.consume, ite_isDigit]
    exact until_iff (P := IsDigit) rfl (one_mul _) (by decide) fun _ => Iff.rfl
  | httpVersionMinorStart =>
    apply cons_mem_oneOf_mul.trans
    simp only [consumeStep, RequestParser.consume, ite_isDigit]
    exact class_iff rfl Iff.rfl
  | httpVersionMinor =>
    refine cons_mem_kstar_oneOf_mul.trans ((or_congr_right cons_mem_word_mul).trans ?_)
    simp only [consumeStep, RequestParser.consume, ite_isDigit]
    exact until_iff (P := IsDigit) rfl rfl (by decide) fun _ => Iff.rfl
  | expectingNewline1 => exact cons_mem_word_mul.trans (expect_iff (one_mul _))
  | headerLineStart => exact cons_mem_lineStart req b w
  | headerLws => exact cons_mem_lwsRest req b w
  | headerName =>
    refine cons_mem_kstar_oneOf_mul.trans ((or_congr_right cons_mem_word_mul).trans ?_)
    exact until_iff (P := IsToken) hname (one_mul _) (by decide) fun _ => notToken_charToInt
  | spaceBeforeHeaderValue => exact cons_mem_word_mul.trans (expect_iff (one_mul _))
  | headerValue =>
    refine cons_mem_kstar_oneOf_mul.trans ((or_congr_right cons_mem_word_mul).trans ?_)
    refine until_iff (P := IsNonCtl) hvalue rfl (fun h => h (by decide)) fun _ => ?_
    rw [isCtl_charToInt, IsNonCtl, not_not]
  | expectingNewline2 => exact cons_mem_word_mul.trans (expect_iff (one_mul _))
  | expectingNewline3 =>
    have hlast : b :: w ∈ word [ch '\n'] ↔ b = ch '\n' ∧ w = [] := by
      rw [mem_word, List.cons_eq_cons]
    apply hlast.trans
    by_cases h : b = ch '\n' <;> simp [consumeStep, RequestParser.consume, Continues, h]

/-! ## The results of the parser -/

/-- No state of the parser has a complete request before reading on. -/
lemma nil_notMem_residual (e : Bool) (state : ParserState) : [] ∉ residual e state := by
  have hline : [] ∉ lineStart e := by
    have htoken : [] ∉ oneOf IsToken * nameRest false := fun h =>
      nil_notMem_oneOf (nil_mem_mul.mp h).1
    have hblank : [] ∉ oneOf IsBlank * lwsRest false := fun h =>
      nil_notMem_oneOf (nil_mem_mul.mp h).1
    rw [lineStart_eq, Language.mem_add, Language.mem_add]
    intro h
    rcases h with (h | h) | h
    · exact nil_notMem_word_cons _ _ h
    · exact htoken h
    · cases e
      · exact hblank h
      · exact Language.notMem_zero _ h
  cases state <;>
    simp [residual, uriRest, versionRest, majorRest, minorRest, nameRest, valueRest, lwsRest, crlf,
      nil_mem_mul, Language.nil_mem_kstar, bytes, hline]

/-- From every state of the parser some input completes the request. -/
lemma exists_mem_residual (e : Bool) (state : ParserState) : ∃ w, w ∈ residual e state := by
  have hcrlf : ∃ w, w ∈ crlf := exists_mem_word _
  have htoken : ∃ w, w ∈ oneOf IsToken := exists_mem_oneOf (b := ch 'A') (by decide)
  have hdigit : ∃ w, w ∈ oneOf IsDigit := exists_mem_oneOf (b := ch '1') (by decide)
  have hline : ∃ w, w ∈ lineStart e := by
    obtain ⟨w, hw⟩ := hcrlf
    refine ⟨w, ?_⟩
    rw [lineStart_eq]
    exact Or.inl (Or.inl hw)
  have hvalue : ∃ w, w ∈ valueRest e := exists_mem_kstar_mul (exists_mem_mul hcrlf hline)
  have hname : ∃ w, w ∈ nameRest e :=
    exists_mem_kstar_mul
      (exists_mem_mul (exists_mem_word _) (exists_mem_mul (exists_mem_word _) hvalue))
  have hlws : ∃ w, w ∈ lwsRest e :=
    exists_mem_kstar_mul
      (exists_mem_mul ⟨[], Or.inl rfl⟩ (exists_mem_mul hcrlf hline))
  have hminor : ∃ w, w ∈ minorRest e := exists_mem_kstar_mul (exists_mem_mul hcrlf hline)
  have hmajor : ∃ w, w ∈ majorRest e :=
    exists_mem_kstar_mul
      (exists_mem_mul (exists_mem_word _) (exists_mem_mul hdigit hminor))
  have hversion : ∀ u, ∃ w, w ∈ versionRest u e := fun u =>
    exists_mem_mul (exists_mem_word u) (exists_mem_mul hdigit hmajor)
  have huri : ∃ w, w ∈ uriRest e :=
    exists_mem_kstar_mul (exists_mem_mul (exists_mem_word _) (hversion _))
  have hmethod : ∃ w, w ∈ (oneOf IsToken)∗ * (word [ch ' '] * uriRest e) :=
    exists_mem_kstar_mul (exists_mem_mul (exists_mem_word _) huri)
  cases state with
  | methodStart => exact exists_mem_mul htoken hmethod
  | method => exact hmethod
  | uri => exact huri
  | httpVersionH => exact hversion _
  | httpVersionT1 => exact hversion _
  | httpVersionT2 => exact hversion _
  | httpVersionP => exact hversion _
  | httpVersionSlash => exact hversion _
  | httpVersionMajorStart => exact exists_mem_mul hdigit hmajor
  | httpVersionMajor => exact hmajor
  | httpVersionMinorStart => exact exists_mem_mul hdigit hminor
  | httpVersionMinor => exact hminor
  | expectingNewline1 => exact exists_mem_mul (exists_mem_word _) hline
  | headerLineStart => exact hline
  | headerLws => exact hlws
  | headerName => exact hname
  | spaceBeforeHeaderValue => exact exists_mem_mul (exists_mem_word _) hvalue
  | headerValue => exact hvalue
  | expectingNewline2 => exact exists_mem_mul (exists_mem_word _) hline
  | expectingNewline3 => exact exists_mem_word _

/-- The residual languages describe the transitions of `consume`. -/
theorem consumeStep_isResidual : IsResidual consumeStep residualOf where
  nil_notMem q := nil_notMem_residual _ _
  nonempty q := exists_mem_residual _ _
  good {q b} h w := by
    rw [cons_mem_residualOf, Continues, h]
  bad {q b} h w := by
    rw [cons_mem_residualOf, Continues, h]
    exact id
  indeterminate {q b} h w := by
    rw [cons_mem_residualOf, Continues, h]

/-- The language of a fresh parser and an empty request is the grammar. -/
lemma residualOf_fresh : residualOf (RequestParser.fresh, Request.empty) = requestGrammar :=
  requestGrammar_eq_residual.symm

/-- **The parser accepts exactly its grammar.**  On every byte string `s`, a fresh parser with an
empty request answers `good` after exactly `k` bytes if and only if the first `k` bytes of `s` are
in the grammar, which happens for at most one `k`; it answers `indeterminate` if and only if `s` is
a proper prefix of a member of the grammar; and it answers `bad` after exactly `k` bytes if and only
if no prefix of `s` is in the grammar and the first `k` bytes are the shortest prefix of `s` that no
member of the grammar extends. -/
theorem parse_fresh_iff_requestGrammar (s : Bytes) :
    (∀ k ≤ s.length,
      ((RequestParser.fresh.parse Request.empty s).result = .good ∧
          (RequestParser.fresh.parse Request.empty s).Consumed s k ↔
        s.take k ∈ requestGrammar)) ∧
    (∀ j ≤ s.length, ∀ k ≤ s.length,
      s.take j ∈ requestGrammar → s.take k ∈ requestGrammar → j = k) ∧
    ((RequestParser.fresh.parse Request.empty s).result = .indeterminate ↔
      ∃ w, w ≠ [] ∧ s ++ w ∈ requestGrammar) ∧
    (∀ k ≤ s.length,
      ((RequestParser.fresh.parse Request.empty s).result = .bad ∧
          (RequestParser.fresh.parse Request.empty s).Consumed s k ↔
        (∀ j ≤ s.length, s.take j ∉ requestGrammar) ∧
          (¬ ∃ w, s.take k ++ w ∈ requestGrammar) ∧
          ∀ j < k, ∃ w, s.take j ++ w ∈ requestGrammar)) := by
  have hres := consumeStep_isResidual
  rw [parse_eq_run, ← residualOf_fresh]
  refine ⟨fun k hk => ?_, fun j hj k hk => hres.take_unique hj hk, hres.run_indeterminate_iff,
    fun k hk => ?_⟩
  · rw [← hres.run_good_iff hk, ParseOutcome.Consumed, and_iff_right hk]
  · rw [ParseOutcome.Consumed, and_iff_right hk]
    exact hres.run_bad_iff hk

end Http

end AsioStudy
