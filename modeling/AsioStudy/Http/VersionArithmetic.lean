import AsioStudy.Http.ParserRuns

/-!
# The arithmetic of the version numbers

Every digit of a version number is accumulated by `v * 10 + input - '0'`, an expression of type
`int` that is evaluated from left to right, and there is no limit on the number of digits.  The
largest value it goes through is the one before the subtraction, 48 more than the number read so
far.

`RequestProgress` says what has been read when the parser is in a given state.  From this
`versions_exact_iff` finds the exact limit: all values are in the range of `int`, and the fields of
an accepted request are the numbers of its request line, if and only if no number written at the
place of a version exceeds 2147483599.
-/

namespace AsioStudy

namespace Http

open Recogniser

/-! ## What has been read -/

/-- The parts of a request line before the version numbers. -/
structure IsTarget (method uri : Bytes) : Prop where
  /-- The method is a nonempty token. -/
  method : IsTokenText method
  /-- The target contains neither control characters nor spaces. -/
  uri : ∀ b ∈ uri, IsUriByte b

/-- The text `s` up to some point of the version's name. -/
def AtVersion (tail s : Bytes) : Prop :=
  ∃ method uri, IsTarget method uri ∧ s = method ++ ([ch ' '] ++ (uri ++ tail))

/-- The text `s` begins with a request line, whose numbers are in the version fields. -/
def AfterRequestLine (s : Bytes) (req : Request) : Prop :=
  ∃ method uri major minor tail, IsTarget method uri ∧ IsNumber major ∧ IsNumber minor ∧
    s = requestLineText method uri major minor ++ tail ∧
    req.httpVersionMajor = versionOf major ∧ req.httpVersionMinor = versionOf minor

/-- What the parser has read, and what it has made of the version numbers, when it is in a given
state. -/
def RequestProgress (s : Bytes) (q : RequestParser × Request) : Prop :=
  match q.1.state with
  | .methodStart => s = []
  | .method => IsTokenText s
  | .uri => AtVersion [] s
  | .httpVersionH => AtVersion [ch ' '] s
  | .httpVersionT1 => AtVersion (bytes " H") s
  | .httpVersionT2 => AtVersion (bytes " HT") s
  | .httpVersionP => AtVersion (bytes " HTT") s
  | .httpVersionSlash => AtVersion (bytes " HTTP") s
  | .httpVersionMajorStart =>
    ∃ method uri, IsTarget method uri ∧ s = versionHead method uri ∧
      q.2.httpVersionMajor = some 0 ∧ q.2.httpVersionMinor = some 0
  | .httpVersionMajor =>
    ∃ method uri major, IsTarget method uri ∧ IsNumber major ∧ s = versionHead method uri ++ major ∧
      q.2.httpVersionMajor = versionOf major ∧ q.2.httpVersionMinor = some 0
  | .httpVersionMinorStart =>
    ∃ method uri major, IsTarget method uri ∧ IsNumber major ∧
      s = versionHead method uri ++ (major ++ [ch '.']) ∧
      q.2.httpVersionMajor = versionOf major ∧ q.2.httpVersionMinor = some 0
  | .httpVersionMinor =>
    ∃ method uri major minor, IsTarget method uri ∧ IsNumber major ∧ IsNumber minor ∧
      s = versionHead method uri ++ (major ++ ([ch '.'] ++ minor)) ∧
      q.2.httpVersionMajor = versionOf major ∧ q.2.httpVersionMinor = versionOf minor
  | .expectingNewline1 =>
    ∃ method uri major minor, IsTarget method uri ∧ IsNumber major ∧ IsNumber minor ∧
      s = versionHead method uri ++ (major ++ ([ch '.'] ++ (minor ++ [ch '\r']))) ∧
      q.2.httpVersionMajor = versionOf major ∧ q.2.httpVersionMinor = versionOf minor
  | _ => AfterRequestLine s q.2

/-- A text of digits that is extended by one. -/
lemma IsNumber.concat {digits : Bytes} (h : IsNumber digits) {b : UInt8} (hb : IsDigit b) :
    IsNumber (digits ++ [b]) :=
  ⟨by simp, List.forall_mem_append.mpr ⟨h.2, List.forall_mem_singleton.mpr hb⟩⟩

/-- A text of token bytes that is extended by one. -/
lemma IsTokenText.concat {text : Bytes} (h : IsTokenText text) {b : UInt8} (hb : IsToken b) :
    IsTokenText (text ++ [b]) :=
  ⟨by simp, List.forall_mem_append.mpr ⟨h.2, List.forall_mem_singleton.mpr hb⟩⟩

/-- The version's name goes on. -/
lemma AtVersion.concat {tail s : Bytes} (h : AtVersion tail s) (b : UInt8) :
    AtVersion (tail ++ [b]) (s ++ [b]) := by
  obtain ⟨method, uri, htarget, rfl⟩ := h
  exact ⟨method, uri, htarget, by simp⟩

/-- What has been read behind the request line. -/
lemma requestProgress_of_isBehindLine {s : Bytes} {q : RequestParser × Request}
    (h : q.1.state.isBehindLine = true) : RequestProgress s q ↔ AfterRequestLine s q.2 := by
  obtain ⟨⟨state⟩, req⟩ := q
  cases state <;> first | rfl | cases h

/-- A byte of a token that has passed the test. -/
lemma isToken_of_not {b : UInt8}
    (h : ¬ (!isChar (charToInt b) || isCtl (charToInt b) || isTspecial (charToInt b)) = true) :
    IsToken b := not_not.mp (mt notToken_charToInt.mpr h)

/-- **One byte.**  What has been read is extended by every byte that is read. -/
lemma RequestProgress.step {s : Bytes} {q q' : RequestParser × Request} {b : UInt8}
    (h : RequestProgress s q) (hb : consumeStep q b = (.indeterminate, q')) :
    RequestProgress (s ++ [b]) q' := by
  by_cases hbehind : q.1.state.isBehindLine = true
  · obtain ⟨hstate, hreq⟩ := consumeStep_of_isBehindLine hbehind hb
    rw [requestProgress_of_isBehindLine hbehind] at h
    rw [requestProgress_of_isBehindLine hstate]
    obtain ⟨method, uri, major, minor, tail, htarget, hd, hd', rfl, hmaj, hmin⟩ := h
    rw [hreq]
    exact ⟨method, uri, major, minor, tail ++ [b], htarget, hd, hd', List.append_assoc _ _ _, hmaj,
      hmin⟩
  obtain ⟨⟨state⟩, req⟩ := q
  cases state with
  | methodStart =>
    obtain ⟨htoken, rfl⟩ := of_ite_bad hb
    obtain rfl : s = [] := h
    change IsTokenText ([] ++ [b])
    exact ⟨by simp, by simpa using isToken_of_not htoken⟩
  | method =>
    rcases of_ite_or hb with ⟨rfl, rfl⟩ | ⟨-, hb⟩
    · exact ⟨s, [], ⟨h, by simp⟩, by simp⟩
    · obtain ⟨htoken, rfl⟩ := of_ite_bad hb
      change IsTokenText (s ++ [b])
      exact IsTokenText.concat h (isToken_of_not htoken)
  | uri =>
    obtain ⟨method, uri, htarget, rfl⟩ := h
    rcases of_ite_or hb with ⟨rfl, rfl⟩ | ⟨hspace, hb⟩
    · exact ⟨method, uri, htarget, by simp⟩
    · obtain ⟨hctl, rfl⟩ := of_ite_bad hb
      have hbyte : IsUriByte b := ⟨mt isCtl_charToInt.mpr hctl, hspace⟩
      have huri : ∀ c ∈ uri ++ [b], IsUriByte c :=
        List.forall_mem_append.mpr ⟨htarget.uri, List.forall_mem_singleton.mpr hbyte⟩
      exact ⟨method, uri ++ [b], ⟨htarget.method, huri⟩, by simp⟩
  | httpVersionH | httpVersionT1 | httpVersionT2 | httpVersionP =>
    obtain ⟨rfl, rfl⟩ := of_ite_indeterminate hb
    exact AtVersion.concat h _
  | httpVersionSlash =>
    obtain ⟨rfl, rfl⟩ := of_ite_indeterminate hb
    obtain ⟨method, uri, htarget, hs⟩ := AtVersion.concat h (ch '/')
    exact ⟨method, uri, htarget, hs, rfl, rfl⟩
  | httpVersionMajorStart =>
    obtain ⟨method, uri, htarget, rfl, hmajor, hminor⟩ := h
    obtain ⟨hdigit, rfl⟩ := of_ite_indeterminate hb
    have hb' : IsDigit b := isDigit_charToInt.mp hdigit
    refine ⟨method, uri, [b], htarget, ⟨by simp, by simpa using hb'⟩, rfl, ?_, hminor⟩
    exact congrArg (accumulateDigit · b) hmajor
  | httpVersionMajor =>
    obtain ⟨method, uri, major, htarget, hd, rfl, hmajor, hminor⟩ := h
    rcases of_ite_or hb with ⟨rfl, rfl⟩ | ⟨-, hb⟩
    · exact ⟨method, uri, major, htarget, hd, by simp, hmajor, hminor⟩
    · obtain ⟨hdigit, rfl⟩ := of_ite_indeterminate hb
      refine ⟨method, uri, major ++ [b], htarget, hd.concat (isDigit_charToInt.mp hdigit), by simp,
        ?_, hminor⟩
      rw [versionOf_concat, ← hmajor]
  | httpVersionMinorStart =>
    obtain ⟨method, uri, major, htarget, hd, rfl, hmajor, hminor⟩ := h
    obtain ⟨hdigit, rfl⟩ := of_ite_indeterminate hb
    have hb' : IsDigit b := isDigit_charToInt.mp hdigit
    refine ⟨method, uri, major, [b], htarget, hd, ⟨by simp, by simpa using hb'⟩, by simp, hmajor,
      ?_⟩
    exact congrArg (accumulateDigit · b) hminor
  | httpVersionMinor =>
    obtain ⟨method, uri, major, minor, htarget, hd, hd', rfl, hmajor, hminor⟩ := h
    rcases of_ite_or hb with ⟨rfl, rfl⟩ | ⟨-, hb⟩
    · exact ⟨method, uri, major, minor, htarget, hd, hd', by simp, hmajor, hminor⟩
    · obtain ⟨hdigit, rfl⟩ := of_ite_indeterminate hb
      refine ⟨method, uri, major, minor ++ [b], htarget, hd,
        hd'.concat (isDigit_charToInt.mp hdigit), by simp, hmajor, ?_⟩
      rw [versionOf_concat, ← hminor]
  | expectingNewline1 =>
    obtain ⟨method, uri, major, minor, htarget, hd, hd', rfl, hmajor, hminor⟩ := h
    obtain ⟨rfl, rfl⟩ := of_ite_indeterminate hb
    refine ⟨method, uri, major, minor, [], htarget, hd, hd', ?_, hmajor, hminor⟩
    simp [requestLineText, lineEnd]
  | _ => exact absurd rfl hbehind

/-- What has been read from the beginning. -/
lemma requestProgress_of_reads {s : Bytes} {q : RequestParser × Request}
    (h : Reads consumeStep (RequestParser.fresh, Request.empty) s q) : RequestProgress s q := by
  refine Reads.invariant (P := RequestProgress) ?_ ?_ h
  · exact (rfl : ([] : Bytes) = [])
  · exact fun hprogress hb => hprogress.step hb

/-! ## The arithmetic -/

/-- The values that `v * 10 + input - '0'` goes through when it is evaluated from left to right;
`none` is the value of a member that has not been set. -/
def accumulateValues (v : Option Int32) (input : UInt8) : List (Option ℤ) :=
  let product := v.map fun n => n.toInt * 10
  let sum := product.map fun n => n + charToInt input
  [product, sum, sum.map fun n => n - charToInt (ch '0')]

/-- The values that a call of `consume` computes for the version numbers. -/
def RequestParser.consumeValues (p : RequestParser) (req : Request) (input : UInt8) :
    List (Option ℤ) :=
  let c := charToInt input
  match p.state with
  | .httpVersionMajorStart =>
    if isDigit c then accumulateValues req.httpVersionMajor input else []
  | .httpVersionMajor =>
    if input = ch '.' then []
    else if isDigit c then accumulateValues req.httpVersionMajor input
    else []
  | .httpVersionMinorStart =>
    if isDigit c then accumulateValues req.httpVersionMinor input else []
  | .httpVersionMinor =>
    if input = ch '\r' then []
    else if isDigit c then accumulateValues req.httpVersionMinor input
    else []
  | _ => []

/-- The values that a call of `parse` computes for the version numbers. -/
def RequestParser.parseValues (p : RequestParser) (req : Request) : Bytes → List (Option ℤ)
  | [] => []
  | b :: range =>
    p.consumeValues req b ++
      match p.consume req b with
      | (.indeterminate, p', req') => p'.parseValues req' range
      | _ => []

/-- Calls of `parse` on one segment after the other, up to the first definite result: the outcome of
the last call, and the values that all of them compute for the version numbers. -/
def RequestParser.parseSegments (p : RequestParser) (req : Request) :
    List Bytes → ParseOutcome × List (Option ℤ)
  | [] => (⟨.indeterminate, [], p, req⟩, [])
  | data :: segments =>
    let o := p.parse req data
    let values := p.parseValues req data
    match o.result with
    | .indeterminate =>
      let r := o.parser.parseSegments o.request segments
      (r.1, values ++ r.2)
    | _ => (o, values)

/-- The value has been computed and is in the range of `int`. -/
def FitsInt (v : Option ℤ) : Prop := ∃ n, v = some n ∧ -2147483648 ≤ n ∧ n ≤ 2147483647

/-- The arithmetic of the version numbers is exact when the segments are parsed from the
beginning. -/
structure VersionsExact (segments : List Bytes) : Prop where
  /-- All values are in the range of `int`. -/
  fits : ∀ v ∈ (RequestParser.fresh.parseSegments Request.empty segments).2, FitsInt v
  /-- The fields of an accepted request are the numbers of its request line. -/
  exact : (RequestParser.fresh.parseSegments Request.empty segments).1.result = .good →
    ∃ method uri major minor rest, IsTarget method uri ∧ IsNumber major ∧ IsNumber minor ∧
      segments.flatten = requestLineText method uri major minor ++ rest ∧
      let req := (RequestParser.fresh.parseSegments Request.empty segments).1.request
      req.httpVersionMajor.map Int32.toInt = some (decimalValue major : ℤ) ∧
        req.httpVersionMinor.map Int32.toInt = some (decimalValue minor : ℤ)

/-- A text up to the place of a version number. -/
def IsNumberHead (head : Bytes) : Prop :=
  ∃ method uri, IsTarget method uri ∧
    (head = versionHead method uri ∨
      ∃ major, IsNumber major ∧ head = versionHead method uri ++ (major ++ [ch '.']))

/-- No number at the place of a version number exceeds 2147483599. -/
def VersionsFit (s : Bytes) : Prop :=
  ∀ head digits rest, IsNumberHead head → (∀ b ∈ digits, IsDigit b) →
    s = head ++ (digits ++ rest) → decimalValue digits ≤ 2147483599

/-! ### Segments -/

/-- The values of a call on a range that the parser leaves undecided and that goes on. -/
lemma parseValues_append_of_indeterminate {p : RequestParser} {req : Request} {s : Bytes}
    (h : (p.parse req s).result = .indeterminate) (t : Bytes) :
    p.parseValues req (s ++ t) =
      p.parseValues req s ++ (p.parse req s).parser.parseValues (p.parse req s).request t := by
  induction s generalizing p req with
  | nil => rfl
  | cons b s ih =>
    rw [List.cons_append, RequestParser.parseValues, RequestParser.parseValues, List.append_assoc]
    rw [RequestParser.parse] at h ⊢
    cases hb : p.consume req b with
    | mk v q =>
      obtain ⟨p', req'⟩ := q
      rw [hb] at h
      cases v with
      | good => cases h
      | bad => cases h
      | indeterminate => exact congrArg _ (ih h)

/-- What follows the deciding byte is not computed with. -/
lemma parseValues_append_of_ne_indeterminate {p : RequestParser} {req : Request} {s : Bytes}
    (h : (p.parse req s).result ≠ .indeterminate) (t : Bytes) :
    p.parseValues req (s ++ t) = p.parseValues req s := by
  induction s generalizing p req with
  | nil => exact absurd rfl h
  | cons b s ih =>
    rw [List.cons_append, RequestParser.parseValues, RequestParser.parseValues]
    rw [RequestParser.parse] at h
    cases hb : p.consume req b with
    | mk v q =>
      obtain ⟨p', req'⟩ := q
      rw [hb] at h
      cases v with
      | good => rfl
      | bad => rfl
      | indeterminate => exact congrArg _ (ih h)

/-- The calls on the segments compute what a single call on their concatenation computes. -/
lemma parseSegments_eq (p : RequestParser) (req : Request) (segments : List Bytes) :
    (p.parseSegments req segments).1.result = (p.parse req segments.flatten).result ∧
      (p.parseSegments req segments).1.request = (p.parse req segments.flatten).request ∧
      (p.parseSegments req segments).2 = p.parseValues req segments.flatten := by
  induction segments generalizing p req with
  | nil => exact ⟨rfl, rfl, rfl⟩
  | cons data segments ih =>
    rw [List.flatten_cons, RequestParser.parseSegments]
    by_cases h : (p.parse req data).result = .indeterminate
    · obtain ⟨hresult, hrequest, hvalues⟩ := ih (p.parse req data).parser (p.parse req data).request
      rw [parse_append_of_indeterminate h, parseValues_append_of_indeterminate h]
      simp only [h]
      exact ⟨hresult, hrequest, congrArg _ hvalues⟩
    · rw [parse_append_of_ne_indeterminate h, parseValues_append_of_ne_indeterminate h]
      cases hr : (p.parse req data).result with
      | indeterminate => exact absurd hr h
      | good => exact ⟨hr, rfl, rfl⟩
      | bad => exact ⟨hr, rfl, rfl⟩

/-- The values of a call are those of its bytes. -/
lemma mem_parseValues {p : RequestParser} {req : Request} {s : Bytes} {v : Option ℤ} :
    v ∈ p.parseValues req s ↔
      ∃ u b t q, s = u ++ b :: t ∧ Reads consumeStep (p, req) u q ∧
        v ∈ q.1.consumeValues q.2 b := by
  induction s generalizing p req with
  | nil => simp [RequestParser.parseValues]
  | cons b s ih =>
    rw [RequestParser.parseValues, List.mem_append]
    constructor
    · rintro (hv | hv)
      · exact ⟨[], b, s, (p, req), rfl, Reads.refl _, hv⟩
      · cases hb : p.consume req b with
        | mk result q =>
          obtain ⟨p', req'⟩ := q
          rw [hb] at hv
          cases result with
          | good => cases hv
          | bad => cases hv
          | indeterminate =>
            obtain ⟨u, c, t, q, rfl, hreads, hv⟩ := ih.mp hv
            have hfirst : Reads consumeStep (p, req) [b] (p', req') := Reads.single hb
            exact ⟨b :: u, c, t, q, rfl, hfirst.trans hreads, hv⟩
    · rintro ⟨u, c, t, q, hs, hreads, hv⟩
      cases u with
      | nil =>
        obtain ⟨rfl, rfl⟩ := List.cons.inj hs
        obtain rfl : (p, req) = q := congrArg (fun r => r.2.1) hreads
        exact Or.inl hv
      | cons b' u =>
        obtain ⟨rfl, rfl⟩ := List.cons.inj hs
        obtain ⟨⟨p', req'⟩, hb, hrest⟩ := hreads.cons_inv
        have hb : p.consume req b = (.indeterminate, p', req') := hb
        rw [hb]
        exact Or.inr (ih.mpr ⟨u, c, t, q, rfl, hrest, hv⟩)

/-! ### The range of the values -/

/-- A digit more makes a number larger. -/
lemma decimalValue_le_concat (digits : Bytes) (b : UInt8) :
    decimalValue digits ≤ decimalValue (digits ++ [b]) := by
  rw [decimalValue_concat]
  omega

/-- Up to the limit the field holds the number itself. -/
lemma versionOf_toInt {digits : Bytes} (h : ∀ b ∈ digits, IsDigit b)
    (hle : decimalValue digits ≤ 2147483599) :
    (versionOf digits).map Int32.toInt = some (decimalValue digits : ℤ) := by
  rw [versionOf_eq h, Option.map_some, Int32.toInt_ofNat_of_lt (by omega)]

/-- The values that a further digit leads to. -/
lemma accumulateValues_versionOf {digits : Bytes} {b : UInt8} (h : ∀ c ∈ digits, IsDigit c)
    (hb : IsDigit b) (hle : decimalValue digits ≤ 2147483599) :
    accumulateValues (versionOf digits) b =
      [some ((decimalValue digits : ℤ) * 10), some ((decimalValue (digits ++ [b]) : ℤ) + 48),
        some (decimalValue (digits ++ [b]) : ℤ)] := by
  have hfield : (Int32.ofNat (decimalValue digits)).toInt = decimalValue digits :=
    Int32.toInt_ofNat_of_lt (by omega)
  have hzero : charToInt (ch '0') = 48 := by decide
  have hle48 : 48 ≤ b.toNat := hb.1
  have hsum : (decimalValue digits : ℤ) * 10 + b.toNat = decimalValue (digits ++ [b]) + 48 := by
    rw [decimalValue_concat]
    omega
  rw [versionOf_eq h, accumulateValues, charToInt_of_isDigit hb, hzero]
  simp only [Option.map_some, hfield, hsum, add_sub_cancel_right]

/-- **One digit.**  The values are in the range of `int` if and only if the number with the new
digit does not exceed the limit. -/
lemma fits_accumulateValues {digits : Bytes} {b : UInt8} (h : ∀ c ∈ digits, IsDigit c)
    (hb : IsDigit b) (hle : decimalValue digits ≤ 2147483599) :
    (∀ v ∈ accumulateValues (versionOf digits) b, FitsInt v) ↔
      decimalValue (digits ++ [b]) ≤ 2147483599 := by
  have hmono : decimalValue digits * 10 ≤ decimalValue (digits ++ [b]) := by
    rw [decimalValue_concat]
    exact Nat.le_add_right _ _
  rw [accumulateValues_versionOf h hb hle]
  constructor
  · intro hfits
    obtain ⟨n, hn, -, hmax⟩ := hfits (some ((decimalValue (digits ++ [b]) : ℤ) + 48))
      (List.mem_cons_of_mem _ List.mem_cons_self)
    obtain rfl := Option.some.inj hn
    omega
  · intro hlimit v hv
    simp only [List.mem_cons, List.not_mem_nil, or_false] at hv
    rcases hv with rfl | rfl | rfl
    · exact ⟨_, rfl, by omega, by omega⟩
    · exact ⟨_, rfl, by omega, by omega⟩
    · exact ⟨_, rfl, by omega, by omega⟩

/-- A number above the limit has a shortest beginning above the limit. -/
lemma exists_overflowing_digit {digits : Bytes} (h : 2147483599 < decimalValue digits) :
    ∃ start b more, digits = start ++ b :: more ∧ decimalValue start ≤ 2147483599 ∧
      2147483599 < decimalValue (start ++ [b]) := by
  induction digits using List.reverseRecOn with
  | nil => cases h
  | append_singleton digits b ih =>
    by_cases hdigits : 2147483599 < decimalValue digits
    · obtain ⟨start, c, more, rfl, hstart, hover⟩ := ih hdigits
      exact ⟨start, c, more ++ [b], by simp, hstart, hover⟩
    · exact ⟨digits, b, [], rfl, not_lt.mp hdigits, h⟩

/-! ### The places of the numbers -/

/-- Behind the digits of a number the next digit is accumulated to it. -/
lemma IsNumberHead.consumeValues {head : Bytes} (hhead : IsNumberHead head) {digits : Bytes}
    (h : ∀ c ∈ digits, IsDigit c) {b : UInt8} (hb : IsDigit b) :
    ∃ q, Reads consumeStep (RequestParser.fresh, Request.empty) (head ++ digits) q ∧
      q.1.consumeValues q.2 b = accumulateValues (versionOf digits) b := by
  have hdigit : isDigit (charToInt b) = true := isDigit_charToInt.mpr hb
  have hdot : b ≠ ch '.' := ne_of_class hb (by decide)
  have hcr : b ≠ ch '\r' := ne_of_class hb (by decide)
  obtain ⟨method, uri, htarget, rfl | ⟨major, hmajor, rfl⟩⟩ := hhead
  · have hstart := reads_versionHead htarget.method htarget.uri
    by_cases hdigits : digits = []
    · subst hdigits
      refine ⟨_, hstart.trans (Reads.refl _), ?_⟩
      simp only [RequestParser.consumeValues, if_pos hdigit]
      rfl
    · refine ⟨_, hstart.trans (reads_major ⟨hdigits, h⟩ method uri), ?_⟩
      simp only [RequestParser.consumeValues, if_neg hdot, if_pos hdigit]
  · have hdotRead : Reads consumeStep
        (⟨.httpVersionMajor⟩, ⟨method, uri, versionOf major, some 0, []⟩) [ch '.']
        (⟨.httpVersionMinorStart⟩, ⟨method, uri, versionOf major, some 0, []⟩) := Reads.single rfl
    have hstart := (reads_versionHead htarget.method htarget.uri).trans
      ((reads_major hmajor method uri).trans hdotRead)
    by_cases hdigits : digits = []
    · subst hdigits
      refine ⟨_, hstart.trans (Reads.refl _), ?_⟩
      simp only [RequestParser.consumeValues, if_pos hdigit]
      rfl
    · refine ⟨_, hstart.trans (reads_minor ⟨hdigits, h⟩ method uri _), ?_⟩
      simp only [RequestParser.consumeValues, if_neg hcr, if_pos hdigit]

/-- A call of `consume` computes with the digits of a version number only. -/
lemma RequestProgress.consumeValues {s : Bytes} {q : RequestParser × Request} {b : UInt8}
    {v : Option ℤ} (hprogress : RequestProgress s q) (hv : v ∈ q.1.consumeValues q.2 b) :
    ∃ head digits, IsNumberHead head ∧ (∀ c ∈ digits, IsDigit c) ∧ IsDigit b ∧
      s = head ++ digits ∧ v ∈ accumulateValues (versionOf digits) b := by
  obtain ⟨⟨state⟩, req⟩ := q
  cases state with
  | httpVersionMajorStart =>
    obtain ⟨method, uri, htarget, rfl, hmajor, -⟩ := hprogress
    simp only [RequestParser.consumeValues] at hv hmajor
    split_ifs at hv with hdigit
    · rw [hmajor] at hv
      exact ⟨_, [], ⟨method, uri, htarget, Or.inl rfl⟩, by simp, isDigit_charToInt.mp hdigit,
        (List.append_nil _).symm, hv⟩
    · cases hv
  | httpVersionMajor =>
    obtain ⟨method, uri, major, htarget, hd, rfl, hmajor, -⟩ := hprogress
    simp only [RequestParser.consumeValues] at hv hmajor
    split_ifs at hv with hdot hdigit
    · cases hv
    · rw [hmajor] at hv
      exact ⟨_, major, ⟨method, uri, htarget, Or.inl rfl⟩, hd.2, isDigit_charToInt.mp hdigit, rfl,
        hv⟩
    · cases hv
  | httpVersionMinorStart =>
    obtain ⟨method, uri, major, htarget, hd, rfl, -, hminor⟩ := hprogress
    simp only [RequestParser.consumeValues] at hv hminor
    split_ifs at hv with hdigit
    · rw [hminor] at hv
      exact ⟨_, [], ⟨method, uri, htarget, Or.inr ⟨major, hd, rfl⟩⟩, by simp,
        isDigit_charToInt.mp hdigit, (List.append_nil _).symm, hv⟩
    · cases hv
  | httpVersionMinor =>
    obtain ⟨method, uri, major, minor, htarget, hd, hd', rfl, -, hminor⟩ := hprogress
    simp only [RequestParser.consumeValues] at hv hminor
    split_ifs at hv with hcr hdigit
    · cases hv
    · rw [hminor] at hv
      exact ⟨_, minor, ⟨method, uri, htarget, Or.inr ⟨major, hd, rfl⟩⟩, hd'.2,
        isDigit_charToInt.mp hdigit, by simp, hv⟩
    · cases hv
  | _ => cases hv

/-- The call that accepts a request is made behind a request line. -/
lemma afterRequestLine_of_good {u : Bytes} {q : RequestParser × Request} {b : UInt8}
    (h : RequestProgress u q) (hgood : (consumeStep q b).1 = .good) :
    AfterRequestLine u q.2 ∧ (consumeStep q b).2.2 = q.2 := by
  obtain ⟨⟨state⟩, req⟩ := q
  cases state with
  | expectingNewline3 => exact ⟨h, rfl⟩
  | _ =>
    simp only [consumeStep, RequestParser.consume] at hgood
    split_ifs at hgood

/-! ## The limit -/

/-- Within the limit all values are in the range of `int`. -/
lemma VersionsFit.fits {s : Bytes} (h : VersionsFit s) {v : Option ℤ}
    (hv : v ∈ RequestParser.fresh.parseValues Request.empty s) : FitsInt v := by
  obtain ⟨u, b, t, q, rfl, hreads, hv⟩ := mem_parseValues.mp hv
  obtain ⟨head, digits, hhead, hdigits, hb, rfl, hvalue⟩ :=
    (requestProgress_of_reads hreads).consumeValues hv
  have hall : ∀ c ∈ digits ++ [b], IsDigit c :=
    List.forall_mem_append.mpr ⟨hdigits, List.forall_mem_singleton.mpr hb⟩
  have hlimit : decimalValue (digits ++ [b]) ≤ 2147483599 :=
    h head (digits ++ [b]) t hhead hall (by simp)
  have hbefore := (decimalValue_le_concat digits b).trans hlimit
  exact (fits_accumulateValues hdigits hb hbefore).mpr hlimit v hvalue

/-- Within the limit the fields of an accepted request are the numbers of its request line. -/
lemma VersionsFit.exact {s : Bytes} (h : VersionsFit s)
    (hgood : (RequestParser.fresh.parse Request.empty s).result = .good) :
    ∃ method uri major minor rest, IsTarget method uri ∧ IsNumber major ∧ IsNumber minor ∧
      s = requestLineText method uri major minor ++ rest ∧
      let req := (RequestParser.fresh.parse Request.empty s).request
      req.httpVersionMajor.map Int32.toInt = some (decimalValue major : ℤ) ∧
        req.httpVersionMinor.map Int32.toInt = some (decimalValue minor : ℤ) := by
  rw [parse_eq_run] at hgood ⊢
  have hne : (run consumeStep (RequestParser.fresh, Request.empty) s).1 ≠ .indeterminate := by
    intro hundecided
    cases hgood.symm.trans hundecided
  obtain ⟨u, b, t, q, rfl, hreads, hrun⟩ := exists_reads_of_run_ne hne
  simp only [hrun] at hgood ⊢
  obtain ⟨⟨method, uri, major, minor, tail, htarget, hmajor, hminor, rfl, hmaj, hmin⟩, hrequest⟩ :=
    afterRequestLine_of_good (requestProgress_of_reads hreads) hgood
  have hmajorFits : decimalValue major ≤ 2147483599 := by
    refine h _ major ([ch '.'] ++ (minor ++ lineEnd) ++ (tail ++ b :: t))
      ⟨method, uri, htarget, Or.inl rfl⟩ hmajor.2 ?_
    simp [requestLineText]
  have hminorFits : decimalValue minor ≤ 2147483599 := by
    refine h _ minor (lineEnd ++ (tail ++ b :: t))
      ⟨method, uri, htarget, Or.inr ⟨major, hmajor, rfl⟩⟩ hminor.2 ?_
    simp [requestLineText]
  refine ⟨method, uri, major, minor, tail ++ b :: t, htarget, hmajor, hminor, by simp, ?_⟩
  simp only [hrequest, hmaj, hmin]
  exact ⟨versionOf_toInt hmajor.2 hmajorFits, versionOf_toInt hminor.2 hminorFits⟩

/-- Above the limit a value leaves the range of `int`. -/
lemma versionsFit_of_fits {s : Bytes}
    (h : ∀ v ∈ RequestParser.fresh.parseValues Request.empty s, FitsInt v) : VersionsFit s := by
  rintro head digits rest hhead hdigits rfl
  by_contra hover
  obtain ⟨start, b, more, rfl, hstart, hnext⟩ := exists_overflowing_digit (not_le.mp hover)
  have hstartDigits : ∀ c ∈ start, IsDigit c := fun c hc => hdigits c (List.mem_append_left _ hc)
  have hb : IsDigit b := hdigits b (List.mem_append_right _ List.mem_cons_self)
  obtain ⟨q, hreads, hvalues⟩ := hhead.consumeValues hstartDigits hb
  have hfits : ∀ v ∈ accumulateValues (versionOf start) b, FitsInt v := by
    intro v hv
    rw [← hvalues] at hv
    exact h v (mem_parseValues.mpr ⟨head ++ start, b, more ++ rest, q, by simp, hreads, hv⟩)
  exact absurd ((fits_accumulateValues hstartDigits hb hstart).mp hfits) (not_le.mpr hnext)

/-- **Version arithmetic.**  In any segmentation of any text, the evaluations of
`v * 10 + input - '0'` stay in the range of `int` and an accepted request has the numbers of its
request line, if and only if no number at the place of a version exceeds 2147483599. -/
theorem versions_exact_iff (segments : List Bytes) :
    VersionsExact segments ↔ VersionsFit segments.flatten := by
  obtain ⟨hresult, hrequest, hvalues⟩ :=
    parseSegments_eq RequestParser.fresh Request.empty segments
  constructor
  · intro h
    apply versionsFit_of_fits
    rw [← hvalues]
    exact h.fits
  · intro h
    refine ⟨fun v hv => h.fits (hvalues ▸ hv), fun hgood => ?_⟩
    rw [hrequest]
    exact h.exact (hresult ▸ hgood)

/-- The number 4294967297 is accepted as a major version and becomes 1. -/
theorem version_overflows :
    ¬ VersionsExact [bytes "GET / HTTP/4294", bytes "967297.0\r\n\r\n"] ∧
      (RequestParser.fresh.parseSegments Request.empty
        [bytes "GET / HTTP/4294", bytes "967297.0\r\n\r\n"]).1.result = .good ∧
      (RequestParser.fresh.parseSegments Request.empty
        [bytes "GET / HTTP/4294", bytes "967297.0\r\n\r\n"]).1.request.httpVersionMajor =
          some 1 := by
  refine ⟨?_, by decide +kernel, by decide +kernel⟩
  rintro ⟨hfits, -⟩
  obtain ⟨n, hn, -, hmax⟩ := hfits (some 4294967345) (by decide +kernel)
  obtain rfl := Option.some.inj hn
  omega

end Http

end AsioStudy
