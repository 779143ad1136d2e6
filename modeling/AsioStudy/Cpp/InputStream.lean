import AsioStudy.Cpp.Char

/-!
# Lines of an input stream

`std::istream::getline(s, n)`: it extracts characters until the stream ends, until a newline, which
is extracted but not stored, or until `n - 1` characters are stored, and these cases are tested in
this order.  In the last case, and when nothing was extracted, the stream fails.

`getline_append` says what it does with a line, depending on whether the line fits.
-/

namespace AsioStudy

/-- The class `std::istream`, whose characters are given. -/
structure InputStream where
  /-- The characters that have not been extracted. -/
  rest : Bytes
  /-- The bit `eofbit`. -/
  eofbit : Bool
  /-- The bit `failbit`. -/
  failbit : Bool
  deriving DecidableEq, Repr

namespace InputStream

/-- A stream from which nothing has been extracted. -/
def ofBytes (s : Bytes) : InputStream := ⟨s, false, false⟩

/-- `good()`. -/
def good (stream : InputStream) : Bool := !stream.eofbit && !stream.failbit

/-- Why the extraction of a line stops. -/
inductive Stop where
  | eof
  | newline
  | full
  deriving DecidableEq, Repr

/-- The characters that are stored when there is room for so many, the ones that are left, and why
the extraction stops. -/
def extractLine : ℕ → Bytes → Bytes × Bytes × Stop
  | _, [] => ([], [], .eof)
  | 0, c :: s => if c = ch '\n' then ([], s, .newline) else ([], c :: s, .full)
  | room + 1, c :: s =>
    if c = ch '\n' then ([], s, .newline)
    else (c :: (extractLine room s).1, (extractLine room s).2)

/-- `getline(s, n)`: the characters that are stored before the NUL, and the stream after it. -/
def getline (stream : InputStream) (n : ℕ) : Bytes × InputStream :=
  if stream.good then
    let (stored, rest, stop) := extractLine (n - 1) stream.rest
    (stored, ⟨rest, stop = .eof, stop = .full ∨ stop = .eof ∧ stored = []⟩)
  else ([], { stream with failbit := true })

/-- What is extracted of a line. -/
lemma extractLine_append {line : Bytes} (h : ch '\n' ∉ line) (room : ℕ) (s : Bytes) :
    extractLine room (line ++ ch '\n' :: s) =
      if line.length ≤ room then (line, s, .newline)
      else (line.take room, line.drop room ++ ch '\n' :: s, .full) := by
  induction line generalizing room with
  | nil => cases room <;> rfl
  | cons c line ih =>
    obtain ⟨hc, hline⟩ := not_or.mp (mt List.mem_cons.mpr h)
    have hne : ¬ c = ch '\n' := fun heq => hc heq.symm
    cases room with
    | zero =>
      rw [List.cons_append, extractLine, if_neg hne, if_neg (by simp)]
      rfl
    | succ room =>
      rw [List.cons_append, extractLine, if_neg hne, ih hline]
      simp only [List.length_cons, Nat.add_le_add_iff_right]
      split_ifs <;> rfl

/-- Every character is stored or left, except a newline at which the extraction stops. -/
lemma length_extractLine (room : ℕ) (s : Bytes) :
    (extractLine room s).1.length + (extractLine room s).2.1.length +
      (if (extractLine room s).2.2 = .newline then 1 else 0) = s.length := by
  induction s generalizing room with
  | nil => rw [extractLine]; rfl
  | cons c s ih =>
    cases room with
    | zero =>
      rw [extractLine]
      split_ifs <;> simp_all
    | succ room =>
      rw [extractLine]
      have hlength := ih room
      by_cases hc : c = ch '\n'
      · rw [if_pos hc]
        simp
      · rw [if_neg hc]
        simp only [List.length_cons]
        omega

/-- A stream that does not fail has lost a character. -/
lemma length_rest_getline_lt {stream : InputStream} {n : ℕ}
    (h : (stream.getline n).2.failbit = false) :
    (stream.getline n).2.rest.length < stream.rest.length := by
  unfold getline at h ⊢
  split_ifs at h ⊢ with hgood
  · have hlength := length_extractLine (n - 1) stream.rest
    rcases hextract : extractLine (n - 1) stream.rest with ⟨stored, rest, stop⟩
    rw [hextract] at h hlength
    cases stop with
    | eof =>
      -- something was stored
      have hstored : stored ≠ [] := by simpa using h
      have hpos := List.length_pos_iff.mpr hstored
      simp at hlength
      show rest.length < _
      omega
    | newline =>
      simp at hlength
      show rest.length < _
      omega
    | full => simp at h

/-- **One line.**  When a line fits, it is stored and the stream is left behind its newline;
otherwise the stream fails. -/
lemma getline_append {line : Bytes} (h : ch '\n' ∉ line) (n : ℕ) (s : Bytes) :
    (ofBytes (line ++ ch '\n' :: s)).getline n =
      if line.length ≤ n - 1 then (line, ofBytes s)
      else (line.take (n - 1), ⟨line.drop (n - 1) ++ ch '\n' :: s, false, true⟩) := by
  have hgood : (ofBytes (line ++ ch '\n' :: s)).good = true := rfl
  rw [getline, if_pos hgood]
  simp only [ofBytes, extractLine_append h]
  split_ifs <;> simp

/-- At the end of the stream, it fails. -/
lemma failbit_getline_nil (n : ℕ) : ((ofBytes []).getline n).2.failbit = true := by
  simp [getline, ofBytes, good, extractLine]

end InputStream

end AsioStudy
