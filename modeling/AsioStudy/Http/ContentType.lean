import AsioStudy.Http.RequestHandler

/-!
# The type of the file that is sent

`handle_request` takes the extension from the decoded path, a `std::string`, and opens the C string
of the full path.  The two differ when the path contains a NUL, which a target can bring about with
`%00`: then the extension is the one behind the NUL and the file is the one before it.

`content_type_iff` says when the `Content-Type` of a 200 reply is the type of the opened file.
-/

namespace AsioStudy

namespace Http

open LexicalPath

/-- The extension of a file name: the text after the last dot of its last component, or nothing if
there is no dot in that component. -/
def fileExtension (path : Bytes) : Bytes := extension (ch '/') (ch '.') path

/-- The values of the `Content-Type` headers of a reply. -/
def contentTypes (rep : Reply) : List Bytes :=
  (rep.headers.filter fun h => h.name == bytes "Content-Type").map Header.value

/-- If the handler answers 200 then it has opened a file, and its only `Content-Type` is the type of
that file. -/
def DescribesOpened (docRoot : Bytes) (fs : FileSystem) (req : Request) (rep : Reply) : Prop :=
  (handleRequest docRoot fs req rep).rep.status = some .ok →
    ∃ path, (handleRequest docRoot fs req rep).opened = some path ∧
      contentTypes (handleRequest docRoot fs req rep).rep = [extensionToType (fileExtension path)]

/-! ## Extensions of the decoded path and of the full path -/

/-- On a path with a slash, the handler computes the extension. -/
lemma pathExtension_eq {path : Bytes} (h : ch '/' ∈ path) :
    pathExtension path = fileExtension path := by
  obtain ⟨a, b, rfl, hslash⟩ := exists_append_cons_of_mem h
  have hcomponent : afterLast (ch '/') (a ++ ch '/' :: b) = b := by
    rw [List.append_cons, afterLast_append, if_neg hslash]
    simp [afterLast]
  unfold pathExtension fileExtension extension
  simp only [hcomponent, findLastOf_append_cons hslash]
  by_cases hdot : ch '.' ∈ b
  · obtain ⟨x, y, rfl, hy⟩ := exists_append_cons_of_mem hdot
    have hpath : a ++ ch '/' :: (x ++ ch '.' :: y) = (a ++ ch '/' :: x) ++ ch '.' :: y := by
      rw [List.append_assoc, List.cons_append]
    have hafter : afterLast (ch '.') (x ++ ch '.' :: y) = y := by
      rw [List.append_cons, afterLast_append, if_neg hy]
      simp [afterLast]
    rw [if_pos hdot, hafter, hpath, findLastOf_append_cons hy]
    simp only
    rw [if_pos (by simp), ← List.drop_drop, List.drop_left, List.drop_one, List.tail_cons]
  · -- the last dot is in a component before the last one
    have hnotMem : ch '.' ∉ ch '/' :: b := by
      rw [List.mem_cons, not_or]
      exact ⟨by decide, hdot⟩
    rw [if_neg hdot, findLastOf_append_of_notMem hnotMem]
    cases hfind : findLastOf (ch '.') a with
    | none => rfl
    | some j =>
      have hlt := lt_length_of_findLastOf hfind
      exact if_neg (by omega)

/-- No extension of the table contains a NUL. -/
lemma extensionToType_of_zero_mem {e : Bytes} (h : 0 ∈ e) :
    extensionToType e = bytes "text/plain" := by
  have hnone : mappings.find? (fun m => m.1 == e) = none := by
    rw [List.find?_eq_none]
    intro m hm heq
    have hkeys : ∀ m ∈ mappings, 0 ∉ m.1 := by decide
    exact hkeys m hm (beq_iff_eq.mp heq ▸ h)
  rw [extensionToType, hnone]

/-- The type of a path with a NUL is the type of the part behind it. -/
lemma extensionToType_append_zero (u v : Bytes) :
    extensionToType (fileExtension (u ++ 0 :: v)) = extensionToType (fileExtension v) := by
  by_cases hslash : ch '/' ∈ v
  · rw [fileExtension, List.append_cons, extension_append_of_mem hslash, ← fileExtension]
  · have hcomponent : afterLast (ch '/') v = v := by
      refine List.rtakeWhile_eq_self_iff.mpr fun x hx => decide_eq_true fun heq => ?_
      exact hslash (heq ▸ hx)
    have hcomponent' : afterLast (ch '/') (u ++ 0 :: v) = afterLast (ch '/') u ++ 0 :: v := by
      rw [afterLast_append, if_neg]
      rw [List.mem_cons, not_or]
      exact ⟨by decide, hslash⟩
    have hzero : ch '.' ≠ 0 := by decide
    unfold fileExtension extension
    simp only [hcomponent, hcomponent']
    by_cases hdot : ch '.' ∈ v
    · rw [if_pos (by simp [hdot]), if_pos hdot, List.append_cons, afterLast_append, if_pos hdot]
    · -- an extension before the NUL would contain it
      have hplain : extensionToType [] = bytes "text/plain" := by decide
      rw [if_neg hdot, hplain]
      split_ifs with hbefore
      · apply extensionToType_of_zero_mem
        rw [afterLast_append, if_neg (by simp [hdot, hzero])]
        exact List.mem_append_right _ List.mem_cons_self
      · exact hplain

/-- A string without NUL, and one that is cut at its first NUL. -/
lemma cString_cases (s : Bytes) :
    (0 ∉ s ∧ cString s = s) ∨ ∃ u v, s = u ++ 0 :: v ∧ 0 ∉ u ∧ cString s = u := by
  by_cases h : 0 ∈ s
  · obtain ⟨u, v, rfl, hu⟩ := List.eq_append_cons_of_mem h
    exact Or.inr ⟨u, v, rfl, hu, (cString_append_zero u v).trans (cString_eq_self_iff.mpr hu)⟩
  · exact Or.inl ⟨h, cString_eq_self_iff.mpr h⟩

/-! ## When the type is right -/

/-- The type that a reply with the two usual headers carries. -/
lemma contentTypes_contentHeaders (status : Option StatusType) (n : ℕ) (type content : Bytes) :
    contentTypes ⟨status, contentHeaders n type, content⟩ = [type] := by
  have hlength : (bytes "Content-Length" == bytes "Content-Type") = false := by decide
  simp [contentTypes, contentHeaders, hlength]

/-- The type that the handler computes is the type of the full path. -/
lemma extensionToType_servedPath (docRoot : Bytes) {requestPath : Bytes}
    (h : IsServable requestPath) :
    extensionToType (pathExtension (servedPath requestPath)) =
      extensionToType (fileExtension (docRoot ++ servedPath requestPath)) := by
  obtain ⟨path, hpath⟩ := exists_servedPath_eq_cons h.1
  have hslash : ch '/' ∈ servedPath requestPath := by
    rw [hpath]
    exact List.mem_cons_self
  rw [pathExtension_eq hslash, fileExtension, fileExtension, extension_append_of_mem hslash]

/-- **The type of the opened file.**  The `Content-Type` of a 200 reply is the type of the file that
was opened if and only if, in case the full path contains a NUL and the part before the first NUL
can be opened, this part and the part behind the NUL have extensions of the same type. -/
theorem content_type_iff (docRoot : Bytes) (fs : FileSystem) (req : Request) (rep : Reply) :
    DescribesOpened docRoot fs req rep ↔
      ∀ requestPath u v, urlDecode req.uri = (true, requestPath) → IsServable requestPath →
        docRoot ++ servedPath requestPath = u ++ 0 :: v → 0 ∉ u → (fs u).isSome = true →
          extensionToType (fileExtension u) = extensionToType (fileExtension v) := by
  constructor
  · intro h requestPath u v hdecode hserv hfull hu hopens
    have hpath : cString (docRoot ++ servedPath requestPath) = u := by
      rw [hfull, cString_append_zero, cString_eq_self_iff.mpr hu]
    obtain ⟨file, hfile⟩ := Option.isSome_iff_exists.mp hopens
    rw [← hpath] at hfile
    have houtcome := handleRequest_of_opened rep hdecode hserv hfile
    unfold DescribesOpened at h
    rw [houtcome] at h
    obtain ⟨path, hopened, htype⟩ := h rfl
    rw [contentTypes_contentHeaders, extensionToType_servedPath docRoot hserv, hfull,
      extensionToType_append_zero] at htype
    obtain rfl := (Option.some.inj hopened).symm.trans hpath
    exact (List.singleton_inj.mp htype).symm
  · intro h hok
    rcases handleRequest_cases docRoot fs req rep with
      hbad | ⟨requestPath, path, hdecode, hserv, hpath, ⟨-, hnone⟩ | ⟨file, hfile, hsome⟩⟩
    · rw [hbad] at hok
      cases hok
    · rw [hnone] at hok
      cases hok
    · refine ⟨path, by rw [hsome], ?_⟩
      rw [hsome, contentTypes_contentHeaders, extensionToType_servedPath docRoot hserv,
        List.singleton_inj]
      rcases cString_cases (docRoot ++ servedPath requestPath) with
        ⟨-, hself⟩ | ⟨u, v, hfull, hu, hcut⟩
      · rw [hpath, hself]
      · rw [hpath, hcut] at hfile
        rw [hpath, hcut, hfull, extensionToType_append_zero]
        exact (h requestPath u v hdecode hserv hfull hu (by rw [hfile]; rfl)).symm

/-- A target in which an encoded NUL stands between two extensions: an HTML file is sent as an
image. -/
theorem content_type_of_other_file :
    ¬ DescribesOpened (bytes "/srv") (readableFiles fun _ => some [])
      { Request.empty with uri := bytes "/a.html%00.png" } Reply.empty := by
  intro h
  have hdecode : urlDecode (bytes "/a.html%00.png") =
      (true, bytes "/a.html" ++ 0 :: bytes ".png") := by decide +kernel
  have hserv : IsServable (bytes "/a.html" ++ 0 :: bytes ".png") := by
    unfold IsServable
    decide +kernel
  have hpath : cString (bytes "/srv" ++ servedPath (bytes "/a.html" ++ 0 :: bytes ".png")) =
      bytes "/srv/a.html" := by decide +kernel
  have hcomputed : extensionToType (pathExtension
      (servedPath (bytes "/a.html" ++ 0 :: bytes ".png"))) = bytes "image/png" := by decide +kernel
  have hopened : extensionToType (fileExtension (bytes "/srv/a.html")) = bytes "text/html" := by
    decide +kernel
  have hfile : readableFiles (fun _ => some [])
      (cString (bytes "/srv" ++ servedPath (bytes "/a.html" ++ 0 :: bytes ".png"))) =
        some ⟨[], none⟩ := rfl
  have houtcome : handleRequest (bytes "/srv") (readableFiles fun _ => some [])
      { Request.empty with uri := bytes "/a.html%00.png" } Reply.empty = _ :=
    handleRequest_of_opened Reply.empty hdecode hserv hfile
  unfold DescribesOpened at h
  rw [houtcome] at h
  obtain ⟨path, heq, htype⟩ := h rfl
  obtain rfl := (Option.some.inj heq).symm.trans hpath
  rw [contentTypes_contentHeaders, hcomputed, hopened] at htype
  revert htype
  decide +kernel

end Http

end AsioStudy
