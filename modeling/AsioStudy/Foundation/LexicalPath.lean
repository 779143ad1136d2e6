import Mathlib

/-!
# Lexical resolution of paths

A path is a list of symbols cut into components at a separator.  Resolved lexically, an empty
component and the component of one dot stay where they are, the component of two dots goes one
level up and any other component goes one level down.  A path never climbs above the directory it
starts from when no prefix of its components leads to a negative level; for this it is enough that
the two-dot word occurs nowhere in it (`neverClimbs_of_not_infix`).

The extension of a path is the text after the last dot of its last component.
-/

namespace AsioStudy

namespace LexicalPath

variable {α : Type*}

/-- A piece of an intercalation occurs in it. -/
lemma infix_intercalate {sep u : List α} {pieces : List (List α)} (hu : u ∈ pieces) :
    u <:+: sep.intercalate pieces := by
  induction pieces with
  | nil => exact absurd hu List.not_mem_nil
  | cons v pieces ih =>
    cases pieces with
    | nil =>
      rw [List.mem_singleton.mp hu, List.intercalate_singleton]
    | cons v' pieces =>
      rw [List.intercalate_cons_cons]
      rcases List.mem_cons.mp hu with rfl | hu
      · exact ⟨[], sep ++ sep.intercalate (v' :: pieces), by simp⟩
      · exact (ih hu).trans (List.suffix_append _ _).isInfix

/-- Two equal symbols that were not next to each other in two strings are not next to each other in
their concatenation when the first string ends in something else. -/
lemma not_pair_infix_append {d : α} {u v : List α} (hu : ¬ [d, d] <:+: u) (hv : ¬ [d, d] <:+: v)
    (hlast : u.getLast? ≠ some d) : ¬ [d, d] <:+: u ++ v := by
  intro h
  rcases List.infix_append_iff_ne_nil.mp h with h | h | ⟨x, y, hx, hy, hxy, hxu, -⟩
  · exact hu h
  · exact hv h
  · -- the pair straddles the boundary, so that its first symbol ends `u`
    obtain ⟨a, x, rfl⟩ := List.exists_cons_of_ne_nil hx
    obtain ⟨c, y, rfl⟩ := List.exists_cons_of_ne_nil hy
    have hlen := congrArg List.length hxy
    simp only [List.length_cons, List.length_append, List.length_nil] at hlen
    have hx0 : x = [] := List.length_eq_zero_iff.mp (by omega)
    subst hx0
    have ha : d = a := by
      simpa using congrArg List.head? hxy
    obtain ⟨t, rfl⟩ := hxu
    exact hlast (by simp [ha])

variable [DecidableEq α]

/-- The components of a path: the pieces between the separators. -/
def components (sep : α) (path : List α) : List (List α) := path.splitOn sep

/-- The level below the starting directory after one more component. -/
def move (dot : α) (level : ℤ) (component : List α) : ℤ :=
  if component = [dot, dot] then level - 1
  else if component = [] ∨ component = [dot] then level
  else level + 1

/-- The levels reached after each prefix of the components. -/
def levels (sep dot : α) (path : List α) : List ℤ :=
  (components sep path).scanl (move dot) 0

/-- The path never leads above the directory it starts from, at any point of its resolution. -/
def NeverClimbs (sep dot : α) (path : List α) : Prop :=
  ∀ level ∈ levels sep dot path, 0 ≤ level

/-- A component occurs in the path. -/
lemma infix_of_mem_components {sep : α} {path u : List α} (hu : u ∈ components sep path) :
    u <:+: path := by
  have hjoin : [sep].intercalate (path.splitOn sep) = path := List.intercalate_splitOn sep
  have hpart : u <:+: [sep].intercalate (path.splitOn sep) := infix_intercalate hu
  rwa [hjoin] at hpart

/-- Without two-dot components the level never decreases. -/
lemma nonneg_of_mem_scanl {dot : α} {pieces : List (List α)} (h : [dot, dot] ∉ pieces)
    {start level : ℤ} (hstart : 0 ≤ start) (hlevel : level ∈ pieces.scanl (move dot) start) :
    0 ≤ level := by
  induction pieces generalizing start with
  | nil =>
    rw [List.scanl_nil, List.mem_singleton] at hlevel
    exact hlevel ▸ hstart
  | cons u pieces ih =>
    rw [List.mem_cons, not_or] at h
    rw [List.scanl_cons] at hlevel
    have hmove : 0 ≤ move dot start u := by
      rw [move, if_neg (Ne.symm h.1)]
      split <;> omega
    rcases List.mem_cons.mp hlevel with rfl | hlevel
    · exact hstart
    · exact ih h.2 hmove hlevel

/-- A path in which two dots never occur next to each other never climbs. -/
theorem neverClimbs_of_not_infix {sep dot : α} {path : List α} (h : ¬ [dot, dot] <:+: path) :
    NeverClimbs sep dot path := by
  intro level hlevel
  exact nonneg_of_mem_scanl (fun hmem => h (infix_of_mem_components hmem)) le_rfl hlevel

/-! ## Extensions -/

/-- The text after the last `c`, all of it if there is none. -/
def afterLast (c : α) (s : List α) : List α := s.rtakeWhile (· ≠ c)

/-- The text after the last dot of the last component of a path, or nothing if there is no dot in
that component. -/
def extension (sep dot : α) (path : List α) : List α :=
  let component := afterLast sep path
  if dot ∈ component then afterLast dot component else []

/-- What is after the last `c` in a concatenation. -/
lemma afterLast_append (c : α) (u v : List α) :
    afterLast c (u ++ v) = if c ∈ v then afterLast c v else afterLast c u ++ v := by
  unfold afterLast
  induction v using List.reverseRecOn with
  | nil => simp
  | append_singleton v x ih =>
    rw [← List.append_assoc]
    by_cases hx : x = c
    · subst hx
      rw [List.rtakeWhile_concat_neg _ _ _ (by simp), List.rtakeWhile_concat_neg _ _ _ (by simp),
        if_pos (by simp)]
    · have hmem : c ∈ v ++ [x] ↔ c ∈ v := by simp [Ne.symm hx]
      rw [List.rtakeWhile_concat_pos _ _ _ (by simpa using hx),
        List.rtakeWhile_concat_pos _ _ _ (by simpa using hx), ih, if_congr hmem rfl rfl]
      split_ifs
      · rfl
      · rw [List.append_assoc]

/-- The extension of a path is the one of its end, provided that it has a separator. -/
lemma extension_append_of_mem {sep dot : α} {v : List α} (h : sep ∈ v) (u : List α) :
    extension sep dot (u ++ v) = extension sep dot v := by
  unfold extension
  rw [afterLast_append, if_pos h]

end LexicalPath

end AsioStudy
