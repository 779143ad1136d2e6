import Mathlib

/-!
# Patterns in a text of lines

A pattern that shares no item with the text between two lines cannot extend over the end of a line.
It occurs in a text of lines if and only if it occurs in one of the lines (`infix_joinLines_iff`).
A text is split in one way only by the first or by the last item with a property.
-/

namespace AsioStudy

namespace Lines

variable {α : Type*}

/-- The text of some lines, each of which is followed by `sep`. -/
def joinLines (sep : List α) (lines : List (List α)) : List α := lines.flatMap (· ++ sep)

/-- A line and further lines. -/
lemma joinLines_cons (sep line : List α) (lines : List (List α)) :
    joinLines sep (line :: lines) = line ++ (sep ++ joinLines sep lines) := by
  rw [joinLines, List.flatMap_cons, List.append_assoc]
  rfl

/-- Some lines and further lines. -/
lemma joinLines_append (sep : List α) (lines lines' : List (List α)) :
    joinLines sep (lines ++ lines') = joinLines sep lines ++ joinLines sep lines' :=
  List.flatMap_append

/-- A text of lines ends with the last item of `sep`. -/
lemma exists_joinLines_eq_concat (sep : List α) (c : α) {lines : List (List α)} (h : lines ≠ []) :
    ∃ u, joinLines (sep ++ [c]) lines = u ++ [c] := by
  obtain ⟨init, last, rfl⟩ := (List.eq_nil_or_concat lines).resolve_left h
  refine ⟨joinLines (sep ++ [c]) init ++ (last ++ sep), ?_⟩
  rw [List.concat_eq_append, joinLines_append]
  simp [joinLines]

/-- A pattern at the beginning ends before an item that it does not contain. -/
lemma prefix_of_prefix_append_cons {pat u v : List α} {c : α} (hc : c ∉ pat)
    (h : pat <+: u ++ c :: v) : pat <+: u := by
  induction u generalizing pat with
  | nil =>
    rcases List.prefix_cons_iff.mp h with rfl | ⟨t, rfl, -⟩
    · exact List.nil_prefix
    · exact absurd List.mem_cons_self hc
  | cons a u ih =>
    rcases List.prefix_cons_iff.mp h with rfl | ⟨t, rfl, ht⟩
    · exact List.nil_prefix
    · exact (List.prefix_cons_inj a).mpr (ih (fun hmem => hc (List.mem_cons_of_mem a hmem)) ht)

/-- A pattern lies on one side of an item that it does not contain. -/
lemma infix_append_cons_iff {pat u v : List α} {c : α} (hc : c ∉ pat) (hpat : pat ≠ []) :
    pat <:+: u ++ c :: v ↔ pat <:+: u ∨ pat <:+: v := by
  constructor
  · intro h
    induction u with
    | nil =>
      rcases List.infix_cons_iff.mp h with hpre | hin
      · have hnil := List.prefix_nil.mp (prefix_of_prefix_append_cons (u := []) hc hpre)
        exact absurd hnil hpat
      · exact Or.inr hin
    | cons a u ih =>
      rcases List.infix_cons_iff.mp h with hpre | hin
      · exact Or.inl (prefix_of_prefix_append_cons (u := a :: u) hc hpre).isInfix
      · exact (ih hin).imp_left List.infix_cons
  · rintro (h | h)
    · exact h.trans (List.prefix_append _ _).isInfix
    · exact h.trans ⟨u ++ [c], [], by simp⟩

/-- A pattern lies on one side of a text with which it shares no item. -/
lemma infix_append_append_iff {pat sep : List α} (hpat : pat ≠ []) (hsep : ∀ c ∈ sep, c ∉ pat)
    (hne : sep ≠ []) (u v : List α) : pat <:+: u ++ (sep ++ v) ↔ pat <:+: u ∨ pat <:+: v := by
  induction sep generalizing u with
  | nil => exact absurd rfl hne
  | cons c sep ih =>
    obtain ⟨hc, hrest⟩ := List.forall_mem_cons.mp hsep
    rw [List.cons_append, infix_append_cons_iff hc hpat]
    apply or_congr_right
    cases sep with
    | nil => exact Iff.rfl
    | cons d sep =>
      have hiff := ih hrest (List.cons_ne_nil d sep) []
      rw [List.nil_append, List.infix_nil] at hiff
      exact hiff.trans (or_iff_right hpat)

/-- **Patterns in lines.**  A pattern that shares no item with `sep` occurs in a text of lines if
and only if it occurs in a line. -/
theorem infix_joinLines_iff {pat sep : List α} (hpat : pat ≠ []) (hsep : ∀ c ∈ sep, c ∉ pat)
    (hne : sep ≠ []) (lines : List (List α)) :
    pat <:+: joinLines sep lines ↔ ∃ line ∈ lines, pat <:+: line := by
  induction lines with
  | nil => simp [joinLines, hpat]
  | cons line lines ih =>
    rw [joinLines_cons, infix_append_append_iff hpat hsep hne, ih]
    simp

/-- The first item with a property splits a text in one way only. -/
lemma split_first_unique {Q : α → Prop} {u u' v v' : List α} {a a' : α}
    (h : u ++ a :: v = u' ++ a' :: v') (hu : ∀ x ∈ u, ¬ Q x) (hu' : ∀ x ∈ u', ¬ Q x) (ha : Q a)
    (ha' : Q a') : u = u' ∧ a = a' ∧ v = v' := by
  induction u generalizing u' with
  | nil =>
    cases u' with
    | nil => exact ⟨rfl, List.cons.inj h⟩
    | cons x u' =>
      obtain ⟨rfl, -⟩ := List.cons.inj h
      exact absurd ha (hu' a List.mem_cons_self)
  | cons x u ih =>
    cases u' with
    | nil =>
      obtain ⟨rfl, -⟩ := List.cons.inj h
      exact absurd ha' (hu x List.mem_cons_self)
    | cons x' u' =>
      obtain ⟨rfl, htail⟩ := List.cons.inj h
      obtain ⟨rfl, heq⟩ := ih htail (List.forall_mem_cons.mp hu).2 (List.forall_mem_cons.mp hu').2
      exact ⟨rfl, heq⟩

/-- So does the last one. -/
lemma split_last_unique {Q : α → Prop} {u u' v v' : List α} {a a' : α}
    (h : u ++ a :: v = u' ++ a' :: v') (hv : ∀ x ∈ v, ¬ Q x) (hv' : ∀ x ∈ v', ¬ Q x) (ha : Q a)
    (ha' : Q a') : u = u' ∧ a = a' ∧ v = v' := by
  have hreverse : v.reverse ++ a :: u.reverse = v'.reverse ++ a' :: u'.reverse := by
    simpa using congrArg List.reverse h
  obtain ⟨hveq, haeq, hueq⟩ := split_first_unique hreverse (by simpa using hv) (by simpa using hv')
    ha ha'
  exact ⟨List.reverse_injective hueq, haeq, List.reverse_injective hveq⟩

end Lines

end AsioStudy
