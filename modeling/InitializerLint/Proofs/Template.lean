import InitializerLint.Rule
import Mathlib.Data.List.Basic

/-! Templates cut at their placeholders. To fill in a name is to join the pieces by it. The cut is
made in the template alone, so a name is put in as it is, whatever it holds. -/
namespace InitializerLint

def placeholder : List Char := ['{', '0', '}']

/-- A template cut at its placeholders, from left to right. -/
inductive CutsInto : List Char → List (List Char) → Prop
  | last {cs : List Char} : ¬placeholder <:+: cs → CutsInto cs [cs]
  | next {piece rest : List Char} {pieces : List (List Char)} : ¬placeholder <:+: piece →
      CutsInto rest pieces → CutsInto (piece ++ (placeholder ++ rest)) (piece :: pieces)

section piece

theorem not_placeholder_nil : ¬placeholder <:+: [] := by simp [placeholder]

variable {c : Char} {cs piece rest : List Char}

/-- A placeholder that begins in a piece would end in it: no other part of a placeholder is an
opening brace, so two of them cannot overlap. -/
theorem not_opens_placeholder (h : ¬placeholder <:+: c :: piece) :
    ¬placeholder <+: c :: (piece ++ (placeholder ++ rest)) := by
  intro hprefix
  match piece, h, hprefix with
  | [], _, hprefix => simp [placeholder] at hprefix
  | [d], _, hprefix => simp [placeholder] at hprefix
  | d :: d' :: ds, h, hprefix =>
    obtain ⟨rfl, rfl, rfl⟩ : '{' = c ∧ '0' = d ∧ '}' = d' := by simpa [placeholder] using hprefix
    exact h (List.prefix_append placeholder ds).isInfix

theorem fillTemplate_cons (name : List Char) (h : ¬placeholder <+: c :: cs) :
    fillTemplate name (c :: cs) = c :: fillTemplate name cs := by
  rw [fillTemplate]
  intro rest hc hcs
  exact h ⟨rest, by rw [hc, hcs]; rfl⟩

theorem fillTemplate_of_piece (name : List Char) (h : ¬placeholder <:+: piece) :
    fillTemplate name piece = piece := by
  induction piece with
  | nil => rfl
  | cons c piece ih =>
    rw [List.infix_cons_iff, not_or] at h
    rw [fillTemplate_cons name h.1, ih h.2]

theorem fillTemplate_append (name : List Char) (h : ¬placeholder <:+: piece) :
    fillTemplate name (piece ++ (placeholder ++ rest)) =
      piece ++ (name ++ fillTemplate name rest) := by
  induction piece with
  | nil => rfl
  | cons c piece ih =>
    have hpiece : ¬placeholder <:+: piece := fun hin => h (List.infix_cons_iff.mpr (.inr hin))
    rw [List.cons_append, fillTemplate_cons name (not_opens_placeholder h), ih hpiece,
      List.cons_append]

/-- The piece in front of the first placeholder is the only one that can stand there. -/
theorem append_placeholder_inj {piece' rest' : List Char} (h : ¬placeholder <:+: piece)
    (h' : ¬placeholder <:+: piece')
    (heq : piece ++ (placeholder ++ rest) = piece' ++ (placeholder ++ rest')) :
    piece = piece' ∧ rest = rest' := by
  induction piece generalizing piece' with
  | nil =>
    cases piece' with
    | nil => exact ⟨rfl, List.append_cancel_left heq⟩
    | cons c' piece' => exact absurd ⟨rest, heq⟩ (not_opens_placeholder h')
  | cons c piece ih =>
    cases piece' with
    | nil => exact absurd ⟨rest', heq.symm⟩ (not_opens_placeholder h)
    | cons c' piece' =>
      rw [List.infix_cons_iff, not_or] at h h'
      obtain ⟨rfl, htail⟩ := List.cons_eq_cons.mp heq
      obtain ⟨rfl, hrest⟩ := ih h.2 h'.2 htail
      exact ⟨rfl, hrest⟩

end piece

namespace CutsInto

variable {cs : List Char} {pieces pieces' : List (List Char)}

theorem ne_nil (h : CutsInto cs pieces) : pieces ≠ [] := by cases h <;> exact List.cons_ne_nil _ _

theorem fillTemplate_eq (h : CutsInto cs pieces) (name : List Char) :
    fillTemplate name cs = name.intercalate pieces := by
  induction h with
  | last hpiece => rw [fillTemplate_of_piece name hpiece, List.intercalate_singleton]
  | next hpiece hrest ih =>
    rw [fillTemplate_append name hpiece, ih, List.intercalate_cons_of_ne_nil hrest.ne_nil,
      List.append_assoc]

theorem unique (h : CutsInto cs pieces) (h' : CutsInto cs pieces') : pieces = pieces' := by
  induction h generalizing pieces' with
  | @last cs hcs =>
    cases h' with
    | last _ => rfl
    | @next piece rest _ _ _ => exact absurd ⟨piece, rest, List.append_assoc ..⟩ hcs
  | @next piece rest _ hpiece hrest ih =>
    generalize heq : piece ++ (placeholder ++ rest) = cs at h'
    cases h' with
    | last hcs => exact absurd ⟨piece, rest, (List.append_assoc ..).trans heq⟩ hcs
    | next hpiece' hrest' =>
      obtain ⟨rfl, rfl⟩ := append_placeholder_inj hpiece hpiece' heq
      rw [ih hrest']

theorem nil : CutsInto [] [[]] := .last not_placeholder_nil

theorem placeholder_append (h : CutsInto cs pieces) : CutsInto (placeholder ++ cs) ([] :: pieces) :=
  @next [] cs pieces not_placeholder_nil h

/-- A character that begins no placeholder belongs to the first piece. -/
theorem exists_cons (h : CutsInto cs pieces) {c : Char} (hc : ¬placeholder <+: c :: cs) :
    ∃ pieces', CutsInto (c :: cs) pieces' := by
  cases h with
  | last hpiece => exact ⟨_, .last fun hin => (List.infix_cons_iff.mp hin).elim hc hpiece⟩
  | @next piece rest pieces hpiece hrest =>
    have hpiece' : ¬placeholder <:+: c :: piece := by
      intro hin
      obtain hbegins | hin := List.infix_cons_iff.mp hin
      · exact hc (hbegins.trans (List.prefix_append (c :: piece) _))
      · exact hpiece hin
    exact ⟨(c :: piece) :: pieces, CutsInto.next hpiece' hrest⟩

theorem exists_cutsInto (cs : List Char) : ∃ pieces, CutsInto cs pieces := by
  induction cs using fillTemplate.induct with
  | case1 rest ih =>
    obtain ⟨pieces, hrest⟩ := ih
    exact ⟨[] :: pieces, hrest.placeholder_append⟩
  | case2 c cs hno ih =>
    obtain ⟨pieces, hcs⟩ := ih
    apply hcs.exists_cons
    rintro ⟨rest, heq⟩
    obtain ⟨hc, hcs⟩ := List.cons_eq_cons.mp heq
    exact hno rest hc.symm hcs.symm
  | case3 => exact ⟨[[]], nil⟩

end CutsInto

/-- A message depends on its template through the pieces. -/
theorem RuleDescriptor.toList_formatMessage {r : RuleDescriptor} {pieces : List (List Char)}
    (h : CutsInto r.messageFormat.toList pieces) (name : String) :
    (r.formatMessage name).toList = name.toList.intercalate pieces := by
  rw [formatMessage, String.toList_ofList, h.fillTemplate_eq]

end InitializerLint
