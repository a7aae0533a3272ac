import Mathlib.Data.List.TakeWhile

/-! What stands behind the last mark of a text. -/
namespace InitializerLint.Text

variable {mark : Char} {front back cs : List Char}

def lastPart (mark : Char) (cs : List Char) : List Char :=
  (cs.reverse.takeWhile (· ≠ mark)).reverse

theorem reverse_lastPart (mark : Char) (cs : List Char) :
    cs.reverse.takeWhile (· ≠ mark) = (lastPart mark cs).reverse := (List.reverse_reverse _).symm

theorem lastPart_suffix (mark : Char) (cs : List Char) : lastPart mark cs <:+ cs := by
  have hprefix : cs.reverse.takeWhile (· ≠ mark) <+: cs.reverse := List.takeWhile_prefix _
  rw [← List.reverse_suffix, List.reverse_reverse] at hprefix
  exact hprefix

theorem lastPart_append (h : mark ∉ back) (front : List Char) :
    lastPart mark (front ++ back) = lastPart mark front ++ back := by
  have hback : ∀ c ∈ back.reverse, decide (c ≠ mark) = true := by
    intro c hc
    have hmem : c ∈ back := List.mem_reverse.mp hc
    exact decide_eq_true fun he => h (he ▸ hmem)
  rw [lastPart, List.reverse_append, List.takeWhile_append_of_pos hback, List.reverse_append,
    List.reverse_reverse, lastPart]

theorem lastPart_of_notMem (h : mark ∉ cs) : lastPart mark cs = cs := lastPart_append h []

theorem lastPart_mark (h : mark ∉ back) (front : List Char) :
    lastPart mark (front ++ mark :: back) = back := by
  have hnone : lastPart mark (front ++ [mark]) = [] := by simp [lastPart]
  rw [← List.singleton_append, ← List.append_assoc, lastPart_append h, hnone, List.nil_append]

/-- The last mark is the first one from behind. -/
theorem exists_eq_append_mark (h : mark ∈ cs) :
    ∃ front back, cs = front ++ mark :: back ∧ mark ∉ back := by
  obtain ⟨back, front, hsplit, hback⟩ := List.eq_append_cons_of_mem (List.mem_reverse.mpr h)
  have hcs : cs = front.reverse ++ mark :: back.reverse := by
    rw [← List.reverse_reverse cs, hsplit]
    simp
  exact ⟨front.reverse, back.reverse, hcs, by simpa using hback⟩

end InitializerLint.Text
