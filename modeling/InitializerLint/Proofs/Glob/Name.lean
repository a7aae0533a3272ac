import InitializerLint.Glob.Plan
import InitializerLint.Proofs.Text.LastPart

/-! Base names and their extensions: a name ends with an extension exactly if that is the extension
of its base name. -/
namespace InitializerLint.Glob

open Text (lastPart lastPart_suffix lastPart_append lastPart_mark exists_eq_append_mark)

/-- A dot and what may follow the last dot of a file name. -/
def IsExtension (p : List Char) : Prop := ∃ text, p = '.' :: text ∧ '.' ∉ text ∧ '/' ∉ text

variable {text name : List Char}

theorem baseName_suffix (name : List Char) : baseName name <:+ name := by
  unfold baseName
  dsimp only
  split
  · exact List.nil_suffix
  · exact lastPart_suffix '/' name

theorem extension_append (htext : '.' ∉ text) (front : List Char) :
    extension (front ++ '.' :: text) = '.' :: text := by
  have hdot : (front ++ '.' :: text).contains '.' = true := by simp
  rw [extension, if_pos hdot]
  exact congrArg _ (lastPart_mark htext front)

theorem extension_suffix (base : List Char) : extension base <:+ base := by
  by_cases hdot : '.' ∈ base
  · obtain ⟨front, back, rfl, hback⟩ := exists_eq_append_mark hdot
    rw [extension_append hback]
    exact List.suffix_append front _
  · have hnone : extension base = [] := by simp [extension, hdot]
    rw [hnone]
    exact List.nil_suffix

/-- A name of two dots has no base name; it would be the only one that ends with a dot alone. -/
theorem extension_baseName_iff {p : List Char} (h : IsExtension p) (hp : p ≠ ['.']) :
    extension (baseName name) = p ↔ p <:+ name := by
  constructor
  · rintro rfl
    exact (extension_suffix _).trans (baseName_suffix name)
  · obtain ⟨text, rfl, hdot, hslash⟩ := h
    have htext : text ≠ [] := by
      rintro rfl
      exact hp rfl
    rintro ⟨front, rfl⟩
    have hpart : lastPart '/' (front ++ '.' :: text) = lastPart '/' front ++ '.' :: text :=
      lastPart_append (by simpa using hslash) front
    have hup : lastPart '/' front ++ '.' :: text ≠ ['.', '.'] := by
      intro hup
      have hnone : text = lastPart '.' ['.', '.'] := by rw [← hup, lastPart_mark hdot]
      exact htext hnone
    have hbase : baseName (front ++ '.' :: text) = lastPart '/' front ++ '.' :: text := by
      rw [← hpart] at hup ⊢
      exact if_neg hup
    rw [hbase, extension_append hdot]

end InitializerLint.Glob
