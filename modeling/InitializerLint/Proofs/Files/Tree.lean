import InitializerLint.Files.Tree
import Mathlib.Tactic.SplitIfs

/-! What is found at a path. Existence and content both follow from it, so that nothing else in a
tree bears on reading the path. -/
namespace InitializerLint.Files

/-- The text of an entry, or why it has none. -/
def Entry.text : Entry → Except ReadError String
  | .directory => .error .isDirectory
  | .locked _ => .error .permissionDenied
  | .file content =>
    match String.fromUTF8? content with
    | some s => .ok s
    | none => .error .notText

/-- The bytes of a text are read as the text. -/
theorem Entry.text_toUTF8 (text : String) : (Entry.file text.toUTF8).text = .ok text := by
  have hvalid : text.toUTF8.IsValidUTF8 := text.isValidUTF8
  rw [Entry.text, String.fromUTF8?, dif_pos hvalid]
  rfl

namespace Tree

/-- The entry that a path leads to. -/
def entry? (t : Tree) (path : String) : Option Entry :=
  match t.locate path with
  | .ok p => t.entryAt? p
  | .error _ => none

theorem isSome_of_enter {t : Tree} {p q : Place} {name : List Char} (h : t.enter p name = .ok q) :
    (t.entryAt? q).isSome = true := by
  unfold enter at h
  cases hp : t.entryAt? p with
  | none => simp [hp] at h
  | some entry =>
    rw [hp] at h
    cases entry with
    | file content => cases h
    | directory =>
      dsimp only at h
      split_ifs at h with hthere
      have hq : p.step name = q := Except.ok.inj h
      rwa [hq] at hthere
    | locked isDirectory =>
      cases isDirectory with
      | false => cases h
      | true =>
        dsimp only at h
        split_ifs at h
        have hq : p = q := Except.ok.inj h
        rw [← hq, hp]
        rfl

/-- Every step of a way ends at an entry, so the way does. -/
theorem isSome_of_foldlM_enter {t : Tree} {p q : Place} {names : List (List Char)}
    (hp : (t.entryAt? p).isSome = true) (h : names.foldlM t.enter p = .ok q) :
    (t.entryAt? q).isSome = true := by
  induction names generalizing p with
  | nil =>
    have hpq : p = q := Except.ok.inj h
    rwa [← hpq]
  | cons name names ih =>
    rw [List.foldlM_cons] at h
    cases hstep : t.enter p name with
    | error e => rw [hstep] at h; cases h
    | ok p' => rw [hstep] at h; exact ih (isSome_of_enter hstep) h

theorem isSome_of_locate {t : Tree} {path : String} {p : Place} (h : t.locate path = .ok p) :
    (t.entryAt? p).isSome = true := by
  unfold locate at h
  split_ifs at h
  -- A way starts at an origin, and origins are directories.
  have hstart : (t.entryAt? (.ofPathStart path)).isSome = true := rfl
  exact isSome_of_foldlM_enter hstart h

theorem contains_eq (t : Tree) (path : String) : t.contains path = (t.entry? path).isSome := by
  unfold contains entry?
  cases h : t.locate path with
  | ok p => rw [isSome_of_locate h]; rfl
  | error e => rfl

theorem readText_of_entry {t : Tree} {path : String} {e : Entry} (h : t.entry? path = some e) :
    t.readText path = e.text := by
  unfold entry? at h
  cases hp : t.locate path with
  | error e => rw [hp] at h; cases h
  | ok p =>
    rw [hp] at h
    have he : t.entryAt? p = some e := h
    simp only [readText, hp, bind, Except.bind, he]
    cases e <;> rfl

end Tree
end InitializerLint.Files
