import InitializerLint.Proofs.Files.Path
import InitializerLint.Proofs.Text.LastPart

/-! The extension of a path, said of its text: the last component is a name with nothing but
slashes and steps in place behind it, and the extension stands behind the last dot of that name,
unless nothing stands before the dot. -/
namespace InitializerLint.Files

open Text (reverse_lastPart lastPart_mark lastPart_of_notMem exists_eq_append_mark)

/-- Slashes and steps in place behind a name. -/
inductive InPlace : List Char → Prop
  | nil : InPlace []
  | slash {cs : List Char} : InPlace cs → InPlace ('/' :: cs)
  | step {cs : List Char} : InPlace cs → InPlace ('/' :: '.' :: cs)

/-- The last component of a path is a name. -/
def EndsIn (path : String) (name : List Char) : Prop := ∃ front back,
  path.toList = front ++ (name ++ back) ∧ (front = [] ∨ front.getLast? = some '/') ∧
    InPlace back ∧ IsEntryName name

/-- A name with something before its last dot, and `ext` behind it. -/
def HasDot (name ext : List Char) : Prop :=
  ∃ stem, stem ≠ [] ∧ name = stem ++ '.' :: ext ∧ '.' ∉ ext

/-- The extension of a path; it is empty if there is none. -/
def HasExtension (path ext : String) : Prop :=
  (∃ name, EndsIn path name ∧ HasDot name ext.toList) ∨
    ext = "" ∧ ∀ name, EndsIn path name → ∀ e, ¬HasDot name e

/-- A component that says nothing about where a path leads. -/
def IsIdle (component : List Char) : Prop := component = [] ∨ component = ['.']

section fileName

variable {path : String} {name cs : List Char}

theorem filter_idle {components : List (List Char)} (h : ∀ s ∈ components, IsIdle s) :
    components.filter (fun s => !s.isEmpty && s ≠ ['.']) = [] := by
  rw [List.filter_eq_nil_iff]
  intro s hs
  rcases h s hs with rfl | rfl <;> simp

theorem InPlace.exists_components (h : InPlace cs) :
    ∃ components, (∀ s ∈ components, IsIdle s) ∧
      ∀ front, splitSlashes (front ++ cs) = splitSlashes front ++ components := by
  induction h with
  | nil => exact ⟨[], by simp, by simp⟩
  | @slash cs _ ih =>
    obtain ⟨components, hidle, hsplit⟩ := ih
    have hcs : splitSlashes cs = [] :: components := hsplit []
    refine ⟨[] :: components, List.forall_mem_cons.mpr ⟨.inl rfl, hidle⟩, fun front => ?_⟩
    rw [splitSlashes_append, hcs]
  | @step cs _ ih =>
    obtain ⟨components, hidle, hsplit⟩ := ih
    have hcs : splitSlashes ('.' :: cs) = ['.'] :: components := hsplit ['.']
    refine ⟨['.'] :: components, List.forall_mem_cons.mpr ⟨.inr rfl, hidle⟩, fun front => ?_⟩
    rw [splitSlashes_append, hcs]

theorem inPlace_flatMap {components : List (List Char)} (h : ∀ s ∈ components, IsIdle s) :
    InPlace (components.flatMap fun s => '/' :: s) := by
  induction components with
  | nil => exact .nil
  | cons s components ih =>
    obtain ⟨hs, hrest⟩ := List.forall_mem_cons.mp h
    rcases hs with rfl | rfl
    · exact .slash (ih hrest)
    · exact .step (ih hrest)

/-- The components with the slashes between them are the path again. -/
theorem eq_of_splitSlashes {s : List Char} {ss : List (List Char)} (h : splitSlashes cs = s :: ss) :
    cs = s ++ ss.flatMap (fun s => '/' :: s) ∧ ∀ t ∈ s :: ss, '/' ∉ t := by
  induction cs generalizing s ss with
  | nil =>
    cases h
    simp
  | cons c cs ih =>
    obtain ⟨t, ts, hcs⟩ := exists_splitSlashes cs
    obtain ⟨hjoin, hslash⟩ := ih hcs
    by_cases hc : c = '/'
    · subst hc
      rw [splitSlashes_slash, hcs] at h
      cases h
      refine ⟨?_, List.forall_mem_cons.mpr ⟨List.not_mem_nil, hslash⟩⟩
      rw [List.nil_append, List.flatMap_cons, List.cons_append, ← hjoin]
    · rw [splitSlashes_cons hc hcs] at h
      cases h
      obtain ⟨ht, hts⟩ := List.forall_mem_cons.mp hslash
      have hct : '/' ∉ c :: t := by simp [Ne.symm hc, ht]
      refine ⟨?_, List.forall_mem_cons.mpr ⟨hct, hts⟩⟩
      rw [List.cons_append, ← hjoin]

theorem exists_of_splitSlashes {before after : List (List Char)}
    (h : splitSlashes cs = before ++ name :: after) :
    ∃ front, cs = front ++ (name ++ after.flatMap fun s => '/' :: s) ∧
      (front = [] ∨ front.getLast? = some '/') ∧ '/' ∉ name := by
  cases before with
  | nil =>
    obtain ⟨hjoin, hslash⟩ := eq_of_splitSlashes h
    exact ⟨[], hjoin, .inl rfl, hslash name List.mem_cons_self⟩
  | cons s before =>
    rw [List.cons_append] at h
    obtain ⟨hjoin, hslash⟩ := eq_of_splitSlashes h
    refine ⟨s ++ before.flatMap (fun s => '/' :: s) ++ ['/'], ?_, .inr ?_, hslash name (by simp)⟩
    · rw [hjoin, List.flatMap_append, List.flatMap_cons]
      simp
    · exact List.getLast?_concat

theorem fileName_of_endsIn (h : EndsIn path name) : fileName path = name := by
  obtain ⟨front, back, hpath, hfront, hback, hname⟩ := h
  obtain ⟨components, hidle, hsplit⟩ := hback.exists_components
  obtain ⟨before, hbefore⟩ : ∃ before, splitSlashes (front ++ name) = before ++ [name] := by
    have hself : splitSlashes name = [name] := splitSlashes_of_notMem hname.noSlash
    rcases hfront with rfl | hslash
    · exact ⟨[], hself⟩
    · obtain ⟨front, rfl⟩ := List.getLast?_eq_some_iff.mp hslash
      refine ⟨splitSlashes front, ?_⟩
      rw [List.append_assoc, List.singleton_append, splitSlashes_append, hself]
  have hkept : [name].filter (fun s => !s.isEmpty && s ≠ ['.']) = [name] := by
    simp [hname.nonempty, hname.notHere]
  rw [fileName, hpath, ← List.append_assoc, hsplit, hbefore, List.filter_append, List.filter_append,
    filter_idle hidle, List.append_nil, hkept, List.getLast?_concat]
  exact if_neg hname.notUp

theorem endsIn_fileName (h : fileName path ≠ []) : EndsIn path (fileName path) := by
  unfold fileName at h ⊢
  split at h
  · next name hlast =>
    split at h
    · exact absurd rfl h
    · next hup =>
      rw [if_neg hup]
      obtain ⟨kept, hkept⟩ := List.getLast?_eq_some_iff.mp hlast
      obtain ⟨before, rest, hsplit, -, hrest⟩ := List.filter_eq_append_iff.mp hkept
      obtain ⟨between, after, rfl, -, hname, hafter⟩ := List.filter_eq_cons_iff.mp hrest
      have hidle : ∀ s ∈ after, IsIdle s := by
        intro s hs
        have hdropped := List.filter_eq_nil_iff.mp hafter s hs
        simpa [IsIdle, or_iff_not_imp_left] using hdropped
      rw [← List.append_assoc] at hsplit
      obtain ⟨front, hpath, hfront, hslash⟩ := exists_of_splitSlashes hsplit
      have hkeep : name ≠ [] ∧ name ≠ ['.'] := by simpa using hname
      exact ⟨front, _, hpath, hfront, inPlace_flatMap hidle, hkeep.1, hslash, hkeep.2, hup⟩
  · exact absurd rfl h

end fileName

section extension

variable {path ext : String} {name stem : List Char}

private theorem reverse_split {e : List Char} (he : '.' ∉ e) (stem : List Char) :
    (stem ++ '.' :: e).reverse.takeWhile (· ≠ '.') = e.reverse ∧
      (stem ++ '.' :: e).reverse.drop (e.reverse.length + 1) = stem.reverse := by
  constructor
  · rw [reverse_lastPart, lastPart_mark he]
  · rw [List.reverse_append, List.reverse_cons, List.append_assoc, List.drop_append,
      List.drop_eq_nil_of_le (Nat.le_succ _), Nat.add_sub_cancel_left]
    rfl

theorem fileExtension_of_hasDot {e : List Char} (hname : fileName path = name)
    (h : HasDot name e) : fileExtension path = String.ofList e := by
  obtain ⟨stem, hstem, rfl, he⟩ := h
  obtain ⟨htake, hdrop⟩ := reverse_split he stem
  unfold fileExtension
  dsimp only
  rw [hname, htake, hdrop, List.reverse_reverse]
  exact if_neg (by simpa using hstem)

theorem fileExtension_of_not_hasDot (h : ∀ e, ¬HasDot (fileName path) e) :
    fileExtension path = "" := by
  unfold fileExtension
  dsimp only
  split
  · rfl
  · next hrest =>
    by_cases hdot : '.' ∈ fileName path
    · obtain ⟨stem, e, hname, he⟩ := exists_eq_append_mark hdot
      obtain ⟨htake, hdrop⟩ := reverse_split he stem
      rw [hname, htake, hdrop] at hrest
      have hstem : stem ≠ [] := by simpa using hrest
      exact absurd ⟨stem, hstem, hname, he⟩ (h e)
    · rw [reverse_lastPart, lastPart_of_notMem hdot, List.drop_eq_nil_of_le (Nat.le_succ _)] at hrest
      exact absurd rfl hrest

theorem hasExtension_iff : HasExtension path ext ↔ fileExtension path = ext := by
  constructor
  · rintro (⟨name, hends, hdot⟩ | ⟨rfl, hnone⟩)
    · rw [fileExtension_of_hasDot (fileName_of_endsIn hends) hdot, String.ofList_toList]
    · apply fileExtension_of_not_hasDot
      rintro e ⟨stem, hstem, hname, he⟩
      have hne : fileName path ≠ [] := by simp [hname]
      exact hnone _ (endsIn_fileName hne) e ⟨stem, hstem, hname, he⟩
  · rintro rfl
    by_cases h : ∃ e, HasDot (fileName path) e
    · obtain ⟨e, he⟩ := h
      have hne : fileName path ≠ [] := by
        obtain ⟨stem, -, hname, -⟩ := he
        simp [hname]
      left
      rw [fileExtension_of_hasDot rfl he, String.toList_ofList]
      exact ⟨_, endsIn_fileName hne, he⟩
    · rw [not_exists] at h
      right
      refine ⟨fileExtension_of_not_hasDot h, fun name hends e he => ?_⟩
      rw [← fileName_of_endsIn hends] at he
      exact h e he

end extension

end InitializerLint.Files
