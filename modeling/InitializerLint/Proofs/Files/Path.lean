import InitializerLint.Files.Path

/-! A name joined to a path is the file name of the result, whatever the path: neither an empty
path nor slashes at its end nor steps in it show in the name or its extension. -/
namespace InitializerLint.Files

/-- A component that names an entry of a directory. -/
structure IsEntryName (name : List Char) : Prop where
  nonempty : name ≠ []
  noSlash : '/' ∉ name
  notHere : name ≠ ['.']
  notUp : name ≠ ['.', '.']

instance (name : List Char) : Decidable (IsEntryName name) :=
  decidable_of_iff (name ≠ [] ∧ '/' ∉ name ∧ name ≠ ['.'] ∧ name ≠ ['.', '.'])
    ⟨fun ⟨h1, h2, h3, h4⟩ => ⟨h1, h2, h3, h4⟩, fun ⟨h1, h2, h3, h4⟩ => ⟨h1, h2, h3, h4⟩⟩

theorem splitSlashes_slash (cs : List Char) : splitSlashes ('/' :: cs) = [] :: splitSlashes cs := rfl

theorem splitSlashes_cons {c : Char} (hc : c ≠ '/') {cs s : List Char} {ss : List (List Char)}
    (h : splitSlashes cs = s :: ss) : splitSlashes (c :: cs) = (c :: s) :: ss := by
  rw [splitSlashes, if_neg hc, h]

theorem exists_splitSlashes (cs : List Char) : ∃ s ss, splitSlashes cs = s :: ss := by
  induction cs with
  | nil => exact ⟨[], [], rfl⟩
  | cons c cs ih =>
    obtain ⟨s, ss, h⟩ := ih
    by_cases hc : c = '/'
    · subst c
      exact ⟨[], splitSlashes cs, splitSlashes_slash cs⟩
    · exact ⟨c :: s, ss, splitSlashes_cons hc h⟩

/-- A slash parts what stands before it from what stands behind it. -/
theorem splitSlashes_append (front back : List Char) :
    splitSlashes (front ++ '/' :: back) = splitSlashes front ++ splitSlashes back := by
  induction front with
  | nil => exact splitSlashes_slash back
  | cons c front ih =>
    by_cases hc : c = '/'
    · subst c
      rw [List.cons_append, splitSlashes_slash, ih, splitSlashes_slash, List.cons_append]
    · obtain ⟨s, ss, h⟩ := exists_splitSlashes front
      have hwhole : splitSlashes (front ++ '/' :: back) = s :: (ss ++ splitSlashes back) := by
        rw [ih, h, List.cons_append]
      rw [List.cons_append, splitSlashes_cons hc hwhole, splitSlashes_cons hc h, List.cons_append]

theorem splitSlashes_of_notMem {name : List Char} (h : '/' ∉ name) : splitSlashes name = [name] := by
  induction name with
  | nil => rfl
  | cons c cs ih =>
    obtain ⟨hc, hcs⟩ : '/' ≠ c ∧ '/' ∉ cs := by simpa using h
    exact splitSlashes_cons hc.symm (ih hcs)

/-- However the path ends, the name is a component of its own. -/
theorem splitSlashes_joinPath (dir : String) {name : String} (h : '/' ∉ name.toList) :
    ∃ front, splitSlashes (joinPath dir name).toList = front ++ [name.toList] := by
  have hname : splitSlashes name.toList = [name.toList] := splitSlashes_of_notMem h
  unfold joinPath
  by_cases hempty : dir.isEmpty = true
  · rw [if_pos hempty]
    exact ⟨[], hname⟩
  rw [if_neg hempty]
  by_cases hslash : dir.toList.getLast? = some '/'
  · obtain ⟨front, hfront⟩ := List.getLast?_eq_some_iff.mp hslash
    have happ : (dir ++ name).toList = front ++ '/' :: name.toList := by
      rw [String.toList_append, hfront, List.append_assoc]
      rfl
    rw [if_pos hslash, happ, splitSlashes_append, hname]
    exact ⟨_, rfl⟩
  · have happ : (dir ++ "/" ++ name).toList = dir.toList ++ '/' :: name.toList := by
      rw [String.toList_append, String.toList_append, List.append_assoc]
      rfl
    rw [if_neg hslash, happ, splitSlashes_append, hname]
    exact ⟨_, rfl⟩

theorem fileName_of_splitSlashes {path : String} {front : List (List Char)} {name : List Char}
    (h : splitSlashes path.toList = front ++ [name]) (hname : IsEntryName name) :
    fileName path = name := by
  have hkept : [name].filter (fun s => !s.isEmpty && s ≠ ['.']) = [name] := by
    simp [hname.nonempty, hname.notHere]
  rw [fileName, h, List.filter_append, hkept, List.getLast?_append, List.getLast?_singleton]
  exact if_neg hname.notUp

theorem fileName_joinPath (dir : String) {name : String} (h : IsEntryName name.toList) :
    fileName (joinPath dir name) = name.toList := by
  obtain ⟨front, hsplit⟩ := splitSlashes_joinPath dir h.noSlash
  exact fileName_of_splitSlashes hsplit h

theorem fileName_eq {name : String} (h : IsEntryName name.toList) : fileName name = name.toList := by
  have hsplit : splitSlashes name.toList = [] ++ [name.toList] := splitSlashes_of_notMem h.noSlash
  exact fileName_of_splitSlashes hsplit h

theorem fileExtension_joinPath (dir : String) {name : String} (h : IsEntryName name.toList) :
    fileExtension (joinPath dir name) = fileExtension name := by
  unfold fileExtension
  rw [fileName_joinPath dir h, fileName_eq h]

end InitializerLint.Files
