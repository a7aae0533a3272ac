import InitializerLint.Proofs.Config.Lookup
import InitializerLint.Proofs.Config.Presentation
import InitializerLint.Proofs.Files.Extension

/-! What loading settings from a path comes to. A file that cannot be read is an error whatever its
name, a name without a known format is one whatever the content, and only then does the reader of
the format answer. -/
namespace InitializerLint.Config

open Files (Tree HasExtension fileExtension hasExtension_iff)

/-- Nothing is found at the path, or what is found may not be opened or has no text. -/
inductive Unreadable (files : Tree) (path : String) : Files.ReadError → Prop
  | missing {e : Files.ReadError} : files.locate path = .error e → Unreadable files path e
  | directory : files.entry? path = some .directory → Unreadable files path .isDirectory
  | locked {isDirectory : Bool} : files.entry? path = some (.locked isDirectory) →
      Unreadable files path .permissionDenied
  | noText {content : ByteArray} : files.entry? path = some (.file content) →
      ¬content.IsValidUTF8 → Unreadable files path .notText

/-- A file with this text is found at the path. -/
def Holds (files : Tree) (path text : String) : Prop :=
  files.entry? path = some (.file text.toUTF8)

/-- The extensions name the same format. -/
def SameFormat (ext ext' : String) : Prop :=
  (ext = "yaml" ∨ ext = "yml") ∧ (ext' = "yaml" ∨ ext' = "yml") ∨ ext = "json" ∧ ext' = "json"

/-- How loading from a path with the extension `ext` has to be answered. -/
structure Outcome (files : Tree) (path ext : String) (answer : Logged (Except LoadError Config)) :
    Prop where
  unreadable : ∀ e, Unreadable files path e → answer.value = .error (.unreadable e)
  unknownFormat : ∀ text, Holds files path text → ¬HasFormat ext →
    answer.value = .error (.unknownFormat ext)
  yaml : ∀ text, Holds files path text → ext = "yaml" ∨ ext = "yml" →
    answer.value = (Yaml.read Config.read text).mapError .yaml
  json : ∀ text, Holds files path text → ext = "json" →
    answer.value = (Json.read Config.read text).mapError .json
  log : answer.log = match answer.value with
    | .ok _ => [⟨.debug, "loaded configuration from " ++ path⟩]
    | .error _ => []

section reading

variable {files : Tree} {path text : String}

theorem readText_of_unreadable {e : Files.ReadError} (h : Unreadable files path e) :
    files.readText path = .error e := by
  cases h with
  | missing hlocate =>
    rw [Tree.readText, hlocate]
    rfl
  | directory hentry => exact Tree.readText_of_entry hentry
  | locked hentry => exact Tree.readText_of_entry hentry
  | @noText content hentry hvalid =>
    rw [Tree.readText_of_entry hentry, Files.Entry.text, String.fromUTF8?, dif_neg hvalid]

theorem readText_of_holds (h : Holds files path text) : files.readText path = .ok text := by
  rw [Tree.readText_of_entry h, Files.Entry.text_toUTF8]

theorem unreadable_or_holds (files : Tree) (path : String) :
    (∃ e, Unreadable files path e) ∨ ∃ text, Holds files path text := by
  cases hlocate : files.locate path with
  | error e => exact .inl ⟨e, .missing hlocate⟩
  | ok p =>
    have hentry : files.entry? path = files.entryAt? p := by
      unfold Tree.entry?
      rw [hlocate]
    obtain ⟨entry, hp⟩ := Option.isSome_iff_exists.mp (Tree.isSome_of_locate hlocate)
    rw [hp] at hentry
    cases entry with
    | directory => exact .inl ⟨_, .directory hentry⟩
    | locked isDirectory => exact .inl ⟨_, .locked hentry⟩
    | file content =>
      by_cases hvalid : content.IsValidUTF8
      · exact .inr ⟨.fromUTF8 content hvalid, hentry⟩
      · exact .inl ⟨_, .noText hentry hvalid⟩

end reading

section answer

variable {files : Tree} {path ext text : String}

theorem parse_unknownFormat (h : ¬HasFormat ext) : parse ext text = .error (.unknownFormat ext) := by
  simp only [HasFormat, not_or] at h
  obtain ⟨hyaml, hyml, hjson⟩ := h
  simp [parse, hyaml, hyml, hjson]

theorem parse_yaml (h : ext = "yaml" ∨ ext = "yml") :
    parse ext text = (Yaml.read read text).mapError .yaml := by
  rcases h with rfl | rfl <;> rfl

theorem parse_sameFormat {ext' : String} (h : SameFormat ext ext') :
    parse ext text = parse ext' text := by
  rcases h with ⟨hext, hext'⟩ | ⟨rfl, rfl⟩
  · rw [parse_yaml hext, parse_yaml hext']
  · rfl

theorem value_load_of_unreadable {e : Files.ReadError} (h : Unreadable files path e) :
    (load files path).value = .error (.unreadable e) := by
  rw [load, readText_of_unreadable h]
  rfl

theorem value_load_of_holds (hext : HasExtension path ext) (h : Holds files path text) :
    (load files path).value = parse ext text := by
  rw [value_load (readText_of_holds h), hasExtension_iff.mp hext]

theorem log_load (files : Tree) (path : String) :
    (load files path).log = match (load files path).value with
      | .ok _ => [⟨.debug, "loaded configuration from " ++ path⟩]
      | .error _ => [] := by
  unfold load
  cases files.readText path with
  | error e => rfl
  | ok text => cases hparse : parse (fileExtension path) text <;> simp only [hparse] <;> rfl

theorem outcome_load (files : Tree) (hext : HasExtension path ext) :
    Outcome files path ext (load files path) where
  unreadable e h := value_load_of_unreadable h
  unknownFormat text h hformat := by rw [value_load_of_holds hext h, parse_unknownFormat hformat]
  yaml text h hyaml := by rw [value_load_of_holds hext h, parse_yaml hyaml]
  json text h hjson := by
    rw [value_load_of_holds hext h, hjson]
    rfl
  log := log_load files path

theorem parse_ne_unreadable (ext text : String) (e : Files.ReadError) :
    parse ext text ≠ .error (.unreadable e) := by
  unfold parse
  split_ifs
  · cases Yaml.read read text <;> simp [Except.mapError]
  · cases Json.read read text <;> simp [Except.mapError]
  · simp

/-- What the reader of a format says is never mistaken for an error of the file. -/
theorem value_load_eq_unreadable :
    (∃ e, (load files path).value = .error (.unreadable e)) ↔ ∃ e, Unreadable files path e := by
  constructor
  · rintro ⟨e, he⟩
    rcases unreadable_or_holds files path with hunreadable | ⟨text, h⟩
    · exact hunreadable
    · rw [value_load (readText_of_holds h)] at he
      exact absurd he (parse_ne_unreadable _ _ _)
  · rintro ⟨e, h⟩
    exact ⟨e, value_load_of_unreadable h⟩

theorem value_load_eq_unknownFormat (hext : HasExtension path ext) {other : String} :
    (load files path).value = .error (.unknownFormat other) ↔
      (∃ text, Holds files path text) ∧ ¬HasFormat ext ∧ other = ext := by
  constructor
  · intro he
    rcases unreadable_or_holds files path with ⟨e, hunreadable⟩ | ⟨text, h⟩
    · rw [value_load_of_unreadable hunreadable] at he
      simp at he
    · rw [value_load_of_holds hext h] at he
      have hformat : ¬HasFormat ext := fun hf => parse_ne_unknownFormat hf text other he
      rw [parse_unknownFormat hformat] at he
      have hother : ext = other := by simpa using he
      exact ⟨⟨text, h⟩, hformat, hother.symm⟩
  · rintro ⟨⟨text, h⟩, hformat, rfl⟩
    rw [value_load_of_holds hext h, parse_unknownFormat hformat]

end answer

/-- The error is that of the file exactly if the file is unreadable, and that of the name exactly if
the file is readable and its name has no format; two files with one text and one format are worth
the same. -/
theorem load_by_precedence (files : Tree) (path : String) : ∃ ext,
    (∀ e, HasExtension path e ↔ e = ext) ∧
      Outcome files path ext (load files path) ∧
      ((∃ e, Unreadable files path e) ∨ ∃ text, Holds files path text) ∧
      ((∃ e, (load files path).value = .error (.unreadable e)) ↔ ∃ e, Unreadable files path e) ∧
      (∀ other, (load files path).value = .error (.unknownFormat other) ↔
        (∃ text, Holds files path text) ∧ ¬HasFormat ext ∧ other = ext) ∧
      (LoadError.unknownFormat ext).message =
        "Invalid configuration: Unknown config file format: " ++ ext ∧
      ∀ files' path' ext' text, HasExtension path' ext' → SameFormat ext ext' →
        Holds files path text → Holds files' path' text →
        (load files' path').value = (load files path).value := by
  have hext : HasExtension path (fileExtension path) := hasExtension_iff.mpr rfl
  have hunique (e : String) : HasExtension path e ↔ e = fileExtension path :=
    hasExtension_iff.trans eq_comm
  have hsame (files' : Tree) (path' ext' text : String) (hext' : HasExtension path' ext')
      (hformat : SameFormat (fileExtension path) ext') (h : Holds files path text)
      (h' : Holds files' path' text) : (load files' path').value = (load files path).value := by
    rw [value_load_of_holds hext h, value_load_of_holds hext' h', parse_sameFormat hformat]
  exact ⟨fileExtension path, hunique, outcome_load files hext, unreadable_or_holds files path,
    value_load_eq_unreadable, fun _ => value_load_eq_unknownFormat hext, rfl, hsame⟩

end InitializerLint.Config
