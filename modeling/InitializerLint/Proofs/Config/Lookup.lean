import InitializerLint.Config.Load
import InitializerLint.Proofs.Files.Path
import InitializerLint.Proofs.Files.Tree
import Mathlib.Data.List.Find

/-! Settings are looked for in one order: directory by directory, and in each by the order of the
names. The first path that exists decides, with all that is wrong with it, and what comes behind
it does not matter. -/
namespace InitializerLint.Config

open Files (Tree Entry IsEntryName joinPath fileExtension)

/-- Every path that may be looked at, in order. -/
def candidates (dirs : List String) : List String :=
  dirs.flatMap fun dir =>
    [".staticinitrc.yaml", ".staticinitrc.yml", ".staticinitrc.json"].map (joinPath dir)

/-- The path exists, and none that comes before it does. -/
def FirstCandidate (files : Tree) (dirs : List String) (path : String) : Prop :=
  ∃ before after, candidates dirs = before ++ path :: after ∧
    files.contains path = true ∧ ∀ q ∈ before, files.contains q = false

/-- As far as `path` the same candidates exist in both trees, and at `path` there is the same. -/
def AgreeUpTo (files files' : Tree) (dirs : List String) (path : String) : Prop :=
  ∃ before after, candidates dirs = before ++ path :: after ∧
    (∀ q ∈ before, files'.contains q = files.contains q) ∧ files'.entry? path = files.entry? path

/-- The answer that an entry gives when it is loaded from a path. -/
inductive Answers (path : String) : Entry → Logged (Except LoadError Config) → Prop
  | directory : Answers path .directory (.silent (.error (.unreadable .isDirectory)))
  | locked {isDirectory : Bool} :
      Answers path (.locked isDirectory) (.silent (.error (.unreadable .permissionDenied)))
  | noText {content : ByteArray} : String.fromUTF8? content = none →
      Answers path (.file content) (.silent (.error (.unreadable .notText)))
  | malformed {content : ByteArray} {text : String} {e : LoadError} :
      String.fromUTF8? content = some text → parse (fileExtension path) text = .error e →
      Answers path (.file content) (.silent (.error e))
  | settings {content : ByteArray} {text : String} {c : Config} :
      String.fromUTF8? content = some text → parse (fileExtension path) text = .ok c →
      Answers path (.file content) ⟨.ok c, [⟨.debug, "loaded configuration from " ++ path⟩]⟩

section search

variable {files files' : Tree} {dirs : List String} {path : String}

theorem firstCandidate_iff :
    FirstCandidate files dirs path ↔ (candidates dirs).find? files.contains = some path := by
  rw [List.find?_eq_some_iff_append]
  simp only [FirstCandidate, Bool.not_eq_true']
  constructor
  · rintro ⟨before, after, hsplit, hthere, hnone⟩
    exact ⟨hthere, before, after, hsplit, hnone⟩
  · rintro ⟨hthere, before, after, hsplit, hnone⟩
    exact ⟨before, after, hsplit, hthere, hnone⟩

/-- The search in two levels is the search through one list. -/
theorem loadFirst_eq (files : Tree) (dirs : List String) :
    loadFirst files dirs = match (candidates dirs).find? files.contains with
      | some path => load files path
      | none => .silent (.ok {}) := by
  rw [candidates, List.find?_flatMap]
  rfl

theorem loadFirst_of_first (h : FirstCandidate files dirs path) :
    loadFirst files dirs = load files path := by
  rw [loadFirst_eq, firstCandidate_iff.mp h]

theorem loadFirst_of_none (h : ∀ q ∈ candidates dirs, files.contains q = false) :
    loadFirst files dirs = .silent (.ok {}) := by
  have hnone : (candidates dirs).find? files.contains = none := by simpa using h
  rw [loadFirst_eq, hnone]

theorem exists_first_or_none (files : Tree) (dirs : List String) :
    (∃ path, FirstCandidate files dirs path) ∨
      ∀ q ∈ candidates dirs, files.contains q = false := by
  cases h : (candidates dirs).find? files.contains with
  | some path => exact .inl ⟨path, firstCandidate_iff.mpr h⟩
  | none =>
    right
    simpa using h

/-- The first candidate of one tree is the first one of a tree that agrees with it so far. -/
theorem FirstCandidate.of_agree (h : FirstCandidate files dirs path)
    (ha : AgreeUpTo files files' dirs path) : FirstCandidate files' dirs path := by
  obtain ⟨before, after, hsplit, hbefore, hentry⟩ := ha
  have hthere : files.contains path = true := by
    obtain ⟨_, _, -, hthere, -⟩ := h
    exact hthere
  have hthere' : files'.contains path = true := by
    rw [Tree.contains_eq, hentry, ← Tree.contains_eq, hthere]
  have hfind := firstCandidate_iff.mp h
  -- `path` may stand in the list more than once, so the place of `ha` need not be the first.
  have hsame : before.find? files'.contains = before.find? files.contains :=
    List.find?_congr hbefore
  rw [hsplit, List.find?_append, List.find?_cons_of_pos hthere] at hfind
  rw [firstCandidate_iff, hsplit, List.find?_append, List.find?_cons_of_pos hthere', hsame, hfind]

end search

section answer

variable {files files' : Tree} {path : String}

theorem load_of_text {e : Entry} (h : files.entry? path = some e) :
    load files path = match e.text with
      | .error e => .silent (.error (.unreadable e))
      | .ok text => match parse (fileExtension path) text with
        | .ok c => ⟨.ok c, [⟨.debug, "loaded configuration from " ++ path⟩]⟩
        | .error e => .silent (.error e) := by
  rw [load, Tree.readText_of_entry h]
  rfl

theorem load_answers {e : Entry} (h : files.entry? path = some e) :
    Answers path e (load files path) := by
  rw [load_of_text h]
  cases e with
  | directory => exact .directory
  | locked isDirectory => exact .locked
  | file content =>
    cases htext : String.fromUTF8? content with
    | none =>
      have he : (Entry.file content).text = .error .notText := by rw [Entry.text, htext]
      rw [he]
      exact .noText htext
    | some text =>
      have he : (Entry.file content).text = .ok text := by rw [Entry.text, htext]
      rw [he]
      dsimp only
      cases hparse : parse (fileExtension path) text with
      | ok c => exact .settings htext hparse
      | error e => exact .malformed htext hparse

theorem FirstCandidate.answers {dirs : List String} (h : FirstCandidate files dirs path) :
    ∃ e, files.entry? path = some e ∧ Answers path e (loadFirst files dirs) := by
  have hthere : (files.entry? path).isSome = true := by
    obtain ⟨_, _, -, hthere, -⟩ := h
    rwa [← Tree.contains_eq]
  obtain ⟨e, he⟩ := Option.isSome_iff_exists.mp hthere
  exact ⟨e, he, loadFirst_of_first h ▸ load_answers he⟩

/-- Loading depends on the entry at the path and on nothing else. -/
theorem load_congr {e : Entry} (h : files.entry? path = some e) (h' : files'.entry? path = some e) :
    load files' path = load files path := by rw [load_of_text h, load_of_text h']

end answer

section extension

/-- The extensions that name a format. -/
def HasFormat (extension : String) : Prop :=
  extension = "yaml" ∨ extension = "yml" ∨ extension = "json"

instance (extension : String) : Decidable (HasFormat extension) :=
  inferInstanceAs (Decidable (_ ∨ _ ∨ _))

theorem parse_ne_unknownFormat {extension : String} (h : HasFormat extension) (text other : String) :
    parse extension text ≠ .error (.unknownFormat other) := by
  have hyaml : (Yaml.read read text).mapError LoadError.yaml ≠ .error (.unknownFormat other) := by
    cases Yaml.read read text <;> simp [Except.mapError]
  have hjson : (Json.read read text).mapError LoadError.json ≠ .error (.unknownFormat other) := by
    cases Json.read read text <;> simp [Except.mapError]
  rcases h with rfl | rfl | rfl
  · exact hyaml
  · exact hyaml
  · exact hjson

theorem load_ne_unknownFormat (files : Tree) {path : String} (h : HasFormat (fileExtension path))
    (other : String) : (load files path).value ≠ .error (.unknownFormat other) := by
  unfold load
  cases files.readText path with
  | error e => simp
  | ok text =>
    have hparse := parse_ne_unknownFormat h text other
    cases hp : parse (fileExtension path) text with
    | ok c => simp [hp]
    | error e => simpa [hp] using hparse

theorem hasFormat_fileNames : ∀ name ∈ fileNames,
    IsEntryName name.toList ∧ HasFormat (fileExtension name) := by
  decide +kernel

theorem hasFormat_candidate {dirs : List String} {path : String} (h : path ∈ candidates dirs) :
    HasFormat (fileExtension path) := by
  obtain ⟨dir, -, hpath⟩ := List.mem_flatMap.mp h
  obtain ⟨name, hname, rfl⟩ := List.mem_map.mp hpath
  obtain ⟨hentry, hformat⟩ := hasFormat_fileNames name hname
  rwa [Files.fileExtension_joinPath dir hentry]

theorem loadFirst_ne_unknownFormat (files : Tree) (dirs : List String) (other : String) :
    (loadFirst files dirs).value ≠ .error (.unknownFormat other) := by
  rcases exists_first_or_none files dirs with ⟨path, hfirst⟩ | hnone
  · have hmem : path ∈ candidates dirs := by
      obtain ⟨before, after, hsplit, -⟩ := hfirst
      simp [hsplit]
    rw [loadFirst_of_first hfirst]
    exact load_ne_unknownFormat files (hasFormat_candidate hmem) other
  · simp [loadFirst_of_none hnone]

end extension

/-- The first candidate that exists is loaded and answers for itself, whatever stands at the
candidates behind it; without any the defaults hold; and no candidate has an unknown format. -/
theorem first_candidate_decides (files : Tree) (dirs : List String) :
    (∀ path, FirstCandidate files dirs path →
      loadFirst files dirs = load files path ∧
      (∃ e, files.entry? path = some e ∧ Answers path e (loadFirst files dirs)) ∧
      ∀ files', AgreeUpTo files files' dirs path → loadFirst files' dirs = loadFirst files dirs) ∧
    ((∀ path ∈ candidates dirs, files.contains path = false) →
      loadFirst files dirs = .silent (.ok {})) ∧
    ((∃ path, FirstCandidate files dirs path) ∨
      ∀ path ∈ candidates dirs, files.contains path = false) ∧
    ∀ other, (loadFirst files dirs).value ≠ .error (.unknownFormat other) := by
  refine ⟨fun path hfirst => ⟨loadFirst_of_first hfirst, hfirst.answers, fun files' hagree => ?_⟩,
    loadFirst_of_none, exists_first_or_none files dirs, loadFirst_ne_unknownFormat files dirs⟩
  obtain ⟨e, he, -⟩ := hfirst.answers
  have he' : files'.entry? path = some e := by
    obtain ⟨_, _, -, -, hentry⟩ := hagree
    rw [hentry, he]
  rw [loadFirst_of_first hfirst, loadFirst_of_first (hfirst.of_agree hagree), load_congr he he']

/-- A directory in the place of a settings file. -/
def blockedTree : Tree := ({} : Tree).insert "a/.staticinitrc.yml" .directory

/-- The same with a settings file behind it. -/
def shadowedTree : Tree := blockedTree.insert "b/.staticinitrc.yaml" (.file ⟨#[]⟩)

/-- The broken candidate is not passed over, with or without the file behind it. -/
theorem first_candidate_decides_blocked :
    FirstCandidate shadowedTree ["", "a/", "b"] "a/.staticinitrc.yml" ∧
      AgreeUpTo shadowedTree blockedTree ["", "a/", "b"] "a/.staticinitrc.yml" ∧
      loadFirst shadowedTree ["", "a/", "b"] = .silent (.error (.unreadable .isDirectory)) ∧
      loadFirst blockedTree ["", "a/", "b"] = .silent (.error (.unreadable .isDirectory)) := by
  have hfirst : FirstCandidate shadowedTree ["", "a/", "b"] "a/.staticinitrc.yml" :=
    firstCandidate_iff.mpr (by decide +kernel)
  have hentry : shadowedTree.entry? "a/.staticinitrc.yml" = some .directory := by rfl
  have hentry' : blockedTree.entry? "a/.staticinitrc.yml" = some .directory := by rfl
  have hagree : AgreeUpTo shadowedTree blockedTree ["", "a/", "b"] "a/.staticinitrc.yml" :=
    ⟨(candidates ["", "a/", "b"]).take 4, (candidates ["", "a/", "b"]).drop 5,
      by decide +kernel, by decide +kernel, hentry'.trans hentry.symm⟩
  obtain ⟨-, ⟨e, he, hanswer⟩, hsame⟩ :=
    (first_candidate_decides shadowedTree ["", "a/", "b"]).1 _ hfirst
  obtain rfl : .directory = e := Option.some.inj (hentry.symm.trans he)
  have hload : loadFirst shadowedTree ["", "a/", "b"] =
      .silent (.error (.unreadable .isDirectory)) := by
    generalize loadFirst shadowedTree ["", "a/", "b"] = answer at hanswer
    cases hanswer
    rfl
  exact ⟨hfirst, hagree, hload, (hsame _ hagree).trans hload⟩

end InitializerLint.Config
