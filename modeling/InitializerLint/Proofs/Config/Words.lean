import InitializerLint.Proofs.Config.Presentation
import InitializerLint.Proofs.Json.Words

/-! The unsigned fields of settings, which are read straight from the text. -/
namespace InitializerLint.Config

open Json (FieldSpec ReadsPresented ReadsWords Spot Tree WordPlace)

inductive WordField where
  | jobs
  | methodThreshold

namespace WordField

def name : WordField → String
  | .jobs => "jobs"
  | .methodThreshold => "method_threshold"

def sectionName : WordField → String
  | .jobs => "engine"
  | .methodThreshold => "static_initializer"

/-- The names of the fields of the section. -/
def siblings : WordField → List String
  | .jobs => EngineOptions.specs.map (·.name)
  | .methodThreshold => RuleOptions.specs.map (·.name)

def place : WordField → WordPlace Config
  | .jobs => {
    get? c := some c.engine.jobs
    set n c := { c with engine := { c.engine with jobs := n } }
    get?_set _ _ _ := rfl }
  | .methodThreshold => {
    get? c := some c.staticInitializer.methodThreshold
    set n c := { c with staticInitializer := { c.staticInitializer with methodThreshold := n } }
    get?_set _ _ _ := rfl }

end WordField

/-- Settings that lack an unsigned field: the section in its place, and the field in its own. -/
structure WordSite (f : WordField) where
  outer : Spot
  inner : Spot
  outer_isFor : outer.IsFor (specs.map (·.name)) f.sectionName
  inner_isFor : inner.IsFor f.siblings f.name

def WordSite.put {f : WordField} (s : WordSite f) (d : Tree) : Tree := s.outer.put (s.inner.put d)

theorem readsPresented_json : ReadsPresented (parse "json") .json fun d => d.Presents specs :=
  fun _ _ hw => parse_json hw

/-- A word stands in the place, and any other word may stand there. -/
theorem presents_put {f : WordField} {s : WordSite f} {c : Config} {d : Tree}
    (h : (s.put d).Presents specs c) : (∃ n, d.IsWord n) ∧
      ∀ d' n, d'.IsWord n → (s.put d').Presents specs (f.place.set n c) := by
  obtain ⟨outer, inner, houter, hinner⟩ := s
  cases f with
  | jobs =>
    have hp : ⟨"engine", (·.engine), some {}, Tree.Presents EngineOptions.specs⟩ ∈ specs :=
      List.mem_cons_self ..
    have hq : ⟨"jobs", (·.jobs), some 0, Tree.IsWord⟩ ∈ EngineOptions.specs :=
      .tail _ (List.mem_cons_self ..)
    have hsection := h.means describes.nodup hp houter
    constructor
    · exact ⟨_, hsection.means EngineOptions.describes.nodup hq hinner⟩
    · intro d' n hd
      have hfield : (inner.put d').Presents EngineOptions.specs { c.engine with jobs := n } :=
        hsection.put EngineOptions.describes.nodup hq hinner hd (by simp [EngineOptions.specs])
      exact h.put describes.nodup hp houter hfield (by simp [specs, WordField.place])
  | methodThreshold =>
    have hp : ⟨"static_initializer", (·.staticInitializer), some {},
        Tree.Presents RuleOptions.specs⟩ ∈ specs := .tail _ (.tail _ (List.mem_cons_self ..))
    have hq : ⟨"method_threshold", (·.methodThreshold), some 50, Tree.IsWord⟩ ∈ RuleOptions.specs :=
      List.mem_cons_self ..
    have hsection := h.means describes.nodup hp houter
    constructor
    · exact ⟨_, hsection.means RuleOptions.describes.nodup hq hinner⟩
    · intro d' n hd
      have hfield : (inner.put d').Presents RuleOptions.specs
          { c.staticInitializer with methodThreshold := n } :=
        hsection.put RuleOptions.describes.nodup hq hinner hd (by simp [RuleOptions.specs])
      exact h.put describes.nodup hp houter hfield (by simp [specs, WordField.place])

theorem readsWords_json {f : WordField} (s : WordSite f) :
    ReadsWords (parse "json") .json s.put f.place :=
  readsPresented_json.readsWords (fun h _ hd => (presents_put h).2 _ _ hd)
    fun _ _ h => (presents_put h).1

end InitializerLint.Config
