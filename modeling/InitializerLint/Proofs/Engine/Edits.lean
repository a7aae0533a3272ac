import InitializerLint.Proofs.Engine.Findings
import Mathlib.Data.List.Forall2
import Mathlib.Logic.Relation

/-! Edits of a type that the rule does not see. Each keeps the view of the type, and an analysis
depends on its types through their views alone. -/
namespace InitializerLint

def Constructor.IsInitializer (k : Constructor) : Prop :=
  k.isStatic = true ∧ k.isImplicitlyDeclared = false

def Member.IsStaticMethod (m : Member) : Prop := m.kind = .method ∧ m.isStatic = true

instance (k : Constructor) : Decidable k.IsInitializer := inferInstanceAs (Decidable (_ ∧ _))
instance (m : Member) : Decidable m.IsStaticMethod := inferInstanceAs (Decidable (_ ∧ _))

namespace NamedType

/-- One edit of a type. -/
inductive Edit : NamedType → NamedType → Prop
  | permuteConstructors {t : NamedType} {ks : List Constructor} :
      t.constructors.Perm ks → Edit t { t with constructors := ks }
  | permuteMembers {t : NamedType} {ms : List Member} :
      t.members.Perm ms → Edit t { t with members := ms }
  | renameMember {t : NamedType} (before after : List Member) (m : Member) (name : String) :
      t.members = before ++ m :: after →
      Edit t { t with members := before ++ { m with name } :: after }
  | insertMember {t : NamedType} (before after : List Member) (m : Member) :
      t.members = before ++ after → ¬m.IsStaticMethod →
      Edit t { t with members := before ++ m :: after }
  | insertConstructor {t : NamedType} (before after : List Constructor) (k : Constructor) :
      t.constructors = before ++ after → ¬k.IsInitializer →
      Edit t { t with constructors := before ++ k :: after }
  | repeatInitializer {t : NamedType} (before after : List Constructor) (k : Constructor) :
      t.constructors = before ++ after → k ∈ t.constructors → k.IsInitializer →
      Edit t { t with constructors := before ++ k :: after }
  | changeLaterLocations {t : NamedType} {l : Location} {rest : List Location}
      (rest' : List Location) :
      t.locations = l :: rest → Edit t { t with locations := l :: rest' }

/-- Types that differ by edits, made or undone: what undoes an insertion is a removal. -/
def Edited : NamedType → NamedType → Prop := Relation.EqvGen Edit

/-- What an analysis uses of a type. -/
structure SameView (t u : NamedType) : Prop where
  view : TypeView.ofNamedType t = TypeView.ofNamedType u
  isGenerated : t.isGenerated = u.isGenerated

section view

variable {t u : NamedType}

theorem sameView_of_constructors {ks : List Constructor}
    (h : t.constructors.any (fun k => k.isStatic && !k.isImplicitlyDeclared) =
      ks.any fun k => k.isStatic && !k.isImplicitlyDeclared) :
    SameView t { t with constructors := ks } := by
  constructor
  · simp only [TypeView.ofNamedType, location?, h]
  · rfl

theorem sameView_of_members {ms : List Member}
    (h : t.members.countP (fun m => m.kind = .method && m.isStatic) =
      ms.countP fun m => m.kind = .method && m.isStatic) :
    SameView t { t with members := ms } := by
  constructor
  · simp only [TypeView.ofNamedType, location?, h]
  · rfl

theorem Edit.sameView (h : t.Edit u) : SameView t u := by
  cases h with
  | permuteConstructors hperm => exact sameView_of_constructors hperm.any_eq
  | permuteMembers hperm => exact sameView_of_members (hperm.countP_eq _)
  | renameMember before after m name hmembers =>
    apply sameView_of_members
    rw [hmembers, List.countP_append, List.countP_append, List.countP_cons, List.countP_cons]
  | insertMember before after m hmembers hm =>
    have hnot : (m.kind = .method && m.isStatic) = false := by
      simpa [Member.IsStaticMethod] using hm
    apply sameView_of_members
    rw [hmembers, List.countP_append, List.countP_append, List.countP_cons, hnot]
    rfl
  | insertConstructor before after k hconstructors hk =>
    have hnot : (k.isStatic && !k.isImplicitlyDeclared) = false := by
      simpa [Constructor.IsInitializer] using hk
    apply sameView_of_constructors
    rw [hconstructors, List.any_append, List.any_append, List.any_cons, hnot, Bool.false_or]
  | repeatInitializer before after k hconstructors hmem hk =>
    have hyes : (k.isStatic && !k.isImplicitlyDeclared) = true := by
      simpa [Constructor.IsInitializer] using hk
    have hthere : t.constructors.any (fun k => k.isStatic && !k.isImplicitlyDeclared) = true :=
      List.any_eq_true.mpr ⟨k, hmem, hyes⟩
    apply sameView_of_constructors
    rw [hthere, List.any_append, List.any_cons, hyes, Bool.true_or, Bool.or_true]
  | changeLaterLocations rest' hlocations =>
    constructor
    · simp only [TypeView.ofNamedType, location?, hlocations, List.head?_cons]
    · rfl

theorem Edited.sameView (h : t.Edited u) : SameView t u := by
  induction h with
  | rel _ _ h => exact h.sameView
  | refl _ => exact ⟨rfl, rfl⟩
  | symm _ _ _ ih => exact ⟨ih.view.symm, ih.isGenerated.symm⟩
  | trans _ _ _ _ _ ih ih' =>
    exact ⟨ih.view.trans ih'.view, ih.isGenerated.trans ih'.isGenerated⟩

end view
end NamedType

/-- Types may be edited; the other symbols are the same. -/
inductive Symbol.Edited : Symbol → Symbol → Prop
  | other (kind : OtherKind) (name : String) : Edited (.other kind name) (.other kind name)
  | namedType {t u : NamedType} : t.Edited u → Edited (.namedType t) (.namedType u)

namespace Engine

variable (e : Engine)

/-- A symbol is analyzed through the view of its type, and so are its records written. -/
theorem analyzeSymbol_congr {t u : NamedType} (h : t.SameView u) :
    e.analyzeSymbol (.namedType t) = e.analyzeSymbol (.namedType u) := by
  obtain ⟨hview, hgenerated⟩ := h
  have hname : t.displayName = u.displayName := congrArg TypeView.name hview
  simp only [analyzeSymbol, analyzeViewOf_namedType, hview, hgenerated, hname]

theorem analyzeSymbol_of_edited {s s' : Symbol} (h : s.Edited s') :
    e.analyzeSymbol s = e.analyzeSymbol s' := by
  cases h with
  | other kind name => rfl
  | namedType ht => exact e.analyzeSymbol_congr ht.sameView

theorem analyzeFrom_of_edited {xs ys : List Symbol} (h : List.Forall₂ Symbol.Edited xs ys)
    (total : Report) : e.analyzeFrom total xs = e.analyzeFrom total ys := by
  induction h generalizing total with
  | nil => rfl
  | cons hs _ ih => simp only [analyzeFrom, e.analyzeSymbol_of_edited hs, ih]

theorem analyze_of_edited {xs ys : List Symbol} (h : List.Forall₂ Symbol.Edited xs ys)
    (elapsed : Duration) : e.analyze xs elapsed = e.analyze ys elapsed := by
  rw [analyze, e.analyzeFrom_of_edited h, analyze]

/-- The time comes last in a log, and nothing before it depends on it. -/
theorem exists_log_analyze (symbols : List Symbol) : ∃ records text, ∀ elapsed : Duration,
    (e.analyze symbols elapsed).log = records ++ [⟨.info, text ++ elapsed.text⟩] :=
  ⟨_, _, fun _ => rfl⟩

end Engine

/-- Lists of symbols that differ by edits place by place give the same report, also from several
workers, whatever their schedules, and however long the analyses take. They give the same records
in the same time; in different times the records differ in nothing but the time. -/
theorem edits_change_nothing (c : Config) (xs ys : List Symbol)
    (h : List.Forall₂ Symbol.Edited xs ys) :
    (∀ elapsed elapsed' : Duration, ((Engine.new c).value.analyze xs elapsed).value =
        ((Engine.new c).value.analyze ys elapsed').value) ∧
      (∀ elapsed : Duration, ((Engine.new c).value.analyze xs elapsed).log =
        ((Engine.new c).value.analyze ys elapsed).log) ∧
      (∃ records text, ∀ elapsed elapsed' : Duration,
        ((Engine.new c).value.analyze xs elapsed).log =
            records ++ [⟨.info, text ++ elapsed.text⟩] ∧
          ((Engine.new c).value.analyze ys elapsed').log =
            records ++ [⟨.info, text ++ elapsed'.text⟩]) ∧
      ∀ (work : Schedule xs.length) (work' : Schedule ys.length),
        (Engine.new c).value.run? xs work = (Engine.new c).value.run? ys work' := by
  generalize (Engine.new c).value = e
  have hreport : e.report xs = e.report ys := congrArg Logged.value (e.analyzeFrom_of_edited h {})
  have hlog (elapsed : Duration) : (e.analyze xs elapsed).log = (e.analyze ys elapsed).log :=
    congrArg Logged.log (e.analyze_of_edited h elapsed)
  obtain ⟨records, text, htext⟩ := e.exists_log_analyze ys
  refine ⟨fun _ _ => hreport, hlog, ⟨records, text, fun elapsed elapsed' => ?_⟩, fun work work' => ?_⟩
  · exact ⟨(hlog elapsed).trans (htext elapsed), htext elapsed'⟩
  · rw [Engine.run?_eq, Engine.run?_eq, hreport]

/-- A type declared once, with a field beside its only static method. -/
def plainType : NamedType where
  displayName := "A"
  constructors := [⟨true, false⟩]
  members := [⟨"F", .field, true⟩, ⟨"M", .method, true⟩]
  locations := [⟨"a.cs", 1, 2, 0⟩]

/-- The same without the field, the method renamed, the initializer repeated in front of another
constructor, and declared once more. -/
def editedType : NamedType where
  displayName := "A"
  constructors := [⟨true, false⟩, ⟨true, false⟩, ⟨false, false⟩]
  members := [⟨"N", .method, true⟩]
  locations := [⟨"a.cs", 1, 2, 0⟩, ⟨"b.cs", 3, 4, 0⟩]

theorem edited_editedType : plainType.Edited editedType := by
  let field : Member := ⟨"F", .field, true⟩
  let withoutField : NamedType := { plainType with members := [⟨"M", .method, true⟩] }
  let renamed : NamedType := { plainType with members := [⟨"N", .method, true⟩] }
  let repeated : NamedType := { renamed with constructors := [⟨true, false⟩, ⟨true, false⟩] }
  let extended : NamedType := { repeated with constructors := editedType.constructors }
  have hfield : withoutField.Edit plainType :=
    .insertMember [] withoutField.members field rfl (by decide)
  have hrename : withoutField.Edit renamed := .renameMember [] [] ⟨"M", .method, true⟩ "N" rfl
  have hrepeat : renamed.Edit repeated :=
    .repeatInitializer [] renamed.constructors ⟨true, false⟩ rfl (by decide) (by decide)
  have hextend : repeated.Edit extended :=
    .insertConstructor repeated.constructors [] ⟨false, false⟩ rfl (by decide)
  have hlocations : extended.Edit editedType := .changeLaterLocations [⟨"b.cs", 3, 4, 0⟩] rfl
  have hremoved : plainType.Edited withoutField := .symm _ _ (.rel _ _ hfield)
  exact .trans _ _ _ hremoved <| .trans _ _ _ (.rel _ _ hrename) <|
    .trans _ _ _ (.rel _ _ hrepeat) <| .trans _ _ _ (.rel _ _ hextend) (.rel _ _ hlocations)

/-- The finding on the one type is the finding on the other, and analyses of unequal length leave logs
that differ in the time alone. -/
theorem edits_change_nothing_reported :
    let e := (Engine.new { staticInitializer := ⟨0⟩ }).value
    let edited : List Symbol := [.namedType editedType, .other .event "E"]
    let plain : List Symbol := [.namedType plainType, .other .event "E"]
    (e.analyze edited ⟨1, 0⟩).value.findings = [plainType.warning] ∧
      (e.analyze edited ⟨1, 0⟩).log = (e.analyze plain ⟨1, 0⟩).log ∧
      ∃ records text, (e.analyze edited ⟨1, 0⟩).log = records ++ [⟨.info, text ++ "1s"⟩] ∧
        (e.analyze plain ⟨0, 1500⟩).log = records ++ [⟨.info, text ++ "1.5µs"⟩] := by
  intro e edited plain
  have hedited : List.Forall₂ Symbol.Edited plain edited :=
    .cons (.namedType edited_editedType) (.cons (.other .event "E") .nil)
  obtain ⟨hvalue, hlog, ⟨records, text, hrecords⟩, -⟩ :=
    edits_change_nothing { staticInitializer := ⟨0⟩ } _ _ hedited
  have hreported : Reported { staticInitializer := ⟨0⟩ } plainType := by decide
  have hfound : (e.analyze plain ⟨1, 0⟩).value.findings = [plainType.warning] := by
    rw [Engine.value_analyze, Engine.findings_report]
    simp [plain, Symbol.warning?, hreported]
  rw [hvalue ⟨1, 0⟩ ⟨1, 0⟩] at hfound
  obtain ⟨hplain, hafter⟩ := hrecords ⟨0, 1500⟩ ⟨1, 0⟩
  exact ⟨hfound, (hlog _).symm, records, text, hafter, hplain⟩

end InitializerLint
