import InitializerLint.Proofs.Engine.Edits
import InitializerLint.Symbol.Build
import Mathlib.Algebra.GroupWithZero.Nat
import Mathlib.Data.List.Basic

/-! Types built step by step. A step adds its constructors, members and locations behind those that
are there, so the view of the result is read off the steps, and a generated member is named after
its place. -/
namespace InitializerLint

/-- Where a member of a built type comes from. -/
inductive MemberOrigin where
  | given (m : Member)
  | staticMethod
  | instanceMethod

namespace MemberOrigin

/-- The member of this origin that stands at place `i`. -/
def memberAt (i : Nat) : MemberOrigin → Member
  | given m => m
  | staticMethod => .staticMethod ("Method" ++ toString i)
  | instanceMethod => .instanceMethod ("Instance" ++ toString i)

def IsGenerated (o : MemberOrigin) : Prop := o = staticMethod ∨ o = instanceMethod

theorem isStaticMethod_memberAt (o : MemberOrigin) (i j : Nat) :
    (o.memberAt i).IsStaticMethod ↔ (o.memberAt j).IsStaticMethod := by cases o <;> rfl

private theorem numbered_inj {word : String} {i j : Nat}
    (h : word ++ toString i = word ++ toString j) : i = j := by
  have htext : toString i = toString j := (String.append_right_inj word).mp h
  have hdigits : Nat.toDigits 10 i = Nat.toDigits 10 j := by
    rwa [Nat.toString_eq_ofList_toDigits, Nat.toString_eq_ofList_toDigits,
      String.ofList_inj] at htext
  calc
    i = Nat.ofDigitChars 10 (Nat.toDigits 10 i) 0 := Nat.ofDigitChars_ten_toDigits.symm
    _ = Nat.ofDigitChars 10 (Nat.toDigits 10 j) 0 := by rw [hdigits]
    _ = j := Nat.ofDigitChars_ten_toDigits

private theorem method_ne_instance (i j : Nat) :
    "Method" ++ toString i ≠ "Instance" ++ toString j := by
  intro h
  have hfirst := congrArg (·.toList.head?) h
  simp at hfirst

/-- A generated name gives away the place of its member. -/
theorem place_of_name {o o' : MemberOrigin} (ho : o.IsGenerated) (ho' : o'.IsGenerated) {i j : Nat}
    (h : (o.memberAt i).name = (o'.memberAt j).name) : i = j := by
  obtain rfl | rfl := ho <;> obtain rfl | rfl := ho'
  · exact numbered_inj h
  · exact absurd h (method_ne_instance i j)
  · exact absurd h.symm (method_ne_instance j i)
  · exact numbered_inj h

end MemberOrigin

namespace BuildStep

def constructor? : BuildStep → Option Constructor
  | constructor k => some k
  | _ => none

def location? : BuildStep → Option Location
  | location l => some l
  | _ => none

/-- One origin for each member that the step adds. -/
def origins : BuildStep → List MemberOrigin
  | member m => [.given m]
  | staticMethods n => List.replicate n .staticMethod
  | instanceMethods n => List.replicate n .instanceMethod
  | _ => []

/-- How many static methods the step is asked to generate. -/
def generatedStatics : BuildStep → Nat
  | staticMethods n => n
  | _ => 0

/-- The step adds a static method of the caller's. -/
def givesStaticMethod : BuildStep → Bool
  | member m => m.IsStaticMethod
  | _ => false

theorem constructor?_eq_some {step : BuildStep} {k : Constructor} :
    step.constructor? = some k ↔ step = .constructor k := by
  cases step <;> simp [constructor?]

theorem countP_origins (step : BuildStep) :
    step.origins.countP (fun o => (o.memberAt 0).IsStaticMethod) =
      step.generatedStatics + if step.givesStaticMethod then 1 else 0 := by
  cases step with
  | member m => simp [origins, generatedStatics, givesStaticMethod, MemberOrigin.memberAt]
  | staticMethods n =>
    simp [origins, generatedStatics, givesStaticMethod, MemberOrigin.memberAt,
      Member.IsStaticMethod, Member.staticMethod, List.countP_replicate]
  | instanceMethods n =>
    simp [origins, generatedStatics, givesStaticMethod, MemberOrigin.memberAt,
      Member.IsStaticMethod, Member.instanceMethod, List.countP_replicate]
  | constructor _ => rfl
  | location _ => rfl
  | generated => rfl

end BuildStep

/-- Where the members of a built type come from, place by place. -/
def originsOf (steps : List BuildStep) : List MemberOrigin := steps.flatMap BuildStep.origins

theorem originsOf_cons (step : BuildStep) (steps : List BuildStep) :
    originsOf (step :: steps) = step.origins ++ originsOf steps := List.flatMap_cons

namespace NamedType

section step

variable (t : NamedType) (step : BuildStep)

theorem displayName_apply : (t.apply step).displayName = t.displayName := by cases step <;> rfl

theorem constructors_apply :
    (t.apply step).constructors = t.constructors ++ step.constructor?.toList := by
  cases step <;> simp [apply, generateMembers, BuildStep.constructor?]

theorem locations_apply : (t.apply step).locations = t.locations ++ step.location?.toList := by
  cases step <;> simp [apply, generateMembers, BuildStep.location?]

/-- Generated members are numbered on from those that are there. -/
theorem map_memberAt_range' (start n : Nat) (o : MemberOrigin) :
    (List.range' start n).map (fun i => o.memberAt i) =
      (List.replicate n o).mapIdx fun i o => o.memberAt (i + start) := by
  induction n generalizing start with
  | zero => rfl
  | succ n ih =>
    rw [List.range'_succ, List.replicate_succ, List.map_cons, List.mapIdx_cons, ih, Nat.zero_add]
    simp only [Nat.add_right_comm, Nat.add_assoc]

theorem members_apply :
    (t.apply step).members =
      t.members ++ step.origins.mapIdx fun i o => o.memberAt (i + t.members.length) := by
  cases step with
  | member m => rfl
  | staticMethods n => exact congrArg (t.members ++ ·) (map_memberAt_range' _ n .staticMethod)
  | instanceMethods n => exact congrArg (t.members ++ ·) (map_memberAt_range' _ n .instanceMethod)
  | constructor _ => exact (List.append_nil _).symm
  | location _ => exact (List.append_nil _).symm
  | generated => exact (List.append_nil _).symm

end step

section run

variable (t : NamedType) (steps : List BuildStep)

theorem displayName_foldl : (steps.foldl apply t).displayName = t.displayName := by
  induction steps generalizing t with
  | nil => rfl
  | cons step steps ih => rw [List.foldl_cons, ih, displayName_apply]

/-- What each step adds to a list of the type, a run of steps adds in their order. -/
theorem foldl_of_append {α : Type} (field : NamedType → List α) (added : BuildStep → Option α)
    (h : ∀ t step, field (t.apply step) = field t ++ (added step).toList) :
    field (steps.foldl apply t) = field t ++ steps.filterMap added := by
  induction steps generalizing t with
  | nil => exact (List.append_nil _).symm
  | cons step steps ih =>
    rw [List.foldl_cons, ih, h, List.append_assoc, List.filterMap_eq_flatMap_toList,
      List.filterMap_eq_flatMap_toList, List.flatMap_cons]

theorem members_foldl :
    (steps.foldl apply t).members =
      t.members ++ (originsOf steps).mapIdx fun i o => o.memberAt (i + t.members.length) := by
  induction steps generalizing t with
  | nil => exact (List.append_nil _).symm
  | cons step steps ih =>
    -- the places of the later members are counted from behind those of this step
    have hlength : (t.apply step).members.length = step.origins.length + t.members.length := by
      rw [members_apply, List.length_append, List.length_mapIdx, Nat.add_comm]
    rw [List.foldl_cons, ih, hlength, members_apply, originsOf_cons, List.mapIdx_append,
      List.append_assoc]
    simp only [Nat.add_assoc]

end run

section build

variable (name : String) (steps : List BuildStep)

theorem displayName_build : (build name steps).displayName = name := displayName_foldl _ steps

theorem constructors_build :
    (build name steps).constructors = steps.filterMap BuildStep.constructor? :=
  foldl_of_append _ steps constructors BuildStep.constructor? constructors_apply

theorem locations_build :
    (build name steps).locations = steps.filterMap BuildStep.location? :=
  foldl_of_append _ steps locations BuildStep.location? locations_apply

theorem members_build :
    (build name steps).members = (originsOf steps).mapIdx MemberOrigin.memberAt :=
  members_foldl _ steps

/-- Whether a member is a static method does not depend on its place. -/
theorem countP_members_build :
    (build name steps).members.countP (·.IsStaticMethod) =
      (originsOf steps).countP fun o => (o.memberAt 0).IsStaticMethod := by
  have hplace : (fun x : MemberOrigin × Nat => decide (x.1.memberAt x.2).IsStaticMethod) =
      (fun o => decide (o.memberAt 0).IsStaticMethod) ∘ Prod.fst := by
    funext x
    exact decide_eq_decide.mpr (x.1.isStaticMethod_memberAt x.2 0)
  rw [members_build, List.mapIdx_eq_zipIdx_map, List.countP_map]
  refine (congrArg (List.countP · _) hplace).trans ?_
  rw [← List.countP_map, List.zipIdx_map_fst]

theorem countP_originsOf :
    (originsOf steps).countP (fun o => (o.memberAt 0).IsStaticMethod) =
      (steps.map BuildStep.generatedStatics).sum + steps.countP BuildStep.givesStaticMethod := by
  induction steps with
  | nil => rfl
  | cons step steps ih =>
    rw [originsOf_cons, List.countP_append, ih, step.countP_origins, List.map_cons, List.sum_cons,
      List.countP_cons]
    omega

end build

end NamedType

attribute [ext] TypeView

namespace TypeView

variable (t : NamedType)

theorem staticMethodCount_ofNamedType :
    (ofNamedType t).staticMethodCount = t.members.countP (·.IsStaticMethod) := by
  have hsame : (fun m : Member => decide (m.kind = .method) && m.isStatic) =
      fun m => decide m.IsStaticMethod := by
    funext m
    rw [Bool.eq_iff_iff, Bool.and_eq_true, decide_eq_true_iff, decide_eq_true_iff]
    rfl
  exact congrArg (List.countP · t.members) hsame

theorem hasStaticInitializer_ofNamedType :
    (ofNamedType t).hasStaticInitializer = true ↔ ∃ k ∈ t.constructors, k.IsInitializer := by
  simp [ofNamedType, Constructor.IsInitializer]

end TypeView

/-- What there is to see of the type `name` built by these steps. -/
structure SeenAs (name : String) (steps : List BuildStep) (v : TypeView) : Prop where
  name_eq : v.name = name
  staticMethodCount_eq : v.staticMethodCount =
    (steps.map BuildStep.generatedStatics).sum + steps.countP BuildStep.givesStaticMethod
  hasStaticInitializer_iff : v.hasStaticInitializer = true ↔
    ∃ k, BuildStep.constructor k ∈ steps ∧ k.IsInitializer
  location_eq : v.location = steps.findSome? BuildStep.location?

/-- The same steps in another order, with the locations in the order they had. -/
structure Reordered (steps steps' : List BuildStep) : Prop where
  perm : steps.Perm steps'
  locations_eq : steps.filterMap BuildStep.location? = steps'.filterMap BuildStep.location?

/-- The members that a type built by these steps has. A generated member is named after the place
that it has in the end, so no two of them share a name. -/
structure Numbered (steps : List BuildStep) (members : List Member) : Prop where
  length_eq : members.length = (originsOf steps).length
  given {i : Nat} {m : Member} : (originsOf steps)[i]? = some (.given m) → members[i]? = some m
  staticMethod {i : Nat} : (originsOf steps)[i]? = some .staticMethod →
    members[i]? = some (.staticMethod ("Method" ++ toString i))
  instanceMethod {i : Nat} : (originsOf steps)[i]? = some .instanceMethod →
    members[i]? = some (.instanceMethod ("Instance" ++ toString i))
  distinct {i j : Nat} {o o' : MemberOrigin} {m m' : Member} : i ≠ j →
    (originsOf steps)[i]? = some o → o.IsGenerated → members[i]? = some m →
    (originsOf steps)[j]? = some o' → o'.IsGenerated → members[j]? = some m' → m.name ≠ m'.name

namespace SeenAs

variable {name : String} {steps steps' : List BuildStep} {v v' : TypeView}

theorem ofNamedType_build (name : String) (steps : List BuildStep) :
    SeenAs name steps (TypeView.ofNamedType (.build name steps)) where
  name_eq := NamedType.displayName_build name steps
  staticMethodCount_eq := by
    rw [TypeView.staticMethodCount_ofNamedType, NamedType.countP_members_build,
      NamedType.countP_originsOf]
  hasStaticInitializer_iff := by
    rw [TypeView.hasStaticInitializer_ofNamedType, NamedType.constructors_build]
    simp only [List.mem_filterMap, BuildStep.constructor?_eq_some, exists_eq_right]
  location_eq := by
    rw [← List.head?_filterMap, ← NamedType.locations_build name steps]
    rfl

theorem eq_of_reordered (h : Reordered steps steps') (hv : SeenAs name steps v)
    (hv' : SeenAs name steps' v') : v = v' := by
  have hname : v.name = v'.name := hv.name_eq.trans hv'.name_eq.symm
  have hcount : v.staticMethodCount = v'.staticMethodCount := by
    rw [hv.staticMethodCount_eq, hv'.staticMethodCount_eq, (h.perm.map _).sum_nat,
      h.perm.countP_eq]
  have hinitializer : v.hasStaticInitializer = v'.hasStaticInitializer := by
    rw [Bool.eq_iff_iff, hv.hasStaticInitializer_iff, hv'.hasStaticInitializer_iff]
    simp only [h.perm.mem_iff]
  have hlocation : v.location = v'.location := by
    rw [hv.location_eq, hv'.location_eq, ← List.head?_filterMap, h.locations_eq,
      List.head?_filterMap]
  exact TypeView.ext hname hinitializer hcount hlocation

end SeenAs

theorem numbered_build (name : String) (steps : List BuildStep) :
    Numbered steps (NamedType.build name steps).members := by
  have hat {i : Nat} {o : MemberOrigin} (ho : (originsOf steps)[i]? = some o) :
      (NamedType.build name steps).members[i]? = some (o.memberAt i) := by
    rw [NamedType.members_build, List.getElem?_mapIdx, ho]
    rfl
  constructor
  case length_eq => rw [NamedType.members_build, List.length_mapIdx]
  case given => exact hat
  case staticMethod => exact hat
  case instanceMethod => exact hat
  case distinct =>
    intro i j o o' m m' hne ho hgenerated hm ho' hgenerated' hm' hname
    obtain rfl : o.memberAt i = m := Option.some.inj ((hat ho).symm.trans hm)
    obtain rfl : o'.memberAt j = m' := Option.some.inj ((hat ho').symm.trans hm')
    exact hne (MemberOrigin.place_of_name hgenerated hgenerated' hname)

/-- The adapter takes every built type, sees in it what the steps say, whatever their order, and
finds the generated members numbered by place. -/
theorem built_types_follow_steps (name : String) (steps : List BuildStep) :
    (∃ v, TypeView.ofSymbol (.namedType (.build name steps)) = .ok v ∧ SeenAs name steps v) ∧
      (∀ steps', Reordered steps steps' →
        TypeView.ofSymbol (.namedType (.build name steps')) =
          TypeView.ofSymbol (.namedType (.build name steps))) ∧
      Numbered steps (NamedType.build name steps).members := by
  have hseen := SeenAs.ofNamedType_build name steps
  refine ⟨⟨_, rfl, hseen⟩, ?_, numbered_build name steps⟩
  intro steps' hsteps
  have hseen' := SeenAs.ofNamedType_build name steps'
  exact congrArg Except.ok (SeenAs.eq_of_reordered hsteps hseen hseen').symm

/-- A given member has the name that a generated one will have. -/
def someSteps : List BuildStep :=
  [.member ⟨"Method1", .method, true⟩, .staticMethods 2, .constructor Constructor.static.implicit,
    .constructor .static, .instanceMethods 1]

def mixedSteps : List BuildStep :=
  .location ⟨"a.cs", 1, 2, 0⟩ ::
    (someSteps ++ .location ⟨"b.cs", 3, 4, 0⟩ :: [.generated, .staticMethods 1])

/-- The same with both locations first. -/
def movedSteps : List BuildStep :=
  .location ⟨"a.cs", 1, 2, 0⟩ :: .location ⟨"b.cs", 3, 4, 0⟩ ::
    (someSteps ++ [.generated, .staticMethods 1])

theorem reordered_movedSteps : Reordered mixedSteps movedSteps := ⟨.cons _ List.perm_middle, rfl⟩

/-- Four static methods, the given one among them, and two from different steps told apart. -/
theorem built_types_follow_steps_mixed :
    TypeView.ofSymbol (.namedType (.build "A" movedSteps)) =
        .ok ⟨"A", true, 4, some ⟨"a.cs", 1, 2, 0⟩⟩ ∧
      (NamedType.build "A" mixedSteps).members[1]? = some (.staticMethod "Method1") ∧
      (NamedType.build "A" mixedSteps).members[3]? = some (.instanceMethod "Instance3") ∧
      (NamedType.build "A" mixedSteps).members[4]? = some (.staticMethod "Method4") ∧
      "Method1" ≠ "Method4" := by
  obtain ⟨⟨v, hv, hseen⟩, hmoved, hnumbered⟩ := built_types_follow_steps "A" mixedSteps
  have hinitializer : v.hasStaticInitializer = true :=
    hseen.hasStaticInitializer_iff.mpr ⟨.static, by simp [mixedSteps, someSteps], by decide⟩
  have hview : v = ⟨"A", true, 4, some ⟨"a.cs", 1, 2, 0⟩⟩ :=
    TypeView.ext hseen.name_eq hinitializer hseen.staticMethodCount_eq hseen.location_eq
  have hfirst := hnumbered.staticMethod (i := 1) rfl
  have hinstance := hnumbered.instanceMethod (i := 3) rfl
  have hlast := hnumbered.staticMethod (i := 4) rfl
  have hne := hnumbered.distinct (by decide) rfl (.inl rfl) hfirst rfl (.inl rfl) hlast
  rw [hmoved movedSteps reordered_movedSteps, hv, hview]
  exact ⟨rfl, hfirst, hinstance, hlast, hne⟩

end InitializerLint
