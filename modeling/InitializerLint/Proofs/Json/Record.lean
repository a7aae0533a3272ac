import InitializerLint.Proofs.Json.TreeReader
import Mathlib.Data.List.Forall2
import Mathlib.Data.List.Nodup

/-! What a record may look like in a tree: an object with an entry for each field, in any order
and with others among them, or the list of the fields. Reading a record finds exactly that. -/
namespace InitializerLint.Json

open Data (Field Schema)

/-- A place for a field: whether it may stay empty, and which trees may be put there. -/
structure Slot where
  name : String
  Empty : Prop
  Fits : Tree → Prop

/-- The trees given for a field. More than one is too many. -/
def Slot.Holds (s : Slot) : List Tree → Prop
  | [] => s.Empty
  | [d] => s.Fits d
  | _ :: _ :: _ => False

namespace Tree

/-- The trees that stand under a key. -/
def under (key : String) (es : List (Spelling × Tree)) : List Tree :=
  (es.filter fun e => Spelling.text? e.1 = some key).map (·.2)

/-- Slots filled one after the other; those not reached stay empty. -/
def FillInOrder : List Slot → List Tree → Prop
  | [], [] => True
  | [], _ :: _ => False
  | s :: slots, [] => s.Holds [] ∧ FillInOrder slots []
  | s :: slots, d :: ds => s.Holds [d] ∧ FillInOrder slots ds

/-- In an object each slot takes what stands under its name, and other entries do not matter. -/
def Fills (slots : List Slot) : Tree → Prop
  | .object es => (∀ e ∈ es, (Spelling.text? e.1).isSome) ∧ ∀ s ∈ slots, s.Holds (under s.name es)
  | .list ds => FillInOrder slots ds
  | _ => False

theorem under_cons_self {key : String} {k : Spelling} (h : Spelling.text? k = some key) (d : Tree)
    (es : List (Spelling × Tree)) : under key ((k, d) :: es) = d :: under key es := by
  simp [under, h]

theorem under_cons_other {key key' : String} {k : Spelling} (h : Spelling.text? k = some key')
    (hne : key ≠ key') (d : Tree) (es : List (Spelling × Tree)) :
    under key ((k, d) :: es) = under key es := by
  simp [under, h, hne.symm]

theorem under_append (key : String) (es fs : List (Spelling × Tree)) :
    under key (es ++ fs) = under key es ++ under key fs := by
  simp [under]

end Tree

/-- A field of a record: its content, what that is if the field is left out, and which trees
stand for it. -/
structure FieldSpec (α : Type) where
  name : String
  {Content : Type}
  get : α → Content
  default? : Option Content
  Means : Tree → Content → Prop

def FieldSpec.slot {α : Type} (a : α) (p : FieldSpec α) : Slot where
  name := p.name
  Empty := p.default? = some (p.get a)
  Fits d := p.Means d (p.get a)

/-- The place of the field whatever its content. -/
def FieldSpec.shape {α : Type} (p : FieldSpec α) : Slot where
  name := p.name
  Empty := p.default?.isSome
  Fits d := ∃ c, p.Means d c

/-- The tree has the contents of `a` in the places of its fields. -/
def Tree.Presents {α : Type} (specs : List (FieldSpec α)) (d : Tree) (a : α) : Prop :=
  d.Fills (specs.map (·.slot a))

namespace TreeReader

variable {α : Type}

/-- Reading a field finds what its tree means and leaves the other fields alone. -/
structure FieldReads (specs : List (FieldSpec α)) (f : Field TreeReader α) (p : FieldSpec α) :
    Prop where
  name : f.name = p.name
  required : f.required = p.default?.isNone
  sound : ∀ {a d a'}, f.read a d = some a' →
    p.Means d (p.get a') ∧ ∀ q ∈ specs, q.name ≠ p.name → q.get a' = q.get a
  complete : ∀ {d c}, p.Means d c → ∀ a, ∃ a', f.read a d = some a' ∧ p.get a' = c

structure Describes (specs : List (FieldSpec α)) (s : Schema TreeReader α) : Prop where
  fields : List.Forall₂ (FieldReads specs) s.fields specs
  nodup : (specs.map (·.name)).Nodup
  blank : ∀ p ∈ specs, ∀ c ∈ p.default?, p.get s.blank = c
  ext : ∀ a b, (∀ p ∈ specs, p.get a = p.get b) → a = b

theorem FieldReads.of_set {specs : List (FieldSpec α)} {f : Field TreeReader α} {p : FieldSpec α}
    (set : α → p.Content → α) (φ : TreeReader p.Content) (name : f.name = p.name)
    (required : f.required = p.default?.isNone)
    (read : f.read = fun a => do return set a (← φ))
    (hφ : ∀ d c, φ d = some c ↔ p.Means d c)
    (get_set : ∀ a c, p.get (set a c) = c)
    (frame : ∀ q ∈ specs, q.name ≠ p.name → ∀ a c, q.get (set a c) = q.get a) :
    FieldReads specs f p := by
  have hread (a : α) (d : Tree) : f.read a d = (φ d).map (set a) := by
    rw [read]
    exact (Option.map_eq_bind ..).symm
  refine ⟨name, required, fun {a d a'} h => ?_, fun {d c} h a => ?_⟩
  · rw [hread] at h
    obtain ⟨c, hc, rfl⟩ := Option.map_eq_some_iff.mp h
    refine ⟨?_, fun q hq hne => frame q hq hne a c⟩
    rw [get_set]
    exact (hφ d c).mp hc
  · exact ⟨set a c, by rw [hread, (hφ d c).mpr h]; rfl, get_set a c⟩

section fields

variable {specs ps : List (FieldSpec α)} {fs : List (Field TreeReader α)}

theorem find?_fields (h : List.Forall₂ (FieldReads specs) fs ps) (key : String) :
    (fs.find? (·.name == key) = none ∧ ∀ p ∈ ps, p.name ≠ key) ∨
      ∃ f p, fs.find? (·.name == key) = some f ∧ p ∈ ps ∧ p.name = key ∧ FieldReads specs f p := by
  induction h with
  | nil => exact .inl ⟨rfl, by simp⟩
  | @cons f p fs ps hfp _ ih =>
    rw [List.find?_cons, hfp.name]
    by_cases hk : p.name = key
    · simp only [hk, beq_self_eq_true]
      exact .inr ⟨f, p, rfl, by simp, hk, hfp⟩
    · simp only [beq_eq_false_iff_ne.mpr hk]
      rcases ih with ⟨hn, hne⟩ | ⟨g, q, hg, hq, hgq⟩
      · exact .inl ⟨hn, by simpa [hk] using hne⟩
      · exact .inr ⟨g, q, hg, by simp [hq], hgq⟩

theorem missing?_fields (h : List.Forall₂ (FieldReads specs) fs ps) (given : List String) :
    fs.find? (fun f => f.required && !given.contains f.name) = none ↔
      ∀ p ∈ ps, p.name ∈ given ∨ p.default?.isSome := by
  induction h with
  | nil => simp
  | @cons f p fs ps hfp _ ih =>
    rw [List.find?_cons, hfp.name, hfp.required, List.forall_mem_cons, ← ih]
    cases p.default? <;> by_cases hg : p.name ∈ given <;> simp [hg]

end fields

section record

variable {specs : List (FieldSpec α)} {s : Schema TreeReader α}

/-- What is still to be found for a field, given where the record under construction stands. -/
def Remains (given : List String) (a b : α) (p : FieldSpec α) : List Tree → Prop
  | [] => p.get b = p.get a ∧ (p.name ∈ given ∨ p.default?.isSome)
  | [d] => p.name ∉ given ∧ p.Means d (p.get b)
  | _ :: _ :: _ => False

private theorem remains_unknown {given : List String} {a b : α} {p : FieldSpec α} {key : String}
    (h : p.name ≠ key) (ds : List Tree) :
    Remains (key :: given) a b p ds ↔ Remains given a b p ds := by
  unfold Remains
  split <;> simp [h]

theorem Describes.eq_of_name (h : Describes specs s) {p q : FieldSpec α} (hp : p ∈ specs)
    (hq : q ∈ specs) (hn : p.name = q.name) : p = q :=
  List.inj_on_of_nodup_map h.nodup hp hq hn

theorem Describes.eq_iff (h : Describes specs s) (a b : α) :
    a = b ↔ ∀ p ∈ specs, p.get b = p.get a :=
  ⟨fun hab p _ => by rw [hab], fun hp => (h.ext b a hp).symm⟩

section read

variable {f : Field TreeReader α} {p : FieldSpec α} {k : Spelling} {given : List String} {a b : α}
  {d : Tree} {es : List (Spelling × Tree)}

/-- After a field was read it must not be given again, and the other fields are where they were. -/
private theorem remains_of_read (h : Describes specs s) (hp : p ∈ specs)
    (hfp : FieldReads specs f p) (hk : Spelling.text? k = some p.name) (hg : p.name ∉ given) {a' : α}
    (ha' : f.read a d = some a')
    (hr : ∀ q ∈ specs, Remains (p.name :: given) a' b q (Tree.under q.name es)) :
    ∀ q ∈ specs, Remains given a b q (Tree.under q.name ((k, d) :: es)) := by
  intro q hq
  obtain ⟨hm, hframe⟩ := hfp.sound ha'
  have hrq := hr q hq
  by_cases hn : q.name = p.name
  · obtain rfl := h.eq_of_name hq hp hn
    rw [Tree.under_cons_self hk]
    match hu : Tree.under q.name es, hrq with
    | [], hrq =>
      refine ⟨hg, ?_⟩
      rw [hrq.1]
      exact hm
    | [_], hrq => exact absurd (List.mem_cons_self ..) hrq.1
  · rw [Tree.under_cons_other hk hn]
    have hrq := (remains_unknown hn _).mp hrq
    unfold Remains at hrq ⊢
    rwa [hframe q hq hn] at hrq

private theorem exists_read_of_remains (h : Describes specs s) (hp : p ∈ specs)
    (hfp : FieldReads specs f p) (hk : Spelling.text? k = some p.name)
    (hr : ∀ q ∈ specs, Remains given a b q (Tree.under q.name ((k, d) :: es))) :
    ∃ a', f.read a d = some a' ∧
      ∀ q ∈ specs, Remains (p.name :: given) a' b q (Tree.under q.name es) := by
  have hrp := hr p hp
  rw [Tree.under_cons_self hk] at hrp
  match hu : Tree.under p.name es, hrp with
  | [], hrp =>
    obtain ⟨a', ha', hget⟩ := hfp.complete hrp.2 a
    refine ⟨a', ha', fun q hq => ?_⟩
    by_cases hn : q.name = p.name
    · obtain rfl := h.eq_of_name hq hp hn
      rw [hu]
      exact ⟨hget.symm, .inl (List.mem_cons_self ..)⟩
    · have hrq := hr q hq
      rw [Tree.under_cons_other hk hn] at hrq
      rw [remains_unknown hn]
      unfold Remains at hrq ⊢
      rwa [(hfp.sound ha').2 q hq hn]

end read

section step

variable {k : Spelling} {key : String} {f : Field TreeReader α} {given : List String}

theorem fieldsFrom_unknown (hk : Spelling.text? k = some key) (hf : s.find? key = none) (a : α)
    (d : Tree) (es : List (Spelling × Tree)) :
    fieldsFrom s given a ((k, d) :: es) = fieldsFrom s (key :: given) a es := by
  simp [fieldsFrom, hk, hf]

theorem fieldsFrom_given (hk : Spelling.text? k = some key) (hf : s.find? key = some f)
    (hg : key ∈ given) (a : α) (d : Tree) (es : List (Spelling × Tree)) :
    fieldsFrom s given a ((k, d) :: es) = none := by
  simp [fieldsFrom, hk, hf, hg]

theorem fieldsFrom_known (hk : Spelling.text? k = some key) (hf : s.find? key = some f)
    (hg : key ∉ given) (a : α) (d : Tree) (es : List (Spelling × Tree)) :
    fieldsFrom s given a ((k, d) :: es) =
      (f.read a d).bind fun a' => fieldsFrom s (key :: given) a' es := by
  simp [fieldsFrom, hk, hf, hg]

end step

/-- The induction is on the entries and carries the fields given so far. -/
theorem fieldsFrom_eq_some (h : Describes specs s) (given : List String) (a b : α)
    (es : List (Spelling × Tree)) :
    fieldsFrom s given a es = some b ↔ (∀ e ∈ es, (Spelling.text? e.1).isSome) ∧
      ∀ p ∈ specs, Remains given a b p (Tree.under p.name es) := by
  induction es generalizing given a with
  | nil =>
    have hm : (s.missing? given).isSome = false ↔ ∀ p ∈ specs, p.name ∈ given ∨ p.default?.isSome := by
      rw [← missing?_fields h.fields given]
      simp [Schema.missing?]
    have hsome : fieldsFrom s given a [] = some b ↔ a = b ∧ (s.missing? given).isSome = false := by
      rw [fieldsFrom]
      cases (s.missing? given).isSome <;> simp
    rw [hsome, hm, h.eq_iff a b]
    simp [Tree.under, Remains, forall_and]
  | cons e es ih =>
    obtain ⟨k, d⟩ := e
    cases hk : Spelling.text? k with
    | none => simp [fieldsFrom, hk]
    | some key =>
      rcases find?_fields h.fields key with ⟨hf, hne⟩ | ⟨f, p, hf, hp, rfl, hfp⟩
      · have hr (p : FieldSpec α) (hp : p ∈ specs) :
            Remains (key :: given) a b p (Tree.under p.name es) ↔
              Remains given a b p (Tree.under p.name ((k, d) :: es)) := by
          rw [remains_unknown (hne p hp), Tree.under_cons_other hk (hne p hp)]
        rw [fieldsFrom_unknown hk hf, ih, List.forall_mem_cons, forall₂_congr hr]
        simp [hk]
      · by_cases hg : p.name ∈ given
        · have hno : ¬Remains given a b p (Tree.under p.name ((k, d) :: es)) := by
            rw [Tree.under_cons_self hk]
            cases Tree.under p.name es with
            | nil => exact fun hr => hr.1 hg
            | cons _ _ => exact id
          rw [fieldsFrom_given hk hf hg]
          exact ⟨nofun, fun hr => absurd (hr.2 p hp) hno⟩
        · rw [fieldsFrom_known hk hf hg, Option.bind_eq_some_iff, List.forall_mem_cons]
          simp only [ih, hk, Option.isSome_some, true_and]
          constructor
          · rintro ⟨a', ha', hes, hr⟩
            exact ⟨hes, remains_of_read h hp hfp hk hg ha' hr⟩
          · rintro ⟨hes, hr⟩
            obtain ⟨a', ha', hr⟩ := exists_read_of_remains h hp hfp hk hr
            exact ⟨a', ha', hes, hr⟩

private theorem agree_cons (h : Describes specs s) {p : FieldSpec α} (hp : p ∈ specs)
    {names : List String} (hnp : p.name ∉ names) {a a' : α}
    (hframe : ∀ q ∈ specs, q.name ≠ p.name → q.get a' = q.get a) (b : α) :
    (∀ q ∈ specs, q.name ∉ names → q.get b = q.get a') ↔
      p.get b = p.get a' ∧ ∀ q ∈ specs, q.name ∉ p.name :: names → q.get b = q.get a := by
  constructor
  · intro hb
    refine ⟨hb p hp hnp, fun q hq hn => ?_⟩
    rw [List.mem_cons, not_or] at hn
    rw [hb q hq hn.2, hframe q hq hn.1]
  · rintro ⟨hpb, hb⟩ q hq hn
    by_cases hqp : q.name = p.name
    · obtain rfl := h.eq_of_name hq hp hqp
      exact hpb
    · rw [hb q hq (by simp [hqp, hn]), hframe q hq hqp]

/-- A field that was left out has its default, which is what the record under construction has. -/
private theorem holds_nil_iff (h : Describes specs s) {p : FieldSpec α} (hp : p ∈ specs) {a : α}
    (ha : p.get a = p.get s.blank) (b : α) :
    (p.slot b).Holds [] ↔ p.get b = p.get a ∧ p.default?.isSome := by
  change p.default? = some (p.get b) ↔ _
  rw [ha]
  cases hd : p.default? with
  | none => simp
  | some c =>
    rw [h.blank p hp c hd]
    simp [eq_comm]

/-- The fields in order; those of `ps` are still to come and have their defaults. -/
theorem elementsFrom_eq_some (h : Describes specs s) {fs : List (Field TreeReader α)}
    {ps : List (FieldSpec α)} (hf : List.Forall₂ (FieldReads specs) fs ps) (hps : ∀ p ∈ ps, p ∈ specs)
    (hnodup : (ps.map (·.name)).Nodup) (a b : α) (ha : ∀ p ∈ ps, p.get a = p.get s.blank)
    (ds : List Tree) :
    elementsFrom a fs ds = some b ↔ Tree.FillInOrder (ps.map (·.slot b)) ds ∧
      ∀ q ∈ specs, q.name ∉ ps.map (·.name) → q.get b = q.get a := by
  induction hf generalizing a ds with
  | nil =>
    cases ds with
    | nil => simp [elementsFrom, Tree.FillInOrder, h.eq_iff a b]
    | cons d ds => simp [elementsFrom, Tree.FillInOrder]
  | @cons f p fs ps hfp _ ih =>
    obtain ⟨hp, hps⟩ := List.forall_mem_cons.mp hps
    obtain ⟨hap, ha⟩ := List.forall_mem_cons.mp ha
    rw [List.map_cons, List.nodup_cons] at hnodup
    obtain ⟨hnp, hnodup⟩ := hnodup
    cases ds with
    | nil =>
      have hempty : elementsFrom a (f :: fs) [] = some b ↔
          p.default?.isSome ∧ elementsFrom a fs [] = some b := by
        rw [elementsFrom, hfp.required]
        cases p.default? <;> simp
      rw [hempty, ih hps hnodup a ha [], agree_cons h hp hnp (fun _ _ _ => rfl) b, List.map_cons,
        Tree.FillInOrder, holds_nil_iff h hp hap b]
      constructor
      · rintro ⟨hd, ho, hpb, hq⟩
        exact ⟨⟨⟨hpb, hd⟩, ho⟩, hq⟩
      · rintro ⟨⟨⟨hpb, hd⟩, ho⟩, hq⟩
        exact ⟨hd, ho, hpb, hq⟩
    | cons d ds =>
      have hread : elementsFrom a (f :: fs) (d :: ds) = some b ↔
          ∃ a', f.read a d = some a' ∧ elementsFrom a' fs ds = some b := Option.bind_eq_some_iff
      have hstep {a' : α} (ha' : f.read a d = some a') : elementsFrom a' fs ds = some b ↔
          Tree.FillInOrder (ps.map (·.slot b)) ds ∧ p.get b = p.get a' ∧
            ∀ q ∈ specs, q.name ∉ p.name :: ps.map (·.name) → q.get b = q.get a := by
        have hframe := (hfp.sound ha').2
        have hfresh (q : FieldSpec α) (hq : q ∈ ps) : q.get a' = q.get s.blank := by
          have hne : q.name ≠ p.name := fun he => hnp (List.mem_map.mpr ⟨q, hq, he⟩)
          rw [hframe q (hps q hq) hne, ha q hq]
        rw [ih hps hnodup a' hfresh ds, agree_cons h hp hnp hframe b]
      rw [hread, List.map_cons, Tree.FillInOrder]
      constructor
      · rintro ⟨a', ha', he⟩
        obtain ⟨ho, hpb, hq⟩ := (hstep ha').mp he
        refine ⟨⟨?_, ho⟩, hq⟩
        change p.Means d (p.get b)
        rw [hpb]
        exact (hfp.sound ha').1
      · rintro ⟨⟨hm, ho⟩, hq⟩
        obtain ⟨a', ha', hget⟩ := hfp.complete hm a
        exact ⟨a', ha', (hstep ha').mpr ⟨ho, hget.symm, hq⟩⟩

/-- A record is found exactly where its contents are in place. -/
theorem record_eq_some (h : Describes specs s) (d : Tree) (a : α) :
    record s d = some a ↔ d.Presents specs a := by
  cases d with
  | list ds =>
    have hspecs (q : FieldSpec α) (hq : q ∈ specs) (hn : q.name ∉ specs.map (·.name)) :
        q.get a = q.get s.blank := absurd (List.mem_map_of_mem hq) hn
    rw [record, elementsFrom_eq_some h h.fields (fun _ hp => hp) h.nodup _ a (fun _ _ => rfl) ds]
    exact and_iff_left hspecs
  | object es =>
    have hholds (p : FieldSpec α) (hp : p ∈ specs) (ds : List Tree) :
        Remains [] s.blank a p ds ↔ (p.slot a).Holds ds := by
      match ds with
      | [] =>
        rw [holds_nil_iff h hp rfl]
        simp [Remains]
      | [d] => simp [Remains, Slot.Holds, FieldSpec.slot]
      | _ :: _ :: _ => exact Iff.rfl
    rw [record, fieldsFrom_eq_some h]
    change _ ↔ _ ∧ _
    simp only [List.forall_mem_map]
    exact and_congr_right fun _ => forall₂_congr fun p hp => hholds p hp _
  | _ => exact ⟨nofun, nofun⟩

/-- What may still be given for a field. -/
def Awaits (given : List String) (p : FieldSpec α) : List Tree → Prop
  | [] => p.name ∈ given ∨ p.default?.isSome
  | [d] => p.name ∉ given ∧ ∃ c, p.Means d c
  | _ :: _ :: _ => False

private theorem awaits_unknown {given : List String} {p : FieldSpec α} {key : String}
    (h : p.name ≠ key) (ds : List Tree) : Awaits (key :: given) p ds ↔ Awaits given p ds := by
  unfold Awaits
  split <;> simp [h]

theorem isSome_fieldsFrom (h : Describes specs s) (given : List String) (a : α)
    {es : List (Spelling × Tree)} (hkeys : ∀ e ∈ es, (Spelling.text? e.1).isSome)
    (hes : ∀ p ∈ specs, Awaits given p (Tree.under p.name es)) :
    (fieldsFrom s given a es).isSome := by
  induction es generalizing given a with
  | nil =>
    have hm : s.missing? given = none := by
      rw [Schema.missing?, (missing?_fields h.fields given).mpr hes]
      rfl
    simp [fieldsFrom, hm]
  | cons e es ih =>
    obtain ⟨k, d⟩ := e
    obtain ⟨hk, hkeys⟩ := List.forall_mem_cons.mp hkeys
    obtain ⟨key, hk⟩ := Option.isSome_iff_exists.mp hk
    dsimp only at hk
    rcases find?_fields h.fields key with ⟨hf, hne⟩ | ⟨f, p, hf, hp, rfl, hfp⟩
    · rw [fieldsFrom_unknown hk hf]
      refine ih (key :: given) a hkeys fun p hp => ?_
      rw [awaits_unknown (hne p hp), ← Tree.under_cons_other hk (hne p hp) d]
      exact hes p hp
    · have hp' := hes p hp
      rw [Tree.under_cons_self hk] at hp'
      match hu : Tree.under p.name es, hp' with
      | [], ⟨hg, c, hc⟩ =>
        obtain ⟨a', ha', -⟩ := hfp.complete hc a
        rw [fieldsFrom_known hk hf hg, ha']
        refine ih (p.name :: given) a' hkeys fun q hq => ?_
        by_cases hn : q.name = p.name
        · rw [hn, hu]
          exact .inl (hn ▸ List.mem_cons_self ..)
        · rw [awaits_unknown hn, ← Tree.under_cons_other hk hn d]
          exact hes q hq

theorem isSome_elementsFrom {fs : List (Field TreeReader α)} {ps : List (FieldSpec α)}
    (hf : List.Forall₂ (FieldReads specs) fs ps) (a : α) {ds : List Tree}
    (h : Tree.FillInOrder (ps.map (·.shape)) ds) : (elementsFrom a fs ds).isSome := by
  induction hf generalizing a ds with
  | nil =>
    cases ds with
    | nil => rfl
    | cons d ds => exact h.elim
  | @cons f p fs ps hfp _ ih =>
    cases ds with
    | nil =>
      have hr : f.required = false := by
        have hd : p.default?.isSome = true := h.1
        rw [hfp.required, Option.isNone_eq_false_iff, hd]
      rw [elementsFrom, hr]
      exact ih a h.2
    | cons d ds =>
      obtain ⟨c, hc⟩ := h.1
      obtain ⟨a', ha', -⟩ := hfp.complete hc a
      rw [elementsFrom, ha']
      exact ih a' h.2

/-- Fields that can each be read make up a record. -/
theorem exists_presents (h : Describes specs s) {d : Tree}
    (hd : d.Fills (specs.map (·.shape))) : ∃ a, d.Presents specs a := by
  have hsome : (record s d).isSome := by
    cases d with
    | list ds => exact isSome_elementsFrom h.fields s.blank hd
    | object es =>
      refine isSome_fieldsFrom h [] s.blank hd.1 fun p hp => ?_
      have hp : p.shape.Holds (Tree.under p.name es) := List.forall_mem_map.mp hd.2 p hp
      match Tree.under p.name es, hp with
      | [], hp => exact .inr hp
      | [d], hp => exact ⟨List.not_mem_nil, hp⟩
    | _ => exact hd.elim
  obtain ⟨a, ha⟩ := Option.isSome_iff_exists.mp hsome
  exact ⟨a, (record_eq_some h d a).mp ha⟩

end record
end TreeReader
end InitializerLint.Json
