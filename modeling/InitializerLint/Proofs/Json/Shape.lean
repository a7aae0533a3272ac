import InitializerLint.Proofs.Json.Buffered

/-! Slots seen without their contents: required and optional ones, when one slot may stand for
another, and slots for readable trees. -/
namespace InitializerLint.Json

def Slot.required (name : String) (Fits : Tree → Prop) : Slot := ⟨name, False, Fits⟩
def Slot.optional (name : String) (Fits : Tree → Prop) : Slot := ⟨name, True, Fits⟩

/-- Whatever fills the one slot fills the other. -/
structure Slot.Implies (s s' : Slot) : Prop where
  name : s.name = s'.name
  empty : s.Empty → s'.Empty
  fits : ∀ d, s.Fits d → s'.Fits d

section

variable {α : Type} {p : FieldSpec α} {a : α} {Shape : Tree → Prop}

theorem Slot.Implies.required (hp : p.default? = none) (h : ∀ d, p.Means d (p.get a) → Shape d) :
    (p.slot a).Implies (.required p.name Shape) := by
  refine ⟨rfl, fun he => ?_, h⟩
  cases hp.symm.trans he

theorem Slot.Implies.optional (h : ∀ d, p.Means d (p.get a) → Shape d) :
    (p.slot a).Implies (.optional p.name Shape) :=
  ⟨rfl, fun _ => trivial, h⟩

theorem Slot.Implies.of_required (h : ∀ d, Shape d → ∃ c, p.Means d c) :
    (Slot.required p.name Shape).Implies p.shape :=
  ⟨rfl, False.elim, h⟩

theorem Slot.Implies.of_optional (hp : p.default?.isSome) (h : ∀ d, Shape d → ∃ c, p.Means d c) :
    (Slot.optional p.name Shape).Implies p.shape :=
  ⟨rfl, fun _ => hp, h⟩

end

theorem Slot.Implies.holds {s s' : Slot} (h : s.Implies s') {ds : List Tree} (hs : s.Holds ds) :
    s'.Holds ds := by
  match ds, hs with
  | [], hs => exact h.empty hs
  | [d], hs => exact h.fits d hs

/-- The same slot for readable trees only. -/
def Slot.readable (s : Slot) : Slot := ⟨s.name, s.Empty, fun d => d.Readable ∧ s.Fits d⟩

namespace Tree

def IsSomeText (d : Tree) : Prop := ∃ s, d.IsText s
def IsSomeFlag (d : Tree) : Prop := ∃ b, d.IsFlag b
def IsSomeWord (d : Tree) : Prop := ∃ n, d.IsWord n
def IsListOf (Item : Tree → Prop) (d : Tree) : Prop := ∃ ds, d = .list ds ∧ ∀ e ∈ ds, Item e

/-- An object in which something of the kind stands under each key. -/
def IsObjectOf (Item : Tree → Prop) (d : Tree) : Prop :=
  ∃ es, d = .object es ∧ ∀ e ∈ es, (Spelling.text? e.1).isSome ∧ Item e.2

theorem FillInOrder.mono {slots slots' : List Slot} (h : List.Forall₂ Slot.Implies slots slots')
    {ds : List Tree} (hf : FillInOrder slots ds) : FillInOrder slots' ds := by
  induction h generalizing ds with
  | nil => exact hf
  | cons hs _ ih =>
    cases ds with
    | nil => exact ⟨hs.holds hf.1, ih hf.2⟩
    | cons d ds => exact ⟨hs.holds hf.1, ih hf.2⟩

theorem Fills.mono {slots slots' : List Slot} (h : List.Forall₂ Slot.Implies slots slots')
    {d : Tree} (hf : d.Fills slots) : d.Fills slots' := by
  cases d with
  | list ds => exact FillInOrder.mono h hf
  | object es =>
    obtain ⟨hkeys, hf⟩ := hf
    refine ⟨hkeys, ?_⟩
    induction h with
    | nil => simp
    | cons hs _ ih =>
      rw [List.forall_mem_cons] at hf ⊢
      exact ⟨hs.name ▸ hs.holds hf.1, ih hf.2⟩
  | _ => exact hf.elim

theorem FillInOrder.readable {slots : List Slot} {ds : List Tree} (hd : ∀ d ∈ ds, d.Readable)
    (hf : FillInOrder slots ds) : FillInOrder (slots.map (·.readable)) ds := by
  induction slots generalizing ds with
  | nil => exact hf
  | cons s slots ih =>
    cases ds with
    | nil => exact ⟨hf.1, ih hd hf.2⟩
    | cons d ds =>
      obtain ⟨hd, hds⟩ := List.forall_mem_cons.mp hd
      exact ⟨⟨hd, hf.1⟩, ih hds hf.2⟩

/-- Only readable trees stand in the slots of a readable tree. -/
theorem Fills.readable {slots : List Slot} {d : Tree} (hd : d.Readable) (hf : d.Fills slots) :
    d.Fills (slots.map (·.readable)) := by
  cases d with
  | list ds => exact FillInOrder.readable (readable_list.mp hd) hf
  | object es =>
    refine ⟨hf.1, List.forall_mem_map.mpr fun s hs => ?_⟩
    have hs' : s.Holds (under s.name es) := hf.2 s hs
    have hu (d : Tree) (hmem : d ∈ under s.name es) : d.Readable := by
      obtain ⟨e, he, rfl⟩ := List.mem_map.mp hmem
      exact (readable_object.mp hd e (List.mem_of_mem_filter he)).2
    change s.readable.Holds (under s.name es)
    match under s.name es, hs', hu with
    | [], hs', _ => exact hs'
    | [d], hs', hu => exact ⟨hu d (List.mem_singleton_self d), hs'⟩
  | _ => exact hf.elim

private theorem exists_forall₂ {α β : Type} {R : α → β → Prop} {ds : List α}
    (h : ∀ d ∈ ds, ∃ a, R d a) : ∃ as, List.Forall₂ R ds as := by
  induction ds with
  | nil => exact ⟨[], .nil⟩
  | cons d ds ih =>
    obtain ⟨⟨a, ha⟩, hds⟩ := List.forall_mem_cons.mp h
    obtain ⟨as, has⟩ := ih hds
    exact ⟨a :: as, .cons ha has⟩

private theorem exists_of_mem {α β : Type} {R : α → β → Prop} {ds : List α} {as : List β}
    (h : List.Forall₂ R ds as) : ∀ d ∈ ds, ∃ a, R d a := by
  induction h with
  | nil => simp
  | cons ha _ ih => exact List.forall_mem_cons.mpr ⟨⟨_, ha⟩, ih⟩

section contents

variable {α : Type} {Item : Tree → α → Prop} {Shape : Tree → Prop} {d : Tree}

theorem IsListOf.exists_isList (h : ∀ d, d.Readable → Shape d → ∃ a, Item d a) (hr : d.Readable)
    (hd : d.IsListOf Shape) : ∃ as, d.IsList Item as := by
  obtain ⟨ds, rfl, hds⟩ := hd
  rw [readable_list] at hr
  obtain ⟨as, has⟩ := exists_forall₂ fun d hd => h d (hr d hd) (hds d hd)
  exact ⟨as, ds, rfl, has⟩

theorem isListOf_iff (h : ∀ d, Shape d ↔ ∃ a, Item d a) :
    d.IsListOf Shape ↔ ∃ as, d.IsList Item as := by
  constructor
  · rintro ⟨ds, rfl, hds⟩
    obtain ⟨as, has⟩ := exists_forall₂ fun d hd => (h d).mp (hds d hd)
    exact ⟨as, ds, rfl, has⟩
  · rintro ⟨as, ds, rfl, hds⟩
    exact ⟨ds, rfl, fun d hd => (h d).mpr (exists_of_mem hds d hd)⟩

theorem isObjectOf_iff (h : ∀ d, Shape d ↔ ∃ a, Item d a) :
    d.IsObjectOf Shape ↔ ∃ as, d.IsEntries Item as := by
  constructor
  · rintro ⟨es, rfl, hes⟩
    have hentry (e : Spelling × Tree) (he : e ∈ es) :
        ∃ a : String × α, Spelling.text? e.1 = some a.1 ∧ Item e.2 a.2 := by
      obtain ⟨key, hkey⟩ := Option.isSome_iff_exists.mp (hes e he).1
      obtain ⟨a, ha⟩ := (h e.2).mp (hes e he).2
      exact ⟨(key, a), hkey, ha⟩
    obtain ⟨as, has⟩ := exists_forall₂ hentry
    exact ⟨as, es, rfl, has⟩
  · rintro ⟨as, es, rfl, hes⟩
    refine ⟨es, rfl, fun e he => ?_⟩
    obtain ⟨a, hkey, ha⟩ := exists_of_mem hes e he
    exact ⟨by rw [hkey]; rfl, (h e.2).mpr ⟨a.2, ha⟩⟩

theorem IsList.isListOf (h : ∀ d a, Item d a → Shape d) {as : List α} (hd : d.IsList Item as) :
    d.IsListOf Shape := by
  obtain ⟨ds, rfl, hds⟩ := hd
  refine ⟨ds, rfl, fun d hd => ?_⟩
  obtain ⟨a, ha⟩ := exists_of_mem hds d hd
  exact h d a ha

end contents

end Tree
end InitializerLint.Json
