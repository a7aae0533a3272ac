import InitializerLint.Proofs.Data.Decode
import InitializerLint.Proofs.Json.Record

/-! What single trees stand for: texts, flags, words and choices. Values that were kept whole
before they are decoded give the same contents as their trees. -/
namespace InitializerLint.Json

open Data (Decode Field Schema)

namespace Numeral

theorem le_foldl_digits (n : Nat) (ds : List Nat) : n ≤ ds.foldl (fun n d => 10 * n + d) n := by
  induction ds generalizing n with
  | nil => exact Nat.le_refl n
  | cons d ds ih =>
    have h := ih (10 * n + d)
    rw [List.foldl_cons]
    omega

/-- All digits are taken up exactly if the number they make fits. -/
theorem absorb_eq_iff {n : Nat} (hn : n < UInt64.size) (ds : List Nat) (m : Nat) :
    absorb n ds = (m, ds.length) ↔ ds.foldl (fun n d => 10 * n + d) n = m ∧ m < UInt64.size := by
  induction ds generalizing n with
  | nil =>
    simp only [absorb, List.length_nil, Prod.mk.injEq, and_true, List.foldl_nil]
    exact ⟨fun h => ⟨h, h ▸ hn⟩, And.left⟩
  | cons d ds ih =>
    rw [absorb, List.foldl_cons]
    by_cases hd : 10 * n + d < UInt64.size
    · rw [if_pos hd, ← ih hd]
      simp [Prod.ext_iff]
    · have h := le_foldl_digits (10 * n + d) ds
      rw [if_neg hd]
      simp only [Prod.mk.injEq, List.length_cons]
      omega

theorem integer?_eq_some (x : Numeral) (n : Nat) :
    x.integer? = some n ↔
      x.fraction = [] ∧ x.exponent = none ∧ digitsValue x.integer = n ∧ n < UInt64.size := by
  have h := absorb_eq_iff (n := 0) (by decide) x.integer n
  rw [digitsValue, ← h]
  simp only [integer?, Prod.ext_iff, Option.ite_none_right_eq_some, Bool.and_eq_true,
    List.isEmpty_iff, Option.isNone_iff_eq_none, decide_eq_true_eq, Option.some.injEq]
  tauto

/-- A literal stands for an integer in range, or for a floating-point number. -/
theorem value_eq_ok {negative : Bool} {x : Numeral} {v : Data.Value}
    (h : x.value negative = .ok v) :
    (∃ n, negative = false ∧ x.integer? = some n ∧ v = .unsigned (.ofNat n)) ∨
      (∃ n : Int, n < 0 ∧ v = .signed n) ∨ ∃ y, v = .float y := by
  have hfloat {neg : Bool} (h : (x.magnitude.map fun m => Data.Value.float (.finite neg m)) = .ok v) :
      ∃ y, v = .float y := by
    cases hm : x.magnitude with
    | error e => simp [hm, Except.map] at h
    | ok m => exact ⟨.finite neg m, by simpa [hm, Except.map] using h.symm⟩
  unfold value at h
  split at h
  · next n hn => exact .inl ⟨n, rfl, hn, by simpa using h.symm⟩
  · next n hn =>
    split at h
    · next hlt =>
      rw [Bool.and_eq_true, decide_eq_true_eq] at hlt
      exact .inr (.inl ⟨-n, by omega, by simpa using h.symm⟩)
    · exact .inr (.inr (hfloat h))
  · exact .inr (.inr (hfloat h))

end Numeral

namespace Tree

/-- Every string and every number in the tree stands for something. -/
def Readable (d : Tree) : Prop := d.value?.isSome

def IsText (d : Tree) (s : String) : Prop := ∃ p, d = .text p ∧ Spelling.text? p = some s

def IsFlag (d : Tree) (b : Bool) : Prop := d = .bool b

/-- A literal without sign, fraction and exponent. -/
def IsWord (d : Tree) (n : UInt64) : Prop :=
  ∃ ds, d = .number false ⟨ds, [], none⟩ ∧ Numeral.digitsValue ds = n.toNat

/-- A name, or an object that has nothing under that name. -/
def IsChoice {α : Type} (variants : List (String × α)) (d : Tree) (a : α) : Prop :=
  ∃ name, variants.lookup name = some a ∧
    (d.IsText name ∨ ∃ k e, d = .object [(k, e)] ∧ Spelling.text? k = some name ∧
      (e = .null ∨ e = .object []))

def IsList {α : Type} (Item : Tree → α → Prop) (d : Tree) (as : List α) : Prop :=
  ∃ ds, d = .list ds ∧ List.Forall₂ Item ds as

/-- An object with these entries, keys repeated as they are. -/
def IsEntries {α : Type} (Item : Tree → α → Prop) (d : Tree) (as : List (String × α)) : Prop :=
  ∃ es, d = .object es ∧
    List.Forall₂ (fun e a => Spelling.text? e.1 = some a.1 ∧ Item e.2 a.2) es as

section value

variable {d : Tree}

private theorem value?_number {negative : Bool} {x : Numeral} {v : Data.Value}
    (h : (Tree.number negative x).value? = some v) :
    (∃ n, negative = false ∧ x.integer? = some n ∧ v = .unsigned (.ofNat n)) ∨
      (∃ n : Int, n < 0 ∧ v = .signed n) ∨ ∃ y, v = .float y := by
  refine Numeral.value_eq_ok ?_
  cases hx : x.value negative with
  | error e => simp [value?, hx, Except.toOption] at h
  | ok w => simpa [value?, hx, Except.toOption] using h

private theorem number_value?_ne {negative : Bool} {x : Numeral} {v : Data.Value}
    (hu : ∀ n, v ≠ .unsigned n) (hs : ∀ n, v ≠ .signed n) (hf : ∀ y, v ≠ .float y) :
    (Tree.number negative x).value? ≠ some v := by
  intro h
  rcases value?_number h with ⟨_, _, _, hv⟩ | ⟨_, _, hv⟩ | ⟨_, hv⟩
  · exact hu _ hv
  · exact hs _ hv
  · exact hf _ hv

theorem value?_eq_text {s : String} : d.value? = some (.text s) ↔ d.IsText s := by
  cases d with
  | number => exact ⟨fun h => absurd h (number_value?_ne nofun nofun nofun), nofun⟩
  | _ => simp [value?, IsText]

theorem value?_eq_bool {b : Bool} : d.value? = some (.bool b) ↔ d.IsFlag b := by
  cases d with
  | number => exact ⟨fun h => absurd h (number_value?_ne nofun nofun nofun), nofun⟩
  | _ => simp [value?, IsFlag]

theorem value?_eq_list {vs : List Data.Value} :
    d.value? = some (.list vs) ↔ ∃ ds, d = .list ds ∧ ds.mapM value? = some vs := by
  cases d with
  | number => exact ⟨fun h => absurd h (number_value?_ne nofun nofun nofun), nofun⟩
  | _ => simp [value?, itemValues?_eq]

theorem value?_eq_map {vs : List (Data.Value × Data.Value)} :
    d.value? = some (.map vs) ↔ ∃ es, d = .object es ∧ entryValues? es = some vs := by
  cases d with
  | number => exact ⟨fun h => absurd h (number_value?_ne nofun nofun nofun), nofun⟩
  | _ => simp [value?]

theorem value?_eq_unit : d.value? = some .unit ↔ d = .null := by
  cases d with
  | number => exact ⟨fun h => absurd h (number_value?_ne nofun nofun nofun), nofun⟩
  | _ => simp [value?]

theorem value?_eq_unsigned {n : UInt64} : d.value? = some (.unsigned n) ↔ d.IsWord n := by
  cases d with
  | number negative x =>
    obtain ⟨ds, fs, e⟩ := x
    constructor
    · intro h
      rcases value?_number h with ⟨m, rfl, hm, hv⟩ | ⟨_, _, hv⟩ | ⟨_, hv⟩
      · obtain ⟨rfl, rfl, hds, hlt⟩ := (Numeral.integer?_eq_some _ m).mp hm
        obtain rfl := Data.Value.unsigned.inj hv
        exact ⟨ds, rfl, by rw [hds, UInt64.toNat_ofNat_of_lt' hlt]⟩
      · cases hv
      · cases hv
    · rintro ⟨ds', h, hds⟩
      cases h
      have hm := (Numeral.integer?_eq_some ⟨ds, [], none⟩ n.toNat).mpr ⟨rfl, rfl, hds, n.toNat_lt⟩
      simp [value?, Numeral.value, hm, Except.toOption]
  | _ => simp [value?, IsWord]

theorem value?_ne_signed {n : Int} (hn : 0 ≤ n) : d.value? ≠ some (.signed n) := by
  intro h
  cases d with
  | number negative x =>
    rcases value?_number h with ⟨_, _, _, hv⟩ | ⟨m, hm, hv⟩ | ⟨_, hv⟩
    · cases hv
    · cases hv
      omega
    · cases hv
  | _ => simp [value?] at h

theorem entryValues?_eq_some {es : List (Spelling × Tree)} {vs : List (Data.Value × Data.Value)} :
    entryValues? es = some vs ↔ List.Forall₂ (fun e v => ∃ key, Spelling.text? e.1 = some key ∧
      v.1 = .text key ∧ e.2.value? = some v.2) es vs := by
  induction es generalizing vs with
  | nil => simp [entryValues?, eq_comm]
  | cons e es ih =>
    obtain ⟨k, d⟩ := e
    rw [entryValues?, List.forall₂_cons_left_iff]
    simp only [← ih]
    cases Spelling.text? k with
    | none => simp
    | some key =>
      cases d.value? with
      | none => simp
      | some v => cases entryValues? es <;> simp [eq_comm]

end value
end Tree

namespace TreeReader

variable {α β : Type}

/-- Decode the data a tree stands for. -/
def buffered (decode : Decode α) : TreeReader α := fun d =>
  d.value?.bind fun v => (decode v).toOption

theorem buffered_eq_some {decode : Decode α} {d : Tree} {a : α} :
    buffered decode d = some a ↔ ∃ v, d.value? = some v ∧ decode v = .ok a := by
  rw [buffered, Option.bind_eq_some_iff]
  refine exists_congr fun v => and_congr_right fun _ => ?_
  cases decode v <;> simp [Except.toOption]

theorem buffered_map (decode : Decode α) (f : α → β) :
    buffered (fun v => do return f (← decode v)) = do return f (← buffered decode) := by
  funext d
  change d.value?.bind _ = (d.value?.bind fun v => (decode v).toOption).bind fun a => some (f a)
  rw [Option.bind_assoc]
  refine Option.bind_congr fun v _ => ?_
  dsimp only
  cases decode v <;> rfl

theorem buffered_except_map (decode : Decode α) (f : α → β) (d : Tree) :
    buffered (fun v => (decode v).map f) d = (buffered decode d).map f := by
  rw [buffered, buffered, Option.map_bind]
  refine Option.bind_congr fun v _ => ?_
  cases h : decode v <;> simp [h, Except.map, Except.toOption]

theorem buffered_text {expected : String} {d : Tree} {s : String} :
    buffered (Decode.text expected) d = some s ↔ d.IsText s := by
  simp [buffered_eq_some, Decode.text_eq_ok, Tree.value?_eq_text]

theorem buffered_flag {d : Tree} {b : Bool} : buffered Decode.flag d = some b ↔ d.IsFlag b := by
  simp [buffered_eq_some, Decode.flag_eq_ok, Tree.value?_eq_bool]

theorem buffered_word {d : Tree} {n : UInt64} : buffered Decode.word d = some n ↔ d.IsWord n := by
  simp only [buffered_eq_some, Decode.word_eq_ok, ← Tree.value?_eq_unsigned]
  constructor
  · rintro ⟨v, hv, rfl | ⟨i, hi, rfl, -⟩⟩
    · exact hv
    · exact absurd hv (Tree.value?_ne_signed hi)
  · exact fun h => ⟨_, h, .inl rfl⟩

theorem buffered_unit {d : Tree} : buffered Decode.unit d = some () ↔ d = .null ∨ d = .object [] := by
  simp only [buffered_eq_some, Decode.unit_eq_ok]
  constructor
  · rintro ⟨v, hv, rfl | rfl⟩
    · exact .inl (Tree.value?_eq_unit.mp hv)
    · obtain ⟨es, rfl, hes⟩ := Tree.value?_eq_map.mp hv
      rw [Tree.entryValues?_eq_some, List.forall₂_nil_right_iff] at hes
      exact .inr (by rw [hes])
  · rintro (rfl | rfl)
    · exact ⟨.unit, rfl, .inl rfl⟩
    · exact ⟨.map [], rfl, .inr rfl⟩

theorem buffered_choice {variants : List (String × α)} {d : Tree} {a : α} :
    buffered (Decode.choice variants) d = some a ↔ d.IsChoice variants a := by
  have hunit (e : Tree) := buffered_eq_some.symm.trans (buffered_unit (d := e))
  simp only [buffered_eq_some, Decode.choice_eq_ok]
  constructor
  · rintro ⟨v, hv, ⟨name, rfl, hn⟩ | ⟨k, u, rfl, hk, hu⟩⟩
    · exact ⟨name, hn, .inl (Tree.value?_eq_text.mp hv)⟩
    · obtain ⟨es, rfl, hes⟩ := Tree.value?_eq_map.mp hv
      rw [Tree.entryValues?_eq_some, List.forall₂_cons_right_iff] at hes
      obtain ⟨⟨k', e⟩, es', ⟨name, hname, rfl, he⟩, hnil, rfl⟩ := hes
      rw [List.forall₂_nil_right_iff] at hnil
      subst hnil
      exact ⟨name, Decode.variant_text_eq_ok.mp hk,
        .inr ⟨k', e, rfl, hname, (hunit e).mp ⟨u, he, hu⟩⟩⟩
  · rintro ⟨name, hn, ht | ⟨k, e, rfl, hk, he⟩⟩
    · exact ⟨.text name, Tree.value?_eq_text.mpr ht, .inl ⟨name, rfl, hn⟩⟩
    · obtain ⟨u, hu, hunit⟩ := (hunit e).mpr he
      refine ⟨.map [(.text name, u)], Tree.value?_eq_map.mpr ⟨_, rfl, ?_⟩,
        .inr ⟨.text name, u, rfl, Decode.variant_text_eq_ok.mpr hn, hunit⟩⟩
      exact Tree.entryValues?_eq_some.mpr (.cons ⟨name, hk, rfl, hu⟩ .nil)

theorem scalar_eq_some {decode : Decode α} {d : Tree} {a : α} :
    scalar decode d = some a ↔ d.isScalar = true ∧ buffered decode d = some a :=
  Option.ite_none_right_eq_some

theorem scalar_text {expected : String} {d : Tree} {s : String} :
    scalar (Decode.text expected) d = some s ↔ d.IsText s := by
  rw [scalar_eq_some, buffered_text, and_iff_right_of_imp]
  rintro ⟨p, rfl, -⟩
  rfl

theorem scalar_flag {d : Tree} {b : Bool} : scalar Decode.flag d = some b ↔ d.IsFlag b := by
  rw [scalar_eq_some, buffered_flag, and_iff_right_of_imp]
  rintro rfl
  rfl

theorem scalar_word {d : Tree} {n : UInt64} : scalar Decode.word d = some n ↔ d.IsWord n := by
  rw [scalar_eq_some, buffered_word, and_iff_right_of_imp]
  rintro ⟨ds, rfl, -⟩
  rfl

theorem mapM_eq_some {β : Type} {φ : β → Option α} {ds : List β} {as : List α} :
    ds.mapM φ = some as ↔ List.Forall₂ (fun d a => φ d = some a) ds as := by
  induction ds generalizing as with
  | nil => simp [eq_comm]
  | cons d ds ih =>
    rw [List.mapM_cons, List.forall₂_cons_left_iff]
    simp only [← ih]
    cases hd : φ d with
    | none => simp
    | some a => cases ds.mapM φ <;> simp [eq_comm]

theorem list_eq_some {item : TreeReader α} {d : Tree} {as : List α} :
    list item d = some as ↔ d.IsList (fun d a => item d = some a) as := by
  cases d with
  | list ds => simp [list, Tree.IsList, mapM_eq_some]
  | _ => simp [list, Tree.IsList]

theorem entries_eq_some {item : TreeReader α} {d : Tree} {as : List (String × α)} :
    entries item d = some as ↔ d.IsEntries (fun d a => item d = some a) as := by
  have hentry (e : Spelling × Tree) (a : String × α) : Tree.entryOf item e = some a ↔
      Spelling.text? e.1 = some a.1 ∧ item e.2 = some a.2 := by
    unfold Tree.entryOf
    cases Spelling.text? e.1 <;> cases item e.2 <;> simp [Prod.ext_iff]
  cases d with
  | object es => simp [entries, Tree.IsEntries, mapM_eq_some, hentry]
  | _ => simp [entries, Tree.IsEntries]

private theorem forall₂_comp {γ : Type} {R : α → β → Prop} {S : β → γ → Prop} {as : List α}
    {cs : List γ} : (∃ bs, List.Forall₂ R as bs ∧ List.Forall₂ S bs cs) ↔
      List.Forall₂ (fun a c => ∃ b, R a b ∧ S b c) as cs := by
  constructor
  · rintro ⟨bs, hr, hs⟩
    induction hr generalizing cs with
    | nil =>
      cases hs
      exact .nil
    | cons ha _ ih =>
      cases hs with
      | cons hb hs => exact .cons ⟨_, ha, hb⟩ (ih hs)
  · intro h
    induction h with
    | nil => exact ⟨[], .nil, .nil⟩
    | cons hac _ ih =>
      obtain ⟨b, ha, hb⟩ := hac
      obtain ⟨bs, hr, hs⟩ := ih
      exact ⟨b :: bs, .cons ha hr, .cons hb hs⟩

/-- Whether the items are all read before they are decoded does not matter. -/
theorem buffered_list {item : Decode α} {d : Tree} {as : List α} :
    buffered (Decode.list item) d = some as ↔ d.IsList (fun d a => buffered item d = some a) as := by
  simp only [buffered_eq_some, Decode.list_eq_ok, Tree.IsList, ← forall₂_comp, ← mapM_eq_some]
  constructor
  · rintro ⟨_, hv, vs, rfl, has⟩
    obtain ⟨ds, rfl, hds⟩ := Tree.value?_eq_list.mp hv
    exact ⟨ds, rfl, vs, hds, has⟩
  · rintro ⟨ds, rfl, vs, hds, has⟩
    exact ⟨.list vs, Tree.value?_eq_list.mpr ⟨ds, rfl, hds⟩, vs, rfl, has⟩

end TreeReader
end InitializerLint.Json
