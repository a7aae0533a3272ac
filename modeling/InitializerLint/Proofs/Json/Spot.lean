import InitializerLint.Proofs.Json.Render

/-! A place for one value in a list or an object. What is put there stands for the field of that
name, and the other fields do not depend on it. -/
namespace InitializerLint.Json

/-- A list or an object that lacks one value. -/
inductive Spot where
  | item (before after : List Tree)
  | entry (before : List (Spelling × Tree)) (key : Spelling) (after : List (Spelling × Tree))

namespace Spot

def put (d : Tree) : Spot → Tree
  | .item before after => .list (before ++ d :: after)
  | .entry before key after => .object (before ++ (key, d) :: after)

/-- The place of a field in a record with fields of these names. -/
def IsFor (names : List String) (name : String) : Spot → Prop
  | .item before _ => names[before.length]? = some name
  | .entry _ key _ => Spelling.text? key = some name

variable {s : Spot} {d d' : Tree}

theorem readable_put (h : (s.put d).Readable) (hd : d.Readable → d'.Readable) :
    (s.put d').Readable := by
  cases s with
  | item before after =>
    simp only [put, Tree.readable_list, List.forall_mem_append, List.forall_mem_cons] at h ⊢
    obtain ⟨hbefore, hmid, hafter⟩ := h
    exact ⟨hbefore, hd hmid, hafter⟩
  | entry before key after =>
    simp only [put, Tree.readable_object, List.forall_mem_append, List.forall_mem_cons] at h ⊢
    obtain ⟨hbefore, ⟨hkey, hmid⟩, hafter⟩ := h
    exact ⟨hbefore, ⟨hkey, hd hmid⟩, hafter⟩

/-- A tree that is no deeper may stand in the place of another one. -/
theorem within_put (hd : ∀ n, d.Within n → d'.Within n) (n : Nat) (h : (s.put d).Within n) :
    (s.put d').Within n := by
  cases n with
  | zero => cases s <;> exact h.elim
  | succ n =>
    cases s with
    | item before after =>
      change ∀ e ∈ before ++ d :: after, e.Within n at h
      change ∀ e ∈ before ++ d' :: after, e.Within n
      simp only [List.forall_mem_append, List.forall_mem_cons] at h ⊢
      obtain ⟨hbefore, hmid, hafter⟩ := h
      exact ⟨hbefore, hd n hmid, hafter⟩
    | entry before key after =>
      change ∀ e ∈ before ++ (key, d) :: after, e.2.Within n at h
      change ∀ e ∈ before ++ (key, d') :: after, e.2.Within n
      simp only [List.forall_mem_append, List.forall_mem_cons] at h ⊢
      obtain ⟨hbefore, hmid, hafter⟩ := h
      exact ⟨hbefore, hd n hmid, hafter⟩

end Spot

theorem Slot.holds_append_cons (s : Slot) (ds ds' : List Tree) (d : Tree) :
    s.Holds (ds ++ d :: ds') ↔ ds = [] ∧ ds' = [] ∧ s.Fits d := by
  match ds, ds' with
  | [], [] => simp [Holds]
  | [], _ :: _ => simp [Holds]
  | [_], _ => simp [Holds]
  | _ :: _ :: _, _ => simp [Holds]

/-- The slot `s'` is `s`, but for `d` if it has the name. -/
structure Slot.Updates (name : String) (d : Tree) (s s' : Slot) : Prop where
  sameName : s'.name = s.name
  here : s.name = name → s'.Fits d
  other : s.name ≠ name → s' = s

namespace Tree

variable {s : Spot} {slots slots' : List Slot} {name : String} {d d' : Tree}

section object

variable {before after : List (Spelling × Tree)} {key : Spelling}

theorem under_put_self (hkey : Spelling.text? key = some name) :
    under name (before ++ (key, d) :: after) = under name before ++ d :: under name after := by
  rw [under_append, under_cons_self hkey]

theorem under_put_other {other : String} (hkey : Spelling.text? key = some name)
    (hne : other ≠ name) :
    under other (before ++ (key, d) :: after) = under other (before ++ (key, d') :: after) := by
  rw [under_append, under_append, under_cons_other hkey hne, under_cons_other hkey hne]

theorem holds_under_put {t t' : Slot} (ht : t.Updates name d' t')
    (hkey : Spelling.text? key = some name)
    (h : t.Holds (under t.name (before ++ (key, d) :: after))) :
    t'.Holds (under t'.name (before ++ (key, d') :: after)) := by
  by_cases hname : t.name = name
  · rw [hname, under_put_self hkey, Slot.holds_append_cons] at h
    obtain ⟨hbefore, hafter, -⟩ := h
    rw [ht.sameName, hname, under_put_self hkey, Slot.holds_append_cons]
    exact ⟨hbefore, hafter, ht.here hname⟩
  · rw [ht.other hname, under_put_other hkey hname]
    exact h

end object

section list

variable {before after : List Tree}

theorem eq_of_updates (hs : List.Forall₂ (Slot.Updates name d) slots slots')
    (hname : name ∉ slots.map (·.name)) : slots' = slots := by
  induction hs with
  | nil => rfl
  | cons ht _ ih =>
    rw [List.map_cons, List.mem_cons, not_or] at hname
    rw [ht.other (Ne.symm hname.1), ih hname.2]

/-- The names differ, so that only the slot in this place is another one. -/
theorem FillInOrder.put (hn : (slots.map (·.name)).Nodup)
    (hname : (slots.map (·.name))[before.length]? = some name)
    (hs : List.Forall₂ (Slot.Updates name d') slots slots')
    (h : FillInOrder slots (before ++ d :: after)) :
    FillInOrder slots' (before ++ d' :: after) := by
  induction before generalizing slots slots' with
  | nil =>
    cases hs with
    | nil => cases hname
    | @cons t t' ts ts' ht hts =>
      rw [List.map_cons, List.nodup_cons] at hn
      have htname : t.name = name := by simpa using hname
      rw [eq_of_updates hts (htname ▸ hn.1)]
      exact ⟨ht.here htname, h.2⟩
  | cons b before ih =>
    cases hs with
    | nil => cases hname
    | @cons t t' ts ts' ht hts =>
      rw [List.map_cons, List.nodup_cons] at hn
      have hrest : (ts.map (·.name))[before.length]? = some name := by simpa using hname
      have hne : t.name ≠ name := fun he => hn.1 (he ▸ List.mem_of_getElem? hrest)
      rw [ht.other hne]
      exact ⟨h.1, ih hn.2 hrest hts h.2⟩

theorem FillInOrder.fits {t : Slot} (hn : (slots.map (·.name)).Nodup) (ht : t ∈ slots)
    (hname : (slots.map (·.name))[before.length]? = some t.name)
    (h : FillInOrder slots (before ++ d :: after)) : t.Fits d := by
  induction before generalizing slots with
  | nil =>
    cases slots with
    | nil => cases ht
    | cons u slots =>
      have hu : u.name = t.name := by simpa using hname
      obtain rfl := List.inj_on_of_nodup_map hn ht (List.mem_cons_self ..) hu.symm
      exact h.1
  | cons b before ih =>
    cases slots with
    | nil => cases ht
    | cons u slots =>
      rw [List.map_cons, List.nodup_cons] at hn
      have hrest : (slots.map (·.name))[before.length]? = some t.name := by simpa using hname
      have hne : t ≠ u := fun he => hn.1 (he ▸ List.mem_of_getElem? hrest)
      exact ih hn.2 (List.mem_of_ne_of_mem hne ht) hrest h.2

end list

theorem Fills.put (hn : (slots.map (·.name)).Nodup) (hname : s.IsFor (slots.map (·.name)) name)
    (hs : List.Forall₂ (Slot.Updates name d') slots slots') (h : (s.put d).Fills slots) :
    (s.put d').Fills slots' := by
  cases s with
  | item before after => exact FillInOrder.put hn hname hs h
  | entry before key after =>
    obtain ⟨hkeys, hholds⟩ := h
    constructor
    · simpa only [List.forall_mem_append, List.forall_mem_cons] using hkeys
    · clear hn
      induction hs with
      | nil => simp
      | cons ht _ ih =>
        rw [List.forall_mem_cons] at hholds ⊢
        exact ⟨holds_under_put ht hname hholds.1, ih hname hholds.2⟩

/-- What stands in the place fits the slot of its name. -/
theorem Fills.fits {t : Slot} (hn : (slots.map (·.name)).Nodup) (ht : t ∈ slots)
    (hname : s.IsFor (slots.map (·.name)) t.name) (h : (s.put d).Fills slots) : t.Fits d := by
  cases s with
  | item before after => exact FillInOrder.fits hn ht hname h
  | entry before key after =>
    have hholds : t.Holds (under t.name (before ++ (key, d) :: after)) := h.2 t ht
    rw [under_put_self hname, Slot.holds_append_cons] at hholds
    exact hholds.2.2

theorem IsText.unique {a b : String} (h : d.IsText a) (h' : d.IsText b) : a = b := by
  obtain ⟨p, rfl, ha⟩ := h
  obtain ⟨q, hq, hb⟩ := h'
  cases hq
  exact Option.some.inj (ha.symm.trans hb)

/-- The tag does not depend on what stands in the place of a field. -/
theorem Fills.tag_unique {key tag tag' : String} {names : List String}
    (hname : s.IsFor (key :: names) name) (hne : name ≠ key)
    (h : (s.put d).Fills (tagSlot key tag :: slots))
    (h' : (s.put d').Fills (tagSlot key tag' :: slots')) : tag = tag' := by
  cases s with
  | item before after =>
    cases before with
    | nil => exact absurd (Option.some.inj hname).symm hne
    | cons b before => exact IsText.unique h.1 h'.1
  | entry before k after =>
    have hholds := (List.forall_mem_cons.mp h.2).1
    have hholds' := (List.forall_mem_cons.mp h'.2).1
    change (tagSlot key tag).Holds (under key (before ++ (k, d) :: after)) at hholds
    change (tagSlot key tag').Holds (under key (before ++ (k, d') :: after)) at hholds'
    have hsame : under key (before ++ (k, d') :: after) = under key (before ++ (k, d) :: after) :=
      under_put_other hname (Ne.symm hne)
    rw [hsame] at hholds'
    match hunder : under key (before ++ (k, d) :: after), hholds, hholds' with
    | [e], hholds, hholds' => exact IsText.unique hholds hholds'

section record

variable {α : Type} {specs : List (FieldSpec α)} {p : FieldSpec α} {a a' : α}

theorem map_name_slot (specs : List (FieldSpec α)) (a : α) :
    (specs.map (·.slot a)).map (·.name) = specs.map (·.name) := by
  rw [List.map_map]
  rfl

theorem updates_specs (hmeans : p.Means d' (p.get a')) (hp : p ∈ specs)
    (hn : (specs.map (·.name)).Nodup)
    (hframe : ∀ q ∈ specs, q.name ≠ p.name → q.get a' = q.get a) :
    List.Forall₂ (Slot.Updates p.name d') (specs.map (·.slot a)) (specs.map (·.slot a')) := by
  rw [List.forall₂_map_left_iff, List.forall₂_map_right_iff, List.forall₂_same]
  intro q hq
  constructor
  · rfl
  · intro hname
    obtain rfl := List.inj_on_of_nodup_map hn hq hp hname
    exact hmeans
  · intro hname
    have hget := hframe q hq hname
    simp only [FieldSpec.slot, hget]

/-- A field may be given another content; the tree then presents the record with that content. -/
theorem Presents.put (hn : (specs.map (·.name)).Nodup) (hp : p ∈ specs)
    (hname : s.IsFor (specs.map (·.name)) p.name) (h : (s.put d).Presents specs a)
    (hmeans : p.Means d' (p.get a'))
    (hframe : ∀ q ∈ specs, q.name ≠ p.name → q.get a' = q.get a) :
    (s.put d').Presents specs a' := by
  apply Fills.put (map_name_slot specs a ▸ hn) (map_name_slot specs a ▸ hname)
    (updates_specs hmeans hp hn hframe) h

theorem Presents.means (hn : (specs.map (·.name)).Nodup) (hp : p ∈ specs)
    (hname : s.IsFor (specs.map (·.name)) p.name) (h : (s.put d).Presents specs a) :
    p.Means d (p.get a) :=
  Fills.fits (t := p.slot a) (map_name_slot specs a ▸ hn) (List.mem_map_of_mem hp)
    (map_name_slot specs a ▸ hname) h

end record

section items

variable {α : Type} {Item : Tree → α → Prop} {before after : List Tree} {as : List α}

theorem IsList.item (h : ((Spot.item before after).put d).IsList Item as) :
    ∃ a, as[before.length]? = some a ∧ Item d a := by
  obtain ⟨ds, hds, hitems⟩ := h
  cases hds
  induction before generalizing as with
  | nil =>
    cases hitems with
    | cons ha _ => exact ⟨_, rfl, ha⟩
  | cons b before ih =>
    cases hitems with
    | cons _ hrest => exact ih hrest

/-- The item in the place may be changed along with its tree. -/
theorem IsList.modify {f : α → α} (h : ((Spot.item before after).put d).IsList Item as)
    (hf : ∀ a, as[before.length]? = some a → Item d a → Item d' (f a)) :
    ((Spot.item before after).put d').IsList Item (as.modify before.length f) := by
  obtain ⟨ds, hds, hitems⟩ := h
  cases hds
  refine ⟨_, rfl, ?_⟩
  induction before generalizing as with
  | nil =>
    cases hitems with
    | cons ha hrest => exact .cons (hf _ rfl ha) hrest
  | cons b before ih =>
    cases hitems with
    | cons hb hrest => exact .cons hb (ih hf hrest)

end items

end Tree
end InitializerLint.Json
