import InitializerLint.Proofs.Json.Buffered

/-! The compact text of a document is a text of a tree, in which each string and each number is
spelled as the writer spells it, and an object with an entry for each slot fills the slots. -/
namespace InitializerLint.Json

namespace Numeral

def decimal (n : Nat) : List Nat := if n < 10 then [n] else decimal (n / 10) ++ [n % 10]
termination_by n

theorem digitsValue_decimal (n : Nat) : digitsValue (decimal n) = n := by
  induction n using Nat.strongRecOn with
  | ind n ih =>
    rw [decimal]
    split
    · simp [digitsValue]
    · have h := ih (n / 10) (by omega)
      rw [digitsValue] at h ⊢
      rw [List.foldl_append, h, List.foldl_cons, List.foldl_nil]
      omega

theorem WritesDigits.append {ds : List Nat} {cs : List Char} {d : Nat} (h : WritesDigits ds cs)
    (hd : d < 10) : WritesDigits (ds ++ [d]) (cs ++ [d.digitChar]) := by
  induction h with
  | one h => exact .cons h (.one hd)
  | cons h _ ih => exact .cons h ih

theorem writesDigits_decimal (n : Nat) : WritesDigits (decimal n) (Nat.toDigits 10 n) := by
  induction n using Nat.strongRecOn with
  | ind n ih =>
    rw [decimal, Nat.toDigits_eq_if (by decide)]
    split
    · next h => exact .one h
    · exact (ih (n / 10) (by omega)).append (by omega)

/-- No zero in front. -/
theorem decimal_pos {n : Nat} (hn : 0 < n) : ∃ d ds, decimal n = d :: ds ∧ d ≠ 0 := by
  induction n using Nat.strongRecOn with
  | ind n ih =>
    rw [decimal]
    split
    · exact ⟨n, [], rfl, by omega⟩
    · obtain ⟨d, ds, h, hd⟩ := ih (n / 10) (by omega) (by omega)
      exact ⟨d, ds ++ [n % 10], by rw [h, List.cons_append], hd⟩

theorem writesInteger_decimal (n : Nat) : WritesInteger (decimal n) (Nat.toDigits 10 n) := by
  rcases Nat.eq_zero_or_pos n with rfl | hn
  · rw [decimal]
    exact .zero
  · have h := writesDigits_decimal n
    obtain ⟨d, ds, he, hd⟩ := decimal_pos hn
    rw [he] at h ⊢
    exact .digits hd h

end Numeral

namespace Piece

/-- Control characters without a short escape are written as units. -/
def ofChar (c : Char) : Piece :=
  if c.toNat < 0x20 ∧ c ∉ shortEscapes.map (·.2) then .unit c.toNat else .char c

theorem writes_ofChar (c : Char) : (ofChar c).Writes (Document.escapeChar c) := by
  unfold Document.escapeChar
  split
  case h_8 hq hb h1 h2 h3 h4 h5 =>
    split
    · next hc =>
      have hshort : c ∉ shortEscapes.map (·.2) := by
        have hslash : c ≠ '/' := by
          rintro rfl
          exact absurd hc (by decide)
        simpa [shortEscapes, hslash] using ⟨hq, hb, h1, h2, h3, h4, h5⟩
      have hunit := Writes.unit (a := '0') (b := '0') (i := 0) (j := 0) ⟨by decide, .inl rfl⟩
        ⟨by decide, .inl rfl⟩ (k := c.toNat / 16) ⟨by omega, .inl rfl⟩ (l := c.toNat % 16)
        ⟨by omega, .inl rfl⟩
      have hn : ((0 * 16 + 0) * 16 + c.toNat / 16) * 16 + c.toNat % 16 = c.toNat := by omega
      rw [hn] at hunit
      rw [ofChar, if_pos ⟨hc, hshort⟩]
      exact hunit
    · next hc =>
      rw [ofChar, if_neg fun h => hc h.1]
      exact .plain hq hb (Nat.not_lt.mp hc)
  all_goals exact .short (by decide)

theorem decode_ofChar (cs : List Char) : decode (cs.map ofChar) = some cs := by
  induction cs with
  | nil => rfl
  | cons c cs ih =>
    rw [List.map_cons, ofChar]
    split
    · next h =>
      have hl : ¬IsLeading c.toNat := fun hl => by have := hl.1; omega
      have ht : ¬IsTrailing c.toNat := fun ht => by have := ht.1; omega
      rw [decode.eq_def]
      simp [hl, ht, ih, Char.ofNat_toNat]
    · simp [decode, ih]

end Piece

namespace Spelling

def ofText (s : String) : Spelling := s.toList.map Piece.ofChar

theorem text?_ofText (s : String) : text? (ofText s) = some s := by
  simp [text?, ofText, Piece.decode_ofChar]

theorem writes_ofText (s : String) : (ofText s).Writes (Document.quote s) := by
  unfold ofText Document.quote
  refine .quoted ?_
  induction s.toList with
  | nil => exact .nil
  | cons c cs ih => exact .cons (Piece.writes_ofChar c) ih

end Spelling

namespace Tree

theorem within_of_isScalar {d : Tree} (h : d.isScalar = true) (n : Nat) : d.Within n := by
  cases d <;> cases n <;> trivial

@[simp] theorem within_bool (b : Bool) (n : Nat) : (Tree.bool b).Within n := within_of_isScalar rfl n

@[simp] theorem within_number (negative : Bool) (x : Numeral) (n : Nat) :
    (Tree.number negative x).Within n := within_of_isScalar rfl n

@[simp] theorem within_text (p : Spelling) (n : Nat) : (Tree.text p).Within n :=
  within_of_isScalar rfl n

/-- An entry that stands for a slot. -/
structure Entry (s : Slot) (e : Spelling × Tree) : Prop where
  key : Spelling.text? e.1 = some s.name
  fits : s.Fits e.2
  readable : e.2.Readable

theorem under_eq_nil {slots : List Slot} {es : List (Spelling × Tree)}
    (h : List.Forall₂ Entry slots es) {name : String} (hn : name ∉ slots.map (·.name)) :
    under name es = [] := by
  induction h with
  | nil => rfl
  | @cons s e slots es he _ ih =>
    rw [List.map_cons, List.mem_cons, not_or] at hn
    rw [under_cons_other he.key hn.1, ih hn.2]

/-- The names of the slots differ, so that each finds its own entry and no other. -/
theorem keeps_entries {slots : List Slot} {es : List (Spelling × Tree)}
    (h : List.Forall₂ Entry slots es) (hn : (slots.map (·.name)).Nodup) :
    (Tree.object es).Readable ∧ (Tree.object es).Fills slots := by
  rw [readable_object]
  induction h with
  | nil => simp [Fills]
  | @cons s e slots es he hes ih =>
    rw [List.map_cons, List.nodup_cons] at hn
    obtain ⟨hread, hkeys, hfits⟩ := ih hn.2
    have hkey : (Spelling.text? e.1).isSome := by simp [he.key]
    refine ⟨List.forall_mem_cons.mpr ⟨⟨hkey, he.readable⟩, hread⟩,
      List.forall_mem_cons.mpr ⟨hkey, hkeys⟩, List.forall_mem_cons.mpr ⟨?_, fun s' hs' => ?_⟩⟩
    · rw [under_cons_self he.key, under_eq_nil hes hn.1]
      exact he.fits
    · have hne : s'.name ≠ s.name := fun h => hn.1 (List.mem_map.mpr ⟨s', hs', h⟩)
      rw [under_cons_other he.key hne]
      exact hfits s' hs'

theorem keeps_specs {α : Type} {specs : List (FieldSpec α)} {a : α} {es : List (Spelling × Tree)}
    (h : List.Forall₂ Entry (specs.map (·.slot a)) es) (hn : (specs.map (·.name)).Nodup) :
    (Tree.object es).Keeps specs a := by
  refine keeps_entries h ?_
  rw [List.map_map]
  exact hn

end Tree

namespace Document

mutual

def tree : Document → Tree
  | .null => .null
  | .bool b => .bool b
  | .number n => .number false ⟨Numeral.decimal n, [], none⟩
  | .text s => .text (.ofText s)
  | .list ds => .list (itemTrees ds)
  | .object es => .object (entryTrees es)

def itemTrees : List Document → List Tree
  | [] => []
  | d :: ds => d.tree :: itemTrees ds

def entryTrees : List (String × Document) → List (Spelling × Tree)
  | [] => []
  | (k, d) :: es => (.ofText k, d.tree) :: entryTrees es

end

theorem itemTrees_eq (ds : List Document) : itemTrees ds = ds.map tree := by
  induction ds with
  | nil => rfl
  | cons d ds ih => rw [itemTrees, ih, List.map_cons]

theorem entryTrees_eq (es : List (String × Document)) :
    entryTrees es = es.map fun e => (.ofText e.1, e.2.tree) := by
  induction es with
  | nil => rfl
  | cons e es ih => rw [entryTrees, ih, List.map_cons]

mutual

theorem writes_render : (d : Document) → d.tree.Writes d.render
  | .null => .null
  | .bool true => .boolTrue
  | .bool false => .boolFalse
  | .number n => by
    have h := Numeral.Writes.mk (Numeral.writesInteger_decimal n) .none .none
    rw [List.append_nil, List.append_nil] at h
    rw [tree, render]
    exact .positive h
  | .text s => by
    rw [tree, render]
    exact .text (Spelling.writes_ofText s)
  | .list ds => by
    rw [tree, render]
    exact .list (writesItems_render ds)
  | .object es => by
    rw [tree, render]
    exact .object (writesEntries_render es)

theorem writesItems_render : (ds : List Document) → Tree.WritesItems (itemTrees ds) (renderItems ds)
  | [] => .nil .nil
  | [d] => by
    have h := Tree.WritesItems.last .nil (writes_render d) .nil
    rw [List.append_nil, List.nil_append] at h
    exact h
  | d :: d' :: ds =>
    Tree.WritesItems.more .nil (writes_render d) .nil (writesItems_render (d' :: ds))

theorem writesEntries_render :
    (es : List (String × Document)) → Tree.WritesEntries (entryTrees es) (renderEntries es)
  | [] => .nil .nil
  | [(k, d)] => by
    have h := Tree.WritesEntries.last .nil (Spelling.writes_ofText k) .nil .nil (writes_render d) .nil
    rw [List.append_nil] at h
    exact h
  | (k, d) :: e :: es => by
    have h := Tree.WritesEntries.more .nil (Spelling.writes_ofText k) .nil .nil (writes_render d) .nil
      (writesEntries_render (e :: es))
    have hrender : renderEntries ((k, d) :: e :: es) =
        quote k ++ ':' :: (d.render ++ ',' :: renderEntries (e :: es)) := by
      rw [← List.cons_append, ← List.append_assoc]
      rfl
    rw [hrender]
    exact h

end

/-- The text of a document writes its tree. -/
theorem writesDocument (d : Document) : d.tree.WritesDocument d.toText :=
  ⟨[], d.render, [], .nil, writes_render d, .nil, by simp [toText]⟩

open InitializerLint.Json.Tree (Entry)

/-- An entry whose value fits and is readable. -/
theorem entry {s : Slot} {d : Document} (h : s.Fits d.tree) (hr : d.tree.Readable) :
    Entry s (.ofText s.name, d.tree) :=
  ⟨Spelling.text?_ofText s.name, h, hr⟩

theorem isText_tree (s : String) : (Document.text s).tree.IsText s :=
  ⟨.ofText s, rfl, Spelling.text?_ofText s⟩

theorem isWord_tree (n : UInt64) : (Document.number n.toNat).tree.IsWord n :=
  ⟨Numeral.decimal n.toNat, rfl, Numeral.digitsValue_decimal n.toNat⟩

theorem isFlag_tree (b : Bool) : (Document.bool b).tree.IsFlag b := rfl

theorem isList_tree {α : Type} {Item : Tree → α → Prop} {f : α → Document}
    (h : ∀ a, Item (f a).tree a) (as : List α) : (Document.list (as.map f)).tree.IsList Item as := by
  refine ⟨as.map fun a => (f a).tree, ?_, ?_⟩
  · rw [tree, itemTrees_eq, List.map_map]
    rfl
  · rw [List.forall₂_map_left_iff, List.forall₂_same]
    exact fun a _ => h a

theorem readable_list_tree {α : Type} {f : α → Document} (h : ∀ a, (f a).tree.Readable)
    (as : List α) : (Document.list (as.map f)).tree.Readable := by
  rw [tree, itemTrees_eq, List.map_map, Tree.readable_list]
  simpa using fun a _ => h a

theorem within_list_tree {α : Type} {f : α → Document} {n : Nat} (h : ∀ a, (f a).tree.Within n)
    (as : List α) : (Document.list (as.map f)).tree.Within (n + 1) := by
  rw [tree, itemTrees_eq, List.map_map]
  change ∀ d ∈ _, Tree.Within n d
  simpa using fun a _ => h a

theorem within_object_tree {n : Nat} {es : List (String × Document)}
    (h : ∀ e ∈ es, e.2.tree.Within n) : (Document.object es).tree.Within (n + 1) := by
  rw [tree, entryTrees_eq]
  change ∀ e ∈ List.map _ es, Tree.Within n (Prod.snd e)
  exact List.forall_mem_map.mpr h

end Document
end InitializerLint.Json
