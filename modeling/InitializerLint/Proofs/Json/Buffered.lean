import InitializerLint.Proofs.Json.Content

/-! Records and tagged values that are kept whole before they are decoded. A tag is one more
slot in front of the slots of its variant. -/
namespace InitializerLint.Json

open Data (Decode Field Schema)

namespace Tree

theorem readable_list {ds : List Tree} : (Tree.list ds).Readable ↔ ∀ d ∈ ds, d.Readable := by
  unfold Readable
  rw [value?, Option.isSome_map]
  induction ds with
  | nil => simp [itemValues?]
  | cons d ds ih =>
    rw [List.forall_mem_cons, ← ih, itemValues?]
    cases d.value? <;> cases itemValues? ds <;> simp

theorem readable_object {es : List (Spelling × Tree)} :
    (Tree.object es).Readable ↔ ∀ e ∈ es, (Spelling.text? e.1).isSome ∧ e.2.Readable := by
  unfold Readable
  rw [value?, Option.isSome_map]
  induction es with
  | nil => simp [entryValues?]
  | cons e es ih =>
    obtain ⟨k, d⟩ := e
    rw [List.forall_mem_cons, ← ih, entryValues?]
    cases Spelling.text? k <;> cases d.value? <;> cases entryValues? es <;> simp

theorem IsText.readable {d : Tree} {s : String} (h : d.IsText s) : d.Readable := by
  rw [Readable, value?_eq_text.mpr h]
  rfl

theorem IsWord.readable {d : Tree} {n : UInt64} (h : d.IsWord n) : d.Readable := by
  rw [Readable, value?_eq_unsigned.mpr h]
  rfl

/-- The entries of an object but those under a key. -/
def others (key : String) (es : List (Spelling × Tree)) : List (Spelling × Tree) :=
  es.filter fun e => Spelling.text? e.1 ≠ some key

theorem under_others {key name : String} (h : name ≠ key) (es : List (Spelling × Tree)) :
    under name (others key es) = under name es := by
  have hp (e : Spelling × Tree) : (decide (Spelling.text? e.1 = some name) &&
      decide (Spelling.text? e.1 ≠ some key)) = decide (Spelling.text? e.1 = some name) := by
    by_cases he : Spelling.text? e.1 = some name <;> simp [he, h]
  rw [under, under, others, List.filter_filter]
  simp only [hp]

/-- Everything in a record has to stand for something if it is kept before it is decoded. -/
def Keeps {α : Type} (specs : List (FieldSpec α)) (d : Tree) (a : α) : Prop :=
  d.Readable ∧ d.Presents specs a

/-- The tag of a tree, and the rest of the tree. -/
inductive Splits (key : String) : Tree → Tree → Tree → Prop
  | list {k : Tree} {ds : List Tree} : Splits key (.list (k :: ds)) k (.list ds)
  | object {k : Tree} {es : List (Spelling × Tree)} : (∀ e ∈ es, (Spelling.text? e.1).isSome) →
      under key es = [k] → Splits key (.object es) k (.object (others key es))

/-- A slot that only the name of a variant fits. -/
def tagSlot (key name : String) : Slot := ⟨key, False, (·.IsText name)⟩

section tag

variable {key name : String} {slots : List Slot} {d : Tree}

theorem exists_splits (h : ∀ s ∈ slots, s.name ≠ key) (hd : d.Readable)
    (hf : d.Fills (tagSlot key name :: slots)) :
    ∃ k rest, d.Splits key k rest ∧ k.IsText name ∧ rest.Readable ∧ rest.Fills slots := by
  cases d with
  | list ds =>
    cases ds with
    | nil => exact hf.1.elim
    | cons k ds =>
      rw [readable_list, List.forall_mem_cons] at hd
      exact ⟨k, .list ds, .list, hf.1, readable_list.mpr hd.2, hf.2⟩
  | object es =>
    obtain ⟨hkeys, hf⟩ := hf
    obtain ⟨htag, hf⟩ := List.forall_mem_cons.mp hf
    rw [readable_object] at hd
    change (tagSlot key name).Holds (under key es) at htag
    match hu : under key es, htag with
    | [k], htag =>
      refine ⟨k, .object (others key es), .object hkeys hu, htag, ?_, ?_, fun s hs => ?_⟩
      · exact readable_object.mpr fun e he => hd e (List.mem_of_mem_filter he)
      · exact fun e he => hkeys e (List.mem_of_mem_filter he)
      · rw [under_others (h s hs)]
        exact hf s hs
  | _ => exact hf.elim

theorem Splits.readable {k rest : Tree} (hs : d.Splits key k rest) (hk : k.Readable)
    (hr : rest.Readable) : d.Readable := by
  cases hs with
  | list => exact readable_list.mpr (List.forall_mem_cons.mpr ⟨hk, readable_list.mp hr⟩)
  | object hkeys hu =>
    refine readable_object.mpr fun e he => ⟨hkeys e he, ?_⟩
    by_cases hkey : Spelling.text? e.1 = some key
    · have hmem : e.2 ∈ under key _ :=
        List.mem_map_of_mem (List.mem_filter.mpr ⟨he, decide_eq_true hkey⟩)
      rw [hu, List.mem_singleton] at hmem
      rw [hmem]
      exact hk
    · exact (readable_object.mp hr e (List.mem_filter.mpr ⟨he, decide_eq_true hkey⟩)).2

theorem Splits.fills {k rest : Tree} (hs : d.Splits key k rest) (h : ∀ s ∈ slots, s.name ≠ key)
    (hk : k.IsText name) (hf : rest.Fills slots) : d.Fills (tagSlot key name :: slots) := by
  cases hs with
  | list => exact ⟨hk, hf⟩
  | @object k es hkeys hu =>
    refine ⟨hkeys, List.forall_mem_cons.mpr ⟨?_, fun s hs => ?_⟩⟩
    · change (tagSlot key name).Holds (under key es)
      rw [hu]
      exact hk
    · rw [← under_others (h s hs)]
      exact hf.2 s hs

/-- The tag may be seen as one more slot. -/
theorem fills_tagSlot (h : ∀ s ∈ slots, s.name ≠ key) :
    d.Readable ∧ d.Fills (tagSlot key name :: slots) ↔
      ∃ k rest, d.Splits key k rest ∧ k.IsText name ∧ rest.Readable ∧ rest.Fills slots := by
  constructor
  · rintro ⟨hd, hf⟩
    exact exists_splits h hd hf
  · rintro ⟨k, rest, hs, hk, hr, hf⟩
    exact ⟨hs.readable hk.readable hr, hs.fills h hk hf⟩

end tag

end Tree

namespace TreeReader

variable {α : Type}

def bufferedField (f : Field Decode α) : Field TreeReader α :=
  ⟨f.name, f.required, fun a => buffered (f.read a)⟩

def bufferedSchema (s : Schema Decode α) : Schema TreeReader α :=
  ⟨s.name, s.fields.map bufferedField, s.blank⟩

theorem bufferedField_read {d : Tree} {v : Data.Value} (hv : d.value? = some v)
    (f : Field Decode α) (a : α) : (bufferedField f).read a d = (f.read a v).toOption := by
  simp [bufferedField, buffered, hv]

theorem FieldReads.of_buffered {specs : List (FieldSpec α)} {f : Field Decode α} {p : FieldSpec α}
    {decode : Decode p.Content} (set : α → p.Content → α) (name : f.name = p.name)
    (required : f.required = p.default?.isNone)
    (read : f.read = fun a v => do return set a (← decode v))
    (means : ∀ d c, buffered decode d = some c ↔ p.Means d c)
    (get_set : ∀ a c, p.get (set a c) = c)
    (frame : ∀ q ∈ specs, q.name ≠ p.name → ∀ a c, q.get (set a c) = q.get a) :
    FieldReads specs (bufferedField f) p := by
  refine .of_set set (buffered decode) name required ?_ means get_set frame
  funext a
  rw [bufferedField, read]
  exact buffered_map decode (set a)

section record

variable (s : Schema Decode α)

theorem bufferedSchema_find? (key : String) :
    (bufferedSchema s).find? key = (s.find? key).map bufferedField := by
  rw [Schema.find?, Schema.find?, bufferedSchema, List.find?_map]
  rfl

theorem bufferedSchema_missing? (given : List String) :
    (bufferedSchema s).missing? given = s.missing? given := by
  rw [Schema.missing?, Schema.missing?, bufferedSchema, List.find?_map, Option.map_map]
  rfl

private theorem missing?_congr {given given' : List String}
    (h : ∀ f ∈ s.fields, f.name ∈ given ↔ f.name ∈ given') : s.missing? given = s.missing? given' := by
  unfold Schema.missing?
  generalize s.fields = fs at h ⊢
  induction fs with
  | nil => rfl
  | cons f fs ih =>
    obtain ⟨hf, hfs⟩ := List.forall_mem_cons.mp h
    have hc : given.contains f.name = given'.contains f.name := by
      rw [Bool.eq_iff_iff, List.contains_iff_mem, List.contains_iff_mem, hf]
    rw [List.find?_cons, List.find?_cons, hc]
    cases f.required && !given'.contains f.name with
    | true => rfl
    | false => exact ih hfs

/-- Only known keys are remembered while decoding, but these in the same way. -/
theorem toOption_entriesFrom {es : List (Spelling × Tree)} {vs : List (Data.Value × Data.Value)}
    (hes : Tree.entryValues? es = some vs) (given given' : List String)
    (h : ∀ f ∈ s.fields, f.name ∈ given ↔ f.name ∈ given') (a : α) :
    (Decode.entriesFrom s given a vs).toOption = fieldsFrom (bufferedSchema s) given' a es := by
  rw [Tree.entryValues?_eq_some] at hes
  induction hes generalizing given given' a with
  | nil =>
    rw [Decode.entriesFrom, fieldsFrom, bufferedSchema_missing?, missing?_congr s h]
    cases s.missing? given' <;> rfl
  | @cons e v es vs he _ ih =>
    obtain ⟨k, d⟩ := e
    obtain ⟨_, w⟩ := v
    obtain ⟨key, hk, rfl, hw⟩ := he
    have hfind := bufferedSchema_find? s key
    cases hf : s.find? key with
    | none =>
      have hne (f : Field Decode α) (hmem : f ∈ s.fields) : f.name ≠ key := by
        simpa using List.find?_eq_none.mp hf f hmem
      have hskip : Decode.entriesFrom s given a ((.text key, w) :: vs) =
          Decode.entriesFrom s given a vs := by
        simp [Decode.entriesFrom, Decode.fieldOf?, hf, bind, Except.bind]
      rw [hf] at hfind
      rw [hskip, fieldsFrom, hk]
      simp only [Option.bind_eq_bind, Option.bind_some, hfind, Option.map_none]
      exact ih given (key :: given') (fun f hmem => by simp [h f hmem, hne f hmem]) a
    | some f =>
      obtain rfl : f.name = key := by simpa using List.find?_some hf
      have hmem := h f (List.mem_of_find?_eq_some hf)
      rw [hf] at hfind
      rw [fieldsFrom, hk]
      simp only [Option.bind_eq_bind, Option.bind_some, hfind, Option.map_some]
      by_cases hg : f.name ∈ given
      · have hdup : Decode.entriesFrom s given a ((.text f.name, w) :: vs) =
            .error (.duplicateField f.name) := by
          simp [Decode.entriesFrom, Decode.fieldOf?, hf, hg, bind, Except.bind]
        rw [hdup, if_pos (List.contains_iff_mem.mpr (hmem.mp hg))]
        rfl
      · have hread : Decode.entriesFrom s given a ((.text f.name, w) :: vs) =
            (f.read a w).bind fun a' => Decode.entriesFrom s (f.name :: given) a' vs := by
          simp [Decode.entriesFrom, Decode.fieldOf?, hf, hg, bind, Except.bind]
        rw [hread, if_neg (by simpa [← hmem] using hg), bufferedField_read hw]
        cases f.read a w with
        | error e => rfl
        | ok a' =>
          exact ih (f.name :: given) (f.name :: given') (fun g hg => by simp [h g hg]) a'

theorem toOption_elementsFrom {ds : List Tree} {vs : List Data.Value}
    (hds : ds.mapM Tree.value? = some vs) (i : Nat) (a : α) (fs : List (Field Decode α)) :
    (Decode.elementsFrom s i a fs vs).toOption = elementsFrom a (fs.map bufferedField) ds := by
  rw [mapM_eq_some] at hds
  induction fs generalizing i a ds vs with
  | nil => cases hds <;> rfl
  | cons f fs ih =>
    cases hds with
    | nil =>
      rw [Decode.elementsFrom, List.map_cons, elementsFrom, ← ih .nil (i + 1) a]
      cases hr : f.required <;> simp [bufferedField, hr, Except.toOption]
    | @cons d v ds vs hv hvs =>
      rw [Decode.elementsFrom, List.map_cons, elementsFrom, bufferedField_read hv]
      cases f.read a v with
      | error e => rfl
      | ok a' => exact ih hvs (i + 1) a'

theorem buffered_record {d : Tree} {a : α} :
    buffered (Decode.record s) d = some a ↔ d.Readable ∧ record (bufferedSchema s) d = some a := by
  unfold buffered Tree.Readable
  cases hv : d.value? with
  | none => simp
  | some v =>
    simp only [Option.bind_some, Option.isSome_some, true_and]
    cases v with
    | list vs =>
      obtain ⟨ds, rfl, hds⟩ := Tree.value?_eq_list.mp hv
      rw [Decode.record, toOption_elementsFrom s hds]
      rfl
    | map vs =>
      obtain ⟨es, rfl, hes⟩ := Tree.value?_eq_map.mp hv
      rw [Decode.record, toOption_entriesFrom s hes [] [] (fun _ _ => Iff.rfl)]
      rfl
    | _ =>
      have hnone : record (bufferedSchema s) d = none := by
        cases d with
        | list ds => simp [Tree.value?] at hv
        | object es => simp [Tree.value?] at hv
        | _ => rfl
      rw [hnone]
      rfl

theorem buffered_record_eq_some {specs : List (FieldSpec α)} (h : Describes specs (bufferedSchema s))
    {d : Tree} {a : α} : buffered (Decode.record s) d = some a ↔ d.Keeps specs a := by
  rw [buffered_record, record_eq_some h]
  rfl

theorem buffered_records {specs : List (FieldSpec α)} {s : Schema Decode α}
    (h : Describes specs (bufferedSchema s)) {d : Tree} {as : List α} :
    buffered (Decode.list (Decode.record s)) d = some as ↔ d.IsList (Tree.Keeps specs) as := by
  simp only [buffered_list, buffered_record_eq_some s h]

end record

section tagged

variable {τ : Type} (key : String) (variants : List (String × τ))

theorem variant_eq_some {d : Tree} {t : τ} :
    variant variants d = some t ↔ ∃ name, d.IsText name ∧ variants.lookup name = some t := by
  have hscalar (name : String) (h : d.IsText name) : d.isScalar = true := by
    obtain ⟨p, rfl, -⟩ := h
    rfl
  unfold variant scalar
  rw [Option.ite_none_right_eq_some]
  change _ ∧ buffered _ d = some t ↔ _
  rw [buffered_eq_some]
  constructor
  · rintro ⟨-, v, hv, hok⟩
    cases v with
    | text name => exact ⟨name, Tree.value?_eq_text.mp hv, Decode.variant_text_eq_ok.mp hok⟩
    | _ => simp [Decode.mismatch] at hok
  · rintro ⟨name, ht, hn⟩
    exact ⟨hscalar name ht, .text name, Tree.value?_eq_text.mpr ht, Decode.variant_text_eq_ok.mpr hn⟩

/-- What is still to be found for the tag, if it was met or not. -/
def TagRemains (t : τ) : Option τ → List Tree → Prop
  | none, [d] => variant variants d = some t
  | some t', [] => t' = t
  | _, _ => False

private theorem taggedEntries_tag {k : Spelling} (hk : Spelling.text? k = some key) (d : Tree)
    (es : List (Spelling × Tree)) : taggedEntries key variants none ((k, d) :: es) =
      (variant variants d).bind fun t => taggedEntries key variants (some t) es := by
  simp [taggedEntries, hk]

private theorem taggedEntries_other {k : Spelling} {name : String}
    (hk : Spelling.text? k = some name) (hn : name ≠ key) (tag : Option τ) (d : Tree)
    (es : List (Spelling × Tree)) (t : τ) (vs : List (Data.Value × Data.Value)) :
    taggedEntries key variants tag ((k, d) :: es) = some (t, vs) ↔ ∃ v vs', d.value? = some v ∧
      taggedEntries key variants tag es = some (t, vs') ∧ vs = (.text name, v) :: vs' := by
  rw [taggedEntries, hk]
  simp only [Option.bind_eq_bind, Option.bind_some, if_neg hn, Option.bind_eq_some_iff]
  simp [eq_comm]

private theorem entryValues?_cons {k : Spelling} {name : String} (hk : Spelling.text? k = some name)
    (d : Tree) (es : List (Spelling × Tree)) (vs : List (Data.Value × Data.Value)) :
    Tree.entryValues? ((k, d) :: es) = some vs ↔ ∃ v vs', d.value? = some v ∧
      Tree.entryValues? es = some vs' ∧ vs = (.text name, v) :: vs' := by
  rw [Tree.entryValues?, hk]
  simp only [Option.bind_eq_bind, Option.bind_some, Option.bind_eq_some_iff]
  simp [eq_comm]

/-- The induction is on the entries and carries the tag once it was met. -/
theorem taggedEntries_eq_some (tag : Option τ) (es : List (Spelling × Tree)) (t : τ)
    (vs : List (Data.Value × Data.Value)) :
    taggedEntries key variants tag es = some (t, vs) ↔
      (∀ e ∈ es, (Spelling.text? e.1).isSome) ∧ TagRemains variants t tag (Tree.under key es) ∧
        Tree.entryValues? (Tree.others key es) = some vs := by
  induction es generalizing tag vs with
  | nil => cases tag <;> simp [taggedEntries, TagRemains, Tree.under, Tree.others, Tree.entryValues?]
  | cons e es ih =>
    obtain ⟨k, d⟩ := e
    cases hk : Spelling.text? k with
    | none => simp [taggedEntries, hk]
    | some name =>
      by_cases hn : name = key
      · subst hn
        have hothers : Tree.others name ((k, d) :: es) = Tree.others name es := by
          simp [Tree.others, hk]
        rw [Tree.under_cons_self hk, hothers]
        cases tag with
        | some t' => simp [taggedEntries, hk, TagRemains]
        | none =>
          have htag : (∃ t', variant variants d = some t' ∧
              TagRemains variants t (some t') (Tree.under name es)) ↔
                TagRemains variants t none (d :: Tree.under name es) := by
            cases Tree.under name es <;> simp [TagRemains]
          rw [taggedEntries_tag name variants hk, Option.bind_eq_some_iff, List.forall_mem_cons, ← htag]
          simp only [ih, hk, Option.isSome_some, true_and]
          tauto
      · have hothers : Tree.others key ((k, d) :: es) = (k, d) :: Tree.others key es := by
          simp [Tree.others, hk, hn]
        rw [Tree.under_cons_other hk (Ne.symm hn), hothers, taggedEntries_other key variants hk hn,
          entryValues?_cons hk, List.forall_mem_cons, hk]
        simp only [ih, Option.isSome_some, true_and]
        constructor
        · rintro ⟨v, vs', hv, ⟨hes, ht, hvs⟩, rfl⟩
          exact ⟨hes, ht, v, vs', hv, hvs, rfl⟩
        · rintro ⟨hes, ht, v, vs', hv, hvs, rfl⟩
          exact ⟨v, vs', hv, ⟨hes, ht, hvs⟩, rfl⟩

private theorem tagged_list {ds : List Tree} {t : τ} {v : Data.Value} :
    tagged key variants (.list ds) = some (t, v) ↔ ∃ k ds' vs, ds = k :: ds' ∧
      variant variants k = some t ∧ ds'.mapM Tree.value? = some vs ∧ v = .list vs := by
  cases ds with
  | nil => simp [tagged, taggedItems]
  | cons k ds =>
    rw [tagged, taggedItems]
    simp only [Option.bind_eq_bind, Option.bind_eq_some_iff]
    constructor
    · rintro ⟨p, ⟨t', ht, vs, hvs, hp⟩, h⟩
      cases hp
      cases h
      exact ⟨k, ds, vs, rfl, ht, hvs, rfl⟩
    · rintro ⟨k', ds', vs, hds, ht, hvs, rfl⟩
      cases hds
      exact ⟨(t, vs), ⟨t, ht, vs, hvs, rfl⟩, rfl⟩

private theorem tagged_object {es : List (Spelling × Tree)} {t : τ} {v : Data.Value} :
    tagged key variants (.object es) = some (t, v) ↔
      ∃ vs, taggedEntries key variants none es = some (t, vs) ∧ v = .map vs := by
  rw [tagged]
  simp only [Option.bind_eq_bind, Option.bind_eq_some_iff]
  simp [eq_comm]

/-- A tag is found where a tree splits into the tag and a rest that can be kept. -/
theorem tagged_eq_some {d : Tree} {t : τ} {v : Data.Value} :
    tagged key variants d = some (t, v) ↔
      ∃ k rest, d.Splits key k rest ∧ variant variants k = some t ∧ rest.value? = some v := by
  constructor
  · intro h
    cases d with
    | list ds =>
      obtain ⟨k, ds', vs, rfl, hk, hvs, rfl⟩ := (tagged_list key variants).mp h
      exact ⟨k, .list ds', .list, hk, Tree.value?_eq_list.mpr ⟨ds', rfl, hvs⟩⟩
    | object es =>
      obtain ⟨vs, hes, rfl⟩ := (tagged_object key variants).mp h
      obtain ⟨hkeys, ht, hvs⟩ := (taggedEntries_eq_some key variants none es t vs).mp hes
      match hu : Tree.under key es, ht with
      | [k], ht => exact ⟨k, _, .object hkeys hu, ht, Tree.value?_eq_map.mpr ⟨_, rfl, hvs⟩⟩
    | _ => cases h
  · rintro ⟨k, rest, hs, hk, hv⟩
    cases hs with
    | @list _ ds =>
      obtain ⟨vs, hvs, rfl⟩ := Option.map_eq_some_iff.mp hv
      rw [Tree.itemValues?_eq] at hvs
      exact (tagged_list key variants).mpr ⟨k, ds, vs, rfl, hk, hvs, rfl⟩
    | @object _ es hkeys hu =>
      obtain ⟨vs, hvs, rfl⟩ := Option.map_eq_some_iff.mp hv
      refine (tagged_object key variants).mpr ⟨vs, ?_, rfl⟩
      refine (taggedEntries_eq_some key variants none es t vs).mpr ⟨hkeys, ?_, hvs⟩
      rw [hu]
      exact hk

end tagged
end TreeReader
end InitializerLint.Json
