import InitializerLint.Proofs.Json.TreeReader
import Mathlib.Data.List.Forall2

/-! Records and tagged values read from a text as from its tree, and whole texts. -/
namespace InitializerLint.Json.Reader

open Data (Field Schema)
open Scan (Reads ReadsTree)
open InitializerLint.Json.Tree (ItemsAt EntriesAt)

variable {α : Type} {D : Nat → Tree → Prop}

/-- A field of a record in a text, and the same field in a tree. -/
structure FieldFollows (D : Nat → Tree → Prop) (f : Field Reader α) (g : Field TreeReader α) :
    Prop where
  name : f.name = g.name
  required : f.required = g.required
  read : ∀ a, Follows D (f.read a) (g.read a)

structure SchemaFollows (D : Nat → Tree → Prop) (s : Schema Reader α) (t : Schema TreeReader α) :
    Prop where
  blank : s.blank = t.blank
  fields : List.Forall₂ (FieldFollows D) s.fields t.fields

namespace SchemaFollows

variable {s : Schema Reader α} {t : Schema TreeReader α}

theorem find? (h : SchemaFollows D s t) (key : String) :
    (s.find? key = none ∧ t.find? key = none) ∨
      ∃ f g, s.find? key = some f ∧ t.find? key = some g ∧ FieldFollows D f g := by
  obtain ⟨-, hf⟩ := h
  unfold Schema.find?
  generalize s.fields = fs, t.fields = gs at hf ⊢
  induction hf with
  | nil => exact .inl ⟨rfl, rfl⟩
  | @cons f g fs gs hfg _ ih =>
    rw [List.find?_cons, List.find?_cons, hfg.name]
    cases g.name == key with
    | true => exact .inr ⟨f, g, rfl, rfl, hfg⟩
    | false => exact ih

theorem missing? (h : SchemaFollows D s t) (given : List String) :
    s.missing? given = t.missing? given := by
  obtain ⟨-, hf⟩ := h
  unfold Schema.missing?
  generalize s.fields = fs, t.fields = gs at hf ⊢
  induction hf with
  | nil => rfl
  | @cons f g fs gs hfg _ ih =>
    rw [List.find?_cons, List.find?_cons, hfg.name, hfg.required]
    cases g.required && !given.contains g.name with
    | true => simp [hfg.name]
    | false => exact ih

end SchemaFollows

theorem reads_checkRest (s : Schema Reader α) (i : Nat) (a : α) {fs : List (Field Reader α)}
    {gs : List (Field TreeReader α)} (h : List.Forall₂ (FieldFollows D) fs gs) (cs : List Char) :
    Reads (checkRest s i a fs) cs (TreeReader.elementsFrom a gs []) cs := by
  induction h generalizing i with
  | nil => exact .pure a cs
  | @cons f g fs gs hfg _ ih =>
    unfold checkRest TreeReader.elementsFrom
    rw [hfg.required]
    cases g.required with
    | true => exact Scan.reads_failFloating _ cs cs
    | false => exact ih (i + 1)

/-- The elements of a record leave the scanner in front of the bracket, unless there are more
of them than fields. -/
theorem reads_elementsFrom (s : Schema Reader α) {n : Nat} (i : Nat) (a : α)
    {fs : List (Field Reader α)} {gs : List (Field TreeReader α)}
    (h : List.Forall₂ (FieldFollows D) fs gs) {ds : List Tree} (hd : ∀ d ∈ ds, D n d)
    {cs : List Char} (hi : ItemsAt (i = 0) ds cs) (rest : List Char) :
    (∃ b, Blank b ∧ Reads (elementsFrom s n i a fs) (cs ++ ']' :: rest)
        (TreeReader.elementsFrom a gs ds) (b ++ ']' :: rest)) ∨
      TreeReader.elementsFrom a gs ds = none ∧ ∃ o mid,
        Reads (elementsFrom s n i a fs) (cs ++ ']' :: rest) o mid ∧
          ∀ off, ∃ c e, Scan.closeList ⟨mid, off⟩ = (c, some e) := by
  induction h generalizing i a ds cs with
  | nil =>
    cases ds with
    | nil => exact .inl ⟨cs, hi.blank, .pure a _⟩
    | cons d ds =>
      obtain ⟨b, c, cs', hb, rfl, hc, hne⟩ := hi.opens
      refine .inr ⟨rfl, some a, _, .pure a _, fun off => ?_⟩
      rw [List.append_assoc]
      exact Scan.closeList_open hb hc hne _ off
  | @cons f g fs gs hfg hrest ih =>
    unfold elementsFrom
    cases ds with
    | nil =>
      exact .inl ⟨[], .nil, (Scan.reads_nextItem_end _ hi.blank rest).bind
        (reads_checkRest s i a (.cons hfg hrest) _)⟩
    | cons d ds =>
      obtain ⟨v, tail, hv, ht, -, hn⟩ := Scan.reads_nextItem hi
      have hr := hfg.read a (hd d (by simp)) .nil hv (ht.boundary rest)
      rw [TreeReader.elementsFrom]
      cases hg : g.read a d with
      | none =>
        rw [hg] at hr
        exact .inl ⟨[], .nil, (hn _).bind hr.bind_none⟩
      | some a' =>
        rw [hg] at hr
        have ht' : ItemsAt (i + 1 = 0) ds tail := by simpa using ht
        have hrec := ih (i + 1) a' (fun d' hd' => hd d' (by simp [hd'])) ht'
        rcases hrec with ⟨b, hb, h⟩ | ⟨ho, o, mid, h, hc⟩
        · exact .inl ⟨b, hb, (hn _).bind (hr.bind h)⟩
        · exact .inr ⟨ho, o, mid, (hn _).bind (hr.bind h), hc⟩

/-- The induction is on the entries; what was given so far also tells whether one was read. -/
theorem reads_fieldsFrom {s : Schema Reader α} {t : Schema TreeReader α} (hst : SchemaFollows D s t)
    {n : Nat} {es : List (Spelling × Tree)} (hd : ∀ e ∈ es, D n e.2) (given : List String)
    (a : α) {cs : List Char} (he : EntriesAt given.isEmpty es cs) (fuel : Nat)
    (hf : es.length < fuel) (rest : List Char) :
    Reads (fieldsFrom s n given a fuel) (cs ++ '}' :: rest) (TreeReader.fieldsFrom t given a es)
      ('}' :: rest) := by
  induction es generalizing given a cs fuel with
  | nil =>
    obtain ⟨k, rfl⟩ : ∃ k, fuel = k + 1 := ⟨fuel - 1, by omega⟩
    unfold fieldsFrom TreeReader.fieldsFrom
    refine (Scan.reads_nextKey_end _ he.blank rest).bind ?_
    rw [hst.missing? given]
    dsimp only
    cases t.missing? given with
    | some name => exact Scan.reads_failFloating _ _ _
    | none => exact .pure a _
  | cons e es ih =>
    obtain ⟨k, rfl⟩ : ∃ k, fuel = k + 1 := ⟨fuel - 1, by omega⟩
    obtain ⟨k', d⟩ := e
    obtain ⟨b₁, b₂, v, tail, hb₁, hb₂, hv, ht, -, hn⟩ := Scan.reads_nextKey he
    have hskip := Scan.readsTree_skipValue d hb₂ hv (ht.boundary rest)
    have hih (key : String) (a : α) := ih (fun e' he' => hd e' (by simp [he'])) (key :: given) a
      (by simpa using ht) k (by simpa using hf)
    unfold fieldsFrom TreeReader.fieldsFrom
    refine (hn _).bind_map fun key => ?_
    dsimp only
    rcases hst.find? key with ⟨hs, ht'⟩ | ⟨f, g, hs, ht', hfg⟩
    · rw [hs, ht']
      exact (Scan.reads_colon hb₁ _).bind (hskip.bind (hih key a))
    · rw [hs, ht']
      dsimp only
      cases given.contains key with
      | true => exact Scan.reads_failFloating _ _ _
      | false =>
        have hr := hfg.read a (hd (k', d) (by simp)) hb₂ hv (ht.boundary rest)
        exact (Scan.reads_colon hb₁ _).bind (hr.bind' fun a' => hih key a')

theorem follows_record {s : Schema Reader α} {t : Schema TreeReader α} (hst : SchemaFollows D s t) :
    Follows (Tree.Inside D) (record s) (TreeReader.record t) := by
  intro n d hd b v rest hb hv hr
  unfold record
  cases d with
  | list ds =>
    cases hv with
    | @list _ cs hw =>
      cases n with
      | zero => exact hd.elim
      | succ n =>
        have hi := reads_elementsFrom s (n := n) 0 s.blank hst.fields hd hw.itemsAt rest
        rw [List.cons_append, List.append_assoc, TreeReader.record, ← hst.blank]
        refine reads_start hb (by decide) ?_
        rcases hi with ⟨b', hb', h⟩ | ⟨ho, o, mid, h, hc⟩
        · exact Scan.reads_enclosed '[' h (Scan.closeList_end hb' rest)
        · rw [ho]
          exact Scan.reads_enclosed_open '[' h hc
  | object es =>
    cases hv with
    | @object _ cs hw =>
      cases n with
      | zero => exact hd.elim
      | succ n =>
        have hf := hw.entriesAt.length_lt '}' rest
        have he := reads_fieldsFrom hst (n := n) hd [] s.blank hw.entriesAt _ hf rest
        rw [List.cons_append, List.append_assoc, TreeReader.record, ← hst.blank]
        exact reads_start hb (by decide)
          (Scan.reads_enclosed '{' (Scan.reads_bounded he) (Scan.closeObject_end rest))
  | _ =>
    refine reads_start_scalar s.expected rfl (fun c h1 h2 => ?_) hb hv hr
    split
    · next he => exact absurd (Option.some.inj he) h1
    · next he => exact absurd (Option.some.inj he) h2
    · rfl

theorem readsTree_variant (variants : List (String × α)) (d : Tree) :
    ReadsTree (variant variants) d (TreeReader.variant variants d) :=
  readsTree_scalar _ _ d

/-- The tag counts as read once it was met; the induction carries it. -/
theorem reads_taggedEntriesFrom (key : String) (variants : List (String × α)) {n : Nat}
    {es : List (Spelling × Tree)} (hd : ∀ e ∈ es, e.2.Within n) (tag : Option α) (first : Bool)
    {cs : List Char} (he : EntriesAt first es cs) (fuel : Nat) (hf : es.length < fuel)
    (rest : List Char) :
    Reads (taggedEntriesFrom key variants n tag first fuel) (cs ++ '}' :: rest)
      (TreeReader.taggedEntries key variants tag es) ('}' :: rest) := by
  induction es generalizing tag first cs fuel with
  | nil =>
    obtain ⟨k, rfl⟩ : ∃ k, fuel = k + 1 := ⟨fuel - 1, by omega⟩
    unfold taggedEntriesFrom TreeReader.taggedEntries
    refine (Scan.reads_nextKey_end _ he.blank rest).bind ?_
    cases tag with
    | some t => exact .pure (t, []) _
    | none => exact Scan.reads_failFloating _ _ _
  | cons e es ih =>
    obtain ⟨k, rfl⟩ : ∃ k, fuel = k + 1 := ⟨fuel - 1, by omega⟩
    obtain ⟨k', d⟩ := e
    obtain ⟨b₁, b₂, v, tail, hb₁, hb₂, hv, ht, -, hn⟩ := Scan.reads_nextKey he
    have hih (tag : Option α) := ih (fun e' he' => hd e' (by simp [he'])) tag false ht k
      (by simpa using hf)
    unfold taggedEntriesFrom TreeReader.taggedEntries
    refine (hn _).bind_map fun name => ?_
    dsimp only
    by_cases hk : name = key
    · rw [if_pos hk, if_pos hk]
      cases tag with
      | some t => exact Scan.reads_failFloating _ _ _
      | none =>
        have hr := readsTree_variant variants d hb₂ hv (ht.boundary rest)
        exact (Scan.reads_colon hb₁ _).bind (hr.bind' fun t => hih (some t))
    · rw [if_neg hk, if_neg hk]
      have hr := Scan.readsTree_value (hd (k', d) (by simp)) hb₂ hv (ht.boundary rest)
      exact (Scan.reads_colon hb₁ _).bind (hr.bind' fun v => (hih tag).bind' fun p => .pure _ _)

theorem reads_taggedItems (key : String) (variants : List (String × α)) {n : Nat} {ds : List Tree}
    (hd : ∀ d ∈ ds, d.Within n) {cs : List Char} (hi : ItemsAt true ds cs) (rest : List Char) :
    Reads (taggedItems key variants n) (cs ++ ']' :: rest) (TreeReader.taggedItems variants ds)
      (']' :: rest) := by
  unfold taggedItems
  cases ds with
  | nil => exact (Scan.reads_nextItem_end _ hi.blank rest).bind (Scan.reads_failFloating _ _ _)
  | cons d ds =>
    obtain ⟨v, tail, hv, ht, -, hn⟩ := Scan.reads_nextItem hi
    have hf := ht.length_lt ']' rest
    have hvs := Scan.reads_itemsFrom (fun d' hd' => Scan.readsTree_value (hd d' (by simp [hd']))) ht
      _ hf rest
    have hr := readsTree_variant variants d .nil hv (ht.boundary rest)
    exact (hn _).bind (hr.bind' fun t => (Scan.reads_bounded hvs).bind' fun vs => .pure (t, vs) _)

theorem follows_tagged (expected key : String) (variants : List (String × α)) :
    Follows Tree.Within (tagged expected key variants) (TreeReader.tagged key variants) := by
  intro n d hd b v rest hb hv hr
  unfold tagged
  cases d with
  | list ds =>
    cases hv with
    | @list _ cs hw =>
      cases n with
      | zero => exact hd.elim
      | succ n =>
        have hi := reads_taggedItems key variants (n := n) hd hw.itemsAt rest
        rw [List.cons_append, List.append_assoc]
        refine reads_start hb (by decide) ?_
        exact (Scan.reads_enclosed '[' hi (Scan.closeList_end .nil rest)).bind' fun p => .pure _ _
  | object es =>
    cases hv with
    | @object _ cs hw =>
      cases n with
      | zero => exact hd.elim
      | succ n =>
        have hf := hw.entriesAt.length_lt '}' rest
        have he := reads_taggedEntriesFrom key variants (n := n) hd none true hw.entriesAt _ hf rest
        rw [List.cons_append, List.append_assoc]
        refine reads_start hb (by decide) ?_
        exact (Scan.reads_enclosed '{' (Scan.reads_bounded he) (Scan.closeObject_end rest)).bind'
          fun p => .pure _ _
  | _ =>
    refine reads_start_scalar expected rfl (fun c h1 h2 => ?_) hb hv hr
    split
    · next he => exact absurd (Option.some.inj he) h1
    · next he => exact absurd (Option.some.inj he) h2
    · rfl

/-- A whole text is read as its tree, or there is an error. -/
theorem read_eq {r : Reader α} {φ : TreeReader α} (h : Follows D r φ) {d : Tree} {text : String}
    (hw : d.WritesDocument text) (hd : D levels d) :
    match φ d with
    | some a => Json.read r text = .ok a
    | none => ∃ e, Json.read r text = .error e := by
  obtain ⟨b, v, b', hb, hv, hb', ht⟩ := hw
  have hend : Boundary b' := by
    have h : Boundary (b' ++ []) := .append hb' nofun
    rwa [List.append_nil] at h
  have hskip : Reads Scan.skipSpace b' (some ()) [] := by
    have h : Reads Scan.skipSpace (b' ++ []) (some ()) [] := Scan.reads_skipSpace hb' nofun
    rwa [List.append_nil] at h
  have hr : Reads (do
      let a ← r levels
      Scan.skipSpace
      if (← Scan.peek).isSome then Scan.failPeek .trailingCharacters else return a)
      text.toList (φ d) [] := by
    rw [ht, ← Option.bind_fun_some (φ d)]
    exact (h hd hb hv hend).bind' fun a => hskip.bind ((Scan.reads_peek []).bind (.pure a []))
  have hans := hr 0
  unfold Json.read
  cases hφ : φ d with
  | some a =>
    rw [hφ] at hans
    obtain ⟨off, he⟩ := hans
    simp only [he]
  | none =>
    rw [hφ] at hans
    obtain ⟨e, he⟩ := hans
    exact ⟨e.locate text.toList, by simp only [he]⟩

end InitializerLint.Json.Reader
