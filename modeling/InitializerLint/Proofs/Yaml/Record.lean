import InitializerLint.Proofs.Yaml.Read

/-! Typed data read from the nodes of a compact text: scalars, lists, records with all of their
fields, and tagged values. -/
namespace InitializerLint.Yaml

namespace Reader

open Data (Field Schema)
open Yaml.Read (Reads)

variable {α : Type}

/-- What was read may still be judged. -/
theorem reads_check {β : Type} {r : Reader α} {f : α → Reader β} {kinds : List Node.Kind} {a : α} {b : β}
    {levels : Nat} (h : Reads (r levels) kinds a) (hf : Reads (f a levels) [] b) :
    Reads ((r >>= f) levels) kinds b := by
  change Reads (r levels >>= fun a => f a levels) kinds b
  rw [← List.append_nil kinds]
  exact h.bind hf

theorem reads_text (expected : String) (style : Style) (s : String) :
    Reads (text expected) [.scalar none style s] s := by
  refine Reads.node (by simp) fun n hn => ?_
  rw [hn]
  exact Reads.pure s

theorem reads_spelled (expected : String) (tag : Tag) {parse : String → Option α} {s : String} {a : α}
    (h : parse s = some a) : Reads (spelled expected tag parse) [.scalar none .plain s] a := by
  refine Reads.node (by simp) fun n hn => ?_
  have hspells : Scalar.spells tag none .plain = true := rfl
  rw [hn]
  simp only [hspells, if_true, h]
  exact Reads.pure a

theorem reads_flag (expected : String) (b : Bool) :
    Reads (spelled expected .bool Scalar.bool?) (Json.Document.bool b).nodes b := by
  cases b <;> exact reads_spelled expected .bool (by decide)

theorem reads_word (expected : String) (n : UInt64) :
    Reads (spelled expected .int Scalar.word?) (Json.Document.number n.toNat).nodes n :=
  reads_spelled expected .int (Scalar.word?_toDigits n)

theorem reads_list {item : Reader α} {f : α → Json.Document} {as : List α} {levels : Nat}
    (h : ∀ a ∈ as, Reads (item levels) (f a).nodes a) :
    Reads (list item (levels + 1)) (Json.Document.list (as.map f)).nodes as := by
  have hitems := Read.reads_items (g := id) h
  rw [List.map_id] at hitems
  rw [Json.Document.nodes, Json.Document.itemNodes_eq]
  refine Reads.node (by simp) fun n hn => ?_
  rw [hn]
  exact hitems

theorem reads_entries {item : Reader α} {f : α → Json.Document} {as : List (String × α)}
    {levels : Nat} (h : ∀ a ∈ as, Reads (item levels) (f a.2).nodes a.2) :
    Reads (entries item (levels + 1)) (Json.Document.object (as.map fun a => (a.1, f a.2))).nodes as := by
  have hentries := Read.reads_entries (f := fun a : String × α => (a.1, f a.2)) (g := id)
    (fun a _ => reads_text "a string" .doubleQuoted a.1) h
  rw [List.map_id] at hentries
  rw [Json.Document.nodes, Json.Document.entryNodes_eq]
  refine Reads.node (by simp) fun n hn => ?_
  rw [hn]
  exact hentries

/-- Entries that are all of them fields, none twice, read one after the other. -/
inductive ReadsFields (s : Schema Reader α) (levels : Nat) :
    List String → α → List (String × Json.Document) → α → Prop
  | nil {given : List String} {a : α} : s.missing? given = none → ReadsFields s levels given a [] a
  | cons {given : List String} {a a' b : α} {key : String} {d : Json.Document}
      {es : List (String × Json.Document)} {f : Field Reader α} : s.find? key = some f →
      key ∉ given → Reads (f.read a levels) d.nodes a' → ReadsFields s levels (key :: given) a' es b →
      ReadsFields s levels given a ((key, d) :: es) b

variable {s : Schema Reader α}

/-- A field whose reader puts what it reads into the record. -/
theorem ReadsFields.put {γ : Type} {levels : Nat} {given : List String} {a b : α} {key : String}
    {required : Bool} {read : α → Reader α} {d : Json.Document} {es : List (String × Json.Document)}
    {c : γ} (f : γ → α) (item : Reader γ) (hfind : s.find? key = some ⟨key, required, read⟩)
    (hread : read a = do return f (← item)) (hkey : key ∉ given) (hitem : Reads (item levels) d.nodes c)
    (hs : ReadsFields s levels (key :: given) (f c) es b) :
    ReadsFields s levels given a ((key, d) :: es) b := by
  refine .cons hfind hkey ?_ hs
  change Reads (read a levels) d.nodes (f c)
  rw [hread]
  exact hitem.map f

theorem reads_fieldsFrom {levels : Nat} {given : List String} {a b : α}
    {es : List (String × Json.Document)} (h : ReadsFields s levels given a es b) {n : Nat}
    (hn : es.length < n) :
    Reads (fieldsFrom s levels given a n) (es.flatMap Json.Document.entryNode ++ [.mappingEnd]) b := by
  obtain ⟨n, rfl⟩ : ∃ k, n = k + 1 := ⟨n - 1, by omega⟩
  induction h generalizing n with
  | @nil given a hm =>
    refine Reads.peek fun k hk => ?_
    rw [hk]
    unfold finish
    rw [hm]
    exact (Reads.drop _).map fun _ => a
  | @cons given a a' b key d es f hf hg hread _ ih =>
    rw [List.length_cons] at hn
    obtain ⟨n, rfl⟩ : ∃ k, n = k + 1 := ⟨n - 1, by omega⟩
    rw [List.flatMap_cons, List.append_assoc]
    have hcontains : given.contains key = false := by simpa using hg
    refine Reads.peek fun k hk => ?_
    rw [hk]
    refine (reads_text "field identifier" .doubleQuoted key).bind ?_
    simp only [hf, hcontains, Bool.false_eq_true, if_false]
    exact (hread.under (Read.segment k)).bind (ih n (by omega))

theorem reads_record {levels : Nat} {b : α} {es : List (String × Json.Document)}
    (h : ReadsFields s levels [] s.blank es b) :
    Reads (record s (levels + 1)) (Json.Document.object es).nodes b := by
  have hfields : Reads (Read.bounded (fieldsFrom s levels [] s.blank))
      (es.flatMap Json.Document.entryNode ++ [.mappingEnd]) b :=
    Reads.bounded_entries fun n hn => reads_fieldsFrom h hn
  rw [Json.Document.nodes, Json.Document.entryNodes_eq]
  refine Reads.node (by simp) fun n hn => ?_
  rw [hn]
  exact hfields

section tagged

variable {τ : Type} {variants : List (String × τ)} {name key : String} {t : τ}

theorem reads_variant (h : variants.lookup name = some t) (style : Style) :
    Reads (variant variants) [.scalar none style name] t := by
  refine Reads.node (by simp) fun n hn => ?_
  have hv : Data.Decode.variant variants (.text name) = .ok t := by simp [Data.Decode.variant, h]
  rw [hn]
  simp only [hv]
  exact Reads.pure t

/-- After the tag the other entries are kept whole. -/
theorem reads_keptEntries {levels : Nat} {es : List (String × Json.Document)}
    (hkey : ∀ e ∈ es, e.1 ≠ key) (hes : ∀ e ∈ es, e.2.Common ∧ e.2.tree.Within levels) {n : Nat}
    (hn : es.length < n) :
    Reads (taggedEntriesFrom key variants levels (some t) n)
      (es.flatMap Json.Document.entryNode ++ [.mappingEnd]) (t, Json.Document.entryValues es) := by
  obtain ⟨n, rfl⟩ : ∃ k, n = k + 1 := ⟨n - 1, by omega⟩
  induction es generalizing n with
  | nil =>
    rw [taggedEntriesFrom]
    refine Reads.peek fun k hk => ?_
    rw [hk]
    exact (Reads.drop _).map fun _ => (t, [])
  | cons e es ih =>
    rw [List.length_cons] at hn
    obtain ⟨n, rfl⟩ : ∃ k, n = k + 1 := ⟨n - 1, by omega⟩
    obtain ⟨hne, hkeys⟩ := List.forall_mem_cons.mp hkey
    obtain ⟨⟨hc, hw⟩, hrest⟩ := List.forall_mem_cons.mp hes
    rw [List.flatMap_cons, List.append_assoc, taggedEntriesFrom]
    refine Reads.peek fun k hk => ?_
    rw [hk]
    refine (Read.reads_quoted e.1 _ levels).bind ?_
    simp only [hne, if_false, taggedEntriesFrom.keep]
    refine ((Read.reads_value hc "any value" hw).under (Read.segment k)).bind ?_
    exact (ih hkeys hrest n (by omega)).map fun p => (p.1, (.text e.1, e.2.value) :: p.2)

theorem reads_tagged (hname : variants.lookup name = some t) {levels : Nat}
    {es : List (String × Json.Document)} (hkey : ∀ e ∈ es, e.1 ≠ key)
    (hes : ∀ e ∈ es, e.2.Common ∧ e.2.tree.Within levels) (expected : String) :
    Reads (tagged expected key variants (levels + 1))
      (Json.Document.object ((key, .text name) :: es)).nodes
      (t, .map (Json.Document.entryValues es)) := by
  have hentries : Reads (Read.bounded (taggedEntriesFrom key variants levels none))
      (((key, .text name) :: es).flatMap Json.Document.entryNode ++ [.mappingEnd])
      (t, Json.Document.entryValues es) := by
    refine Reads.bounded_entries fun n hn => ?_
    rw [List.length_cons] at hn
    obtain ⟨n, rfl⟩ : ∃ k, n = k + 1 := ⟨n - 1, by omega⟩
    rw [List.flatMap_cons, List.append_assoc, taggedEntriesFrom]
    refine Reads.peek fun k hk => ?_
    rw [hk]
    refine (Read.reads_quoted key _ levels).bind ?_
    simp only [if_true]
    refine ((reads_variant hname .doubleQuoted).under (Read.segment k)).bind ?_
    exact reads_keptEntries hkey hes (by omega)
  rw [Json.Document.nodes, Json.Document.entryNodes_eq]
  refine Reads.node (by simp) fun n hn => ?_
  rw [hn]
  exact hentries.map fun p => (p.1, Data.Value.map p.2)

end tagged

end Reader

/-- The whole text of an object is read as its nodes are. -/
theorem read_toText {α : Type} {r : Reader α} {es : List (String × Json.Document)} {a : α}
    (hc : (Json.Document.object es).Common)
    (h : Read.Reads (r levels) (Json.Document.object es).nodes a) :
    read r (Json.Document.object es).toText = .ok a := by
  obtain ⟨ns, hns, hkinds⟩ := Document.ofText_toText hc
  have hread := h ⟨⟨ns, [], true⟩, .root⟩ ns [] 0 hkinds
  rw [List.append_nil] at hread
  unfold read
  rw [hns]
  simp only [hread, if_true]

end InitializerLint.Yaml
