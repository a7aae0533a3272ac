import InitializerLint.Proofs.Json.Render
import InitializerLint.Proofs.Yaml.Node
import InitializerLint.Proofs.Yaml.Scalar
import InitializerLint.Yaml.Reader

/-! Reading the nodes of a compact text: what is read does not depend on what follows. -/
namespace InitializerLint

namespace Json.Document

mutual

/-- The data of a document that is kept whole. -/
def value : Document → Data.Value
  | .null => .unit
  | .bool b => .bool b
  | .number n => .unsigned (.ofNat n)
  | .text s => .text s
  | .list ds => .list (itemValues ds)
  | .object es => .map (entryValues es)

def itemValues : List Document → List Data.Value
  | [] => []
  | d :: ds => d.value :: itemValues ds

def entryValues : List (String × Document) → List (Data.Value × Data.Value)
  | [] => []
  | (k, d) :: es => (.text k, d.value) :: entryValues es

end

theorem itemValues_eq (ds : List Document) : itemValues ds = ds.map value := by
  induction ds with
  | nil => rfl
  | cons d ds ih => rw [itemValues, ih, List.map_cons]

theorem entryValues_eq (es : List (String × Document)) :
    entryValues es = es.map fun e => (.text e.1, e.2.value) := by
  induction es with
  | nil => rfl
  | cons e es ih => rw [entryValues, ih, List.map_cons]

/-- The first node of a value is not the end of a collection. -/
theorem exists_nodes (d : Document) :
    ∃ k ks, d.nodes = k :: ks ∧ k ≠ .sequenceEnd ∧ k ≠ .mappingEnd := by
  cases d with
  | bool b => cases b <;> exact ⟨_, _, rfl, by simp, by simp⟩
  | _ => exact ⟨_, _, rfl, by simp, by simp⟩

theorem nodes_ne_nil (d : Document) : d.nodes ≠ [] := by
  obtain ⟨k, ks, hks, -⟩ := d.exists_nodes
  simp [hks]

end Json.Document

namespace Yaml.Read

variable {α β : Type}

/-- On nodes of these kinds, whatever follows, the reader answers `a` and leaves what follows. -/
def Reads (x : Read α) (kinds : List Node.Kind) (a : α) : Prop :=
  ∀ c ns rest jumps, ns.map (·.kind) = kinds → x c ⟨ns ++ rest, jumps⟩ = .ok (a, ⟨rest, jumps⟩)

namespace Reads

variable {x : Read α} {f : α → Read β} {kinds kinds' : List Node.Kind} {k : Node.Kind} {a : α} {b : β}

theorem pure (a : α) : Reads (Pure.pure a) [] a := by
  intro c ns rest jumps hns
  obtain rfl := List.map_eq_nil_iff.mp hns
  rfl

theorem bind (h : Reads x kinds a) (hf : Reads (f a) kinds' b) : Reads (x >>= f) (kinds ++ kinds') b := by
  intro c ns rest jumps hns
  obtain ⟨ms, ls, rfl, hms, hls⟩ := List.map_eq_append_iff.mp hns
  rw [List.append_assoc]
  change Except.bind (x c ⟨ms ++ (ls ++ rest), jumps⟩) (fun p => f p.1 c p.2) = _
  rw [h c ms _ jumps hms]
  exact hf c ls rest jumps hls

theorem map (g : α → β) (h : Reads x kinds a) : Reads (do return g (← x)) kinds (g a) := by
  have hg := h.bind (f := fun a => Pure.pure (g a)) (Reads.pure (g a))
  rwa [List.append_nil] at hg

theorem under (segment : Path → Path) (h : Reads x kinds a) : Reads (Read.under segment x) kinds a :=
  fun c ns rest jumps hns => h { c with path := segment c.path } ns rest jumps hns

theorem placed (m : Mark) (h : Reads x kinds a) : Reads (Read.placed m x) kinds a := by
  intro c ns rest jumps hns
  unfold Read.placed
  rw [h c ns rest jumps hns]

theorem drop (k : Node.Kind) : Reads Read.drop [k] () := by
  intro c ns rest jumps hns
  obtain ⟨n, ms, rfl, -, hms⟩ := List.map_eq_cons_iff.mp hns
  obtain rfl := List.map_eq_nil_iff.mp hms
  rfl

/-- A look at the next node takes nothing. -/
theorem peek {f : Node → Read β} (h : ∀ n, n.kind = k → Reads (f n) (k :: kinds) b) :
    Reads (Read.peek >>= f) (k :: kinds) b := by
  intro c ns rest jumps hns
  obtain ⟨n, ms, rfl, hn, hms⟩ := List.map_eq_cons_iff.mp hns
  exact h n hn c (n :: ms) rest jumps hns

/-- No node of a compact text is an alias. -/
theorem node {f : Node → Read β} (hk : ∀ id, k ≠ .alias id)
    (h : ∀ n, n.kind = k → Reads (f n) kinds b) : Reads (Read.node f) (k :: kinds) b := by
  intro c ns rest jumps hns
  obtain ⟨n, ms, rfl, hn, hms⟩ := List.map_eq_cons_iff.mp hns
  have hplaced := (h n hn).placed n.mark c ms rest jumps hms
  obtain ⟨kind, m⟩ := n
  obtain rfl : kind = k := hn
  match kind, hk with
  | .alias id, hk => exact absurd rfl (hk id)
  | .void, _ => exact hplaced
  | .scalar .., _ => exact hplaced
  | .sequenceStart _, _ => exact hplaced
  | .sequenceEnd, _ => exact hplaced
  | .mappingStart _, _ => exact hplaced
  | .mappingEnd, _ => exact hplaced

theorem bounded {loop : Nat → Read α} (h : ∀ n, kinds.length ≤ n → Reads (loop n) kinds a) :
    Reads (Read.bounded loop) kinds a := by
  intro c ns rest jumps hns
  refine h _ ?_ c ns rest jumps hns
  rw [← hns, List.length_map, List.length_append]
  exact Nat.le_add_right ..

/-- There are rounds for all entries and one more. -/
theorem bounded_entries {loop : Nat → Read α} {es : List (String × Json.Document)}
    (h : ∀ n, es.length < n → Reads (loop n) (es.flatMap Json.Document.entryNode ++ [.mappingEnd]) a) :
    Reads (Read.bounded loop) (es.flatMap Json.Document.entryNode ++ [.mappingEnd]) a := by
  refine bounded fun n hn => h n ?_
  have hlen := length_le_flatMap (f := Json.Document.entryNode) (fun _ => List.cons_ne_nil _ _) es
  rw [List.length_append, List.length_singleton] at hn
  omega

end Reads

section collections

variable {γ : Type} {cs : List γ}

section items

variable {item : Read α} {f : γ → Json.Document} {g : γ → α}

/-- The items of a list, each read from the nodes of its document. -/
theorem reads_itemsFrom (h : ∀ c ∈ cs, Reads item (f c).nodes (g c)) (i : Nat) {n : Nat}
    (hn : cs.length < n) :
    Reads (itemsFrom item i n) ((cs.map f).flatMap Json.Document.nodes ++ [.sequenceEnd])
      (cs.map g) := by
  obtain ⟨n, rfl⟩ : ∃ k, n = k + 1 := ⟨n - 1, by omega⟩
  induction cs generalizing i n with
  | nil =>
    refine Reads.peek fun k hk => ?_
    rw [hk]
    exact (Reads.drop _).map fun _ => []
  | cons c cs ih =>
    rw [List.length_cons] at hn
    obtain ⟨n, rfl⟩ : ∃ k, n = k + 1 := ⟨n - 1, by omega⟩
    obtain ⟨hc, hcs⟩ := List.forall_mem_cons.mp h
    obtain ⟨k, ks, hks, hend, -⟩ := (f c).exists_nodes
    have hrest := (hc.under (.item · i)).bind (f := fun a => do
      return a :: (← itemsFrom item (i + 1) (n + 1))) ((ih hcs (i + 1) n (by omega)).map (g c :: ·))
    rw [List.map_cons, List.flatMap_cons, List.append_assoc]
    rw [hks] at hrest ⊢
    refine Reads.peek fun n' hn' => ?_
    rw [hn']
    cases k with
    | sequenceEnd => exact absurd rfl hend
    | _ => exact hrest

theorem reads_items (h : ∀ c ∈ cs, Reads item (f c).nodes (g c)) :
    Reads (items item) ((cs.map f).flatMap Json.Document.nodes ++ [.sequenceEnd]) (cs.map g) := by
  refine Reads.bounded fun n hn => reads_itemsFrom h 0 ?_
  have hlen := length_le_flatMap Json.Document.nodes_ne_nil (cs.map f)
  rw [List.length_append, List.length_singleton] at hn
  rw [List.length_map] at hlen
  omega

end items

section entries

variable {κ : Type} {key : Read κ} {item : Read α} {f : γ → String × Json.Document} {g : γ → κ × α}

theorem reads_entriesFrom (hkey : ∀ c ∈ cs, Reads key [.scalar none .doubleQuoted (f c).1] (g c).1)
    (h : ∀ c ∈ cs, Reads item (f c).2.nodes (g c).2) {n : Nat} (hn : cs.length < n) :
    Reads (entriesFrom key item n) ((cs.map f).flatMap Json.Document.entryNode ++ [.mappingEnd])
      (cs.map g) := by
  obtain ⟨n, rfl⟩ : ∃ k, n = k + 1 := ⟨n - 1, by omega⟩
  induction cs generalizing n with
  | nil =>
    refine Reads.peek fun k hk => ?_
    rw [hk]
    exact (Reads.drop _).map fun _ => []
  | cons c cs ih =>
    rw [List.length_cons] at hn
    obtain ⟨n, rfl⟩ : ∃ k, n = k + 1 := ⟨n - 1, by omega⟩
    obtain ⟨hk, hkeys⟩ := List.forall_mem_cons.mp hkey
    obtain ⟨hc, hcs⟩ := List.forall_mem_cons.mp h
    rw [List.map_cons, List.flatMap_cons, List.append_assoc]
    refine Reads.peek fun k hk' => ?_
    rw [hk']
    have hrest := (ih hkeys hcs n (by omega)).map (g c :: ·)
    exact hk.bind ((hc.under (segment k)).bind hrest)

/-- The entries of a map, repeated keys included. -/
theorem reads_entries (hkey : ∀ c ∈ cs, Reads key [.scalar none .doubleQuoted (f c).1] (g c).1)
    (h : ∀ c ∈ cs, Reads item (f c).2.nodes (g c).2) :
    Reads (entries key item) ((cs.map f).flatMap Json.Document.entryNode ++ [.mappingEnd])
      (cs.map g) := by
  refine Reads.bounded_entries fun n hn => reads_entriesFrom hkey h ?_
  rwa [List.length_map] at hn

end entries

end collections

section value

/-- A scalar that is kept whole. -/
theorem reads_scalar {style : Style} {s : String} {v : Data.Value}
    (h : Scalar.meaning none style s = .ok (.value v)) (expected : String) (levels : Nat) :
    Reads (valueAs expected levels) [.scalar none style s] v := by
  have hkept : Reads (keptScalar expected none style s) [] v := by
    unfold keptScalar
    rw [h]
    exact Reads.pure v
  cases levels with
  | zero => exact Reads.node (by simp) fun n hn => by rw [hn]; exact hkept
  | succ levels => exact Reads.node (by simp) fun n hn => by rw [hn]; exact hkept

theorem reads_quoted (s expected : String) (levels : Nat) :
    Reads (valueAs expected levels) [.scalar none .doubleQuoted s] (.text s) :=
  reads_scalar rfl expected levels

theorem reads_value {d : Json.Document} (h : d.Common) (expected : String) {levels : Nat}
    (hw : d.tree.Within levels) : Reads (valueAs expected levels) d.nodes d.value := by
  induction h generalizing expected levels with
  | null => exact reads_scalar rfl expected levels
  | bool b => cases b <;> exact reads_scalar rfl expected levels
  | number hn =>
    refine reads_scalar ?_ expected levels
    rw [Json.Document.value, ← Scalar.plain_toDigits hn]
    rfl
  | @text s _ => exact reads_quoted s expected levels
  | @list ds _ ih =>
    rw [Json.Document.tree, Json.Document.itemTrees_eq] at hw
    rw [Json.Document.nodes, Json.Document.value, Json.Document.itemNodes_eq, Json.Document.itemValues_eq]
    cases levels with
    | zero => exact hw.elim
    | succ levels =>
      have hitems := reads_items (f := id) (g := Json.Document.value) fun d hd =>
        ih d hd "any value" (hw d.tree (List.mem_map_of_mem hd))
      rw [List.map_id] at hitems
      refine Reads.node (by simp) fun n hn => ?_
      rw [hn]
      exact hitems.map Data.Value.list
  | @object es _ _ ih =>
    rw [Json.Document.tree, Json.Document.entryTrees_eq] at hw
    rw [Json.Document.nodes, Json.Document.value, Json.Document.entryNodes_eq, Json.Document.entryValues_eq]
    cases levels with
    | zero => exact hw.elim
    | succ levels =>
      have hentries := reads_entries (f := id) (g := fun e => (Data.Value.text e.1, e.2.value))
        (fun e _ => reads_quoted e.1 "any value" levels) fun e he =>
        ih e he "any value" (List.forall_mem_map.mp hw e he)
      rw [List.map_id] at hentries
      refine Reads.node (by simp) fun n hn => ?_
      rw [hn]
      exact hentries.map Data.Value.map

end value

end Yaml.Read
end InitializerLint
