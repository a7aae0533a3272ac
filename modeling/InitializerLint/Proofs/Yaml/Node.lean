import InitializerLint.Proofs.Yaml.Line
import InitializerLint.Yaml.Document
import Mathlib.Data.List.Forall2

/-! The nodes of a compact text: no anchors, no aliases and no tags. -/
namespace InitializerLint

namespace Json.Document

open Yaml (Node)

mutual

def nodes : Document → List Node.Kind
  | .null => [.scalar none .plain "null"]
  | .bool true => [.scalar none .plain "true"]
  | .bool false => [.scalar none .plain "false"]
  | .number n => [.scalar none .plain (String.ofList (Nat.toDigits 10 n))]
  | .text s => [.scalar none .doubleQuoted s]
  | .list ds => .sequenceStart none :: itemNodes ds ++ [.sequenceEnd]
  | .object es => .mappingStart none :: entryNodes es ++ [.mappingEnd]

def itemNodes : List Document → List Node.Kind
  | [] => []
  | d :: ds => d.nodes ++ itemNodes ds

def entryNodes : List (String × Document) → List Node.Kind
  | [] => []
  | (k, d) :: es => .scalar none .doubleQuoted k :: d.nodes ++ entryNodes es

end

def entryNode (e : String × Document) : List Node.Kind :=
  .scalar none .doubleQuoted e.1 :: e.2.nodes

theorem itemNodes_eq (ds : List Document) : itemNodes ds = ds.flatMap nodes := by
  induction ds with
  | nil => rfl
  | cons d ds ih => rw [itemNodes, ih, List.flatMap_cons]

theorem entryNodes_eq (es : List (String × Document)) : entryNodes es = es.flatMap entryNode := by
  induction es with
  | nil => rfl
  | cons e es ih => rw [entryNodes, ih, List.flatMap_cons, entryNode]

end Json.Document

namespace Yaml

/-- An event without properties and the node it becomes. -/
inductive Event.Kind.Gives : Event.Kind → Node.Kind → Prop
  | scalar (style : Style) (text : List Char) :
      Gives (.scalar {} style text) (.scalar none style (String.ofList text))
  | sequenceStart : Gives (.sequenceStart {}) (.sequenceStart none)
  | sequenceEnd : Gives .sequenceEnd .sequenceEnd
  | mappingStart : Gives (.mappingStart {}) (.mappingStart none)
  | mappingEnd : Gives .mappingEnd .mappingEnd

namespace Goal

variable {handles : Handles}

/-- The goals are met by tokens of these kinds, whatever follows, with one event for each node. -/
structure Parses (handles : Handles) (goals : List Goal) (kinds : List Token.Kind)
    (nodes : List Node.Kind) : Prop where
  length : nodes.length ≤ kinds.length
  meets : ∀ ts gs rest, ts.map (·.kind) = kinds →
    ∃ es : List Event, List.Forall₂ (fun e k => e.kind.Gives k) es nodes ∧ ∀ n,
      meetAll handles (goals ++ gs) (ts ++ rest) (es.length + n) =
        (es ++ (meetAll handles gs rest n).1, (meetAll handles gs rest n).2)

namespace Parses

variable {goals goals' : List Goal} {kinds kinds' : List Token.Kind} {nodes nodes' : List Node.Kind}

theorem nil : Parses handles [] [] [] where
  length := Nat.le_refl 0
  meets := by
    intro ts gs rest hts
    rw [List.map_eq_nil_iff] at hts
    subst hts
    exact ⟨[], .nil, fun n => by simp⟩

theorem append (h : Parses handles goals kinds nodes) (h' : Parses handles goals' kinds' nodes') :
    Parses handles (goals ++ goals') (kinds ++ kinds') (nodes ++ nodes') where
  length := by
    rw [List.length_append, List.length_append]
    exact Nat.add_le_add h.length h'.length
  meets := by
    intro ts gs rest hts
    obtain ⟨us, vs, rfl, hus, hvs⟩ := List.map_eq_append_iff.mp hts
    obtain ⟨es, hes, hmeet⟩ := h.meets us (goals' ++ gs) (vs ++ rest) hus
    obtain ⟨es', hes', hmeet'⟩ := h'.meets vs gs rest hvs
    refine ⟨es ++ es', List.rel_append hes hes', fun n => ?_⟩
    rw [List.length_append, Nat.add_assoc, List.append_assoc, List.append_assoc, hmeet, hmeet',
      List.append_assoc]

/-- One goal is met by some tokens, and then what follows from it. -/
theorem step {g : Goal} {k : Node.Kind} (lead : List Token.Kind) (hlead : lead ≠ [])
    (h : ∀ ls ts, ls.map (·.kind) = lead →
      ∃ e, meet handles g (ls ++ ts) = some (e, goals, ts) ∧ e.kind.Gives k)
    (hrest : Parses handles goals kinds nodes) :
    Parses handles [g] (lead ++ kinds) (k :: nodes) where
  length := by
    have hpos := List.length_pos_iff.mpr hlead
    have hle := hrest.length
    rw [List.length_append, List.length_cons]
    omega
  meets := by
    intro ts gs rest hts
    obtain ⟨ls, us, rfl, hls, hus⟩ := List.map_eq_append_iff.mp hts
    obtain ⟨e, he, hgives⟩ := h ls (us ++ rest) hls
    obtain ⟨es, hes, hmeet⟩ := hrest.meets us gs rest hus
    refine ⟨e :: es, .cons hgives hes, fun n => ?_⟩
    have hsucc : (e :: es).length + n = (es.length + n) + 1 := by
      rw [List.length_cons]
      omega
    rw [hsucc, List.append_assoc, List.cons_append, List.nil_append, meetAll, he]
    simp only [hmeet, List.cons_append]

/-- A comma leads back to where the collection started. -/
theorem comma {g g' : Goal} (hg : ∀ m m' ts, meet handles g' (⟨.flowEntry, m, m'⟩ :: ts) = meet handles g ts)
    (h : Parses handles [g] kinds nodes) : Parses handles [g'] (.flowEntry :: kinds) nodes where
  length := Nat.le_succ_of_le h.length
  meets := by
    intro ts gs rest hts
    obtain ⟨⟨kind, m, m'⟩, us, rfl, ht, hus⟩ := List.map_eq_cons_iff.mp hts
    obtain rfl : kind = .flowEntry := ht
    obtain ⟨es, hes, hmeet⟩ := h.meets us gs rest hus
    refine ⟨es, hes, fun n => ?_⟩
    rw [← hmeet n]
    cases es.length + n with
    | zero => rfl
    | succ k => simp only [List.cons_append, List.nil_append, meetAll, hg]

end Parses

/-- The first token of a node, the node it announces and the goals that follow from it. -/
inductive Opens : Token.Kind → Node.Kind → List Goal → Prop
  | scalar (style : Style) (text : List Char) :
      Opens (.scalar style text) (.scalar none style (String.ofList text)) []
  | sequence : Opens .flowSequenceStart (.sequenceStart none) [.flowSequence true]
  | mapping : Opens .flowMappingStart (.mappingStart none) [.flowMappingKey true]

/-- Tokens of a whole node. -/
inductive IsNode (handles : Handles) : List Token.Kind → List Node.Kind → Prop
  | mk {t : Token.Kind} {k : Node.Kind} {goals : List Goal} {kinds : List Token.Kind}
      {nodes : List Node.Kind} : Opens t k goals → Parses handles goals kinds nodes →
      IsNode handles (t :: kinds) (k :: nodes)

section opens

variable {t : Token.Kind} {k : Node.Kind} {goals : List Goal}

theorem Opens.blockNode (h : Opens t k goals) (m m' : Mark) (ts : List Token) :
    ∃ e, meet handles (.blockNode false) (⟨t, m, m'⟩ :: ts) = some (e, goals, ts) ∧ e.kind.Gives k := by
  cases h with
  | scalar => exact ⟨_, rfl, .scalar ..⟩
  | sequence => exact ⟨_, rfl, .sequenceStart⟩
  | mapping => exact ⟨_, rfl, .mappingStart⟩

theorem Opens.item (h : Opens t k goals) (m m' : Mark) (ts : List Token) :
    ∃ e, meet handles (.flowSequence true) (⟨t, m, m'⟩ :: ts) =
      some (e, goals ++ [.flowSequence false], ts) ∧ e.kind.Gives k := by
  cases h with
  | scalar => exact ⟨_, rfl, .scalar ..⟩
  | sequence => exact ⟨_, rfl, .sequenceStart⟩
  | mapping => exact ⟨_, rfl, .mappingStart⟩

theorem Opens.value (h : Opens t k goals) (n n' m m' : Mark) (ts : List Token) :
    ∃ e, meet handles .flowMappingValue (⟨.value, n, n'⟩ :: ⟨t, m, m'⟩ :: ts) =
      some (e, goals ++ [.flowMappingKey false], ts) ∧ e.kind.Gives k := by
  cases h with
  | scalar => exact ⟨_, rfl, .scalar ..⟩
  | sequence => exact ⟨_, rfl, .sequenceStart⟩
  | mapping => exact ⟨_, rfl, .mappingStart⟩

end opens

section collections

variable {g : Goal} {t u : Token.Kind} {k : Node.Kind} {goals : List Goal} {kinds kinds' : List Token.Kind}
  {nodes nodes' : List Node.Kind}

/-- One token is met first. -/
private theorem Parses.first (h : ∀ m m' ts, ∃ e, meet handles g (⟨t, m, m'⟩ :: ts) =
    some (e, goals, ts) ∧ e.kind.Gives k) (hrest : Parses handles goals kinds nodes) :
    Parses handles [g] (t :: kinds) (k :: nodes) := by
  refine Parses.step [t] (by simp) (fun ls ts hls => ?_) hrest
  obtain ⟨⟨kind, m, m'⟩, us, rfl, ht, hus⟩ := List.map_eq_cons_iff.mp hls
  obtain rfl : kind = t := ht
  obtain rfl := List.map_eq_nil_iff.mp hus
  exact h m m' ts

/-- Two tokens are met with one event. -/
private theorem Parses.firstTwo (h : ∀ n n' m m' ts, ∃ e,
    meet handles g (⟨u, n, n'⟩ :: ⟨t, m, m'⟩ :: ts) = some (e, goals, ts) ∧ e.kind.Gives k)
    (hrest : Parses handles goals kinds nodes) : Parses handles [g] (u :: t :: kinds) (k :: nodes) := by
  refine Parses.step [u, t] (by simp) (fun ls ts hls => ?_) hrest
  obtain ⟨⟨kind, n, n'⟩, us, rfl, hu, hus⟩ := List.map_eq_cons_iff.mp hls
  obtain rfl : kind = u := hu
  obtain ⟨⟨kind', m, m'⟩, vs, rfl, ht, hvs⟩ := List.map_eq_cons_iff.mp hus
  obtain rfl : kind' = t := ht
  obtain rfl := List.map_eq_nil_iff.mp hvs
  exact h n n' m m' ts

theorem IsNode.parses_block (h : IsNode handles kinds nodes) :
    Parses handles [.blockNode false] kinds nodes := by
  cases h with
  | mk hopens hrest => exact Parses.first hopens.blockNode hrest

theorem IsNode.parses_item (h : IsNode handles kinds nodes)
    (h' : Parses handles [.flowSequence false] kinds' nodes') :
    Parses handles [.flowSequence true] (kinds ++ kinds') (nodes ++ nodes') := by
  cases h with
  | mk hopens hrest => exact Parses.first hopens.item (hrest.append h')

theorem IsNode.parses_entry (key : List Char) (h : IsNode handles kinds nodes)
    (h' : Parses handles [.flowMappingKey false] kinds' nodes') :
    Parses handles [.flowMappingKey true]
      (.key :: .scalar .doubleQuoted key :: .value :: (kinds ++ kinds'))
      (.scalar none .doubleQuoted (String.ofList key) :: (nodes ++ nodes')) := by
  cases h with
  | mk hopens hrest =>
    refine Parses.firstTwo (fun n n' m m' ts => ?_)
      (Parses.firstTwo hopens.value (hrest.append h'))
    exact ⟨_, rfl, .scalar ..⟩

theorem parses_sequenceEnd (b : Bool) :
    Parses handles [.flowSequence b] [.flowSequenceEnd] [.sequenceEnd] := by
  refine Parses.first (fun m m' ts => ⟨⟨.sequenceEnd, m⟩, ?_, .sequenceEnd⟩) Parses.nil
  cases b <;> rfl

theorem parses_mappingEnd (b : Bool) :
    Parses handles [.flowMappingKey b] [.flowMappingEnd] [.mappingEnd] := by
  refine Parses.first (fun m m' ts => ⟨⟨.mappingEnd, m⟩, ?_, .mappingEnd⟩) Parses.nil
  cases b <;> rfl

theorem parses_items (parts : List (List Token.Kind × List Node.Kind))
    (h : ∀ p ∈ parts, IsNode handles p.1 p.2) :
    Parses handles [.flowSequence true]
      ([.flowEntry].intercalate (parts.map (·.1)) ++ [.flowSequenceEnd])
      (parts.flatMap (·.2) ++ [.sequenceEnd]) := by
  induction parts with
  | nil => exact parses_sequenceEnd true
  | cons p parts ih =>
    obtain ⟨hp, hparts⟩ := List.forall_mem_cons.mp h
    rw [List.flatMap_cons, List.append_assoc]
    cases parts with
    | nil =>
      rw [List.map_cons, List.map_nil, List.intercalate_singleton]
      exact hp.parses_item (parses_sequenceEnd false)
    | cons p' parts =>
      rw [List.map_cons, List.map_cons, List.intercalate_cons_cons, List.append_assoc, List.append_assoc]
      exact hp.parses_item (Parses.comma (fun _ _ _ => rfl) (ih hparts))

theorem parses_entries (parts : List (String × List Token.Kind × List Node.Kind))
    (h : ∀ p ∈ parts, IsNode handles p.2.1 p.2.2) :
    Parses handles [.flowMappingKey true]
      ([.flowEntry].intercalate
        (parts.map fun p => [.key, .scalar .doubleQuoted p.1.toList, .value] ++ p.2.1) ++ [.flowMappingEnd])
      (parts.flatMap (fun p => .scalar none .doubleQuoted p.1 :: p.2.2) ++ [.mappingEnd]) := by
  induction parts with
  | nil => exact parses_mappingEnd true
  | cons p parts ih =>
    obtain ⟨hp, hparts⟩ := List.forall_mem_cons.mp h
    have hkey : String.ofList p.1.toList = p.1 := String.ofList_toList
    rw [List.flatMap_cons, List.append_assoc]
    cases parts with
    | nil =>
      have hentry := hp.parses_entry p.1.toList (parses_mappingEnd false)
      rw [hkey] at hentry
      simpa using hentry
    | cons p' parts =>
      have hentry := hp.parses_entry p.1.toList
        (Parses.comma (fun _ _ _ => rfl) (ih hparts))
      rw [hkey] at hentry
      rw [List.map_cons, List.map_cons, List.intercalate_cons_cons]
      simpa only [List.map_cons, List.append_assoc, List.cons_append, List.nil_append] using hentry

theorem isNode_tokens {d : Json.Document} (h : d.Common) : IsNode handles d.tokens d.nodes := by
  induction h with
  | null => exact .mk (.scalar ..) Parses.nil
  | bool b => cases b <;> exact .mk (.scalar ..) Parses.nil
  | number => exact .mk (.scalar ..) Parses.nil
  | @text s _ =>
    have hs : String.ofList s.toList = s := String.ofList_toList
    have hnode : IsNode handles [.scalar .doubleQuoted s.toList]
        [.scalar none .doubleQuoted (String.ofList s.toList)] := .mk (.scalar ..) Parses.nil
    rwa [hs] at hnode
  | @list ds _ ih =>
    have hparts := parses_items (ds.map fun d => (d.tokens, d.nodes)) (List.forall_mem_map.mpr ih)
    rw [List.map_map, List.flatMap_map] at hparts
    rw [Json.Document.tokens, Json.Document.nodes, Json.Document.itemTokens_eq, Json.Document.itemNodes_eq]
    exact .mk .sequence hparts
  | @object es _ _ ih =>
    have hparts := parses_entries (es.map fun e => (e.1, e.2.tokens, e.2.nodes))
      (List.forall_mem_map.mpr ih)
    rw [List.map_map, List.flatMap_map] at hparts
    rw [Json.Document.tokens, Json.Document.nodes, Json.Document.entryTokens_eq, Json.Document.entryNodes_eq]
    exact .mk .mapping hparts

end collections

end Goal

namespace Document

theorem bindFrom_eq {events : List Event} {kinds : List Node.Kind}
    (h : List.Forall₂ (fun e k => e.kind.Gives k) events kinds) (b : Binding) (position : Nat) :
    ∃ ns, bindFrom b position events = (ns, b, true) ∧ ns.map (·.kind) = kinds := by
  induction h generalizing position with
  | nil => exact ⟨[], rfl, rfl⟩
  | @cons e k events kinds hgives _ ih =>
    obtain ⟨ns, hns, hkinds⟩ := ih (position + 1)
    refine ⟨⟨k, e.mark⟩ :: ns, ?_, by rw [List.map_cons, hkinds]⟩
    obtain ⟨kind, m⟩ := e
    cases hgives <;> simp [bindFrom, Binding.add, hns]

theorem ofContent_eq {handles : Handles} {ts : List Token} {t : Token} {kinds : List Token.Kind}
    {nodes : List Node.Kind} (h : Goal.Parses handles [.blockNode false] kinds nodes)
    (hts : ts.map (·.kind) = kinds) (ht : t.kind = .streamEnd) :
    ∃ ns, ofContent handles (ts ++ [t]) = ⟨ns, [], true⟩ ∧ ns.map (·.kind) = nodes := by
  obtain ⟨es, hes, hmeet⟩ := h.meets ts [] [t] hts
  obtain ⟨ns, hns, hkinds⟩ := bindFrom_eq hes {} 0
  have hlen : es.length ≤ ts.length := by
    have hle := h.length
    rwa [← hes.length_eq, ← hts, List.length_map] at hle
  have hrounds : 4 * (ts ++ [t]).length + 8 = es.length + (4 * (ts ++ [t]).length + 7 - es.length + 1) := by
    rw [List.length_append, List.length_singleton]
    omega
  have hmeet := hmeet (4 * (ts ++ [t]).length + 7 - es.length + 1)
  rw [← hrounds, Goal.meetAll, List.append_nil] at hmeet
  have hends : endsStream [t] = true := by
    simp [endsStream, isDocumentEnd, ht]
  refine ⟨ns, ?_, hkinds⟩
  unfold ofContent ofEvents
  simp only [List.append_nil] at hmeet
  simp only [hmeet, hns, Option.any_some, hends, Bool.and_self]

/-- The nodes of the text of an object. -/
theorem ofText_toText {es : List (String × Json.Document)} (h : (Json.Document.object es).Common) :
    ∃ ns, ofText (Json.Document.object es).toText = ⟨ns, [], true⟩ ∧
      ns.map (·.kind) = (Json.Document.object es).nodes := by
  obtain ⟨ts, hts, hkinds⟩ := TokenList.ofText_toText h
  rw [List.cons_append] at hkinds
  obtain ⟨start, us, rfl, -, hus⟩ := List.map_eq_cons_iff.mp hkinds
  obtain ⟨vs, ends, rfl, hvs, hends⟩ := List.map_eq_append_iff.mp hus
  obtain ⟨stop, none, rfl, hstop, hnone⟩ := List.map_eq_cons_iff.mp hends
  obtain rfl := List.map_eq_nil_iff.mp hnone
  obtain ⟨v, vs, rfl, hv, -⟩ := List.map_eq_cons_iff.mp hvs
  have hnode : Goal.IsNode defaultHandles (Json.Document.object es).tokens
      (Json.Document.object es).nodes := Goal.isNode_tokens h
  obtain ⟨ns, hns, hnodes⟩ := ofContent_eq hnode.parses_block hvs hstop
  refine ⟨ns, ?_, hnodes⟩
  rw [← hns]
  unfold ofText ofTokens
  rw [hts]
  obtain ⟨kind, m, m'⟩ := v
  obtain rfl : kind = .flowMappingStart := hv
  rfl

end Document
end Yaml
end InitializerLint
