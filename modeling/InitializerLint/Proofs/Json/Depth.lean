import InitializerLint.Proofs.Json.Render
import InitializerLint.Proofs.Json.RecordReader

/-! The limit on brackets inside each other counts where values are kept before they are decoded. A
value beyond the limit is an error there, whatever it stands for. -/
namespace InitializerLint.Json

instance Tree.decidableWithin : (n : Nat) → (d : Tree) → Decidable (d.Within n)
  | 0, .list _ => .isFalse id
  | 0, .object _ => .isFalse id
  | n + 1, .list ds =>
    have := decidableWithin n
    inferInstanceAs (Decidable (∀ d ∈ ds, Within n d))
  | n + 1, .object es =>
    have := decidableWithin n
    inferInstanceAs (Decidable (∀ e ∈ es, Within n e.2))
  | n, .null => .isTrue (within_of_isScalar rfl n)
  | n, .bool _ => .isTrue (within_of_isScalar rfl n)
  | n, .number _ _ => .isTrue (within_of_isScalar rfl n)
  | n, .text _ => .isTrue (within_of_isScalar rfl n)

/-- What a reader finds that opens at most `n` brackets. -/
def TreeReader.within {α : Type} (n : Nat) (φ : TreeReader α) : TreeReader α := fun d =>
  if d.Within n then φ d else none

namespace TreeReader

variable {α β : Type} {n : Nat} {φ : TreeReader α} {d : Tree}

theorem within_eq_some {a : α} : within n φ d = some a ↔ d.Within n ∧ φ d = some a :=
  Option.ite_none_right_eq_some

theorem within_of_within (h : d.Within n) : within n φ d = φ d := if_pos h

theorem within_of_not_within (h : ¬d.Within n) : within n φ d = none := if_neg h

theorem within_bind (f : α → TreeReader β) : (within n φ >>= f) = within n (φ >>= f) := by
  funext d
  by_cases h : d.Within n
  · change (within n φ d).bind _ = within n (φ >>= f) d
    rw [within_of_within h, within_of_within h]
    rfl
  · change (within n φ d).bind _ = within n (φ >>= f) d
    rw [within_of_not_within h, within_of_not_within h]
    rfl

theorem mapM_within {ds : List Tree} (h : ¬∀ d ∈ ds, d.Within n) : ds.mapM (within n φ) = none := by
  induction ds with
  | nil => simp at h
  | cons d ds ih =>
    rw [List.mapM_cons]
    by_cases hd : d.Within n
    · have hds : ¬∀ d ∈ ds, d.Within n := fun hall => h (List.forall_mem_cons.mpr ⟨hd, hall⟩)
      rw [ih hds]
      cases within n φ d <;> rfl
    · rw [within_of_not_within hd]
      rfl

theorem mapM_entryOf_within {es : List (Spelling × Tree)} (h : ¬∀ e ∈ es, e.2.Within n) :
    es.mapM (Tree.entryOf (within n φ)) = none := by
  induction es with
  | nil => simp at h
  | cons e es ih =>
    rw [List.mapM_cons]
    by_cases he : e.2.Within n
    · have hes : ¬∀ e ∈ es, e.2.Within n := fun hall => h (List.forall_mem_cons.mpr ⟨he, hall⟩)
      rw [ih hes]
      cases Tree.entryOf (within n φ) e <;> rfl
    · rw [Tree.entryOf, within_of_not_within he]
      cases Spelling.text? e.1 <;> rfl

end TreeReader

namespace Scan

open TreeReader (within within_of_within within_of_not_within mapM_within mapM_entryOf_within)

theorem readsTree_within {n : Nat} {r : Scan Data.Value} {φ : TreeReader Data.Value} {d : Tree}
    (h : d.Within n → ReadsTree r d (φ d)) (hdeep : ¬d.Within n → ReadsTree r d none) :
    ReadsTree r d (within n φ d) := by
  by_cases hd : d.Within n
  · rw [within_of_within hd]
    exact h hd
  · rw [within_of_not_within hd]
    exact hdeep hd

/-- The induction is on the brackets that may still be opened; one of the parts is too deep. -/
theorem readsTree_value_deep {n : Nat} {d : Tree} (hd : ¬d.Within n) :
    ReadsTree (value n) d none := by
  induction n generalizing d with
  | zero =>
    intro b v rest hb hv hr
    cases hv with
    | list hw =>
      unfold value
      exact (reads_valueStart hb (by decide)).bind ((reads_scalar?_bracket _).bind
        ((reads_peek _).bind (reads_failPeek _ _ _)))
    | object hw =>
      unfold value
      exact (reads_valueStart hb (by decide)).bind ((reads_scalar?_brace _).bind
        ((reads_peek _).bind (reads_failPeek _ _ _)))
    | _ => exact absurd (Tree.within_of_isScalar rfl 0) hd
  | succ n ih =>
    have hpart (d : Tree) : ReadsTree (value n) d (within n Tree.value? d) :=
      readsTree_within readsTree_value ih
    intro b v rest hb hv hr
    cases hv with
    | list hw =>
      have hi := reads_items (fun d _ => hpart d) hw rest
      rw [mapM_within hd] at hi
      unfold value
      rw [List.cons_append, List.append_assoc]
      exact (reads_valueStart hb (by decide)).bind ((reads_scalar?_bracket _).bind
        ((reads_peek _).bind (reads_enclosed '[' hi (closeList_end .nil rest)).bind_none))
    | object hw =>
      have hi := reads_entries (fun e _ => hpart e.2) hw rest
      rw [mapM_entryOf_within hd] at hi
      unfold value
      rw [List.cons_append, List.append_assoc]
      exact (reads_valueStart hb (by decide)).bind ((reads_scalar?_brace _).bind
        ((reads_peek _).bind (reads_enclosed '{' hi (closeObject_end rest)).bind_none))
    | _ => exact absurd (Tree.within_of_isScalar rfl (n + 1)) hd

theorem readsTree_value_within (n : Nat) (d : Tree) :
    ReadsTree (value n) d (within n Tree.value? d) :=
  readsTree_within readsTree_value readsTree_value_deep

end Scan

namespace Reader

open Scan (Reads ReadsTree)
open TreeReader (within within_of_within within_of_not_within)
open InitializerLint.Json.Tree (ItemsAt EntriesAt)

variable {α : Type} (key : String) (variants : List (String × α)) {n : Nat}

theorem readsTree_variant_deep {d : Tree} (hd : ¬d.Within n) :
    ReadsTree (variant variants) d none := by
  have hscalar : ¬d.isScalar = true := fun hs => hd (Tree.within_of_isScalar hs n)
  have hnone : TreeReader.variant variants d = none := if_neg hscalar
  rw [← hnone]
  exact readsTree_variant variants d

/-- The tag is no bracket, and each other entry is kept, so that one too deep is met. -/
theorem reads_taggedEntriesFrom_deep {es : List (Spelling × Tree)}
    (hd : ¬∀ e ∈ es, e.2.Within n) (tag : Option α) (first : Bool) {cs : List Char}
    (he : EntriesAt first es cs) (fuel : Nat) (hf : es.length < fuel) (rest : List Char) :
    Reads (taggedEntriesFrom key variants n tag first fuel) (cs ++ '}' :: rest) none
      ('}' :: rest) := by
  induction es generalizing tag first cs fuel with
  | nil => simp at hd
  | cons e es ih =>
    obtain ⟨k, rfl⟩ : ∃ k, fuel = k + 1 := ⟨fuel - 1, by omega⟩
    obtain ⟨k', d⟩ := e
    obtain ⟨b₁, b₂, v, tail, hb₁, hb₂, hv, ht, -, hn⟩ := Scan.reads_nextKey he
    have hrest (h : d.Within n) (tag : Option α) := ih
      (fun hall => hd (List.forall_mem_cons.mpr ⟨h, hall⟩)) tag false ht k (by simpa using hf)
    unfold taggedEntriesFrom
    rw [← Option.bind_fun_none k'.text?]
    refine (hn _).bind_map fun name => ?_
    dsimp only
    by_cases hk : name = key
    · rw [if_pos hk]
      cases tag with
      | some t => exact Scan.reads_failFloating _ _ _
      | none =>
        refine (Scan.reads_colon hb₁ _).bind ?_
        by_cases hdw : d.Within n
        · have hr := readsTree_variant variants d hb₂ hv (ht.boundary rest)
          rw [← Option.bind_fun_none (TreeReader.variant variants d)]
          exact hr.bind' fun t => hrest hdw (some t)
        · exact (readsTree_variant_deep variants hdw hb₂ hv (ht.boundary rest)).bind_none
    · rw [if_neg hk]
      refine (Scan.reads_colon hb₁ _).bind ?_
      by_cases hdw : d.Within n
      · have hr := Scan.readsTree_value hdw hb₂ hv (ht.boundary rest)
        rw [← Option.bind_fun_none d.value?]
        exact hr.bind' fun v => (hrest hdw tag).bind_none
      · exact (Scan.readsTree_value_deep hdw hb₂ hv (ht.boundary rest)).bind_none

theorem reads_taggedItems_deep {ds : List Tree} (hd : ¬∀ d ∈ ds, d.Within n) {cs : List Char}
    (hi : ItemsAt true ds cs) (rest : List Char) :
    Reads (taggedItems key variants n) (cs ++ ']' :: rest) none (']' :: rest) := by
  unfold taggedItems
  cases ds with
  | nil => simp at hd
  | cons d ds =>
    obtain ⟨v, tail, hv, ht, -, hn⟩ := Scan.reads_nextItem hi
    refine (hn _).bind ?_
    by_cases hdw : d.Within n
    · have hds : ¬∀ d ∈ ds, d.Within n := fun hall => hd (List.forall_mem_cons.mpr ⟨hdw, hall⟩)
      have hvs := Scan.reads_itemsFrom (fun d _ => Scan.readsTree_value_within n d) ht _
        (ht.length_lt ']' rest) rest
      rw [TreeReader.mapM_within hds] at hvs
      have hr := readsTree_variant variants d .nil hv (ht.boundary rest)
      rw [← Option.bind_fun_none (TreeReader.variant variants d)]
      exact hr.bind' fun t => (Scan.reads_bounded hvs).bind_none
    · exact (readsTree_variant_deep variants hdw .nil hv (ht.boundary rest)).bind_none

theorem reads_bind_none {β γ : Type} {r : Reader β} {f : β → Reader γ} {text mid rest : List Char}
    (h : Reads (r n) text none mid) : Reads ((r >>= f) n) text none rest :=
  h.bind_none (f := fun b => f b n)

theorem readsTree_tagged_deep (expected : String) {d : Tree} (hd : ¬d.Within n) :
    ReadsTree (tagged expected key variants n) d none := by
  intro b v rest hb hv hr
  unfold tagged
  cases hv with
  | @list _ cs hw =>
    have hnested : Reads (nested Scan.closeList (taggedItems key variants) n)
        ('[' :: (cs ++ ']' :: rest)) none rest := by
      cases n with
      | zero => exact Scan.reads_failPeek _ _ _
      | succ n =>
        have hi := reads_taggedItems_deep key variants hd hw.itemsAt rest
        exact Scan.reads_enclosed '[' hi (Scan.closeList_end .nil rest)
    rw [List.cons_append, List.append_assoc]
    refine reads_start hb (by decide) ?_
    exact reads_bind_none hnested
  | @object _ cs hw =>
    have hnested : Reads (nested Scan.closeObject (fun levels =>
        Scan.bounded (taggedEntriesFrom key variants levels none true)) n)
        ('{' :: (cs ++ '}' :: rest)) none rest := by
      cases n with
      | zero => exact Scan.reads_failPeek _ _ _
      | succ n =>
        have he := reads_taggedEntriesFrom_deep key variants hd none true hw.entriesAt _
          (hw.entriesAt.length_lt '}' rest) rest
        exact Scan.reads_enclosed '{' (Scan.reads_bounded he) (Scan.closeObject_end rest)
    rw [List.cons_append, List.append_assoc]
    refine reads_start hb (by decide) ?_
    exact reads_bind_none hnested
  | _ => exact absurd (Tree.within_of_isScalar rfl n) hd

/-- With a given number of brackets to open, tagged values are found exactly within the limit. -/
theorem follows_tagged_within (n : Nat) (expected : String) : Follows (fun m _ => m = n)
    (tagged expected key variants) (within n (TreeReader.tagged key variants)) := by
  intro m d hm
  subst hm
  by_cases hd : d.Within m
  · rw [within_of_within hd]
    exact follows_tagged expected key variants hd
  · rw [within_of_not_within hd]
    exact readsTree_tagged_deep key variants expected hd

end Reader
end InitializerLint.Json
