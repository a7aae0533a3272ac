import InitializerLint.Json.Reader
import InitializerLint.Proofs.Json.Value

/-! Typed data read from trees instead of texts, and the agreement of the two: a reader that is
written against `Source` finds in a text what it finds in the tree of that text. -/
namespace InitializerLint.Json

open Data (Decode Field Schema Source)

abbrev TreeReader := ReaderT Tree Option

namespace TreeReader

variable {α : Type}

def scalar (decode : Decode α) : TreeReader α := fun d =>
  if d.isScalar then d.value?.bind fun v => (decode v).toOption else none

def list (item : TreeReader α) : TreeReader (List α)
  | .list ds => ds.mapM item
  | _ => none

def entries (item : TreeReader α) : TreeReader (List (String × α))
  | .object es => es.mapM (Tree.entryOf item)
  | _ => none

def elementsFrom (a : α) : List (Field TreeReader α) → List Tree → Option α
  | [], [] => some a
  | [], _ :: _ => none
  | f :: fs, [] => if f.required then none else elementsFrom a fs []
  | f :: fs, d :: ds => do elementsFrom (← f.read a d) fs ds

def fieldsFrom (s : Schema TreeReader α) (given : List String) (a : α) :
    List (Spelling × Tree) → Option α
  | [] => if (s.missing? given).isSome then none else some a
  | (k, d) :: es => do
    let key ← Spelling.text? k
    match s.find? key with
    | none => fieldsFrom s (key :: given) a es
    | some f =>
      if given.contains key then none else fieldsFrom s (key :: given) (← f.read a d) es

def record (s : Schema TreeReader α) : TreeReader α
  | .list ds => elementsFrom s.blank s.fields ds
  | .object es => fieldsFrom s [] s.blank es
  | _ => none

def variant (variants : List (String × α)) : TreeReader α :=
  scalar fun
    | .text name => Decode.variant variants (.text name)
    | v => Decode.mismatch "variant identifier" v

def taggedEntries (key : String) (variants : List (String × α)) (tag : Option α) :
    List (Spelling × Tree) → Option (α × List (Data.Value × Data.Value))
  | [] => tag.map (·, [])
  | (k, d) :: es => do
    let name ← Spelling.text? k
    if name = key then
      if tag.isSome then none
      else taggedEntries key variants (some (← variant variants d)) es
    else
      let v ← d.value?
      let (t, vs) ← taggedEntries key variants tag es
      return (t, (.text name, v) :: vs)

def taggedItems (variants : List (String × α)) : List Tree → Option (α × List Data.Value)
  | [] => none
  | d :: ds => do
    let t ← variant variants d
    let vs ← ds.mapM Tree.value?
    return (t, vs)

def tagged (key : String) (variants : List (String × α)) : TreeReader (α × Data.Value)
  | .list ds => do
    let (t, vs) ← taggedItems variants ds
    return (t, .list vs)
  | .object es => do
    let (t, vs) ← taggedEntries key variants none es
    return (t, .map vs)
  | _ => none

instance : Source TreeReader where
  fail _ := fun _ => none
  text expected := scalar (Decode.text expected)
  flag := scalar Decode.flag
  word := scalar Decode.word
  list := list
  entries := entries
  record := record
  tagged _ := tagged

end TreeReader

/-- A tree at whose first bracket one more may be opened, and what is inside is in `D` from then on. -/
def Tree.Inside (D : Nat → Tree → Prop) : Nat → Tree → Prop
  | 0, .list _ => False
  | 0, .object _ => False
  | n + 1, .list ds => ∀ d ∈ ds, D n d
  | n + 1, .object es => ∀ e ∈ es, D n e.2
  | _, _ => True

theorem Tree.Within.inside {n : Nat} {d : Tree} (h : d.Within n) : Tree.Inside Tree.Within n d := by
  cases n <;> cases d <;> exact h

namespace Reader

open Scan (Reads ReadsTree)

variable {α β : Type}

/-- On each text of each tree in `D`, by the number of brackets that may be opened, the reader
finds what the tree holds. -/
def Follows (D : Nat → Tree → Prop) (r : Reader α) (φ : TreeReader α) : Prop :=
  ∀ ⦃n : Nat⦄ ⦃d : Tree⦄, D n d → ReadsTree (r n) d (φ d)

theorem readsTree_scalar (expected : String) (decode : Decode α) (d : Tree) :
    ReadsTree (scalar expected decode) d (TreeReader.scalar decode d) := by
  intro b v rest hb hv hr
  unfold scalar
  by_cases hs : d.isScalar = true
  · have h := Scan.reads_scalar? hs hv hr
    obtain ⟨c, v', rfl, hc⟩ := hv.opens
    rw [TreeReader.scalar, if_pos hs]
    refine (Scan.reads_valueStart hb hc.solid).bind (h.bind_map fun x => ?_)
    dsimp only
    cases decode x with
    | ok a => exact .pure a rest
    | error f => exact Scan.reads_failHere (.fault f) rest rest
  · rw [TreeReader.scalar, if_neg hs]
    cases hv with
    | list _ =>
      exact (Scan.reads_valueStart hb (by decide)).bind ((Scan.reads_scalar?_bracket _).bind
        ((Scan.reads_peek _).bind (Scan.reads_failHere _ _ _)))
    | object _ =>
      exact (Scan.reads_valueStart hb (by decide)).bind ((Scan.reads_scalar?_brace _).bind
        ((Scan.reads_peek _).bind (Scan.reads_failHere _ _ _)))
    | _ => exact absurd rfl hs

theorem readsTree_mismatch (expected : String) (d : Tree) :
    ReadsTree (mismatch expected : Scan α) d none := by
  have h := readsTree_scalar expected (Decode.mismatch expected : Decode α) d
  have hd : TreeReader.scalar (Decode.mismatch expected : Decode α) d = none := by
    unfold TreeReader.scalar
    split
    · exact Option.bind_eq_none_iff.mpr fun v _ => rfl
    · rfl
  rwa [hd] at h

section follows

variable {D D' : Nat → Tree → Prop} {r : Reader α} {φ : TreeReader α}

theorem Follows.mono (h : Follows D r φ) (hD : ∀ {n d}, D' n d → D n d) : Follows D' r φ :=
  fun _ _ hd => h (hD hd)

theorem follows_scalar (expected : String) (decode : Decode α) :
    Follows D (fun _ => scalar expected decode) (TreeReader.scalar decode) :=
  fun _ d _ => readsTree_scalar expected decode d

theorem Follows.map (h : Follows D r φ) (f : α → β) :
    Follows D (do return f (← r)) (do return f (← φ)) := by
  intro n d hd b v rest hb hv hr
  exact (h hd hb hv hr).bind' fun a => .pure (f a) rest

/-- What is found may still be judged. -/
theorem Follows.check (h : Follows D r φ) {f : α → Reader β}
    {g : α → TreeReader β} (hf : ∀ a n d rest, Reads (f a n) rest (g a d) rest) :
    Follows D (r >>= f) (φ >>= g) := by
  intro n d hd b v rest hb hv hr
  exact (h hd hb hv hr).bind' fun a => hf a n d rest

end follows

section start

variable {n : Nat} {b cs rest : List Char} {k : Option Char → Reader α}

/-- A reader that decides by the first character of a value. -/
theorem reads_start {c : Char} {o : Option α} (hb : Blank b) (hc : isSpace c = false)
    (h : Reads (k (some c) n) (c :: cs) o rest) :
    Reads ((do Scan.valueStart; k (← Scan.peek) : Reader α) n) (b ++ c :: cs) o rest := by
  change Reads (Scan.valueStart >>= fun _ => Scan.peek >>= fun c => k c n) _ _ _
  exact (Scan.reads_valueStart hb hc).bind ((Scan.reads_peek _).bind h)

/-- Where a bracket is expected, a value without parts has none. -/
theorem reads_start_scalar (expected : String) {d : Tree} {v : List Char} (hs : d.isScalar = true)
    (hk : ∀ c, c ≠ '[' → c ≠ '{' → k (some c) = liftM (mismatch expected : Scan α)) (hb : Blank b)
    (hv : d.Writes v) (hr : Boundary rest) :
    Reads ((do Scan.valueStart; k (← Scan.peek) : Reader α) n) (b ++ (v ++ rest)) none rest := by
  have hm : Reads (mismatch expected : Scan α) (v ++ rest) none rest :=
    readsTree_mismatch expected d .nil hv hr
  obtain ⟨c, v', rfl, hc, h1, h2⟩ := hv.opens_scalar hs
  refine reads_start hb hc ?_
  rw [hk c h1 h2]
  exact hm

end start

theorem follows_list {D : Nat → Tree → Prop} {item : Reader α} {φ : TreeReader α}
    (h : Follows D item φ) : Follows (Tree.Inside D) (list item) (TreeReader.list φ) := by
  intro n d hd b v rest hb hv hr
  unfold list
  cases d with
  | list ds =>
    cases hv with
    | list hw =>
      cases n with
      | zero => exact hd.elim
      | succ n =>
        have hi := Scan.reads_items (fun d' hd' => h (hd d' hd')) hw rest
        rw [List.cons_append, List.append_assoc]
        exact reads_start hb (by decide) (Scan.reads_enclosed '[' hi (Scan.closeList_end .nil rest))
  | object es =>
    have hm := readsTree_mismatch (α := List α) "a sequence" (.object es) .nil hv hr
    cases hv with
    | object hw => exact reads_start hb (by decide) hm
  | _ =>
    refine reads_start_scalar "a sequence" rfl (fun c h1 h2 => ?_) hb hv hr
    split
    · next he => exact absurd (Option.some.inj he) h1
    · rfl

theorem follows_entries {D : Nat → Tree → Prop} {item : Reader α} {φ : TreeReader α}
    (h : Follows D item φ) : Follows (Tree.Inside D) (entries item) (TreeReader.entries φ) := by
  intro n d hd b v rest hb hv hr
  unfold entries
  cases d with
  | object es =>
    cases hv with
    | object hw =>
      cases n with
      | zero => exact hd.elim
      | succ n =>
        have hi := Scan.reads_entries (fun e he => h (hd e he)) hw rest
        rw [List.cons_append, List.append_assoc]
        exact reads_start hb (by decide) (Scan.reads_enclosed '{' hi (Scan.closeObject_end rest))
  | list ds =>
    have hm := readsTree_mismatch (α := List (String × α)) "a map" (.list ds) .nil hv hr
    cases hv with
    | list hw => exact reads_start hb (by decide) hm
  | _ =>
    refine reads_start_scalar "a map" rfl (fun c h1 h2 => ?_) hb hv hr
    split
    · next he => exact absurd (Option.some.inj he) h2
    · rfl

end Reader
end InitializerLint.Json
