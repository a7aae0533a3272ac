import InitializerLint.Proofs.Json.Number
import InitializerLint.Proofs.Json.Text

/-! The layout of lists and objects: their texts seen from between two items, and how the
scanner moves from one item to the next. -/
namespace InitializerLint.Json

namespace Tree

/-- What stands in front of the bracket of a list: before its first item, or after one. -/
inductive ItemsAt : Bool → List Tree → List Char → Prop
  | nil {first : Bool} {b : List Char} : Blank b → ItemsAt first [] b
  | first {d : Tree} {ds : List Tree} {b v tail : List Char} :
      Blank b → Writes d v → ItemsAt false ds tail → ItemsAt true (d :: ds) (b ++ (v ++ tail))
  | next {d : Tree} {ds : List Tree} {b b' v tail : List Char} :
      Blank b' → Blank b → Writes d v → ItemsAt false ds tail →
      ItemsAt false (d :: ds) (b' ++ ',' :: (b ++ (v ++ tail)))

/-- What stands in front of the brace of an object. -/
inductive EntriesAt : Bool → List (Spelling × Tree) → List Char → Prop
  | nil {first : Bool} {b : List Char} : Blank b → EntriesAt first [] b
  | first {k : Spelling} {d : Tree} {es : List (Spelling × Tree)} {b q b₁ b₂ v tail : List Char} :
      Blank b → k.Writes q → Blank b₁ → Blank b₂ → Writes d v → EntriesAt false es tail →
      EntriesAt true ((k, d) :: es) (b ++ (q ++ (b₁ ++ ':' :: (b₂ ++ (v ++ tail)))))
  | next {k : Spelling} {d : Tree} {es : List (Spelling × Tree)} {b b' q b₁ b₂ v tail : List Char} :
      Blank b' → Blank b → k.Writes q → Blank b₁ → Blank b₂ → Writes d v → EntriesAt false es tail →
      EntriesAt false ((k, d) :: es) (b' ++ ',' :: (b ++ (q ++ (b₁ ++ ':' :: (b₂ ++ (v ++ tail))))))

theorem WritesItems.itemsAt {ds : List Tree} {cs : List Char} (h : WritesItems ds cs) :
    ItemsAt true ds cs := by
  induction ds generalizing cs with
  | nil =>
    cases h with
    | nil hb => exact .nil hb
  | cons d ds ih =>
    cases h with
    | last hb hv hb' => exact .first hb hv (.nil hb')
    | more hb hv hb' hi =>
      cases ih hi with
      | first hb₂ hv₂ ht => exact .first hb hv (.next hb' hb₂ hv₂ ht)

theorem WritesEntries.entriesAt {es : List (Spelling × Tree)} {cs : List Char}
    (h : WritesEntries es cs) : EntriesAt true es cs := by
  induction es generalizing cs with
  | nil =>
    cases h with
    | nil hb => exact .nil hb
  | cons e es ih =>
    cases h with
    | last hb hq hb₁ hb₂ hv hb' => exact .first hb hq hb₁ hb₂ hv (.nil hb')
    | more hb hq hb₁ hb₂ hv hb' he =>
      cases ih he with
      | first hc hq' hc₁ hc₂ hv' ht => exact .first hb hq hb₁ hb₂ hv (.next hb' hc hq' hc₁ hc₂ hv' ht)

/-- A tree without parts. -/
def isScalar : Tree → Bool
  | .list _ => false
  | .object _ => false
  | _ => true

/-- A character that a value can start with. -/
structure Opens (c : Char) : Prop where
  solid : isSpace c = false
  ne_bracket : c ≠ ']'
  ne_brace : c ≠ '}'
  ne_comma : c ≠ ','

theorem opens_of_isDigit {c : Char} (h : isDigit c = true) : Opens c := by
  refine ⟨?_, ?_, ?_, ?_⟩
  · cases hs : isSpace c with
    | false => rfl
    | true =>
      simp only [isSpace, Bool.or_eq_true, decide_eq_true_eq] at hs
      rcases hs with ((rfl | rfl) | rfl) | rfl <;> exact absurd h (by decide)
  all_goals
    rintro rfl
    exact absurd h (by decide)

theorem Writes.opens {d : Tree} {v : List Char} (h : Writes d v) :
    ∃ c v', v = c :: v' ∧ Opens c := by
  cases h with
  | positive hx =>
    obtain ⟨c, cs, rfl, hc⟩ := hx.head
    exact ⟨c, cs, rfl, opens_of_isDigit hc⟩
  | text hs =>
    cases hs with
    | quoted => exact ⟨_, _, rfl, by decide, by decide, by decide, by decide⟩
  | _ => exact ⟨_, _, rfl, by decide, by decide, by decide, by decide⟩

theorem Writes.opens_scalar {d : Tree} {v : List Char} (h : Writes d v) (hs : d.isScalar = true) :
    ∃ c v', v = c :: v' ∧ isSpace c = false ∧ c ≠ '[' ∧ c ≠ '{' := by
  cases h with
  | positive hx =>
    obtain ⟨c, cs, rfl, hc⟩ := hx.head
    refine ⟨c, cs, rfl, (opens_of_isDigit hc).solid, ?_, ?_⟩
    all_goals
      rintro rfl
      exact absurd hc (by decide)
  | text ht =>
    cases ht with
    | quoted => exact ⟨_, _, rfl, by decide, by decide, by decide⟩
  | list _ => cases hs
  | object _ => cases hs
  | _ => exact ⟨_, _, rfl, by decide, by decide, by decide⟩

theorem Writes.length_pos {d : Tree} {v : List Char} (h : Writes d v) : 0 < v.length := by
  obtain ⟨c, v', rfl, -⟩ := h.opens
  simp

theorem ItemsAt.length_le {first : Bool} {ds : List Tree} {cs : List Char}
    (h : ItemsAt first ds cs) : ds.length ≤ cs.length := by
  induction h with
  | nil => simp
  | first _ hv _ ih =>
    have := hv.length_pos
    simp only [List.length_cons, List.length_append]
    omega
  | next _ _ hv _ ih =>
    have := hv.length_pos
    simp only [List.length_cons, List.length_append]
    omega

theorem EntriesAt.length_le {first : Bool} {es : List (Spelling × Tree)} {cs : List Char}
    (h : EntriesAt first es cs) : es.length ≤ cs.length := by
  induction h with
  | nil => simp
  | first _ _ _ _ hv _ ih =>
    have := hv.length_pos
    simp only [List.length_cons, List.length_append]
    omega
  | next _ _ _ _ _ hv _ ih =>
    have := hv.length_pos
    simp only [List.length_cons, List.length_append]
    omega

/-- There are enough characters left for a step on each item and one at the end. -/
theorem ItemsAt.length_lt {first : Bool} {ds : List Tree} {cs : List Char}
    (h : ItemsAt first ds cs) (c : Char) (rest : List Char) :
    ds.length < (cs ++ c :: rest).length := by
  have hl := h.length_le
  simp only [List.length_append, List.length_cons]
  omega

theorem EntriesAt.length_lt {first : Bool} {es : List (Spelling × Tree)} {cs : List Char}
    (h : EntriesAt first es cs) (c : Char) (rest : List Char) :
    es.length < (cs ++ c :: rest).length := by
  have hl := h.length_le
  simp only [List.length_append, List.length_cons]
  omega

theorem ItemsAt.boundary {ds : List Tree} {cs : List Char} (h : ItemsAt false ds cs)
    (rest : List Char) : Boundary (cs ++ ']' :: rest) := by
  cases h with
  | nil hb => exact .append hb (by simp [Boundary])
  | next hb' _ _ _ =>
    rw [List.append_assoc]
    exact .append hb' (by simp [Boundary])

theorem ItemsAt.blank {first : Bool} {cs : List Char} (h : ItemsAt first [] cs) : Blank cs := by
  cases h with
  | nil hb => exact hb

theorem EntriesAt.blank {first : Bool} {cs : List Char} (h : EntriesAt first [] cs) : Blank cs := by
  cases h with
  | nil hb => exact hb

theorem ItemsAt.opens {first : Bool} {d : Tree} {ds : List Tree} {cs : List Char}
    (h : ItemsAt first (d :: ds) cs) :
    ∃ b c cs', Blank b ∧ cs = b ++ c :: cs' ∧ isSpace c = false ∧ c ≠ ']' := by
  cases h with
  | first hb hv _ =>
    obtain ⟨c, v', rfl, hc⟩ := hv.opens
    exact ⟨_, c, _, hb, rfl, hc.solid, hc.ne_bracket⟩
  | next hb' _ _ _ => exact ⟨_, ',', _, hb', rfl, by decide, by decide⟩

theorem EntriesAt.boundary {es : List (Spelling × Tree)} {cs : List Char} (h : EntriesAt false es cs)
    (rest : List Char) : Boundary (cs ++ '}' :: rest) := by
  cases h with
  | nil hb => exact .append hb (by simp [Boundary])
  | next hb' _ _ _ _ _ _ =>
    rw [List.append_assoc]
    exact .append hb' (by simp [Boundary])

end Tree

open InitializerLint.Json.Tree

namespace Scan

variable {α : Type}

theorem reads_nextItem_end (first : Bool) {b : List Char} (hb : Blank b) (rest : List Char) :
    Reads (nextItem first) (b ++ ']' :: rest) (some false) (']' :: rest) := by
  unfold nextItem
  exact (reads_skipSpace hb (.cons (by decide) rest)).bind ((reads_peek _).bind (.pure false _))

/-- The scanner stops in front of the next item. -/
theorem reads_nextItem {first : Bool} {d : Tree} {ds : List Tree} {cs : List Char}
    (h : ItemsAt first (d :: ds) cs) : ∃ v tail, d.Writes v ∧ ItemsAt false ds tail ∧
      (v ++ tail).length ≤ cs.length ∧
      ∀ rest, Reads (nextItem first) (cs ++ rest) (some true) (v ++ (tail ++ rest)) := by
  cases h with
  | @first _ _ b v tail hb hv ht =>
    refine ⟨v, tail, hv, ht, by simp, fun rest => ?_⟩
    obtain ⟨c, v', rfl, hc⟩ := hv.opens
    unfold nextItem
    simp only [List.append_assoc]
    refine (reads_skipSpace hb (.cons hc.solid _)).bind ((reads_peek _).bind ?_)
    split
    · next he => cases he
    · next he => exact absurd (Option.some.inj he) hc.ne_bracket
    · exact .pure true _
  | @next _ _ b b' v tail hb' hb hv ht =>
    refine ⟨v, tail, hv, ht, by simp; omega, fun rest => ?_⟩
    obtain ⟨c, v', rfl, hc⟩ := hv.opens
    unfold nextItem
    simp only [List.append_assoc, List.cons_append]
    refine (reads_skipSpace hb' (.cons (by decide) _)).bind ((reads_peek _).bind
      ((reads_drop _ _).bind ((reads_skipSpace hb (.cons hc.solid _)).bind ((reads_peek _).bind ?_))))
    split
    · next he => exact absurd (Option.some.inj he) hc.ne_bracket
    · exact .pure true _
    · next he => cases he

theorem reads_nextKey_end (first : Bool) {b : List Char} (hb : Blank b) (rest : List Char) :
    Reads (nextKey first) (b ++ '}' :: rest) (some none) ('}' :: rest) := by
  unfold nextKey
  exact (reads_skipSpace hb (.cons (by decide) rest)).bind ((reads_peek _).bind (.pure none _))

theorem reads_key {k : Spelling} {q : List Char} (h : k.Writes q) (rest : List Char) :
    ∃ q', q = '"' :: q' ∧ Reads (nextKey.key '"') ('"' :: (q' ++ rest)) (k.text?.map some) rest := by
  cases h with
  | quoted hp =>
    refine ⟨_, rfl, ?_⟩
    rw [List.append_assoc]
    exact (reads_drop _ _).bind ((reads_string hp rest).map some)

/-- The scanner reads the next key and stops behind it. -/
theorem reads_nextKey {first : Bool} {k : Spelling} {d : Tree} {es : List (Spelling × Tree)}
    {cs : List Char} (h : EntriesAt first ((k, d) :: es) cs) :
    ∃ b₁ b₂ v tail, Blank b₁ ∧ Blank b₂ ∧ d.Writes v ∧ EntriesAt false es tail ∧
      (v ++ tail).length ≤ cs.length ∧
      ∀ rest, Reads (nextKey first) (cs ++ rest) (k.text?.map some)
        (b₁ ++ ':' :: (b₂ ++ (v ++ (tail ++ rest)))) := by
  cases h with
  | @first _ _ _ b q b₁ b₂ v tail hb hq hb₁ hb₂ hv ht =>
    refine ⟨b₁, b₂, v, tail, hb₁, hb₂, hv, ht, by simp; omega, fun rest => ?_⟩
    obtain ⟨q', rfl, hk⟩ := reads_key hq (b₁ ++ ':' :: (b₂ ++ (v ++ (tail ++ rest))))
    unfold nextKey
    simp only [List.append_assoc, List.cons_append]
    exact (reads_skipSpace hb (.cons (by decide) _)).bind ((reads_peek _).bind hk)
  | @next _ _ _ b b' q b₁ b₂ v tail hb' hb hq hb₁ hb₂ hv ht =>
    refine ⟨b₁, b₂, v, tail, hb₁, hb₂, hv, ht, by simp; omega, fun rest => ?_⟩
    obtain ⟨q', rfl, hk⟩ := reads_key hq (b₁ ++ ':' :: (b₂ ++ (v ++ (tail ++ rest))))
    unfold nextKey
    simp only [List.append_assoc, List.cons_append]
    exact (reads_skipSpace hb' (.cons (by decide) _)).bind ((reads_peek _).bind
      ((reads_drop _ _).bind ((reads_skipSpace hb (.cons (by decide) _)).bind
        ((reads_peek _).bind hk))))

theorem reads_colon {b : List Char} (hb : Blank b) (cs : List Char) :
    Reads colon (b ++ ':' :: cs) (some ()) cs := by
  unfold colon
  exact (reads_skipSpace hb (.cons (by decide) cs)).bind ((reads_peek _).bind (reads_drop _ cs))

section enclosed

variable {close : Cursor → Cursor × Option Failure} {body : Scan α} {text mid rest : List Char}
  (c : Char)

theorem reads_enclosed_none (h : Reads body text none mid) :
    Reads (enclosed close body) (c :: text) none rest := by
  intro off
  obtain ⟨e, hb⟩ := h (off + c.utf8Size)
  cases e with
  | placed cause n =>
    refine ⟨.placed cause n, ?_⟩
    simp only [enclosed, Cursor.drop, hb]
  | floating f c' =>
    refine ⟨.placed (.fault f) (close c').1.offset, ?_⟩
    simp only [enclosed, Cursor.drop, hb]

/-- A body that stops in front of the closing bracket. -/
theorem reads_enclosed {o : Option α} (h : Reads body text o mid)
    (hc : ∀ off, ∃ off', close ⟨mid, off⟩ = (⟨rest, off'⟩, none)) :
    Reads (enclosed close body) (c :: text) o rest := by
  cases o with
  | none => exact reads_enclosed_none c h
  | some a =>
    intro off
    obtain ⟨off₁, hb⟩ := h (off + c.utf8Size)
    obtain ⟨off₂, hc⟩ := hc off₁
    refine ⟨off₂, ?_⟩
    simp only [enclosed, Cursor.drop, hb, hc]

/-- A body that stops before the bracket is reached has no value. -/
theorem reads_enclosed_open {o : Option α} (h : Reads body text o mid)
    (hc : ∀ off, ∃ c' e, close ⟨mid, off⟩ = (c', some e)) :
    Reads (enclosed close body) (c :: text) none rest := by
  cases o with
  | none => exact reads_enclosed_none c h
  | some a =>
    intro off
    obtain ⟨off₁, hb⟩ := h (off + c.utf8Size)
    obtain ⟨c', e, hc⟩ := hc off₁
    refine ⟨e, ?_⟩
    simp only [enclosed, Cursor.drop, hb, hc]

end enclosed

theorem closeList_end {b : List Char} (hb : Blank b) (rest : List Char) (off : Nat) :
    ∃ off', closeList ⟨b ++ ']' :: rest, off⟩ = (⟨rest, off'⟩, none) := by
  have hs : (⟨b ++ ']' :: rest, off⟩ : Cursor).skipSpace.rest = ']' :: rest :=
    (Stops.cons (by decide) rest).dropWhile_append (blank_iff.mp hb)
  refine ⟨(⟨b ++ ']' :: rest, off⟩ : Cursor).skipSpace.drop.offset, ?_⟩
  simp only [closeList, Cursor.drop, hs]

theorem closeObject_end (rest : List Char) (off : Nat) :
    ∃ off', closeObject ⟨'}' :: rest, off⟩ = (⟨rest, off'⟩, none) := ⟨_, rfl⟩

/-- A list does not end in front of anything but its bracket. -/
theorem closeList_open {b : List Char} (hb : Blank b) {c : Char} (hc : isSpace c = false)
    (hne : c ≠ ']') (cs : List Char) (off : Nat) :
    ∃ c' e, closeList ⟨b ++ c :: cs, off⟩ = (c', some e) := by
  have hs : (⟨b ++ c :: cs, off⟩ : Cursor).skipSpace.rest = c :: cs :=
    (Stops.cons hc cs).dropWhile_append (blank_iff.mp hb)
  unfold closeList
  simp only [hs]
  split
  · next he => cases he
  · next he => exact absurd (List.cons.inj he).1 hne
  · exact ⟨_, _, rfl⟩
  · exact ⟨_, _, rfl⟩

end Scan
end InitializerLint.Json
