import InitializerLint.Proofs.Json.Layout

/-! Whole values: the scanner reads from each text of a tree the data the tree stands for, and
passes over each text of any tree. -/
namespace InitializerLint.Json

namespace Tree

/-- The key and the content of an entry. -/
def entryOf {α : Type} (φ : Tree → Option α) (e : Spelling × Tree) : Option (String × α) := do
  let k ← Spelling.text? e.1
  let a ← φ e.2
  return (k, a)

theorem itemValues?_eq (ds : List Tree) : itemValues? ds = ds.mapM value? := by
  induction ds with
  | nil => rfl
  | cons d ds ih => rw [itemValues?, ih, List.mapM_cons]

theorem entryValues?_eq (es : List (Spelling × Tree)) :
    entryValues? es = (es.mapM (entryOf value?)).map (List.map fun e => (.text e.1, e.2)) := by
  induction es with
  | nil => rfl
  | cons e es ih =>
    obtain ⟨k, d⟩ := e
    rw [entryValues?, ih, List.mapM_cons, entryOf]
    cases Spelling.text? k with
    | none => rfl
    | some key =>
      cases d.value? with
      | none => rfl
      | some v => cases es.mapM (entryOf value?) <;> rfl

end Tree

namespace Scan

open InitializerLint.Json.Tree

variable {α : Type}

/-- On every text of the tree, blanks before it and an end behind it, the scan answers `o`. -/
def ReadsTree (r : Scan α) (d : Tree) (o : Option α) : Prop :=
  ∀ ⦃b v rest : List Char⦄, Blank b → d.Writes v → Boundary rest → Reads r (b ++ (v ++ rest)) o rest

theorem reads_itemsFrom {item : Scan α} {φ : Tree → Option α} {first : Bool} {ds : List Tree}
    {cs : List Char} (hi : ∀ d ∈ ds, ReadsTree item d (φ d)) (h : ItemsAt first ds cs)
    (fuel : Nat) (hf : ds.length < fuel) (rest : List Char) :
    Reads (itemsFrom item first fuel) (cs ++ ']' :: rest) (ds.mapM φ) (']' :: rest) := by
  induction ds generalizing first cs fuel with
  | nil =>
    obtain ⟨k, rfl⟩ : ∃ k, fuel = k + 1 := ⟨fuel - 1, by omega⟩
    cases h with
    | nil hb =>
      unfold itemsFrom
      exact (reads_nextItem_end first hb rest).bind (.pure [] _)
  | cons d ds ih =>
    obtain ⟨k, rfl⟩ : ∃ k, fuel = k + 1 := ⟨fuel - 1, by omega⟩
    obtain ⟨v, tail, hv, ht, -, hn⟩ := reads_nextItem h
    have hd := hi d (by simp) Blank.nil hv (ht.boundary rest)
    have hr := ih (fun d' hd' => hi d' (by simp [hd'])) ht k (by simpa using hf)
    unfold itemsFrom
    rw [List.mapM_cons]
    exact (hn _).bind (hd.bind' fun a => hr.bind' fun as => .pure (a :: as) _)

/-- A list is read item by item. -/
theorem reads_items {item : Scan α} {φ : Tree → Option α} {ds : List Tree} {cs : List Char}
    (hi : ∀ d ∈ ds, ReadsTree item d (φ d)) (h : WritesItems ds cs) (rest : List Char) :
    Reads (items item) (cs ++ ']' :: rest) (ds.mapM φ) (']' :: rest) := by
  exact reads_bounded (reads_itemsFrom hi h.itemsAt _ (h.itemsAt.length_lt ']' rest) rest)

theorem reads_entriesFrom {item : Scan α} {φ : Tree → Option α} {first : Bool}
    {es : List (Spelling × Tree)} {cs : List Char} (hi : ∀ e ∈ es, ReadsTree item e.2 (φ e.2))
    (h : EntriesAt first es cs) (fuel : Nat) (hf : es.length < fuel) (rest : List Char) :
    Reads (entriesFrom item first fuel) (cs ++ '}' :: rest) (es.mapM (entryOf φ)) ('}' :: rest) := by
  induction es generalizing first cs fuel with
  | nil =>
    obtain ⟨k, rfl⟩ : ∃ k, fuel = k + 1 := ⟨fuel - 1, by omega⟩
    cases h with
    | nil hb =>
      unfold entriesFrom
      exact (reads_nextKey_end first hb rest).bind (.pure [] _)
  | cons e es ih =>
    obtain ⟨n, rfl⟩ : ∃ n, fuel = n + 1 := ⟨fuel - 1, by omega⟩
    obtain ⟨k, d⟩ := e
    obtain ⟨b₁, b₂, v, tail, hb₁, hb₂, hv, ht, -, hn⟩ := reads_nextKey h
    have hd := hi (k, d) (by simp) hb₂ hv (ht.boundary rest)
    have hr := ih (fun e' he' => hi e' (by simp [he'])) ht n (by simpa using hf)
    unfold entriesFrom
    simp only [List.mapM_cons, entryOf, bind_assoc, pure_bind]
    exact (hn _).bind_map fun key => (reads_colon hb₁ _).bind
      (hd.bind' fun a => hr.bind' fun as => .pure ((key, a) :: as) _)

theorem reads_entries {item : Scan α} {φ : Tree → Option α} {es : List (Spelling × Tree)}
    {cs : List Char} (hi : ∀ e ∈ es, ReadsTree item e.2 (φ e.2)) (h : WritesEntries es cs)
    (rest : List Char) :
    Reads (entries item) (cs ++ '}' :: rest) (es.mapM (entryOf φ)) ('}' :: rest) := by
  exact reads_bounded (reads_entriesFrom hi h.entriesAt _ (h.entriesAt.length_lt '}' rest) rest)

theorem reads_scalar? {d : Tree} {v rest : List Char} (hs : d.isScalar = true) (h : d.Writes v)
    (hb : Boundary rest) : Reads scalar? (v ++ rest) (d.value?.map some) rest := by
  unfold scalar?
  refine (reads_peek _).bind ?_
  cases h with
  | null => exact (reads_drop _ _).bind ((reads_word _ _).bind (.pure _ _))
  | boolTrue => exact (reads_drop _ _).bind ((reads_word _ _).bind (.pure _ _))
  | boolFalse => exact (reads_drop _ _).bind ((reads_word _ _).bind (.pure _ _))
  | positive hx =>
    obtain ⟨c, cs, rfl, hc⟩ := hx.head
    -- The words, the quote and the minus sign are tried before the digits.
    split
    case h_6 he =>
      cases he
      rw [if_pos hc]
      exact (reads_number hx false hb).map some
    case h_7 he => cases he
    all_goals
      next he =>
      cases he
      exact absurd hc (by decide)
  | negative hx => exact (reads_drop _ _).bind ((reads_number hx true hb).map some)
  | text ht =>
    cases ht with
    | quoted hp =>
      have hr := (reads_string hp rest).map fun s => some (Data.Value.text s)
      simp only [value?, Option.map_map, List.cons_append, List.append_assoc]
      exact (reads_drop _ _).bind hr
  | list _ => cases hs
  | object _ => cases hs

theorem reads_scalar?_bracket (cs : List Char) :
    Reads scalar? ('[' :: cs) (some none) ('[' :: cs) := by
  unfold scalar?
  exact (reads_peek _).bind (.pure none _)

theorem reads_scalar?_brace (cs : List Char) :
    Reads scalar? ('{' :: cs) (some none) ('{' :: cs) := by
  unfold scalar?
  exact (reads_peek _).bind (.pure none _)

theorem readsTree_value_scalar (n : Nat) {d : Tree} (hs : d.isScalar = true) :
    ReadsTree (value n) d d.value? := by
  intro b v rest hb hv hr
  have h := reads_scalar? hs hv hr
  obtain ⟨c, v', rfl, hc⟩ := hv.opens
  rw [← Option.bind_fun_some d.value?]
  cases n with
  | zero =>
    unfold value
    exact (reads_valueStart hb hc.solid).bind
      (h.bind_map fun v => (reads_peek rest).bind (.pure v rest))
  | succ n =>
    unfold value
    exact (reads_valueStart hb hc.solid).bind
      (h.bind_map fun v => (reads_peek rest).bind (.pure v rest))

/-- The induction is on the brackets that may still be opened, as in `value` itself. -/
theorem readsTree_value {n : Nat} {d : Tree} (hd : d.Within n) : ReadsTree (value n) d d.value? := by
  induction n generalizing d with
  | zero =>
    cases d with
    | list ds => exact hd.elim
    | object es => exact hd.elim
    | _ => exact readsTree_value_scalar 0 rfl
  | succ n ih =>
    cases d with
    | list ds =>
      intro b v rest hb hv hr
      cases hv with
      | list hw =>
        have hi := reads_items (fun d' hd' => ih (hd d' hd')) hw rest
        unfold value
        rw [List.cons_append, List.append_assoc]
        refine (reads_valueStart hb (by decide)).bind ((reads_scalar?_bracket _).bind
          ((reads_peek _).bind ?_))
        rw [value?, itemValues?_eq]
        exact (reads_enclosed '[' hi (closeList_end .nil rest)).map Data.Value.list
    | object es =>
      intro b v rest hb hv hr
      cases hv with
      | object hw =>
        have hi := reads_entries (fun e he => ih (hd e he)) hw rest
        unfold value
        rw [List.cons_append, List.append_assoc]
        refine (reads_valueStart hb (by decide)).bind ((reads_scalar?_brace _).bind
          ((reads_peek _).bind ?_))
        rw [value?, entryValues?_eq, Option.map_map]
        exact (reads_enclosed '{' hi (closeObject_end rest)).map _
    | _ => exact readsTree_value_scalar (n + 1) rfl

theorem reads_skipScalar? {d : Tree} {v rest : List Char} (hs : d.isScalar = true) (h : d.Writes v)
    (hb : Boundary rest) : Reads skipScalar? (v ++ rest) (some true) rest := by
  unfold skipScalar?
  refine (reads_peek _).bind ?_
  cases h with
  | null => exact (reads_scalar? rfl .null hb).bind (.pure true rest)
  | boolTrue => exact (reads_scalar? rfl .boolTrue hb).bind (.pure true rest)
  | boolFalse => exact (reads_scalar? rfl .boolFalse hb).bind (.pure true rest)
  | positive hx =>
    obtain ⟨c, cs, rfl, hc⟩ := hx.head
    split
    · next he =>
      cases he
      exact absurd hc (by decide)
    · next he =>
      cases he
      exact absurd hc (by decide)
    · next he =>
      cases he
      rw [if_pos hc]
      exact reads_numeral hx hb.stops fun _ => .pure true rest
    · next he => cases he
  | negative hx => exact (reads_drop _ _).bind (reads_numeral hx hb.stops fun _ => .pure true rest)
  | text ht =>
    cases ht with
    | quoted hp =>
      simp only [List.cons_append, List.append_assoc]
      exact (reads_drop _ _).bind ((reads_skipString hp rest).bind (.pure true rest))
  | list _ => cases hs
  | object _ => cases hs

theorem reads_skipScalar?_bracket (cs : List Char) :
    Reads skipScalar? ('[' :: cs) (some false) ('[' :: cs) := by
  unfold skipScalar?
  exact (reads_peek _).bind ((reads_scalar?_bracket cs).bind (.pure false _))

theorem reads_skipScalar?_brace (cs : List Char) :
    Reads skipScalar? ('{' :: cs) (some false) ('{' :: cs) := by
  unfold skipScalar?
  exact (reads_peek _).bind ((reads_scalar?_brace cs).bind (.pure false _))

/-- The scan passes over every value that is written in at most `n` characters. -/
def SkipsUpTo (n : Nat) (item : Scan Unit) : Prop :=
  ∀ ⦃d : Tree⦄ ⦃b v rest : List Char⦄, Blank b → d.Writes v → v.length ≤ n → Boundary rest →
    Reads item (b ++ (v ++ rest)) (some ()) rest

theorem reads_skipItemsFrom {item : Scan Unit} {n : Nat} (hi : SkipsUpTo n item) {first : Bool}
    {ds : List Tree} {cs : List Char} (h : ItemsAt first ds cs) (hn : cs.length ≤ n) (fuel : Nat)
    (hf : ds.length < fuel) (rest : List Char) :
    Reads (skipItemsFrom item first fuel) (cs ++ ']' :: rest) (some ()) rest := by
  induction h generalizing fuel with
  | nil hb =>
    obtain ⟨k, rfl⟩ : ∃ k, fuel = k + 1 := ⟨fuel - 1, by omega⟩
    unfold skipItemsFrom
    exact (reads_skipSpace hb (.cons (by decide) rest)).bind ((reads_peek _).bind (reads_drop _ rest))
  | first hb hv ht ih =>
    obtain ⟨k, rfl⟩ : ∃ k, fuel = k + 1 := ⟨fuel - 1, by omega⟩
    simp only [List.length_append] at hn
    have hd := hi Blank.nil hv (by omega) (ht.boundary rest)
    have hr := ih (by omega) k (by simpa using hf)
    obtain ⟨c, v', rfl, hc⟩ := hv.opens
    unfold skipItemsFrom
    simp only [List.append_assoc]
    refine (reads_skipSpace hb (.cons hc.solid _)).bind ((reads_peek _).bind ?_)
    split
    · next he => cases he
    · next he => exact absurd (Option.some.inj he) hc.ne_bracket
    · exact hd.bind hr
  | next hb' hb hv ht ih =>
    obtain ⟨k, rfl⟩ : ∃ k, fuel = k + 1 := ⟨fuel - 1, by omega⟩
    simp only [List.length_append, List.length_cons] at hn
    have hd := hi hb hv (by omega) (ht.boundary rest)
    have hr := ih (by omega) k (by simpa using hf)
    unfold skipItemsFrom
    simp only [List.append_assoc, List.cons_append]
    exact (reads_skipSpace hb' (.cons (by decide) _)).bind ((reads_peek _).bind
      ((reads_drop _ _).bind (hd.bind hr)))

theorem reads_skipKey {k : Spelling} {b q b₁ : List Char} (hb : Blank b) (hq : k.Writes q)
    (hb₁ : Blank b₁) (rest : List Char) :
    Reads skipKey (b ++ (q ++ (b₁ ++ ':' :: rest))) (some ()) rest := by
  cases hq with
  | quoted hp =>
    unfold skipKey
    simp only [List.append_assoc, List.cons_append]
    exact (reads_skipSpace hb (.cons (by decide) _)).bind ((reads_peek _).bind
      ((reads_drop _ _).bind ((reads_skipString hp _).bind (reads_colon hb₁ rest))))

theorem reads_skipEntriesFrom {item : Scan Unit} {n : Nat} (hi : SkipsUpTo n item) {first : Bool}
    {es : List (Spelling × Tree)} {cs : List Char} (h : EntriesAt first es cs) (hn : cs.length ≤ n)
    (fuel : Nat) (hf : es.length < fuel) (rest : List Char) :
    Reads (skipEntriesFrom item first fuel) (cs ++ '}' :: rest) (some ()) rest := by
  induction h generalizing fuel with
  | nil hb =>
    obtain ⟨k, rfl⟩ : ∃ k, fuel = k + 1 := ⟨fuel - 1, by omega⟩
    unfold skipEntriesFrom
    exact (reads_skipSpace hb (.cons (by decide) rest)).bind ((reads_peek _).bind (reads_drop _ rest))
  | first hb hq hb₁ hb₂ hv ht ih =>
    obtain ⟨k, rfl⟩ : ∃ k, fuel = k + 1 := ⟨fuel - 1, by omega⟩
    simp only [List.length_append, List.length_cons] at hn
    have hk := reads_skipKey Blank.nil hq hb₁
    have hd := hi hb₂ hv (by omega) (ht.boundary rest)
    have hr := ih (by omega) k (by simpa using hf)
    unfold skipEntriesFrom
    simp only [List.append_assoc, List.cons_append]
    cases hq with
    | quoted =>
      exact (reads_skipSpace hb (.cons (by decide) _)).bind ((reads_peek _).bind
        ((hk _).bind (hd.bind hr)))
  | next hb' hb hq hb₁ hb₂ hv ht ih =>
    obtain ⟨k, rfl⟩ : ∃ k, fuel = k + 1 := ⟨fuel - 1, by omega⟩
    simp only [List.length_append, List.length_cons] at hn
    have hk := reads_skipKey hb hq hb₁
    have hd := hi hb₂ hv (by omega) (ht.boundary rest)
    have hr := ih (by omega) k (by simpa using hf)
    unfold skipEntriesFrom
    simp only [List.append_assoc, List.cons_append]
    exact (reads_skipSpace hb' (.cons (by decide) _)).bind ((reads_peek _).bind
      ((reads_drop _ _).bind ((hk _).bind (hd.bind hr))))

theorem skipsUpTo_skipValueFrom (n : Nat) : SkipsUpTo n (skipValueFrom n) := by
  induction n with
  | zero =>
    intro d b v rest hb hv hn hr
    have := hv.length_pos
    omega
  | succ n ih =>
    intro d b v rest hb hv hn hr
    unfold skipValueFrom
    by_cases hs : d.isScalar = true
    · have h := reads_skipScalar? hs hv hr
      obtain ⟨c, v', rfl, hc⟩ := hv.opens
      exact (reads_valueStart hb hc.solid).bind (h.bind (.pure () rest))
    · cases hv with
      | @list ds cs hw =>
        simp only [List.length_cons, List.length_append] at hn
        have hi := reads_skipItemsFrom ih hw.itemsAt (by omega) _ (hw.itemsAt.length_lt ']' rest) rest
        rw [List.cons_append, List.append_assoc]
        exact (reads_valueStart hb (by decide)).bind ((reads_skipScalar?_bracket _).bind
          ((reads_peek _).bind ((reads_drop _ _).bind (reads_bounded hi))))
      | @object es cs hw =>
        simp only [List.length_cons, List.length_append] at hn
        have hi := reads_skipEntriesFrom ih hw.entriesAt (by omega) _
          (hw.entriesAt.length_lt '}' rest) rest
        rw [List.cons_append, List.append_assoc]
        exact (reads_valueStart hb (by decide)).bind ((reads_skipScalar?_brace _).bind
          ((reads_peek _).bind ((reads_drop _ _).bind (reads_bounded hi))))
      | _ => exact absurd rfl hs

/-- Any well-formed value can be passed over, whatever its strings and numbers stand for. -/
theorem readsTree_skipValue (d : Tree) : ReadsTree skipValue d (some ()) := by
  intro b v rest hb hv hr
  refine reads_bounded (skipsUpTo_skipValueFrom _ hb hv ?_ hr)
  simp only [List.length_append]
  omega

end Scan
end InitializerLint.Json
