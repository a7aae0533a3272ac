import InitializerLint.Proofs.Yaml.Scan
import InitializerLint.Yaml.Token
import Mathlib.Data.List.InsertIdx

/-! Single tokens of collections written on one line. No block is ever open, so no possible key is
required and none is missed. -/
namespace InitializerLint.Yaml

namespace Lex

variable {α β : Type}

@[simp] theorem run_bind (x : Lex α) (f : α → Lex β) (s : Scanner) :
    (x >>= f) s = (x s).bind fun p => f p.1 p.2 := rfl

@[simp] theorem run_pure (a : α) (s : Scanner) : (pure a : Lex α) s = some (a, s) := rfl
@[simp] theorem run_get (s : Scanner) : (get : Lex Scanner) s = some (s, s) := rfl
@[simp] theorem run_set (s s' : Scanner) : (set s' : Lex Unit) s = some ((), s') := rfl

@[simp] theorem run_modify (f : Scanner → Scanner) (s : Scanner) :
    (modify f : Lex Unit) s = some ((), f s) := rfl

@[simp] theorem run_ite {p : Prop} [Decidable p] (x y : Lex α) (s : Scanner) :
    (if p then x else y) s = if p then x s else y s :=
  apply_ite (fun z : Lex α => z s) p x y

@[simp] theorem run_scan (x : Scan α) (s : Scanner) :
    scan x s = (x s.cursor).map fun p => (p.1, { s with cursor := p.2 }) := rfl

@[simp] theorem run_inFlow (s : Scanner) : inFlow s = some (decide (1 < s.keys.length), s) := rfl
@[simp] theorem run_mark (s : Scanner) : mark s = some (s.cursor.mark, s) := rfl
@[simp] theorem run_peek (n : Nat) (s : Scanner) : peek n s = some (s.cursor.peek n, s) := rfl

@[simp] theorem run_allowKey (b : Bool) (s : Scanner) :
    allowKey b s = some ((), { s with keyAllowed := b }) := rfl

@[simp] theorem run_push (kind : Token.Kind) (start stop : Mark) (s : Scanner) :
    push kind start stop s = some ((), { s with tokens := s.tokens.push ⟨kind, start, stop⟩ }) := rfl

@[simp] theorem run_insert (i : Nat) (kind : Token.Kind) (m : Mark) (s : Scanner) :
    insert i kind m s =
      some ((), { s with tokens := s.tokens.insertIdxIfInBounds i ⟨kind, m, m⟩ }) := rfl

@[simp] theorem run_indicator (kind : Token.Kind) (n : Nat) (s : Scanner) :
    indicator kind n s = some ((), { s with
      cursor := s.cursor.advance n
      tokens := s.tokens.push ⟨kind, s.cursor.mark, (s.cursor.advance n).mark⟩ }) := rfl

end Lex

/-- The state with stale keys given up. -/
def Scanner.fresh (s : Scanner) : Scanner :=
  { s with keys := s.keys.map (Option.filter fun k => !Lex.isStale s.cursor.mark k) }

/-- Between two tokens of a line: `height` collections are open, the tokens so far are of `kinds`,
and `cs` is left. -/
structure Stands (s : Scanner) (height : Nat) (allowed : Bool) (kinds : List Token.Kind)
    (cs : List Char) : Prop where
  rest : s.cursor.rest = cs
  kinds : s.tokens.toList.map (·.kind) = kinds
  keys : s.keys.length = height + 1
  optional : ∀ k ∈ s.keys, ∀ p ∈ k, p.required = false
  indent : s.indent = -1
  outer : s.outerIndents = []
  allowed : s.keyAllowed = allowed
  column : 0 < height → 0 < s.cursor.mark.column
  unfinished : s.finished = false

/-- The token before is a possible key that has not become stale. -/
structure Pends (s : Scanner) (k : PossibleKey) (ks : List (Option PossibleKey)) : Prop where
  keys : s.keys = some k :: ks
  index : k.index + 1 = s.tokens.size
  line : k.mark.line = s.cursor.mark.line
  near : s.cursor.mark.index ≤ k.mark.index + 1024

section

variable {s : Scanner} {height : Nat} {allowed : Bool} {kinds : List Token.Kind} {cs : List Char}
  {c : Char}

theorem Stands.fresh (h : Stands s height allowed kinds cs) :
    Stands s.fresh height allowed kinds cs := by
  refine { h with keys := by simpa [Scanner.fresh] using h.keys, optional := ?_ }
  intro k hk p hp
  obtain ⟨k', hk', rfl⟩ := List.mem_map.mp hk
  exact h.optional k' hk' p (Option.mem_filter_iff.mp hp).1

theorem Pends.fresh {k : PossibleKey} {ks : List (Option PossibleKey)} (h : Pends s k ks) :
    Pends s.fresh k (ks.map (Option.filter fun k => !Lex.isStale s.cursor.mark k)) := by
  have hstale : Lex.isStale s.cursor.mark k = false := by
    have hline := h.line
    have hnear := h.near
    simp only [Lex.isStale, Bool.or_eq_false_iff, decide_eq_false_iff_not]
    omega
  refine { h with keys := ?_ }
  simp [Scanner.fresh, h.keys, hstale]

namespace Lex

/-- Neither a blank nor the start of a comment or of a text. -/
def startsToken (c : Char) : Bool := !(isBlank c || isBreak c || c = '#' || c = '\uFEFF')

theorem skipToNext_eq (h : ∀ c ∈ s.cursor.rest.head?, startsToken c = true) :
    skipToNext s = some ((), s) := by
  have hpeek (c : Char) (hc : s.cursor.peek = some c) :
      ((isBlank c = false ∧ isBreak c = false) ∧ c ≠ '#') ∧ c ≠ '\uFEFF' := by
    rw [Cursor.peek, ← List.head?_eq_getElem?] at hc
    simpa [startsToken, and_assoc] using h c hc
  have hspaces (p : Char → Bool) (hp : ∀ c, isBlank c = false → p c = false) :
      Scan.takeWhile p s.cursor = some ([], s.cursor) := by
    have htake : s.cursor.rest.takeWhile p = [] := by
      cases hrest : s.cursor.rest with
      | nil => rfl
      | cons c cs =>
        have hblank := (hpeek c (by simp [Cursor.peek, hrest])).1.1.1
        simp [hp c hblank]
    simp only [Scan.takeWhile, Cursor.skipWhile, htake]
    rfl
  have hcomment : Scan.skipComment s.cursor = some ((), s.cursor) := by
    change (if s.cursor.peek = some '#' then (do let _ ← Scan.takeWhile (!isBreak ·)) else pure ())
      s.cursor = _
    rw [if_neg fun hhash => (hpeek '#' hhash).1.2 rfl]
    rfl
  have hmark : s.cursor.peek ≠ some '\uFEFF' := fun hmark => (hpeek _ hmark).2 rfl
  have hbreak : s.cursor.peek.any isBreak = false := by
    cases hc : s.cursor.peek with
    | none => rfl
    | some c => exact (hpeek c hc).1.1.2
  have htabs (tabs : Bool) : Scan.takeWhile (fun c => c = ' ' || (tabs && c = '\t')) s.cursor =
      some ([], s.cursor) := by
    refine hspaces _ fun c hc => ?_
    simp only [isBlank, Bool.or_eq_false_iff] at hc
    simp [hc.1, hc.2]
  unfold skipToNext skipToNextFrom
  simp [hmark, htabs, hcomment, hbreak]

theorem dropStaleKeys_eq (h : ∀ k ∈ s.keys, ∀ p ∈ k, p.required = false) :
    dropStaleKeys s = some ((), s.fresh) := by
  have hany : (s.keys.any fun k => k.any fun k => isStale s.cursor.mark k && k.required) = false := by
    rw [List.any_eq_false]
    intro k hk
    cases k with
    | none => simp
    | some p => simp [h _ hk p rfl]
  unfold dropStaleKeys
  simp only [run_bind, run_get, Option.bind_some, run_ite, hany, Bool.false_eq_true, if_false, run_set]
  rfl

theorem unroll_eq (h : s.outerIndents = []) (column : Int) : unroll column s = some ((), s) := by
  unfold unroll
  by_cases hk : 1 < s.keys.length <;> simp [hk, h, unrollFrom]

theorem forgetKey_eq {k : Option PossibleKey} {ks : List (Option PossibleKey)} (h : s.keys = k :: ks)
    (hk : ∀ p ∈ k, p.required = false) : forgetKey s = some ((), { s with keys := none :: ks }) := by
  unfold forgetKey
  cases k with
  | none =>
    simp only [run_bind, run_get, Option.bind_some, h, run_pure]
    rw [← h]
  | some p => simp [h, hk p rfl]

/-- Outside blocks a saved key is never required. -/
theorem saveKey_eq (h : Stands s height allowed kinds cs) {k : Option PossibleKey}
    {ks : List (Option PossibleKey)} (hk : s.keys = k :: ks) :
    saveKey s = some ((), { s with
      keys := (if allowed then some ⟨false, s.tokens.size, s.cursor.mark⟩ else k) :: ks }) := by
  have hforget := forgetKey_eq hk (h.optional k (by simp [hk]))
  have hindent : (s.indent = s.cursor.mark.column) = False := by
    rw [h.indent]
    exact eq_false (by omega)
  unfold saveKey
  cases allowed with
  | true => simp [h.allowed, hforget, hindent]
  | false =>
    simp only [run_bind, run_get, Option.bind_some, h.allowed, Bool.false_eq_true, if_false, run_pure]
    rw [← hk, ← h.allowed]

section fetch

private theorem toNat_lt_of_isAlphanum (hc : c.isAlphanum = true) : c.toNat < 128 := by
  change ((decide (65 ≤ c.val ∧ c.val ≤ 90) || (97 ≤ c.val && c.val ≤ 122)) ||
    (48 ≤ c.val && c.val ≤ 57)) = true at hc
  simp only [Bool.or_eq_true, Bool.and_eq_true, decide_eq_true_eq, UInt32.le_iff_toNat_le] at hc
  change c.val.toNat < 128
  rcases hc with (⟨_, h⟩ | ⟨_, h⟩) | ⟨_, h⟩ <;> exact Nat.lt_of_le_of_lt h (by decide)

/-- Letters and digits have no meaning of their own between tokens. -/
theorem isIndicator_of_isAlphanum (hc : c.isAlphanum = true) :
    Scan.continuesPlain c = true ∧ isIndicator c = false := by
  have hall : ∀ n < 128, (Char.ofNat n).isAlphanum = true →
      Scan.continuesPlain (.ofNat n) = true ∧ isIndicator (.ofNat n) = false := by decide +kernel
  have h := hall c.toNat (toNat_lt_of_isAlphanum hc)
  rw [Char.ofNat_toNat] at h
  exact h hc

/-- What comes before the choice by the next character. -/
private theorem before_choice (h : Stands s height allowed kinds cs)
    (hc : ∀ c ∈ cs.head?, startsToken c = true) :
    skipToNext s = some ((), s) ∧ dropStaleKeys s = some ((), s.fresh) ∧
      (∀ column, unroll column s.fresh = some ((), s.fresh)) ∧ s.fresh.cursor.peek = cs.head? := by
  refine ⟨skipToNext_eq ?_, dropStaleKeys_eq h.optional, unroll_eq h.fresh.outer, ?_⟩
  · rwa [h.rest]
  · rw [Cursor.peek, h.fresh.rest, List.head?_eq_getElem?]

theorem fetch_eq_of_mem {x : Lex Unit} (h : Stands s height allowed kinds (c :: cs))
    (hx : (c, x) ∈ [('[', flowStart .flowSequenceStart), ('{', flowStart .flowMappingStart),
      (']', flowEnd .flowSequenceEnd), ('}', flowEnd .flowMappingEnd), (',', flowEntry)]) :
    fetch s = x s.fresh := by
  simp only [List.mem_cons, Prod.mk.injEq, List.not_mem_nil, or_false] at hx
  rcases hx with ⟨rfl, rfl⟩ | ⟨rfl, rfl⟩ | ⟨rfl, rfl⟩ | ⟨rfl, rfl⟩ | ⟨rfl, rfl⟩
  all_goals
    obtain ⟨hskip, hdrop, hunroll, hpeek⟩ := before_choice h (by simp [startsToken, isBlank, isBreak])
    simp [fetch, hskip, hdrop, hunroll, hpeek, Cursor.atDocumentMark, h.fresh.rest]

theorem fetch_value (h : Stands s height allowed kinds (':' :: cs)) (hh : 0 < height) :
    fetch s = value s.fresh := by
  obtain ⟨hskip, hdrop, hunroll, hpeek⟩ := before_choice h (by simp [startsToken, isBlank, isBreak])
  have hflow : 1 < s.fresh.keys.length := by
    rw [h.fresh.keys]
    omega
  simp [fetch, hskip, hdrop, hunroll, hpeek, Cursor.atDocumentMark, h.fresh.rest, hflow]

theorem fetch_quoted (h : Stands s height allowed kinds ('"' :: cs)) :
    fetch s = node (content (.scalar .doubleQuoted) (Scan.quoted '"')) s.fresh := by
  obtain ⟨hskip, hdrop, hunroll, hpeek⟩ := before_choice h (by simp [startsToken, isBlank, isBreak])
  simp [fetch, hskip, hdrop, hunroll, hpeek, Cursor.atDocumentMark, h.fresh.rest]

theorem fetch_plain (h : Stands s height allowed kinds (c :: cs)) (hc : c.isAlphanum = true) :
    fetch s = node plainScalar s.fresh := by
  have hne (x : Char) (hx : x.isAlphanum = false) : c ≠ x := by
    rintro rfl
    rw [hc] at hx
    cases hx
  obtain ⟨hcont, hind⟩ := isIndicator_of_isAlphanum hc
  obtain ⟨hb, hk, -, hh, -⟩ := Scan.continuesPlain_iff.mp hcont
  obtain ⟨hskip, hdrop, hunroll, hpeek⟩ := before_choice h
    (by simp [startsToken, hb, hk, hh, hne '\uFEFF' (by decide)])
  have hstarts (flow : Bool) (next : Option Char) : startsPlain flow c next = true := by
    simp [startsPlain, hb, hk, hind]
  simp [fetch, hskip, hdrop, hunroll, hpeek, Cursor.atDocumentMark, h.fresh.rest, hne, hstarts]

theorem fetch_end (h : Stands s height allowed kinds []) : fetch s = streamEnd s.fresh := by
  obtain ⟨hskip, hdrop, hunroll, hpeek⟩ := before_choice h (by simp)
  simp [fetch, hskip, hdrop, hunroll, hpeek]

end fetch

section moves

/-- An indicator of one character was passed. -/
private theorem Stands.indicator {t : Scanner} {kind : Token.Kind} {keys : List (Option PossibleKey)}
    {height' : Nat} {allowed' : Bool} (h : Stands s height allowed kinds (c :: cs))
    (ht : t = { s with keys := keys, keyAllowed := allowed' }) (hlen : keys.length = height' + 1)
    (hopt : ∀ k ∈ keys, ∀ p ∈ k, p.required = false) :
    ∃ s', Lex.indicator kind 1 t = some ((), s') ∧ Stands s' height' allowed' (kinds ++ [kind]) cs := by
  subst ht
  refine ⟨_, run_indicator .., ?_⟩
  exact {
    rest := by simp [Cursor.advance, h.rest]
    kinds := by simp [h.kinds]
    keys := hlen
    optional := hopt
    indent := h.indent
    outer := h.outer
    allowed := rfl
    column := fun _ => by simp [Cursor.advance]
    unfinished := h.unfinished }

private theorem Stands.exists_keys (h : Stands s height allowed kinds cs) :
    ∃ k ks, s.keys = k :: ks ∧ ks.length = height ∧ (∀ p ∈ k, p.required = false) ∧
      ∀ k' ∈ ks, ∀ p ∈ k', p.required = false := by
  obtain ⟨k, ks, hk⟩ := List.exists_cons_of_length_eq_add_one h.keys
  have hlen := h.keys
  have hopt := h.optional
  rw [hk, List.forall_mem_cons] at hopt
  rw [hk, List.length_cons] at hlen
  exact ⟨k, ks, hk, by omega, hopt⟩

theorem moves_flowStart (h : Stands s height allowed kinds (c :: cs)) (kind : Token.Kind) :
    ∃ s', flowStart kind s = some ((), s') ∧ Stands s' (height + 1) true (kinds ++ [kind]) cs := by
  obtain ⟨k, ks, hk, hlen, hfirst, hopt⟩ := Stands.exists_keys h
  have hsaved : ∀ p ∈ (if allowed then some ⟨false, s.tokens.size, s.cursor.mark⟩ else k),
      p.required = false := by
    cases allowed with
    | true => simp
    | false => simpa using hfirst
  unfold flowStart
  simp only [run_bind, saveKey_eq h hk, Option.bind_some, run_modify]
  refine Stands.indicator h rfl (by simp [hlen]) ?_
  simpa using ⟨hsaved, hopt⟩

theorem moves_flowEnd (h : Stands s (height + 1) allowed kinds (c :: cs)) (kind : Token.Kind) :
    ∃ s', flowEnd kind s = some ((), s') ∧ Stands s' height false (kinds ++ [kind]) cs := by
  obtain ⟨k, ks, hk, hlen, hfirst, hopt⟩ := Stands.exists_keys h
  unfold flowEnd
  simp only [run_bind, forgetKey_eq hk hfirst, Option.bind_some, run_modify]
  refine Stands.indicator h rfl ?_ ?_
  · simp [hlen]
  · simpa [hlen] using hopt

theorem moves_flowEntry (h : Stands s height allowed kinds (c :: cs)) :
    ∃ s', flowEntry s = some ((), s') ∧ Stands s' height true (kinds ++ [.flowEntry]) cs := by
  obtain ⟨k, ks, hk, hlen, hfirst, hopt⟩ := Stands.exists_keys h
  unfold flowEntry
  simp only [run_bind, forgetKey_eq hk hfirst, Option.bind_some, run_allowKey]
  refine Stands.indicator h rfl (by simp [hlen]) ?_
  simpa using hopt

section scalar

variable {w : List Char} {kind : Token.Kind}

/-- The state after a scalar, which may be a key if one was allowed. -/
private def afterScalar (s : Scanner) (kind : Token.Kind) (w cs : List Char) (allowed : Bool)
    (k : Option PossibleKey) (ks : List (Option PossibleKey)) : Scanner :=
  { s with
    cursor := ⟨cs, s.cursor.mark.after w⟩
    tokens := s.tokens.push ⟨kind, s.cursor.mark, s.cursor.mark.after w⟩
    keys := (if allowed then some ⟨false, s.tokens.size, s.cursor.mark⟩ else k) :: ks
    keyAllowed := false }

private theorem stands_afterScalar (h : Stands s height allowed kinds (w ++ cs)) (hh : 0 < height)
    {k : Option PossibleKey} {ks : List (Option PossibleKey)} (hk : s.keys = k :: ks) :
    Stands (afterScalar s kind w cs allowed k ks) height false (kinds ++ [kind]) cs := by
  have hopt := h.optional
  have hlen := h.keys
  rw [hk, List.forall_mem_cons] at hopt
  rw [hk] at hlen
  exact {
    rest := rfl
    kinds := by simp [afterScalar, h.kinds]
    keys := hlen
    optional := by
      refine List.forall_mem_cons.mpr ⟨?_, hopt.2⟩
      cases allowed with
      | true => simp
      | false => exact hopt.1
    indent := h.indent
    outer := h.outer
    allowed := rfl
    column := fun _ => Nat.lt_of_lt_of_le (h.column hh) (Nat.le_add_right ..)
    unfinished := h.unfinished }

/-- What both kinds of scalars do, given how their text is taken. -/
theorem moves_quoted {t : String} (h : Stands s height allowed kinds (Json.Document.quote t ++ cs))
    (hh : 0 < height) (ht : ∀ c ∈ t.toList, c.toNat ≤ 0x7E) :
    ∃ s', node (content (.scalar .doubleQuoted) (Scan.quoted '"')) s = some ((), s') ∧
      Stands s' height false (kinds ++ [.scalar .doubleQuoted t.toList]) cs ∧
      (allowed = true → Text.byteLength (Json.Document.quote t) ≤ 1024 → ∃ k ks, Pends s' k ks) := by
  obtain ⟨k, ks, hk⟩ := List.exists_cons_of_length_eq_add_one h.keys
  have hscan : Scan.quoted '"' s.cursor =
      some (t.toList, ⟨cs, s.cursor.mark.after (Json.Document.quote t)⟩) := by
    have htakes := Scan.takes_quoted ht cs s.cursor.mark (h.column hh)
    rwa [← h.rest] at htakes
  refine ⟨afterScalar s _ (Json.Document.quote t) cs allowed k ks, ?_, stands_afterScalar h hh hk, ?_⟩
  · unfold node content
    simp only [run_bind, saveKey_eq h hk, Option.bind_some, run_allowKey, run_mark, run_scan, hscan,
      Option.map_some, run_push]
    rfl
  · rintro rfl hshort
    exact ⟨_, _, ⟨rfl, by simp [afterScalar], rfl, Nat.add_le_add_left hshort _⟩⟩

theorem moves_plain (h : Stands s height allowed kinds (w ++ cs)) (hh : 0 < height) (hne : w ≠ [])
    (hw : ∀ c ∈ w, c.isAlphanum = true) (hcs : Scan.PlainEnds cs) :
    ∃ s', node plainScalar s = some ((), s') ∧
      Stands s' height false (kinds ++ [.scalar .plain w]) cs := by
  obtain ⟨k, ks, hk⟩ := List.exists_cons_of_length_eq_add_one h.keys
  have hflow (k : Option PossibleKey) : decide (1 < (k :: ks).length) = true := by
    have hlen := h.keys
    rw [hk, List.length_cons] at hlen
    simp only [List.length_cons, decide_eq_true_eq]
    omega
  have hscan : Scan.plain true (s.indent + 1).toNat s.cursor =
      some ((w, false), ⟨cs, s.cursor.mark.after w⟩) := by
    have htakes := Scan.takes_plain hne (fun c hc => (isIndicator_of_isAlphanum (hw c hc)).1) hcs
      (s.indent + 1).toNat s.cursor.mark (h.column hh)
    rwa [← h.rest] at htakes
  refine ⟨afterScalar s _ w cs allowed k ks, ?_, stands_afterScalar h hh hk⟩
  unfold node plainScalar
  simp only [run_bind, saveKey_eq h hk, Option.bind_some, run_allowKey, run_inFlow, run_get, hflow,
    run_mark, run_scan, hscan, Option.map_some, run_push, Bool.false_eq_true, if_false, run_pure]
  rfl

end scalar

private theorem insertIdx_before_last {α : Type} (xs : List α) (x a : α) :
    (xs ++ [a]).insertIdx xs.length x = xs ++ [x, a] := by
  induction xs with
  | nil => rfl
  | cons b xs ih => rw [List.cons_append, List.length_cons, List.insertIdx_succ_cons, ih, List.cons_append]

/-- What is put in front of the last token. -/
private theorem kinds_insert {ts : Array Token} {t : Token} {kind : Token.Kind} {i : Nat}
    (h : ts.toList.map (·.kind) = kinds ++ [kind]) (hi : i + 1 = ts.size) :
    (ts.insertIdxIfInBounds i t).toList.map (·.kind) = kinds ++ [t.kind, kind] := by
  have hlen : kinds.length = i := by
    have hsize := congrArg List.length h
    simp only [List.length_map, Array.length_toList, List.length_append, List.length_singleton] at hsize
    omega
  rw [Array.insertIdxIfInBounds, dif_pos (by omega), Array.toList_insertIdx, List.map_insertIdx, h,
    ← hlen, insertIdx_before_last]

/-- The token before turns out to be a key. -/
theorem moves_value {k : PossibleKey} {ks : List (Option PossibleKey)} {kind : Token.Kind}
    (h : Stands s height allowed (kinds ++ [kind]) (c :: cs)) (hh : 0 < height) (hp : Pends s k ks) :
    ∃ s', value s = some ((), s') ∧ Stands s' height false (kinds ++ [.key, kind, .value]) cs := by
  have hopt := h.optional
  have hlen := h.keys
  rw [hp.keys, List.forall_mem_cons] at hopt
  rw [hp.keys, List.length_cons] at hlen
  let announced : Scanner :=
    { s with tokens := s.tokens.insertIdxIfInBounds k.index ⟨.key, k.mark, k.mark⟩ }
  have hkinds : announced.tokens.toList.map (·.kind) = kinds ++ [.key, kind] :=
    kinds_insert h.kinds hp.index
  have hstands : Stands announced height allowed (kinds ++ [.key, kind]) (c :: cs) :=
    { h with kinds := hkinds }
  let unsaved : Scanner := { announced with keys := none :: ks, keyAllowed := false }
  obtain ⟨s', hs', hend⟩ : ∃ s', indicator .value 1 unsaved = some ((), s') ∧
      Stands s' height false ((kinds ++ [.key, kind]) ++ [.value]) cs := by
    refine Stands.indicator hstands rfl ?_ (List.forall_mem_cons.mpr ⟨by simp, hopt.2⟩)
    exact hlen
  have hflow : decide (1 < (some k :: ks).length) = true := by
    rw [List.length_cons, hlen]
    simpa using hh
  refine ⟨s', ?_, ?_⟩
  · unfold value roll
    simp only [run_bind, run_get, Option.bind_some, hp.keys, run_insert, run_inFlow, run_ite, hflow,
      Bool.not_true, Bool.false_and, Bool.false_eq_true, if_false, run_pure, run_modify, run_allowKey]
    exact hs'
  · rwa [List.append_assoc] at hend

theorem moves_streamEnd (h : Stands s height allowed kinds cs) :
    ∃ s', streamEnd s = some ((), s') ∧ s'.finished = true ∧
      s'.tokens.toList.map (·.kind) = kinds ++ [.streamEnd] ∧
      ∀ k ∈ s'.keys, ∀ p ∈ k, p.required = false := by
  obtain ⟨k, ks, hk, -, hfirst, hopt⟩ := Stands.exists_keys h
  -- the end counts as a line of its own
  obtain ⟨cursor, hmoved⟩ : ∃ cursor, (if s.cursor.mark.column = 0 then s else
      { s with cursor := { s.cursor with
        mark := ⟨s.cursor.mark.index, s.cursor.mark.line + 1, 0⟩ } }) =
      { s with cursor := cursor } := by
    split
    · exact ⟨s.cursor, rfl⟩
    · exact ⟨_, rfl⟩
  have hunroll : unroll (-1) { s with cursor := cursor } = some ((), { s with cursor := cursor }) :=
    unroll_eq (s := { s with cursor := cursor }) h.outer (-1)
  have hforget : forgetKey { s with cursor := cursor } =
      some ((), { s with cursor := cursor, keys := none :: ks }) :=
    forgetKey_eq (s := { s with cursor := cursor }) hk hfirst
  let ended : Scanner := { s with
    cursor := cursor
    keys := none :: ks
    keyAllowed := false
    tokens := s.tokens.push ⟨.streamEnd, cursor.mark, cursor.mark⟩
    finished := true }
  refine ⟨ended, ?_, rfl, by simp [ended, h.kinds], List.forall_mem_cons.mpr ⟨by simp, hopt⟩⟩
  unfold streamEnd pushHere
  simp only [run_bind, run_modify, Option.bind_some, hmoved, hunroll, hforget, run_allowKey,
    run_mark, run_push]
  rfl

end moves

end Lex
end
end InitializerLint.Yaml
