import InitializerLint.Json.Document
import InitializerLint.Yaml.Flow

/-! Scalars of one line: what stands between quotes with the escapes of a JSON string, and a plain
word inside a collection. -/
namespace InitializerLint.Yaml

/-- The place after some characters of a line. -/
def Mark.after (m : Mark) (cs : List Char) : Mark :=
  { m with index := m.index + Text.byteLength cs, column := m.column + cs.length }

theorem byteLength_append (cs ds : List Char) :
    Text.byteLength (cs ++ ds) = Text.byteLength cs + Text.byteLength ds := by
  induction cs with
  | nil => simp [Text.byteLength]
  | cons c cs ih =>
    rw [List.cons_append, Text.byteLength, Text.byteLength, ih]
    omega

@[simp] theorem Mark.after_after (m : Mark) (cs ds : List Char) :
    (m.after cs).after ds = m.after (cs ++ ds) := by
  simp only [after, byteLength_append, List.length_append, Nat.add_assoc]

theorem Cursor.not_atDocumentBoundary {c : Cursor} (h : 0 < c.mark.column) :
    c.atDocumentBoundary = false := by
  have hc : (c.mark.column = 0) = False := eq_false (Nat.ne_of_gt h)
  simp [atDocumentBoundary, atDocumentMark, hc]

theorem length_le_flatMap {α β : Type} {f : α → List β} (h : ∀ a, f a ≠ []) (as : List α) :
    as.length ≤ (as.flatMap f).length := by
  induction as with
  | nil => exact Nat.le_refl 0
  | cons a as ih =>
    have ha := List.length_pos_iff.mpr (h a)
    rw [List.flatMap_cons, List.length_append, List.length_cons]
    omega

namespace Scan

variable {α β : Type}

/-- Past the start of a line, the scan takes `cs` for `a` if `rest` follows. -/
def Takes (x : Scan α) (cs rest : List Char) (a : α) : Prop :=
  ∀ m : Mark, 0 < m.column → x ⟨cs ++ rest, m⟩ = some (a, ⟨rest, m.after cs⟩)

namespace Takes

variable {x : Scan α} {f : α → Scan β} {cs ds rest : List Char} {a : α} {b : β}

theorem pure (a : α) (rest : List Char) : Takes (Pure.pure a) [] rest a := fun _ _ => rfl

theorem bind (h : Takes x cs (ds ++ rest) a) (hf : Takes (f a) ds rest b) :
    Takes (x >>= f) (cs ++ ds) rest b := by
  intro m hm
  have hx := h m hm
  have hfa := hf (m.after cs) (by simp only [Mark.after]; omega)
  rw [Mark.after_after] at hfa
  rw [List.append_assoc]
  change Option.bind (x ⟨cs ++ (ds ++ rest), m⟩) (fun p => f p.1 p.2) = _
  rw [hx]
  exact hfa

/-- A look ahead takes nothing. -/
theorem look (h : Takes x [] (ds ++ rest) a) (hf : Takes (f a) ds rest b) :
    Takes (x >>= f) ds rest b := h.bind hf

theorem last (h : Takes x cs rest a) (hf : Takes (f a) [] rest b) : Takes (x >>= f) cs rest b := by
  rw [← List.append_nil cs]
  exact bind h hf

theorem map (g : α → β) (h : Takes x cs rest a) : Takes (do return g (← x)) cs rest (g a) :=
  h.last (Takes.pure (g a) rest)

end Takes

theorem takes_peek (cs : List Char) (ahead : Nat) : Takes (peek ahead) [] cs cs[ahead]? :=
  fun _ _ => rfl

theorem takes_skip (c : Char) (rest : List Char) : Takes skip [c] rest () := fun _ _ => rfl

theorem Takes.bounded {loop : Nat → Scan α} {cs rest : List Char} {a : α}
    (h : ∀ n, cs.length + rest.length < n → Takes (loop n) cs rest a) :
    Takes (bounded loop) cs rest a := by
  intro m hm
  refine h _ ?_ m hm
  simp

/-- Where the scan starts is known to be inside a line. -/
theorem Takes.cursor {f : Cursor → Scan β} {cs rest : List Char} {b : β}
    (h : ∀ m : Mark, 0 < m.column → f ⟨cs ++ rest, m⟩ ⟨cs ++ rest, m⟩ = some (b, ⟨rest, m.after cs⟩)) :
    Takes (Scan.cursor >>= f) cs rest b := h

section escapes

theorem takes_escape_simple {x : Char} {n : Nat} (h : simpleEscape? x = some n) (rest : List Char) :
    Takes escape [x] rest (Char.ofNat n) := by
  refine Takes.look (takes_peek _ 0) ?_
  simp only [List.cons_append, List.nil_append, List.getElem?_cons_zero, h]
  exact (takes_skip x rest).map fun _ => Char.ofNat n

theorem takes_hexDigit {d : Nat} (hd : d < 16) {n v w : Nat} {cs rest : List Char}
    (h : Takes (hexNumber n (16 * v + d)) cs rest w) :
    Takes (hexNumber (n + 1) v) (Json.Document.hexDigit d :: cs) rest w := by
  have hv : hexValue? (Json.Document.hexDigit d) = some d := by
    have hall : ∀ d < 16, hexValue? (Json.Document.hexDigit d) = some d := by decide
    exact hall d hd
  refine Takes.look (takes_peek _ 0) ?_
  simp only [List.cons_append, List.getElem?_cons_zero, Option.bind_some, hv]
  exact (takes_skip _ _).bind h

theorem takes_escape_unit {n : Nat} (hn : n < 0x20) (rest : List Char) :
    Takes escape ['u', '0', '0', Json.Document.hexDigit (n / 16), Json.Document.hexDigit (n % 16)]
      rest (Char.ofNat n) := by
  have hdigits : Takes (hexNumber 4 0)
      ['0', '0', Json.Document.hexDigit (n / 16), Json.Document.hexDigit (n % 16)] rest n := by
    refine takes_hexDigit (d := 0) (by decide) (takes_hexDigit (d := 0) (by decide)
      (takes_hexDigit (by omega) (takes_hexDigit (by omega) ?_)))
    have hval : 16 * (16 * (16 * (16 * 0 + 0) + 0) + n / 16) + n % 16 = n := by omega
    rw [hval]
    exact Takes.pure n rest
  refine Takes.look (takes_peek _ 0) ?_
  refine (takes_skip 'u' _).bind ?_
  have hvalid : ((decide (0xD800 ≤ n) && decide (n ≤ 0xDFFF)) || decide (0x10FFFF < n)) = false := by
    simp only [Bool.or_eq_false_iff, Bool.and_eq_false_iff, decide_eq_false_iff_not]
    omega
  refine hdigits.last ?_
  simp only [hvalid]
  exact Takes.pure _ rest

end escapes

section quotes

variable {n : Nat} {cs rest w : List Char} {c : Char}

private theorem takes_prepend (c : Char) (h : Takes (quotedWordFrom '"' n) cs rest (w, false)) :
    Takes (do quotedWordFrom.prepend c (← quotedWordFrom '"' n)) cs rest (c :: w, false) :=
  h.map fun w : List Char × Bool => (c :: w.1, w.2)

theorem takes_quotedWord_char (hb : isBlank c = false) (hn : isBreak c = false) (hq : c ≠ '"')
    (he : c ≠ '\\') (h : Takes (quotedWordFrom '"' n) cs rest (w, false)) :
    Takes (quotedWordFrom '"' (n + 1)) (c :: cs) rest (c :: w, false) := by
  refine Takes.look (takes_peek _ 0) (Takes.look (takes_peek _ 1) ?_)
  simp only [List.cons_append, List.getElem?_cons_zero, hb, hn, hq, he]
  exact (takes_skip c _).bind (takes_prepend c h)

theorem takes_quotedWord_escape {e : List Char} (hn : ∀ x ∈ e.head?, isBreak x = false) (hne : e ≠ [])
    (he : Takes escape e (cs ++ rest) c) (h : Takes (quotedWordFrom '"' n) cs rest (w, false)) :
    Takes (quotedWordFrom '"' (n + 1)) ('\\' :: (e ++ cs)) rest (c :: w, false) := by
  obtain ⟨x, e, rfl⟩ := List.exists_cons_of_ne_nil hne
  have hx : isBreak x = false := hn x rfl
  refine Takes.look (takes_peek _ 0) (Takes.look (takes_peek _ 1) ?_)
  simp only [List.cons_append, List.getElem?_cons_zero, List.getElem?_cons_succ, Option.any_some, hx]
  exact (takes_skip '\\' _).bind (he.bind (takes_prepend c h))

private theorem isText_of_le (hl : 0x20 ≤ c.toNat) (hc : c.toNat ≤ 0x7E) (hs : c ≠ ' ') :
    isBlank c = false ∧ isBreak c = false := by
  have hne (d : Char) (hd : d.toNat < 0x20) : c ≠ d := by
    rintro rfl
    omega
  constructor
  · simp [isBlank, hs, hne '\t' (by decide)]
  · have h1 : c.toNat ≠ 0x85 := by omega
    have h2 : c.toNat ≠ 0x2028 := by omega
    have h3 : c.toNat ≠ 0x2029 := by omega
    simp [isBreak, h1, h2, h3, hne '\r' (by decide), hne '\n' (by decide)]

/-- Each character is taken from its escape; only a space is left to a gap. -/
theorem takes_quotedWord_escapeChar (hc : c.toNat ≤ 0x7E) (hs : c ≠ ' ')
    (h : Takes (quotedWordFrom '"' n) cs rest (w, false)) :
    Takes (quotedWordFrom '"' (n + 1)) (Json.Document.escapeChar c ++ cs) rest (c :: w, false) := by
  have hshort {x : Char} {k : Nat} (hx : simpleEscape? x = some k) (hn : isBreak x = false) :
      Takes (quotedWordFrom '"' (n + 1)) ('\\' :: ([x] ++ cs)) rest (Char.ofNat k :: w, false) :=
    takes_quotedWord_escape (by simpa using hn) (by simp) (takes_escape_simple hx _) h
  unfold Json.Document.escapeChar
  split
  case h_8 hq hb _ _ _ _ _ =>
    split
    · next hlt =>
      have hunit := takes_escape_unit hlt (cs ++ rest)
      rw [Char.ofNat_toNat] at hunit
      exact takes_quotedWord_escape (by simp [isBreak]) (by simp) hunit h
    · next hlt =>
      obtain ⟨hblank, hbreak⟩ := isText_of_le (Nat.not_lt.mp hlt) hc hs
      exact takes_quotedWord_char hblank hbreak hq hb h
  all_goals exact hshort (by rfl) (by decide)

/-- A word ends before a space or the closing quote. -/
theorem takes_quotedWord (hw : ∀ c ∈ w, c.toNat ≤ 0x7E ∧ c ≠ ' ')
    (hrest : rest.head? = some ' ' ∨ rest.head? = some '"') (hn : w.length < n) :
    Takes (quotedWordFrom '"' n) (w.flatMap Json.Document.escapeChar) rest (w, false) := by
  induction w generalizing n with
  | nil =>
    obtain ⟨n, rfl⟩ : ∃ k, n = k + 1 := ⟨n - 1, by omega⟩
    refine Takes.look (takes_peek _ 0) (Takes.look (takes_peek _ 1) ?_)
    rw [← List.head?_eq_getElem?]
    rcases hrest with h | h <;> simp only [List.flatMap_nil, List.nil_append, h]
    · exact Takes.pure _ rest
    · exact Takes.pure _ rest
  | cons c w ih =>
    obtain ⟨n, rfl⟩ : ∃ k, n = k + 1 := ⟨n - 1, by omega⟩
    obtain ⟨⟨hc, hs⟩, hw⟩ := List.forall_mem_cons.mp hw
    exact takes_quotedWord_escapeChar hc hs (ih hw (by simpa using hn))

theorem takes_spaces (hrest : ∀ c ∈ rest.head?, isBlank c = false ∧ isBreak c = false) {k : Nat}
    (hn : k < n) (acc : List Char) :
    Takes (gapFrom 0 { spaces := acc } n) (List.replicate k ' ') rest
      { spaces := acc ++ List.replicate k ' ' } := by
  induction k generalizing n acc with
  | zero =>
    obtain ⟨n, rfl⟩ : ∃ k, n = k + 1 := ⟨n - 1, by omega⟩
    refine Takes.cursor fun m hm => ?_
    cases rest with
    | nil => simp [Cursor.peek]; rfl
    | cons c rest =>
      obtain ⟨hb, hk⟩ := hrest c rfl
      simp [Cursor.peek, hb, hk]
      rfl
  | succ k ih =>
    obtain ⟨n, rfl⟩ : ∃ k, n = k + 1 := ⟨n - 1, by omega⟩
    have hnext := ih (n := n) (by omega) (acc ++ [' '])
    have hstep := (takes_skip ' ' (List.replicate k ' ' ++ rest)).bind (f := fun _ => gapFrom 0
      { spaces := acc ++ [' '] } n) hnext
    rw [List.append_assoc] at hstep
    refine Takes.cursor fun m hm => ?_
    have hpeek : (⟨List.replicate (k + 1) ' ' ++ rest, m⟩ : Cursor).peek = some ' ' := rfl
    have hblank : isBlank ' ' = true := by decide
    simp only [hpeek, hblank]
    exact hstep m hm

theorem takes_gap (hrest : ∀ c ∈ rest.head?, isBlank c = false ∧ isBreak c = false) (k : Nat) :
    Takes (gap 0 {}) (List.replicate k ' ') rest { spaces := List.replicate k ' ' } := by
  refine Takes.bounded fun n hn => ?_
  rw [List.length_replicate] at hn
  exact takes_spaces hrest (by omega) []

section rounds

variable {text out : List Char}

/-- One round reads a word; the closing quote ends the scalar, spaces lead to the next round. -/
private theorem takes_round (hne : cs ≠ [])
    (h : Takes (do
      let (word, escapedBreak) ← bounded (quotedWordFrom '"')
      if (← peek) = some '"' then do
        skip
        return text ++ word
      else do
        let g ← gap 0 { folded := escapedBreak }
        quotedFrom '"' (text ++ word ++ g.text) n) cs rest out) :
    Takes (quotedFrom '"' text (n + 1)) cs rest out := by
  refine Takes.cursor fun m hm => ?_
  have hrest : (cs ++ rest).isEmpty = false := by simp [hne]
  simp only [Cursor.not_atDocumentBoundary (c := ⟨cs ++ rest, m⟩) hm, hrest]
  exact h m hm

private theorem escapeChar_ne_nil (c : Char) : Json.Document.escapeChar c ≠ [] := by
  unfold Json.Document.escapeChar
  split <;> (try split) <;> simp

private theorem takes_word (hw : ∀ c ∈ w, c.toNat ≤ 0x7E ∧ c ≠ ' ')
    (hrest : rest.head? = some ' ' ∨ rest.head? = some '"') :
    Takes (bounded (quotedWordFrom '"')) (w.flatMap Json.Document.escapeChar) rest (w, false) := by
  refine Takes.bounded fun n hn => takes_quotedWord hw hrest ?_
  have hlen := length_le_flatMap escapeChar_ne_nil w
  omega

private theorem takes_lastRound (hw : ∀ c ∈ w, c.toNat ≤ 0x7E ∧ c ≠ ' ') :
    Takes (quotedFrom '"' text (n + 1)) (w.flatMap Json.Document.escapeChar ++ ['"']) rest
      (text ++ w) := by
  refine takes_round (by simp) ((takes_word hw (.inr rfl)).bind ?_)
  refine Takes.look (takes_peek _ 0) ?_
  exact (takes_skip '"' rest).map fun _ => text ++ w

private theorem takes_wordRound (hw : ∀ c ∈ w, c.toNat ≤ 0x7E ∧ c ≠ ' ') (k : Nat)
    (hrest : ∀ c ∈ (cs ++ rest).head?, isBlank c = false ∧ isBreak c = false)
    (h : Takes (quotedFrom '"' (text ++ w ++ List.replicate (k + 1) ' ') n) cs rest out) :
    Takes (quotedFrom '"' text (n + 1))
      (w.flatMap Json.Document.escapeChar ++ (List.replicate (k + 1) ' ' ++ cs)) rest out := by
  refine takes_round (by simp [List.replicate_succ]) ((takes_word hw (.inl rfl)).bind ?_)
  refine Takes.look (takes_peek _ 0) ?_
  have hpeek : (List.replicate (k + 1) ' ' ++ cs ++ rest)[0]? = some ' ' := rfl
  simp only [hpeek]
  exact (takes_gap hrest (k + 1)).bind h

end rounds

private theorem exists_spaces (cs : List Char) :
    ∃ k u, cs = List.replicate k ' ' ++ u ∧ ∀ c ∈ u.head?, c ≠ ' ' := by
  induction cs with
  | nil => exact ⟨0, [], rfl, by simp⟩
  | cons c cs ih =>
    by_cases hc : c = ' '
    · obtain ⟨k, u, rfl, hu⟩ := ih
      exact ⟨k + 1, u, by rw [hc]; rfl, hu⟩
    · exact ⟨0, c :: cs, rfl, by simpa using hc⟩

/-- A text is one word, or a word before spaces and more. -/
private theorem exists_word (s : List Char) : (∀ c ∈ s, c ≠ ' ') ∨ ∃ w k u,
    s = w ++ (List.replicate (k + 1) ' ' ++ u) ∧ (∀ c ∈ w, c ≠ ' ') ∧ ∀ c ∈ u.head?, c ≠ ' ' := by
  by_cases hs : ' ' ∈ s
  · obtain ⟨w, t, rfl, hw⟩ := List.eq_append_cons_of_mem hs
    obtain ⟨k, u, rfl, hu⟩ := exists_spaces t
    exact .inr ⟨w, k, u, rfl, fun c hc h => hw (h ▸ hc), hu⟩
  · exact .inl fun c hc h => hs (h ▸ hc)

private theorem flatMap_spaces (k : Nat) :
    (List.replicate k ' ').flatMap Json.Document.escapeChar = List.replicate k ' ' := by
  have hspace : Json.Document.escapeChar ' ' = [' '] := by decide
  rw [List.flatMap_replicate, hspace, List.flatten_replicate_singleton]

/-- What follows the spaces is no space: the start of a character or the closing quote. -/
private theorem head_escaped {u : List Char} (hu : ∀ c ∈ u, c.toNat ≤ 0x7E)
    (hs : ∀ c ∈ u.head?, c ≠ ' ') (rest : List Char) :
    ∀ c ∈ (u.flatMap Json.Document.escapeChar ++ ['"'] ++ rest).head?,
      isBlank c = false ∧ isBreak c = false := by
  cases u with
  | nil => simp [isBlank, isBreak]
  | cons d u =>
    have hd := hs d rfl
    have hle := hu d (List.mem_cons_self ..)
    rw [List.flatMap_cons]
    unfold Json.Document.escapeChar
    split
    case h_8 =>
      split
      · simp [isBlank, isBreak]
      · next hlt => simpa using isText_of_le (Nat.not_lt.mp hlt) hle hd
    all_goals simp [isBlank, isBreak]

theorem takes_quotedFrom (text : List Char) {s : List Char} (hs : ∀ c ∈ s, c.toNat ≤ 0x7E)
    (hn : s.length < n) :
    Takes (quotedFrom '"' text n) (s.flatMap Json.Document.escapeChar ++ ['"']) rest (text ++ s) := by
  induction n generalizing s text with
  | zero => exact absurd hn (Nat.not_lt_zero _)
  | succ n ih =>
    rcases exists_word s with hw | ⟨w, k, u, rfl, hw, hu⟩
    · exact takes_lastRound fun c hc => ⟨hs c hc, hw c hc⟩
    · simp only [List.forall_mem_append] at hs
      rw [List.length_append, List.length_append, List.length_replicate] at hn
      have hnext := ih (text ++ w ++ List.replicate (k + 1) ' ') hs.2.2 (by omega)
      have hround := takes_wordRound (fun c hc => ⟨hs.1 c hc, hw c hc⟩) k
        (head_escaped hs.2.2 hu rest) hnext
      simpa only [List.flatMap_append, flatMap_spaces, List.append_assoc] using hround

/-- A string between quotes is read as it was before it was escaped. -/
theorem takes_quoted {s : String} (hs : ∀ c ∈ s.toList, c.toNat ≤ 0x7E) (rest : List Char) :
    Takes (quoted '"') (Json.Document.quote s) rest s.toList := by
  have hbody : Takes (bounded (quotedFrom '"' [])) (s.toList.flatMap Json.Document.escapeChar ++ ['"'])
      rest s.toList := by
    refine Takes.bounded fun n hn => takes_quotedFrom [] hs ?_
    have hlen := length_le_flatMap escapeChar_ne_nil s.toList
    rw [List.length_append] at hn
    omega
  exact (takes_skip '"' _).bind (f := fun _ => bounded (quotedFrom '"' [])) hbody

end quotes

section plain

variable {n : Nat} {w rest : List Char}

/-- A character that neither ends a plain scalar nor starts a comment. -/
def continuesPlain (c : Char) : Bool :=
  !(isBlank c || isBreak c || c = ':' || c = '#' || endsPlainInFlow c)

theorem continuesPlain_iff {c : Char} : continuesPlain c = true ↔
    isBlank c = false ∧ isBreak c = false ∧ c ≠ ':' ∧ c ≠ '#' ∧ endsPlainInFlow c = false := by
  simp [continuesPlain, and_assoc]

/-- Something stands next, and it ends a plain scalar. -/
def PlainEnds (rest : List Char) : Prop := rest.head?.any endsPlainInFlow = true

private theorem PlainEnds.exists_head (h : PlainEnds rest) :
    ∃ x, rest.head? = some x ∧ (x = ',' ∨ x = '[' ∨ x = ']' ∨ x = '{' ∨ x = '}') := by
  obtain ⟨x, hx, hends⟩ := (Option.any_eq_true ..).mp h
  exact ⟨x, hx, by simpa [endsPlainInFlow, or_assoc] using hends⟩

theorem takes_plainWord (hw : ∀ c ∈ w, continuesPlain c = true) (hrest : PlainEnds rest)
    (hn : w.length < n) : Takes (plainWordFrom true n) w rest w := by
  induction w generalizing n with
  | nil =>
    obtain ⟨n, rfl⟩ : ∃ k, n = k + 1 := ⟨n - 1, by omega⟩
    obtain ⟨x, hx, hends⟩ := hrest.exists_head
    refine Takes.look (takes_peek _ 0) (Takes.look (takes_peek _ 1) ?_)
    rw [List.nil_append, ← List.head?_eq_getElem?, hx]
    rcases hends with rfl | rfl | rfl | rfl | rfl <;> exact Takes.pure [] rest
  | cons c w ih =>
    obtain ⟨n, rfl⟩ : ∃ k, n = k + 1 := ⟨n - 1, by omega⟩
    obtain ⟨hc, hw⟩ := List.forall_mem_cons.mp hw
    obtain ⟨hb, hk, hcolon, -, hends⟩ := continuesPlain_iff.mp hc
    refine Takes.look (takes_peek _ 0) (Takes.look (takes_peek _ 1) ?_)
    simp only [List.cons_append, List.getElem?_cons_zero, hb, hk, hcolon, hends]
    exact (takes_skip c _).bind ((ih hw (by simpa using hn)).map (c :: ·))

/-- A word up to the mark that ends an item is a plain scalar of its own. -/
theorem takes_plain (hne : w ≠ []) (hw : ∀ c ∈ w, continuesPlain c = true) (hrest : PlainEnds rest)
    (margin : Nat) : Takes (plain true margin) w rest (w, false) := by
  have hword : Takes (bounded (plainWordFrom true)) w rest w :=
    Takes.bounded fun n hn => takes_plainWord hw hrest (by omega)
  obtain ⟨x, hx, hends⟩ := hrest.exists_head
  have hstop : isBlank x = false ∧ isBreak x = false := by
    rcases hends with rfl | rfl | rfl | rfl | rfl <;> decide
  have hempty : w.isEmpty = false := by simp [hne]
  refine Takes.bounded fun n hn => ?_
  obtain ⟨n, rfl⟩ : ∃ k, n = k + 1 := ⟨n - 1, by omega⟩
  refine Takes.cursor fun m hm => ?_
  have hhash : (⟨w ++ rest, m⟩ : Cursor).peek ≠ some '#' := by
    obtain ⟨c, w, rfl⟩ := List.exists_cons_of_ne_nil hne
    rintro ⟨⟩
    exact absurd (hw '#' (List.mem_cons_self ..)) (by decide)
  simp only [Cursor.not_atDocumentBoundary (c := ⟨w ++ rest, m⟩) hm, hhash, decide_false,
    Bool.or_self, Bool.false_eq_true, if_false]
  refine (hword.last (Takes.look (takes_peek _ 0) ?_)) m hm
  rw [List.nil_append, ← List.head?_eq_getElem?, hx]
  simp only [hstop, hempty, Bool.or_self, Bool.not_false, if_true, Bool.false_eq_true, if_false]
  exact Takes.pure (w, false) rest

end plain

end Scan
end InitializerLint.Yaml
