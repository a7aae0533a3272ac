import InitializerLint.Proofs.Json.Scan

/-! Strings: reading one gives what its pieces spell, and passing over one never fails. -/
namespace InitializerLint.Json

theorem Piece.IsHex.facts {c : Char} {n : Nat} (h : Piece.IsHex c n) :
    Scan.hexValue? c = some n ∧ c.utf8Size = 1 := by
  have hall : ∀ n < 16, (Scan.hexValue? (Document.hexDigit n) = some n ∧
      (Document.hexDigit n).utf8Size = 1) ∧
      Scan.hexValue? (Document.hexDigit n).toUpper = some n ∧
      (Document.hexDigit n).toUpper.utf8Size = 1 := by decide
  obtain ⟨hn, rfl | rfl⟩ := h
  · exact (hall n hn).1
  · exact (hall n hn).2

theorem Piece.simpleEscape?_of_mem {x c : Char} (h : (x, c) ∈ Piece.shortEscapes) :
    Scan.simpleEscape? x = some c ∧ x ≠ 'u' := by
  simp only [shortEscapes, List.mem_cons, Prod.mk.injEq, List.not_mem_nil, or_false] at h
  rcases h with ⟨rfl, rfl⟩ | ⟨rfl, rfl⟩ | ⟨rfl, rfl⟩ | ⟨rfl, rfl⟩ | ⟨rfl, rfl⟩ | ⟨rfl, rfl⟩ |
    ⟨rfl, rfl⟩ | ⟨rfl, rfl⟩ <;> exact ⟨rfl, by decide⟩

theorem Piece.Writes.unit_text {n : Nat} {cs : List Char} (h : Piece.Writes (.unit n) cs) :
    ∃ hs, cs = '\\' :: 'u' :: hs := by
  cases h with
  | unit => exact ⟨_, rfl⟩

theorem Piece.Writes.length_pos {p : Piece} {cs : List Char} (h : p.Writes cs) : 0 < cs.length := by
  cases h <;> simp

namespace Scan

variable {n m : Nat} {hs hs' : List Char}

theorem reads_hexEscape (h : Piece.Writes (.unit n) ('\\' :: 'u' :: hs)) (cs : List Char) :
    Reads hexEscape (hs ++ cs) (some n) cs := by
  cases h with
  | unit ha hb hc hd =>
    obtain ⟨ha, ha'⟩ := ha.facts
    obtain ⟨hb, hb'⟩ := hb.facts
    obtain ⟨hc, hc'⟩ := hc.facts
    obtain ⟨hd, hd'⟩ := hd.facts
    intro off
    refine ⟨off + 4, ?_⟩
    simp [hexEscape, Text.byteLength, ha, hb, hc, hd, ha', hb', hc', hd']
    omega

theorem reads_surrogateMark (x : Char) (cs : List Char) :
    Reads (surrogateMark x) (x :: cs) (some ()) cs := by
  unfold surrogateMark
  refine reads_offset fun n => (reads_next x cs).bind ?_
  simpa using Reads.pure () cs

theorem reads_surrogateMark_ne {x c : Char} (h : c ≠ x) (cs rest : List Char) :
    Reads (surrogateMark x) (c :: cs) none rest := by
  unfold surrogateMark
  refine reads_offset fun n => (reads_next c cs).bind ?_
  simpa [h] using reads_failAt .endOfHexEscape (n + 1) cs rest

theorem reads_unicodeEscape_single (h : Piece.Writes (.unit n) ('\\' :: 'u' :: hs))
    (hl : ¬Piece.IsLeading n) (ht : ¬Piece.IsTrailing n) (cs : List Char) :
    Reads unicodeEscape (hs ++ cs) (some (Char.ofNat n)) cs := by
  unfold unicodeEscape
  refine (reads_hexEscape h cs).bind ?_
  have h1 : (decide (0xDC00 ≤ n) && decide (n ≤ 0xDFFF)) = false := by
    simpa [Piece.IsTrailing] using ht
  have h2 : (decide (n < 0xD800) || decide (0xDBFF < n)) = true := by
    simp only [Piece.IsLeading] at hl
    simp only [Bool.or_eq_true, decide_eq_true_eq]
    omega
  simpa only [h1, h2, Bool.false_eq_true, if_false, if_true] using Reads.pure (Char.ofNat n) cs

theorem reads_unicodeEscape_trailing (h : Piece.Writes (.unit n) ('\\' :: 'u' :: hs))
    (ht : Piece.IsTrailing n) (cs rest : List Char) :
    Reads unicodeEscape (hs ++ cs) none rest := by
  unfold unicodeEscape
  refine (reads_hexEscape h cs).bind ?_
  have h1 : (decide (0xDC00 ≤ n) && decide (n ≤ 0xDFFF)) = true := by
    simpa [Piece.IsTrailing] using ht
  simpa only [h1, if_true] using reads_failHere .loneSurrogate cs rest

/-- After a leading surrogate everything hangs on the escape that has to follow. -/
theorem reads_unicodeEscape_leading (h : Piece.Writes (.unit n) ('\\' :: 'u' :: hs))
    (hl : Piece.IsLeading n) {cs rest : List Char} {o : Option Char}
    (hr : Reads (do
      surrogateMark '\\'
      surrogateMark 'u'
      let m ← hexEscape
      if m < 0xDC00 || 0xDFFF < m then failHere .loneSurrogate
      else return Char.ofNat ((n - 0xD800) * 1024 + (m - 0xDC00) + 0x10000)) cs o rest) :
    Reads unicodeEscape (hs ++ cs) o rest := by
  unfold unicodeEscape
  refine (reads_hexEscape h cs).bind ?_
  have h1 : (decide (0xDC00 ≤ n) && decide (n ≤ 0xDFFF)) = false := by
    simp only [Piece.IsLeading] at hl
    simp only [Bool.and_eq_false_iff, decide_eq_false_iff_not]
    omega
  have h2 : (decide (n < 0xD800) || decide (0xDBFF < n)) = false := by
    simp only [Piece.IsLeading] at hl
    simp only [Bool.or_eq_false_iff, decide_eq_false_iff_not]
    omega
  simpa only [h1, h2, Bool.false_eq_true, if_false] using hr

theorem reads_unicodeEscape_pair (h : Piece.Writes (.unit n) ('\\' :: 'u' :: hs))
    (hl : Piece.IsLeading n) (h' : Piece.Writes (.unit m) ('\\' :: 'u' :: hs'))
    (ht : Piece.IsTrailing m) (cs : List Char) :
    Reads unicodeEscape (hs ++ '\\' :: 'u' :: (hs' ++ cs)) (some (Piece.pair n m)) cs := by
  refine reads_unicodeEscape_leading h hl ((reads_surrogateMark _ _).bind
    ((reads_surrogateMark _ _).bind ((reads_hexEscape h' cs).bind ?_)))
  have h1 : (decide (m < 0xDC00) || decide (0xDFFF < m)) = false := by
    simp only [Piece.IsTrailing] at ht
    simp only [Bool.or_eq_false_iff, decide_eq_false_iff_not]
    omega
  simpa only [h1, Bool.false_eq_true, if_false, Piece.pair] using Reads.pure (Piece.pair n m) cs

theorem reads_unicodeEscape_broken (h : Piece.Writes (.unit n) ('\\' :: 'u' :: hs))
    (hl : Piece.IsLeading n) {ps : List Piece} {cs : List Char} (hp : Piece.WritesAll ps cs)
    (hps : ∀ m ps', ps = .unit m :: ps' → ¬Piece.IsTrailing m) (tail rest : List Char) :
    Reads unicodeEscape (hs ++ (cs ++ '"' :: tail)) none rest := by
  refine reads_unicodeEscape_leading h hl ?_
  cases hp with
  | nil => exact (reads_surrogateMark_ne (by decide) _ rest).bind_none
  | @cons p ps a b hw hp =>
    cases p with
    | char c =>
      cases hw with
      | plain _ hc _ => exact (reads_surrogateMark_ne hc _ rest).bind_none
      | short hx =>
        refine (reads_surrogateMark _ _).bind ?_
        exact (reads_surrogateMark_ne (Piece.simpleEscape?_of_mem hx).2 _ rest).bind_none
    | unit m =>
      obtain ⟨hs', rfl⟩ := hw.unit_text
      rw [List.append_assoc]
      refine (reads_surrogateMark _ _).bind ((reads_surrogateMark _ _).bind
        ((reads_hexEscape hw _).bind ?_))
      have h1 : (decide (m < 0xDC00) || decide (0xDFFF < m)) = true := by
        have ht := hps m ps rfl
        simp only [Piece.IsTrailing] at ht
        simp only [Bool.or_eq_true, decide_eq_true_eq]
        omega
      simpa only [h1, if_true] using reads_failHere .loneSurrogate _ rest

theorem reads_escape_unit {o : Option Char} {cs rest : List Char}
    (h : Reads unicodeEscape cs o rest) : Reads escape ('u' :: cs) o rest := by
  unfold escape
  exact reads_offset fun n => (reads_next 'u' cs).bind h

theorem reads_escape_short {x c : Char} (h : (x, c) ∈ Piece.shortEscapes) (cs : List Char) :
    Reads escape (x :: cs) (some c) cs := by
  obtain ⟨hx, hu⟩ := Piece.simpleEscape?_of_mem h
  unfold escape
  refine reads_offset fun n => (reads_next x cs).bind ?_
  split
  · next he => cases he
  · next he => exact absurd (Option.some.inj he) hu
  · next he =>
    cases he
    simpa only [hx] using Reads.pure c cs

/-- One round of the loop, for an escape. -/
theorem reads_stringFrom_escape {read : List Char} {n : Nat} {cs mid rest : List Char} {c : Char}
    {o : Option String} (he : Reads escape cs (some c) mid)
    (hr : Reads (stringFrom (c :: read) n) mid o rest) :
    Reads (stringFrom read (n + 1)) ('\\' :: cs) o rest := by
  unfold stringFrom
  exact (reads_next '\\' cs).bind (he.bind hr)

theorem reads_stringFrom_escape_none {read : List Char} {n : Nat} {cs rest : List Char}
    (he : Reads escape cs none rest) : Reads (stringFrom read (n + 1)) ('\\' :: cs) none rest := by
  unfold stringFrom
  exact (reads_next '\\' cs).bind he.bind_none

theorem reads_stringFrom_plain {read : List Char} {n : Nat} {cs rest : List Char} {c : Char}
    {o : Option String} (hq : c ≠ '"') (hb : c ≠ '\\') (hc : 0x20 ≤ c.toNat)
    (hr : Reads (stringFrom (c :: read) n) cs o rest) :
    Reads (stringFrom read (n + 1)) (c :: cs) o rest := by
  unfold stringFrom
  refine (reads_next c cs).bind ?_
  split
  · next he => cases he
  · next he => exact absurd (Option.some.inj he) hq
  · next he => exact absurd (Option.some.inj he) hb
  · next he =>
    cases he
    simpa only [Nat.not_lt.mpr hc, if_false] using hr

private theorem map_ofList_cons (read : List Char) (c : Char) (o : Option (List Char)) :
    (o.map (c :: ·)).map (fun t => String.ofList (read.reverse ++ t)) =
      o.map fun t => String.ofList ((c :: read).reverse ++ t) := by
  cases o <;> simp

/-- The induction follows `Piece.decode`, which takes up a surrogate pair in one step. -/
theorem reads_stringFrom {ps : List Piece} {cs : List Char} (h : Piece.WritesAll ps cs)
    (read : List Char) (fuel : Nat) (hf : ps.length < fuel) (rest : List Char) :
    Reads (stringFrom read fuel) (cs ++ '"' :: rest)
      ((Piece.decode ps).map fun t => String.ofList (read.reverse ++ t)) rest := by
  obtain ⟨k, rfl⟩ : ∃ k, fuel = k + 1 := ⟨fuel - 1, by omega⟩
  fun_induction Piece.decode ps generalizing cs read k with
  | case1 =>
    cases h
    unfold stringFrom
    exact (reads_next '"' rest).bind (by simpa using Reads.pure _ rest)
  | case2 c ps ih =>
    obtain ⟨k, rfl⟩ : ∃ j, k = j + 1 := ⟨k - 1, by simp at hf; omega⟩
    rw [map_ofList_cons]
    cases h with
    | cons hw hp =>
      have hr := ih hp (c :: read) k (by simpa using hf)
      cases hw with
      | plain hq hb hc => exact reads_stringFrom_plain hq hb hc hr
      | short hx => exact reads_stringFrom_escape (reads_escape_short hx _) hr
  | case3 n hl m ps ht ih =>
    -- a pair of units
    obtain ⟨k, rfl⟩ : ∃ j, k = j + 1 := ⟨k - 1, by simp at hf; omega⟩
    rw [map_ofList_cons]
    cases h with
    | cons hw hp =>
      cases hp with
      | cons hw' hp =>
        obtain ⟨hs, rfl⟩ := hw.unit_text
        obtain ⟨hs', rfl⟩ := hw'.unit_text
        have hr := ih hp (Piece.pair n m :: read) k (by simp at hf; omega)
        simp only [List.cons_append, List.append_assoc]
        exact reads_stringFrom_escape
          (reads_escape_unit (reads_unicodeEscape_pair hw hl hw' ht _)) hr
  | case4 n hl m ps ht =>
    -- a leading unit in front of one that does not belong to it
    cases h with
    | cons hw hp =>
      obtain ⟨hs, rfl⟩ := hw.unit_text
      rw [List.append_assoc]
      refine reads_stringFrom_escape_none (reads_escape_unit
        (reads_unicodeEscape_broken hw hl hp ?_ rest rest))
      intro m' ps' he
      cases he
      exact ht
  | case5 n ps hl hps =>
    -- a leading unit in front of no unit
    cases h with
    | cons hw hp =>
      obtain ⟨hs, rfl⟩ := hw.unit_text
      rw [List.append_assoc]
      exact reads_stringFrom_escape_none (reads_escape_unit
        (reads_unicodeEscape_broken hw hl hp (fun m ps' he => absurd he (hps m ps')) rest rest))
  | case6 n ps hl ht =>
    -- a trailing unit on its own
    cases h with
    | cons hw hp =>
      obtain ⟨hs, rfl⟩ := hw.unit_text
      rw [List.append_assoc]
      exact reads_stringFrom_escape_none (reads_escape_unit
        (reads_unicodeEscape_trailing hw ht _ rest))
  | case7 n ps hl ht ih =>
    obtain ⟨k, rfl⟩ : ∃ j, k = j + 1 := ⟨k - 1, by simp at hf; omega⟩
    rw [map_ofList_cons]
    cases h with
    | cons hw hp =>
      obtain ⟨hs, rfl⟩ := hw.unit_text
      have hr := ih hp (Char.ofNat n :: read) k (by simpa using hf)
      simp only [List.cons_append, List.append_assoc]
      exact reads_stringFrom_escape
        (reads_escape_unit (reads_unicodeEscape_single hw hl ht _)) hr

theorem length_lt_of_writesAll {ps : List Piece} {cs : List Char} (h : Piece.WritesAll ps cs)
    (c : Char) (rest : List Char) : ps.length < (cs ++ c :: rest).length := by
  induction h with
  | nil => simp
  | cons hw _ ih =>
    have ha := hw.length_pos
    simp only [List.length_cons, List.length_append] at ih ⊢
    omega

/-- What the pieces between two quotes stand for. -/
theorem reads_string {ps : List Piece} {cs : List Char} (h : Piece.WritesAll ps cs)
    (rest : List Char) : Reads string (cs ++ '"' :: rest) (Spelling.text? ps) rest :=
  reads_bounded (reads_stringFrom h [] _ (length_lt_of_writesAll h '"' rest) rest)

theorem reads_skipEscape_unit (h : Piece.Writes (.unit n) ('\\' :: 'u' :: hs)) (cs : List Char) :
    Reads skipEscape ('u' :: (hs ++ cs)) (some ()) cs := by
  unfold skipEscape
  exact reads_offset fun _ => (reads_next 'u' _).bind ((reads_hexEscape h cs).bind (.pure () cs))

theorem reads_skipEscape_short {x c : Char} (h : (x, c) ∈ Piece.shortEscapes) (cs : List Char) :
    Reads skipEscape (x :: cs) (some ()) cs := by
  obtain ⟨hx, hu⟩ := Piece.simpleEscape?_of_mem h
  unfold skipEscape
  refine reads_offset fun n => (reads_next x cs).bind ?_
  split
  · next he => cases he
  · next he => exact absurd (Option.some.inj he) hu
  · next he =>
    cases he
    simpa only [hx, Option.isSome_some, if_true] using Reads.pure () cs

theorem reads_skipStringFrom {ps : List Piece} {cs : List Char} (h : Piece.WritesAll ps cs)
    (fuel : Nat) (hf : ps.length < fuel) (rest : List Char) :
    Reads (skipStringFrom fuel) (cs ++ '"' :: rest) (some ()) rest := by
  induction h generalizing fuel with
  | nil =>
    obtain ⟨k, rfl⟩ : ∃ k, fuel = k + 1 := ⟨fuel - 1, by omega⟩
    unfold skipStringFrom
    exact reads_offset fun n => (reads_next '"' rest).bind (.pure () rest)
  | @cons p ps a b hw _ ih =>
    obtain ⟨k, rfl⟩ : ∃ k, fuel = k + 1 := ⟨fuel - 1, by omega⟩
    have hr := ih k (by simpa using hf)
    rw [List.append_assoc]
    unfold skipStringFrom
    cases hw with
    | plain hq hb hc =>
      refine reads_offset fun n => (reads_next _ (b ++ '"' :: rest)).bind ?_
      split
      · next he => cases he
      · next he => exact absurd (Option.some.inj he) hq
      · next he => exact absurd (Option.some.inj he) hb
      · next he =>
        cases he
        simpa only [Nat.not_lt.mpr hc, if_false] using hr
    | short hx =>
      exact reads_offset fun n => (reads_next '\\' _).bind ((reads_skipEscape_short hx _).bind hr)
    | unit ha hb hc hd =>
      exact reads_offset fun n => (reads_next '\\' _).bind
        ((reads_skipEscape_unit (.unit ha hb hc hd) _).bind hr)

theorem reads_skipString {ps : List Piece} {cs : List Char} (h : Piece.WritesAll ps cs)
    (rest : List Char) : Reads skipString (cs ++ '"' :: rest) (some ()) rest :=
  reads_bounded (reads_skipStringFrom h _ (length_lt_of_writesAll h '"' rest) rest)

end Scan
end InitializerLint.Json
