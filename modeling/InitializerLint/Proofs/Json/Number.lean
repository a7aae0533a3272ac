import InitializerLint.Proofs.Json.Scan

/-! Number literals: reading one takes up its digits and nothing else. -/
namespace InitializerLint.Json

theorem Numeral.digitChar_facts {d : Nat} (h : d < 10) :
    isDigit d.digitChar = true ∧ d.digitChar.toNat - '0'.toNat = d := by
  have hall : ∀ d < 10, isDigit d.digitChar = true ∧ d.digitChar.toNat - '0'.toNat = d := by decide
  exact hall d h

theorem Numeral.WritesDigits.spell {ds : List Nat} {cs : List Char}
    (h : Numeral.WritesDigits ds cs) : (∀ d ∈ ds, d < 10) ∧ cs = ds.map Nat.digitChar := by
  induction h with
  | one hd => simpa using hd
  | cons hd _ ih => simpa [hd] using ih

theorem Numeral.WritesDigits.ne_nil {ds : List Nat} {cs : List Char}
    (h : Numeral.WritesDigits ds cs) : ds ≠ [] := by
  cases h <;> simp

theorem Numeral.WritesDigits.head {ds : List Nat} {cs : List Char}
    (h : Numeral.WritesDigits ds cs) : ∃ c cs', cs = c :: cs' ∧ isDigit c = true := by
  cases h with
  | one hd => exact ⟨_, _, rfl, (digitChar_facts hd).1⟩
  | cons hd _ => exact ⟨_, _, rfl, (digitChar_facts hd).1⟩

theorem Numeral.Writes.head {x : Numeral} {cs : List Char} (h : x.Writes cs) :
    ∃ c cs', cs = c :: cs' ∧ isDigit c = true := by
  cases h with
  | mk hi _ _ =>
    cases hi with
    | zero => exact ⟨_, _, rfl, by decide⟩
    | digits _ hd =>
      obtain ⟨c, cs', rfl, hc⟩ := hd.head
      exact ⟨c, _, rfl, hc⟩

/-- A character that can go on with a number. -/
def goesOn (c : Char) : Bool := isDigit c || c = '.' || c = 'e' || c = 'E'

theorem Boundary.stops {cs : List Char} (h : Boundary cs) : Stops goesOn cs := by
  intro c hc
  rcases h c hc with h | rfl | rfl | rfl
  · simp only [isSpace, Bool.or_eq_true, decide_eq_true_eq] at h
    rcases h with ((rfl | rfl) | rfl) | rfl <;> decide
  all_goals decide

namespace Scan

variable {α : Type} {atEnd : Cause} {o : Option α} {rest rest' : List Char}

theorem reads_digits {ds : List Nat} (h : ∀ d ∈ ds, d < 10) (hs : Stops isDigit rest) :
    Reads digits (ds.map Nat.digitChar ++ rest) (some ds) rest := by
  have hp : ∀ c ∈ ds.map Nat.digitChar, isDigit c = true := by
    intro c hc
    obtain ⟨d, hd, rfl⟩ := List.mem_map.mp hc
    exact (Numeral.digitChar_facts (h d hd)).1
  have hval : (ds.map Nat.digitChar).map (fun c => c.toNat - '0'.toNat) = ds := by
    rw [List.map_map]
    refine (List.map_congr_left fun d hd => ?_).trans (List.map_id ds)
    exact (Numeral.digitChar_facts (h d hd)).2
  intro off
  refine ⟨off + (ds.map Nat.digitChar).length, ?_⟩
  simp only [digits, Cursor.dropWhile, hs.takeWhile_append hp, hs.dropWhile_append hp, hval]

theorem reads_digit {d : Nat} (h : d < 10) (cs : List Char) :
    Reads (digit atEnd) (d.digitChar :: cs) (some d) cs := by
  obtain ⟨hd, hv⟩ := Numeral.digitChar_facts h
  unfold digit
  refine reads_offset fun n => (reads_next _ cs).bind ?_
  simpa only [hd, hv, if_true] using Reads.pure d cs

theorem reads_integerDigits {i : List Nat} {a : List Char} (h : Numeral.WritesInteger i a)
    (hs : Stops isDigit rest) : Reads (integerDigits atEnd) (a ++ rest) (some i) rest := by
  unfold integerDigits
  cases h with
  | zero =>
    refine (reads_digit (d := 0) (by decide) rest).bind ((reads_peek rest).bind ?_)
    cases rest with
    | nil => exact .pure [0] []
    | cons c cs => simpa [hs c rfl] using Reads.pure [0] (c :: cs)
  | @digits d ds _ hd hw =>
    obtain ⟨hds, rfl⟩ := hw.spell
    refine (reads_digit (hds d (by simp)) _).bind ?_
    simp only [hd, if_false]
    exact (reads_digits (fun x hx => hds x (by simp [hx])) hs).map (d :: ·)

theorem reads_fractionDigits {f : List Nat} {b : List Char} (h : Numeral.WritesFraction f b)
    (hs : Stops (fun c => isDigit c || c = '.') rest) :
    Reads (fractionDigits atEnd) (b ++ rest) (some f) rest := by
  unfold fractionDigits
  refine (reads_peek _).bind ?_
  cases h with
  | none =>
    have hd : rest.head? ≠ some '.' := by
      intro he
      simpa using hs '.' he
    simpa [hd] using Reads.pure [] rest
  | @digits ds cs hw =>
    have hne := hw.ne_nil
    obtain ⟨hds, rfl⟩ := hw.spell
    have hs' : Stops isDigit rest := hs.mono (by intro c hc; simp [hc])
    have hd := reads_digits hds hs'
    refine (reads_drop _ _).bind (hd.bind ((reads_peek rest).bind ?_))
    split
    · exact absurd rfl hne
    · exact absurd rfl hne
    · exact .pure _ rest

theorem reads_exponentDigits (atEnd : Cause) {neg : Bool} {ds : List Nat} {cs : List Char}
    (h : Numeral.WritesDigits ds cs) (hs : Stops isDigit rest) {k : Option Exponent × Nat → Scan α}
    (hk : ∀ start, Reads (k (some ⟨neg, ds⟩, start)) rest o rest') :
    Reads ((do
      let start ← offset
      let first ← digit atEnd
      return (some ⟨neg, first :: (← digits)⟩, start)) >>= k) (cs ++ rest) o rest' := by
  have hne := h.ne_nil
  obtain ⟨hds, rfl⟩ := h.spell
  cases ds with
  | nil => exact absurd rfl hne
  | cons d ds =>
    have hrest := reads_digits (fun x hx => hds x (List.mem_cons_of_mem d hx)) hs
    simp only [bind_assoc, pure_bind]
    exact reads_offset fun start => (reads_digit (hds d (by simp)) _).bind (hrest.bind (hk start))

/-- The place that is answered beside an exponent has no part in what is read. -/
theorem reads_exponentPart {e : Option Exponent} {c : List Char} (h : Numeral.WritesExponent e c)
    (hs : Stops goesOn rest) {k : Option Exponent × Nat → Scan α}
    (hk : ∀ start, Reads (k (e, start)) rest o rest') :
    Reads (exponentPart atEnd >>= k) (c ++ rest) o rest' := by
  unfold exponentPart
  rw [bind_assoc]
  refine (reads_peek _).bind ?_
  cases h with
  | none =>
    have he : rest.head? ≠ some 'e' := fun he => by simpa [goesOn] using hs 'e' he
    have hE : rest.head? ≠ some 'E' := fun he => by simpa [goesOn] using hs 'E' he
    simp only [List.nil_append, he, hE, decide_false, Bool.or_self, Bool.false_eq_true, if_false,
      bind_assoc, pure_bind]
    exact reads_offset hk
  | @some neg ds mark sign cs hm hsign hw =>
    have hd : Stops isDigit rest := hs.mono (by intro c hc; simp [goesOn, hc])
    have hdigits := reads_exponentDigits atEnd hw hd hk
    have hmark : (decide ((mark :: (sign ++ cs) ++ rest).head? = some 'e') ||
        decide ((mark :: (sign ++ cs) ++ rest).head? = some 'E')) = true := by
      rcases hm with rfl | rfl <;> rfl
    rw [if_pos hmark, bind_assoc]
    refine (reads_drop _ _).bind ?_
    rw [bind_assoc]
    refine (reads_peek _).bind ?_
    cases hsign with
    | none =>
      obtain ⟨c, cs', rfl, hc⟩ := hw.head
      have hp : c ≠ '+' := by rintro rfl; exact absurd hc (by decide)
      have hm : c ≠ '-' := by rintro rfl; exact absurd hc (by decide)
      simpa [hp, hm] using hdigits
    | plus =>
      rw [if_pos (by rfl), bind_assoc]
      exact (reads_drop '+' _).bind hdigits
    | minus =>
      rw [if_pos (by rfl), bind_assoc]
      exact (reads_drop '-' _).bind hdigits

theorem reads_numeral {x : Numeral} {cs : List Char} (h : x.Writes cs) (hs : Stops goesOn rest)
    {k : Numeral × Nat → Scan α} (hk : ∀ start, Reads (k (x, start)) rest o rest') :
    Reads (numeral atEnd >>= k) (cs ++ rest) o rest' := by
  cases h with
  | @mk i f e a b c hi hf he =>
    have hc : Stops (fun c => isDigit c || c = '.') (c ++ rest) := by
      cases he with
      | none => exact hs.mono (by intro c hc; simp only [goesOn, hc, Bool.true_or])
      | some hm => rcases hm with rfl | rfl <;> exact .cons (by decide) _
    have hb : Stops isDigit (b ++ (c ++ rest)) := by
      cases hf with
      | none => exact hc.mono (by intro c hc; simp only [hc, Bool.true_or])
      | digits => exact .cons (by decide) _
    unfold numeral
    simp only [bind_assoc, List.append_assoc]
    refine (reads_integerDigits hi hb).bind ((reads_fractionDigits hf hc).bind ?_)
    exact reads_exponentPart he hs hk

theorem reads_number {x : Numeral} {cs : List Char} (h : x.Writes cs) (negative : Bool)
    (hb : Boundary rest) :
    Reads (number negative) (cs ++ rest) (x.value negative).toOption rest := by
  unfold number
  refine reads_numeral h hb.stops fun start => ?_
  dsimp only
  cases x.value negative with
  | ok v => exact .pure v rest
  | error e =>
    cases e with
    | none => exact reads_failHere .numberOutOfRange rest rest
    | some k => exact reads_failAt .numberOutOfRange (start + k) rest rest

end Scan
end InitializerLint.Json
