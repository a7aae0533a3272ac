import InitializerLint.Proofs.Json.Render
import InitializerLint.Yaml.Scalar

/-! What the plain scalars of a compact text stand for: decimal numbers without padding are
integers, and three words are flags and nothing. -/
namespace InitializerLint.Yaml.Scalar

open Json (Numeral)

theorem digit?_digitChar {d : Nat} (hd : d < 10) : digit? 10 d.digitChar = some d := by
  have hall : ∀ d < 10, digit? 10 d.digitChar = some d := by decide
  exact hall d hd

theorem mapM_digit? {ds : List Nat} {cs : List Char} (h : Numeral.WritesDigits ds cs) :
    cs.mapM (digit? 10) = some ds := by
  induction h with
  | one hd => simp [digit?_digitChar hd]
  | cons hd _ ih => simp [digit?_digitChar hd, ih]

theorem natural?_toDigits (n : Nat) : natural? 10 (Nat.toDigits 10 n) = some n := by
  have hne : (Nat.toDigits 10 n).isEmpty = false := by simp [Nat.toDigits_ne_nil]
  have hvalue := Numeral.digitsValue_decimal n
  unfold Numeral.digitsValue at hvalue
  unfold natural?
  rw [hne, mapM_digit? (Numeral.writesDigits_decimal n)]
  simp [hvalue]

/-- The first digit is zero only in the number zero. -/
theorem toDigits_eq (n : Nat) : n = 0 ∧ Nat.toDigits 10 n = ['0'] ∨
    ∃ c cs, Nat.toDigits 10 n = c :: cs ∧ c.isDigit = true ∧ c ≠ '0' := by
  rcases Nat.eq_zero_or_pos n with rfl | hn
  · exact .inl ⟨rfl, rfl⟩
  · obtain ⟨d, ds, hd, hpos⟩ := Numeral.decimal_pos hn
    have hw := Numeral.writesDigits_decimal n
    rw [hd] at hw
    have hall : ∀ d < 10, d ≠ 0 → d.digitChar.isDigit = true ∧ d.digitChar ≠ '0' := by decide
    generalize Nat.toDigits 10 n = cs at hw
    cases hw with
    | one hlt => exact .inr ⟨_, _, rfl, hall d hlt hpos⟩
    | cons hlt _ => exact .inr ⟨_, _, rfl, hall d hlt hpos⟩

theorem unsigned?_toDigits (n : Nat) : unsigned? (Nat.toDigits 10 n) = some n := by
  have hnat := natural?_toDigits n
  rcases toDigits_eq n with ⟨rfl, h⟩ | ⟨c, cs, h, hdigit, hzero⟩
  · rfl
  · rw [h] at hnat ⊢
    have hplus : c ≠ '+' := by
      rintro rfl
      cases hdigit
    have hminus : c ≠ '-' := by
      rintro rfl
      cases hdigit
    have hwithout : withoutPlus (c :: cs) = c :: cs := by simp [withoutPlus, hplus]
    have hpadded : isPaddedNumber (c :: cs) = false := by simp [isPaddedNumber, hplus, hminus, hzero]
    unfold unsigned?
    simp [hwithout, hpadded, hzero, hnat]

/-- The text of a number. -/
theorem word?_toDigits (n : UInt64) : word? (String.ofList (Nat.toDigits 10 n.toNat)) = some n := by
  unfold word?
  simp [unsigned?_toDigits, n.toNat_lt]

theorem plain_toDigits {n : Nat} (hn : n < UInt64.size) :
    plain (String.ofList (Nat.toDigits 10 n)) = .value (.unsigned (.ofNat n)) := by
  have hint : integer? (Nat.toDigits 10 n) = some (.value (.unsigned (.ofNat n))) := by
    simp [integer?, unsigned?_toDigits, hn]
  obtain ⟨c, cs, hcons, hdigit⟩ : ∃ c cs, Nat.toDigits 10 n = c :: cs ∧ c.isDigit = true := by
    rcases toDigits_eq n with ⟨-, h⟩ | ⟨c, cs, h, hdigit, -⟩
    · exact ⟨'0', [], h, rfl⟩
    · exact ⟨c, cs, h, hdigit⟩
  have hne (words : List String) (hw : ∀ w ∈ words, w.toList.head?.any Char.isDigit = false) :
      words.contains (String.ofList (Nat.toDigits 10 n)) = false := by
    rw [List.contains_eq_mem, decide_eq_false_iff_not]
    intro hmem
    have hfirst := hw _ hmem
    rw [String.toList_ofList, hcons, List.head?_cons, Option.any_some, hdigit] at hfirst
    cases hfirst
  have hempty : (String.ofList (Nat.toDigits 10 n)).isEmpty = false := by
    simp [hcons]
  have hnull : isNull (String.ofList (Nat.toDigits 10 n)) = false := hne _ (by decide)
  have hbool : bool? (String.ofList (Nat.toDigits 10 n)) = none := by
    unfold bool?
    rw [hne _ (by decide), hne _ (by decide)]
    rfl
  unfold plain
  simp only [hempty, hnull, hbool, String.toList_ofList, hint, Bool.or_self, Bool.false_eq_true,
    if_false]

end InitializerLint.Yaml.Scalar
