import InitializerLint.Proofs.Json.Spot

/-! Number literals in the places of unsigned fields. A place is read exactly if each literal put
there is read as the number it denotes, or is an error because it denotes no unsigned number. -/
namespace InitializerLint.Json

/-- A literal without sign, fraction and exponent whose value fits into 64 bits. -/
structure Numeral.IsUnsigned (negative : Bool) (x : Numeral) : Prop where
  sign : negative = false
  fraction : x.fraction = []
  exponent : x.exponent = none
  bound : digitsValue x.integer < UInt64.size

section number

variable {negative : Bool} {x : Numeral}

theorem Tree.isWord_number {n : UInt64} : (Tree.number negative x).IsWord n ↔
    x.IsUnsigned negative ∧ n.toNat = Numeral.digitsValue x.integer := by
  constructor
  · rintro ⟨ds, hx, hds⟩
    cases hx
    exact ⟨⟨rfl, rfl, rfl, hds ▸ n.toNat_lt⟩, hds.symm⟩
  · rintro ⟨⟨hsign, hfraction, hexponent, -⟩, hn⟩
    obtain ⟨integer, fraction, exponent⟩ := x
    cases hsign
    cases hfraction
    cases hexponent
    exact ⟨integer, rfl, hn.symm⟩

theorem Numeral.IsUnsigned.exists_word (h : x.IsUnsigned negative) :
    ∃ n : UInt64, n.toNat = digitsValue x.integer :=
  ⟨.ofNat (digitsValue x.integer), UInt64.toNat_ofNat_of_lt' h.bound⟩

theorem Tree.IsWord.within {d : Tree} {n : UInt64} (h : d.IsWord n) (k : Nat) : d.Within k := by
  obtain ⟨ds, rfl, -⟩ := h
  exact within_number _ _ k

end number

/-- The place of an unsigned number in a value, if the value has one there. -/
structure WordPlace (α : Type) where
  get? : α → Option UInt64
  set : UInt64 → α → α
  get?_set : ∀ n a, (get? a).isSome → get? (set n a) = some n

section place

variable {ε α : Type} {parse : String → Except ε α} {error : Error → ε} {put : Tree → Tree}
  {place : WordPlace α}

/-- With something in its place the document is read as a value that has a number there. -/
def ReadAs (parse : String → Except ε α) (put : Tree → Tree) (place : WordPlace α) (a : α) : Prop :=
  ∃ d text, (put d).WritesDocument text ∧ parse text = .ok a ∧ (place.get? a).isSome

/-- In a document whose rest is read as `a`, a literal for an unsigned number is stored as the number
it denotes, and every other literal is an error. -/
def ReadsWords (parse : String → Except ε α) (error : Error → ε) (put : Tree → Tree)
    (place : WordPlace α) : Prop :=
  ∀ a, ReadAs parse put place a → ∀ negative x text,
    (put (.number negative x)).WritesDocument text →
      (x.IsUnsigned negative → ∃ n : UInt64, n.toNat = Numeral.digitsValue x.integer ∧
        parse text = .ok (place.set n a) ∧ place.get? (place.set n a) = some n) ∧
      (¬x.IsUnsigned negative → ∃ e, parse text = .error (error e))

/-- Whether a literal is read does not depend on where it is. -/
theorem ReadsWords.isOk_iff (h : ReadsWords parse error put place) {a : α}
    (ha : ReadAs parse put place a) {negative : Bool} {x : Numeral} {text : String}
    (hw : (put (.number negative x)).WritesDocument text) :
    (∃ c, parse text = .ok c) ↔ x.IsUnsigned negative := by
  obtain ⟨hunsigned, hother⟩ := h a ha negative x text hw
  constructor
  · rintro ⟨c, hc⟩
    by_contra hno
    obtain ⟨e, he⟩ := hother hno
    rw [hc] at he
    cases he
  · intro hx
    obtain ⟨n, -, hn, -⟩ := hunsigned hx
    exact ⟨_, hn⟩

variable {Presents : Tree → α → Prop}

/-- A text is read as the value its tree presents, and is an error if its tree presents none. -/
def ReadsPresented (parse : String → Except ε α) (error : Error → ε)
    (Presents : Tree → α → Prop) : Prop :=
  ∀ d text, d.WritesDocument text → (∀ a, Presents d a → parse text = .ok a) ∧
    ((¬∃ a, Presents d a) → ∃ e, parse text = .error (error e))

theorem ReadsPresented.presents (h : ReadsPresented parse error Presents) {d : Tree} {text : String}
    (hw : d.WritesDocument text) {a : α} (ha : parse text = .ok a) : Presents d a := by
  obtain ⟨hok, herror⟩ := h d text hw
  by_cases hsome : ∃ b, Presents d b
  · obtain ⟨b, hb⟩ := hsome
    have hab : .ok a = (.ok b : Except ε α) := ha.symm.trans (hok b hb)
    rw [Except.ok.inj hab]
    exact hb
  · obtain ⟨e, he⟩ := herror hsome
    rw [ha] at he
    cases he

/-- The trees decide: other words may stand in the place, and nothing but words. -/
theorem ReadsPresented.readsWords (h : ReadsPresented parse error Presents)
    (hput : ∀ {d d' a n}, Presents (put d) a → (place.get? a).isSome → d'.IsWord n →
      Presents (put d') (place.set n a))
    (hword : ∀ {d d' a a'}, Presents (put d) a → (place.get? a).isSome → Presents (put d') a' →
      ∃ n, d'.IsWord n) :
    ReadsWords parse error put place := by
  rintro a ⟨d, text₀, hw₀, hread, hplace⟩ negative x text hw
  have ha : Presents (put d) a := h.presents hw₀ hread
  obtain ⟨hok, herror⟩ := h _ text hw
  constructor
  · intro hx
    obtain ⟨n, hn⟩ := hx.exists_word
    have hpresents := hput ha hplace (Tree.isWord_number.mpr ⟨hx, hn⟩)
    exact ⟨n, hn, hok _ hpresents, place.get?_set n a hplace⟩
  · intro hx
    apply herror
    rintro ⟨a', ha'⟩
    obtain ⟨n, hn⟩ := hword ha hplace ha'
    exact hx (Tree.isWord_number.mp hn).1

end place
end InitializerLint.Json
