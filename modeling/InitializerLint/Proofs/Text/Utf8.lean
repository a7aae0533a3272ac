import InitializerLint.Text.Utf8
import Mathlib.Data.List.Infix
import Mathlib.Tactic.SplitIfs

/-! Texts and their UTF-8 bytes have the same parts: whoever finds the bytes of one text among those
of another has found the text, since no character starts in the middle of another. -/
namespace InitializerLint.Text

/-- A byte that does not start a character. -/
def IsContinuation (b : UInt8) : Prop := 128 ≤ b.toNat ∧ b.toNat < 192

theorem bytes_nil : bytes [] = [] := rfl

theorem bytes_cons (c : Char) (cs : List Char) :
    bytes (c :: cs) = String.utf8EncodeChar c ++ bytes cs := rfl

theorem bytes_append (cs ds : List Char) : bytes (cs ++ ds) = bytes cs ++ bytes ds :=
  List.flatMap_append

theorem isContinuation_ofNat (k : Nat) : IsContinuation (.ofNat (k % 64 + 128)) := by
  rw [IsContinuation, UInt8.toNat_ofNat']
  omega

theorem exists_utf8EncodeChar (c : Char) : ∃ b bs, String.utf8EncodeChar c = b :: bs ∧
    ¬IsContinuation b ∧ ∀ x ∈ bs, IsContinuation x := by
  unfold String.utf8EncodeChar
  dsimp only
  split_ifs
  all_goals
    refine ⟨_, _, rfl, ?_, ?_⟩
    · rw [IsContinuation, UInt8.toNat_ofNat']
      omega
    · simp only [List.forall_mem_cons, List.not_mem_nil, isContinuation_ofNat, false_imp_iff,
        implies_true, and_self]

/-- The first character is read off the bytes, whatever follows. -/
theorem utf8EncodeChar_append_inj {c d : Char} {as bs : List UInt8}
    (h : String.utf8EncodeChar c ++ as = String.utf8EncodeChar d ++ bs) : c = d ∧ as = bs := by
  have hdecode := congrArg (fun l : List UInt8 => l.toByteArray.utf8DecodeChar? 0) h
  simp only [List.toByteArray_append, ByteArray.utf8DecodeChar?_utf8EncodeChar_append,
    Option.some.injEq] at hdecode
  subst hdecode
  exact ⟨rfl, List.append_cancel_left h⟩

theorem bytes_prefix_iff {p n : List Char} : bytes p <+: bytes n ↔ p <+: n := by
  constructor
  · intro h
    induction p generalizing n with
    | nil => exact List.nil_prefix
    | cons c p ih =>
      obtain ⟨rest, hrest⟩ := h
      rw [bytes_cons, List.append_assoc] at hrest
      cases n with
      | nil =>
        obtain ⟨b, bs, hc, -, -⟩ := exists_utf8EncodeChar c
        rw [hc] at hrest
        cases hrest
      | cons d n =>
        obtain ⟨rfl, htail⟩ := utf8EncodeChar_append_inj hrest
        have hp : p <+: n := ih ⟨rest, htail⟩
        exact List.cons_prefix_cons.mpr ⟨rfl, hp⟩
  · rintro ⟨rest, rfl⟩
    exact ⟨bytes rest, (bytes_append p rest).symm⟩

theorem bytes_injective {p n : List Char} (h : bytes p = bytes n) : p = n := by
  have hp : p <+: n := bytes_prefix_iff.mp (h ▸ List.prefix_rfl)
  have hn : n <+: p := bytes_prefix_iff.mp (h ▸ List.prefix_rfl)
  exact hp.eq_of_length_le hn.length_le

/-- Where bytes are cut in front of one that starts a character, the text is cut there too. -/
theorem exists_of_bytes_eq_append {n : List Char} {as bs : List UInt8} (h : bytes n = as ++ bs)
    (hbs : ∀ b ∈ bs.head?, ¬IsContinuation b) : ∃ u v, n = u ++ v ∧ bytes u = as ∧ bytes v = bs := by
  induction n generalizing as with
  | nil =>
    obtain ⟨rfl, rfl⟩ := List.append_eq_nil_iff.mp h.symm
    exact ⟨[], [], rfl, rfl, rfl⟩
  | cons c n ih =>
    rw [bytes_cons] at h
    rcases List.append_eq_append_iff.mp h with ⟨as', rfl, hn⟩ | ⟨bs', hc, rfl⟩
    · obtain ⟨u, v, rfl, rfl, rfl⟩ := ih hn
      exact ⟨c :: u, v, rfl, rfl, rfl⟩
    · cases as with
      | nil => exact ⟨[], c :: n, rfl, rfl, by rw [bytes_cons, hc]; rfl⟩
      | cons a as =>
        -- The cut would be in the middle of `c`, or it is right behind it.
        obtain ⟨b, rest, hb, -, hrest⟩ := exists_utf8EncodeChar c
        rw [hb, List.cons_append, List.cons.injEq] at hc
        cases bs' with
        | nil =>
          refine ⟨[c], n, rfl, ?_, rfl⟩
          rw [bytes_cons, hb, hc.1, hc.2, bytes_nil, List.append_nil, List.append_nil]
        | cons x xs =>
          have hx : IsContinuation x := hrest x (by rw [hc.2]; simp)
          exact absurd hx (hbs x (by simp))

private theorem not_isContinuation_head? (p : List Char) (rest : List UInt8)
    (hp : p ≠ []) : ∀ b ∈ (bytes p ++ rest).head?, ¬IsContinuation b := by
  obtain ⟨c, cs, rfl⟩ := List.exists_cons_of_ne_nil hp
  obtain ⟨b, bs, hb, hnot, -⟩ := exists_utf8EncodeChar c
  simpa [bytes_cons, hb] using hnot

theorem bytes_infix_iff {p n : List Char} : bytes p <:+: bytes n ↔ p <:+: n := by
  constructor
  · rintro ⟨as, bs, h⟩
    by_cases hp : p = []
    · rw [hp]
      exact List.nil_infix
    · rw [List.append_assoc] at h
      obtain ⟨u, v, rfl, -, hv⟩ := exists_of_bytes_eq_append h.symm (not_isContinuation_head? p bs hp)
      have hpv : p <+: v := bytes_prefix_iff.mp ⟨bs, hv.symm⟩
      exact hpv.isInfix.trans (List.suffix_append u v).isInfix
  · rintro ⟨u, v, rfl⟩
    exact ⟨bytes u, bytes v, by rw [bytes_append, bytes_append]⟩

theorem bytes_suffix_iff {p n : List Char} : bytes p <:+ bytes n ↔ p <:+ n := by
  constructor
  · rintro ⟨as, h⟩
    by_cases hp : p = []
    · rw [hp]
      exact List.nil_suffix
    · have hhead := not_isContinuation_head? p [] hp
      rw [List.append_nil] at hhead
      obtain ⟨u, v, rfl, -, hv⟩ := exists_of_bytes_eq_append h.symm hhead
      rw [bytes_injective hv]
      exact List.suffix_append u p
  · rintro ⟨u, rfl⟩
    exact ⟨bytes u, (bytes_append u p).symm⟩

end InitializerLint.Text
