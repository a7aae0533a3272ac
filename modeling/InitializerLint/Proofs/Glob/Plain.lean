import InitializerLint.Glob.Basic
import InitializerLint.Proofs.Glob.Acceptance
import InitializerLint.Proofs.Glob.Name
import InitializerLint.Proofs.Text.Utf8
import Mathlib.Data.List.Chain

/-! Globs of plain characters and single stars. Each character is a token of its own, and a plain
text alone, or with a star at either end or at both, matches the names that are that text, begin
with it, end with it or contain it: the shortcut that is taken for such a glob decides as its
pattern would. -/
namespace InitializerLint.Glob

/-- A character that stands for itself wherever it is written. -/
def IsPlain (c : Char) : Prop := c ∉ ['?', '*', '[', '{', '}', '\\']

/-- The token of a plain character or of a star. -/
def tokenOf (c : Char) : Token := if c = '*' then .star else .literal c

section tokens

variable {c : Char} {p : List Char}

theorem IsPlain.ne_star (hc : IsPlain c) : c ≠ '*' := by
  rintro rfl
  exact hc (by decide)

theorem tokenOf_plain (hc : IsPlain c) : tokenOf c = .literal c := if_neg hc.ne_star

theorem map_tokenOf_plain (hp : ∀ c ∈ p, IsPlain c) : p.map tokenOf = p.map .literal :=
  List.map_congr_left fun c hc => tokenOf_plain (hp c hc)

theorem lexFrom_plain (hc : IsPlain c) (cs : List Char) :
    Lexeme.lexFrom .text (c :: cs) = Lexeme.ofChar c :: Lexeme.lexFrom .text cs := by
  have hclass : c ≠ '[' := by
    rintro rfl
    exact hc (by decide)
  have hescape : c ≠ '\\' := by
    rintro rfl
    exact hc (by decide)
  rw [Lexeme.lexFrom, if_neg hclass, if_neg hescape]

theorem lexFrom_star (cs : List Char) :
    Lexeme.lexFrom .text ('*' :: cs) = .star :: Lexeme.lexFrom .text cs := rfl

theorem ofChar_plain (hc : IsPlain c) (hcomma : c ≠ ',') : Lexeme.ofChar c = .literal c false := by
  simp only [IsPlain, List.mem_cons, List.not_mem_nil, or_false, not_or] at hc
  obtain ⟨hany, hstar, -, hopening, hclosing, -⟩ := hc
  exact Lexeme.ofChar.eq_6 c hany hstar hopening hclosing hcomma

/-- Outside of groups a comma is a character like others. -/
theorem parseFrom_plain (hc : IsPlain c) (prev : Option Char) (branch : List Token)
    (ls : List Lexeme) : ∃ prev', Token.parseFrom prev [] branch (Lexeme.ofChar c :: ls) =
      Token.parseFrom prev' [] (.literal c :: branch) ls := by
  by_cases hcomma : c = ','
  · subst hcomma
    exact ⟨some ',', rfl⟩
  · rw [ofChar_plain hc hcomma]
    exact ⟨some c, rfl⟩

theorem parseFrom_star {ls : List Lexeme} (h : ls.head? ≠ some .star) (prev : Option Char)
    (branch : List Token) : Token.parseFrom prev [] branch (.star :: ls) =
      Token.parseFrom (some '*') [] (.star :: branch) ls := by
  cases ls with
  | nil => rfl
  | cons l ls =>
    have hl : l ≠ .star := fun he => h (congrArg some he)
    cases l <;> first | rfl | contradiction

/-- No two stars stand side by side. -/
def SingleStars (cs : List Char) : Prop := cs.IsChain fun a b => ¬(a = '*' ∧ b = '*')

theorem head?_lexFrom_ne_star {cs : List Char} (hcs : ∀ c ∈ cs, c = '*' ∨ IsPlain c)
    (hstars : SingleStars ('*' :: cs)) : (Lexeme.lexFrom .text cs).head? ≠ some .star := by
  cases cs with
  | nil => exact nofun
  | cons d cs =>
    have hd : d ≠ '*' := fun hd => (List.isChain_cons_cons.mp hstars).1 ⟨rfl, hd⟩
    have hplain : IsPlain d := (hcs d List.mem_cons_self).resolve_left hd
    rw [lexFrom_plain hplain, List.head?_cons, ne_eq, Option.some.injEq]
    by_cases hcomma : d = ','
    · rw [hcomma]
      exact nofun
    · rw [ofChar_plain hplain hcomma]
      exact nofun

theorem parse_eq (cs : List Char) (hcs : ∀ c ∈ cs, c = '*' ∨ IsPlain c) (hstars : SingleStars cs) :
    Token.parse cs = .ok (cs.map tokenOf) := by
  have hparse (prev : Option Char) (branch : List Token) :
      Token.parseFrom prev [] branch (Lexeme.lexFrom .text cs) =
        .ok (branch.reverse ++ cs.map tokenOf) := by
    induction cs generalizing prev branch with
    | nil =>
      rw [List.map_nil, List.append_nil]
      rfl
    | cons c cs ih =>
      obtain ⟨hc, hrest⟩ := List.forall_mem_cons.mp hcs
      have ih := ih hrest (List.IsChain.tail hstars)
      have hshift : (tokenOf c :: branch).reverse ++ cs.map tokenOf =
          branch.reverse ++ (c :: cs).map tokenOf := by simp
      rcases hc with rfl | hc
      · rw [lexFrom_star, parseFrom_star (head?_lexFrom_ne_star hrest hstars), ← hshift]
        exact ih _ _
      · obtain ⟨prev', hstep⟩ := parseFrom_plain hc prev branch (Lexeme.lexFrom .text cs)
        rw [lexFrom_plain hc, hstep, ← hshift, tokenOf_plain hc]
        exact ih _ _
  exact hparse none []

end tokens

section plan

open Plan

variable {p : List Char}

theorem literals?_map (p : List Char) : literals? (p.map .literal) = some p := by
  induction p with
  | nil => rfl
  | cons c p ih => rw [List.map_cons, literals?, ih, Option.map_some]

theorem literals?_star (p : List Char) (ts : List Token) :
    literals? (p.map .literal ++ .star :: ts) = none := by
  induction p with
  | nil => rfl
  | cons c p ih => rw [List.map_cons, List.cons_append, literals?, ih, Option.map_none]

theorem nonempty?_eq_some (hp : p ≠ []) : nonempty? p = some p := by simp [nonempty?, hp]

theorem ofTokens_whole (hp : p ≠ []) : ofTokens (p.map .literal) = .whole p := by
  have hbase : base? (p.map .literal) = none := by cases p <;> rfl
  have hwhole : (literals? (p.map .literal) >>= nonempty?) = some p := by
    rw [literals?_map]
    exact nonempty?_eq_some hp
  simp only [ofTokens, hbase, hwhole]

theorem ofTokens_begins (hp : p ≠ []) : ofTokens (p.map .literal ++ [.star]) = .begins p := by
  obtain ⟨c, cs, rfl⟩ := List.exists_cons_of_ne_nil hp
  have hwhole : literals? ((c :: cs).map .literal ++ [.star]) = none := literals?_star _ _
  have hbegins : begins? ((c :: cs).map .literal ++ [.star]) = some (c :: cs) := by
    rw [begins?, List.getLast?_concat, List.dropLast_concat, literals?_map]
    rfl
  have hbase : base? ((c :: cs).map .literal ++ [.star]) = none := rfl
  have hext : ext? ((c :: cs).map .literal ++ [.star]) = none := rfl
  simp only [ofTokens, hbase, hwhole, hext, hbegins]
  rfl

theorem ofTokens_contains (p : List Char) :
    ofTokens (.star :: p.map .literal ++ [.star]) = .pattern := by
  have hliterals (cs : List Char) : literals? (cs.map .literal ++ [.star]) = none :=
    literals?_star cs []
  have hbase : base? (.star :: p.map .literal ++ [.star]) = none := rfl
  have hwhole : literals? (.star :: p.map .literal ++ [.star]) = none := rfl
  have hext : ext? (.star :: p.map .literal ++ [.star]) = none := by
    cases p with
    | nil => rfl
    | cons c cs =>
      by_cases hc : c = '.'
      · subst hc
        have htext : (literals? (cs.map .literal ++ [.star]) >>= fun text =>
          if text.contains '.' || text.contains '/' then none else some ('.' :: text)) = none := by
          rw [hliterals]
          rfl
        exact htext
      · simp [ext?, hc]
  have hbegins : begins? (.star :: p.map .literal ++ [.star]) = none := by
    rw [begins?, List.getLast?_concat, List.dropLast_concat]
    rfl
  have hends : ends? (.star :: p.map .literal ++ [.star]) = none := by
    have hclosing : ends?.closing (p.map .literal ++ [.star]) = none := by
      rw [ends?.closing, hliterals]
      rfl
    exact hclosing
  have hrequired : requiredExt? (.star :: p.map .literal ++ [.star]) = none := by
    rw [requiredExt?, List.reverse_concat]
    rfl
  simp only [ofTokens, hbase, hwhole, hext, hbegins, hends, hrequired]
  rfl

theorem ofTokens_ext (h : IsExtension p) : ofTokens (.star :: p.map .literal) = .ext p := by
  obtain ⟨text, rfl, hdot, hslash⟩ := h
  have hbase : base? (.star :: ('.' :: text).map .literal) = none := rfl
  have hwhole : literals? (.star :: ('.' :: text).map .literal) = none := rfl
  have hext : ext? (.star :: ('.' :: text).map .literal) = some ('.' :: text) := by
    have htext : (literals? (text.map .literal) >>= fun text =>
        if text.contains '.' || text.contains '/' then none else some ('.' :: text)) =
          some ('.' :: text) := by
      rw [literals?_map]
      simp [hdot, hslash]
    exact htext
  simp only [ofTokens, hbase, hwhole, hext]
  rfl

theorem ofTokens_ends (hp : p ≠ []) (hslash : p ≠ ['/']) (h : ¬IsExtension p) :
    ofTokens (.star :: p.map .literal) = .ends p false := by
  have hbase : base? (.star :: p.map .literal) = none := rfl
  have hwhole : literals? (.star :: p.map .literal) = none := rfl
  have hext : ext? (.star :: p.map .literal) = none := by
    obtain ⟨c, cs, rfl⟩ := List.exists_cons_of_ne_nil hp
    by_cases hc : c = '.'
    · subst hc
      have hcs : '.' ∈ cs ∨ '/' ∈ cs := by
        by_contra hno
        rw [not_or] at hno
        exact h ⟨cs, rfl, hno⟩
      have htext : (literals? (cs.map .literal) >>= fun text =>
          if text.contains '.' || text.contains '/' then none else some ('.' :: text)) = none := by
        rw [literals?_map]
        simpa [imp_iff_not_or] using hcs
      exact htext
    · simp [ext?, hc]
  have hbegins : begins? (.star :: p.map .literal) = none := by
    obtain ⟨cs, c, rfl⟩ := (List.eq_nil_or_concat p).resolve_left hp
    rw [List.concat_eq_append, List.map_append, ← List.cons_append, List.map_singleton, begins?,
      List.getLast?_concat]
    rfl
  have hends : ends? (.star :: p.map .literal) = some (p, false) := by
    have hclosing : ends?.closing (p.map .literal) = some (p, false) := by
      rw [ends?.closing, literals?_map]
      simp [nonempty?_eq_some hp, hslash]
    exact hclosing
  simp only [ofTokens, hbase, hwhole, hext, hbegins, hends]
  rfl

end plan

section pattern

open Pattern

theorem Pattern.ofTokens_append (ts us : List Token) :
    ofTokens (ts ++ us) = ofTokens ts ++ ofTokens us := by
  induction ts with
  | nil => rfl
  | cons t ts ih => rw [List.cons_append, ofTokens, ih, ofTokens, List.append_assoc]

theorem Pattern.ofTokens_literals (p : List Char) :
    ofTokens (p.map .literal) = (Text.bytes p).map .byte := by
  induction p with
  | nil => rfl
  | cons c p ih =>
    rw [List.map_cons, ofTokens, ih, Text.bytes_cons, List.map_append, ofToken]

theorem acceptsAll_bytes {bs v : List UInt8} : AcceptsAll (bs.map .byte) v ↔ v = bs := by
  induction bs generalizing v with
  | nil => exact acceptsAll_nil
  | cons b bs ih =>
    rw [List.map_cons, acceptsAll_cons]
    constructor
    · rintro ⟨_, w, rfl, hb, hw⟩
      cases hb
      rw [ih.mp hw]
      rfl
    · rintro rfl
      exact ⟨[b], bs, rfl, .byte b, ih.mpr rfl⟩

theorem acceptsAll_anyBytes {ps : List Pattern} {v : List UInt8} :
    AcceptsAll (.anyBytes :: ps) v ↔ ∃ u w, v = u ++ w ∧ AcceptsAll ps w := by
  simp only [acceptsAll_cons, Then, accepts_anyBytes, true_and]

theorem acceptsAll_ends {bs v : List UInt8} :
    AcceptsAll (.anyBytes :: bs.map .byte) v ↔ bs <:+ v := by
  rw [acceptsAll_anyBytes]
  constructor
  · rintro ⟨u, w, rfl, hw⟩
    rw [acceptsAll_bytes.mp hw]
    exact List.suffix_append u bs
  · rintro ⟨u, rfl⟩
    exact ⟨u, bs, rfl, acceptsAll_bytes.mpr rfl⟩

theorem acceptsAll_contains {bs v : List UInt8} :
    AcceptsAll (.anyBytes :: (bs.map .byte ++ [.anyBytes])) v ↔ bs <:+: v := by
  rw [acceptsAll_anyBytes]
  constructor
  · rintro ⟨u, w, rfl, hw⟩
    obtain ⟨_, rest, rfl, hbs, -⟩ := acceptsAll_append.mp hw
    rw [acceptsAll_bytes.mp hbs, ← List.append_assoc]
    exact List.infix_append u bs rest
  · rintro ⟨u, rest, rfl⟩
    have hrest : AcceptsAll [.anyBytes] rest := acceptsAll_anyBytes.mpr ⟨rest, [], by simp, .nil⟩
    exact ⟨u, bs ++ rest, List.append_assoc u bs rest,
      acceptsAll_append.mpr ⟨bs, rest, rfl, acceptsAll_bytes.mpr rfl, hrest⟩⟩

/-- Neither characters nor stars nest. -/
theorem itemsDepth_le_one {ps : List Pattern} (h : ∀ p ∈ ps, p.depth ≤ 1) : itemsDepth ps ≤ 1 := by
  induction ps with
  | nil => exact Nat.zero_le 1
  | cons p ps ih =>
    obtain ⟨hp, hps⟩ := List.forall_mem_cons.mp h
    exact Nat.max_le.mpr ⟨hp, ih hps⟩

theorem depth_le_one {ts : List Token} (h : ∀ t ∈ ts, t = .star ∨ ∃ c, t = .literal c) :
    ∀ p ∈ Pattern.ofTokens ts, p.depth ≤ 1 := by
  induction ts with
  | nil => exact nofun
  | cons t ts ih =>
    obtain ⟨ht, hts⟩ := List.forall_mem_cons.mp h
    rw [Pattern.ofTokens, List.forall_mem_append]
    refine ⟨?_, ih hts⟩
    rcases ht with rfl | ⟨c, rfl⟩
    · simp [ofToken, depth]
    · simp [ofToken, depth]

end pattern

/-- The glob written by a text in which characters and stars stand for themselves. -/
def ofPlain (text : List Char) : Glob :=
  ⟨text.map tokenOf, Plan.ofTokens (text.map tokenOf), Pattern.ofGlob (text.map tokenOf)⟩

section glob

variable {text : List Char}

theorem parse_ofPlain (htext : ∀ c ∈ text, c = '*' ∨ IsPlain c) (hstars : SingleStars text) :
    Glob.parse (String.ofList text) = .ok (ofPlain text) := by
  rw [Glob.parse, String.toList_ofList, parse_eq text htext hstars]
  rfl

theorem ofGlob_ofPlain (text : List Char) :
    (ofPlain text).pattern = Pattern.ofTokens (text.map tokenOf) := by
  have hne (ts : List Token) (h : ∀ t ∈ ts, t ≠ .leadingDirs) :
      Pattern.ofGlob ts = Pattern.ofTokens ts := by
    unfold Pattern.ofGlob
    split
    · exact absurd rfl (h _ List.mem_cons_self)
    · rfl
  apply hne
  intro t ht
  obtain ⟨c, -, rfl⟩ := List.mem_map.mp ht
  unfold tokenOf
  split <;> exact nofun

theorem compiles_ofPlain (text : List Char) : (ofPlain text).compiles = true := by
  have htokens : ∀ t ∈ text.map tokenOf, t = .star ∨ ∃ c, t = .literal c := by
    intro t ht
    obtain ⟨c, -, rfl⟩ := List.mem_map.mp ht
    unfold tokenOf
    split
    · exact .inl rfl
    · exact .inr ⟨c, rfl⟩
  have hdepth : Pattern.itemsDepth (ofPlain text).pattern ≤ 1 := by
    rw [ofGlob_ofPlain]
    exact itemsDepth_le_one (depth_le_one htokens)
  have hbound : ¬Pattern.nestingLimit < 1 + Pattern.itemsDepth (ofPlain text).pattern := by
    rw [Pattern.nestingLimit]
    omega
  have hshallow : Pattern.tooDeep (ofPlain text).pattern = false := decide_eq_false hbound
  rw [compiles, hshallow, Bool.and_false]
  rfl

end glob

section matching

variable {p name : List Char}

theorem matchesName_whole (hplain : ∀ c ∈ p, IsPlain c) (hp : p ≠ []) :
    (ofPlain p).matchesName name = true ↔ name = p := by
  have hplan : (ofPlain p).plan = .whole p := by
    rw [ofPlain, map_tokenOf_plain hplain]
    exact ofTokens_whole hp
  rw [matchesName, hplan]
  exact beq_iff_eq

theorem matchesName_begins (hplain : ∀ c ∈ p, IsPlain c) (hp : p ≠ []) :
    (ofPlain (p ++ ['*'])).matchesName name = true ↔ p <+: name := by
  have hplan : (ofPlain (p ++ ['*'])).plan = .begins p := by
    rw [ofPlain, List.map_append, map_tokenOf_plain hplain]
    exact ofTokens_begins hp
  rw [matchesName, hplan]
  exact List.isPrefixOf_iff_prefix

theorem matchesName_ends (hplain : ∀ c ∈ p, IsPlain c) (hp : p ≠ []) (hdot : p ≠ ['.']) :
    (ofPlain ('*' :: p)).matchesName name = true ↔ p <:+ name := by
  have htokens : ('*' :: p).map tokenOf = .star :: p.map .literal := by
    rw [List.map_cons, map_tokenOf_plain hplain]
    rfl
  by_cases hslash : p = ['/']
  · -- Only the byte pattern finds a slash at the end.
    subst hslash
    have hplan : (ofPlain ['*', '/']).plan = .pattern := rfl
    have hpattern : (ofPlain ['*', '/']).pattern = .anyBytes :: (Text.bytes ['/']).map .byte := rfl
    rw [matchesName, hplan]
    dsimp only
    rw [hpattern, Pattern.matchesBytes_iff, acceptsAll_ends, Text.bytes_suffix_iff]
  by_cases hext : IsExtension p
  · have hplan : (ofPlain ('*' :: p)).plan = .ext p := by
      rw [ofPlain, htokens]
      exact ofTokens_ext hext
    rw [matchesName, hplan]
    exact beq_iff_eq.trans (extension_baseName_iff hext hdot)
  · have hplan : (ofPlain ('*' :: p)).plan = .ends p false := by
      rw [ofPlain, htokens]
      exact ofTokens_ends hp hslash hext
    rw [matchesName, hplan]
    exact List.isSuffixOf_iff_suffix

theorem matchesName_contains (hplain : ∀ c ∈ p, IsPlain c) :
    (ofPlain ('*' :: p ++ ['*'])).matchesName name = true ↔ p <:+: name := by
  have htokens : ('*' :: p ++ ['*']).map tokenOf = .star :: p.map .literal ++ [.star] := by
    rw [List.map_append, List.map_cons, map_tokenOf_plain hplain]
    rfl
  have hplan : (ofPlain ('*' :: p ++ ['*'])).plan = .pattern := by
    rw [ofPlain, htokens]
    exact ofTokens_contains p
  have hpattern : (ofPlain ('*' :: p ++ ['*'])).pattern =
      .anyBytes :: ((Text.bytes p).map .byte ++ [.anyBytes]) := by
    rw [ofGlob_ofPlain, htokens, Pattern.ofTokens_append, Pattern.ofTokens,
      Pattern.ofTokens_literals]
    rfl
  rw [matchesName, hplan]
  dsimp only
  rw [hpattern, Pattern.matchesBytes_iff, acceptsAll_contains, Text.bytes_infix_iff]

theorem matchesName_star (name : List Char) : (ofPlain ['*']).matchesName name = true := by
  have hplan : (ofPlain ['*']).plan = .pattern := rfl
  have hpattern : (ofPlain ['*']).pattern = [.anyBytes] := rfl
  rw [matchesName, hplan]
  dsimp only
  rw [hpattern, Pattern.matchesBytes_iff, acceptsAll_anyBytes]
  exact ⟨Text.bytes name, [], (List.append_nil _).symm, .nil⟩

end matching

end InitializerLint.Glob
