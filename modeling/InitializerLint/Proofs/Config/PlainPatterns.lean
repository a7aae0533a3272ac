import InitializerLint.Proofs.Config.Suppressions
import InitializerLint.Proofs.Glob.Plain

/-! Suppressions by plain texts. A pattern without special characters silences the type of that
name, and stars at its ends leave open how the name begins or ends; neither dots nor slashes nor
characters of several bytes make a difference. -/
namespace InitializerLint.Suppressions

open Glob (IsPlain SingleStars ofPlain)

/-- A single pattern, given for all rules, silences a type. -/
def Silences (pattern ruleId name : String) : Prop :=
  (build [(pattern, ["all"])] ruleId).value.isSuppressed name = true

instance (pattern ruleId name : String) : Decidable (Silences pattern ruleId name) :=
  inferInstanceAs (Decidable (_ = true))

theorem silences_iff {pattern : String} {g : Glob} (hg : Glob.parse pattern = .ok g)
    (hcompiles : g.compiles = true) (ruleId name : String) :
    Silences pattern ruleId name ↔ g.matchesName name.toList = true := by
  have hconcerns : Concerns ruleId (pattern, ["all"]) := ⟨"all", by simp, .inl rfl⟩
  have hunique (g' : Glob) (hg' : IsGlob (pattern, ["all"]) g') : g' = g :=
    Except.ok.inj (hg'.symm.trans hg)
  have hcompile : Compile ruleId [(pattern, ["all"])] := by
    intro e he _ g' hg'
    rw [List.mem_singleton.mp he] at hg'
    rwa [hunique g' hg']
  rw [Silences, isSuppressed_build hcompile]
  constructor
  · rintro ⟨e, he, -, g', hg', hmatches⟩
    rw [List.mem_singleton.mp he] at hg'
    rwa [hunique g' hg'] at hmatches
  · intro hmatches
    exact ⟨_, List.mem_singleton_self _, hconcerns, g, hg, hmatches⟩

section plain

variable {p : List Char}

theorem silences_ofPlain {text : List Char} (htext : ∀ c ∈ text, c = '*' ∨ IsPlain c)
    (hstars : SingleStars text) (ruleId name : String) :
    Silences (String.ofList text) ruleId name ↔ (ofPlain text).matchesName name.toList = true :=
  silences_iff (Glob.parse_ofPlain htext hstars) (Glob.compiles_ofPlain text) ruleId name

theorem singleStars_plain (hplain : ∀ c ∈ p, IsPlain c) : SingleStars p := by
  induction p with
  | nil => exact .nil
  | cons c p ih =>
    obtain ⟨hc, hp⟩ := List.forall_mem_cons.mp hplain
    exact (ih hp).cons fun _ _ h => hc.ne_star h.1

theorem singleStars_concat (hplain : ∀ c ∈ p, IsPlain c) : SingleStars (p ++ ['*']) := by
  apply List.IsChain.append (singleStars_plain hplain) (.singleton '*')
  intro c hc _ _ h
  exact (hplain c (List.mem_of_getLast? hc)).ne_star h.1

theorem singleStars_cons {text : List Char} (htext : SingleStars text) (h : text.head? ≠ some '*') :
    SingleStars ('*' :: text) := by
  apply List.IsChain.cons htext
  rintro c hc ⟨-, rfl⟩
  exact h hc

theorem head?_plain (hplain : ∀ c ∈ p, IsPlain c) : p.head? ≠ some '*' := by
  intro h
  exact (hplain '*' (List.mem_of_head? h)).ne_star rfl

end plain

/-- A plain text silences the types that have it as their name, and with a star behind it, in front
of it or on both sides the types whose names begin with it, end with it or contain it. Only the
text of a single dot is no ending. -/
theorem plain_patterns_match_texts (p ruleId name : String) (hp : p ≠ "")
    (hplain : ∀ c ∈ p.toList, IsPlain c) :
    (Silences p ruleId name ↔ name = p) ∧
      (Silences (p ++ "*") ruleId name ↔ p.toList <+: name.toList) ∧
      (p ≠ "." → (Silences ("*" ++ p) ruleId name ↔ p.toList <:+ name.toList)) ∧
      (Silences ("*" ++ p ++ "*") ruleId name ↔ p.toList <:+: name.toList) ∧
      Silences "*" ruleId name := by
  have hne : p.toList ≠ [] := by simpa using hp
  have htext : ∀ c ∈ p.toList, c = '*' ∨ IsPlain c := fun c hc => .inr (hplain c hc)
  have hback : ∀ c ∈ p.toList ++ ['*'], c = '*' ∨ IsPlain c := by
    simpa [or_imp, forall_and] using htext
  have hfront : ∀ c ∈ '*' :: p.toList, c = '*' ∨ IsPlain c := by simpa using htext
  have hboth : ∀ c ∈ '*' :: p.toList ++ ['*'], c = '*' ∨ IsPlain c := by
    simpa [or_imp, forall_and] using htext
  have hhead : (p.toList ++ ['*']).head? ≠ some '*' := by
    rw [List.head?_append_of_ne_nil _ hne]
    exact head?_plain hplain
  refine ⟨?_, ?_, fun hdot => ?_, ?_, ?_⟩
  · have h := silences_ofPlain htext (singleStars_plain hplain) ruleId name
    rw [String.ofList_toList] at h
    rw [h, Glob.matchesName_whole hplain hne, String.toList_inj]
  · have h := silences_ofPlain hback (singleStars_concat hplain) ruleId name
    rw [String.ofList_append, String.ofList_toList] at h
    exact h.trans (Glob.matchesName_begins hplain hne)
  · have hdot' : p.toList ≠ ['.'] := fun he => hdot (String.toList_inj.mp he)
    have hstars := singleStars_cons (singleStars_plain hplain) (head?_plain hplain)
    have h := silences_ofPlain hfront hstars ruleId name
    rw [← List.singleton_append, String.ofList_append, String.ofList_toList] at h
    exact h.trans (Glob.matchesName_ends hplain hne hdot')
  · have hstars := singleStars_cons (singleStars_concat hplain) hhead
    have h := silences_ofPlain hboth hstars ruleId name
    rw [← List.singleton_append, String.ofList_append, String.ofList_append,
      String.ofList_toList] at h
    exact h.trans (Glob.matchesName_contains hplain)
  · have hstar : ∀ c ∈ ['*'], c = '*' ∨ IsPlain c := by simp
    exact (silences_ofPlain hstar (.singleton '*') ruleId name).mpr (Glob.matchesName_star _)

/-- The text overlaps itself, begins like an extension and is cut short in front of its end. -/
theorem plain_patterns_match_overlap :
    Silences "*.é.é*" "UNOM0003" "../A.é.é.é" ∧ Silences "*.é.é" "UNOM0003" "../A.é.é.é" ∧
      ¬Silences "*.é.é" "UNOM0003" "../A.é.é.è" := by
  have hplain : ∀ c ∈ ".é.é".toList, IsPlain c := by simp [IsPlain]
  have htext := plain_patterns_match_texts ".é.é" "UNOM0003" "../A.é.é.é" (by decide) hplain
  have htext' := plain_patterns_match_texts ".é.é" "UNOM0003" "../A.é.é.è" (by decide) hplain
  obtain ⟨-, -, hends, hcontains, -⟩ := htext
  obtain ⟨-, -, hends', -, -⟩ := htext'
  refine ⟨hcontains.mpr (by decide), (hends (by decide)).mpr (by decide), fun h => ?_⟩
  have hsuffix := (hends' (by decide)).mp h
  exact absurd hsuffix (by decide)

/-- Behind a star the dot alone asks for an extension, and a step upwards has none. -/
example : ¬Silences "*." "UNOM0003" ".." := by decide +kernel

end InitializerLint.Suppressions
