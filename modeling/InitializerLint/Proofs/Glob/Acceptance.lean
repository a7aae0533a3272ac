import InitializerLint.Glob.Pattern
import Mathlib.Data.List.Induction

/-! What a byte pattern accepts, said without a search: its items share the bytes out among
themselves, in order. Following the reachable positions finds exactly that. -/
namespace InitializerLint.Glob.Pattern

mutual

/-- The bytes that a pattern stands for. -/
inductive Accepts : Pattern → List UInt8 → Prop
  | byte (b : UInt8) : Accepts (.byte b) [b]
  | anyByte (b : UInt8) : Accepts .anyByte [b]
  | anyBytes (bs : List UInt8) : Accepts .anyBytes bs
  | noSlash : Accepts .optionalSlash []
  | oneSlash : Accepts .optionalSlash [slash]
  | oneOf {negated : Bool} {ranges : List (UInt8 × UInt8)} {b : UInt8} :
      inRanges ranges b ≠ negated → Accepts (.oneOf negated ranges) [b]
  | choice {branches : List (List Pattern)} {branch : List Pattern} {bs : List UInt8} :
      branch ∈ branches → AcceptsAll branch bs → Accepts (.choice branches) bs

inductive AcceptsAll : List Pattern → List UInt8 → Prop
  | nil : AcceptsAll [] []
  | cons {p : Pattern} {ps : List Pattern} {as bs : List UInt8} :
      Accepts p as → AcceptsAll ps bs → AcceptsAll (p :: ps) (as ++ bs)

end

/-- Bytes that satisfy `P` and then `Q`. -/
def Then (P Q : List UInt8 → Prop) (as : List UInt8) : Prop := ∃ u v, as = u ++ v ∧ P u ∧ Q v

/-- The positions in `reached` are those behind the beginnings of `name` that satisfy `P`. -/
structure Marks (name : List UInt8) (reached : List Bool) (P : List UInt8 → Prop) : Prop where
  length : reached.length = name.length + 1
  iff : ∀ as rest, name = as ++ rest → (reached[as.length]? = some true ↔ P as)

section marks

variable {name : List UInt8} {reached reached' : List Bool} {P Q : List UInt8 → Prop}

theorem Marks.congr (h : Marks name reached P) (hPQ : ∀ as, P as ↔ Q as) : Marks name reached Q :=
  ⟨h.length, fun as rest hname => (h.iff as rest hname).trans (hPQ as)⟩

theorem Marks.exists_getElem? (h : Marks name reached P) {as rest : List UInt8}
    (hname : name = as ++ rest) : ∃ r, reached[as.length]? = some r ∧ (r = true ↔ P as) := by
  have hlt : as.length < reached.length := by
    rw [h.length, hname, List.length_append]
    omega
  have hget : reached[as.length]? = some reached[as.length] := List.getElem?_eq_getElem hlt
  have hiff := h.iff as rest hname
  rw [hget, Option.some.injEq] at hiff
  exact ⟨_, hget, hiff⟩

theorem marks_start (name : List UInt8) : Marks name (start name) (· = []) := by
  constructor
  · simp [start]
  · intro as rest hname
    cases as with
    | nil => simp [start]
    | cons a as =>
      rw [start, List.length_cons, List.getElem?_cons_succ, List.getElem?_map]
      cases name[as.length]? <;> simp

theorem marks_none (h : reached.length = name.length + 1) :
    Marks name (reached.map fun _ => false) (fun _ => False) := by
  constructor
  · rw [List.length_map, h]
  · intro as rest _
    rw [List.getElem?_map]
    simp

theorem Marks.union (h : Marks name reached P) (h' : Marks name reached' Q) :
    Marks name (union reached reached') (fun as => P as ∨ Q as) := by
  constructor
  · rw [Pattern.union, List.length_zipWith, h.length, h'.length, Nat.min_self]
  · intro as rest hname
    obtain ⟨r, hr, hP⟩ := h.exists_getElem? hname
    obtain ⟨r', hr', hQ⟩ := h'.exists_getElem? hname
    rw [Pattern.union, List.getElem?_zipWith, hr, hr', ← hP, ← hQ]
    simp

theorem Marks.stepByte (h : Marks name reached P) (accept : UInt8 → Bool) :
    Marks name (stepByte accept name reached) (Then P fun v => ∃ b, v = [b] ∧ accept b = true) := by
  constructor
  · simp [Pattern.stepByte, h.length]
  · intro as rest hname
    cases as using List.reverseRecOn with
    | nil => simp [Pattern.stepByte, Then]
    | append_singleton as b _ =>
      have hname' : name = as ++ b :: rest := by simpa using hname
      have hb : name[as.length]? = some b := by simp [hname']
      obtain ⟨r, hr, hP⟩ := h.exists_getElem? hname'
      have hstep : (Pattern.stepByte accept name reached)[(as ++ [b]).length]? =
          some (r && accept b) := by
        rw [Pattern.stepByte, List.length_append, List.length_singleton, List.getElem?_cons_succ,
          List.getElem?_zipWith, hr, hb]
      rw [hstep, Option.some.injEq, Bool.and_eq_true, hP]
      constructor
      · rintro ⟨hP, hb⟩
        exact ⟨as, [b], rfl, hP, b, rfl, hb⟩
      · rintro ⟨u, _, huv, hP, b', rfl, hb⟩
        obtain ⟨rfl, hbb'⟩ := List.append_inj' huv rfl
        cases hbb'
        exact ⟨hP, hb⟩

theorem getElem?_stepAny (seen : Bool) (reached : List Bool) (k : Nat) :
    (stepAny seen reached)[k]? = some true ↔
      k < reached.length ∧ (seen = true ∨ ∃ i ≤ k, reached[i]? = some true) := by
  induction reached generalizing seen k with
  | nil => simp [stepAny]
  | cons r rs ih =>
    rw [stepAny]
    cases k with
    | zero => simp
    | succ k =>
      have hsplit : (∃ i ≤ k + 1, (r :: rs)[i]? = some true) ↔
          r = true ∨ ∃ i ≤ k, rs[i]? = some true := by
        constructor
        · rintro ⟨i, hi, hr⟩
          cases i with
          | zero => exact .inl (Option.some.inj hr)
          | succ i => exact .inr ⟨i, Nat.le_of_succ_le_succ hi, hr⟩
        · rintro (hr | ⟨i, hi, hr⟩)
          · exact ⟨0, Nat.zero_le _, congrArg some hr⟩
          · exact ⟨i + 1, Nat.succ_le_succ hi, hr⟩
      rw [List.getElem?_cons_succ, ih, hsplit, Bool.or_eq_true, or_assoc, List.length_cons,
        Nat.succ_lt_succ_iff]

theorem Marks.stepAny (h : Marks name reached P) :
    Marks name (stepAny false reached) (Then P fun _ => True) := by
  have hlength (seen : Bool) (rs : List Bool) : (Pattern.stepAny seen rs).length = rs.length := by
    induction rs generalizing seen with
    | nil => rfl
    | cons r rs ih => rw [Pattern.stepAny, List.length_cons, List.length_cons, ih]
  constructor
  · rw [hlength, h.length]
  · intro as rest hname
    have hlt : as.length < reached.length := by
      rw [h.length, hname, List.length_append]
      omega
    rw [getElem?_stepAny, and_iff_right hlt]
    constructor
    · rintro (hf | ⟨i, hi, hr⟩)
      · cases hf
      · have hlength : (as.take i).length = i := List.length_take_of_le hi
        have hcut : name = as.take i ++ (as.drop i ++ rest) := by
          rw [← List.append_assoc, List.take_append_drop, hname]
        have hP := h.iff _ _ hcut
        rw [hlength] at hP
        exact ⟨as.take i, as.drop i, (List.take_append_drop i as).symm, hP.mp hr, trivial⟩
    · rintro ⟨u, v, rfl, hP, -⟩
      have hcut : name = u ++ (v ++ rest) := by rw [hname, List.append_assoc]
      exact .inr ⟨u.length, by simp, (h.iff u _ hcut).mpr hP⟩

theorem Then.congr {Q' : List UInt8 → Prop} (h : ∀ v, Q v ↔ Q' v) (as : List UInt8) :
    Then P Q as ↔ Then P Q' as := by simp only [Then, h]

end marks

section accepts

variable {p : Pattern} {ps : List Pattern} {v : List UInt8}

theorem accepts_byte {b : UInt8} : Accepts (.byte b) v ↔ ∃ x, v = [x] ∧ (x == b) = true := by
  constructor
  · intro h
    cases h
    exact ⟨b, rfl, beq_self_eq_true b⟩
  · rintro ⟨x, rfl, hx⟩
    obtain rfl := eq_of_beq hx
    exact .byte x

theorem accepts_anyByte : Accepts .anyByte v ↔ ∃ x, v = [x] ∧ true = true := by
  constructor
  · intro h
    cases h with
    | anyByte b => exact ⟨b, rfl, rfl⟩
  · rintro ⟨x, rfl, -⟩
    exact .anyByte x

theorem accepts_anyBytes : Accepts .anyBytes v ↔ True := iff_true_intro (.anyBytes v)

theorem accepts_optionalSlash :
    Accepts .optionalSlash v ↔ v = [] ∨ ∃ x, v = [x] ∧ (x == slash) = true := by
  constructor
  · intro h
    cases h with
    | noSlash => exact .inl rfl
    | oneSlash => exact .inr ⟨slash, rfl, rfl⟩
  · rintro (rfl | ⟨x, rfl, hx⟩)
    · exact .noSlash
    · obtain rfl := eq_of_beq hx
      exact .oneSlash

theorem accepts_oneOf {negated : Bool} {ranges : List (UInt8 × UInt8)} :
    Accepts (.oneOf negated ranges) v ↔ ∃ x, v = [x] ∧ (inRanges ranges x != negated) = true := by
  constructor
  · intro h
    cases h with
    | oneOf hb => exact ⟨_, rfl, bne_iff_ne.mpr hb⟩
  · rintro ⟨x, rfl, hx⟩
    exact .oneOf (bne_iff_ne.mp hx)

theorem accepts_choice {branches : List (List Pattern)} :
    Accepts (.choice branches) v ↔ ∃ branch ∈ branches, AcceptsAll branch v := by
  constructor
  · intro h
    cases h with
    | choice hb hv => exact ⟨_, hb, hv⟩
  · rintro ⟨branch, hb, hv⟩
    exact .choice hb hv

theorem acceptsAll_nil : AcceptsAll [] v ↔ v = [] := by
  constructor
  · intro h
    cases h
    rfl
  · rintro rfl
    exact .nil

theorem acceptsAll_cons : AcceptsAll (p :: ps) v ↔ Then p.Accepts (AcceptsAll ps) v := by
  constructor
  · intro h
    cases h with
    | cons hp hps => exact ⟨_, _, rfl, hp, hps⟩
  · rintro ⟨as, bs, rfl, hp, hps⟩
    exact .cons hp hps

theorem then_assoc {P Q R : List UInt8 → Prop} :
    Then (Then P Q) R v ↔ Then P (Then Q R) v := by
  constructor
  · rintro ⟨_, w, rfl, ⟨u, v, rfl, hP, hQ⟩, hR⟩
    exact ⟨u, v ++ w, List.append_assoc u v w, hP, v, w, rfl, hQ, hR⟩
  · rintro ⟨u, _, rfl, hP, v, w, rfl, hQ, hR⟩
    exact ⟨u ++ v, w, (List.append_assoc u v w).symm, ⟨u, v, rfl, hP, hQ⟩, hR⟩

theorem acceptsAll_append {qs : List Pattern} :
    AcceptsAll (ps ++ qs) v ↔ Then (AcceptsAll ps) (AcceptsAll qs) v := by
  induction ps generalizing v with
  | nil => simp [Then, acceptsAll_nil]
  | cons p ps ih =>
    rw [List.cons_append, acceptsAll_cons, Then.congr fun _ => ih, ← then_assoc]
    constructor
    · rintro ⟨u, w, rfl, hu, hw⟩
      exact ⟨u, w, rfl, acceptsAll_cons.mpr hu, hw⟩
    · rintro ⟨u, w, rfl, hu, hw⟩
      exact ⟨u, w, rfl, acceptsAll_cons.mp hu, hw⟩

end accepts

section step

variable {name : List UInt8}

mutual

/-- One item goes from the positions behind `P` to those behind `P` and what it accepts. -/
theorem Marks.step {reached : List Bool} {P : List UInt8 → Prop} (h : Marks name reached P)
    (p : Pattern) : Marks name (p.step name reached) (Then P p.Accepts) := by
  cases p with
  | byte b => exact (h.stepByte _).congr (Then.congr fun _ => accepts_byte.symm)
  | anyByte => exact (h.stepByte _).congr (Then.congr fun _ => accepts_anyByte.symm)
  | anyBytes => exact h.stepAny.congr (Then.congr fun _ => accepts_anyBytes.symm)
  | optionalSlash =>
    refine (h.union (h.stepByte (· == slash))).congr fun as => ?_
    rw [Then.congr fun _ => accepts_optionalSlash]
    constructor
    · rintro (hP | ⟨u, v, rfl, hP, hv⟩)
      · exact ⟨as, [], (List.append_nil as).symm, hP, .inl rfl⟩
      · exact ⟨u, v, rfl, hP, .inr hv⟩
    · rintro ⟨u, v, rfl, hP, rfl | hv⟩
      · rw [List.append_nil]
        exact .inl hP
      · exact .inr ⟨u, v, rfl, hP, hv⟩
  | oneOf negated ranges => exact (h.stepByte _).congr (Then.congr fun _ => accepts_oneOf.symm)
  | choice branches =>
    exact (h.stepBranches branches).congr (Then.congr fun _ => accepts_choice.symm)

theorem Marks.stepItems {reached : List Bool} {P : List UInt8 → Prop} (h : Marks name reached P)
    (ps : List Pattern) : Marks name (stepItems name ps reached) (Then P (AcceptsAll ps)) := by
  cases ps with
  | nil =>
    refine h.congr fun as => ?_
    simp [Then, acceptsAll_nil]
  | cons p ps =>
    refine ((h.step p).stepItems ps).congr fun as => ?_
    rw [then_assoc]
    exact Then.congr (fun _ => acceptsAll_cons.symm) as

theorem Marks.stepBranches {reached : List Bool} {P : List UInt8 → Prop} (h : Marks name reached P)
    (branches : List (List Pattern)) : Marks name (stepBranches name branches reached)
      (Then P fun v => ∃ branch ∈ branches, AcceptsAll branch v) := by
  cases branches with
  | nil =>
    refine (marks_none h.length).congr fun as => ?_
    simp [Then]
  | cons b bs =>
    refine ((h.stepItems b).union (h.stepBranches bs)).congr fun as => ?_
    constructor
    · rintro (⟨u, v, rfl, hP, hv⟩ | ⟨u, v, rfl, hP, branch, hb, hv⟩)
      · exact ⟨u, v, rfl, hP, b, List.mem_cons_self, hv⟩
      · exact ⟨u, v, rfl, hP, branch, List.mem_cons_of_mem b hb, hv⟩
    · rintro ⟨u, v, rfl, hP, branch, hb, hv⟩
      rcases List.mem_cons.mp hb with rfl | hb
      · exact .inl ⟨u, v, rfl, hP, hv⟩
      · exact .inr ⟨u, v, rfl, hP, branch, hb, hv⟩

end

end step

/-- The search finds a match exactly if there is one. -/
theorem matchesBytes_iff (ps : List Pattern) (name : List UInt8) :
    matchesBytes ps name = true ↔ AcceptsAll ps name := by
  have h := (marks_start name).stepItems ps
  have hlast : (stepItems name ps (start name)).getLast? =
      (stepItems name ps (start name))[name.length]? := by
    rw [List.getLast?_eq_getElem?, h.length, Nat.add_sub_cancel]
  obtain ⟨r, hr, hiff⟩ := h.exists_getElem? (List.append_nil name).symm
  rw [matchesBytes, hlast, hr, Option.getD_some, hiff]
  simp [Then]

end InitializerLint.Glob.Pattern
