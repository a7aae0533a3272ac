import InitializerLint.Config.Basic
import Mathlib.Data.List.Nodup

/-! Suppression entries as a map: a pattern stands once, with the rules that were given last. -/
namespace InitializerLint.PerType

/-- No pattern stands twice. -/
def Distinct (m : PerType) : Prop := (m.map (·.1)).Nodup

instance (m : PerType) : Decidable m.Distinct := inferInstanceAs (Decidable (List.Nodup _))

private theorem lookup_cons_ite (e : String × List String) (es : PerType) (key : String) :
    List.lookup key (e :: es) = if key = e.1 then some e.2 else es.lookup key := by
  rw [List.lookup_cons]
  by_cases hk : key = e.1
  · rw [if_pos hk, beq_iff_eq.mpr hk]
  · rw [if_neg hk, beq_eq_false_iff_ne.mpr hk]

theorem lookup_insert (m : PerType) (pattern : String) (ids : List String) (key : String) :
    (m.insert pattern ids).lookup key = if key = pattern then some ids else m.lookup key := by
  induction m with
  | nil => exact lookup_cons_ite (pattern, ids) [] key
  | cons e es ih =>
    unfold insert
    by_cases he : e.1 = pattern
    · subst he
      rw [if_pos rfl, lookup_cons_ite, lookup_cons_ite]
      by_cases hk : key = e.1 <;> simp [hk]
    · rw [if_neg he, lookup_cons_ite, lookup_cons_ite, ih]
      by_cases hk : key = pattern
      · rw [if_neg fun h => he (h.symm.trans hk), if_pos hk, if_pos hk]
      · rw [if_neg hk, if_neg hk]

/-- A known pattern keeps its place, a new one goes to the end. -/
theorem map_fst_insert (m : PerType) (pattern : String) (ids : List String) :
    (m.insert pattern ids).map (·.1) =
      if pattern ∈ m.map (·.1) then m.map (·.1) else m.map (·.1) ++ [pattern] := by
  induction m with
  | nil => simp [insert]
  | cons e es ih =>
    unfold insert
    by_cases he : e.1 = pattern
    · simp [he]
    · rw [if_neg he, List.map_cons, ih]
      by_cases hm : pattern ∈ es.map (·.1) <;> simp [hm, Ne.symm he]

theorem Distinct.insert {m : PerType} (h : m.Distinct) (pattern : String) (ids : List String) :
    (PerType.insert m pattern ids).Distinct := by
  unfold Distinct
  rw [map_fst_insert]
  split
  · exact h
  · next hm =>
    refine List.nodup_append.mpr ⟨h, List.nodup_singleton _, fun a ha b hb hab => hm ?_⟩
    rwa [← List.mem_singleton.mp hb, ← hab]

theorem insert_of_notMem {m : PerType} {pattern : String} (h : pattern ∉ m.map (·.1))
    (ids : List String) : m.insert pattern ids = m ++ [(pattern, ids)] := by
  induction m with
  | nil => rfl
  | cons e es ih =>
    rw [List.map_cons, List.mem_cons, not_or] at h
    rw [insert, if_neg (Ne.symm h.1), ih h.2, List.cons_append]

theorem distinct_ofEntries (entries : List (String × List String)) : (ofEntries entries).Distinct := by
  suffices h : ∀ m : PerType, m.Distinct → Distinct (entries.foldl (fun m e => m.insert e.1 e.2) m) from
    h [] List.nodup_nil
  induction entries with
  | nil => exact fun m hm => hm
  | cons e es ih => exact fun m hm => ih _ (hm.insert e.1 e.2)

/-- The last of several entries for a pattern counts. -/
theorem lookup_ofEntries (entries : List (String × List String)) (key : String) :
    (ofEntries entries).lookup key = entries.reverse.lookup key := by
  suffices h : ∀ m : PerType, (entries.foldl (fun m e => m.insert e.1 e.2) m).lookup key =
      (entries.reverse.lookup key).or (m.lookup key) by
    rw [ofEntries, h, List.lookup_nil, Option.or_none]
  induction entries with
  | nil => exact fun m => rfl
  | cons e es ih =>
    intro m
    rw [List.foldl_cons, ih, lookup_insert, List.reverse_cons, List.lookup_append, Option.or_assoc]
    rw [lookup_cons_ite]
    by_cases hk : key = e.1 <;> simp [hk]

/-- Entries that form a map already stay as they are. -/
theorem ofEntries_of_distinct {m : PerType} (h : m.Distinct) : ofEntries m = m := by
  suffices hf : ∀ es acc : PerType, Distinct (acc ++ es) →
      es.foldl (fun m e => m.insert e.1 e.2) acc = acc ++ es from hf m [] h
  intro es
  induction es with
  | nil => simp
  | cons e es ih =>
    intro acc hd
    have hnew : e.1 ∉ acc.map (·.1) := by
      rw [Distinct, List.map_append, List.nodup_append] at hd
      exact fun he => hd.2.2 _ he _ (by simp) rfl
    rw [List.foldl_cons, insert_of_notMem hnew, ih]
    · simp
    · simpa using hd

end InitializerLint.PerType
