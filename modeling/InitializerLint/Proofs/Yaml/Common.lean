import InitializerLint.Json.Document
import InitializerLint.Yaml.Token

/-! The documents whose compact text means the same as YAML: no character beyond printable ASCII
apart from escaped ones, keys short enough to be recognised, and integers of 64 bits. -/
namespace InitializerLint

/-- Control characters and those that are printed in ASCII. -/
def IsCommonText (s : String) : Prop := ∀ c ∈ s.toList, c.toNat ≤ 0x7E

instance (s : String) : Decidable (IsCommonText s) := List.decidableBAll _ s.toList

namespace Json.Document

structure IsCommonKey (key : String) : Prop where
  text : IsCommonText key
  short : (quote key).length ≤ 1024

theorem IsCommonKey.of_escaped {key : String} {n : Nat} (hkey : IsCommonText key)
    (hn : (key.toList.flatMap escapeChar).length ≤ n) (h : n ≤ 1022) : IsCommonKey key where
  text := hkey
  short := by
    rw [quote, List.cons_append, List.length_cons, List.length_append, List.length_singleton]
    omega

instance (key : String) : Decidable (IsCommonKey key) :=
  decidable_of_iff (IsCommonText key ∧ (quote key).length ≤ 1024)
    ⟨fun h => ⟨h.1, h.2⟩, fun h => ⟨h.text, h.short⟩⟩

inductive Common : Document → Prop
  | null : Common .null
  | bool (b : Bool) : Common (.bool b)
  | number {n : Nat} : n < UInt64.size → Common (.number n)
  | text {s : String} : IsCommonText s → Common (.text s)
  | list {ds : List Document} : (∀ d ∈ ds, Common d) → Common (.list ds)
  | object {es : List (String × Document)} :
      (∀ e ∈ es, IsCommonKey e.1) → (∀ e ∈ es, Common e.2) → Common (.object es)

/-- An object with known keys. -/
theorem Common.record {es : List (String × Document)} {keys : List String}
    (hes : es.map (·.1) = keys) (hkeys : ∀ key ∈ keys, IsCommonKey key)
    (hvalues : ∀ e ∈ es, e.2.Common) : Common (Document.object es) := by
  refine .object (fun e he => hkeys e.1 ?_) hvalues
  rw [← hes]
  exact List.mem_map_of_mem he

theorem renderItems_eq (ds : List Document) : renderItems ds = [','].intercalate (ds.map render) := by
  induction ds with
  | nil => rfl
  | cons d ds ih =>
    cases ds with
    | nil => exact List.intercalate_singleton.symm
    | cons d' ds =>
      rw [List.map_cons, List.map_cons, List.intercalate_cons_cons, ← List.map_cons, ← ih,
        List.append_assoc]
      rfl

/-- The text of an entry. -/
def renderEntry (e : String × Document) : List Char := quote e.1 ++ ':' :: e.2.render

theorem renderEntries_eq (es : List (String × Document)) :
    renderEntries es = [','].intercalate (es.map renderEntry) := by
  induction es with
  | nil => rfl
  | cons e es ih =>
    cases es with
    | nil => exact List.intercalate_singleton.symm
    | cons e' es =>
      rw [List.map_cons, List.map_cons, List.intercalate_cons_cons, ← List.map_cons, ← ih,
        List.append_assoc]
      rfl

/-- What a compact text consists of. -/
def IsPrintable (cs : List Char) : Prop := ∀ c ∈ cs, 0x20 ≤ c.toNat ∧ c.toNat ≤ 0x7E

instance (cs : List Char) : Decidable (IsPrintable cs) := List.decidableBAll _ cs

theorem isPrintable_append {cs ds : List Char} :
    IsPrintable (cs ++ ds) ↔ IsPrintable cs ∧ IsPrintable ds := List.forall_mem_append

theorem isPrintable_cons {c : Char} {cs : List Char} :
    IsPrintable (c :: cs) ↔ IsPrintable [c] ∧ IsPrintable cs := by
  rw [← List.singleton_append, isPrintable_append]

theorem isPrintable_flatMap {α : Type} {f : α → List Char} {as : List α} :
    IsPrintable (as.flatMap f) ↔ ∀ a ∈ as, IsPrintable (f a) := List.forall_mem_flatMap

theorem isPrintable_escapeChar {c : Char} (hc : c.toNat ≤ 0x7E) : IsPrintable (escapeChar c) := by
  have hhex : ∀ n < 16, IsPrintable [hexDigit n] := by decide
  unfold escapeChar
  split
  case h_8 =>
    split
    · next hlt =>
      have hfixed : IsPrintable ['\\', 'u', '0', '0'] := by decide
      have hdigits : IsPrintable [hexDigit (c.toNat / 16), hexDigit (c.toNat % 16)] :=
        isPrintable_cons.mpr ⟨hhex _ (by omega), hhex _ (by omega)⟩
      exact isPrintable_append.mpr ⟨hfixed, hdigits⟩
    · next hlt => simpa [IsPrintable] using ⟨Nat.not_lt.mp hlt, hc⟩
  all_goals decide

theorem isPrintable_quote {s : String} (hs : IsCommonText s) : IsPrintable (quote s) := by
  have hbody : IsPrintable (s.toList.flatMap escapeChar) :=
    isPrintable_flatMap.mpr fun c hc => isPrintable_escapeChar (hs c hc)
  rw [quote, isPrintable_append, isPrintable_cons]
  exact ⟨⟨by decide, hbody⟩, by decide⟩

private theorem isPrintable_intercalate {parts : List (List Char)} (h : ∀ p ∈ parts, IsPrintable p) :
    IsPrintable ([','].intercalate parts) := by
  induction parts with
  | nil => simp [IsPrintable]
  | cons p parts ih =>
    obtain ⟨hp, hparts⟩ := List.forall_mem_cons.mp h
    cases parts with
    | nil => rwa [List.intercalate_singleton]
    | cons q parts =>
      rw [List.intercalate_cons_cons, isPrintable_append, isPrintable_append]
      exact ⟨⟨hp, by decide⟩, ih hparts⟩

theorem isPrintable_render {d : Document} (h : d.Common) : IsPrintable d.render := by
  induction h with
  | null => decide
  | bool b => cases b <;> decide
  | number =>
    intro x hx
    have hdigit := Nat.isDigit_of_mem_toDigits (b := 10) (by decide) (by decide) hx
    have hrange : 48 ≤ x.toNat ∧ x.toNat ≤ 57 := by
      simpa [Char.isDigit, UInt32.le_iff_toNat_le] using hdigit
    omega
  | text hs => exact isPrintable_quote hs
  | list _ ih =>
    rw [render, renderItems_eq, isPrintable_append, isPrintable_cons]
    exact ⟨⟨by decide, isPrintable_intercalate (List.forall_mem_map.mpr ih)⟩, by decide⟩
  | @object es hkeys _ ih =>
    have hentry (e : String × Document) (he : e ∈ es) : IsPrintable (renderEntry e) := by
      rw [renderEntry, isPrintable_append, isPrintable_cons]
      exact ⟨isPrintable_quote (hkeys e he).text, by decide, ih e he⟩
    rw [render, renderEntries_eq, isPrintable_append, isPrintable_cons]
    exact ⟨⟨by decide, isPrintable_intercalate (List.forall_mem_map.mpr hentry)⟩, by decide⟩

end Json.Document
end InitializerLint
