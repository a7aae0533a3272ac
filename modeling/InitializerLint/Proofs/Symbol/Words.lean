import InitializerLint.Proofs.Json.Words
import InitializerLint.Proofs.Symbol.Depth

/-! The unsigned fields of locations, which are kept with their symbol before they are decoded. -/
namespace InitializerLint

open Json (FieldSpec ReadsPresented ReadsWords Slot Spot Tree WordPlace)

namespace Location

inductive WordField where
  | line
  | column
  | length

namespace WordField

def name : WordField → String
  | .line => "line"
  | .column => "column"
  | .length => "length"

def get : WordField → Location → UInt64
  | .line => (·.line)
  | .column => (·.column)
  | .length => (·.length)

def set : WordField → UInt64 → Location → Location
  | .line, n, l => { l with line := n }
  | .column, n, l => { l with column := n }
  | .length, n, l => { l with length := n }

/-- Only the length may be left out. -/
def default? : WordField → Option UInt64
  | .length => some 0
  | _ => none

def spec (f : WordField) : FieldSpec Location := ⟨f.name, f.get, f.default?, Tree.IsWord⟩

theorem get_set (f : WordField) (n : UInt64) (l : Location) : f.get (f.set n l) = n := by
  cases f <;> rfl

theorem spec_mem (f : WordField) : f.spec ∈ specs := by
  cases f <;> simp [spec, specs, name, get, default?]

theorem get_set_other (f : WordField) (n : UInt64) (l : Location) :
    ∀ q ∈ specs, q.name ≠ f.spec.name → q.get (f.set n l) = q.get l := by
  cases f <;> simp [specs, spec, name, set]

end WordField

/-- A word stands in the place, and any other word may stand there. -/
theorem keeps_put {f : WordField} {s : Spot} (hs : s.IsFor (specs.map (·.name)) f.name)
    {l : Location} {d : Tree} (h : (s.put d).Keeps specs l) : (∃ n, d.IsWord n) ∧
      ∀ d' n, d'.IsWord n → (s.put d').Keeps specs (f.set n l) := by
  have hn := describes.nodup
  obtain ⟨hreadable, hpresents⟩ := h
  constructor
  · exact ⟨_, hpresents.means hn f.spec_mem hs⟩
  · intro d' n hd
    have hword : d'.IsWord (f.get (f.set n l)) := by rwa [f.get_set]
    constructor
    · exact Spot.readable_put hreadable fun _ => hd.readable
    · exact hpresents.put hn f.spec_mem hs hword (f.get_set_other n l)

end Location

namespace NamedType

/-- The names of what a named type has besides its kind, and of the kind. -/
def names : List String := "kind" :: specs.map (·.name)

variable {s : Spot} {t : NamedType} {d d' : Tree}

theorem locations_mem :
    (⟨"locations", (·.locations), some [], Tree.IsList (Tree.Keeps Location.specs)⟩ :
      FieldSpec NamedType) ∈ specs := by simp [specs]

theorem nodup_names (t : NamedType) :
    ((Tree.tagSlot "kind" "named_type" :: (Symbol.namedType t).slots).map (·.name)).Nodup := by
  change names.Nodup
  decide

/-- The locations stand in their place, and others may stand there. -/
theorem presentedBy_put (hs : s.IsFor names "locations")
    (h : (Symbol.namedType t).PresentedBy (s.put d)) :
    d.IsList (Tree.Keeps Location.specs) t.locations ∧
      ∀ d' ls, d'.IsList (Tree.Keeps Location.specs) ls → (d.Readable → d'.Readable) →
        (Symbol.namedType { t with locations := ls }).PresentedBy (s.put d') := by
  obtain ⟨hreadable, hfills⟩ := h
  let p : FieldSpec NamedType :=
    ⟨"locations", (·.locations), some [], Tree.IsList (Tree.Keeps Location.specs)⟩
  have hmem : p.slot t ∈ Tree.tagSlot "kind" "named_type" :: (Symbol.namedType t).slots :=
    .tail _ (List.mem_map_of_mem locations_mem)
  constructor
  · exact hfills.fits (nodup_names t) hmem hs
  · intro d' ls hls hd
    constructor
    · exact Spot.readable_put hreadable hd
    · have hkind : (Tree.tagSlot "kind" "named_type").Updates "locations" d'
          (Tree.tagSlot "kind" "named_type") := ⟨rfl, by simp [Tree.tagSlot], fun _ => rfl⟩
      have hfields : List.Forall₂ (Slot.Updates "locations" d') (specs.map (·.slot t))
          (specs.map (·.slot { t with locations := ls })) :=
        Tree.updates_specs (p := p) hls locations_mem describes.nodup (by simp [specs, p])
      exact hfills.put (nodup_names t) hs (.cons hkind hfields)

end NamedType

/-- What stands in the place of the locations does not bear on the kind of the symbol. -/
theorem Symbol.exists_namedType {s : Spot} (hs : s.IsFor NamedType.names "locations") {t : NamedType}
    {d d' : Tree} (h : (Symbol.namedType t).PresentedBy (s.put d)) {x : Symbol}
    (hx : x.PresentedBy (s.put d')) : ∃ u, x = .namedType u := by
  have htag : "named_type" = x.kind.text := Tree.Fills.tag_unique hs (by decide) h.2 hx.2
  cases x with
  | namedType u => exact ⟨u, rfl⟩
  | other k name => cases k <;> simp [Symbol.kind, SymbolKind.text, OtherKind.text] at htag

namespace SymbolTable

open Location (WordField)

/-- The field of the `j`-th location of the `i`-th symbol, if that is a type with such a location. -/
def wordPlace (i j : Nat) (f : WordField) : WordPlace SymbolTable where
  get? t := match t.symbols[i]? with
    | some (.namedType u) => u.locations[j]?.map f.get
    | _ => none
  set n t := ⟨t.symbols.modify i fun
    | .namedType u => .namedType { u with locations := u.locations.modify j (f.set n) }
    | s => s⟩
  get?_set n t h := by
    cases hsymbol : t.symbols[i]? with
    | none => simp [hsymbol] at h
    | some s =>
      cases s with
      | other k name => simp [hsymbol] at h
      | namedType u =>
        cases hlocation : u.locations[j]? with
        | none => simp [hsymbol, hlocation] at h
        | some l => simp [hsymbol, hlocation, f.get_set]

theorem exists_namedType {t : SymbolTable} {i j : Nat} {f : WordField}
    (h : ((wordPlace i j f).get? t).isSome) : ∃ u, t.symbols[i]? = some (.namedType u) := by
  unfold wordPlace at h
  cases hsymbol : t.symbols[i]? with
  | none => simp [hsymbol] at h
  | some s =>
    cases s with
    | other k name => simp [hsymbol] at h
    | namedType u => exact ⟨u, rfl⟩

theorem symbols_mem : ⟨"symbols", (·.symbols), some [],
    Tree.IsList fun d s => d.Within Symbol.levels ∧ s.PresentedBy d⟩ ∈ limitedSpecs :=
  List.mem_cons_self ..

/-- A table that lacks an unsigned field of a location: what stands around it, inwards. -/
structure WordSite (f : WordField) where
  symbols : Spot
  symbolsBefore : List Tree
  symbolsAfter : List Tree
  locations : Spot
  locationsBefore : List Tree
  locationsAfter : List Tree
  field : Spot
  symbols_isFor : symbols.IsFor (specs.map (·.name)) "symbols"
  locations_isFor : locations.IsFor NamedType.names "locations"
  field_isFor : field.IsFor (Location.specs.map (·.name)) f.name

namespace WordSite

variable {f : WordField} (s : WordSite f)

def putLocation (d : Tree) : Tree :=
  (Spot.item s.locationsBefore s.locationsAfter).put (s.field.put d)

def putSymbol (d : Tree) : Tree := s.locations.put (s.putLocation d)

def put (d : Tree) : Tree :=
  s.symbols.put ((Spot.item s.symbolsBefore s.symbolsAfter).put (s.putSymbol d))

def place : WordPlace SymbolTable := wordPlace s.symbolsBefore.length s.locationsBefore.length f

variable {s} {t : SymbolTable} {d : Tree}

/-- The symbol in the place, its number of brackets included. -/
theorem exists_symbol (h : (s.put d).Presents limitedSpecs t) :
    ∃ x, t.symbols[s.symbolsBefore.length]? = some x ∧
      (s.putSymbol d).Within Symbol.levels ∧ x.PresentedBy (s.putSymbol d) := by
  have hsymbols := h.means describes_limited.nodup symbols_mem s.symbols_isFor
  exact hsymbols.item

theorem within_putSymbol {d' : Tree} {n : UInt64} (hd : d'.IsWord n) {k : Nat}
    (h : (s.putSymbol d).Within k) : (s.putSymbol d').Within k := by
  apply Spot.within_put _ k h
  apply Spot.within_put
  apply Spot.within_put
  exact fun k _ => hd.within k

theorem readable_putLocation {d' : Tree} {n : UInt64} (hd : d'.IsWord n)
    (h : (s.putLocation d).Readable) : (s.putLocation d').Readable := by
  apply Spot.readable_put h
  intro hfield
  apply Spot.readable_put hfield
  exact fun _ => hd.readable

theorem isWord_of_symbol {u : NamedType}
    (h : (Symbol.namedType u).PresentedBy (s.putSymbol d)) : ∃ n, d.IsWord n := by
  obtain ⟨hlocations, -⟩ := NamedType.presentedBy_put s.locations_isFor h
  obtain ⟨l, -, hl⟩ := hlocations.item
  exact (Location.keeps_put s.field_isFor hl).1

theorem symbol_put {u : NamedType} {d' : Tree} {n : UInt64} (hd : d'.IsWord n)
    (h : (Symbol.namedType u).PresentedBy (s.putSymbol d)) :
    (Symbol.namedType { u with
      locations := u.locations.modify s.locationsBefore.length (f.set n) }).PresentedBy
        (s.putSymbol d') := by
  obtain ⟨hlocations, hput⟩ := NamedType.presentedBy_put s.locations_isFor h
  apply hput
  · apply hlocations.modify
    intro l _ hl
    exact (Location.keeps_put s.field_isFor hl).2 d' n hd
  · exact readable_putLocation hd

theorem presents_put {d' : Tree} {n : UInt64} (h : (s.put d).Presents limitedSpecs t)
    (ht : (s.place.get? t).isSome) (hd : d'.IsWord n) :
    (s.put d').Presents limitedSpecs (s.place.set n t) := by
  obtain ⟨u, hu⟩ := exists_namedType ht
  have hsymbols := h.means describes_limited.nodup symbols_mem s.symbols_isFor
  apply h.put describes_limited.nodup symbols_mem s.symbols_isFor _ (by simp [limitedSpecs])
  apply hsymbols.modify
  rintro x hx ⟨hwithin, hpresented⟩
  obtain rfl : .namedType u = x := Option.some.inj (hu.symm.trans hx)
  exact ⟨within_putSymbol hd hwithin, symbol_put hd hpresented⟩

theorem exists_isWord {d' : Tree} {t' : SymbolTable} (h : (s.put d).Presents limitedSpecs t)
    (ht : (s.place.get? t).isSome) (h' : (s.put d').Presents limitedSpecs t') :
    ∃ n, d'.IsWord n := by
  obtain ⟨u, hu⟩ := exists_namedType ht
  obtain ⟨x, hx, -, hpresented⟩ := exists_symbol h
  obtain rfl : .namedType u = x := Option.some.inj (hu.symm.trans hx)
  obtain ⟨x', -, -, hpresented'⟩ := exists_symbol h'
  obtain ⟨u', rfl⟩ := Symbol.exists_namedType s.locations_isFor hpresented hpresented'
  exact isWord_of_symbol hpresented'

end WordSite

theorem readsPresented_json : ReadsPresented ofJson .json fun d => d.Presents limitedSpecs := by
  intro d text hw
  obtain ⟨hok, herror⟩ := ofJson_limited hw
  exact ⟨fun t => (hok t).mpr, herror⟩

theorem readsWords_json {f : WordField} (s : WordSite f) :
    ReadsWords ofJson .json s.put s.place :=
  readsPresented_json.readsWords WordSite.presents_put WordSite.exists_isWord

end SymbolTable
end InitializerLint
