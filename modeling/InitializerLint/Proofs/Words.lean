import InitializerLint.Proofs.Config.Words
import InitializerLint.Proofs.Symbol.Words

/-! The unsigned fields of both formats. Settings are read straight from their text, the locations of
a table after their symbol was kept, and both decide alike about every number literal. -/
namespace InitializerLint

open Json (Document Numeral ReadAs ReadsWords Spelling)

/-- Each literal in the place of an unsigned field is stored exactly or is an error, in settings as
in tables. -/
theorem unsigned_fields_read_exactly :
    (∀ (f : Config.WordField) (s : Config.WordSite f),
      ReadsWords (Config.parse "json") .json s.put f.place) ∧
    (∀ (f : Location.WordField) (s : SymbolTable.WordSite f),
      ReadsWords SymbolTable.ofJson .json s.put s.place) ∧
    (∀ (files : Files.Tree) (path text : String), Files.fileExtension path = "json" →
      files.readText path = .ok text → (Config.load files path).value = Config.parse "json" text) ∧
    ∀ (f : Config.WordField) (g : Location.WordField) (s : Config.WordSite f)
      (s' : SymbolTable.WordSite g) (c : Config) (t : SymbolTable),
      ReadAs (Config.parse "json") s.put f.place c → ReadAs SymbolTable.ofJson s'.put s'.place t →
      ∀ negative x text text', (s.put (.number negative x)).WritesDocument text →
        (s'.put (.number negative x)).WritesDocument text' →
        ((∃ c, Config.parse "json" text = .ok c) ↔ ∃ t, SymbolTable.ofJson text' = .ok t) := by
  have hload (files : Files.Tree) (path text : String) (hext : Files.fileExtension path = "json")
      (htext : files.readText path = .ok text) :
      (Config.load files path).value = Config.parse "json" text := by
    rw [Config.value_load htext, hext]
  refine ⟨fun f s => Config.readsWords_json s, fun f s => SymbolTable.readsWords_json s, hload, ?_⟩
  intro f g s s' c t hc ht negative x text text' hw hw'
  rw [(Config.readsWords_json s).isOk_iff hc hw, (SymbolTable.readsWords_json s').isOk_iff ht hw']

/-- A power of ten has an exponent, and zero has no sign. -/
example : (∃ e, Config.parse "json" "[[true,1e2]]" = .error (.json e)) ∧
    ∃ e, SymbolTable.ofJson "[[[\"named_type\",\"A\",[],[],[[\"a.cs\",1,-0]]]]]" = .error (.json e) :=
  ⟨⟨_, rfl⟩, ⟨_, rfl⟩⟩

def jobsDocument (n : Nat) : Document := .object [("engine", .object [("jobs", .number n)])]

/-- A table in lists, with a location that is an object. -/
def columnDocument (n : Nat) : Document :=
  .list [.list [.list [.text "named_type", .text "A", .list [], .list [], .list [
    .object [("file", .text "a.cs"), ("line", .number 1), ("column", .number n)]]]]]

def jobsSite : Config.WordSite .jobs where
  outer := .entry [] (.ofText "engine") []
  inner := .entry [] (.ofText "jobs") []
  outer_isFor := Spelling.text?_ofText "engine"
  inner_isFor := Spelling.text?_ofText "jobs"

def columnSite : SymbolTable.WordSite .column where
  symbols := .item [] []
  symbolsBefore := []
  symbolsAfter := []
  locations := .item
    [(Document.text "named_type").tree, (Document.text "A").tree, .list [], .list []] []
  locationsBefore := []
  locationsAfter := []
  field := .entry [(.ofText "file", (Document.text "a.cs").tree),
    (.ofText "line", (Document.number 1).tree)] (.ofText "column") []
  symbols_isFor := rfl
  locations_isFor := rfl
  field_isFor := Spelling.text?_ofText "column"

/-- The largest number is stored, and the next one is an error. -/
theorem unsigned_fields_read_exactly_limit :
    Config.parse "json" (jobsDocument 18446744073709551615).toText =
        .ok { engine := { jobs := 18446744073709551615 } } ∧
      ∃ e, SymbolTable.ofJson (columnDocument 18446744073709551616).toText = .error (.json e) := by
  have hjobs : ReadAs (Config.parse "json") jobsSite.put Config.WordField.jobs.place {} :=
    ⟨(Document.number 0).tree, _, Document.writesDocument (jobsDocument 0), rfl, rfl⟩
  have hcolumn : ReadAs SymbolTable.ofJson columnSite.put columnSite.place
      ⟨[.namedType { displayName := "A", locations := [⟨"a.cs", 1, 0, 0⟩] }]⟩ :=
    ⟨(Document.number 0).tree, _, Document.writesDocument (columnDocument 0), rfl, rfl⟩
  have hvalue (n : Nat) : Numeral.digitsValue (Numeral.decimal n) = n := Numeral.digitsValue_decimal n
  obtain ⟨hconfig, htable, -, -⟩ := unsigned_fields_read_exactly
  constructor
  · have hwrites := Document.writesDocument (jobsDocument 18446744073709551615)
    obtain ⟨hunsigned, -⟩ := hconfig .jobs jobsSite {} hjobs false _ _ hwrites
    obtain ⟨n, hn, hparse, -⟩ := hunsigned ⟨rfl, rfl, rfl, by rw [hvalue]; decide⟩
    rw [hvalue] at hn
    obtain rfl : n = 18446744073709551615 := UInt64.toNat_inj.mp hn
    exact hparse
  · have hwrites := Document.writesDocument (columnDocument 18446744073709551616)
    obtain ⟨-, hother⟩ := htable .column columnSite _ hcolumn false _ _ hwrites
    apply hother
    rintro ⟨-, -, -, hbound⟩
    rw [hvalue] at hbound
    exact absurd hbound (by decide)

end InitializerLint
