import InitializerLint.Proofs.Yaml.Common
import InitializerLint.Proofs.Yaml.Token

/-! The tokens of a compact text. It is one line, so that what is between two of its brackets is
scanned in the same way wherever it stands. -/
namespace InitializerLint

namespace Json.Document

open Yaml (Token)

mutual

/-- Strings are quoted scalars and all other scalars plain ones. -/
def tokens : Document → List Token.Kind
  | .null => [.scalar .plain ['n', 'u', 'l', 'l']]
  | .bool true => [.scalar .plain ['t', 'r', 'u', 'e']]
  | .bool false => [.scalar .plain ['f', 'a', 'l', 's', 'e']]
  | .number n => [.scalar .plain (Nat.toDigits 10 n)]
  | .text s => [.scalar .doubleQuoted s.toList]
  | .list ds => .flowSequenceStart :: [.flowEntry].intercalate (itemTokens ds) ++ [.flowSequenceEnd]
  | .object es => .flowMappingStart :: [.flowEntry].intercalate (entryTokens es) ++ [.flowMappingEnd]

def itemTokens : List Document → List (List Token.Kind)
  | [] => []
  | d :: ds => d.tokens :: itemTokens ds

def entryTokens : List (String × Document) → List (List Token.Kind)
  | [] => []
  | (k, d) :: es => ([.key, .scalar .doubleQuoted k.toList, .value] ++ d.tokens) :: entryTokens es

end

def entryToken (e : String × Document) : List Token.Kind :=
  [.key, .scalar .doubleQuoted e.1.toList, .value] ++ e.2.tokens

theorem itemTokens_eq (ds : List Document) : itemTokens ds = ds.map tokens := by
  induction ds with
  | nil => rfl
  | cons d ds ih => rw [itemTokens, ih, List.map_cons]

theorem entryTokens_eq (es : List (String × Document)) : entryTokens es = es.map entryToken := by
  induction es with
  | nil => rfl
  | cons e es ih => rw [entryTokens, ih, List.map_cons, entryToken]

end Json.Document

namespace Yaml.TokenList

/-- `n` more tokens lead from one state to the other. -/
def Leads (n : Nat) (s s' : Scanner) : Prop := ∀ k, scanFrom false s (n + k) = scanFrom false s' k

theorem Leads.trans {n m : Nat} {s s' s'' : Scanner} (h : Leads n s s') (h' : Leads m s' s'') :
    Leads (n + m) s s'' := by
  intro k
  rw [Nat.add_assoc, h, h']

theorem next_eq {s s' : Scanner} (h : Lex.fetch s = some ((), s'))
    (hopt : ∀ k ∈ s'.keys, ∀ p ∈ k, p.required = false) : next false s = some ((), s'.fresh) := by
  unfold next
  simp [h, Lex.dropStaleKeys_eq hopt]

variable {height height' : Nat} {allowed allowed' : Bool} {kinds kinds' : List Token.Kind}

theorem leads_one {s s' : Scanner} {cs : List Char} (h : Lex.fetch s = some ((), s'))
    (h' : Stands s' height allowed kinds cs) : Leads 1 s s'.fresh := by
  intro k
  have hopen : s'.fresh.finished = false := h'.fresh.unfinished
  rw [Nat.add_comm, scanFrom, next_eq h h'.optional]
  simp [hopen]

/-- Where tokens are scanned: how many collections are open, and whether a key may start. -/
structure Spot where
  height : Nat
  keyAllowed : Bool

/-- From `p` the text is scanned to the tokens and leads to `q`, if what follows is as it should. -/
def Scans (p : Spot) (text : List Char) (kinds : List Token.Kind) (q : Spot)
    (Follow : List Char → Prop) : Prop :=
  ∀ s before rest, Stands s p.height p.keyAllowed before (text ++ rest) → Follow rest →
    ∃ n s', n ≤ text.length ∧ Leads n s s' ∧ Stands s' q.height q.keyAllowed (before ++ kinds) rest

section scans

variable {p q r : Spot} {text text' : List Char} {Follow Follow' : List Char → Prop}

theorem Scans.append (h : Scans p text kinds q Follow) (h' : Scans q text' kinds' r Follow')
    (hf : ∀ rest, Follow' rest → Follow (text' ++ rest)) :
    Scans p (text ++ text') (kinds ++ kinds') r Follow' := by
  intro s before rest hs hrest
  rw [List.append_assoc] at hs
  obtain ⟨n, s', hn, hlead, hs'⟩ := h s before (text' ++ rest) hs (hf rest hrest)
  obtain ⟨m, s'', hm, hlead', hs''⟩ := h' s' (before ++ kinds) rest hs' hrest
  refine ⟨n + m, s'', ?_, hlead.trans hlead', ?_⟩
  · rw [List.length_append]
    exact Nat.add_le_add hn hm
  · rwa [List.append_assoc] at hs''

theorem Scans.mono (h : Scans p text kinds q Follow) (hf : ∀ rest, Follow' rest → Follow rest) :
    Scans p text kinds q Follow' :=
  fun s before rest hs hrest => h s before rest hs (hf rest hrest)

/-- A text of one token. -/
private theorem scans_one (hne : text ≠ [])
    (h : ∀ s before rest, Stands s p.height p.keyAllowed before (text ++ rest) → Follow rest →
      ∃ s', Lex.fetch s = some ((), s') ∧ Stands s' q.height q.keyAllowed (before ++ kinds) rest) :
    Scans p text kinds q Follow := by
  intro s before rest hs hrest
  obtain ⟨s', hs', hend⟩ := h s before rest hs hrest
  exact ⟨1, s'.fresh, List.length_pos_iff.mpr hne, leads_one hs' hend, hend.fresh⟩

end scans

/-- No matter what follows. -/
def Anything : List Char → Prop := fun _ => True

section marks

variable {c : Char} {kind : Token.Kind}

theorem scans_open
    (hc : (c, kind) ∈ [('[', Token.Kind.flowSequenceStart), ('{', .flowMappingStart)]) :
    Scans ⟨height, allowed⟩ [c] [kind] ⟨height + 1, true⟩ Anything := by
  refine scans_one (by simp) fun s before rest hs _ => ?_
  have hfetch : Lex.fetch s = Lex.flowStart kind s.fresh := by
    simp only [List.mem_cons, Prod.mk.injEq, List.not_mem_nil, or_false] at hc
    rcases hc with ⟨rfl, rfl⟩ | ⟨rfl, rfl⟩ <;> exact Lex.fetch_eq_of_mem hs (by simp)
  rw [hfetch]
  exact Lex.moves_flowStart hs.fresh kind

theorem scans_close
    (hc : (c, kind) ∈ [(']', Token.Kind.flowSequenceEnd), ('}', .flowMappingEnd)]) :
    Scans ⟨height + 1, allowed⟩ [c] [kind] ⟨height, false⟩ Anything := by
  refine scans_one (by simp) fun s before rest hs _ => ?_
  have hfetch : Lex.fetch s = Lex.flowEnd kind s.fresh := by
    simp only [List.mem_cons, Prod.mk.injEq, List.not_mem_nil, or_false] at hc
    rcases hc with ⟨rfl, rfl⟩ | ⟨rfl, rfl⟩ <;> exact Lex.fetch_eq_of_mem hs (by simp)
  rw [hfetch]
  exact Lex.moves_flowEnd hs.fresh kind

theorem scans_comma : Scans ⟨height, allowed⟩ [','] [.flowEntry] ⟨height, true⟩ Anything := by
  refine scans_one (by simp) fun s before rest hs _ => ?_
  rw [Lex.fetch_eq_of_mem hs (x := Lex.flowEntry) (by simp)]
  exact Lex.moves_flowEntry hs.fresh

end marks

section words

variable {w : List Char} {t : String}

theorem scans_plain (hh : 0 < height) (hne : w ≠ []) (hw : ∀ c ∈ w, c.isAlphanum = true) :
    Scans ⟨height, allowed⟩ w [.scalar .plain w] ⟨height, false⟩ Scan.PlainEnds := by
  refine scans_one hne fun s before rest hs hrest => ?_
  obtain ⟨c, cs, rfl⟩ := List.exists_cons_of_ne_nil hne
  rw [Lex.fetch_plain hs (hw c (List.mem_cons_self ..))]
  exact Lex.moves_plain hs.fresh hh hne hw hrest

theorem scans_quoted (hh : 0 < height) (ht : IsCommonText t) :
    Scans ⟨height, allowed⟩ (Json.Document.quote t) [.scalar .doubleQuoted t.toList]
      ⟨height, false⟩ Anything := by
  refine scans_one (by simp [Json.Document.quote]) fun s before rest hs _ => ?_
  obtain ⟨s', hs', hend, -⟩ := Lex.moves_quoted hs.fresh hh ht
  rw [Lex.fetch_quoted hs]
  exact ⟨s', hs', hend⟩

theorem byteLength_eq_length {cs : List Char} (h : Json.Document.IsPrintable cs) :
    Text.byteLength cs = cs.length := by
  induction cs with
  | nil => rfl
  | cons c cs ih =>
    obtain ⟨hc, hcs⟩ := List.forall_mem_cons.mp h
    have hsize : c.utf8Size = 1 := by
      rw [Char.utf8Size_eq_one_iff]
      exact Nat.le_trans hc.2 (by decide)
    rw [Text.byteLength, ih hcs, hsize, List.length_cons, Nat.add_comm]

/-- A key and its colon; the key is announced only at the colon. -/
theorem scans_key (hh : 0 < height) (ht : Json.Document.IsCommonKey t) :
    Scans ⟨height, true⟩ (Json.Document.quote t ++ [':'])
      [.key, .scalar .doubleQuoted t.toList, .value] ⟨height, false⟩ Anything := by
  intro s before rest hs _
  rw [List.append_assoc] at hs
  have hshort : Text.byteLength (Json.Document.quote t) ≤ 1024 := by
    rw [byteLength_eq_length (Json.Document.isPrintable_quote ht.text)]
    exact ht.short
  obtain ⟨s', hs', hstands, hpends⟩ := Lex.moves_quoted hs.fresh hh ht.text
  obtain ⟨k, ks, hpends⟩ := hpends rfl hshort
  obtain ⟨s'', hs'', hend⟩ := Lex.moves_value hstands.fresh.fresh hh hpends.fresh.fresh
  have hquoted : Lex.fetch s = some ((), s') := (Lex.fetch_quoted hs).trans hs'
  have hcolon : Lex.fetch s'.fresh = some ((), s'') := (Lex.fetch_value hstands.fresh hh).trans hs''
  refine ⟨1 + 1, s''.fresh, ?_, (leads_one hquoted hstands).trans (leads_one hcolon hend), hend.fresh⟩
  simp [Json.Document.quote]

end words

/-- Parts between commas, and the bracket after them. -/
theorem scans_parts (parts : List (List Char × List Token.Kind)) {c : Char} {kind : Token.Kind}
    (hc : (c, kind) ∈ [(']', Token.Kind.flowSequenceEnd), ('}', .flowMappingEnd)])
    (h : ∀ p ∈ parts, Scans ⟨height + 1, true⟩ p.1 p.2 ⟨height + 1, false⟩ Scan.PlainEnds) :
    Scans ⟨height + 1, true⟩ ([','].intercalate (parts.map (·.1)) ++ [c])
      ([.flowEntry].intercalate (parts.map (·.2)) ++ [kind]) ⟨height, false⟩ Anything := by
  have hends : Scan.endsPlainInFlow c = true := by
    simp only [List.mem_cons, Prod.mk.injEq, List.not_mem_nil, or_false] at hc
    rcases hc with ⟨rfl, -⟩ | ⟨rfl, -⟩ <;> rfl
  induction parts with
  | nil => exact scans_close hc
  | cons p parts ih =>
    obtain ⟨hp, hparts⟩ := List.forall_mem_cons.mp h
    cases parts with
    | nil =>
      simp only [List.map_cons, List.map_nil, List.intercalate_singleton]
      exact hp.append (scans_close hc) fun rest _ => by simpa [Scan.PlainEnds] using hends
    | cons p' parts =>
      have hcomma := (hp.append scans_comma fun rest _ => rfl).append (ih hparts) fun _ _ => trivial
      simp only [List.map_cons, List.intercalate_cons_cons, List.append_assoc] at hcomma ⊢
      exact hcomma

section documents

open Json (Document)

variable {ds : List Document} {es : List (String × Document)}

theorem scans_list (h : ∀ d ∈ ds, Scans ⟨height + 1, true⟩ d.render d.tokens ⟨height + 1, false⟩
    Scan.PlainEnds) :
    Scans ⟨height, allowed⟩ (Document.list ds).render (Document.list ds).tokens ⟨height, false⟩
      Anything := by
  have hclose : (']', Token.Kind.flowSequenceEnd) ∈
      [(']', Token.Kind.flowSequenceEnd), ('}', .flowMappingEnd)] := by simp
  have hparts := scans_parts (ds.map fun d => (d.render, d.tokens)) hclose (List.forall_mem_map.mpr h)
  rw [List.map_map, List.map_map] at hparts
  rw [Document.render, Document.tokens, Document.renderItems_eq, Document.itemTokens_eq]
  exact (scans_open (c := '[') (by simp)).append hparts fun _ _ => trivial

theorem scans_object (hkeys : ∀ e ∈ es, Document.IsCommonKey e.1)
    (h : ∀ e ∈ es, Scans ⟨height + 1, false⟩ e.2.render e.2.tokens ⟨height + 1, false⟩
      Scan.PlainEnds) :
    Scans ⟨height, allowed⟩ (Document.object es).render (Document.object es).tokens ⟨height, false⟩
      Anything := by
  have hentry (e : String × Document) (he : e ∈ es) : Scans ⟨height + 1, true⟩
      (Document.renderEntry e) (Document.entryToken e) ⟨height + 1, false⟩ Scan.PlainEnds := by
    have hscan := (scans_key (Nat.succ_pos height) (hkeys e he)).append (h e he) fun _ _ => trivial
    rwa [List.append_assoc] at hscan
  have hclose : ('}', Token.Kind.flowMappingEnd) ∈
      [(']', Token.Kind.flowSequenceEnd), ('}', .flowMappingEnd)] := by simp
  have hparts := scans_parts (es.map fun e => (Document.renderEntry e, Document.entryToken e)) hclose
    (List.forall_mem_map.mpr hentry)
  rw [List.map_map, List.map_map] at hparts
  rw [Document.render, Document.tokens, Document.renderEntries_eq, Document.entryTokens_eq]
  exact (scans_open (c := '{') (by simp)).append hparts fun _ _ => trivial

/-- A value inside a collection. -/
theorem scans_render {d : Document} (hd : d.Common) (hh : 0 < height) :
    Scans ⟨height, allowed⟩ d.render d.tokens ⟨height, false⟩ Scan.PlainEnds := by
  induction hd generalizing height allowed with
  | null => exact scans_plain hh (by decide) (List.all_eq_true.mp (by decide))
  | bool b => cases b <;> exact scans_plain hh (by decide) (List.all_eq_true.mp (by decide))
  | number =>
    refine scans_plain hh Nat.toDigits_ne_nil fun c hc => ?_
    have hdigit := Nat.isDigit_of_mem_toDigits (b := 10) (by decide) (by decide) hc
    rw [Char.isAlphanum, hdigit, Bool.or_true]
  | text hs => exact (scans_quoted hh hs).mono fun _ _ => trivial
  | list _ ih =>
    exact (scans_list fun d hd => ih d hd (Nat.succ_pos height)).mono fun _ _ => trivial
  | object hkeys _ ih =>
    exact (scans_object hkeys fun e he => ih e he (Nat.succ_pos height)).mono fun _ _ => trivial

end documents

/-- The start of a text. -/
theorem stands_start (cs : List Char) :
    Stands { cursor := ⟨cs, {}⟩, tokens := #[⟨.streamStart, {}, {}⟩] } 0 true [.streamStart] cs where
  rest := rfl
  kinds := rfl
  keys := rfl
  optional := by simp
  indent := rfl
  outer := rfl
  allowed := rfl
  column := fun h => absurd h (Nat.lt_irrefl 0)
  unfinished := rfl

theorem readableFrom_eq_none {cs : List Char} (h : ∀ c ∈ cs, isAllowed c = true)
    (earlier here room : Nat) : readableFrom earlier here room cs = none := by
  induction cs generalizing earlier here room with
  | nil => rfl
  | cons c cs ih =>
    obtain ⟨hc, hcs⟩ := List.forall_mem_cons.mp h
    unfold readableFrom
    simp only [hc, if_true]
    exact ih hcs ..

/-- All of the text is scanned if some part of it leads to its end. -/
theorem ofText_eq {text : List Char} (hp : Json.Document.IsPrintable text)
    (h : Scans ⟨0, true⟩ text kinds ⟨0, false⟩ Anything) :
    ∃ ts, ofText text = ⟨ts, true⟩ ∧ ts.map (·.kind) = .streamStart :: kinds ++ [.streamEnd] := by
  have hallowed : ∀ c ∈ text, isAllowed c = true := by
    intro c hc
    obtain ⟨hlo, hhi⟩ := hp c hc
    simp [isAllowed, hlo, hhi]
  have hstart := stands_start text
  obtain ⟨n, s, hn, hlead, hs⟩ := h _ [.streamStart] [] (by simpa using hstart) trivial
  obtain ⟨s', hs', hfinished, hkinds, hopt⟩ := Lex.moves_streamEnd hs.fresh
  have hnext : next false s = some ((), s'.fresh) := next_eq ((Lex.fetch_end hs).trans hs') hopt
  have hlast (k : Nat) : scanFrom false s (k + 1) = ⟨s'.tokens.toList, true⟩ := by
    have hfresh : s'.fresh.finished = true := hfinished
    rw [scanFrom, hnext]
    simp only [hfresh, if_true]
    rfl
  refine ⟨s'.tokens.toList, ?_, hkinds⟩
  have hrounds : text.length + 1 = n + (text.length - n + 1) := by omega
  unfold ofText
  simp only [readableFrom_eq_none hallowed, Option.getD_none, Option.isSome_none, List.take_length]
  rw [hrounds, hlead, hlast]

/-- The tokens of the text of an object. -/
theorem ofText_toText {es : List (String × Json.Document)} (h : (Json.Document.object es).Common) :
    ∃ ts, ofText (Json.Document.object es).toText.toList = ⟨ts, true⟩ ∧
      ts.map (·.kind) = .streamStart :: (Json.Document.object es).tokens ++ [.streamEnd] := by
  rw [Json.Document.toText, String.toList_ofList]
  refine ofText_eq (Json.Document.isPrintable_render h) ?_
  cases h with
  | object hkeys hvalues => exact scans_object hkeys fun e he => scans_render (hvalues e he) Nat.one_pos

end Yaml.TokenList
end InitializerLint
