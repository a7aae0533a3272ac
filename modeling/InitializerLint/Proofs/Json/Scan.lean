import InitializerLint.Json.Value
import InitializerLint.Proofs.Json.Grammar

/-! What a scan makes of a text, places aside, and the law by which scans compose. -/
namespace InitializerLint.Json

theorem blank_iff {cs : List Char} : Blank cs ↔ ∀ c ∈ cs, isSpace c = true := by
  simp only [Blank, isSpace, Bool.or_eq_true, decide_eq_true_eq, or_assoc]

theorem Blank.nil : Blank [] := by
  intro c hc
  cases hc

/-- The next character, if there is one, does not have the property. -/
def Stops (p : Char → Bool) (cs : List Char) : Prop := ∀ c ∈ cs.head?, p c = false

namespace Stops

variable {p q : Char → Bool} {as cs : List Char}

theorem cons {c : Char} (h : p c = false) (cs : List Char) : Stops p (c :: cs) := by
  simpa [Stops] using h

theorem mono (h : Stops p cs) (hpq : ∀ c, q c = true → p c = true) : Stops q cs := by
  intro c hc
  have hp := h c hc
  cases hq : q c with
  | false => rfl
  | true => rw [hpq c hq] at hp; exact hp

theorem dropWhile_append (h : Stops p cs) (ha : ∀ c ∈ as, p c = true) :
    (as ++ cs).dropWhile p = cs := by
  rw [List.dropWhile_append_of_pos ha]
  cases cs with
  | nil => rfl
  | cons c cs => simp [h c rfl]

theorem takeWhile_append (h : Stops p cs) (ha : ∀ c ∈ as, p c = true) :
    (as ++ cs).takeWhile p = as := by
  rw [List.takeWhile_append_of_pos ha]
  cases cs with
  | nil => simp
  | cons c cs => simp [h c rfl]

end Stops

/-- What may follow a value: nothing, a blank, or a mark that ends an item. -/
def Boundary (cs : List Char) : Prop :=
  ∀ c ∈ cs.head?, isSpace c = true ∨ c = ',' ∨ c = ']' ∨ c = '}'

theorem Boundary.append {b cs : List Char} (hb : Blank b) (h : Boundary cs) : Boundary (b ++ cs) := by
  cases b with
  | nil => exact h
  | cons c b =>
    have hc := blank_iff.mp hb c (by simp)
    simp [Boundary, hc]

namespace Scan

variable {α β : Type}

/-- The outcome is the value of `o` with `rest` left to read, or some failure if there is none. -/
def Answers (outcome : Except Failure (α × Cursor)) (rest : List Char) : Option α → Prop
  | some a => ∃ off, outcome = .ok (a, ⟨rest, off⟩)
  | none => ∃ e, outcome = .error e

/-- On `text`, at whatever place it stands, the scan answers `o` and leaves `rest`. -/
def Reads (r : Scan α) (text : List Char) (o : Option α) (rest : List Char) : Prop :=
  ∀ off, Answers (r ⟨text, off⟩) rest o

namespace Reads

variable {r : Scan α} {f : α → Scan β} {text mid rest : List Char} {o : Option β} {a : α}

theorem pure (a : α) (text : List Char) : Reads (Pure.pure a) text (some a) text :=
  fun off => ⟨off, rfl⟩

/-- After an answer the scan goes on from what is left. -/
theorem bind (h : Reads r text (some a) mid) (hf : Reads (f a) mid o rest) :
    Reads (r >>= f) text o rest := by
  intro off
  obtain ⟨off', hr⟩ := h off
  have hb : (r >>= f) ⟨text, off⟩ = f a ⟨mid, off'⟩ := by
    change Except.bind (r ⟨text, off⟩) (fun p => f p.1 p.2) = _
    rw [hr]
    rfl
  rw [hb]
  exact hf off'

theorem bind_none (h : Reads r text none mid) : Reads (r >>= f) text none rest := by
  intro off
  obtain ⟨e, hr⟩ := h off
  refine ⟨e, ?_⟩
  change Except.bind (r ⟨text, off⟩) (fun p => f p.1 p.2) = _
  rw [hr]
  rfl

/-- Both outcomes at once. -/
theorem bind' {x : Option α} {g : α → Option β} (h : Reads r text x mid)
    (hf : ∀ a, Reads (f a) mid (g a) rest) : Reads (r >>= f) text (x.bind g) rest := by
  cases x with
  | none => exact h.bind_none
  | some a => exact h.bind (hf a)

theorem bind_map {γ : Type} {x : Option γ} {q : γ → α} {g : γ → Option β}
    (h : Reads r text (x.map q) mid) (hf : ∀ c, Reads (f (q c)) mid (g c) rest) :
    Reads (r >>= f) text (x.bind g) rest := by
  cases x with
  | none => exact h.bind_none
  | some c => exact h.bind (hf c)

theorem map {x : Option α} (g : α → β) (h : Reads r text x rest) :
    Reads (r >>= fun a => Pure.pure (g a)) text (x.map g) rest := by
  cases x with
  | none => exact h.bind_none
  | some a => exact h.bind (Reads.pure (g a) rest)

end Reads

theorem reads_failAt (cause : Cause) (n : Nat) (text rest : List Char) :
    Reads (failAt cause n : Scan α) text none rest := fun _ => ⟨_, rfl⟩

theorem reads_failHere (cause : Cause) (text rest : List Char) :
    Reads (failHere cause : Scan α) text none rest := fun _ => ⟨_, rfl⟩

theorem reads_failPeek (cause : Cause) (text rest : List Char) :
    Reads (failPeek cause : Scan α) text none rest := fun _ => ⟨_, rfl⟩

theorem reads_failFloating (f : Data.Fault) (text rest : List Char) :
    Reads (failFloating f : Scan α) text none rest := fun _ => ⟨_, rfl⟩

theorem reads_peek (text : List Char) : Reads peek text (some text.head?) text :=
  fun off => ⟨off, rfl⟩

theorem reads_drop (c : Char) (cs : List Char) : Reads drop (c :: cs) (some ()) cs :=
  fun off => ⟨off + c.utf8Size, rfl⟩

theorem reads_next (c : Char) (cs : List Char) : Reads next (c :: cs) (some (some c)) cs :=
  fun off => ⟨off + c.utf8Size, rfl⟩

/-- The place of the text does not matter to what is read. -/
theorem reads_offset {f : Nat → Scan α} {text rest : List Char} {o : Option α}
    (h : ∀ n, Reads (f n) text o rest) : Reads (offset >>= f) text o rest :=
  fun off => h off off

theorem reads_bounded {loop : Nat → Scan α} {text rest : List Char} {o : Option α}
    (h : Reads (loop text.length) text o rest) : Reads (bounded loop) text o rest := h

theorem reads_skipSpace {b cs : List Char} (hb : Blank b) (hs : Stops isSpace cs) :
    Reads skipSpace (b ++ cs) (some ()) cs := by
  intro off
  refine ⟨off + ((b ++ cs).takeWhile isSpace).length, ?_⟩
  simp only [skipSpace, Cursor.skipSpace, Cursor.dropWhile, hs.dropWhile_append (blank_iff.mp hb)]

theorem reads_valueStart {b : List Char} {c : Char} {cs : List Char} (hb : Blank b)
    (hc : isSpace c = false) : Reads valueStart (b ++ c :: cs) (some ()) (c :: cs) := by
  unfold valueStart
  exact (reads_skipSpace hb (.cons hc cs)).bind ((reads_peek _).bind (.pure () _))

theorem reads_word (xs cs : List Char) : Reads (word xs) (xs ++ cs) (some ()) cs := by
  induction xs with
  | nil => exact .pure () cs
  | cons x xs ih =>
    unfold word
    refine reads_offset fun n => (reads_next x (xs ++ cs)).bind ?_
    simpa using ih

end Scan
end InitializerLint.Json
