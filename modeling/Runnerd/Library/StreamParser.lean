import Mathlib.Data.List.Basic

/-!
# Parsers of a stream that arrives in pieces

A `Lexer` looks at a buffer and says whether it begins with a complete item, needs more input, or
can never be continued to a valid stream. `parse` reads as many items as a buffer holds. Since more
input never changes what was already decided, parsing a stream at once and parsing it piece by piece
give the same items and the same verdict: `parse_append`, and `parse_parsePieces` for any cut.
-/

/-- What a buffer begins with. -/
inductive Next (α β ε : Type) where
  | incomplete
  | item (value : β) (rest : List α)
  | bad (reason : ε)

/-- A reader of one item at the head of a buffer. -/
structure Lexer (α β ε : Type) where
  next : List α → Next α β ε
  shrinks : ∀ {s b rest}, next s = .item b rest → rest.length < s.length
  item_append : ∀ {s b rest} (t), next s = .item b rest → next (s ++ t) = .item b (rest ++ t)
  bad_append : ∀ {s e} (t), next s = .bad e → next (s ++ t) = .bad e

namespace Lexer

variable {α β ε : Type} (L : Lexer α β ε)

/-- The items of a buffer, with fuel for every element. -/
def parseLoop : ℕ → List α → List β × Except ε (List α)
  | 0, s => ([], .ok s)
  | fuel + 1, s =>
    match L.next s with
    | .incomplete => ([], .ok s)
    | .bad e => ([], .error e)
    | .item b rest => (b :: (parseLoop fuel rest).1, (parseLoop fuel rest).2)

/-- The items of a buffer, and what is left of it or the reason to reject it. -/
def parse (s : List α) : List β × Except ε (List α) := L.parseLoop (s.length + 1) s

variable {L}

theorem parseLoop_enough {s : List α} {fuel fuel' : ℕ} (h : s.length < fuel)
    (h' : s.length < fuel') : L.parseLoop fuel s = L.parseLoop fuel' s := by
  induction fuel generalizing s fuel' with
  | zero => omega
  | succ fuel ih =>
    obtain ⟨fuel', rfl⟩ : ∃ k, fuel' = k + 1 := ⟨fuel' - 1, by omega⟩
    unfold parseLoop
    cases hn : L.next s with
    | incomplete => rfl
    | bad e => rfl
    | item b rest =>
      have hlt := L.shrinks hn
      have hrest : parseLoop L fuel rest = parseLoop L fuel' rest := ih (by omega) (by omega)
      simp only [hrest]

theorem parse_of_incomplete {s : List α} (h : L.next s = .incomplete) :
    L.parse s = ([], .ok s) := by
  unfold parse parseLoop
  rw [h]

theorem parse_of_bad {s : List α} {e : ε} (h : L.next s = .bad e) :
    L.parse s = ([], .error e) := by
  unfold parse parseLoop
  rw [h]

theorem parse_of_item {s rest : List α} {b : β} (h : L.next s = .item b rest) :
    L.parse s = (b :: (L.parse rest).1, (L.parse rest).2) := by
  have hlt := L.shrinks h
  unfold parse
  rw [parseLoop, h]
  have hrest : parseLoop L s.length rest = parseLoop L (rest.length + 1) rest :=
    parseLoop_enough hlt (by omega)
  simp only [hrest]

/-- Induction along the items of a buffer. -/
theorem parse_induction {P : List α → Prop} (incomplete : ∀ s, L.next s = .incomplete → P s)
    (bad : ∀ s e, L.next s = .bad e → P s)
    (item : ∀ s b rest, L.next s = .item b rest → P rest → P s) (s : List α) : P s := by
  induction hn : s.length using Nat.strongRecOn generalizing s with
  | _ n ih =>
    cases h : L.next s with
    | incomplete => exact incomplete s h
    | bad e => exact bad s e h
    | item b rest => exact item s b rest h (ih rest.length (hn ▸ L.shrinks h) rest rfl)

/-- The result of a first part followed by a second one, which starts from what the first left. -/
def andThen (r : List β × Except ε (List α)) (f : List α → List β × Except ε (List α)) :
    List β × Except ε (List α) :=
  match r.2 with
  | .error e => (r.1, .error e)
  | .ok rest => (r.1 ++ (f rest).1, (f rest).2)

/-- Parsing does not depend on where the input is cut. -/
theorem parse_append (s t : List α) :
    L.parse (s ++ t) = andThen (L.parse s) fun rest => L.parse (rest ++ t) := by
  induction s using parse_induction (L := L) with
  | incomplete s h => rw [parse_of_incomplete h]; rfl
  | bad s e h => rw [parse_of_bad h, parse_of_bad (L.bad_append t h)]; rfl
  | item s b rest h ih =>
    rw [parse_of_item (L.item_append t h), parse_of_item h, ih]
    unfold andThen
    cases (L.parse rest).2 <;> rfl

/-- What is left over holds no complete item. -/
theorem next_leftover {s rest : List α} (h : (L.parse s).2 = .ok rest) :
    L.next rest = .incomplete := by
  induction s using parse_induction (L := L) generalizing rest with
  | incomplete s hs =>
    rw [parse_of_incomplete hs] at h
    obtain rfl := Except.ok.inj h
    exact hs
  | bad s e hs =>
    rw [parse_of_bad hs] at h
    cases h
  | item s b rest' hs ih =>
    rw [parse_of_item hs] at h
    exact ih h

/-- A stream cut into pieces, each parsed behind what the ones before it left over. -/
def parsePieces : List α → List (List α) → List β × Except ε (List α)
  | s, [] => ([], .ok s)
  | s, piece :: pieces => andThen (L.parse (s ++ piece)) fun rest => parsePieces rest pieces

/-- However a stream is cut, its pieces parse to what the whole stream parses to. -/
theorem parsePieces_eq {s : List α} (h : L.next s = .incomplete) (pieces : List (List α)) :
    parsePieces (L := L) s pieces = L.parse (s ++ pieces.flatten) := by
  induction pieces generalizing s with
  | nil => rw [List.flatten_nil, List.append_nil, parse_of_incomplete h, parsePieces]
  | cons piece pieces ih =>
    rw [List.flatten_cons, ← List.append_assoc, parse_append, parsePieces]
    unfold andThen
    cases hp : (L.parse (s ++ piece)).2 with
    | error e => rfl
    | ok rest => simp only [ih (next_leftover hp)]

end Lexer
