/-!
# Positions in a source text

An offset counts characters from zero; lines and columns count from one in 32-bit words.  Line 0 marks a
position that points nowhere.
-/

namespace Clite

structure Position where
  offset : Nat
  line : UInt32
  column : UInt32
  deriving DecidableEq, Repr

namespace Position

/-- The position that points nowhere. -/
def unplaced : Position := ⟨0, 0, 0⟩

/-- Before the first character of a text. -/
def start : Position := ⟨0, 1, 1⟩

def isValid (p : Position) : Bool := p.line != 0

def text (p : Position) : String :=
  if p.isValid then toString p.line.toNat ++ ":" ++ toString p.column.toNat else "-"

/-- The position behind one more character; a newline opens the next line. -/
def advance (p : Position) (c : Char) : Position :=
  if c = '\n' then ⟨p.offset + 1, p.line + 1, 1⟩ else ⟨p.offset + 1, p.line, p.column + 1⟩

/-- The position behind a stretch of text. -/
def advanceAll (p : Position) (s : List Char) : Position := s.foldl advance p

/-- The position before each character of a text, and the one behind the last. -/
def along (p : Position) : List Char → List Position
  | [] => [p]
  | c :: s => p :: along (p.advance c) s

@[simp] theorem advanceAll_nil (p : Position) : p.advanceAll [] = p := rfl

@[simp] theorem advanceAll_cons (p : Position) (c : Char) (s : List Char) :
    p.advanceAll (c :: s) = (p.advance c).advanceAll s := rfl

theorem advanceAll_append (p : Position) (s t : List Char) :
    p.advanceAll (s ++ t) = (p.advanceAll s).advanceAll t := List.foldl_append

theorem offset_advance (p : Position) (c : Char) : (p.advance c).offset = p.offset + 1 := by
  unfold advance
  split <;> rfl

theorem offset_advanceAll (p : Position) (s : List Char) : (p.advanceAll s).offset = p.offset + s.length := by
  induction s generalizing p with
  | nil => rfl
  | cons c s ih =>
    rw [advanceAll_cons, ih, offset_advance, List.length_cons]
    omega

theorem offset_advanceAll_start (s : List Char) : (start.advanceAll s).offset = s.length := by
  rw [offset_advanceAll]
  exact Nat.zero_add _

end Position

end Clite
