/-! Places in a source text. A span covers the bytes from `start` up to, not including, `stop` and
carries the line and column of its first byte, both counted from one. -/

namespace ScriptEngine

structure Span where
  line : Nat
  col : Nat
  start : Nat
  stop : Nat
deriving DecidableEq, Repr, Inhabited

namespace Span

def nowhere : Span := ⟨0, 0, 0, 0⟩

def point (line col offset : Nat) : Span := ⟨line, col, offset, offset⟩

def length (span : Span) : Nat := span.stop - span.start

def isEmpty (span : Span) : Bool := span.start == span.stop

def cover (first second : Span) : Span :=
  let leader := if second.start < first.start then second else first
  ⟨leader.line, leader.col, min first.start second.start, max first.stop second.stop⟩

def text (span : Span) : String := s!"{span.line}:{span.col}"

end Span

/-- The parts of a declaration that a host may ask the place of. -/
inductive Region where
  | externKeyword
  | name
  | params
  | body
  | whole
deriving DecidableEq, Repr

/-- Where the parts of one declaration stand. -/
structure Positions where
  externKeyword : Option Span := none
  name : Span
  params : Span
  body : Span
  whole : Span
deriving DecidableEq, Repr, Inhabited

namespace Positions

def region (positions : Positions) : Region → Span
  | .externKeyword => positions.externKeyword.getD positions.whole
  | .name => positions.name
  | .params => positions.params
  | .body => positions.body
  | .whole => positions.whole

def range (positions : Positions) (first last : Region) : Nat × Nat :=
  ((positions.region first).start, (positions.region last).stop)

end Positions

end ScriptEngine
