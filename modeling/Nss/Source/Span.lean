/-
# Places in a script

A span is a range of byte offsets into the UTF-8 form of a script.  The line and the column of its
start are counted from one, the column in bytes.
-/
import Nss.Text.Bytes

namespace Nss

/-- The bytes from `start` up to, and not including, `stop`. -/
structure Span where
  start : Nat
  stop : Nat
deriving DecidableEq, Repr, Inhabited

namespace Span

/-- The empty span at the beginning. -/
def origin : Span := ⟨0, 0⟩

/-- The smallest span that covers two others. -/
def cover (s t : Span) : Span := ⟨min s.start t.start, max s.stop t.stop⟩

/-- The bytes of a script before a span; the whole script if the span starts beyond its end. -/
def before (s : Span) (source : String) : Bytes := (Bytes.ofText source).take s.start

/-- The line that a span starts in. -/
def line (s : Span) (source : String) : Nat := (s.before source).count 10 + 1

/-- The column that a span starts at. -/
def column (s : Span) (source : String) : Nat :=
  ((s.before source).reverse.takeWhile (· ≠ 10)).length + 1

end Span
end Nss
