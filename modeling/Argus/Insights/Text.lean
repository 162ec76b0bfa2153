import Argus.Foundations.Regex
import Argus.Strings

/-!
# Character sets and patterns of the `insights` expressions

The expressions of packages `insights` and `topology` are compiled with `(?i)` or without. A
letter without regard to case also matches the two letters beyond ASCII that fold to one.
-/

namespace Argus

open Foundations Regex

/-- A literal under `(?i)`. -/
def word (s : String) : Regex := text (fun c d => foldRune c == foldRune d) s

/-- A literal without `(?i)`. -/
def literal (s : String) : Regex := text (· == ·) s

/-- A set of lower-case letters and other characters under `(?i)`. -/
def folded (p : Char → Bool) (c : Char) : Bool := p c || p (foldRune c)

/-- `[0-9a-f]` under `(?i)`. -/
def hexSet : Char → Bool := folded fun c => c.isDigit || ('a' ≤ c && c ≤ 'f')

/-- `[0-9a-fA-F-]` under `(?i)`. -/
def hexDashSet (c : Char) : Bool := hexSet c || c == '-'

/-- `\s`. -/
def spaceSet (c : Char) : Bool :=
  c == '\t' || c == '\n' || c == '\x0c' || c == '\r' || c == ' '

/-- `[=:\s]`. -/
def assignSet (c : Char) : Bool := c == '=' || c == ':' || spaceSet c

/-- One character. -/
def char (c : Char) : Regex := one (· == c)

/-- The groups of the leftmost match of an expression, the first of them. -/
def firstGroup (r : Regex) (s : String) : Option String := (r.findSubmatch s).bind List.head?

end Argus
