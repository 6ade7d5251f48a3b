import LogGenerator.Foundation.Bytes

/-!
# Backtracking regular expressions

ECMAScript expressions over bytes, without the multiline flag and in the "C"
locale. `run` lists the ends of all matches that start at a cursor, in the order
in which backtracking finds them; the first one is the match.
-/

namespace LogGenerator

open Ascii

/-- A position in a subject: the byte before it, the bytes after it, its index, and the
groups captured so far with their bounds, the latest first. -/
structure Cursor where
  prev : Option UInt8
  rest : Bytes
  pos : ℕ
  groups : List (ℕ × ℕ × ℕ) := []

namespace Cursor

def start (subject : Bytes) : Cursor := { prev := none, rest := subject, pos := 0 }

/-- The cursor behind the next byte `b`. -/
def next (c : Cursor) (b : UInt8) (rest : Bytes) : Cursor :=
  { c with prev := some b, rest := rest, pos := c.pos + 1 }

end Cursor

inductive Regex where
  | empty
  | set (p : UInt8 → Bool)
  | seq (a b : Regex)
  | alt (a b : Regex)
  | rep (a : Regex) (min : ℕ) (max : Option ℕ)
  | group (n : ℕ) (a : Regex)
  | begin
  | boundary
  | ahead (negated : Bool) (a : Regex)

namespace Regex

def isWord (b : UInt8) : Bool := isAlnum b || b == 95

/-- A greedy quantifier. An iteration past the minimum that consumes nothing fails. -/
def repeated (body : Cursor → List Cursor) : ℕ → ℕ → Option ℕ → Cursor → List Cursor
  | 0, min, _, c => if min = 0 then [c] else []
  | fuel + 1, min, max, c =>
    if max = some 0 then [c]
    else
      let longer := (body c).flatMap fun c' =>
        if min = 0 ∧ c'.pos = c.pos then []
        else repeated body fuel (min - 1) (max.map (· - 1)) c'
      if min = 0 then longer ++ [c] else longer

def run : Regex → Cursor → List Cursor
  | .empty, c => [c]
  | .set p, c =>
    match c.rest with
    | [] => []
    | b :: rest => if p b then [c.next b rest] else []
  | .seq a b, c => (a.run c).flatMap b.run
  | .alt a b, c => a.run c ++ b.run c
  | .rep a min max, c => repeated a.run (c.rest.length + min + 1) min max c
  | .group n a, c => (a.run c).map fun c' => { c' with groups := (n, c.pos, c'.pos) :: c'.groups }
  | .begin, c => if c.prev.isNone then [c] else []
  | .boundary, c => if (c.prev.any isWord) != (c.rest.head?.any isWord) then [c] else []
  | .ahead negated a, c => if (a.run c).isEmpty == negated then [c] else []

def lit (s : String) : Regex := (bytes s).foldr (fun b r => .seq (.set (· == b)) r) .empty

def seqs (rs : List Regex) : Regex := rs.foldr .seq .empty

/-- The alternatives in order; none of them when the list is empty. -/
def alts : List Regex → Regex
  | [] => .set fun _ => false
  | [r] => r
  | r :: rs => .alt r (alts rs)

def opt (r : Regex) : Regex := .rep r 0 (some 1)

def star (r : Regex) : Regex := .rep r 0 none

def plus (r : Regex) : Regex := .rep r 1 none

def times (r : Regex) (n : ℕ) : Regex := .rep r n (some n)

def between (r : Regex) (min max : ℕ) : Regex := .rep r min (some max)

/-- One of the listed bytes. -/
def oneOf (s : String) : Regex := .set fun b => (bytes s).contains b

def range (low high : Char) : Regex :=
  .set fun b => low.toNat ≤ b.toNat && b.toNat ≤ high.toNat

def numeral : Regex := .set isDigit

def whitespace : Regex := .set isSpace

/-- `std::regex::icase`: letters match in either case. -/
def icase : Regex → Regex
  | .set p => .set fun b => p b || p (toLower b) || (isLower b && p (b - 32))
  | .seq a b => .seq a.icase b.icase
  | .alt a b => .alt a.icase b.icase
  | .rep a min max => .rep a.icase min max
  | .group n a => .group n a.icase
  | .ahead negated a => .ahead negated a.icase
  | r => r

end Regex

/-- The bounds of a match and of its groups, the latest capture first. -/
structure Match where
  begin : ℕ
  finish : ℕ
  groups : List (ℕ × ℕ × ℕ)

/-- `match[n]`, when group `n` has taken part in the match. -/
def Match.group? (m : Match) (n : ℕ) : Option (ℕ × ℕ) :=
  if n = 0 then some (m.begin, m.finish) else m.groups.lookup n

namespace Regex

/-- The leftmost match from the cursor on, and the cursor behind it. -/
def search (r : Regex) : ℕ → Cursor → Option (Match × Cursor)
  | 0, _ => none
  | fuel + 1, c =>
    match (r.run c).head? with
    | some e => some ({ begin := c.pos, finish := e.pos, groups := e.groups }, e)
    | none =>
      match c.rest with
      | [] => none
      | b :: rest => r.search fuel (c.next b rest)

def matchesFrom (r : Regex) : ℕ → Cursor → List Match
  | 0, _ => []
  | fuel + 1, c =>
    match r.search (c.rest.length + 1) c with
    | none => []
    | some (m, e) => m :: r.matchesFrom fuel { e with groups := [] }

/-- `std::sregex_iterator`, for an expression that does not match the empty string. -/
def allMatches (r : Regex) (subject : Bytes) : List Match :=
  r.matchesFrom (subject.length + 1) (.start subject)

end Regex

structure Edit where
  begin : ℕ
  finish : ℕ
  text : Bytes

/-- The loop that copies a subject and puts `text` in place of each part; a part that
begins before the cursor is left out. -/
def spliceFrom (subject : Bytes) : List Edit → ℕ → Bytes
  | [], cursor => subject.drop cursor
  | e :: edits, cursor =>
    if e.begin < cursor then spliceFrom subject edits cursor
    else
      (subject.drop cursor).take (e.begin - cursor) ++ e.text ++ spliceFrom subject edits e.finish

def splice (subject : Bytes) (edits : List Edit) : Bytes := spliceFrom subject edits 0

theorem splice_ne_nil {subject : Bytes} {edits : List Edit} (hsubject : subject ≠ [])
    (hedits : ∀ e ∈ edits, e.text ≠ []) : splice subject edits ≠ [] := by
  cases edits with
  | nil => exact hsubject
  | cons e edits =>
    have htext := hedits e List.mem_cons_self
    rw [splice, spliceFrom, if_neg (Nat.not_lt_zero _)]
    simp [htext]

def slice (subject : Bytes) (bounds : ℕ × ℕ) : Bytes :=
  (subject.drop bounds.1).take (bounds.2 - bounds.1)

end LogGenerator
