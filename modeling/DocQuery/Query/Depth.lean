import DocQuery.Error
/-!
The depth of an evaluation: a level that grows by one at every step down, and its limit.
-/

namespace DocQuery.Query

/-- The level of nesting that an evaluation has reached, and the last one it may reach. -/
@[ext]
structure Depth where
  level : Nat
  limit : Nat
  level_le_limit : level ≤ limit
  deriving DecidableEq, Repr

namespace Depth

/-- Before the first level. -/
def top (limit : Nat) : Depth := ⟨0, limit, Nat.zero_le limit⟩

/-- One level further down, which fails below the limit. -/
def enter (depth : Depth) : Except MatchError Depth :=
  if h : depth.level + 1 ≤ depth.limit then .ok ⟨depth.level + 1, depth.limit, h⟩
  else .error (.tooDeep depth.limit)

/-- The number of levels that can still be entered. -/
def remaining (depth : Depth) : Nat := depth.limit - depth.level

end Depth

/-- An answer as it reads under another limit, which only the error of a limit names. -/
def relimit (limit : Nat) (answer : Except MatchError Bool) : Except MatchError Bool :=
  match answer with
  | .error (.tooDeep _) => .error (.tooDeep limit)
  | other => other

end DocQuery.Query
