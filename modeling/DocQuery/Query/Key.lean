import DocQuery.Query.Keyword
/-!
The keys of query objects. Exclamation marks in front of a key negate what follows, one by one;
below them stands a keyword, which begins with a dollar sign, or the path of a field.
-/

namespace DocQuery.Query

/-- A key read as the name of a comparator. -/
structure Marked where
  written : String
  base : String
  keyword : Option Keyword
  /-- The number of leading marks is odd. -/
  negated : Bool
  deriving DecidableEq, Repr

/-- A mark is one byte, so the bytes before the base are as many as its marks. -/
def Marked.ofKey (key : String) : Marked :=
  let base := String.ofList (key.toList.dropWhile (· == '!'))
  { written := key
    base
    keyword := Keyword.ofName? base
    negated := (key.utf8ByteSize - base.utf8ByteSize) % 2 == 1 }

/-- What a member of a query object asks about. -/
inductive Target where
  /-- Sub-queries under a connective. -/
  | parts (c : Connective)
  /-- The opposite of a sub-query. -/
  | opposite
  | document (name : Marked)
  | field (path : String)
  deriving DecidableEq, Repr

/-- The target of a key without leading marks. -/
def Target.ofBase (base : String) : Target :=
  match Keyword.ofName? base with
  | some (.connective c) => .parts c
  | some (.relation .not) => .opposite
  | _ => if base.toList.head? = some '$' then .document (Marked.ofKey base) else .field base

/-- A key that is the path of a field as it stands: it begins neither with a mark nor with the sign
of a keyword. -/
def IsPath (key : String) : Prop := key.toList.head? ≠ some '!' ∧ key.toList.head? ≠ some '$'

instance (key : String) : Decidable (IsPath key) := inferInstanceAs (Decidable (_ ∧ _))

/-- A key read as a member of a query object. -/
structure MemberKey where
  target : Target
  negated : Bool
  deriving DecidableEq, Repr

/-- Takes leading marks away one at a time, each turning the outcome round. -/
def MemberKey.unmark : List Char → Bool × List Char
  | '!' :: cs =>
    let (negated, rest) := unmark cs
    (!negated, rest)
  | cs => (false, cs)

def MemberKey.ofKey (key : String) : MemberKey :=
  let (negated, base) := unmark key.toList
  { target := .ofBase (String.ofList base), negated }

theorem MemberKey.unmark_of_ne {cs : List Char} (h : ∀ rest, cs ≠ '!' :: rest) :
    unmark cs = (false, cs) := by
  unfold unmark
  split
  · exact absurd rfl (h _)
  · rfl

/-- From a text that does not begin with a mark none is taken away. -/
theorem MemberKey.unmark_of_head?_ne {cs : List Char} (h : cs.head? ≠ some '!') :
    unmark cs = (false, cs) := by
  apply unmark_of_ne
  rintro rest rfl
  exact h rfl

/-- One mark more turns once more. -/
theorem odd_succ (n : Nat) : ((n + 1) % 2 == 1) = !(n % 2 == 1) := by
  rcases Nat.mod_two_eq_zero_or_one n with h | h <;> simp [h, Nat.add_mod]

/-- Taking marks away one at a time leaves what stands after all of them, turned as often. -/
theorem MemberKey.unmark_eq (cs : List Char) :
    unmark cs = ((cs.takeWhile (· == '!')).length % 2 == 1, cs.dropWhile (· == '!')) := by
  fun_induction unmark cs with
  | case1 cs negated rest hrest ih =>
    simp only [hrest, Prod.mk.injEq] at ih
    obtain ⟨hn, hr⟩ := ih
    simp [hn, hr, odd_succ]
  | case2 cs hne =>
    cases cs with
    | nil => rfl
    | cons c cs =>
      have hc : (c == '!') = false := beq_eq_false_iff_ne.mpr fun he => hne cs (he ▸ rfl)
      simp [hc]

end DocQuery.Query
