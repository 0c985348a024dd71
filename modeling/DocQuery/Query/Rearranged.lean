import DocQuery.Query.Reach
/-!
Rearranged queries: those whose sub-queries stand in another order in their arrays. An array that is
an operand has no sub-queries and stays as it is.
-/

namespace DocQuery.Query

inductive Rearranged : Value → Value → Prop where
  | refl (query : Value) : Rearranged query query
  | trans {query middle other : Value} :
    Rearranged query middle → Rearranged middle other → Rearranged query other
  /-- The sub-queries of an array change places. -/
  | items {items others : List Value} : items.Perm others → Rearranged (.arr items) (.arr others)
  | item {item other : Value} (before after : List Value) : Rearranged item other →
    Rearranged (.arr (before ++ item :: after)) (.arr (before ++ other :: after))
  /-- The key leads to a sub-query, which is rearranged. -/
  | member {key : String} {expectation other : Value} (before after : List (String × Value)) :
    (MemberKey.ofKey key).target.leaf? expectation = none → Rearranged expectation other →
    Rearranged (.obj (before ++ (key, expectation) :: after))
      (.obj (before ++ (key, other) :: after))

end DocQuery.Query
