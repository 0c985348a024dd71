import DocQuery.Options
import DocQuery.Query.Evaluation
/-!
Queries as they are asked: one document at a time, or a list of documents of which those that
satisfy the query are kept.
-/

namespace DocQuery.Query

/--
Evaluates a query on a document and reports how. The whole query has to hold. A failure is reported
last.
-/
def trace (options : Options) (query : Value) (document : Document) : Run Bool :=
  let subject : Subject := ⟨document, options.separator⟩
  let run := subject.evaluate .all (.top options.maxDepth) query
  match run.result with
  | .ok holds => ⟨run.events, .ok holds⟩
  | .error e => ⟨run.events ++ [.aborted e.message query.display], .error e⟩

def satisfied (options : Options) (query : Value) (document : Document) : Except MatchError Bool :=
  (trace options query document).result

/-- The answer of the query on the document is yes; a failure is no answer. -/
def accepts (options : Options) (query : Value) (document : Document) : Bool :=
  match satisfied options query document with
  | .ok holds => holds
  | .error _ => false

theorem satisfied_eq_evaluate (options : Options) (query : Value) (document : Document) :
    satisfied options query document =
      (Subject.evaluate ⟨document, options.separator⟩ .all (.top options.maxDepth) query).result := by
  unfold satisfied trace
  dsimp only
  split <;> rename_i h <;> exact h.symm

/-- The report of a failure is all that is added to what the evaluation reports. -/
theorem trace_events (options : Options) (query : Value) (document : Document) :
    (trace options query document).events =
      (Subject.evaluate ⟨document, options.separator⟩ .all (.top options.maxDepth) query).events ++
        match satisfied options query document with
        | .ok _ => []
        | .error e => [.aborted e.message query.display] := by
  rw [satisfied_eq_evaluate]
  unfold trace
  dsimp only
  split <;> simp only [List.append_nil]

/--
Keeps the elements of a list whose documents satisfy a query, in order. The first failure is the
failure of the whole.
-/
def filterOn {α : Type} (view : α → Document) (options : Options) (query : Value) :
    List α → Except MatchError (List α)
  | [] => .ok []
  | x :: xs => do
    let holds ← satisfied options query (view x)
    let kept ← filterOn view options query xs
    return if holds then x :: kept else kept

def filter (options : Options) (query : Value) (documents : List Document) :
    Except MatchError (List Document) :=
  filterOn id options query documents

end DocQuery.Query
