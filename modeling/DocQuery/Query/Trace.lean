import DocQuery.Error
import DocQuery.Query.Keyword
/-!
Runs: what an evaluation reports on its way, and what it comes to.
-/

namespace DocQuery.Query

inductive Severity where
  | trace
  | debug
  deriving DecidableEq, Repr

/-- Something that an evaluation reports. -/
inductive Event where
  /-- One member of an object settled the whole. -/
  | shortCircuit (c : Connective) (key : String) (depth : Nat)
  | negatedKey (depth : Nat)
  /-- A comparator is about to be applied to the whole document. -/
  | wholeDocument (key : String) (depth : Nat)
  /-- A field has been looked up, and a comparator is about to be applied to it. -/
  | fieldResolved (field comparator : String) (found : Bool) (depth : Nat)
  /-- A comparator has given a result; the operands are reported as text. -/
  | comparatorApplied (relation : Relation) (negated : Bool) (actual expected : String)
      (result : Bool)
  | aborted (error query : String)
  deriving DecidableEq, Repr

/-- Only a failure weighs more than a step. -/
def Event.severity : Event → Severity
  | aborted _ _ => .debug
  | _ => .trace

def Event.message : Event → String
  | shortCircuit c _ _ => c.name ++ " short-circuit"
  | negatedKey _ => "negated key"
  | wholeDocument _ _ => "comparator against whole document"
  | fieldResolved _ _ _ _ => "field resolved"
  | comparatorApplied _ _ _ _ _ => "comparator applied"
  | aborted _ _ => "query evaluation aborted"

def Event.level? : Event → Option Nat
  | shortCircuit _ _ depth | negatedKey depth | wholeDocument _ depth => some depth
  | fieldResolved _ _ _ depth => some depth
  | comparatorApplied _ _ _ _ _ | aborted _ _ => none

/-- What has been reported, in order, and the result. -/
structure Run (α : Type) where
  events : List Event
  result : Except MatchError α

namespace Run

variable {α β : Type}

/-- Goes on with a result; after an error nothing more happens. -/
def bind (run : Run α) (next : α → Run β) : Run β :=
  match run.result with
  | .ok a => ⟨run.events ++ (next a).events, (next a).result⟩
  | .error e => ⟨run.events, .error e⟩

instance : Monad Run where
  pure a := ⟨[], .ok a⟩
  bind := bind

def ofExcept (result : Except MatchError α) : Run α := ⟨[], result⟩

def fail (e : MatchError) : Run α := ⟨[], .error e⟩

def report (event : Event) : Run Unit := ⟨[event], .ok ()⟩

def reportIf (reason : Bool) (event : Event) : Run Unit :=
  if reason then report event else pure ()

@[simp] theorem pure_events (a : α) : (pure a : Run α).events = [] := rfl

@[simp] theorem pure_result (a : α) : (pure a : Run α).result = .ok a := rfl

@[simp] theorem ofExcept_result (result : Except MatchError α) :
    (ofExcept result).result = result := rfl

@[simp] theorem fail_result (e : MatchError) : (fail e : Run α).result = .error e := rfl

/-- After a result the run goes on, and the reports follow each other. -/
theorem bind_of_ok {run : Run α} {a : α} (h : run.result = .ok a) (next : α → Run β) :
    run >>= next = ⟨run.events ++ (next a).events, (next a).result⟩ := by
  change bind run next = _
  simp only [bind, h]

theorem bind_of_error {run : Run α} {e : MatchError} (h : run.result = .error e)
    (next : α → Run β) : run >>= next = ⟨run.events, .error e⟩ := by
  change bind run next = _
  simp only [bind, h]

theorem events_prefix_bind (run : Run α) (next : α → Run β) :
    run.events <+: (run >>= next).events := by
  cases h : run.result with
  | ok a => simp only [bind_of_ok h, List.prefix_append]
  | error e => simp only [bind_of_error h, List.prefix_refl]

/-- Results combine as if nothing were reported. -/
@[simp] theorem bind_result (run : Run α) (next : α → Run β) :
    (run >>= next).result = run.result >>= fun a => (next a).result := by
  cases h : run.result with
  | ok a => rw [bind_of_ok h]; rfl
  | error e => rw [bind_of_error h]; rfl

@[simp] theorem map_result (f : α → β) (run : Run α) : (f <$> run).result = run.result.map f := by
  change (run >>= fun a => pure (f a)).result = _
  rw [bind_result]
  cases run.result <;> rfl

@[simp] theorem report_bind_result (event : Event) (next : Unit → Run α) :
    (report event >>= next).result = (next ()).result := rfl

@[simp] theorem reportIf_bind_result (reason : Bool) (event : Event) (next : Unit → Run α) :
    (reportIf reason event >>= next).result = (next ()).result := by
  cases reason <;> rfl

instance : LawfulMonad Run := LawfulMonad.mk' Run
  (fun run => by
    obtain ⟨events, result⟩ := run
    cases result with
    | ok a => exact congrArg (Run.mk · _) (List.append_nil events)
    | error e => rfl)
  (fun a next => rfl)
  (fun run next last => by
    cases h : run.result with
    | error e => rw [bind_of_error h, bind_of_error h, bind_of_error rfl]
    | ok a =>
      rw [bind_of_ok h, bind_of_ok h]
      cases h' : (next a).result with
      | error e =>
        rw [bind_of_error h']
        exact bind_of_error rfl last
      | ok b =>
        rw [bind_of_ok h', ← List.append_assoc]
        exact bind_of_ok rfl last)

end Run

end DocQuery.Query
