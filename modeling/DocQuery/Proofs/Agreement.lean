import DocQuery.Query.Trace

/-! Runs that come to the same and look the same in a view of their reports. A view may leave
reports out or change them one by one, so what follows such runs can be looked at apart from them. -/

namespace DocQuery.Query.Run

variable {α β : Type} {view : List Event → List Event}

/-- The runs have one result, and their reports look the same in the view. -/
structure AgreeOn (view : List Event → List Event) (run₁ run₂ : Run α) : Prop where
  result_eq : run₁.result = run₂.result
  events_eq : view run₁.events = view run₂.events

namespace AgreeOn

theorem refl (run : Run α) : AgreeOn view run run := ⟨rfl, rfl⟩

theorem report {event₁ event₂ : Event} (h : view [event₁] = view [event₂]) :
    AgreeOn view (Run.report event₁) (Run.report event₂) := ⟨rfl, h⟩

theorem bind (hview : ∀ before after, view (before ++ after) = view before ++ view after)
    {run₁ run₂ : Run α} {next₁ next₂ : α → Run β} (hrun : AgreeOn view run₁ run₂)
    (hnext : ∀ a, AgreeOn view (next₁ a) (next₂ a)) :
    AgreeOn view (run₁ >>= next₁) (run₂ >>= next₂) := by
  rcases h₁ : run₁.result with e | a
  · -- nothing more happens on either side
    have h₂ : run₂.result = .error e := hrun.result_eq.symm.trans h₁
    rw [bind_of_error h₁, bind_of_error h₂]
    exact ⟨rfl, hrun.events_eq⟩
  · have h₂ : run₂.result = .ok a := hrun.result_eq.symm.trans h₁
    have hrest := hnext a
    rw [bind_of_ok h₁, bind_of_ok h₂]
    refine ⟨hrest.result_eq, ?_⟩
    rw [hview, hview, hrun.events_eq, hrest.events_eq]

end AgreeOn

end DocQuery.Query.Run
