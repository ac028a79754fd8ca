import Mathlib

/-!
# Orders in a trace

A trace is a list of events that grows at its end.  `Follows` says that events
of one kind come only after one of another kind, `Stops` that none come after
it.
-/

namespace Pocketboot.Transition

variable {α β : Type}

/-- Before every `later` event there is a `first` one. -/
def Follows (first later : α → Prop) (trace : List α) : Prop :=
  ∀ front item back, trace = front ++ item :: back → later item →
    ∃ earlier ∈ front, first earlier

/-- After a `last` event there is no `more` one. -/
def Stops (last more : α → Prop) (trace : List α) : Prop :=
  trace.Pairwise fun earlier item => last earlier → ¬more item

theorem Follows.nil {first later : α → Prop} : Follows first later [] := by
  intro front item back split
  simp at split

theorem Follows.append {first later : α → Prop} {trace : List α} {event : α}
    (follows : Follows first later trace)
    (preceded : later event → ∃ earlier ∈ trace, first earlier) :
    Follows first later (trace ++ [event]) := by
  intro front item back split isLater
  rcases List.eq_nil_or_concat back with rfl | ⟨rest, last, rfl⟩
  · obtain ⟨rfl, same⟩ := List.append_inj' split rfl
    obtain rfl : event = item := by simpa using same
    exact preceded isLater
  · have inner : trace = front ++ item :: rest := by
      rw [List.concat_eq_append, ← List.cons_append, ← List.append_assoc]
        at split
      exact (List.append_inj' split rfl).1
    exact follows front item rest inner isLater

theorem Stops.append {last more : α → Prop} {trace : List α} {event : α}
    (stops : Stops last more trace)
    (stopped : (∃ earlier ∈ trace, last earlier) → ¬more event) :
    Stops last more (trace ++ [event]) := by
  refine List.pairwise_append.mpr ⟨stops, List.pairwise_singleton _ _, ?_⟩
  intro earlier member item isLast ends
  obtain rfl := List.mem_singleton.mp isLast
  exact stopped ⟨earlier, member, ends⟩

/-- The same of a part of a trace, for kinds that the part keeps. -/
theorem Stops.of_filterMap {last more : α → Prop} {last' more' : β → Prop}
    {view : α → Option β} {trace : List α}
    (stops : Stops last' more' (trace.filterMap view))
    (keepsLast : ∀ event, last event → ∃ seen, view event = some seen ∧
      last' seen)
    (keepsMore : ∀ event, more event → ∃ seen, view event = some seen ∧
      more' seen) : Stops last more trace := by
  refine (List.pairwise_filterMap.mp stops).imp ?_
  intro earlier item related isLast isMore
  obtain ⟨seen, view, ends⟩ := keepsLast earlier isLast
  obtain ⟨seen', view', goesOn⟩ := keepsMore item isMore
  exact related seen view seen' view' ends goesOn

theorem Follows.of_filterMap {first later : α → Prop}
    {first' later' : β → Prop} {view : α → Option β} {trace : List α}
    (follows : Follows first' later' (trace.filterMap view))
    (fromFirst : ∀ event seen, view event = some seen → first' seen →
      first event)
    (keepsLater : ∀ event, later event → ∃ seen, view event = some seen ∧
      later' seen) : Follows first later trace := by
  intro front item back split isLater
  obtain ⟨seen, view', after⟩ := keepsLater item isLater
  have parts : trace.filterMap view =
      front.filterMap view ++ seen :: back.filterMap view := by
    rw [split, List.filterMap_append, List.filterMap_cons_some view']
  obtain ⟨earlier, member, before⟩ := follows _ _ _ parts after
  obtain ⟨event, inFront, sees⟩ := List.mem_filterMap.mp member
  exact ⟨event, inFront, fromFirst event earlier sees before⟩

end Pocketboot.Transition
