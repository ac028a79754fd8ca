import Mathlib

/-!
# Stages that answer in order

A stage answers each of its items, in order, with a run of outputs: some that
continue the run, and one that ends it.  Two stages in a row are a stage again,
when the runs of the second put together to runs of both.
-/

namespace Pocketboot

/-- Which outputs continue the run of an item, and which end it. -/
structure Stage (ι ο : Type) where
  continues : ι → ο → Prop
  ends : ι → ο → Prop

namespace Stage

variable {ι κ ο : Type}

/-- A whole run of an item. -/
def Whole (stage : Stage ι ο) (item : ι) (run : List ο) : Prop :=
  ∃ body last, run = body ++ [last] ∧
    (∀ output ∈ body, stage.continues item output) ∧ stage.ends item last

/-- A run that has not ended. -/
def Part (stage : Stage ι ο) (item : ι) (run : List ο) : Prop :=
  ∀ output ∈ run, stage.continues item output

/-- Every item is answered. -/
inductive Complete (stage : Stage ι ο) : List ι → List ο → Prop
  | nil : Complete stage [] []
  | cons {item : ι} {run : List ο} {items : List ι} {rest : List ο}
      (whole : stage.Whole item run) (later : Complete stage items rest) :
      Complete stage (item :: items) (run ++ rest)

/-- The first items are answered, and at most one run is under way. -/
inductive Streams (stage : Stage ι ο) : List ι → List ο → Prop
  | idle : Streams stage [] []
  | within {item : ι} {run : List ο} {items : List ι}
      (part : stage.Part item run) : Streams stage (item :: items) run
  | past {item : ι} {run : List ο} {items : List ι} {rest : List ο}
      (whole : stage.Whole item run) (later : Streams stage items rest) :
      Streams stage (item :: items) (run ++ rest)

variable {stage : Stage ι ο}

theorem Part.nil (item : ι) : stage.Part item [] := nofun

theorem Streams.nothing (items : List ι) : stage.Streams items [] := by
  cases items with
  | nil => exact .idle
  | cons item items => exact .within (Part.nil item)

theorem Part.concat {item : ι} {run : List ο} {output : ο}
    (part : stage.Part item run) (continues : stage.continues item output) :
    stage.Part item (run ++ [output]) := by
  intro other member
  rcases List.mem_append.mp member with early | last
  · exact part other early
  · rwa [List.mem_singleton.mp last]

theorem Part.concat_whole {item : ι} {run : List ο} {output : ο}
    (part : stage.Part item run) (ends : stage.ends item output) :
    stage.Whole item (run ++ [output]) :=
  ⟨run, output, rfl, part, ends⟩

theorem Complete.append {front back : List ι} {first second : List ο}
    (one : stage.Complete front first) (two : stage.Complete back second) :
    stage.Complete (front ++ back) (first ++ second) := by
  induction one with
  | nil => exact two
  | cons whole _ induction =>
      rw [List.append_assoc]
      exact .cons whole induction

theorem Complete.single {item : ι} {run : List ο}
    (whole : stage.Whole item run) : stage.Complete [item] run := by
  have complete := Complete.cons whole Complete.nil
  rwa [List.append_nil] at complete

theorem Complete.split {front back : List ι} {outputs : List ο}
    (complete : stage.Complete (front ++ back) outputs) :
    ∃ first second, outputs = first ++ second ∧
      stage.Complete front first ∧ stage.Complete back second := by
  induction front generalizing outputs with
  | nil => exact ⟨[], outputs, rfl, .nil, complete⟩
  | cons item front induction =>
      cases complete with
      | cons whole later =>
          obtain ⟨first, second, rfl, one, two⟩ := induction later
          exact ⟨_, second, by rw [List.append_assoc], .cons whole one, two⟩

/-- Behind answered items the stage goes on. -/
theorem Complete.streams {front later : List ι} {first rest : List ο}
    (complete : stage.Complete front first)
    (streams : stage.Streams later rest) :
    stage.Streams (front ++ later) (first ++ rest) := by
  induction complete with
  | nil => exact streams
  | cons whole _ induction =>
      rw [List.append_assoc]
      exact .past whole induction

/-- More items do not change what was answered. -/
theorem Streams.more {items : List ι} {outputs : List ο}
    (streams : stage.Streams items outputs) (later : List ι) :
    stage.Streams (items ++ later) outputs := by
  induction streams with
  | idle => exact .nothing later
  | within part => exact .within part
  | past whole _ induction => exact .past whole induction

/-- Where the stage is: past some items, or in the run of one of them. -/
theorem Streams.split {front later : List ι} {outputs : List ο}
    (streams : stage.Streams (front ++ later) outputs) :
    (∃ first rest, outputs = first ++ rest ∧ stage.Complete front first ∧
        stage.Streams later rest) ∨
      ∃ before item after first run, front = before ++ item :: after ∧
        outputs = first ++ run ∧ stage.Complete before first ∧
          stage.Part item run := by
  induction front generalizing outputs with
  | nil => exact .inl ⟨[], outputs, rfl, .nil, streams⟩
  | cons item front induction =>
      cases streams with
      | within part =>
          exact .inr ⟨[], item, front, [], _, rfl, rfl, .nil, part⟩
      | @past _ run _ rest whole streams =>
          rcases induction streams with
            ⟨first, rest, rfl, complete, streams⟩ |
              ⟨before, next, after, first, rest, rfl, rfl, complete, part⟩
          · exact .inl ⟨run ++ first, rest, by rw [List.append_assoc],
              .cons whole complete, streams⟩
          · exact .inr ⟨item :: before, next, after, run ++ first, rest, rfl,
              by rw [List.append_assoc], .cons whole complete, part⟩

/-- The runs of the answered items, and what there is of the next one. -/
theorem Streams.exists_runs {items : List ι} {outputs : List ο}
    (streams : stage.Streams items outputs) :
    ∃ runs part, outputs = runs.flatten ++ part ∧
      List.Forall₂ stage.Whole (items.take runs.length) runs ∧
        (part = [] ∨
          ∃ item, items[runs.length]? = some item ∧ stage.Part item part) := by
  induction streams with
  | idle => exact ⟨[], [], rfl, .nil, .inl rfl⟩
  | @within item run items part =>
      exact ⟨[], run, rfl, .nil, .inr ⟨item, rfl, part⟩⟩
  | @past item run items rest whole _ induction =>
      obtain ⟨runs, part, rfl, wholes, inside⟩ := induction
      exact ⟨run :: runs, part, by simp, .cons whole wholes, inside⟩

theorem Complete.exists_runs {items : List ι} {outputs : List ο}
    (complete : stage.Complete items outputs) :
    ∃ runs, outputs = runs.flatten ∧ List.Forall₂ stage.Whole items runs := by
  induction complete with
  | nil => exact ⟨[], rfl, .nil⟩
  | @cons item run items rest whole _ induction =>
      obtain ⟨runs, rfl, wholes⟩ := induction
      exact ⟨run :: runs, rfl, .cons whole wholes⟩

/-! ## Two stages in a row -/

/-- The runs of the second stage put together to runs of both. -/
structure Through (first : Stage κ ι) (second : Stage ι ο)
    (both : Stage κ ο) : Prop where
  continues : ∀ {source item run}, first.continues source item →
    second.Whole item run → both.Part source run
  ends : ∀ {source item run}, first.ends source item →
    second.Whole item run → both.Whole source run
  part : ∀ {source item run},
    first.continues source item ∨ first.ends source item →
      second.Part item run → both.Part source run

variable {first : Stage κ ι} {second : Stage ι ο} {both : Stage κ ο}

theorem Part.append {source : κ} {front back : List ο}
    (one : both.Part source front) (two : both.Part source back) :
    both.Part source (front ++ back) := by
  intro output member
  rcases List.mem_append.mp member with early | late
  · exact one output early
  · exact two output late

private theorem Through.complete_part (through : Through first second both)
    {source : κ} {items : List ι} {outputs : List ο}
    (part : first.Part source items)
    (complete : second.Complete items outputs) : both.Part source outputs := by
  induction complete with
  | nil => exact Part.nil source
  | @cons item run items rest whole _ induction =>
      refine (through.continues (part item List.mem_cons_self) whole).append ?_
      exact induction fun other member =>
        part other (List.mem_cons_of_mem item member)

private theorem Through.streams_part (through : Through first second both)
    {source : κ} {items : List ι} {outputs : List ο}
    (part : first.Part source items)
    (streams : second.Streams items outputs) : both.Part source outputs := by
  rw [← List.append_nil items] at streams
  rcases streams.split with
    ⟨front, rest, rfl, complete, nothing⟩ |
      ⟨before, item, after, front, run, rfl, rfl, complete, inside⟩
  · cases nothing
    rw [List.append_nil]
    exact through.complete_part part complete
  · refine (through.complete_part (fun other member =>
      part other (List.mem_append_left _ member)) complete).append ?_
    exact through.part (.inl (part item (by simp))) inside

private theorem Through.whole (through : Through first second both)
    {source : κ} {items : List ι} {outputs : List ο}
    (whole : first.Whole source items)
    (complete : second.Complete items outputs) : both.Whole source outputs := by
  obtain ⟨body, last, rfl, continues, ends⟩ := whole
  obtain ⟨front, back, rfl, early, late⟩ := complete.split
  obtain ⟨rfl⟩ | ⟨wholeLast, ⟨⟩⟩ := late
  obtain ⟨tail, final, rfl, inside, ended⟩ := through.ends ends wholeLast
  refine ⟨front ++ tail, final, by simp, ?_, ended⟩
  exact (through.complete_part continues early).append inside

/-- What comes before an item of a run is not its last. -/
private theorem mem_body_of_before {body before after : List ι}
    {last item other : ι} (split : before ++ item :: after = body ++ [last])
    (member : other ∈ before) : other ∈ body := by
  have same := congrArg List.dropLast split
  rw [List.dropLast_concat,
    List.dropLast_append_of_ne_nil (List.cons_ne_nil item after)] at same
  rw [← same]
  exact List.mem_append_left _ member

/-- Two stages in a row answer in order. -/
theorem Streams.through (through : Through first second both)
    {sources : List κ} {items : List ι} {outputs : List ο}
    (front : first.Streams sources items)
    (back : second.Streams items outputs) : both.Streams sources outputs := by
  induction front generalizing outputs with
  | idle =>
      cases back
      exact .idle
  | within part => exact .within (through.streams_part part back)
  | @past source run sources items whole _ induction =>
      rcases back.split with
        ⟨early, late, rfl, complete, streams⟩ |
          ⟨before, item, after, early, part, rfl, rfl, complete, inside⟩
      · exact .past (through.whole whole complete) (induction streams)
      · obtain ⟨body, last, split, continues, ends⟩ := whole
        refine .within (Part.append ?_ ?_)
        · exact through.complete_part (fun other member =>
            continues other (mem_body_of_before split member)) complete
        · refine through.part ?_ inside
          rcases List.eq_nil_or_concat' after with rfl | ⟨more, final, rfl⟩
          · obtain ⟨_, ⟨⟩⟩ := List.append_inj' split rfl
            exact .inr ends
          · rw [← List.cons_append, ← List.append_assoc] at split
            obtain ⟨rfl, _⟩ := List.append_inj' split rfl
            exact .inl (continues item (by simp))

theorem Complete.through (through : Through first second both)
    {sources : List κ} {items : List ι} {outputs : List ο}
    (front : first.Complete sources items)
    (back : second.Complete items outputs) :
    both.Complete sources outputs := by
  induction front generalizing outputs with
  | nil =>
      cases back
      exact .nil
  | cons whole _ induction =>
      obtain ⟨early, late, rfl, one, two⟩ := back.split
      exact .cons (through.whole whole one) (induction two)

end Stage

end Pocketboot
