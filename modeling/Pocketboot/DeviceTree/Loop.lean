import Pocketboot.DeviceTree.Forest

/-!
# Loops over a structure block

The programs walk a structure block with a loop that reads one token, acts on
it and goes on at a cursor.  `loop` is that loop for a body of one's choice.
`loop_rule` proves a property of every run that returns, `loop_eq` unfolds one
step, `loop_closes` shows that a run which tracks the nesting depth has read a
forest, and `loop_forest` evaluates a run on a forest.
-/

namespace Pocketboot.DeviceTree

/-- What a loop body does next: go on at a cursor, or return. -/
inductive Next (σ ρ : Type) where
  | more (state : σ) (cursor : Nat)
  | done (result : ρ)

/-- A loop body: state, start of the token, token, and cursor after it. -/
abbrev Body (ε σ ρ : Type) : Type :=
  σ → Nat → Token → Nat → Run ε (Next σ ρ)

section

variable {ε σ ρ : Type} (reader : BlockReader ε) (block : Bytes)
  (body : Body ε σ ρ)

def tokenLoop : Nat → σ → Nat → Run ε ρ
  | 0, _, _ => .error .outOfFuel
  | fuel + 1, state, cursor => do
      let (token, next) ← nextToken reader block cursor
      match ← body state cursor token next with
      | .more state cursor => tokenLoop fuel state cursor
      | .done result => return result

/-- The loop from a state and a cursor.  Every token takes four bytes, so the
fuel is never used up. -/
def loop (state : σ) (cursor : Nat) : Run ε ρ :=
  tokenLoop reader block body (block.length + 1) state cursor

/-- Cursors a loop can reach in a block shorter than `2 ^ 32` bytes. -/
structure Cursor (cursor : Nat) : Prop where
  aligned : cursor % 4 = 0
  near : cursor < 2 ^ 32 + 4

/-- The body goes on at a later cursor. -/
def Steady : Prop :=
  ∀ state cursor token next state' cursor', Cursor cursor →
    ReadsToken block cursor token next →
    body state cursor token next = .ok (.more state' cursor') →
    cursor < cursor' ∧ Cursor cursor'

/-- One step of the loop after its token was read. -/
def continueLoop : Next σ ρ → Run ε ρ
  | .more state cursor => loop reader block body state cursor
  | .done result => .ok result

variable {reader block body}

theorem Cursor.zero : Cursor 0 := ⟨rfl, by omega⟩

theorem Cursor.of_at {cursor : Nat} {rest : Bytes}
    (place : At block cursor rest) : Cursor cursor := by
  have := place.inside
  have := place.short
  exact ⟨place.aligned, by omega⟩

/-- A body that always goes on after the token is steady. -/
theorem Steady.of_next
    (follows : ∀ state cursor token next state' cursor',
      body state cursor token next = .ok (.more state' cursor') →
        cursor' = next) : Steady block body := by
  intro state cursor token next state' cursor' _ read result
  rw [follows _ _ _ _ _ _ result]
  exact ⟨read.forward, read.aligned, read.near⟩

private theorem tokenLoop_fuel (short : block.length < 2 ^ 32)
    (steady : Steady block body) (first : Nat) :
    ∀ (second : Nat) (state : σ) (cursor : Nat), Cursor cursor →
      block.length < cursor + first → 0 < first →
      block.length < cursor + second → 0 < second →
      tokenLoop reader block body first state cursor =
        tokenLoop reader block body second state cursor := by
  induction first with
  | zero =>
      intro _ _ _ _ _ positive
      omega
  | succ first induction =>
      intro second state cursor valid enough _ enough' positive'
      obtain ⟨second, rfl⟩ := Nat.exists_eq_succ_of_ne_zero positive'.ne'
      simp only [tokenLoop]
      cases read : nextToken reader block cursor with
      | error fault => rfl
      | ok item =>
          obtain ⟨token, next⟩ := item
          have reads := nextToken_sound short valid.aligned valid.near read
          have inside := reads.inside
          simp only [Run.ok_bind]
          cases step : body state cursor token next with
          | error fault => rfl
          | ok outcome =>
              cases outcome with
              | done result => rfl
              | more state' cursor' =>
                  obtain ⟨forward, valid'⟩ :=
                    steady _ _ _ _ _ _ valid reads step
                  simp only [Run.ok_bind]
                  exact induction second state' cursor' valid' (by omega)
                    (by omega) (by omega) (by omega)

/-- One step of the loop. -/
theorem loop_eq (short : block.length < 2 ^ 32) (steady : Steady block body)
    {state : σ} {cursor : Nat} (valid : Cursor cursor) :
    loop reader block body state cursor =
      (nextToken reader block cursor >>= fun item =>
        body state cursor item.1 item.2 >>= continueLoop reader block body) := by
  rw [loop, tokenLoop]
  cases read : nextToken reader block cursor with
  | error fault => rfl
  | ok item =>
      obtain ⟨token, next⟩ := item
      have reads := nextToken_sound short valid.aligned valid.near read
      have inside := reads.inside
      simp only [Run.ok_bind]
      cases step : body state cursor token next with
      | error fault => rfl
      | ok outcome =>
          cases outcome with
          | done result => rfl
          | more state' cursor' =>
              obtain ⟨forward, valid'⟩ :=
                steady _ _ _ _ _ _ valid reads step
              simp only [Run.ok_bind, continueLoop, loop]
              exact tokenLoop_fuel short steady _ _ _ _ valid' (by omega)
                (by omega) (by omega) (by omega)

/-- One step of the loop on a lexeme. -/
theorem loop_at (steady : Steady block body) {state : σ} {cursor : Nat}
    {lexeme : Lexeme} {rest : Bytes}
    (place : At block cursor (lexeme.bytes ++ rest)) :
    loop reader block body state cursor =
      (body state cursor lexeme.token (cursor + lexeme.bytes.length) >>=
        continueLoop reader block body) := by
  rw [loop_eq place.short steady (Cursor.of_at place), nextToken_at place]
  rfl

/-- Induction along a run of the loop, up to its outcome. -/
theorem loop_induct (short : block.length < 2 ^ 32)
    (steady : Steady block body) {motive : σ → Nat → Run ε ρ → Prop}
    (unread : ∀ state cursor fault, Cursor cursor →
      nextToken reader block cursor = .error fault →
      motive state cursor (.error fault))
    (stopped : ∀ state cursor token next fault, Cursor cursor →
      ReadsToken block cursor token next →
      body state cursor token next = .error fault →
      motive state cursor (.error fault))
    (done : ∀ state cursor token next result, Cursor cursor →
      ReadsToken block cursor token next →
      body state cursor token next = .ok (.done result) →
      motive state cursor (.ok result))
    (more : ∀ state cursor token next state' cursor', Cursor cursor →
      ReadsToken block cursor token next →
      body state cursor token next = .ok (.more state' cursor') →
      motive state' cursor' (loop reader block body state' cursor') →
      motive state cursor (loop reader block body state' cursor'))
    {state : σ} {cursor : Nat} (valid : Cursor cursor) :
    motive state cursor (loop reader block body state cursor) := by
  induction left : block.length - cursor using Nat.strong_induction_on
    generalizing state cursor with
  | _ left induction =>
      rw [loop_eq short steady valid]
      cases read : nextToken reader block cursor with
      | error fault => exact unread _ _ _ valid read
      | ok item =>
          obtain ⟨token, next⟩ := item
          have reads := nextToken_sound short valid.aligned valid.near read
          have inside := reads.inside
          simp only [Run.ok_bind]
          cases step : body state cursor token next with
          | error fault => exact stopped _ _ _ _ _ valid reads step
          | ok outcome =>
              cases outcome with
              | done result => exact done _ _ _ _ _ valid reads step
              | more state' cursor' =>
                  obtain ⟨forward, valid'⟩ :=
                    steady _ _ _ _ _ _ valid reads step
                  exact more _ _ _ _ _ _ valid reads step
                    (induction _ (by omega) valid' rfl)

/-- The partial correctness rule of the loop. -/
theorem loop_rule (short : block.length < 2 ^ 32) (steady : Steady block body)
    {motive : σ → Nat → ρ → Prop}
    (done : ∀ state cursor token next result, Cursor cursor →
      ReadsToken block cursor token next →
      body state cursor token next = .ok (.done result) →
      motive state cursor result)
    (more : ∀ state cursor token next state' cursor' result, Cursor cursor →
      ReadsToken block cursor token next →
      body state cursor token next = .ok (.more state' cursor') →
      motive state' cursor' result → motive state cursor result)
    {state : σ} {cursor : Nat} {result : ρ} (valid : Cursor cursor)
    (returns : loop reader block body state cursor = .ok result) :
    motive state cursor result := by
  revert returns
  refine loop_induct (motive := fun state cursor outcome =>
    outcome = .ok result → motive state cursor result) short steady
    ?_ ?_ ?_ ?_ valid
  · rintro _ _ _ _ _ ⟨⟩
  · rintro _ _ _ _ _ _ _ _ ⟨⟩
  · rintro state cursor token next _ valid reads step ⟨⟩
    exact done _ _ _ _ _ valid reads step
  · intro state cursor token next state' cursor' valid reads step later
      returns
    exact more _ _ _ _ _ _ _ valid reads step (later returns)

/-- The loop ends in a value or an error value when its body does in every
state of an invariant. -/
theorem loop_returns (short : block.length < 2 ^ 32)
    (steady : Steady block body) (invariant : σ → Nat → Prop)
    (each : ∀ state cursor token next, invariant state cursor →
      ReadsToken block cursor token next →
      (body state cursor token next).Returns)
    (keeps : ∀ state cursor token next state' cursor',
      invariant state cursor → ReadsToken block cursor token next →
      body state cursor token next = .ok (.more state' cursor') →
      invariant state' cursor')
    {state : σ} {cursor : Nat} (valid : Cursor cursor)
    (holds : invariant state cursor) :
    (loop reader block body state cursor).Returns := by
  revert holds
  refine loop_induct (motive := fun state cursor outcome =>
    invariant state cursor → outcome.Returns) short steady ?_ ?_ ?_ ?_ valid
  · intro state cursor fault valid read _
    exact (nextToken_returns short valid.near).error read
  · intro state cursor token next fault _ reads step holds
    exact (each _ _ _ _ holds reads).error step
  · intro _ _ _ _ result _ _ _ _
    exact Run.returns_ok result
  · intro state cursor token next state' cursor' _ reads step later holds
    exact later (keeps _ _ _ _ _ _ holds reads step)

end

/-! ## Runs that track the depth have read a forest -/

/-- The bytes close `depth` open nodes; `final` holds of what follows. -/
def Closes (final : Bytes → Prop) : Nat → Bytes → Prop
  | 0, data => final data
  | depth + 1, data => ∃ (forest : Forest) (rest : Bytes),
      data = forest.bytes ++ (be32 endNodeToken ++ rest) ∧
        Closes final depth rest

/-- The bytes of a whole structure block: a forest, the end token, and
whatever follows. -/
def WholeBlock (data : Bytes) : Prop :=
  ∃ (forest : Forest) (trailing : Bytes),
    data = forest.bytes ++ (be32 endToken ++ trailing)

/-- A property that a forest in front does not change. -/
def Absorbs (final : Bytes → Prop) : Prop :=
  ∀ (forest : Forest) (data : Bytes), final data → final (forest.bytes ++ data)

theorem WholeBlock.absorbs : Absorbs WholeBlock := by
  rintro front data ⟨forest, trailing, rfl⟩
  exact ⟨front.append forest, trailing, by simp⟩

theorem Closes.front {final : Bytes → Prop} {depth : Nat} {data : Bytes}
    (absorbs : Absorbs final ∨ 0 < depth) (forest : Forest)
    (closes : Closes final depth data) :
    Closes final depth (forest.bytes ++ data) := by
  cases depth with
  | zero =>
      rcases absorbs with absorbs | positive
      · exact absorbs forest data closes
      · omega
  | succ depth =>
      obtain ⟨inner, rest, rfl, closes⟩ := closes
      exact ⟨forest.append inner, rest, by simp, closes⟩

theorem Closes.enter {final : Bytes → Prop} {depth : Nat} {data : Bytes}
    (absorbs : Absorbs final ∨ 0 < depth) (name : NodeName)
    (closes : Closes final (depth + 1) data) :
    Closes final depth (name.bytes ++ data) := by
  obtain ⟨inner, rest, rfl, closes⟩ := closes
  have front := closes.front absorbs (.node name inner .nil)
  simpa [Forest.bytes] using front

theorem Closes.leave {final : Bytes → Prop} {depth : Nat} {data : Bytes}
    (closes : Closes final depth data) :
    Closes final (depth + 1) (be32 endNodeToken ++ data) :=
  ⟨.nil, data, rfl, closes⟩

section

variable {ε σ ρ : Type} {reader : BlockReader ε} {block : Bytes}
  {body : Body ε σ ρ}

/-- The part of a block between two cursors is one node. -/
def SkipsNode (block : Bytes) (cursor cursor' : Nat) : Prop :=
  cursor' ≤ block.length ∧ ∃ (name : NodeName) (inner : Forest),
    block.drop cursor =
      (Forest.node name inner .nil).bytes ++ block.drop cursor'

/-- The body counts the open nodes in its state.  `ground` says whether it may
be outside every node. -/
structure Tracks (block : Bytes) (body : Body ε σ ρ) (depth : σ → Nat)
    (ground : Prop) (final : ρ → Bytes → Prop) : Prop where
  beginNode : ∀ {state cursor name next outcome},
    ReadsToken block cursor (.beginNode name) next →
    body state cursor (.beginNode name) next = .ok outcome →
    (∃ state', outcome = .more state' next ∧
      depth state' = depth state + 1) ∨
    (∃ state' cursor', outcome = .more state' cursor' ∧
      depth state' = depth state ∧ SkipsNode block cursor cursor')
  endNode : ∀ {state cursor next outcome},
    body state cursor .endNode next = .ok outcome →
    (∃ state', outcome = .more state' next ∧
      depth state = depth state' + 1 ∧ (ground ∨ 0 < depth state')) ∨
    (∃ result, outcome = .done result ∧ depth state = 1 ∧
      (next ≤ block.length → final result (block.drop next)))
  prop : ∀ {state cursor nameoff value next outcome},
    body state cursor (.prop nameoff value) next = .ok outcome →
    ∃ state', outcome = .more state' next ∧ depth state' = depth state
  nop : ∀ {state cursor next outcome},
    body state cursor .nop next = .ok outcome →
    ∃ state', outcome = .more state' next ∧ depth state' = depth state
  fin : ∀ {state cursor next outcome},
    body state cursor .fin next = .ok outcome →
    ∃ result, outcome = .done result ∧ depth state = 0 ∧
      ∀ data, final result (be32 endToken ++ data)

/-- A run that tracks the depth and returns has read what closes its open
nodes. -/
theorem loop_closes (short : block.length < 2 ^ 32)
    (steady : Steady block body) {depth : σ → Nat} {ground : Prop}
    {final : ρ → Bytes → Prop}
    (tracks : Tracks block body depth ground final)
    (absorbs : ground → ∀ result, Absorbs (final result)) {state : σ}
    {cursor : Nat} {result : ρ} (valid : Cursor cursor)
    (open' : ground ∨ 0 < depth state)
    (returns : loop reader block body state cursor = .ok result) :
    cursor ≤ block.length ∧
      Closes (final result) (depth state) (block.drop cursor) := by
  revert open'
  refine loop_rule (motive := fun state cursor result =>
    ground ∨ 0 < depth state → cursor ≤ block.length ∧
      Closes (final result) (depth state) (block.drop cursor)) short steady
    ?_ ?_ valid returns
  · intro state cursor token next result valid reads step _
    have inside := reads.inside
    cases token with
    | beginNode name =>
        rcases tracks.beginNode reads step with
          ⟨_, more, _⟩ | ⟨_, _, more, _⟩ <;> cases more
    | endNode =>
        have fits := reads.fits_of_endNode
        have place := reads.endNode_at
        rcases tracks.endNode step with ⟨_, more, _⟩ | ⟨_, same, depth, last⟩
        · cases more
        · cases same
          rw [place.after, depth]
          exact ⟨by omega, (show Closes (final result) 0 _ from
            last fits).leave⟩
    | prop nameoff value =>
        obtain ⟨_, more, _⟩ := tracks.prop step
        cases more
    | nop =>
        obtain ⟨_, more, _⟩ := tracks.nop step
        cases more
    | fin =>
        obtain ⟨_, same, depth, last⟩ := tracks.fin step
        cases same
        rw [reads.fin_at.after, depth]
        exact ⟨by omega, last _⟩
  · intro state cursor token next state' cursor' result valid reads step later
      open'
    have inside := reads.inside
    have absorbing : Absorbs (final result) ∨ 0 < depth state :=
      open'.imp_left fun ground => absorbs ground result
    refine ⟨by omega, ?_⟩
    cases token with
    | beginNode name =>
        rcases tracks.beginNode reads step with
          ⟨_, same, deeper⟩ | ⟨_, _, same, level, skips⟩
        · cases same
          obtain ⟨fits, closes⟩ := later (.inr (by omega))
          obtain ⟨named, _, _, place⟩ := reads.beginNode_at fits
          rw [place.after]
          exact (deeper ▸ closes).enter absorbing named
        · cases same
          obtain ⟨_, named, inner, split⟩ := skips
          rw [split]
          rw [level] at later
          exact (later open').2.front absorbing _
    | endNode =>
        rcases tracks.endNode step with ⟨_, same, shallower, ground⟩ | ⟨_, done, _⟩
        · cases same
          rw [reads.endNode_at.after, shallower]
          exact (later ground).2.leave
        · cases done
    | prop nameoff value =>
        obtain ⟨_, same, level⟩ := tracks.prop step
        cases same
        obtain ⟨property, _, _, _, place⟩ := reads.prop_at
        rw [level] at later
        rw [place.after]
        simpa [Forest.bytes] using
          (later open').2.front absorbing (.prop property .nil)
    | nop =>
        obtain ⟨_, same, level⟩ := tracks.nop step
        cases same
        rw [level] at later
        rw [reads.nop_at.after]
        simpa [Forest.bytes] using (later open').2.front absorbing (.nop .nil)
    | fin =>
        obtain ⟨_, done, _⟩ := tracks.fin step
        cases done

end

end Pocketboot.DeviceTree
