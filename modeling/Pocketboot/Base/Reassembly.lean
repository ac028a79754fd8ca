import Pocketboot.Base.Bytes

/-!
# Messages out of a stream of pieces

A consumer collects the pieces of a byte stream in a buffer and takes whole
messages from its front.  A message that is whole stays the same message when
more bytes follow it, so what the consumer does depends on the stream alone
and not on how it is cut, except where a message makes the consumer throw the
rest of its buffer away.
-/

namespace Pocketboot

/-- A consumer of messages `μ` that works on a state `ω`. -/
structure Consumer (ω μ ε : Type) where
  /-- The message at the front of the bytes, and the bytes it takes. -/
  next : ω → Bytes → Option (μ × Nat)
  /-- The work a message makes; `false` throws away what is buffered. -/
  perform : ω → μ → Run ε Bool × ω
  /-- The messages so far. -/
  count : ω → Nat
  next_size : ∀ {work bytes message size}, next work bytes =
    some (message, size) → 0 < size ∧ size ≤ bytes.length
  next_append : ∀ {work bytes message size}, next work bytes =
    some (message, size) → ∀ more, next work (bytes ++ more) =
      some (message, size)
  next_take : ∀ {work bytes message size}, next work bytes =
    some (message, size) → next work (bytes.take size) = some (message, size)
  count_perform : ∀ work message,
    count (perform work message).2 = count work + 1

namespace Consumer

variable {ω μ ε : Type} (consumer : Consumer ω μ ε)

/-- Take messages from the buffer until none is whole. -/
def drain : Nat → ω → Bytes → Run ε Unit × ω × Bytes
  | 0, work, buffer => (.error .outOfFuel, work, buffer)
  | fuel + 1, work, buffer =>
      match consumer.next work buffer with
      | none => (.ok (), work, buffer)
      | some (message, size) =>
          match consumer.perform work message with
          | (.error fault, work) => (.error fault, work, buffer.drop size)
          | (.ok true, work) => drain fuel work (buffer.drop size)
          | (.ok false, work) => (.ok (), work, [])

/-- A piece of the stream arrives. -/
def feed (work : ω) (buffer piece : Bytes) : Run ε Unit × ω × Bytes :=
  consumer.drain ((buffer ++ piece).length + 1) work (buffer ++ piece)

/-- The pieces arrive one by one, until one of them fails. -/
def feedAll : ω → Bytes → List Bytes → Run ε Unit × ω
  | work, _, [] => (.ok (), work)
  | work, buffer, piece :: pieces =>
      match consumer.feed work buffer piece with
      | (.error fault, work, _) => (.error fault, work)
      | (.ok (), work, buffer) => feedAll work buffer pieces

/-! ## Draining a whole stream -/

/-- How the messages of a stream end. -/
inductive Ending (ε : Type) where
  | waiting (rest : Bytes)
  | failed (fault : Fault ε)
  | discarded (rest : Bytes)

namespace Ending

def outcome : Ending ε → Run ε Unit
  | failed fault => .error fault
  | _ => .ok ()

/-- The ending when more bytes follow a stream that does not wait for them. -/
def append : Ending ε → Bytes → Ending ε
  | discarded rest, more => .discarded (rest ++ more)
  | ending, _ => ending

end Ending

/-- The messages of a stream, taken one by one. -/
inductive Drains : ω → Bytes → Ending ε → ω → Prop where
  | waiting {work : ω} {bytes : Bytes}
      (incomplete : consumer.next work bytes = none) :
      Drains work bytes (.waiting bytes) work
  | failed {work work' : ω} {bytes : Bytes} {message : μ} {size : Nat}
      {fault : Fault ε}
      (next : consumer.next work bytes = some (message, size))
      (perform : consumer.perform work message = (.error fault, work')) :
      Drains work bytes (.failed fault) work'
  | discarded {work work' : ω} {bytes : Bytes} {message : μ} {size : Nat}
      (next : consumer.next work bytes = some (message, size))
      (perform : consumer.perform work message = (.ok false, work')) :
      Drains work bytes (.discarded (bytes.drop size)) work'
  | step {work work' last : ω} {bytes : Bytes} {message : μ} {size : Nat}
      {ending : Ending ε}
      (next : consumer.next work bytes = some (message, size))
      (perform : consumer.perform work message = (.ok true, work'))
      (rest : Drains work' (bytes.drop size) ending last) :
      Drains work bytes ending last

variable {consumer}

theorem drains_total (work : ω) (bytes : Bytes) :
    ∃ ending last, consumer.Drains work bytes ending last := by
  induction bytes using (measure List.length).wf.induction generalizing work with
  | h bytes induction =>
      cases next : consumer.next work bytes with
      | none => exact ⟨_, _, .waiting next⟩
      | some taken =>
          obtain ⟨message, size⟩ := taken
          obtain ⟨positive, inside⟩ := consumer.next_size next
          rcases performed : consumer.perform work message with
            ⟨fault | going, work'⟩
          · exact ⟨_, _, .failed next performed⟩
          · cases going with
            | false => exact ⟨_, _, .discarded next performed⟩
            | true =>
                have shorter : (bytes.drop size).length < bytes.length := by
                  rw [List.length_drop]
                  omega
                obtain ⟨ending, last, rest⟩ := induction _ shorter work'
                exact ⟨ending, last, .step next performed rest⟩

/-- What the buffer of the consumer holds when a stream ends. -/
def Ending.buffer : Ending ε → Bytes
  | .waiting rest => rest
  | _ => []

theorem drain_of_drains {work last : ω} {bytes : Bytes} {ending : Ending ε}
    {fuel : Nat} (drains : consumer.Drains work bytes ending last)
    (enough : bytes.length < fuel) :
    (consumer.drain fuel work bytes).1 = ending.outcome ∧
      (consumer.drain fuel work bytes).2.1 = last ∧
      (ending.outcome = .ok () →
        (consumer.drain fuel work bytes).2.2 = ending.buffer) := by
  induction drains generalizing fuel with
  | waiting incomplete =>
      cases fuel with
      | zero => omega
      | succ fuel =>
          rw [drain, incomplete]
          exact ⟨rfl, rfl, fun _ => rfl⟩
  | failed next performed =>
      cases fuel with
      | zero => omega
      | succ fuel =>
          simp only [drain, next, performed]
          exact ⟨rfl, trivial, fun ok => by cases ok⟩
  | discarded next performed =>
      cases fuel with
      | zero => omega
      | succ fuel =>
          simp only [drain, next, performed]
          exact ⟨rfl, trivial, fun _ => rfl⟩
  | step next performed _ induction =>
      cases fuel with
      | zero => omega
      | succ fuel =>
          obtain ⟨positive, inside⟩ := consumer.next_size next
          simp only [drain, next, performed]
          apply induction
          rw [List.length_drop]
          omega

theorem Drains.deterministic {work first second : ω} {bytes : Bytes}
    {one two : Ending ε} (left : consumer.Drains work bytes one first)
    (right : consumer.Drains work bytes two second) :
    one = two ∧ first = second := by
  induction left with
  | waiting incomplete =>
      cases right with
      | waiting => exact ⟨rfl, rfl⟩
      | failed next | discarded next | step next =>
          rw [incomplete] at next
          cases next
  | failed next performed =>
      cases right with
      | waiting incomplete =>
          rw [incomplete] at next
          cases next
      | failed next' performed' | discarded next' performed'
      | step next' performed' =>
          rw [next] at next'
          cases next'
          rw [performed] at performed'
          cases performed'
          try exact ⟨rfl, rfl⟩
  | discarded next performed =>
      cases right with
      | waiting incomplete =>
          rw [incomplete] at next
          cases next
      | failed next' performed' | discarded next' performed'
      | step next' performed' =>
          rw [next] at next'
          cases next'
          rw [performed] at performed'
          cases performed'
          try exact ⟨rfl, rfl⟩
  | step next performed _ induction =>
      cases right with
      | waiting incomplete =>
          rw [incomplete] at next
          cases next
      | failed next' performed' | discarded next' performed' =>
          rw [next] at next'
          cases next'
          rw [performed] at performed'
          cases performed'
      | step next' performed' rest' =>
          rw [next] at next'
          cases next'
          rw [performed] at performed'
          cases performed'
          exact induction rest'

/-! ## More bytes behind a stream -/

/-- The next message is not changed by what follows it. -/
theorem drop_append {bytes more : Bytes} {size : Nat}
    (inside : size ≤ bytes.length) :
    (bytes ++ more).drop size = bytes.drop size ++ more :=
  List.drop_append_of_le_length inside

theorem Drains.append_waiting {work middle last : ω} {bytes rest more : Bytes}
    {ending : Ending ε} (drains : consumer.Drains work bytes (.waiting rest) middle)
    (later : consumer.Drains middle (rest ++ more) ending last) :
    consumer.Drains work (bytes ++ more) ending last := by
  generalize same : Ending.waiting rest = first at drains
  induction drains with
  | waiting incomplete =>
      cases same
      exact later
  | failed | discarded => cases same
  | step next performed _ induction =>
      refine .step (consumer.next_append next more) performed ?_
      rw [drop_append (consumer.next_size next).2]
      exact induction later same

theorem Drains.append {work last : ω} {bytes more : Bytes}
    {ending : Ending ε} (drains : consumer.Drains work bytes ending last)
    (stops : ∀ rest, ending ≠ .waiting rest) :
    consumer.Drains work (bytes ++ more) (ending.append more) last := by
  induction drains with
  | waiting => exact absurd rfl (stops _)
  | failed next performed =>
      exact .failed (consumer.next_append next more) performed
  | discarded next performed =>
      rw [Ending.append, ← drop_append (consumer.next_size next).2]
      exact .discarded (consumer.next_append next more) performed
  | step next performed _ induction =>
      refine .step (consumer.next_append next more) performed ?_
      rw [drop_append (consumer.next_size next).2]
      exact induction stops

/-- Work goes on where a stream waits. -/
theorem Drains.of_append {work middle last : ω} {bytes rest more : Bytes}
    {ending : Ending ε}
    (drains : consumer.Drains work bytes (.waiting rest) middle)
    (whole : consumer.Drains work (bytes ++ more) ending last) :
    consumer.Drains middle (rest ++ more) ending last := by
  obtain ⟨ending', last', later⟩ :=
    @drains_total _ _ _ consumer middle (rest ++ more)
  obtain ⟨rfl, rfl⟩ := whole.deterministic (drains.append_waiting later)
  exact later

/-- Where a stream waits, no message is whole. -/
theorem Drains.next_waiting {work last : ω} {bytes rest : Bytes}
    (drains : consumer.Drains work bytes (.waiting rest) last) :
    consumer.next last rest = none := by
  generalize same : Ending.waiting rest = ending at drains
  induction drains with
  | waiting incomplete =>
      cases same
      exact incomplete
  | failed | discarded => cases same
  | step _ _ _ induction => exact induction same

/-! ## Cuts -/

variable (consumer)

/-- No message is whole at any place of these bytes. -/
def Silent (work : ω) (bytes : Bytes) : Prop :=
  ∀ suffix, suffix <:+ bytes → consumer.next work suffix = none

/-- What is thrown away behind a message holds no whole message. -/
def Tidy (work : ω) (bytes : Bytes) : Prop :=
  ∀ rest last, consumer.Drains work bytes (.discarded rest) last →
    consumer.Silent last rest

variable {consumer}

theorem feed_of_drains {work last : ω} {buffer piece : Bytes}
    {ending : Ending ε}
    (drains : consumer.Drains work (buffer ++ piece) ending last) :
    (consumer.feed work buffer piece).1 = ending.outcome ∧
      (consumer.feed work buffer piece).2.1 = last ∧
      (ending.outcome = .ok () →
        (consumer.feed work buffer piece).2.2 = ending.buffer) :=
  drain_of_drains drains (Nat.lt_succ_self _)

theorem feedAll_cons_failed {work last : ω} {buffer piece : Bytes}
    {pieces : List Bytes} {fault : Fault ε}
    (drains : consumer.Drains work (buffer ++ piece) (.failed fault) last) :
    consumer.feedAll work buffer (piece :: pieces) = (.error fault, last) := by
  obtain ⟨outcome, state, _⟩ := feed_of_drains drains
  rcases fed : consumer.feed work buffer piece with ⟨result, after, left⟩
  rw [fed] at outcome state
  simp only [Ending.outcome] at outcome state
  subst outcome state
  simp only [feedAll, fed]

theorem feedAll_cons {work last : ω} {buffer piece : Bytes}
    {pieces : List Bytes} {ending : Ending ε}
    (drains : consumer.Drains work (buffer ++ piece) ending last)
    (going : ending.outcome = .ok ()) :
    consumer.feedAll work buffer (piece :: pieces) =
      consumer.feedAll last ending.buffer pieces := by
  obtain ⟨outcome, state, left⟩ := feed_of_drains drains
  rcases fed : consumer.feed work buffer piece with ⟨result, after, rest⟩
  rw [fed] at outcome state left
  simp only at outcome state left
  rw [going] at outcome
  subst outcome state
  rw [← left going]
  simp only [feedAll, fed]

/-- Bytes without a whole message change nothing, in any pieces. -/
theorem feedAll_silent {work : ω} {buffer : Bytes} {pieces : List Bytes}
    (silent : consumer.Silent work (buffer ++ pieces.flatten)) :
    consumer.feedAll work buffer pieces = (.ok (), work) := by
  induction pieces generalizing buffer with
  | nil => rfl
  | cons piece pieces induction =>
      rw [List.flatten_cons, ← List.append_assoc] at silent
      have incomplete : consumer.next work (buffer ++ piece) = none := by
        -- a whole message at the front would still be whole
        cases next : consumer.next work (buffer ++ piece) with
        | none => rfl
        | some taken =>
            have whole := consumer.next_append next pieces.flatten
            rw [silent _ (List.suffix_refl _)] at whole
            cases whole
      rw [feedAll_cons (.waiting incomplete) rfl]
      exact induction silent

/-- Where nothing that matters is thrown away, the pieces do what the whole
stream does. -/
theorem feedAll_of_drains {work last : ω} {buffer : Bytes}
    {pieces : List Bytes} {ending : Ending ε}
    (drains : consumer.Drains work (buffer ++ pieces.flatten) ending last)
    (waits : consumer.next work buffer = none)
    (tidy : ∀ rest, ending = .discarded rest → consumer.Silent last rest) :
    consumer.feedAll work buffer pieces = (ending.outcome, last) := by
  induction pieces generalizing work buffer with
  | nil =>
      rw [List.flatten_nil, List.append_nil] at drains
      obtain ⟨rfl, rfl⟩ := drains.deterministic (.waiting waits)
      rfl
  | cons piece pieces induction =>
      rw [List.flatten_cons, ← List.append_assoc] at drains
      obtain ⟨first, last', piecewise⟩ :=
        @drains_total _ _ _ consumer work (buffer ++ piece)
      cases first with
      | waiting rest =>
          rw [feedAll_cons piecewise rfl]
          exact induction (piecewise.of_append drains) piecewise.next_waiting
      | failed fault =>
          obtain ⟨rfl, rfl⟩ := drains.deterministic
            (piecewise.append (by simp))
          exact feedAll_cons_failed piecewise
      | discarded rest =>
          have whole : consumer.Drains work (buffer ++ piece ++ pieces.flatten)
              (.discarded (rest ++ pieces.flatten)) last' :=
            piecewise.append (by simp)
          obtain ⟨rfl, rfl⟩ := drains.deterministic whole
          rw [feedAll_cons piecewise rfl]
          apply feedAll_silent
          rintro suffix ⟨front, split⟩
          exact tidy _ rfl suffix ⟨rest ++ front, by
            rw [List.append_assoc, split]
            rfl⟩

private theorem count_of_perform {work work' : ω} {message : μ}
    {result : Run ε Bool}
    (performed : consumer.perform work message = (result, work')) :
    consumer.count work' = consumer.count work + 1 := by
  have counted := consumer.count_perform work message
  rwa [performed] at counted

theorem Drains.count_le {work last : ω} {bytes : Bytes} {ending : Ending ε}
    (drains : consumer.Drains work bytes ending last) :
    consumer.count work ≤ consumer.count last := by
  induction drains with
  | waiting => exact le_rfl
  | failed _ performed | discarded _ performed =>
      have := count_of_perform performed
      omega
  | step _ performed _ induction =>
      have := count_of_perform performed
      omega

theorem Drains.count_lt {work last : ω} {bytes : Bytes} {ending : Ending ε}
    (drains : consumer.Drains work bytes ending last)
    (whole : consumer.next work bytes ≠ none) :
    consumer.count work < consumer.count last := by
  cases drains with
  | waiting incomplete => exact absurd incomplete whole
  | failed _ performed | discarded _ performed =>
      have := count_of_perform performed
      omega
  | step _ performed rest =>
      have := count_of_perform performed
      have := rest.count_le
      omega

/-- What is thrown away can be cut off behind any of its bytes. -/
theorem Drains.cut_discarded {work last : ω} {bytes thrown suffix : Bytes}
    (drains : consumer.Drains work bytes (.discarded (thrown ++ suffix)) last) :
    ∃ front, bytes = front ++ suffix ∧
      consumer.Drains work front (.discarded thrown) last := by
  generalize same : Ending.discarded (thrown ++ suffix) = ending at drains
  induction drains with
  | waiting | failed => cases same
  | @discarded work work' bytes message size next performed =>
      have split : thrown ++ suffix = bytes.drop size := Ending.discarded.inj same
      have sized : (bytes.take size).length = size :=
        List.length_take_of_le (consumer.next_size next).2
      refine ⟨bytes.take size ++ thrown, ?_, ?_⟩
      · rw [List.append_assoc, split, List.take_append_drop]
      · have early := Drains.discarded
          (consumer.next_append (consumer.next_take next) thrown) performed
        rwa [List.drop_append_of_le_length sized.ge,
          List.drop_of_length_le sized.le, List.nil_append] at early
  | @step work work' last bytes message size ending next performed _ induction =>
      obtain ⟨front, split, early⟩ := induction same
      have sized : (bytes.take size).length = size :=
        List.length_take_of_le (consumer.next_size next).2
      refine ⟨bytes.take size ++ front, ?_, ?_⟩
      · rw [List.append_assoc, ← split, List.take_append_drop]
      · refine .step (consumer.next_append (consumer.next_take next) front)
          performed ?_
        rwa [List.drop_append_of_le_length sized.ge,
          List.drop_of_length_le sized.le, List.nil_append]

theorem feedAll_single {work last : ω} {bytes : Bytes} {ending : Ending ε}
    (drains : consumer.Drains work bytes ending last) :
    consumer.feedAll work [] [bytes] = (ending.outcome, last) := by
  cases ending with
  | failed fault => exact @feedAll_cons_failed _ _ _ _ _ _ [] _ [] _ drains
  | waiting rest => exact @feedAll_cons _ _ _ _ _ _ [] _ [] _ drains rfl
  | discarded rest => exact @feedAll_cons _ _ _ _ _ _ [] _ [] _ drains rfl

/-- A stream that throws a whole message away is cut in two ways that do
different work. -/
theorem exists_cut_of_not_silent {work last : ω} {bytes rest suffix : Bytes}
    (drains : consumer.Drains work bytes (.discarded rest) last)
    (part : suffix <:+ rest) (whole : consumer.next last suffix ≠ none) :
    ∃ front, front ++ suffix = bytes ∧
      consumer.count (consumer.feedAll work [] [bytes]).2 <
        consumer.count (consumer.feedAll work [] [front, suffix]).2 := by
  obtain ⟨thrown, rfl⟩ := part
  obtain ⟨front, rfl, early⟩ := drains.cut_discarded
  refine ⟨front, rfl, ?_⟩
  obtain ⟨ending, final, later⟩ := @drains_total _ _ _ consumer last suffix
  have twice : consumer.feedAll work [] [front, suffix] =
      consumer.feedAll last [] [suffix] :=
    @feedAll_cons _ _ _ _ _ _ [] _ [suffix] _ early rfl
  rw [feedAll_single drains, twice, feedAll_single later]
  exact later.count_lt whole

end Consumer

end Pocketboot
