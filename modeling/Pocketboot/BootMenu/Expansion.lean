import Pocketboot.Base.StrSlice

/-!
# Expansion of variables

A scanner replaces the variables of a GRUB configuration in a string.  It works
on offsets in the bytes of the string; what it does is one pass over the tokens
of its characters.
-/

namespace Pocketboot.BootMenu

open Text

/-- The values that are known. -/
abbrev Variables : Type := Text → Option Text

def grubOptionalEmptyVariables : List Text :=
  ["grub_users".toList, "tuned_initrd".toList, "tuned_params".toList]

/-- `is_ascii_alphabetic`, or an underscore. -/
def startsName (letter : Char) : Bool :=
  let code := letter.toNat
  (65 ≤ code && code ≤ 90) || (97 ≤ code && code ≤ 122) || letter = '_'

/-- `is_ascii_alphanumeric`, or an underscore. -/
def continuesName (letter : Char) : Bool :=
  startsName letter || (48 ≤ letter.toNat && letter.toNat ≤ 57)

def pushGrubVariable (output original : Text) (tokenStart tokenEnd : Nat)
    (name : Text) (values : Variables) : Run Empty Text :=
  match values name with
  | some value => .ok (output ++ value)
  | none =>
      if name ∉ grubOptionalEmptyVariables then do
        let token ← strSlice original tokenStart tokenEnd
        return output ++ token
      else .ok output

/-- The inner loop that looks for the closing brace. -/
def closingBrace : List (Nat × Char) → Option Nat × List (Nat × Char)
  | [] => (none, [])
  | (index, letter) :: chars =>
      if letter = '}' then (some index, chars) else closingBrace chars

/-- The inner loop that reads a name. -/
def nameEnd : List (Nat × Char) → Nat → Nat × List (Nat × Char)
  | [], stop => (stop, [])
  | (index, letter) :: chars, stop =>
      if ¬ continuesName letter then (stop, (index, letter) :: chars)
      else nameEnd chars (index + letter.utf8Size)

/-- The loop of `expand_grub_vars` over the characters that are left. -/
def expandLoop (value : Text) (values : Variables) :
    Nat → List (Nat × Char) → Text → Run Empty Text
  | 0, _, _ => .error .outOfFuel
  | _ + 1, [], expanded => .ok expanded
  | fuel + 1, (_, letter) :: chars, expanded =>
      if letter ≠ '$' then
        expandLoop value values fuel chars (expanded ++ [letter])
      else
        match chars with
        | [] => expandLoop value values fuel [] (expanded ++ ['$'])
        | (varStart, next) :: rest =>
            if next = '{' then do
              let nameStart := varStart + next.utf8Size
              let tokenStart ← subOrPanic varStart 1
              match closingBrace rest with
              | (none, _) =>
                  let tail ← strFrom value tokenStart
                  return expanded ++ tail
              | (some stop, chars) =>
                  let name ← strSlice value nameStart stop
                  let expanded ← pushGrubVariable expanded value tokenStart
                    (stop + 1) name values
                  expandLoop value values fuel chars expanded
            else if ¬ startsName next then
              expandLoop value values fuel ((varStart, next) :: rest)
                (expanded ++ ['$'])
            else do
              let (stop, chars) := nameEnd rest (varStart + next.utf8Size)
              let name ← strSlice value varStart stop
              let tokenStart ← subOrPanic varStart 1
              let expanded ← pushGrubVariable expanded value tokenStart stop
                name values
              expandLoop value values fuel chars expanded

def expandGrubVars (value : Text) (values : Variables) : Run Empty Text :=
  expandLoop value values (value.length + 1) (charIndices 0 value) []

/-! ## Tokens -/

inductive Token where
  | literal (letter : Char)
  | named (name : Text)
  | braced (text : Text)
  /-- A brace that is never closed, with all that follows. -/
  | unclosed (text : Text)
  deriving DecidableEq, Repr

/-- The tokens of a string, from left to right. -/
inductive Tokenises : Text → List Token → Prop where
  | done : Tokenises [] []
  | literal {letter : Char} {rest : Text} {tokens : List Token}
      (plain : letter ≠ '$') (later : Tokenises rest tokens) :
      Tokenises (letter :: rest) (.literal letter :: tokens)
  /-- A dollar that starts no token. -/
  | dollar {rest : Text} {tokens : List Token}
      (alone : ∀ next, rest.head? = some next →
        next ≠ '{' ∧ ¬ startsName next)
      (later : Tokenises rest tokens) :
      Tokenises ('$' :: rest) (.literal '$' :: tokens)
  /-- The longest name. -/
  | named {first : Char} {name rest : Text} {tokens : List Token}
      (starts : startsName first) (continues : ∀ letter ∈ name,
        continuesName letter)
      (longest : ∀ next, rest.head? = some next → ¬ continuesName next)
      (later : Tokenises rest tokens) :
      Tokenises ('$' :: first :: (name ++ rest))
        (.named (first :: name) :: tokens)
  /-- Up to the first closing brace. -/
  | braced {text rest : Text} {tokens : List Token} (first : '}' ∉ text)
      (later : Tokenises rest tokens) :
      Tokenises ('$' :: '{' :: (text ++ '}' :: rest)) (.braced text :: tokens)
  | unclosed {text : Text} (never : '}' ∉ text) :
      Tokenises ('$' :: '{' :: text) [.unclosed text]

/-- What stands for a variable that a token names. -/
def substitute (values : Variables) (name token : Text) : Text :=
  match values name with
  | some value => value
  | none => if name ∈ grubOptionalEmptyVariables then [] else token

/-- The text that replaces a token. -/
def Token.replacement (values : Variables) : Token → Text
  | .literal letter => [letter]
  | .named name => substitute values name ('$' :: name)
  | .braced text => substitute values text ('$' :: '{' :: (text ++ ['}']))
  | .unclosed text => '$' :: '{' :: text

/-! ## The inner loops -/

theorem closingBrace_none {offset : Nat} {text : Text} (never : '}' ∉ text) :
    closingBrace (charIndices offset text) = (none, []) := by
  induction text generalizing offset with
  | nil => rfl
  | cons letter text induction =>
      rw [List.mem_cons, not_or] at never
      rw [charIndices, closingBrace, if_neg (Ne.symm never.1),
        induction never.2]

theorem closingBrace_some {offset : Nat} {text rest : Text}
    (first : '}' ∉ text) :
    closingBrace (charIndices offset (text ++ '}' :: rest)) =
      (some (offset + size text), charIndices (offset + size text + 1) rest) := by
  induction text generalizing offset with
  | nil => rfl
  | cons letter text induction =>
      rw [List.mem_cons, not_or] at first
      rw [List.cons_append, charIndices, closingBrace,
        if_neg (Ne.symm first.1), induction first.2, size_cons, Nat.add_assoc]

theorem nameEnd_eq {offset : Nat} {name rest : Text}
    (continues : ∀ letter ∈ name, continuesName letter)
    (longest : ∀ next, rest.head? = some next → ¬ continuesName next) :
    nameEnd (charIndices offset (name ++ rest)) offset =
      (offset + size name, charIndices (offset + size name) rest) := by
  induction name generalizing offset with
  | nil =>
      cases rest with
      | nil => rfl
      | cons next rest =>
          rw [List.nil_append, charIndices, nameEnd, if_pos (longest next rfl)]
          rfl
  | cons letter name induction =>
      obtain ⟨this, others⟩ := List.forall_mem_cons.mp continues
      rw [List.cons_append, charIndices, nameEnd,
        if_neg (Decidable.not_not.mpr this), induction others, size_cons,
        Nat.add_assoc]

/-- A token is sliced out of the string when it is to be kept. -/
theorem pushGrubVariable_eq {output front token back name : Text}
    {tokenStart tokenEnd : Nat} {values : Variables}
    (starts : tokenStart = size front)
    (stops : tokenEnd = tokenStart + size token) :
    pushGrubVariable output (front ++ (token ++ back)) tokenStart tokenEnd name
        values =
      .ok (output ++ substitute values name token) := by
  unfold pushGrubVariable substitute
  cases values name with
  | some value => rfl
  | none =>
      dsimp only
      by_cases optional : name ∈ grubOptionalEmptyVariables
      · rw [if_neg (not_not.mpr optional), if_pos optional, List.append_nil]
      · rw [if_pos optional, if_neg optional, strSlice_append starts stops]
        rfl

/-! ## One pass over the tokens -/

/-- What the loop does with the rest of the string: it appends what replaces
the tokens of that rest.  The fuel covers the characters that are left. -/
def Expands (value : Text) (values : Variables) (offset : Nat) (rest : Text)
    (tokens : List Token) : Prop :=
  ∀ fuel expanded, rest.length < fuel →
    expandLoop value values fuel (charIndices offset rest) expanded =
      .ok (expanded ++ tokens.flatMap (Token.replacement values))

section

variable {values : Variables} {front rest : Text} {tokens : List Token}

theorem expands_done : Expands front values (size front) [] [] := by
  intro fuel expanded enough
  obtain ⟨fuel, rfl⟩ := Nat.exists_eq_succ_of_ne_zero (Nat.ne_zero_of_lt enough)
  rw [List.flatMap_nil, List.append_nil]
  rfl

theorem expands_literal {value : Text} {letter : Char} {offset : Nat}
    (plain : letter ≠ '$')
    (later : Expands value values (offset + letter.utf8Size) rest tokens) :
    Expands value values offset (letter :: rest) (.literal letter :: tokens) := by
  intro fuel expanded enough
  obtain ⟨fuel, rfl⟩ := Nat.exists_eq_succ_of_ne_zero (Nat.ne_zero_of_lt enough)
  rw [charIndices]
  unfold expandLoop
  rw [if_pos plain,
    later fuel _ (Nat.lt_of_succ_lt_succ enough), List.flatMap_cons,
    Token.replacement, List.append_assoc]

theorem expands_dollar {value : Text} {offset : Nat}
    (alone : ∀ next, rest.head? = some next → next ≠ '{' ∧ ¬ startsName next)
    (later : Expands value values (offset + 1) rest tokens) :
    Expands value values offset ('$' :: rest) (.literal '$' :: tokens) := by
  intro fuel expanded enough
  obtain ⟨fuel, rfl⟩ := Nat.exists_eq_succ_of_ne_zero (Nat.ne_zero_of_lt enough)
  have tail := later fuel (expanded ++ ['$']) (Nat.lt_of_succ_lt_succ enough)
  rw [List.flatMap_cons, Token.replacement, ← List.append_assoc, ← tail]
  cases rest with
  | nil => rfl
  | cons next rest =>
      obtain ⟨brace, starts⟩ := alone next rfl
      rw [charIndices, charIndices, expandLoop, if_neg (not_not.mpr rfl)]
      dsimp only
      rw [if_neg brace, if_pos starts]
      rfl

theorem expands_unclosed {text : Text} (never : '}' ∉ text) :
    Expands (front ++ '$' :: '{' :: text) values (size front)
      ('$' :: '{' :: text) [.unclosed text] := by
  intro fuel expanded enough
  obtain ⟨fuel, rfl⟩ := Nat.exists_eq_succ_of_ne_zero (Nat.ne_zero_of_lt enough)
  have tail := @strFrom_append Empty front ('$' :: '{' :: text) _ rfl
  have dollar : '$'.utf8Size = 1 := rfl
  rw [charIndices, charIndices, expandLoop, if_neg (not_not.mpr rfl)]
  dsimp only
  rw [if_pos rfl, dollar, subOrPanic_of (Nat.le_add_left _ _), Run.ok_bind,
    Nat.add_sub_cancel, closingBrace_none never]
  dsimp only
  rw [tail, Run.ok_bind, List.flatMap_singleton]
  rfl

theorem expands_braced {text : Text} (first : '}' ∉ text)
    (later : Expands (front ++ '$' :: '{' :: (text ++ '}' :: rest)) values
      (size (front ++ '$' :: '{' :: (text ++ ['}']))) rest tokens) :
    Expands (front ++ '$' :: '{' :: (text ++ '}' :: rest)) values (size front)
      ('$' :: '{' :: (text ++ '}' :: rest)) (.braced text :: tokens) := by
  intro fuel expanded enough
  obtain ⟨fuel, rfl⟩ := Nat.exists_eq_succ_of_ne_zero (Nat.ne_zero_of_lt enough)
  have dollar : '$'.utf8Size = 1 := rfl
  have brace : '{'.utf8Size = 1 := rfl
  have closing : '}'.utf8Size = 1 := rfl
  have name : (strSlice (front ++ '$' :: '{' :: (text ++ '}' :: rest))
      (size front + 1 + 1) (size front + 1 + 1 + size text) : Run Empty Text) =
        .ok text := by
    have regroup : front ++ '$' :: '{' :: (text ++ '}' :: rest) =
        (front ++ ['$', '{']) ++ (text ++ '}' :: rest) := by simp
    rw [regroup]
    refine strSlice_append ?_ rfl
    rw [size_append, size_cons, size_cons, size_nil, dollar, brace]
  have token : pushGrubVariable expanded
      (front ++ '$' :: '{' :: (text ++ '}' :: rest)) (size front)
        (size front + 1 + 1 + size text + 1) text values =
          .ok (expanded ++ substitute values text
            ('$' :: '{' :: (text ++ ['}']))) := by
    have regroup : front ++ '$' :: '{' :: (text ++ '}' :: rest) =
        front ++ ('$' :: '{' :: (text ++ ['}']) ++ rest) := by simp
    rw [regroup]
    refine pushGrubVariable_eq rfl ?_
    simp only [size_cons, size_append, size_nil, dollar, brace, closing]
    omega
  have next : size (front ++ '$' :: '{' :: (text ++ ['}'])) =
      size front + 1 + 1 + size text + 1 := by
    simp only [size_append, size_cons, size_nil, dollar, brace, closing]
    omega
  have shorter : rest.length < fuel := by
    simp only [List.length_cons, List.length_append] at enough
    omega
  rw [next] at later
  rw [charIndices, charIndices, expandLoop, if_neg (not_not.mpr rfl)]
  dsimp only
  rw [if_pos rfl, dollar, brace, subOrPanic_of (Nat.le_add_left _ _),
    Run.ok_bind, Nat.add_sub_cancel, closingBrace_some first]
  dsimp only
  rw [name, Run.ok_bind, token, Run.ok_bind, later fuel _ shorter,
    List.flatMap_cons, Token.replacement, List.append_assoc]

theorem expands_named {first : Char} {name : Text} (starts : startsName first)
    (continues : ∀ letter ∈ name, continuesName letter)
    (longest : ∀ next, rest.head? = some next → ¬ continuesName next)
    (later : Expands (front ++ '$' :: first :: (name ++ rest)) values
      (size (front ++ '$' :: first :: name)) rest tokens) :
    Expands (front ++ '$' :: first :: (name ++ rest)) values (size front)
      ('$' :: first :: (name ++ rest)) (.named (first :: name) :: tokens) := by
  intro fuel expanded enough
  obtain ⟨fuel, rfl⟩ := Nat.exists_eq_succ_of_ne_zero (Nat.ne_zero_of_lt enough)
  have dollar : '$'.utf8Size = 1 := rfl
  have notBrace : first ≠ '{' := by
    rintro rfl
    exact absurd starts (by decide)
  have named : (strSlice (front ++ '$' :: first :: (name ++ rest))
      (size front + 1) (size front + 1 + first.utf8Size + size name) :
        Run Empty Text) = .ok (first :: name) := by
    have regroup : front ++ '$' :: first :: (name ++ rest) =
        (front ++ ['$']) ++ (first :: name ++ rest) := by simp
    rw [regroup]
    refine strSlice_append ?_ ?_
    · rw [size_append, size_cons, size_nil, dollar]
    · rw [size_cons, Nat.add_assoc]
  have token : pushGrubVariable expanded
      (front ++ '$' :: first :: (name ++ rest)) (size front)
        (size front + 1 + first.utf8Size + size name) (first :: name) values =
          .ok (expanded ++ substitute values (first :: name)
            ('$' :: first :: name)) := by
    have regroup : front ++ '$' :: first :: (name ++ rest) =
        front ++ ('$' :: first :: name ++ rest) := by simp
    rw [regroup]
    refine pushGrubVariable_eq rfl ?_
    simp only [size_cons, dollar]
    omega
  have next : size (front ++ '$' :: first :: name) =
      size front + 1 + first.utf8Size + size name := by
    simp only [size_append, size_cons, dollar]
    omega
  have shorter : rest.length < fuel := by
    simp only [List.length_cons, List.length_append] at enough
    omega
  rw [next] at later
  rw [charIndices, charIndices, expandLoop, if_neg (not_not.mpr rfl)]
  dsimp only
  rw [if_neg notBrace, if_neg (not_not.mpr starts), dollar,
    nameEnd_eq continues longest]
  dsimp only
  rw [named, Run.ok_bind, subOrPanic_of (Nat.le_add_left _ _), Run.ok_bind,
    Nat.add_sub_cancel, token, Run.ok_bind, later fuel _ shorter,
    List.flatMap_cons, Token.replacement, List.append_assoc]

end

/-- A longest run determines itself and the rest. -/
theorem longest_inj {continues : Char → Bool} {left right before after : Text}
    (leftRun : ∀ letter ∈ left, continues letter)
    (leftEnds : ∀ next, before.head? = some next → ¬ continues next)
    (rightRun : ∀ letter ∈ right, continues letter)
    (rightEnds : ∀ next, after.head? = some next → ¬ continues next)
    (same : left ++ before = right ++ after) :
    left = right ∧ before = after := by
  have run : ∀ {run rest : Text}, (∀ letter ∈ run, continues letter) →
      (∀ next, rest.head? = some next → ¬ continues next) →
        (run ++ rest).takeWhile continues = run := by
    intro run rest all ends
    rw [List.takeWhile_append_of_pos all]
    cases rest with
    | nil => simp
    | cons next rest =>
        rw [List.takeWhile_cons_of_neg (ends next rfl), List.append_nil]
  have equal : left = right := by
    rw [← run leftRun leftEnds, same, run rightRun rightEnds]
  subst equal
  exact ⟨rfl, List.append_cancel_left same⟩

theorem closing_inj {left right before after : Text} (leftFirst : '}' ∉ left)
    (rightFirst : '}' ∉ right)
    (same : left ++ '}' :: before = right ++ '}' :: after) :
    left = right ∧ before = after := by
  have other : ∀ {text : Text}, '}' ∉ text →
      ∀ letter ∈ text, (letter != '}') = true := by
    intro text never letter member
    exact bne_iff_ne.mpr fun closing => never (closing ▸ member)
  have closes : ∀ {rest : Text} (next : Char),
      ('}' :: rest).head? = some next → ¬ (next != '}') = true := by
    rintro rest next same
    obtain rfl := Option.some.inj same
    decide
  obtain ⟨equal, rest⟩ := longest_inj (other leftFirst) closes
    (other rightFirst) closes same
  exact ⟨equal, (List.cons.inj rest).2⟩

namespace Tokenises

/-- Every string has tokens. -/
theorem exists_tokens (text : Text) : ∃ tokens, Tokenises text tokens := by
  induction measure : text.length using Nat.strong_induction_on
    generalizing text with
  | _ length induction =>
      have shorter : ∀ rest : Text, rest.length < text.length →
          ∃ tokens, Tokenises rest tokens := fun rest less =>
        induction _ (measure ▸ less) rest rfl
      cases text with
      | nil => exact ⟨[], done⟩
      | cons letter rest =>
          by_cases plain : letter ≠ '$'
          · obtain ⟨tokens, later⟩ := shorter rest (Nat.lt_succ_self _)
            exact ⟨_, literal plain later⟩
          · obtain rfl := not_not.mp plain
            by_cases alone : ∀ next, rest.head? = some next →
                next ≠ '{' ∧ ¬ startsName next
            · obtain ⟨tokens, later⟩ := shorter rest (Nat.lt_succ_self _)
              exact ⟨_, dollar alone later⟩
            · cases rest with
              | nil => exact absurd (fun _ found => by cases found) alone
              | cons next rest =>
                  have less : rest.length < ('$' :: next :: rest).length := by
                    simp only [List.length_cons]
                    omega
                  by_cases brace : next = '{'
                  · subst brace
                    by_cases closes : '}' ∈ rest
                    · obtain ⟨inner, after, rfl, first⟩ :=
                        List.eq_append_cons_of_mem closes
                      obtain ⟨tokens, later⟩ := shorter after (by
                        simp only [List.length_cons, List.length_append]
                        omega)
                      exact ⟨_, braced first later⟩
                    · exact ⟨_, unclosed closes⟩
                  · have starts : startsName next := by
                      by_contra other
                      refine alone fun same found => ?_
                      obtain rfl := Option.some.inj found
                      exact ⟨brace, other⟩
                    have parts := @List.takeWhile_append_dropWhile Char
                      continuesName rest
                    have smaller := List.length_dropWhile_le continuesName rest
                    obtain ⟨tokens, later⟩ := shorter
                      (rest.dropWhile continuesName) (by omega)
                    have whole := @named next (rest.takeWhile continuesName) _ _
                      starts (fun letter member =>
                        List.mem_takeWhile_imp member) ?_ later
                    · rw [parts] at whole
                      exact ⟨_, whole⟩
                    · intro stop found continues
                      have ends := List.head?_dropWhile_not continuesName rest
                      rw [found] at ends
                      exact absurd continues (by simpa using ends)

/-- They are determined. -/
theorem unique {text : Text} {left right : List Token}
    (first : Tokenises text left) (second : Tokenises text right) :
    left = right := by
  have notName : ¬ startsName '{' := by decide
  induction first generalizing right with
  | done =>
      cases second
      rfl
  | literal plain later induction =>
      cases second with
      | literal _ rest => rw [induction rest]
      | dollar _ _ => exact absurd rfl plain
      | named _ _ _ _ => exact absurd rfl plain
      | braced _ _ => exact absurd rfl plain
      | unclosed _ => exact absurd rfl plain
  | dollar alone later induction =>
      cases second with
      | literal plain _ => exact absurd rfl plain
      | dollar _ rest => rw [induction rest]
      | named starts _ _ _ => exact absurd starts (alone _ rfl).2
      | braced _ _ => exact absurd rfl (alone _ rfl).1
      | unclosed _ => exact absurd rfl (alone _ rfl).1
  | @named first name rest _ starts continues longest later induction =>
      generalize tail : name ++ rest = after at second
      cases second with
      | literal plain _ => exact absurd rfl plain
      | dollar alone _ => exact absurd starts (alone _ rfl).2
      | named _ others ends last =>
          obtain ⟨rfl, rfl⟩ := longest_inj continues longest others ends tail
          rw [induction last]
      | braced _ _ => exact absurd starts notName
      | unclosed _ => exact absurd starts notName
  | @braced text rest _ first later induction =>
      generalize tail : text ++ '}' :: rest = after at second
      cases second with
      | literal plain _ => exact absurd rfl plain
      | dollar alone _ => exact absurd rfl (alone _ rfl).1
      | named starts _ _ _ => exact absurd starts notName
      | braced other last =>
          obtain ⟨rfl, rfl⟩ := closing_inj first other tail
          rw [induction last]
      | unclosed never => exact absurd (tail ▸ by simp) never
  | unclosed never =>
      cases second with
      | literal plain _ => exact absurd rfl plain
      | dollar alone _ => exact absurd rfl (alone _ rfl).1
      | named starts _ _ _ => exact absurd starts notName
      | braced _ _ => exact absurd (by simp) never
      | unclosed _ => rfl

end Tokenises

/-- The loop follows the tokens, whatever stands before them. -/
theorem Tokenises.expands {rest : Text} {tokens : List Token}
    (tokenises : Tokenises rest tokens) (values : Variables) (front : Text) :
    Expands (front ++ rest) values (size front) rest tokens := by
  induction tokenises generalizing front with
  | done =>
      rw [List.append_nil]
      exact expands_done
  | @literal letter rest _ plain later induction =>
      have next := induction (front ++ [letter])
      rw [size_append, size_cons, size_nil, Nat.add_zero,
        ← List.append_cons] at next
      exact expands_literal plain next
  | @dollar rest _ alone later induction =>
      have next := induction (front ++ ['$'])
      rw [size_append, size_cons, size_nil, Nat.add_zero,
        ← List.append_cons] at next
      exact expands_dollar alone next
  | @named first name rest _ starts continues longest later induction =>
      have next := induction (front ++ '$' :: first :: name)
      have regroup : (front ++ '$' :: first :: name) ++ rest =
          front ++ '$' :: first :: (name ++ rest) := by simp
      rw [regroup] at next
      exact expands_named starts continues longest next
  | @braced text rest _ first later induction =>
      have next := induction (front ++ '$' :: '{' :: (text ++ ['}']))
      have regroup : (front ++ '$' :: '{' :: (text ++ ['}'])) ++ rest =
          front ++ '$' :: '{' :: (text ++ '}' :: rest) := by simp
      rw [regroup] at next
      exact expands_braced first next
  | unclosed never => exact expands_unclosed never

/-- A string has its tokens, and the expansion returns what replaces them. -/
theorem expandGrubVars_eq (value : Text) (values : Variables) :
    ∃ tokens, Tokenises value tokens ∧
      (∀ others, Tokenises value others → others = tokens) ∧
      expandGrubVars value values =
        .ok (tokens.flatMap (Token.replacement values)) := by
  obtain ⟨tokens, tokenises⟩ := Tokenises.exists_tokens value
  refine ⟨tokens, tokenises, fun others same => same.unique tokenises, ?_⟩
  exact tokenises.expands values [] (value.length + 1) []
    (Nat.lt_succ_self _)

example : expandGrubVars "$kernelopts $tuned_params $unknown é$\x7bkernelopts".toList
    (fun name => if name = "kernelopts".toList then some "ro $x".toList
      else none) = .ok "ro $x  $unknown é$\x7bkernelopts".toList := by
  decide +kernel

end Pocketboot.BootMenu
