import Mathlib
import ScriptCpp.Proofs.Parsing.Content
import ScriptCpp.Proofs.Parsing.Following

set_option autoImplicit false

namespace ScriptCpp

namespace Token

-- Places do not matter to the parser, so these stand at the start.
def ofSign (sign : Symbol) : Token := ⟨.symbol sign, String.ofList sign.spelling, .start⟩

def ifWord : Token := ⟨.keyword .if_, "if", .start⟩

def elseWord : Token := ⟨.keyword .else_, "else", .start⟩

end Token

namespace Parser

structure Bracketed where
  tokens : List Token
  balanced : Token.Balanced tokens

namespace Bracketed

def within (opener closer : Symbol) (b : Bracketed) : List Token :=
  .ofSign opener :: (b.tokens ++ [.ofSign closer])

theorem balanced_within {opener closer : Symbol} (b : Bracketed)
    (closes : opener.closer? = some closer) :
    Token.Balanced (b.within opener closer) := by
  have opened : (Token.Kind.symbol opener).turn [] = some [closer] := by simp [Token.Kind.turn, closes]
  have closed : (Token.Kind.symbol closer).turn [closer] = some [] := by
    cases opener <;> cases closes <;> rfl
  rw [Token.Balanced, within, Token.brackets_cons, Token.ofSign, opened, Option.bind_some,
    Token.brackets_append, b.balanced.keeps, Option.bind_some, Token.brackets_cons, Token.ofSign, closed]
  rfl

def inParens : Bracketed → List Token := within .openParen .closeParen

def inBraces : Bracketed → List Token := within .openBrace .closeBrace

end Bracketed

structure Arm where
  test : Bracketed
  body : Bracketed

def Arm.tokens (a : Arm) : List Token := a.test.inParens ++ a.body.inBraces

theorem Arm.balanced (a : Arm) : Token.Balanced a.tokens := by
  apply Token.Balanced.append
  · exact a.test.balanced_within rfl
  · exact a.body.balanced_within rfl

/-- A branch with its `else if` parts and with the `else` part that ends them. -/
structure IfChain where
  first : Arm
  others : List Arm
  final : Option Bracketed

namespace IfChain

def elseTokens : List Arm → Option Bracketed → List Token
  | arm :: others, final => .elseWord :: .ifWord :: (arm.tokens ++ elseTokens others final)
  | [], some block => .elseWord :: block.inBraces
  | [], none => []

def behindIf (c : IfChain) : List Token := c.first.tokens ++ elseTokens c.others c.final

def tokens (c : IfChain) : List Token := .ifWord :: c.behindIf

theorem balanced_elseTokens (others : List Arm) (final : Option Bracketed) :
    Token.Balanced (elseTokens others final) := by
  induction others with
  | nil =>
    cases final with
    | none => rfl
    | some block =>
      have closed : Token.Balanced block.inBraces := block.balanced_within rfl
      exact closed
  | cons arm others ih => exact arm.balanced.append ih

def block (c : IfChain) : Bracketed where
  tokens := c.tokens
  balanced := c.first.balanced.append (balanced_elseTokens c.others c.final)

def arms (c : IfChain) : List Arm := c.first :: c.others

end IfChain

variable {α β : Type} {stop : Token} {m n : Nat}

def grouped (opener closer : Symbol) (before behind : Complaint) (p : Parser α) : Parser α :=
  expectSymbol opener before >>= fun _ => p >>= fun a => expectSymbol closer behind >>= fun _ => pure a

theorem condition_eq (inner : Nested) (construct : Construct) : condition inner construct =
    grouped .openParen .closeParen (.conditionOpen construct) (.conditionClose construct)
      inner.assignment := rfl

theorem blockOf_eq (inner : Nested) (place : BlockPlace) : blockOf inner place =
    grouped .openBrace .closeBrace (.blockOpen place) (.blockClose place)
      (many (fun t => t.kind = .symbol .closeBrace) inner.statement inner.strict) := rfl

theorem bind_bind {γ : Type} {p : Parser α} {f : α → Parser β} {g : β → Parser γ} :
    p >>= f >>= g = p >>= fun a => f a >>= g := by
  apply eq_of_run
  intro stop ts
  rw [run_bind, run_bind, run_bind]
  cases p.run stop ts with
  | error e => rfl
  | ok read => rfl

theorem run_bind_ok_iff {p : Parser α} {f : α → Parser β} {ts rest : List Token} {b : β} :
    (p >>= f).run stop ts = .ok (b, rest) ↔
      ∃ a middle, p.run stop ts = .ok (a, middle) ∧ (f a).run stop middle = .ok (b, rest) := by
  rw [run_bind]
  rcases p.run stop ts with e | ⟨a, middle⟩
  · simp
  · simp

theorem run_bind_of_ok {p : Parser α} {f : α → Parser β} {ts rest : List Token} {a : α}
    (read : p.run stop ts = .ok (a, rest)) : (p >>= f).run stop ts = (f a).run stop rest := by
  rw [run_bind, read]

theorem run_sign {sign : Symbol} {complaint : Complaint} {p : Parser α} {t : Token} {ts : List Token}
    (isSign : t.kind = .symbol sign) :
    (expectSymbol sign complaint >>= fun _ => p).run stop (t :: ts) = p.run stop ts := by
  rw [Tandem.expectSymbol_bind, run_bind]
  simp [expect, onToken, isSign, Parser.pure]

theorem run_sign_ok {sign : Symbol} {complaint : Complaint} {p : Parser α} {ts rest : List Token} {a : α}
    (read : (expectSymbol sign complaint >>= fun _ => p).run stop ts = .ok (a, rest)) :
    ∃ t us, ts = t :: us ∧ t.kind = .symbol sign ∧ p.run stop us = .ok (a, rest) := by
  cases ts with
  | nil => cases read
  | cons t us =>
    by_cases isSign : t.kind = .symbol sign
    · rw [run_sign isSign] at read
      exact ⟨t, us, rfl, isSign, read⟩
    · rw [Tandem.expectSymbol_bind, run_bind] at read
      simp [expect, onToken, isSign, fail] at read

/-- A parser whose successes take balanced brackets and depend on nothing behind the next token. -/
structure Contained (stop : Token) (p : Parser α) : Prop where
  loc : p.Local
  balanced : ∀ {ts rest : List Token} {a : α}, Spelled stop ts → p.run stop ts = .ok (a, rest) →
    ∃ used, ts = used ++ rest ∧ Token.Balanced used

-- The closing bracket is found in one place only, and behind it nothing matters.
theorem Contained.grouped {p : Parser α} (contained : Contained stop p) {opener closer : Symbol}
    (closing : closer.closes = true) {before behind : Complaint} {b : Bracketed}
    {rest left : List Token} {a : α} (spelled : Spelled stop (b.within opener closer ++ rest))
    (read : (grouped opener closer before behind p).run stop (b.within opener closer ++ rest) =
      .ok (a, left)) :
    left = rest ∧ ∀ (before behind : Complaint) (rest : List Token),
      (grouped opener closer before behind p).run stop (b.within opener closer ++ rest) =
        .ok (a, rest) := by
  have shape : ∀ rest, b.within opener closer ++ rest =
      .ofSign opener :: (b.tokens ++ .ofSign closer :: rest) := by simp [Bracketed.within]
  simp only [shape] at spelled read ⊢
  unfold Parser.grouped at read
  rw [run_sign rfl] at read
  obtain ⟨value, middle, inner, closed⟩ := run_bind_ok_iff.mp read
  obtain ⟨t, us, rfl, isCloser, last⟩ := run_sign_ok closed
  cases last
  obtain ⟨used, split, balanced⟩ := contained.balanced spelled.tail inner
  obtain ⟨same, rfl⟩ := balanced.unique b.balanced closing isCloser rfl split.symm
  subst same
  obtain ⟨rfl, -⟩ := List.cons.inj (List.append_cancel_left split)
  refine ⟨rfl, fun before behind rest => ?_⟩
  unfold Parser.grouped
  rw [run_sign rfl, run_bind_of_ok (contained.loc.ok b.tokens inner (.token ..))]
  exact run_sign rfl

theorem contained_assignment (stop : Token) (n : Nat) : Contained stop (nested n).assignment where
  loc := (hereditary_local.nested n).assignment
  balanced := by
    intro ts rest e spelled read
    obtain ⟨-, -, used, -, -, -, split, closes⟩ :=
      (inside_same stop (Nat.le_refl n)).assignment ⟨rfl, spelled⟩ read
    exact ⟨used, split, closes⟩

def statements (n : Nat) : Parser (List Stmt) :=
  many (fun t => t.kind = .symbol .closeBrace) (nested n).statement (nested n).strict

theorem contained_statements (stop : Token) (n : Nat) : Contained stop (statements n) where
  loc := (hereditary_local.nested n).many @Nested.strict (hereditary_local.nested n).statement
  balanced := by
    intro ts rest body spelled read
    have whole : (Track.same stop).Follows [] (List.Forall₂ Eq) (statements n) (statements n) :=
      .many (fun like => by rw [like.kind]) (inside_same stop (Nat.le_refl n)).statement
    obtain ⟨-, -, used, -, -, -, split, closes⟩ := whole ⟨rfl, spelled⟩ read
    exact ⟨used, split, closes⟩

namespace Bracketed

variable {b : Bracketed} {e : Expr} {body : List Stmt} {rest left : List Token}

def Tests (stop : Token) (n : Nat) (b : Bracketed) (e : Expr) : Prop :=
  ∀ (construct : Construct) (rest : List Token),
    (condition (nested n) construct).run stop (b.inParens ++ rest) = .ok (e, rest)

def Holds (stop : Token) (n : Nat) (b : Bracketed) (body : List Stmt) : Prop :=
  ∀ (place : BlockPlace) (rest : List Token),
    (blockOf (nested n) place).run stop (b.inBraces ++ rest) = .ok (body, rest)

theorem tests_of_run {construct : Construct} (spelled : Spelled stop (b.inParens ++ rest))
    (read : (condition (nested n) construct).run stop (b.inParens ++ rest) = .ok (e, left)) :
    left = rest ∧ b.Tests stop n e := by
  rw [condition_eq] at read
  obtain ⟨ends, again⟩ := (contained_assignment stop n).grouped rfl spelled read
  exact ⟨ends, fun construct rest => again _ _ rest⟩

theorem holds_of_run {place : BlockPlace} (spelled : Spelled stop (b.inBraces ++ rest))
    (read : (blockOf (nested n) place).run stop (b.inBraces ++ rest) = .ok (body, left)) :
    left = rest ∧ b.Holds stop n body := by
  rw [blockOf_eq] at read
  obtain ⟨ends, again⟩ := (contained_statements stop n).grouped rfl spelled read
  exact ⟨ends, fun place rest => again _ _ rest⟩

end Bracketed

structure Arm.ReadAs (stop : Token) (n : Nat) (a : Arm) (part : Expr × List Stmt) : Prop where
  test : a.test.Tests stop n part.1
  body : a.body.Holds stop n part.2

section Arm

variable {a : Arm} {part : Expr × List Stmt} {more left : List Token} {r : β}

def armThen (inner : Nested) (next : Expr × List Stmt → Parser β) : Parser β :=
  condition inner .ifWord >>= fun test => blockOf inner .ifBlock >>= fun body => next (test, body)

theorem run_armThen_iff {next : Expr × List Stmt → Parser β} (spelled : Spelled stop (a.tokens ++ more)) :
    (armThen (nested n) next).run stop (a.tokens ++ more) = .ok (r, left) ↔
      ∃ part, a.ReadAs stop n part ∧ (next part).run stop more = .ok (r, left) := by
  have shape : a.tokens ++ more = a.test.inParens ++ (a.body.inBraces ++ more) := by
    rw [Arm.tokens, List.append_assoc]
  rw [shape] at spelled ⊢
  constructor
  · intro read
    obtain ⟨test, behind, first, later⟩ := run_bind_ok_iff.mp read
    obtain ⟨rfl, tests⟩ := Bracketed.tests_of_run spelled first
    obtain ⟨body, rest, second, last⟩ := run_bind_ok_iff.mp later
    obtain ⟨rfl, holds⟩ := Bracketed.holds_of_run spelled.of_append second
    exact ⟨(test, body), ⟨tests, holds⟩, last⟩
  · rintro ⟨part, reads, read⟩
    rw [armThen, run_bind_of_ok (reads.test _ _), run_bind_of_ok (reads.body _ _)]
    exact read

end Arm

section Loop

variable {inner : Nested} {done : List (Expr × List Stmt)} {ts back : List Token}

def elseStep (inner : Nested) (done : List (Expr × List Stmt)) : Bool → Parser Arms
  | true => armThen inner fun part => iterate (nextArm inner) ⟨part :: done, none⟩
  | false => blockOf inner .elseBlock >>= fun body => iterate (nextArm inner) ⟨done, some body⟩

theorem run_elseWord : (iterate (nextArm inner) ⟨done, none⟩).run stop (.elseWord :: ts) =
    (acceptWord .if_ >>= elseStep inner done).run stop ts := by
  have known : nextArm inner ⟨done, none⟩ .elseWord = some (acceptWord .if_ >>= fun isIf =>
      if isIf then condition inner .ifWord >>= fun test => blockOf inner .ifBlock >>= fun body =>
        Pure.pure ⟨(test, body) :: done, none⟩
      else blockOf inner .elseBlock >>= fun body => Pure.pure ⟨done, some body⟩) := rfl
  rw [run_iterate_goes known, bind_bind]
  congr
  funext isIf
  cases isIf with
  | true =>
    simp only [if_true, bind_bind]
    rfl
  | false =>
    simp only [Bool.false_eq_true, if_false, bind_bind]
    rfl

theorem run_elseIf : (iterate (nextArm inner) ⟨done, none⟩).run stop (.elseWord :: .ifWord :: ts) =
    (armThen inner fun part => iterate (nextArm inner) ⟨part :: done, none⟩).run stop ts := by
  rw [run_elseWord, run_bind, acceptWord, run_accept]
  rfl

theorem run_else {block : Bracketed} :
    (iterate (nextArm inner) ⟨done, none⟩).run stop (.elseWord :: (block.inBraces ++ ts)) =
      (blockOf inner .elseBlock >>= fun body => iterate (nextArm inner) ⟨done, some body⟩).run stop
        (block.inBraces ++ ts) := by
  have brace : block.inBraces ++ ts =
      .ofSign .openBrace :: (block.tokens ++ [.ofSign .closeBrace] ++ ts) := rfl
  have plain : (Token.ofSign .openBrace).kind ≠ .keyword .if_ := by simp [Token.ofSign]
  rw [run_elseWord, brace, run_bind, acceptWord, run_accept, if_neg plain]
  rfl

def Ended (back : List Token) : Prop := ∀ t, back.head? = some t → t.kind ≠ .keyword .else_

theorem run_ended (ended : Ended back) :
    (iterate (nextArm inner) ⟨done, none⟩).run stop back = .ok (⟨done, none⟩, back) := by
  cases back with
  | nil => exact run_iterate_nil
  | cons t back =>
    refine run_iterate_stays ?_
    simp [nextArm, ended t rfl]

theorem run_final {body : List Stmt} :
    (iterate (nextArm inner) ⟨done, some body⟩).run stop back = .ok (⟨done, some body⟩, back) := by
  cases back with
  | nil => exact run_iterate_nil
  | cons t back =>
    refine run_iterate_stays ?_
    simp [nextArm]

theorem run_arms_iff {others : List Arm} {final : Option Bracketed} {arms : Arms} {left : List Token}
    (ended : Ended back) (spelled : Spelled stop (IfChain.elseTokens others final ++ back)) :
    (iterate (nextArm (nested n)) ⟨done, none⟩).run stop (IfChain.elseTokens others final ++ back) =
        .ok (arms, left) ↔
      left = back ∧ ∃ parts last, List.Forall₂ (Arm.ReadAs stop n) others parts ∧
        Option.Rel (Bracketed.Holds stop n) final last ∧ arms = ⟨parts.reverse ++ done, last⟩ := by
  -- The arms that are left are fewer each time; those read are in `done`, the last one first.
  induction others generalizing done with
  | nil =>
    cases final with
    | none =>
      have read : (iterate (nextArm (nested n)) ⟨done, none⟩).run stop
          (IfChain.elseTokens [] none ++ back) = .ok (⟨done, none⟩, back) := run_ended ended
      rw [read]
      constructor
      · intro same
        cases same
        exact ⟨rfl, [], none, .nil, .none, rfl⟩
      · rintro ⟨rfl, _, _, ⟨⟩, ⟨⟩, rfl⟩
        rfl
    | some block =>
      rw [IfChain.elseTokens, List.cons_append, run_else]
      constructor
      · intro read
        obtain ⟨body, rest, first, later⟩ := run_bind_ok_iff.mp read
        obtain ⟨rfl, holds⟩ := Bracketed.holds_of_run spelled.tail first
        rw [run_final] at later
        cases later
        exact ⟨rfl, [], some body, .nil, .some holds, rfl⟩
      · rintro ⟨rfl, _, _, ⟨⟩, ⟨holds⟩, rfl⟩
        rw [run_bind_of_ok (holds _ _)]
        exact run_final
  | cons arm others ih =>
    have shape : IfChain.elseTokens (arm :: others) final ++ back =
        .elseWord :: .ifWord :: (arm.tokens ++ (IfChain.elseTokens others final ++ back)) := by
      simp [IfChain.elseTokens]
    rw [shape] at spelled ⊢
    have behind := spelled.tail.tail
    rw [run_elseIf, run_armThen_iff behind]
    constructor
    · rintro ⟨part, reads, read⟩
      obtain ⟨rfl, parts, last, each, ends, rfl⟩ := (ih behind.of_append).mp read
      exact ⟨rfl, part :: parts, last, .cons reads each, ends, by simp⟩
    · rintro ⟨rfl, _, last, each, ends, rfl⟩
      cases each with
      | cons reads each =>
        exact ⟨_, reads, (ih behind.of_append).mpr ⟨rfl, _, last, each, ends, by simp⟩⟩

end Loop

theorem Spelled.before {xs ys : List Token} (h : Spelled stop (xs ++ ys)) : Spelled stop xs :=
  { h with signs := fun t present => h.signs t (List.mem_append_left ys present) }

theorem exists_forall₂_iff {R : α → β → Prop} {as : List α} :
    (∃ bs, List.Forall₂ R as bs) ↔ ∀ a ∈ as, ∃ b, R a b := by
  induction as with
  | nil => simp
  | cons a as ih =>
    rw [List.forall_mem_cons, ← ih]
    constructor
    · rintro ⟨_, _ | ⟨first, rest⟩⟩
      exact ⟨⟨_, first⟩, _, rest⟩
    · rintro ⟨⟨b, first⟩, bs, rest⟩
      exact ⟨b :: bs, .cons first rest⟩

-- Of two levels the higher one is good for all that the lower one is good for.
theorem exists_common {good : α → Nat → Prop} (mono : ∀ a m n, m ≤ n → good a m → good a n) (start : α)
    {needs : List (Nat → Prop)} (each : ∀ need ∈ needs, ∃ a, ∀ n, good a n → need n) :
    ∃ a, ∀ need ∈ needs, ∀ n, good a n → need n := by
  have upper : ∀ a, IsUpperSet { n | good a n } := fun a m n enough h => mono a m n enough h
  induction needs with
  | nil => exact ⟨start, nofun⟩
  | cons need needs ih =>
    obtain ⟨⟨a, first⟩, rest⟩ := List.forall_mem_cons.mp each
    obtain ⟨b, others⟩ := ih rest
    rcases (upper a).total (upper b) with less | less
    · exact ⟨a, List.forall_mem_cons.mpr ⟨first, fun need present n h => others need present n (less h)⟩⟩
    · exact ⟨b, List.forall_mem_cons.mpr ⟨fun n h => first n (less h), others⟩⟩

theorem layer_outline (stop : Token) :
    (Pairing.diagonal stop).Layer (fun e f => f.name? = e.name? ∧ isTarget f = isTarget e)
      (fun e f => f.name? = e.name? ∧ isTarget f = isTarget e) (fun _ _ => True) (fun _ _ => True)
      fun _ _ => True := by
  constructor
  case name => exact And.left
  case target => exact And.right
  case paren => exact id
  all_goals intros; trivial

namespace IfChain

variable {c d : IfChain} {s : Stmt} {back left : List Token}

def elsePart (parts : List (Expr × List Stmt)) (last : Option (List Stmt)) : Option (List Stmt) :=
  parts.foldr (fun part rest => some [.branch part.1 part.2 rest]) last

theorem otherwise_eq (parts : List (Expr × List Stmt)) (last : Option (List Stmt)) :
    Arms.otherwise ⟨parts.reverse ++ [], last⟩ = elsePart parts last := by
  simp [Arms.otherwise, elsePart]

def ReadAs (stop : Token) (n : Nat) (c : IfChain) (s : Stmt) : Prop :=
  ∃ head parts last, c.first.ReadAs stop n head ∧ List.Forall₂ (Arm.ReadAs stop n) c.others parts ∧
    Option.Rel (Bracketed.Holds stop n) c.final last ∧ s = .branch head.1 head.2 (elsePart parts last)

theorem run_branch_iff (ended : Ended back) (spelled : Spelled stop (c.behindIf ++ back)) :
    (branch (nested n)).run stop (c.behindIf ++ back) = .ok (s, left) ↔
      left = back ∧ c.ReadAs stop n s := by
  have shape : branch (nested n) = armThen (nested n) fun part =>
      iterate (nextArm (nested n)) ⟨[], none⟩ >>= fun arms =>
        Pure.pure (.branch part.1 part.2 arms.otherwise) := rfl
  have split : c.behindIf ++ back = c.first.tokens ++ (elseTokens c.others c.final ++ back) :=
    List.append_assoc ..
  rw [split] at spelled ⊢
  rw [shape, run_armThen_iff spelled]
  constructor
  · rintro ⟨head, reads, read⟩
    obtain ⟨arms, middle, loop, whole⟩ := run_bind_ok_iff.mp read
    obtain ⟨rfl, parts, last, each, ends, rfl⟩ := (run_arms_iff ended spelled.of_append).mp loop
    cases whole
    exact ⟨rfl, head, parts, last, reads, each, ends, by rw [otherwise_eq]⟩
  · rintro ⟨rfl, head, parts, last, reads, each, ends, rfl⟩
    refine ⟨head, reads, run_bind_ok_iff.mpr ⟨_, _, (run_arms_iff ended spelled.of_append).mpr
      ⟨rfl, parts, last, each, ends, rfl⟩, ?_⟩⟩
    rw [otherwise_eq]
    rfl

theorem ReadAs.mono (h : c.ReadAs stop m s) (enough : m ≤ n) (spelled : Spelled stop c.behindIf) :
    c.ReadAs stop n s := by
  have ended : Ended [] := nofun
  rw [← List.append_nil c.behindIf] at spelled
  have read := (run_branch_iff ended spelled).mpr ⟨rfl, h⟩
  have more := ((Pairing.diagonal stop).layer_eq fun same => same).branchStmt (inside_same stop enough)
  obtain ⟨_, _, -, read', rfl, -⟩ := more ⟨rfl, spelled⟩ read
  exact ((run_branch_iff ended spelled).mp read').2

theorem block_holds {body : List Stmt} (spelled : Spelled stop c.block.inBraces)
    (holds : c.block.Holds stop n body) :
    ∃ m s, n = m + 1 ∧ body = [s] ∧ c.ReadAs stop m s := by
  have read := holds .elseBlock []
  have shape : c.block.inBraces ++ [] =
      .ofSign .openBrace :: .ifWord :: (c.behindIf ++ [.ofSign .closeBrace]) := by
    simp [Bracketed.inBraces, Bracketed.within, block, tokens]
  rw [shape, blockOf_eq, Parser.grouped, run_sign rfl] at read
  obtain ⟨body', middle, inner, closed⟩ := run_bind_ok_iff.mp read
  obtain ⟨t, us, rfl, isCloser, last⟩ := run_sign_ok closed
  cases last
  obtain ⟨s, rest, first, others⟩ := run_bind_ok_iff.mp ((run_many_goes rfl).symm.trans inner)
  cases n with
  | zero => cases first
  | succ m =>
    have step : (nested (m + 1)).statement.run stop (.ifWord :: (c.behindIf ++ [.ofSign .closeBrace])) =
        (branch (nested m)).run stop (c.behindIf ++ [.ofSign .closeBrace]) := rfl
    rw [step] at first
    have behind : Spelled stop (c.behindIf ++ [.ofSign .closeBrace]) := by
      rw [← List.append_nil c.block.inBraces, shape] at spelled
      exact spelled.tail.tail
    have ended : Ended [.ofSign .closeBrace] := by
      rintro t ⟨⟩
      nofun
    obtain ⟨rfl, reads⟩ := (run_branch_iff ended behind).mp first
    obtain ⟨more, rest, none, whole⟩ := run_bind_ok_iff.mp others
    cases (run_many_stops rfl).symm.trans none
    cases whole
    exact ⟨m, s, rfl, rfl, reads⟩

theorem elseTokens_some (others : List Arm) (last : Bracketed) :
    elseTokens others (some last) = elseTokens others none ++ .elseWord :: last.inBraces := by
  induction others with
  | nil => rfl
  | cons arm others ih => simp [elseTokens, ih]

theorem readAs_unwrapped {first : Arm} {others : List Arm} {rest : IfChain}
    (spelled : Spelled stop (behindIf ⟨first, others, some rest.block⟩))
    (h : ReadAs stop n ⟨first, others, some rest.block⟩ s) :
    ReadAs stop n ⟨first, others ++ rest.arms, rest.final⟩ s := by
  obtain ⟨head, parts, _, reads, each, holds, rfl⟩ := h
  cases holds with
  | some holds =>
    have behind : Spelled stop rest.block.inBraces := by
      rw [behindIf, elseTokens_some] at spelled
      exact spelled.of_append.of_append.tail
    obtain ⟨m, s, rfl, rfl, inner⟩ := block_holds behind holds
    obtain ⟨head', parts', last, reads', each', ends, rfl⟩ :=
      inner.mono (Nat.le_succ m) behind.tail.before.tail
    refine ⟨head, parts ++ head' :: parts', last, reads, ?_, ends, ?_⟩
    · exact List.rel_append each (.cons reads' each')
    · simp [elsePart]

def tests (c : IfChain) : List Bracketed := c.arms.map Arm.test

def blocks (c : IfChain) : List Bracketed := c.arms.map Arm.body ++ c.final.toList

structure Read (stop : Token) (n : Nat) (c : IfChain) : Prop where
  tests : ∀ test ∈ c.tests, ∃ e, test.Tests stop n e
  blocks : ∀ block ∈ c.blocks, ∃ body, block.Holds stop n body

theorem ReadAs.read (h : c.ReadAs stop n s) : c.Read stop n := by
  obtain ⟨first, others, final⟩ := c
  obtain ⟨head, parts, last, reads, each, ends, -⟩ := h
  have arms : ∀ arm ∈ first :: others, ∃ part, arm.ReadAs stop n part :=
    List.forall_mem_cons.mpr ⟨⟨head, reads⟩, exists_forall₂_iff.mp ⟨parts, each⟩⟩
  constructor
  · refine List.forall_mem_map.mpr fun arm present => ?_
    obtain ⟨part, reads⟩ := arms arm present
    exact ⟨part.1, reads.test⟩
  · refine List.forall_mem_append.mpr ⟨List.forall_mem_map.mpr fun arm present => ?_, ?_⟩
    · obtain ⟨part, reads⟩ := arms arm present
      exact ⟨part.2, reads.body⟩
    · intro block present
      cases ends with
      | none => cases present
      | some holds =>
        obtain rfl := List.mem_singleton.mp present
        exact ⟨_, holds⟩

theorem Read.exists_readAs (h : c.Read stop n) : ∃ s, c.ReadAs stop n s := by
  obtain ⟨first, others, final⟩ := c
  obtain ⟨tests, blocks⟩ := h
  obtain ⟨bodies, ends⟩ := List.forall_mem_append.mp blocks
  have arms : ∀ arm ∈ first :: others, ∃ part, arm.ReadAs stop n part := by
    intro arm present
    obtain ⟨e, test⟩ := List.forall_mem_map.mp tests arm present
    obtain ⟨body, holds⟩ := List.forall_mem_map.mp bodies arm present
    exact ⟨(e, body), test, holds⟩
  obtain ⟨⟨head, reads⟩, later⟩ := List.forall_mem_cons.mp arms
  obtain ⟨parts, each⟩ := exists_forall₂_iff.mpr later
  cases final with
  | none => exact ⟨_, head, parts, none, reads, each, .none, rfl⟩
  | some block =>
    obtain ⟨body, holds⟩ := ends block List.mem_cons_self
    exact ⟨_, head, parts, some body, reads, each, .some holds, rfl⟩

theorem Read.mono (h : c.Read stop m) (enough : m ≤ n) (spelled : Spelled stop c.behindIf) :
    c.Read stop n := by
  obtain ⟨s, reads⟩ := h.exists_readAs
  exact (reads.mono enough spelled).read

end IfChain

/-- Where a whole chain can stand in a stream. -/
structure Place where
  front : List Token
  back : List Token
  ready : Track.Ready front
  ended : Ended back

namespace Place

variable {place : Place} {c d : IfChain}

def fill (place : Place) (c : IfChain) : List Token := place.front ++ (c.tokens ++ place.back)

theorem spelled_behindIf (spelled : Spelled stop (place.fill c)) : Spelled stop (c.behindIf ++ place.back) :=
  spelled.of_append.tail

theorem run_fill {E : Expr → Expr → Prop} {S : Stmt → Stmt → Prop}
    {O : Option (List Stmt) → Option (List Stmt) → Prop} (layer : (Pairing.diagonal stop).Layer E E S S O)
    (spelled : Spelled stop (place.fill c)) (spelled' : Spelled stop (place.fill d))
    (filled : ∀ n s, c.ReadAs stop n s → ∃ s', d.ReadAs stop n s' ∧ S s s') {p : Program}
    (read : program.run stop (place.fill c) = .ok (p, [])) :
    ∃ p', program.run stop (place.fill d) = .ok (p', []) ∧ List.Forall₂ S p p' := by
  have behind := spelled_behindIf spelled
  have behind' := spelled_behindIf spelled'
  have replaced : ∀ n s rest, (branch (nested n)).run stop (c.behindIf ++ place.back) = .ok (s, rest) →
      ∃ s', (branch (nested n)).run stop (d.behindIf ++ place.back) = .ok (s', rest) ∧ S s s' := by
    intro n s rest read
    obtain ⟨rfl, reads⟩ := (IfChain.run_branch_iff place.ended behind).mp read
    obtain ⟨s', reads', related⟩ := filled n s reads
    exact ⟨s', (IfChain.run_branch_iff place.ended behind').mpr ⟨rfl, reads'⟩, related⟩
  obtain ⟨p', rest', read', related⟩ := run_replaced rfl layer replaced place.ready spelled read
  obtain rfl := program_rest read'
  exact ⟨p', read', related⟩

structure Accepts (place : Place) (stop : Token) (c : IfChain) : Prop where
  spelled : Spelled stop (place.fill c)
  read : ∃ p, program.run stop (place.fill c) = .ok (p, [])

theorem accepts_of_parts (spelled : Spelled stop (place.fill c))
    (tests : ∀ test ∈ c.tests, ∃ d : IfChain, test ∈ d.tests ∧ place.Accepts stop d)
    (blocks : ∀ block ∈ c.blocks, ∃ d : IfChain, block ∈ d.blocks ∧ place.Accepts stop d) :
    place.Accepts stop c := by
  refine ⟨spelled, ?_⟩
  have mono : ∀ d : { d // place.Accepts stop d }, ∀ m n, m ≤ n → d.1.Read stop m → d.1.Read stop n :=
    fun d m n enough h => h.mono enough (spelled_behindIf d.2.spelled).before
  let needs : List (Nat → Prop) := c.tests.map (fun test n => ∃ e, test.Tests stop n e) ++
    c.blocks.map fun block n => ∃ body, block.Holds stop n body
  have each : ∀ need ∈ needs, ∃ d : { d // place.Accepts stop d }, ∀ n, d.1.Read stop n → need n := by
    refine List.forall_mem_append.mpr ⟨List.forall_mem_map.mpr fun test present => ?_,
      List.forall_mem_map.mpr fun block present => ?_⟩
    · obtain ⟨d, among, accepts⟩ := tests test present
      exact ⟨⟨d, accepts⟩, fun n read => read.tests test among⟩
    · obtain ⟨d, among, accepts⟩ := blocks block present
      exact ⟨⟨d, accepts⟩, fun n read => read.blocks block among⟩
  -- One of the accepted chains asks for as many levels as any part: where it is read, all parts are.
  obtain ⟨start, -, accepts⟩ := tests c.first.test List.mem_cons_self
  obtain ⟨⟨d, spelled', p, read⟩, all⟩ := exists_common mono ⟨start, accepts⟩ each
  obtain ⟨needTests, needBlocks⟩ := List.forall_mem_append.mp all
  have reads : ∀ n s, d.ReadAs stop n s → ∃ s', c.ReadAs stop n s' ∧ True := by
    intro n s h
    have whole : c.Read stop n :=
      ⟨fun test present => List.forall_mem_map.mp needTests test present n h.read,
        fun block present => List.forall_mem_map.mp needBlocks block present n h.read⟩
    obtain ⟨s', reads⟩ := whole.exists_readAs
    exact ⟨s', reads, trivial⟩
  obtain ⟨p', read', -⟩ := run_fill (layer_outline stop) spelled' spelled reads read
  exact ⟨p', read'⟩

/-- Some text with the chain at this place is accepted. -/
def Admits (place : Place) (c : IfChain) : Prop :=
  ∃ text, Token.ReadsAs text (place.fill c) ∧ (Program.ofText text).isOk

theorem Admits.accepts (h : place.Admits c) : place.Accepts (.eof .start) c := by
  obtain ⟨text, reads, accepted⟩ := h
  cases read : Program.ofText text with
  | error e =>
    rw [read] at accepted
    cases accepted
  | ok p => exact ⟨reads.spelled, p, reads.ofText_iff.mp read⟩

end Place

end Parser

namespace Program

open ScriptCpp.Parser (Arm IfChain Place)

/-- An `else if` with the rest of its chain is read as an `else` whose block holds that rest. And a chain
is accepted if each of its conditions and each of its blocks stands in a chain, be it one of two arms,
that is accepted at the same place. -/
theorem ofText_elseIf (place : Place) :
    (∀ (first : Arm) (others : List Arm) (rest : IfChain) (wrapped source : String) (program : Program),
      Token.ReadsAs wrapped (place.fill ⟨first, others, some rest.block⟩) →
      Token.ReadsAs source (place.fill ⟨first, others ++ rest.arms, rest.final⟩) →
      ofText wrapped = .ok program → ofText source = .ok program) ∧
    ∀ (chain : IfChain) (text : String), Token.ReadsAs text (place.fill chain) →
      (∀ test ∈ chain.tests, ∃ other : IfChain, test ∈ other.tests ∧ place.Admits other) →
      (∀ block ∈ chain.blocks, ∃ other : IfChain, block ∈ other.blocks ∧ place.Admits other) →
      ∃ program, ofText text = .ok program := by
  constructor
  · intro first others rest wrapped source program reads reads' accepted
    have behind := (Place.spelled_behindIf reads.spelled).before
    obtain ⟨program', read, same⟩ := Place.run_fill (Parser.Pairing.layer_eq _ fun same => same) reads.spelled
      reads'.spelled (fun n s h => ⟨s, IfChain.readAs_unwrapped behind h, rfl⟩) (reads.ofText_iff.mp accepted)
    rw [Parser.Pairing.eq_of_lists same]
    exact reads'.ofText_iff.mpr read
  · intro chain text reads tests blocks
    have accepts := Place.accepts_of_parts reads.spelled
      (fun test present => (tests test present).imp fun other h => ⟨h.1, h.2.accepts⟩)
      fun block present => (blocks block present).imp fun other h => ⟨h.1, h.2.accepts⟩
    obtain ⟨program, read⟩ := accepts.read
    exact ⟨program, reads.ofText_iff.mpr read⟩

def nameToken (name : String) : Token := ⟨.identifier, name, .start⟩

-- `(test) { name; }`
def plainArm (test name : String) : Arm :=
  ⟨⟨[nameToken test], rfl⟩, ⟨[nameToken name, .ofSign .semicolon], rfl⟩⟩

-- `while (t) { .. }`
def inLoop : Place where
  front := [⟨.keyword .while_, "while", .start⟩, .ofSign .openParen, nameToken "t", .ofSign .closeParen,
    .ofSign .openBrace]
  back := [.ofSign .closeBrace]
  ready := by
    rintro t ⟨⟩
    exact ⟨nofun, nofun⟩
  ended := by
    rintro t ⟨⟩
    nofun

def opening : IfChain := ⟨plainArm "a" "x", [plainArm "b" "y"], none⟩

def ending : IfChain :=
  ⟨plainArm "c" "z", [plainArm "d" "w"], some ⟨[nameToken "v", .ofSign .semicolon], rfl⟩⟩

def shuffled : IfChain :=
  ⟨plainArm "d" "w", [plainArm "a" "x", plainArm "c" "z", plainArm "b" "y", plainArm "a" "x"], ending.final⟩

-- The whole chain, its end in the block of an `else`, and the arms in another order and number.
def chainText : String :=
  "while (t) \x7b if (a) \x7b x; \x7d else if (b) \x7b y; \x7d else if (c) \x7b z; \x7d\n" ++
    "else if (d) \x7b w; \x7d else \x7b v; \x7d \x7d"

def wrappedText : String :=
  "while (t) \x7b if (a) \x7b x; \x7d else if (b) \x7b y; \x7d else \x7b if (c) \x7b z; \x7d\n" ++
    "else if (d) \x7b w; \x7d else \x7b v; \x7d \x7d \x7d"

def shuffledText : String :=
  "while (t) \x7b if (d) \x7b w; \x7d else if (a) \x7b x; \x7d else if (c) \x7b z; \x7d\n" ++
    "else if (b) \x7b y; \x7d else if (a) \x7b x; \x7d else \x7b v; \x7d \x7d"

theorem ofText_elseIf_inLoop :
    (∃ program, ofText wrappedText = .ok program ∧ ofText chainText = .ok program) ∧
      inLoop.Admits opening ∧ inLoop.Admits ending ∧ ∃ program, ofText shuffledText = .ok program := by
  have admits : inLoop.Admits opening :=
    ⟨"while (t) \x7b if (a) \x7b x; \x7d else if (b) \x7b y; \x7d \x7d", by decide +kernel, by decide +kernel⟩
  have admits' : inLoop.Admits ending :=
    ⟨"while (t) \x7b if (c) \x7b z; \x7d else if (d) \x7b w; \x7d else \x7b v; \x7d \x7d",
      by decide +kernel, by decide +kernel⟩
  refine ⟨?_, admits, admits', ?_⟩
  · have accepted : (ofText wrappedText).isOk = true := by decide +kernel
    cases read : ofText wrappedText with
    | error e =>
      rw [read] at accepted
      cases accepted
    | ok program =>
      exact ⟨program, rfl, (ofText_elseIf inLoop).1 (plainArm "a" "x") [plainArm "b" "y"] ending _ _ _
        (by decide +kernel) (by decide +kernel) read⟩
  · refine (ofText_elseIf inLoop).2 shuffled _ (by decide +kernel) ?_ ?_
    · intro test present
      have among : test ∈ opening.tests ∨ test ∈ ending.tests := by
        simp only [shuffled, opening, ending, IfChain.tests, IfChain.arms, List.map_cons, List.map_nil,
          List.mem_cons, List.not_mem_nil] at present ⊢
        tauto
      rcases among with early | late
      · exact ⟨opening, early, admits⟩
      · exact ⟨ending, late, admits'⟩
    · intro block present
      have among : block ∈ opening.blocks ∨ block ∈ ending.blocks := by
        simp only [shuffled, opening, ending, IfChain.blocks, IfChain.arms, List.map_cons, List.map_nil,
          Option.toList_some, Option.toList_none, List.cons_append, List.nil_append, List.mem_cons,
          List.not_mem_nil] at present ⊢
        tauto
      rcases among with early | late
      · exact ⟨opening, early, admits⟩
      · exact ⟨ending, late, admits'⟩

end Program

end ScriptCpp
