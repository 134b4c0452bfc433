import Mathlib
import ScriptCpp.Token

set_option autoImplicit false

namespace ScriptCpp

def Symbol.closer? : Symbol → Option Symbol
  | .openParen => some .closeParen
  | .openBrace => some .closeBrace
  | .openBracket => some .closeBracket
  | _ => none

def Symbol.closes : Symbol → Bool
  | .closeParen | .closeBrace | .closeBracket => true
  | _ => false

namespace Token

/-- What is due behind a token of this kind, if it may stand there at all. -/
def Kind.turn (due : List Symbol) : Kind → Option (List Symbol)
  | .symbol sign =>
      match sign.closer? with
      | some closer => some (closer :: due)
      | none =>
          if sign.closes then if due.head? = some sign then some due.tail else none
          else some due
  | _ => some due

def brackets (due : List Symbol) (ts : List Token) : Option (List Symbol) :=
  ts.foldlM (fun due t => t.kind.turn due) due

def Balanced (ts : List Token) : Prop := brackets [] ts = some []

instance (ts : List Token) : Decidable (Balanced ts) :=
  inferInstanceAs (Decidable (brackets [] ts = some []))

variable {due later outer : List Symbol} {t u : Token} {ts us xs ys : List Token} {sign : Symbol}

theorem brackets_cons : brackets due (t :: ts) = (t.kind.turn due).bind (brackets · ts) :=
  List.foldlM_cons

theorem brackets_append :
    brackets due (ts ++ us) = (brackets due ts).bind (brackets · us) :=
  List.foldlM_append

theorem Kind.turn_frame {kind : Kind} (turned : kind.turn due = some later) (outer : List Symbol) :
    kind.turn (due ++ outer) = some (later ++ outer) := by
  cases kind with
  | symbol sign =>
    cases opened : sign.closer? with
    | some closer =>
      simp only [turn, opened, Option.some.injEq] at turned ⊢
      rw [← turned, List.cons_append]
    | none =>
      cases closing : sign.closes with
      | false => simpa [turn, opened, closing] using turned
      | true =>
        cases due with
        | nil => simp [turn, opened, closing] at turned
        | cons first due =>
          by_cases same : first = sign
          · simp only [turn, opened, closing, if_true, List.cons_append, List.head?_cons,
              List.tail_cons, same, Option.some.injEq] at turned ⊢
            rw [turned]
          · simp [turn, opened, closing, same] at turned
  | _ => simpa [turn] using turned

theorem brackets_frame (closed : brackets due ts = some later) (outer : List Symbol) :
    brackets (due ++ outer) ts = some (later ++ outer) := by
  induction ts generalizing due with
  | nil => simpa [brackets] using closed
  | cons t ts ih =>
    rw [brackets_cons] at closed ⊢
    obtain ⟨middle, turned, rest⟩ := Option.bind_eq_some_iff.mp closed
    rw [Kind.turn_frame turned]
    exact ih rest

theorem Balanced.keeps (h : Balanced ts) (due : List Symbol) : brackets due ts = some due :=
  brackets_frame h due

theorem Balanced.append (first : Balanced ts) (second : Balanced us) : Balanced (ts ++ us) := by
  rw [Balanced, brackets_append, first.keeps]
  exact second

theorem Kind.turn_nil (closing : sign.closes = true) : (Kind.symbol sign).turn [] = none := by
  cases sign <;> first | rfl | cases closing

theorem Balanced.not_append_closer (closing : sign.closes = true) (isSign : t.kind = .symbol sign) :
    Balanced ts → ¬ Balanced (ts ++ t :: us) := by
  intro before whole
  rw [Balanced, brackets_append, before.keeps, Option.bind_some, brackets_cons, isSign,
    Kind.turn_nil closing] at whole
  cases whole

theorem Balanced.unique (left : Balanced ts) (right : Balanced us) (closing : sign.closes = true)
    (first : t.kind = .symbol sign) (second : u.kind = .symbol sign)
    (same : ts ++ t :: xs = us ++ u :: ys) : ts = us ∧ xs = ys := by
  rcases List.append_eq_append_iff.mp same with ⟨more, rfl, shape⟩ | ⟨more, rfl, shape⟩
  · cases more with
    | nil => exact ⟨by simp, (List.cons.inj shape).2⟩
    | cons v more =>
      obtain ⟨rfl, -⟩ := List.cons.inj shape
      exact absurd right (left.not_append_closer closing first)
  · cases more with
    | nil => exact ⟨by simp, (List.cons.inj shape).2.symm⟩
    | cons v more =>
      obtain ⟨rfl, -⟩ := List.cons.inj shape
      exact absurd left (right.not_append_closer closing second)

end Token

end ScriptCpp
