import Mathlib
import ScriptCpp.Proofs.Parsing.Tandem

set_option autoImplicit false

namespace ScriptCpp.Parser.Pairing

def parallel (w : Pairing) : Tandem w where
  Rel _ R p q := w.Parallel R p q
  On _ _ R p q := w.Parallel R p q
  Behind t u _ R p q := w.Behind t u R p q
  pure related := .pure related
  fail complaint := .fail complaint
  peek := .peek
  andThen first second := first.bind second
  onToken answers otherwise := .onToken answers otherwise
  iterate answers _ _ start := .iterate answers start
  many same item := .many same item
  sees sign _ _ yes no := .sees sign yes no
  on whole := whole
  skip _ rest := Parallel.skip.bind fun _ => rest
  behind _ _ rest := rest.behind
  dot := by
    intro α β t u R f g isDot values ts us twins
    refine Matches.bind (matches_propertyName twins.behind (twins.named isDot)) ?_
    rintro name _ left left' - rfl rest
    exact .ok (values name) rest
  elseIf := by
    intro α β t u R f g _ yes no
    have either : w.Parallel R (acceptWord .if_ >>= f) (acceptWord .if_ >>= g) := by
      unfold acceptWord accept
      rw [ofKind_bind, ofKind_bind]
      refine .onToken ?_ no
      intro t u like
      rw [like.kind]
      split
      · exact .some yes.behind
      · exact .none
    exact either.behind

variable {w : Pairing} {E : Nat → Expr → Expr → Prop} {S : Nat → Stmt → Stmt → Prop}
  {O : Nat → Option (List Stmt) → Option (List Stmt) → Prop}

theorem inside_nested (layers : ∀ n, w.Layer (E n) (E (n + 1)) (S n) (S (n + 1)) (O n)) (n : Nat) :
    w.parallel.Inside (E n) (S n) (nested n) (nested n) := by
  induction n with
  | zero => exact ⟨.fail _, .fail _, .fail _, .fail _⟩
  | succ n inside =>
    have chain := (layers n).branchStmt inside
    exact (layers n).around inside fun _ => Parallel.behind chain

theorem parallel_program (layers : ∀ n, w.Layer (E n) (E (n + 1)) (S n) (S (n + 1)) (O n)) :
    w.Parallel (List.Forall₂ (S maxNesting)) program program :=
  .many (fun _ => rfl) (inside_nested layers maxNesting).statement

section Equal

variable {α : Type} {R : α → α → Prop}

theorem eq_of_list (each : ∀ {a b}, R a b → a = b) {as bs : List α} (h : List.Forall₂ R as bs) :
    as = bs := by
  induction h with
  | nil => rfl
  | cons first _ ih => rw [each first, ih]

theorem eq_of_option (each : ∀ {a b}, R a b → a = b) {x y : Option α} (h : Option.Rel R x y) :
    x = y := by
  cases h with
  | none => rfl
  | some related => rw [each related]

theorem eq_of_lists {as bs : List α} (h : List.Forall₂ Eq as bs) : as = bs := eq_of_list id h

theorem eq_of_function {decl decl' : FunctionDecl} (h : decl.Rel Eq decl') : decl = decl' := by
  obtain @⟨name, params, body, body', isAsync, each⟩ := h
  rw [eq_of_lists each]

theorem layer_eq (w : Pairing) (strings : ∀ {raw raw'}, w.quoted raw raw' → raw = raw') :
    w.Layer Eq Eq Eq Eq Eq where
  name same := by rw [same]
  target same := by rw [same]
  paren same := same
  ident _ := rfl
  number _ := rfl
  string same := by rw [strings same]
  this := rfl
  assign target value := by rw [target, value]
  binary op := by
    rintro left _ right _ rfl rfl
    rfl
  negate operand := by rw [operand]
  conditional test first second := by rw [test, first, second]
  call callee args := by rw [callee, eq_of_lists args]
  member name object := by rw [object]
  index object key := by rw [object, key]
  construct className args args' each := by rw [eq_of_lists each]
  array each := by rw [eq_of_lists each]
  await promise := by rw [promise]
  arrowBlock params body body' each := by rw [eq_of_lists each]
  arrowValue params value value' same := by rw [same]
  declare name value value' h := by rw [eq_of_option id h]
  function h := by rw [eq_of_function h]
  classDecl name fields fields' methods methods' first second := by
    have field : ∀ {decl decl' : FieldDecl}, decl.Rel Eq decl' → decl = decl' := by
      rintro _ _ ⟨name, value⟩
      rw [eq_of_option id value]
    rw [eq_of_list field first, eq_of_list eq_of_function second]
  importFile same := by rw [strings same]
  ret h := by rw [eq_of_option id h]
  branch test body otherwise := by rw [test, eq_of_lists body, otherwise]
  noElse := rfl
  elseBlock body := by rw [eq_of_lists body]
  elseBranch test body otherwise := by rw [test, eq_of_lists body, otherwise]
  whileLoop test body := by rw [test, eq_of_lists body]
  forLoop start test update body := by
    rw [eq_of_option id start, eq_of_option id test, eq_of_option id update, eq_of_lists body]
  switch subject cases fallback := by
    have clause : ∀ {c c' : CaseClause}, c.Rel Eq Eq c' → c = c' := by
      rintro _ _ ⟨test, body⟩
      rw [test, eq_of_lists body]
    rw [subject, eq_of_list clause cases, eq_of_option eq_of_lists fallback]
  breakLoop := rfl
  continueLoop := rfl
  attempt body handler cleanup := by
    have caught : ∀ {c c' : CatchClause}, c.Rel Eq c' → c = c' := by
      rintro _ _ ⟨param, body⟩
      rw [eq_of_lists body]
    rw [eq_of_lists body, eq_of_option caught handler, eq_of_option eq_of_lists cleanup]
  expr value := by rw [value]

end Equal

end ScriptCpp.Parser.Pairing
