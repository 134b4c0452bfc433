import Mathlib
import ScriptCpp.Emission.Emitter

set_option autoImplicit false

namespace ScriptCpp

namespace Scribe

-- What follows the body of a branch, with the `else` part as a block like any other.
def elseBlock : Option (List Stmt) → Scribe String
  | none => putLine "\x7d"
  | some rest => do
      let between ← putLine "\x7d else \x7b"
      let text ← nested (stmts rest)
      let last ← putLine "\x7d"
      return between ++ text ++ last

def branch (test : Expr) (body : List Stmt) (otherwise : Option (List Stmt)) : Scribe String := do
  let first ← opening (expr test) (stmts body)
  let rest ← elseBlock otherwise
  return first ++ rest

-- Goes on behind `out`, with so many arms open.
def chain (out : String) (arms : Nat) (test : Expr) (body : List Stmt) : Option (List Stmt) → Scribe String
  | some [s] =>
      match s with
      | .branch nextTest nextBody otherwise => do
          let first ← opening (expr test) (stmts body)
          let between ← putLine "\x7d else \x7b"
          indent
          chain (out ++ first ++ between) (arms + 1) nextTest nextBody otherwise
      | s => do
          let last ← branch test body (some [s])
          closeArms (out ++ last) arms
  | otherwise => do
      let last ← branch test body otherwise
      closeArms (out ++ last) arms

theorem stmts_singleton (s : Stmt) : stmts [s] = stmt s := by
  have step : stmts [s] = (do
      let first ← stmt s
      let later ← pure ""
      return first ++ later) := rfl
  simp only [step, pure_bind, String.append_empty, bind_pure]

theorem elseChain_last {out : String} {arms : Nat} {rest : List Stmt}
    (ends : elseChain out arms (some rest) = do
      let between ← putLine "\x7d else \x7b"
      let text ← nested (stmts rest)
      let last ← putLine "\x7d"
      closeArms (out ++ between ++ text ++ last) arms) :
    elseChain out arms (some rest) = elseBlock (some rest) >>= fun text => closeArms (out ++ text) arms := by
  simp only [ends, elseBlock, bind_assoc, pure_bind, String.append_assoc]

-- The arm's own closing brace is the first of those that close the arms.
theorem elseChain_eq : (otherwise : Option (List Stmt)) → (out : String) → (arms : Nat) →
    elseChain out arms otherwise = elseBlock otherwise >>= fun rest => closeArms (out ++ rest) arms
  | none, _, _ => rfl
  | some [], _, _ => elseChain_last rfl
  | some [s], out, arms => by
    cases s with
    | branch test body otherwise =>
      have goes : elseChain out arms (some [.branch test body otherwise]) = (do
          let between ← putLine "\x7d else \x7b"
          indent
          let next ← opening (expr test) (stmts body)
          elseChain (out ++ between ++ next) (arms + 1) otherwise) := rfl
      have alone : stmt (.branch test body otherwise) = (do
          let first ← opening (expr test) (stmts body)
          elseChain first 0 otherwise) := rfl
      have block : elseBlock (some [.branch test body otherwise]) = (do
          let between ← putLine "\x7d else \x7b"
          let text ← nested (stmts [.branch test body otherwise])
          let last ← putLine "\x7d"
          return between ++ text ++ last) := rfl
      rw [goes, block, stmts_singleton, alone]
      simp only [elseChain_eq otherwise, nested, closeArms, bind_assoc, pure_bind, String.append_assoc]
    | _ => exact elseChain_last rfl
  | some (s :: t :: rest), _, _ => by cases s <;> exact elseChain_last rfl

theorem stmt_branch (test : Expr) (body : List Stmt) (otherwise : Option (List Stmt)) :
    stmt (.branch test body otherwise) = branch test body otherwise := by
  have step : stmt (.branch test body otherwise) = (do
      let first ← opening (expr test) (stmts body)
      elseChain first 0 otherwise) := rfl
  simp only [step, elseChain_eq, closeArms, branch]

theorem chain_last {out : String} {arms : Nat} {test : Expr} {body : List Stmt}
    {otherwise : Option (List Stmt)} (ends : chain out arms test body otherwise = do
      let last ← branch test body otherwise
      closeArms (out ++ last) arms) :
    chain out arms test body otherwise =
      opening (expr test) (stmts body) >>= fun first => elseChain (out ++ first) arms otherwise := by
  simp only [ends, branch, elseChain_eq, bind_assoc, pure_bind, String.append_assoc]

theorem chain_eq : (otherwise : Option (List Stmt)) → (out : String) → (arms : Nat) → (test : Expr) →
    (body : List Stmt) → chain out arms test body otherwise =
      opening (expr test) (stmts body) >>= fun first => elseChain (out ++ first) arms otherwise
  | none, _, _, _, _ => chain_last rfl
  | some [], _, _, _, _ => chain_last rfl
  | some [s], out, arms, test, body => by
    cases s with
    | branch nextTest nextBody otherwise =>
      have goes : chain out arms test body (some [.branch nextTest nextBody otherwise]) = (do
          let first ← opening (expr test) (stmts body)
          let between ← putLine "\x7d else \x7b"
          indent
          chain (out ++ first ++ between) (arms + 1) nextTest nextBody otherwise) := rfl
      have step : ∀ first, elseChain (out ++ first) arms (some [.branch nextTest nextBody otherwise]) = (do
          let between ← putLine "\x7d else \x7b"
          indent
          let next ← opening (expr nextTest) (stmts nextBody)
          elseChain (out ++ first ++ between ++ next) (arms + 1) otherwise) := fun _ => rfl
      simp only [goes, chain_eq otherwise, step]
    | _ => exact chain_last rfl
  | some (s :: t :: rest), _, _, _, _ => chain_last rfl

end Scribe

/-- A branch is emitted with the same text, the same error and the same depth behind it, whether the
`else` part is a block like any other or the arms of a chain are opened and closed in a loop. -/
theorem Emission.branch_emission (m : Emitter) (test : Expr) (body : List Stmt)
    (otherwise : Option (List Stmt)) :
    m.perform (Scribe.stmt (.branch test body otherwise)) =
      m.perform (Scribe.branch test body otherwise) ∧
    m.perform (Scribe.chain "" 0 test body otherwise) = m.perform (Scribe.branch test body otherwise) := by
  have loop : Scribe.chain "" 0 test body otherwise = Scribe.branch test body otherwise := by
    simp only [Scribe.chain_eq, String.empty_append, Scribe.elseChain_eq, Scribe.closeArms, Scribe.branch]
  rw [Scribe.stmt_branch, loop]
  exact ⟨rfl, rfl⟩

end ScriptCpp
