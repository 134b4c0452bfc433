import Mathlib
import ScriptCpp.Proofs.Lexing.Layout
import ScriptCpp.Proofs.Parsing.Conservation
import ScriptCpp.Proofs.Parsing.Likeness

set_option autoImplicit false

namespace ScriptCpp

variable {stop stop' : Token} {ts us : List Token} {text : String} {p : Program}

namespace Token

theorem like_of_content {t u : Token} (same : t.content = u.content) : t.Like Eq u := by
  obtain ⟨kind, text⟩ := Prod.mk.inj same
  exact ⟨kind.symm, fun _ => text.symm, fun _ => text⟩

/-- The text consists of these tokens, wherever they stand in it. -/
def ReadsAs (text : String) (ts : List Token) : Prop :=
  (ofText text).map (List.map content) = .ok (ts.map content ++ [(.eof, "EOF")])

instance (text : String) (ts : List Token) : Decidable (ReadsAs text ts) :=
  inferInstanceAs (Decidable (_ = _))

theorem ReadsAs.exists_tokens (reads : ReadsAs text ts) :
    ∃ us, ofText text = .ok (us ++ [eof (.behind text.toList)]) ∧ us.map content = ts.map content ∧
      ∀ t ∈ us, ∃ raw, IsLexeme t.kind t.text.toList raw := by
  unfold ReadsAs at reads
  cases read : ofText text with
  | error e =>
    rw [read] at reads
    cases reads
  | ok tokens =>
    obtain ⟨us, rfl, lexemes⟩ := ofText_lexemes read
    rw [read] at reads
    have whole : (us ++ [eof (.behind text.toList)]).map content = ts.map content ++ [(.eof, "EOF")] :=
      Except.ok.inj reads
    rw [List.map_append] at whole
    exact ⟨us, rfl, (List.append_inj' whole rfl).1, lexemes⟩

end Token

namespace Parser

def Pairing.ofContent (same : stop.content = stop'.content) : Pairing :=
  ⟨Eq, stop, stop', Token.like_of_content same⟩

theorem Pairing.twins_ofContent (ends : stop.content = stop'.content)
    (same : ts.map Token.content = us.map Token.content) : (ofContent ends).Twins ts us := by
  induction ts generalizing us with
  | nil =>
    obtain rfl := List.map_eq_nil_iff.mp same.symm
    exact .stop
  | cons t ts ih =>
    cases us with
    | nil => cases same
    | cons u us =>
      obtain ⟨first, rest⟩ := List.cons.inj same
      refine .token (Token.like_of_content first) (fun _ _ => ?_) (ih rest)
      have head : ∀ (vs : List Token) (last : Token),
          (vs.headD last).content = (vs.map Token.content).headD last.content := by
        rintro (_ | ⟨v, vs⟩) last <;> rfl
      have next : (ts.headD stop).content = (us.headD stop').content := by
        rw [head, head, rest, ends]
      exact (congrArg Prod.snd next).symm

theorem run_of_content (ends : stop.content = stop'.content)
    (same : ts.map Token.content = us.map Token.content)
    (read : program.run stop ts = .ok (p, [])) : program.run stop' us = .ok (p, []) := by
  let w := Pairing.ofContent ends
  have outcomes : w.Matches (List.Forall₂ Eq) ts us (program.run stop ts) (program.run stop' us) :=
    Pairing.parallel_program (fun _ => w.layer_eq fun same => same) (Pairing.twins_ofContent ends same)
  rw [read] at outcomes
  generalize read' : program.run stop' us = outcome at outcomes
  cases outcomes with
  | ok trees _ =>
    rw [program_rest read', Pairing.eq_of_lists trees]

end Parser

theorem Token.ReadsAs.spelled (reads : Token.ReadsAs text ts) : Parser.Spelled (.eof .start) ts := by
  obtain ⟨us, -, same, lexemes⟩ := reads.exists_tokens
  apply Parser.spelled_lexemes
  intro t present
  have among : t.content ∈ us.map Token.content := same ▸ List.mem_map_of_mem present
  obtain ⟨u, present, equal⟩ := List.mem_map.mp among
  obtain ⟨kind, text⟩ := Prod.mk.inj equal
  rw [← kind, ← text]
  exact lexemes u present

theorem Token.ReadsAs.ofText_iff (reads : Token.ReadsAs text ts) :
    Program.ofText text = .ok p ↔ Parser.program.run (.eof .start) ts = .ok (p, []) := by
  obtain ⟨us, lexed, same, -⟩ := reads.exists_tokens
  have ends : (Token.eof (.behind text.toList)).content = (Token.eof .start).content := rfl
  rw [Program.ofText_eq_ok_iff]
  constructor
  · rintro ⟨vs, found, read⟩
    obtain ⟨rfl, -⟩ := List.append_inj' (Except.ok.inj (found.symm.trans lexed)) rfl
    exact Parser.run_of_content ends same read
  · intro read
    exact ⟨us, lexed, Parser.run_of_content ends.symm same.symm read⟩

end ScriptCpp
