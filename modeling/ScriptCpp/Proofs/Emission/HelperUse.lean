import Mathlib
import ScriptCpp.Proofs.Emission.Composition
import ScriptCpp.Proofs.Emission.Drafting

set_option autoImplicit false

namespace ScriptCpp

open Cpp

namespace Emission

variable {features : Features} {v : Vocabulary features}

structure Ended (v : Vocabulary features) (text : String) : Prop where
  words : WordsIn v.allows text
  ends : endsWord text.toList = false

theorem Ended.append {text other : String} (first : Ended v text) (second : Ended v other) :
    Ended v (text ++ other) where
  words := first.words.append second.words (.inl first.ends)
  ends := by
    rw [String.toList_append]
    by_cases empty : other.toList = []
    · rw [empty, List.append_nil]
      exact first.ends
    · rw [endsWord_append empty]
      exact second.ends

theorem Ended.fixed {text : String} (absent : Session.hasPart Prelude.mark text.toList = false)
    (ends : endsWord text.toList = false) : Ended v text where
  words := by
    apply wordsIn_plain
    rw [← Session.hasPart_iff, absent]
    exact Bool.false_ne_true
  ends := ends

theorem Lined.ended {a : Nat → String} (h : Lined v a) (depth : Nat) : Ended v (a depth) :=
  ⟨h.words depth, h.ends depth⟩

theorem ended_alone {s : Stmt} {text : String}
    (told : AloneOf (Material.Sound v) (PartDrafted v) s text) : Ended v text := by
  have blank : Ended v "\n" := Ended.fixed (by decide) (by decide)
  cases told with
  | entry _ lined => exact Lined.ended lined 1
  | classDecl lined => exact (Lined.ended lined 0).append blank
  | function named listed body =>
    exact ((lined_function (inline_binding named) listed body).ended 0).append blank

theorem ended_joined {body : List Stmt} {texts : List String}
    (told : List.Forall₂ (AloneOf (Material.Sound v) (PartDrafted v)) body texts) :
    Ended v (String.join texts) := by
  induction told with
  | nil => exact Ended.fixed (by decide) (by decide)
  | cons here _ ih =>
    rw [String.join_cons]
    exact (ended_alone here).append ih

theorem mainOpening_ended : Ended v (mainOpening features) := by
  have head : Ended v "int main(int argc, char *argv[]) \x7b\n" :=
    Ended.fixed (by decide) (by decide)
  refine head.append ?_
  split
  · exact Ended.append ((lined_fixed (by decide)).ended 1) ((lined_fixed (by decide)).ended 1)
  · exact (lined_fixed (by decide)).ended 1

theorem mainClosing_ended : Ended v (mainClosing features) := by
  have last : Ended v "\x7d\n" := Ended.fixed (by decide) (by decide)
  refine Ended.append ?_ last
  split
  · exact (lined_fixed (by decide)).ended 1
  · exact (lined_fixed (by decide)).ended 1

end Emission

def Vocabulary.defined (features : Features) : Vocabulary features where
  allows w := Prelude.mark <:+: w → Prelude.defines features (String.ofList w) = true
  plain _ unmarked marked := absurd marked unmarked
  helper n known _ := by
    rw [String.ofList_toList]
    exact Prelude.defines_helper (.inl known)

theorem allSound_defined {features : Features} {ms : List Material} (fine : AllFine ms)
    (unmarked : ∀ m ∈ ms, ¬ Prelude.mark <:+: m.text.toList) : AllSound (.defined features) ms :=
  fun m present => ⟨fine m present, Emission.wordsIn_plain (unmarked m present)⟩

namespace Program

open Emission

variable {features : Features}

theorem ended_of_emit {v : Vocabulary features} {program : Program} {output : String}
    (sound : AllSound v (Stmt.materialEach program)) (emitted : emit features program = .ok output) :
    ∃ rest, output = prelude features ++ rest ∧ Ended v rest := by
  obtain ⟨units, texts, rfl, first, second⟩ := aloneOf_of_emit (draftLaws v) sound emitted
  refine ⟨"\n" ++ String.join units ++
    (mainOpening features ++ String.join texts ++ mainClosing features), ?_, ?_⟩
  · simp only [layout, String.append_assoc]
  · have apart : Ended v "\n" := Ended.fixed (by decide) (by decide)
    exact (apart.append (ended_joined first)).append
      ((mainOpening_ended.append (ended_joined second)).append mainClosing_ended)

/-- If the program has no name or string with the mark of the helpers, each identifier behind the support
text that has the mark is one that the support text defines. -/
theorem emit_helpers_defined {text output : String} {program : Program}
    (read : ofText text = .ok program) (emitted : emit features program = .ok output)
    (unmarked : ∀ m ∈ Stmt.materialEach program, ¬ Prelude.mark <:+: m.text.toList) :
    ∃ rest, output = prelude features ++ rest ∧
      (∀ w, IsWord w rest.toList → Prelude.mark <:+: w →
        Prelude.defines features (String.ofList w) = true) ∧
      Prelude.defines features "await_result" = true ∧ Prelude.defines features "delay" = true := by
  have sound : AllSound (.defined features) (Stmt.materialEach program) :=
    allSound_defined (allFine_of_ofText read) unmarked
  obtain ⟨rest, split, ended⟩ := ended_of_emit sound emitted
  refine ⟨rest, split, ended.words, ?_, ?_⟩
  · exact Prelude.defines_helper (.inr (by decide))
  · exact Prelude.defines_helper (.inr (by decide))

def chainedText : String := "xs.map(f).join(); input();"

theorem emit_helpers_defined_chained : ∃ program output rest, ofText chainedText = .ok program ∧
    emit ⟨false, false⟩ program = .ok output ∧ output = prelude ⟨false, false⟩ ++ rest ∧
      IsWord "_riri_map".toList rest.toList ∧ Prelude.defines ⟨false, false⟩ "_riri_map" = true := by
  have written : (ofText chainedText).map (fun program =>
      (program.declarations.mapM (alone ⟨false, false⟩), program.entry.mapM (alone ⟨false, false⟩))) =
        .ok (.ok [], .ok ["    _riri_join(_riri_map(xs, f), std::string(\",\"));\n",
          "    _riri_input();\n"]) := by decide +kernel
  have clean : (ofText chainedText).map (fun program => (Stmt.materialEach program).all
      fun m => !Session.hasPart Prelude.mark m.text.toList) = .ok true := by decide +kernel
  cases read : ofText chainedText with
  | error e => simp [read, Except.map] at written
  | ok program =>
    simp only [read, Except.map, Except.ok.injEq, Prod.mk.injEq] at written clean
    have emitted : emit ⟨false, false⟩ program = .ok (layout ⟨false, false⟩ []
        ["    _riri_join(_riri_map(xs, f), std::string(\",\"));\n", "    _riri_input();\n"]) := by
      rw [emit_eq_layout, written.1, written.2]
      rfl
    have unmarked : ∀ m ∈ Stmt.materialEach program, ¬ Prelude.mark <:+: m.text.toList := by
      intro m present
      rw [← Session.hasPart_iff]
      simpa using List.all_eq_true.mp clean m present
    obtain ⟨rest, split, defined, -⟩ := emit_helpers_defined read emitted unmarked
    have own : rest = "\n" ++ (mainOpening ⟨false, false⟩ ++
        ("    _riri_join(_riri_map(xs, f), std::string(\",\"));\n    _riri_input();\n" ++
          mainClosing ⟨false, false⟩)) := by
      simp only [layout, String.append_assoc] at split
      simpa using split.symm
    have word : IsWord "_riri_map".toList rest.toList := by
      refine ⟨("\n" ++ mainOpening ⟨false, false⟩ ++ "    _riri_join(").toList,
        ("(xs, f), std::string(\",\"));\n    _riri_input();\n" ++ mainClosing ⟨false, false⟩).toList,
        ?_, by decide, List.all_eq_true.mp (by decide), by decide +kernel, by decide +kernel⟩
      rw [own]
      decide +kernel
    exact ⟨program, _, rest, rfl, emitted, split, word, defined _ word (by decide)⟩

end Program

end ScriptCpp
