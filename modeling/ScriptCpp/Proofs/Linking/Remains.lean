import Mathlib
import ScriptCpp.Proofs.Emission.Composition
import ScriptCpp.Proofs.Linking.Expansion

set_option autoImplicit false

namespace ScriptCpp

namespace Program

variable {program : Program} {spec : String}

def Buries (program : Program) (spec : String) : Prop :=
  ∃ s ∈ program, ∃ c ∈ s.children, c.Holds (.stmt (.importFile spec))

theorem has_import_iff :
    program.Has (.stmt (.importFile spec)) ↔ .importFile spec ∈ program ∨ program.Buries spec := by
  constructor
  · rintro ⟨s, present, occurs⟩
    rcases Relation.ReflTransGen.cases_head occurs with same | ⟨child, step, deeper⟩
    · cases same
      exact .inl present
    · exact .inr ⟨s, present, child, step, deeper⟩
  · rintro (present | ⟨s, present, child, step, deeper⟩)
    · exact ⟨_, present, .refl⟩
    · exact ⟨s, present, .head step deeper⟩

end Program

namespace Linking

variable {source : ModuleSource} {V visited : PathSet} {f file : Path} {spec : String} {s : Stmt}
  {body program : Program}

/-- The files of a program that is linked from `file`: that one and those its imports lead to. -/
def TakenIn (source : ModuleSource) (V : PathSet) (file f : Path) : Prop :=
  f = file ∨ Reaches source (V.insert file) (contents source file) f

theorem mem_ownStmts_contents (loaded : (load source f).1 = .ok program) :
    s ∈ ownStmts (contents source f) ↔ s ∈ program ∧ s.importSpec? = none := by
  simp [ownStmts, contents_of_load loaded, pending, Function.comp_def]

theorem Inlined.mem_iff
    (h : Inlined source (V.insert file) (some file) (contents source file) visited body) :
    s ∈ body ↔ ∃ f, TakenIn source V file f ∧ s ∈ ownStmts (contents source f) := by
  obtain ⟨e, -, -, rfl, -, -, reached, own, others, origins⟩ := h.placed
  constructor
  · intro present
    obtain ⟨part, listed, rfl⟩ := List.mem_map.mp present
    rcases origins part listed with first | ⟨f, placed, from_⟩
    · refine ⟨file, .inl rfl, ?_⟩
      rw [← own]
      exact List.mem_map_of_mem (List.mem_filter.mpr ⟨listed, by simpa using first⟩)
    · refine ⟨f, .inr ((reached f).mp placed), ?_⟩
      rw [← others f placed]
      exact List.mem_map_of_mem (List.mem_filter.mpr ⟨listed, by simpa using from_⟩)
  · rintro ⟨f, rfl | reaches, present⟩
    · rw [← own] at present
      exact (List.filter_sublist.map _).subset present
    · rw [← others f ((reached f).mpr reaches)] at present
      exact (List.filter_sublist.map _).subset present

theorem Inlined.has_import_iff
    (h : Inlined source (V.insert file) (some file) (contents source file) visited body)
    (loads : ∀ f, TakenIn source V file f → ∃ program, (load source f).1 = .ok program) :
    body.Has (.stmt (.importFile spec)) ↔
      ∃ f program, TakenIn source V file f ∧ (load source f).1 = .ok program ∧ program.Buries spec := by
  rw [Program.has_import_iff, or_iff_right (h.no_import spec)]
  constructor
  · rintro ⟨s, present, child, step, deeper⟩
    obtain ⟨f, taken, own⟩ := h.mem_iff.mp present
    obtain ⟨program, loaded⟩ := loads f taken
    exact ⟨f, program, taken, loaded, s, ((mem_ownStmts_contents loaded).mp own).1, child, step, deeper⟩
  · rintro ⟨f, program, taken, loaded, s, present, child, step, deeper⟩
    -- An import has no parts, so the statement around another import is no import.
    have kept : s.importSpec? = none := by
      apply Stmt.importSpec?_eq_none
      rintro path rfl
      cases step
    exact ⟨s, h.mem_iff.mpr ⟨f, taken, (mem_ownStmts_contents loaded).mpr ⟨present, kept⟩⟩, child, step, deeper⟩

end Linking

namespace Linked

open Linking

/-- No import is left at the top level. Further in, a linked program has just the imports that its files
have there. -/
theorem imports_left (s : Shelf) (V : PathSet) (path : Path) {body : Program}
    (linked : (ofEntry s.source V path).result = .ok body) :
    ∃ file, s.source.entry path = .ok file ∧ (∀ spec, .importFile spec ∉ body) ∧
      ∀ spec, body.Has (.stmt (.importFile spec)) ↔
        ∃ f program, TakenIn s.source V file f ∧ (load s.source f).1 = .ok program ∧
          program.Buries spec := by
  have distinct := s.source_distinct
  obtain ⟨file, program, entered, loaded, ran⟩ := ofEntry_ok_iff.mp linked
  have linkable := (run_ok_iff distinct [] []).mp ⟨body, ran⟩
  have started : ∀ f, some file = some f → (V.insert file).contains f = true := by
    rintro f ⟨⟩
    exact V.contains_insert_self file
  have inlined := run_inlined distinct started ran
  refine ⟨file, entered, inlined.no_import, fun spec => inlined.has_import_iff ?_⟩
  rintro f (rfl | reached)
  · exact ⟨program, loaded⟩
  · exact linkable.loads f reached

-- A file with an import in the body of a function.
def tucked : Shelf :=
  ⟨[(⟨"a"⟩, "func f() \x7b import \"b\"; \x7d"), (⟨"b"⟩, "x;")]⟩

def tuckedBody : Program :=
  [.function ⟨"f", [], [.importFile "b"], false⟩]

theorem ofEntry_tucked : ofEntry tucked.source .empty ⟨"a"⟩ = ⟨.ok tuckedBody, ⟨[⟨"a"⟩]⟩, []⟩ := by
  have entered : tucked.source.entry ⟨"a"⟩ = .ok ⟨"a"⟩ := by decide +kernel
  have loaded : load tucked.source ⟨"a"⟩ = (.ok tuckedBody, []) := by with_unfolding_all rfl
  have marked : PathSet.empty.insert ⟨"a"⟩ = ⟨[⟨"a"⟩]⟩ := by decide +kernel
  simp only [ofEntry, entered, loaded, ofProgram, marked]
  simp [tuckedBody, pending, run]

theorem buries_tucked : tuckedBody.Buries "b" :=
  ⟨_, List.mem_singleton_self _, _, List.mem_singleton_self _, .refl⟩

theorem imports_left_tucked :
    ∃ file, tucked.source.entry ⟨"a"⟩ = .ok file ∧ (∀ spec, .importFile spec ∉ tuckedBody) ∧
      ∀ spec, tuckedBody.Has (.stmt (.importFile spec)) ↔
        ∃ f program, TakenIn tucked.source .empty file f ∧ (load tucked.source f).1 = .ok program ∧
          program.Buries spec :=
  imports_left tucked .empty ⟨"a"⟩ (congrArg result ofEntry_tucked)

theorem tucked_import_kept :
    (ofEntry tucked.source .empty ⟨"a"⟩).result = .ok tuckedBody ∧
      tuckedBody.Has (.stmt (.importFile "b")) ∧
      (ofEntry tucked.source .empty ⟨"a"⟩).notices = [] ∧
      ⟨"b"⟩ ∉ (ofEntry tucked.source .empty ⟨"a"⟩).visited.paths ∧
      ∀ features, tuckedBody.emit features =
        .ok (Program.layout features ["auto f() \x7b\n    // import \"b\"\n\x7d\n\n"] []) := by
  rw [ofEntry_tucked]
  refine ⟨rfl, Program.has_import_iff.mpr (.inr buries_tucked), rfl, by simp, fun features => ?_⟩
  have told : Emission.alone features (.function ⟨"f", [], [.importFile "b"], false⟩) =
      .ok "auto f() \x7b\n    // import \"b\"\n\x7d\n\n" := rfl
  have split : tuckedBody.declarations = tuckedBody ∧ tuckedBody.entry = [] := ⟨rfl, rfl⟩
  rw [Program.emit_eq_layout, split.1, split.2, tuckedBody, List.mapM_cons, told]
  rfl

end Linked

end ScriptCpp
