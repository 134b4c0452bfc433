import Mathlib
import ScriptCpp.Proofs.Emission.Outcome

set_option autoImplicit false

namespace ScriptCpp

section Sequences

variable {α β ε δ : Type} {f : α → Except ε β}

theorem mapM_of_ok {xs : List α} (each : ∀ x ∈ xs, ∃ y, f x = .ok y) :
    ∃ ys, xs.map f = ys.map .ok ∧ xs.mapM f = .ok ys := by
  induction xs with
  | nil => exact ⟨[], rfl, rfl⟩
  | cons x xs ih =>
    obtain ⟨⟨y, here⟩, later⟩ := List.forall_mem_cons.mp each
    obtain ⟨ys, texts, read⟩ := ih later
    refine ⟨y :: ys, by rw [List.map_cons, here, texts, List.map_cons], ?_⟩
    rw [List.mapM_cons, here, read]
    rfl

theorem mapM_first_error {xs : List α} (some : ∃ x ∈ xs, ∀ y, f x ≠ .ok y) :
    ∃ before x after e, xs = before ++ x :: after ∧ (∀ y ∈ before, ∃ z, f y = .ok z) ∧
      f x = .error e ∧ xs.mapM f = .error e := by
  induction xs with
  | nil =>
    obtain ⟨x, present, -⟩ := some
    cases present
  | cons x xs ih =>
    cases here : f x with
    | error e =>
      refine ⟨[], x, xs, e, rfl, by simp, here, ?_⟩
      rw [List.mapM_cons, here]
      rfl
    | ok y =>
      have later : ∃ x ∈ xs, ∀ y, f x ≠ .ok y := by
        obtain ⟨x', present, fails⟩ := some
        rcases List.mem_cons.mp present with rfl | among
        · exact absurd here (fails y)
        · exact ⟨x', among, fails⟩
      obtain ⟨before, x', after, e, rfl, ahead, failed, read⟩ := ih later
      refine ⟨x :: before, x', after, e, rfl, List.forall_mem_cons.mpr ⟨⟨y, here⟩, ahead⟩, failed, ?_⟩
      rw [List.mapM_cons, here, read]
      rfl

theorem mapM_cases (f : α → Except ε β) (xs : List α) :
    (∃ ys, xs.map f = ys.map .ok ∧ xs.mapM f = .ok ys) ∨
      ∃ x ∈ xs, ∃ e, f x = .error e ∧ xs.mapM f = .error e := by
  by_cases each : ∀ x ∈ xs, ∃ y, f x = .ok y
  · exact .inl (mapM_of_ok each)
  · push Not at each
    obtain ⟨before, x, after, e, rfl, -, failed, read⟩ := mapM_first_error each
    exact .inr ⟨x, by simp, e, failed, read⟩

theorem forall₂_of_mapM {xs : List α} {ys : List β} (read : xs.mapM f = .ok ys) :
    List.Forall₂ (fun x y => f x = .ok y) xs ys := by
  rcases mapM_cases f xs with ⟨zs, each, same⟩ | ⟨_, _, _, _, stopped⟩
  · obtain rfl : zs = ys := Except.ok.inj (same.symm.trans read)
    rw [← List.forall₂_eq_eq_eq] at each
    simpa only [List.forall₂_map_left_iff, List.forall₂_map_right_iff] using each
  · rw [stopped] at read
    cases read

theorem mapError_bind (x : Except ε α) (g : α → Except ε β) (h : ε → δ) :
    (x >>= g).mapError h = x.mapError h >>= fun a => (g a).mapError h := by
  cases x <;> rfl

theorem mapM_mapError (xs : List α) (h : ε → δ) :
    (xs.mapM f).mapError h = xs.mapM fun x => (f x).mapError h := by
  induction xs with
  | nil => rfl
  | cons x xs ih =>
    simp only [List.mapM_cons, mapError_bind, ih]
    rfl

theorem mapM_congr_mem {g : α → Except ε β} {xs : List α} (same : ∀ x ∈ xs, f x = g x) :
    xs.mapM f = xs.mapM g := by
  induction xs with
  | nil => rfl
  | cons x xs ih =>
    obtain ⟨here, later⟩ := List.forall_mem_cons.mp same
    rw [List.mapM_cons, List.mapM_cons, here, ih later]

end Sequences

def Program.declarations (program : Program) : List Stmt :=
  program.filter fun s => !Emission.inMain s

def Program.entry (program : Program) : List Stmt :=
  program.filter Emission.inMain

namespace Emission

variable (features : Features)

-- What an emitter of its own makes of a top-level statement: a declaration is written outside of `main`,
-- where nothing is indented, and anything else one level in.
def alone (s : Stmt) : Except EmitError String :=
  if inMain s then ((⟨features, 1⟩ : Emitter).perform (Scribe.stmt s)).1
  else ((Emitter.new features).perform (Scribe.declaration s)).1

def mainOpening : String :=
  "int main(int argc, char *argv[]) \x7b\n" ++
    if features.gui then
      line 1 "QApplication app(argc, argv);" ++ line 1 "Document document;"
    else line 1 "std::srand(std::time(0));"

def mainClosing : String :=
  line 1 (if features.gui then "return app.exec();" else "return 0;") ++ "\x7d\n"

theorem mainHead_outcome : (Scribe.mainHead).outcome features 1 = .ok (if features.gui then
    line 1 "QApplication app(argc, argv);" ++ line 1 "Document document;"
    else line 1 "std::srand(std::time(0));") := by
  obtain ⟨gui, http⟩ := features
  cases gui <;> rfl

theorem mainTail_outcome : (Scribe.mainTail).outcome features 1 =
    .ok (line 1 (if features.gui then "return app.exec();" else "return 0;")) := by
  obtain ⟨gui, http⟩ := features
  cases gui <;> rfl

theorem mainHead_restores : Scribe.mainHead.Restores := by
  rintro ⟨⟨gui, http⟩, depth⟩ m' text done
  cases gui <;> exact (Prod.mk.inj done).2.symm

theorem mainTail_restores : Scribe.mainTail.Restores := by
  rintro ⟨⟨gui, http⟩, depth⟩ m' text done
  cases gui <;> exact (Prod.mk.inj done).2.symm

theorem mainFunction_outcome (body : List Stmt) : (Scribe.mainFunction body).outcome features 0 =
    (stmts features 1 body).map (mainOpening features ++ · ++ mainClosing features) := by
  rw [Scribe.mainFunction, Scribe.outcome_setDepth,
    Scribe.outcome_bind_ok mainHead_restores (mainHead_outcome features), stmts_bind]
  cases stmts features 1 body with
  | error e => rfl
  | ok text => exact Scribe.outcome_bind_ok mainTail_restores (mainTail_outcome features)

theorem declaration_restores (s : Stmt) : (Scribe.declaration s).Restores := by
  cases s with
  | classDecl decl => exact (Scribe.stmt_restores (.classDecl decl)).bind fun _ => .pure _
  | function decl =>
    exact ((Scribe.stmts_restore decl.body).braced _).bind fun _ => .pure _
  | _ => exact .pure _

-- Both lists of statements are written one by one, all at the depth of the first.
theorem outcome_joined {k : Stmt → Scribe String} {all : List Stmt → Scribe String}
    (restores : ∀ s, (k s).Restores) (none : all [] = pure "")
    (step : ∀ s rest, all (s :: rest) = (do
      let first ← k s
      let later ← all rest
      return first ++ later)) (depth : Nat) (body : List Stmt) :
    (all body).Restores ∧ (all body).outcome features depth =
      String.join <$> body.mapM fun s => (k s).outcome features depth := by
  induction body with
  | nil =>
    rw [none]
    exact ⟨.pure _, rfl⟩
  | cons s body ih =>
    obtain ⟨restored, rest⟩ := ih
    rw [step]
    refine ⟨(restores s).bind fun _ => restored.bind fun _ => .pure _, ?_⟩
    rw [Scribe.outcome_bind (restores s), List.mapM_cons]
    cases (k s).outcome features depth with
    | error e => rfl
    | ok text =>
      refine (Scribe.outcome_bind restored _).trans ?_
      rw [rest]
      cases body.mapM fun s => (k s).outcome features depth with
      | error e => rfl
      | ok texts => exact congrArg Except.ok String.join_cons.symm

theorem stmts_eq_mapM (depth : Nat) (body : List Stmt) :
    stmts features depth body = String.join <$> body.mapM (stmt features depth) :=
  (outcome_joined features Scribe.stmt_restores rfl (fun _ _ => rfl) depth body).2

theorem declarations_eq_mapM (program : Program) :
    (Scribe.declarations program).Restores ∧ (Scribe.declarations program).outcome features 0 =
      String.join <$> program.mapM fun s => (Scribe.declaration s).outcome features 0 :=
  outcome_joined features declaration_restores rfl (fun _ _ => rfl) 0 program

theorem declaration_inMain {s : Stmt} (inner : inMain s = true) : Scribe.declaration s = pure "" := by
  cases s with
  | function | classDecl => cases inner
  | _ => rfl

theorem join_cons_map (text : String) (texts : Emitted (List String)) :
    (String.join <$> texts.map (text :: ·)) = (text ++ ·) <$> String.join <$> texts := by
  cases texts with
  | error e => rfl
  | ok texts => exact congrArg Except.ok String.join_cons

-- A statement of `main` adds no text among the declarations.
theorem declarations_eq (program : Program) :
    (Scribe.declarations program).outcome features 0 = String.join <$>
      program.declarations.mapM fun s => (Scribe.declaration s).outcome features 0 := by
  rw [(declarations_eq_mapM features program).2]
  unfold Program.declarations
  induction program with
  | nil => rfl
  | cons s program ih =>
    rw [List.mapM_cons]
    cases inner : inMain s with
    | true =>
      rw [declaration_inMain inner, List.filter_cons_of_neg (by simp [inner]), ← ih]
      refine (join_cons_map "" _).trans ?_
      simp
    | false =>
      rw [List.filter_cons_of_pos (by simp [inner]), List.mapM_cons]
      cases (Scribe.declaration s).outcome features 0 with
      | error e => rfl
      | ok text =>
        have same := congrArg ((text ++ ·) <$> ·) ih
        exact (join_cons_map text _).trans (same.trans (join_cons_map text _).symm)

theorem alone_declaration {program : Program} {s : Stmt} (present : s ∈ program.declarations) :
    ((Scribe.declaration s).outcome features 0).mapError EmitFailure.error = alone features s := by
  have outer : inMain s = false := by simpa using (List.mem_filter.mp present).2
  rw [alone, outer, if_neg Bool.false_ne_true, Scribe.perform_fst]
  rfl

theorem alone_entry {program : Program} {s : Stmt} (present : s ∈ program.entry) :
    (stmt features 1 s).mapError EmitFailure.error = alone features s := by
  have inner : inMain s = true := (List.mem_filter.mp present).2
  rw [alone, if_pos inner, Scribe.perform_fst]
  rfl

section Texts

variable {M : Material → Prop} {E F : Expr → Draft → Prop} {S : Part → Draft → Prop} {f g : Features}
  {allowed : EmitError → Prop} {s : Stmt}

-- What a relation of the parts to their drafts says of the text of a top-level statement.
inductive AloneOf (M : Material → Prop) (S : Part → Draft → Prop) : Stmt → String → Prop
  | entry {s : Stmt} {a : Draft} (inner : inMain s = true) (text : S (.stmt s) a) : AloneOf M S s (a 1)
  | classDecl {decl : ClassDecl} {a : Draft} (text : S (.stmt (.classDecl decl)) a) :
      AloneOf M S (.classDecl decl) (a 0 ++ "\n")
  | function {name : String} {params : List String} {body : List Stmt} {isAsync : Bool} {a : Draft}
      (named : M (.name name)) (listed : AllOf M (params.map .name)) (text : S (.stmts body) a) :
      AloneOf M S (.function ⟨name, params, body, isAsync⟩)
        (blockText 0 ("auto " ++ binding name ++ "(" ++ parameters params ++ ")") (a 1) ++ "\n")

theorem alone_of_settles {act : Scribe String} {P : Draft → Prop} {depth : Nat} {Q : String → Prop}
    (settled : Settles f g allowed (fun _ => act) P)
    (same : ∀ h, alone h s = ((⟨h, depth⟩ : Emitter).perform act).1) (told : ∀ a, P a → Q (a depth)) :
    (∃ text, Q text ∧ ∀ h, h = f ∨ h = g → alone h s = .ok text) ∨
      ∃ error, allowed error ∧ ∀ h, h = f ∨ h = g → alone h s = .error error := by
  rcases settled with ⟨a, holds, done⟩ | ⟨error, rise, ok, failed⟩
  · refine .inl ⟨a depth, told a holds, fun h known => ?_⟩
    rw [same, done h known]
  · refine .inr ⟨error, ok, fun h known => ?_⟩
    rw [same, failed h known]

theorem alone_settles (laws : Laws f M E F S) (steady : AllSteady f g allowed [.stmt s])
    (sound : AllOf M s.material) :
    (∃ text, AloneOf M S s text ∧ ∀ h, h = f ∨ h = g → alone h s = .ok text) ∨
      ∃ error, allowed error ∧ ∀ h, h = f ∨ h = g → alone h s = .error error := by
  cases inner : inMain s with
  | true =>
    exact alone_of_settles (stmt_settles laws s steady sound) (fun _ => if_pos inner) fun _ text =>
      .entry inner text
  | false =>
    have outer : ∀ h, alone h s = ((⟨h, 0⟩ : Emitter).perform (Scribe.declaration s)).1 :=
      fun _ => if_neg (Bool.eq_false_iff.mp inner)
    cases s with
    | classDecl decl =>
      have written : Settles f g allowed (fun _ => Scribe.declaration (.classDecl decl)) fun a =>
          AloneOf M S (.classDecl decl) (a 0) :=
        (stmt_settles laws (.classDecl decl) steady sound).bind fun _ text => .pure (.classDecl text)
      exact alone_of_settles written outer fun _ text => text
    | function decl =>
      obtain ⟨name, params, body, isAsync⟩ := decl
      obtain ⟨named, others⟩ := List.forall_mem_cons.mp sound
      obtain ⟨listed, inside⟩ := List.forall_mem_append.mp others
      have written : Settles f g allowed
          (fun _ => Scribe.declaration (.function ⟨name, params, body, isAsync⟩)) fun a =>
            AloneOf M S (.function ⟨name, params, body, isAsync⟩) (a 0) :=
        (stmts_settle laws body steady.inner inside).bindBraced fun _ text =>
          .pure (.function named listed text)
      exact alone_of_settles written outer fun _ text => text
    | _ => cases inner

theorem aloneOf_of_alone (laws : Laws f M E F S) (sound : AllOf M s.material) {text : String}
    (written : alone f s = .ok text) : AloneOf M S s text := by
  rcases alone_settles laws allSteady_self sound with ⟨other, told, same⟩ | ⟨error, -, same⟩
  · rw [same f (.inl rfl)] at written
    cases written
    exact told
  · rw [same f (.inl rfl)] at written
    cases written

theorem allOf_of_mem {body : List Stmt} (sound : AllOf M (Stmt.materialEach body)) :
    ∀ s ∈ body, AllOf M s.material := by
  induction body with
  | nil => simp
  | cons s body ih =>
    obtain ⟨here, later⟩ := List.forall_mem_append.mp sound
    exact List.forall_mem_cons.mpr ⟨here, ih later⟩

end Texts

end Emission

namespace Program

open Emission

variable (features : Features)

def layout (units texts : List String) : String :=
  prelude features ++ "\n" ++ String.join units ++
    (mainOpening features ++ String.join texts ++ mainClosing features)

theorem outcome_program (program : Program) : (Scribe.program program).outcome features 0 = (do
    let units ← (Scribe.declarations program).outcome features 0
    let body ← stmts features 1 program.entry
    return prelude features ++ "\n" ++ units ++
      (mainOpening features ++ body ++ mainClosing features)) := by
  rw [Scribe.program, Scribe.outcome_features, Scribe.outcome_bind (declarations_eq_mapM features program).1]
  refine congrArg (_ >>= ·) (funext fun units => ?_)
  rw [← map_eq_pure_bind, Scribe.outcome_map, mainFunction_outcome, Program.entry]
  cases stmts features 1 (program.filter inMain) with
  | error e => rfl
  | ok body => rfl

theorem emit_eq_layout (program : Program) : emit features program = do
    let units ← program.declarations.mapM (alone features)
    let texts ← program.entry.mapM (alone features)
    return layout features units texts := by
  have whole : emit features program =
      ((Scribe.program program).outcome features 0).mapError EmitFailure.error := Scribe.perform_fst _
  rw [whole, outcome_program, declarations_eq, stmts_eq_mapM, bind_map_left, mapError_bind, mapM_mapError,
    mapM_congr_mem fun s present => alone_declaration features present]
  refine congrArg (_ >>= ·) (funext fun units => ?_)
  rw [bind_map_left, mapError_bind, mapM_mapError,
    mapM_congr_mem fun s present => alone_entry features present]
  rfl

-- The texts of an output, each as its relation to the statement has it.
theorem aloneOf_of_emit {M : Material → Prop} {E F : Expr → Draft → Prop} {S : Part → Draft → Prop}
    {features : Features} {program : Program} {output : String} (laws : Laws features M E F S)
    (sound : AllOf M (Stmt.materialEach program)) (emitted : emit features program = .ok output) :
    ∃ units texts, output = layout features units texts ∧
      List.Forall₂ (AloneOf M S) program.declarations units ∧
        List.Forall₂ (AloneOf M S) program.entry texts := by
  have told : ∀ p : Stmt → Bool, ∀ texts, (program.filter p).mapM (alone features) = .ok texts →
      List.Forall₂ (AloneOf M S) (program.filter p) texts := by
    intro p texts written
    have fine : ∀ s ∈ program.filter p, AllOf M s.material := fun s present =>
      allOf_of_mem sound s (List.mem_of_mem_filter present)
    exact ((List.forall₂_and_left _ _).mpr ⟨fine, forall₂_of_mapM written⟩).imp fun s text known =>
      aloneOf_of_alone laws known.1 known.2
  rw [emit_eq_layout] at emitted
  cases first : program.declarations.mapM (alone features) with
  | error e =>
    rw [first] at emitted
    cases emitted
  | ok units =>
    cases second : program.entry.mapM (alone features) with
    | error e =>
      rw [first, second] at emitted
      cases emitted
    | ok texts =>
      rw [first, second] at emitted
      cases emitted
      exact ⟨units, texts, rfl, told _ _ first, told _ _ second⟩

/-- A statement that is written leaves the shared depth as it was. So the output is the texts of the
declarations and then of the rest, each as a new emitter writes it; if one of them fails, the first to
fail in that order gives the error. Nothing depends on how declarations and other statements are mixed. -/
theorem emit_compositional (program : Program) :
    (∀ s, (Scribe.stmt s).Restores ∧ (Scribe.declaration s).Restores) ∧
    ((∀ s ∈ program, ∃ text, alone features s = .ok text) →
      ∃ units texts, program.declarations.map (alone features) = units.map .ok ∧
        program.entry.map (alone features) = texts.map .ok ∧
        emit features program = .ok (layout features units texts)) ∧
    ((∃ s ∈ program, ∀ text, alone features s ≠ .ok text) →
      ∃ before s after e, program.declarations ++ program.entry = before ++ s :: after ∧
        (∀ t ∈ before, ∃ text, alone features t = .ok text) ∧ alone features s = .error e ∧
        emit features program = .error e) ∧
    emit features (program.declarations ++ program.entry) = emit features program ∧
    ∀ other : Program, other.declarations = program.declarations → other.entry = program.entry →
      emit features other = emit features program := by
  have regrouped : ∀ other : Program, other.declarations = program.declarations →
      other.entry = program.entry → emit features other = emit features program := by
    intro other declarations entry
    rw [emit_eq_layout, emit_eq_layout, declarations, entry]
  refine ⟨fun s => ⟨Scribe.stmt_restores s, declaration_restores s⟩, fun each => ?_, fun some => ?_, ?_,
    regrouped⟩
  · have within : ∀ p : Stmt → Bool, ∀ s ∈ program.filter p, ∃ text, alone features s = .ok text :=
      fun p s present => each s (List.mem_of_mem_filter present)
    obtain ⟨units, unitTexts, readUnits⟩ := mapM_of_ok (within _)
    obtain ⟨texts, mainTexts, readTexts⟩ := mapM_of_ok (within _)
    refine ⟨units, texts, unitTexts, mainTexts, ?_⟩
    rw [emit_eq_layout, declarations, readUnits, entry, readTexts]
    rfl
  · have among : ∃ s ∈ program.declarations ++ program.entry, ∀ text, alone features s ≠ .ok text := by
      obtain ⟨s, present, fails⟩ := some
      refine ⟨s, ?_, fails⟩
      cases inner : inMain s <;> simp [declarations, entry, present, inner]
    obtain ⟨before, s, after, e, split, ahead, failed, read⟩ := mapM_first_error among
    refine ⟨before, s, after, e, split, ahead, failed, ?_⟩
    rw [List.mapM_append] at read
    rw [emit_eq_layout]
    cases units : program.declarations.mapM (alone features) with
    | error e' =>
      rw [units] at read
      cases read
      rfl
    | ok units' =>
      rw [units] at read
      cases texts : program.entry.mapM (alone features) with
      | error e' =>
        rw [texts] at read
        cases read
        rfl
      | ok texts' =>
        rw [texts] at read
        cases read
  · refine regrouped _ ?_ ?_
    · simp [declarations, entry, List.filter_filter]
    · simp [declarations, entry, List.filter_filter]

-- `break; func f() { return; } x;`
def mixed : Program := [.breakLoop, .function ⟨"f", [], [.ret none], false⟩, .expr (.ident "x")]

theorem emit_compositional_mixed : emit ⟨false, false⟩ mixed = .ok (layout ⟨false, false⟩
    ["auto f() \x7b\n    return;\n\x7d\n\n"] ["    break;\n", "    x;\n"]) := by
  have units : mixed.declarations.map (alone ⟨false, false⟩) =
      ["auto f() \x7b\n    return;\n\x7d\n\n"].map .ok := by decide +kernel
  have texts : mixed.entry.map (alone ⟨false, false⟩) = ["    break;\n", "    x;\n"].map .ok := by
    decide +kernel
  have each : (mixed.map (alone ⟨false, false⟩)).all (·.isOk) = true := by decide +kernel
  obtain ⟨units', texts', same, same', emitted⟩ := (emit_compositional ⟨false, false⟩ mixed).2.1 (by
    intro s present
    have ok := List.all_eq_true.mp each _ (List.mem_map_of_mem present)
    cases written : alone ⟨false, false⟩ s with
    | error e => simp [written, Except.isOk, Except.toBool] at ok
    | ok text => exact ⟨text, rfl⟩)
  have injective : Function.Injective (Except.ok : String → Except EmitError String) :=
    fun _ _ same => Except.ok.inj same
  obtain rfl := List.map_injective_iff.mpr injective (same.symm.trans units)
  obtain rfl := List.map_injective_iff.mpr injective (same'.symm.trans texts)
  exact emitted

end Program

end ScriptCpp
