import Mathlib
import ScriptCpp.Emission.Text
import ScriptCpp.Proofs.Emission.Draft
import ScriptCpp.Proofs.Emission.Readings

set_option autoImplicit false

namespace ScriptCpp

inductive Mention where
  | bound (name : String)
  | used (name : String)
  | label (name : String)
  | scope (isArrow : Bool) (params : List String) (inside : List Mention)

namespace Mention

/-- Only a server leaves out a parameter: it has no `next` for an arrow to call. -/
def keeps (features : Features) (isArrow : Bool) (param : String) : Bool :=
  !(features.http && isArrow && param = "next")

inductive Occurs (m : Mention) : List Mention → Prop
  | here (ms : List Mention) : Occurs m (m :: ms)
  | later {n : Mention} {ms : List Mention} : Occurs m ms → Occurs m (n :: ms)
  | inside {isArrow : Bool} {params : List String} {inner ms : List Mention} :
      Occurs m inner → Occurs m (.scope isArrow params inner :: ms)

theorem Occurs.behind {m : Mention} {ms : List Mention} (h : Occurs m ms) (front : List Mention) :
    Occurs m (front ++ ms) := by
  induction front with
  | nil => exact h
  | cons n front ih => exact .later ih

end Mention

namespace SpecialForm

/-- What a form mentions, given the same for its head and for the arguments it uses. A sorted list is
written twice, and a mathematical function keeps its name. -/
def mentions (form : SpecialForm) (site : CallSite) (head : List Mention)
    (args : List (List Mention)) : List Mention :=
  if form.name = "sort" then args.flatten ++ args.flatten
  else if form.name = "Math.*" then site.method?.toList.map .label ++ args.flatten
  else head ++ args.flatten

end SpecialForm

namespace Emission

def accessed (features : Features) (name : String) : List Mention :=
  if name = "length" || (features.http && (name = "params" || name = "query")) then []
  else [.label name]

def typed : Expr → List Mention
  | .construct className _ => if className = "Server" then [] else [.label className]
  | _ => []

end Emission

open Emission (accessed typed)

mutual

@[simp] def Expr.mentions (features : Features) : Expr → List Mention
  | .assign target value => target.mentions features ++ value.mentions features
  | .binary _ left right => left.mentions features ++ right.mentions features
  | .negate operand => operand.mentions features
  | .conditional test consequent alternate =>
      test.mentions features ++ consequent.mentions features ++ alternate.mentions features
  | .call callee args =>
      match SpecialForm.find? features ⟨callee, args⟩ with
      | some form =>
          form.mentions ⟨callee, args⟩
            (match form.head with
              | .none => []
              | .callee => callee.mentions features
              | .receiver => callee.receiverMentions features)
            (form.used (Expr.mentionsList features args))
      | none => callee.mentions features ++ (Expr.mentionsList features args).flatten
  | .member object name => object.mentions features ++ accessed features name
  | .index object key => object.mentions features ++ key.mentions features
  | .construct className args =>
      if className = "Server" then []
      else .label className :: (Expr.mentionsList features args).flatten
  | .array elements => (Expr.mentionsList features elements).flatten
  | .ident name => if name = "null" then [] else [.used name]
  | .number _ | .string _ | .this => []
  | .await promise => promise.mentions features
  | .arrowBlock params body => [.scope true params (Stmt.mentionsEach features body)]
  | .arrowValue params value => [.scope true params (value.mentions features)]

@[simp] def Expr.receiverMentions (features : Features) : Expr → List Mention
  | .member object _ => object.mentions features
  | .index object _ => object.mentions features
  | .assign _ _ | .binary _ _ _ | .negate _ | .conditional _ _ _ | .call _ _ | .construct _ _ => []
  | .array _ | .ident _ | .number _ | .string _ | .this | .await _ => []
  | .arrowBlock _ _ | .arrowValue _ _ => []

@[simp] def Expr.mentionsList (features : Features) : List Expr → List (List Mention)
  | [] => []
  | e :: rest => e.mentions features :: Expr.mentionsList features rest

@[simp] def Expr.mentionsIfAny (features : Features) : Option Expr → List Mention
  | none => []
  | some e => e.mentions features

@[simp] def Stmt.mentions (features : Features) : Stmt → List Mention
  | .declare name value => .bound name :: Expr.mentionsIfAny features value
  | .function ⟨name, params, body, _⟩ =>
      [.bound name, .scope false params (Stmt.mentionsEach features body)]
  | .classDecl ⟨name, fields, methods⟩ =>
      .label name :: (FieldDecl.mentionsEach features fields ++
        FunctionDecl.mentionsOfMethods features methods)
  | .importFile _ => []
  | .ret value => Expr.mentionsIfAny features value
  | .branch test body otherwise =>
      test.mentions features ++ Stmt.mentionsEach features body ++
        Stmt.mentionsIfAny features otherwise
  | .whileLoop test body => test.mentions features ++ Stmt.mentionsEach features body
  | .forLoop start test update body =>
      Stmt.mentionsOfStart features start ++ Expr.mentionsIfAny features test ++
        Expr.mentionsIfAny features update ++ Stmt.mentionsEach features body
  | .switch subject cases fallback =>
      subject.mentions features ++ (CaseClause.mentionsEach features cases ++
        Stmt.mentionsIfAny features fallback)
  | .breakLoop | .continueLoop => []
  | .attempt body handler cleanup =>
      Stmt.mentionsEach features body ++ CatchClause.mentionsIfAny features handler ++
        Stmt.mentionsIfAny features cleanup
  | .expr value => value.mentions features

@[simp] def Stmt.mentionsEach (features : Features) : List Stmt → List Mention
  | [] => []
  | s :: rest => s.mentions features ++ Stmt.mentionsEach features rest

@[simp] def Stmt.mentionsIfAny (features : Features) : Option (List Stmt) → List Mention
  | none => []
  | some body => Stmt.mentionsEach features body

@[simp] def Stmt.mentionsOfStart (features : Features) : Option Stmt → List Mention
  | none => []
  | some s => s.mentions features

@[simp] def FunctionDecl.mentionsOfMethods (features : Features) : List FunctionDecl → List Mention
  | [] => []
  | ⟨name, params, body, _⟩ :: rest =>
      [.label name, .scope false params (Stmt.mentionsEach features body)] ++
        FunctionDecl.mentionsOfMethods features rest

@[simp] def FieldDecl.mentionsEach (features : Features) : List FieldDecl → List Mention
  | [] => []
  | ⟨name, none⟩ :: rest => .label name :: FieldDecl.mentionsEach features rest
  | ⟨name, some value⟩ :: rest =>
      (typed value ++ .label name :: value.mentions features) ++ FieldDecl.mentionsEach features rest

@[simp] def CaseClause.mentionsEach (features : Features) : List CaseClause → List Mention
  | [] => []
  | ⟨test, body⟩ :: rest =>
      test.mentions features ++ Stmt.mentionsEach features body ++
        CaseClause.mentionsEach features rest

@[simp] def CatchClause.mentionsIfAny (features : Features) : Option CatchClause → List Mention
  | none => []
  | some ⟨none, body⟩ => Stmt.mentionsEach features body
  | some ⟨some param, body⟩ => [.scope false [param] (Stmt.mentionsEach features body)]

end

namespace Emission

/-- Words that the emitter writes on its own account. -/
def ownWords : List String :=
  ["auto", "int", "std", "string", "return", "const", "bool", "double", "vector", "shared_ptr",
    "make_shared", "nullptr", "this", "if", "else", "while", "for", "switch", "case", "default", "break",
    "continue", "try", "catch", "throw", "exception", "_e", "what", "struct", "cout", "endl", "size",
    "sort", "begin", "end", "rand", "RAND_MAX", "to_string", "stoi", "stod", "delay", "await_result",
    "inf", "NaN", "httplib", "Request", "Response", "Server", "HandlerResponse", "Unhandled",
    "path_params", "params", "listen", "Get", "Post", "Put", "Delete", "set_pre_routing_handler",
    "set_content", "status", "get_param_value", "get_header_value", "count", "find", "main", "argc",
    "argv", "char", "srand", "time", "QApplication", "app", "exec", "Document", "document"]

def typeWords : List String := ["auto", "int", "string", "Request", "Response"]

def isOwnWord (w : String) : Bool := Prelude.mark.isPrefixOf w.toList || ownWords.contains w

/-- The identifiers of a text that mentions these names and nothing else: every name stands for itself
in the same spelling, directly behind a type where it is bound, and between them there are own words. The
parameters of a scope are bound before what is inside of it. -/
inductive Worded (features : Features) : List Mention → List String → Prop
  | done : Worded features [] []
  | own {w : String} {ms : List Mention} {ws : List String} : isOwnWord w = true →
      Worded features ms ws → Worded features ms (w :: ws)
  | label (name : String) {ms : List Mention} {ws : List String} :
      Worded features ms ws → Worded features (.label name :: ms) (name :: ws)
  | used (name : String) {ms : List Mention} {ws : List String} :
      Worded features ms ws → Worded features (.used name :: ms) (binding name :: ws)
  | bound (name : String) {type : String} {ms : List Mention} {ws : List String} : type ∈ typeWords →
      Worded features ms ws → Worded features (.bound name :: ms) (type :: binding name :: ws)
  | scope {isArrow : Bool} {params : List String} {inside ms : List Mention} {inner ws : List String} :
      Worded features ((params.filter (Mention.keeps features isArrow)).map .bound ++ inside) inner →
      Worded features ms ws → Worded features (.scope isArrow params inside :: ms) (inner ++ ws)

namespace Worded

variable {features : Features} {ms ns : List Mention} {ws vs : List String} {name : String}

theorem append (first : Worded features ms ws) (second : Worded features ns vs) :
    Worded features (ms ++ ns) (ws ++ vs) := by
  induction first with
  | done => exact second
  | own ok _ ih => exact .own ok ih
  | label name _ ih => exact .label name ih
  | used name _ ih => exact .used name ih
  | bound name type _ ih => exact .bound name type ih
  | scope inner _ _ ih =>
    rw [List.append_assoc]
    exact .scope inner ih

theorem owns (all : ∀ w ∈ ws, isOwnWord w = true) : Worded features [] ws := by
  induction ws with
  | nil => exact .done
  | cons w ws ih =>
    obtain ⟨here, later⟩ := List.forall_mem_cons.mp all
    exact .own here (ih later)

theorem cons_split {m : Mention} (h : Worded features (m :: ms) ws) :
    ∃ front back, ws = front ++ back ∧ Worded features [m] front ∧ Worded features ms back := by
  generalize whole : m :: ms = both at h
  induction h with
  | done => cases whole
  | own ok _ ih =>
    obtain ⟨front, back, rfl, first, second⟩ := ih whole
    exact ⟨_ :: front, back, rfl, .own ok first, second⟩
  | label name later =>
    obtain ⟨rfl, rfl⟩ := List.cons.inj whole
    exact ⟨[_], _, rfl, .label name .done, later⟩
  | used name later =>
    obtain ⟨rfl, rfl⟩ := List.cons.inj whole
    exact ⟨[_], _, rfl, .used name .done, later⟩
  | bound name ok later =>
    obtain ⟨rfl, rfl⟩ := List.cons.inj whole
    exact ⟨[_, _], _, rfl, .bound name ok .done, later⟩
  | @scope _ _ _ _ inner _ own later =>
    obtain ⟨rfl, rfl⟩ := List.cons.inj whole
    exact ⟨inner, _, rfl, List.append_nil inner ▸ .scope own .done, later⟩

theorem split (h : Worded features (ms ++ ns) ws) :
    ∃ front back, ws = front ++ back ∧ Worded features ms front ∧ Worded features ns back := by
  induction ms generalizing ws with
  | nil => exact ⟨[], ws, rfl, .done, h⟩
  | cons m ms ih =>
    obtain ⟨first, rest, rfl, own, later⟩ := cons_split h
    obtain ⟨front, back, rfl, others, second⟩ := ih later
    exact ⟨first ++ front, back, by rw [List.append_assoc], own.append others, second⟩

theorem enclose {isArrow : Bool} {params : List String} {inside : List Mention}
    (h : Worded features
      (ms ++ ((params.filter (Mention.keeps features isArrow)).map .bound ++ inside)) ws) :
    Worded features (ms ++ [.scope isArrow params inside]) ws := by
  obtain ⟨front, back, rfl, first, inner⟩ := h.split
  exact first.append (List.append_nil back ▸ .scope inner .done)

theorem bound_first (h : Worded features (.bound name :: ms) ws) :
    ∃ front type behind, type ∈ typeWords ∧ ws = front ++ type :: binding name :: behind ∧
      Worded features ms behind := by
  generalize whole : Mention.bound name :: ms = both at h
  induction h with
  | own _ _ ih =>
    obtain ⟨front, type, behind, ok, rfl, later⟩ := ih whole
    exact ⟨_ :: front, type, behind, ok, rfl, later⟩
  | bound other ok later =>
    obtain ⟨same, rfl⟩ := List.cons.inj whole
    obtain rfl := Mention.bound.inj same
    exact ⟨[], _, _, ok, rfl, later⟩
  | done | label | used | scope => cases whole

theorem bound_among {params : List String} (present : name ∈ params)
    (h : Worded features (params.map .bound ++ ms) ws) :
    ∃ front type behind, ∃ others : List String, type ∈ typeWords ∧
      ws = front ++ type :: binding name :: behind ∧
      Worded features (others.map .bound ++ ms) behind := by
  induction params generalizing ws with
  | nil => cases present
  | cons first params ih =>
    obtain ⟨front, type, behind, ok, rfl, later⟩ := bound_first h
    rcases List.mem_cons.mp present with rfl | among
    · exact ⟨front, type, behind, params, ok, rfl, later⟩
    · obtain ⟨front', type', behind', others, ok', rfl, rest⟩ := ih among later
      refine ⟨front ++ type :: binding first :: front', type', behind', others, ok', ?_, rest⟩
      rw [List.append_assoc, List.cons_append, List.cons_append]

theorem scope_within {isArrow : Bool} {params : List String} {inside : List Mention}
    (h : Worded features ms ws) (occurs : Mention.Occurs (.scope isArrow params inside) ms) :
    ∃ before inner after, ws = before ++ inner ++ after ∧
      Worded features ((params.filter (Mention.keeps features isArrow)).map .bound ++ inside) inner := by
  induction h with
  | done => cases occurs
  | own _ _ ih =>
    obtain ⟨before, inner, after, rfl, within⟩ := ih occurs
    exact ⟨_ :: before, inner, after, rfl, within⟩
  | label _ _ ih | used _ _ ih =>
    cases occurs with
    | later deeper =>
      obtain ⟨before, inner, after, rfl, within⟩ := ih deeper
      exact ⟨_ :: before, inner, after, rfl, within⟩
  | bound _ _ _ ih =>
    cases occurs with
    | later deeper =>
      obtain ⟨before, inner, after, rfl, within⟩ := ih deeper
      exact ⟨_ :: _ :: before, inner, after, rfl, within⟩
  | @scope _ _ _ _ first rest own _ ihInside ih =>
    cases occurs with
    | here => exact ⟨[], first, rest, rfl, own⟩
    | later deeper =>
      obtain ⟨before, inner, after, rfl, within⟩ := ih deeper
      exact ⟨first ++ before, inner, after, by simp only [List.append_assoc], within⟩
    | inside deeper =>
      obtain ⟨before, inner, after, rfl, within⟩ := ihInside (deeper.behind _)
      exact ⟨before, inner, after ++ rest, by simp only [List.append_assoc], within⟩

theorem param_bound {isArrow : Bool} {params : List String} {inside : List Mention}
    (h : Worded features ms ws) (occurs : Mention.Occurs (.scope isArrow params inside) ms)
    (present : name ∈ params) (kept : Mention.keeps features isArrow name = true) :
    ∃ before type behind after, ∃ others : List String, type ∈ typeWords ∧
      ws = before ++ type :: binding name :: (behind ++ after) ∧
      Worded features (others.map .bound ++ inside) behind := by
  obtain ⟨before, inner, after, rfl, within⟩ := h.scope_within occurs
  obtain ⟨front, type, behind, others, ok, rfl, later⟩ :=
    bound_among (List.mem_filter.mpr ⟨present, kept⟩) within
  refine ⟨before ++ front, type, behind, after, others, ok, ?_, later⟩
  simp only [List.append_assoc, List.cons_append]

end Worded

end Emission

end ScriptCpp
