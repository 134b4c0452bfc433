import Mathlib
import ScriptCpp.Proofs.Emission.Comparison
import ScriptCpp.Proofs.Emission.ElseChain
import ScriptCpp.Proofs.Emission.Settling

set_option autoImplicit false

namespace ScriptCpp

namespace Emission

-- What the emitter has a function for, apart from expressions.
inductive Part where
  | optional (e : Option Expr)
  | declared (name : String) (value : Option Expr)
  | start (s : Option Stmt)
  | stmt (s : Stmt)
  | stmts (body : List Stmt)
  | clauses (cases : List CaseClause)
  | fallback (body : Option (List Stmt))
  | handler (clause : Option CatchClause)
  | cleanup (body : Option (List Stmt))
  | fields (held : List FieldDecl)
  | methods (offered : List FunctionDecl)

namespace Part

def isEmpty : Part → Bool
  | .optional e => e.isNone
  | .start s => s.isNone
  | .stmts body => body.isEmpty
  | .clauses cases => cases.isEmpty
  | .fallback body => body.isNone
  | .cleanup body => body.isNone
  | .fields held => held.isEmpty
  | .methods offered => offered.isEmpty
  | .declared _ _ | .stmt _ | .handler _ => false

-- Whether the text stands inside a line.
def isInline : Part → Bool
  | .optional _ | .declared _ _ | .start _ => true
  | .stmt _ | .stmts _ | .clauses _ | .fallback _ | .handler _ | .cleanup _ => false
  | .fields _ | .methods _ => false

end Part

-- A text for each depth.
abbrev Draft := Nat → String

section Calls

variable (E : Expr → Draft → Prop)

def PieceOf (e : Expr) (p : Nat → Piece) : Prop := ∃ a, E e a ∧ p = fun depth => piece e (a depth)

inductive HeadOf (site : CallSite) : FormHead → (Nat → Piece) → Prop
  | none : HeadOf site .none fun _ => ⟨"", false⟩
  | callee {p : Nat → Piece} : PieceOf E site.callee p → HeadOf site .callee p
  | receiver {object : Expr} {p : Nat → Piece} : site.receiver? = some object → PieceOf E object p →
      HeadOf site .receiver p

variable {E} {E' : Expr → Draft → Prop}

theorem PieceOf.imp {e : Expr} {p : Nat → Piece} (written : PieceOf E e p)
    (weaker : ∀ a, E e a → E' e a) : PieceOf E' e p := by
  obtain ⟨a, text, same⟩ := written
  exact ⟨a, weaker a text, same⟩

theorem HeadOf.imp {site : CallSite} {kind : FormHead} {head : Nat → Piece}
    (text : HeadOf E site kind head) (weaker : ∀ e a, E e a → E' e a) : HeadOf E' site kind head := by
  cases text with
  | none => exact .none
  | callee own => exact .callee (own.imp (weaker _))
  | receiver called own => exact .receiver called (own.imp (weaker _))

end Calls

-- What a relation between expressions and their drafts has to satisfy at each node. `S` does the same
-- for the other parts, and `M` holds of the names, strings and numbers.
structure ExprLaws (features : Features) (M : Material → Prop) (E : Expr → Draft → Prop)
    (S : Part → Draft → Prop) : Prop where
  assign : ∀ {target value : Expr} {a b : Draft}, E target a → E value b →
    E (.assign target value) fun depth => a depth ++ " = " ++ b depth
  binary : ∀ (op : BinaryOp) {left right : Expr} {a b : Draft}, E left a → E right b →
    E (.binary op left right) fun depth => operand op.precedence false left (a depth) ++ " " ++
      op.symbol ++ " " ++ operand op.precedence true right (b depth)
  negate : ∀ {e : Expr} {a : Draft}, E e a → E (.negate e) fun depth => "(-" ++ group e (a depth) ++ ")"
  conditional : ∀ {test consequent alternate : Expr} {a b c : Draft}, E test a → E consequent b →
    E alternate c → E (.conditional test consequent alternate) fun depth =>
      "(" ++ a depth ++ " ? " ++ b depth ++ " : " ++ c depth ++ ")"
  plainCall : ∀ {callee : Expr} {args : List Expr} {a : Draft} {ps : List (Nat → Piece)},
    SpecialForm.find? features ⟨callee, args⟩ = none → E callee a → List.Forall₂ (PieceOf E) args ps →
      E (.call callee args) fun depth =>
        a depth ++ "(" ++ commas ((ps.map (· depth)).map Piece.text) ++ ")"
  formCall : ∀ {callee : Expr} {args : List Expr} {form : SpecialForm} {head : Nat → Piece}
    {ps : List (Nat → Piece)}, SpecialForm.find? features ⟨callee, args⟩ = some form →
      form.minArgs ≤ args.length → (∀ m ∈ callee.material, M m) →
      HeadOf E ⟨callee, args⟩ form.head head → List.Forall₂ (PieceOf E) (form.used args) ps →
      E (.call callee args) fun depth => form.write ⟨callee, args⟩ (head depth) (ps.map (· depth))
  member : ∀ {object : Expr} {name : String} {a : Draft}, M (.name name) → E object a →
    E (.member object name) fun depth => memberText features object name (a depth)
  index : ∀ {object key : Expr} {a b : Draft}, E object a → E key b →
    E (.index object key) fun depth => indexText features object (a depth) (b depth)
  server : ∀ {args : List Expr},
    E (.construct "Server" args) fun _ => "std::make_shared<httplib::Server>()"
  construct : ∀ {className : String} {args : List Expr} {ps : List (Nat → Piece)},
    className ≠ "Server" → M (.name className) → List.Forall₂ (PieceOf E) args ps →
      E (.construct className args) fun depth =>
        "std::make_shared<" ++ className ++ ">(" ++ commas ((ps.map (· depth)).map Piece.text) ++ ")"
  array : ∀ {elements : List Expr} {ps : List (Nat → Piece)}, List.Forall₂ (PieceOf E) elements ps →
    E (.array elements) fun depth =>
      "std::vector<" ++ elementType elements ++ ">\x7b" ++ commas ((ps.map (· depth)).map Piece.text) ++
        "\x7d"
  ident : ∀ {name : String}, M (.name name) → E (.ident name) fun _ => reference name
  number : ∀ {value : Binary64}, M (.numeral (some value)) → E (.number value) fun _ => value.text
  string : ∀ {raw : String}, M (.quoted raw) → E (.string raw) fun _ => "std::string(\"" ++ raw ++ "\")"
  this : E .this fun _ => "this"
  await : ∀ {promise : Expr} {a : Draft}, E promise a →
    E (.await promise) fun depth => "await_result(" ++ a depth ++ ")"
  arrowBlock : ∀ {params : List String} {body : List Stmt} {a : Draft},
    (∀ m ∈ params.map Material.name, M m) → S (.stmts body) a →
      E (.arrowBlock params body) fun depth => arrowText features depth params (a (depth + 1))
  arrowValue : ∀ {params : List String} {value : Expr} {a : Draft},
    (∀ m ∈ params.map Material.name, M m) → E value a →
      E (.arrowValue params value) fun depth =>
        arrowText features depth params (line (depth + 1) ("return " ++ a (depth + 1) ++ ";"))

structure StmtLaws (M : Material → Prop) (E : Expr → Draft → Prop) (S : Part → Draft → Prop) : Prop where
  empty : ∀ {p : Part}, p.isEmpty = true → S p fun _ => ""
  given : ∀ {e : Expr} {a : Draft}, E e a → S (.optional (some e)) a
  uninitialized : ∀ {name : String}, M (.name name) →
    S (.declared name none) fun _ => "int " ++ binding name
  initialized : ∀ {name : String} {e : Expr} {a : Draft}, M (.name name) → E e a →
    S (.declared name (some e)) fun depth => "auto " ++ binding name ++ " = " ++ a depth
  startDeclare : ∀ {name : String} {value : Option Expr} {a : Draft}, S (.declared name value) a →
    S (.start (some (.declare name value))) a
  startExpr : ∀ {e : Expr} {a : Draft}, E e a → S (.start (some (.expr e))) a
  declare : ∀ {name : String} {value : Option Expr} {a : Draft}, S (.declared name value) a →
    S (.stmt (.declare name value)) fun depth => line depth (a depth ++ ";")
  function : ∀ {name : String} {params : List String} {body : List Stmt} {isAsync : Bool} {a : Draft},
    M (.name name) → (∀ m ∈ params.map Material.name, M m) → S (.stmts body) a →
      S (.stmt (.function ⟨name, params, body, isAsync⟩)) fun depth =>
        line depth ("auto " ++ binding name ++ " = [&](" ++ parameters params ++ ") \x7b") ++
          a (depth + 1) ++ line depth "\x7d;"
  classDecl : ∀ {name : String} {fields : List FieldDecl} {methods : List FunctionDecl} {a b : Draft},
    M (.name name) → S (.fields fields) a → S (.methods methods) b →
      S (.stmt (.classDecl ⟨name, fields, methods⟩)) fun depth =>
        line depth ("struct " ++ name ++ " \x7b") ++ (a (depth + 1) ++ b (depth + 1)) ++ line depth "\x7d;"
  importFile : ∀ {path : String}, M (.quoted path) →
    S (.stmt (.importFile path)) fun depth => line depth ("// import \"" ++ path ++ "\"")
  bareReturn : S (.stmt (.ret none)) fun depth => line depth "return;"
  ret : ∀ {e : Expr} {a : Draft}, E e a →
    S (.stmt (.ret (some e))) fun depth => line depth ("return " ++ a depth ++ ";")
  branch : ∀ {test : Expr} {body : List Stmt} {a b : Draft}, E test a → S (.stmts body) b →
    S (.stmt (.branch test body none)) fun depth =>
      line depth ("if (" ++ a depth ++ ") \x7b") ++ b (depth + 1) ++ line depth "\x7d"
  branchElse : ∀ {test : Expr} {body rest : List Stmt} {a b c : Draft}, E test a → S (.stmts body) b →
    S (.stmts rest) c → S (.stmt (.branch test body (some rest))) fun depth =>
      line depth ("if (" ++ a depth ++ ") \x7b") ++ b (depth + 1) ++
        (line depth "\x7d else \x7b" ++ c (depth + 1) ++ line depth "\x7d")
  whileLoop : ∀ {test : Expr} {body : List Stmt} {a b : Draft}, E test a → S (.stmts body) b →
    S (.stmt (.whileLoop test body)) fun depth =>
      blockText depth ("while (" ++ a depth ++ ")") (b (depth + 1))
  forLoop : ∀ {init : Option Stmt} {test update : Option Expr} {body : List Stmt} {a b c k : Draft},
    S (.start init) a → S (.optional test) b → S (.optional update) c → S (.stmts body) k →
      S (.stmt (.forLoop init test update body)) fun depth =>
        blockText depth ("for (" ++ a depth ++ "; " ++ b depth ++ "; " ++ c depth ++ ")") (k (depth + 1))
  switch : ∀ {subject : Expr} {cases : List CaseClause} {fallback : Option (List Stmt)} {a b c : Draft},
    E subject a → S (.clauses cases) b → S (.fallback fallback) c →
      S (.stmt (.switch subject cases fallback)) fun depth =>
        blockText depth ("switch (" ++ a depth ++ ")") (b (depth + 1) ++ c (depth + 1))
  breakLoop : S (.stmt .breakLoop) fun depth => line depth "break;"
  continueLoop : S (.stmt .continueLoop) fun depth => line depth "continue;"
  attempt : ∀ {body : List Stmt} {handler : Option CatchClause} {cleanup : Option (List Stmt)}
    {a b c : Draft}, S (.stmts body) a → S (.handler handler) b → S (.cleanup cleanup) c →
      S (.stmt (.attempt body handler cleanup)) fun depth =>
        line depth "try \x7b" ++ a (depth + 1) ++ b depth ++ line depth "\x7d" ++ c depth
  expr : ∀ {e : Expr} {a : Draft}, E e a → S (.stmt (.expr e)) fun depth => line depth (a depth ++ ";")
  stmts : ∀ {s : Stmt} {rest : List Stmt} {a b : Draft}, S (.stmt s) a → S (.stmts rest) b →
    S (.stmts (s :: rest)) fun depth => a depth ++ b depth
  clauses : ∀ {test : Expr} {body : List Stmt} {rest : List CaseClause} {a b c : Draft}, E test a →
    S (.stmts body) b → S (.clauses rest) c → S (.clauses (⟨test, body⟩ :: rest)) fun depth =>
      blockText depth ("case " ++ a depth ++ ":") (b (depth + 1)) ++ c depth
  fallback : ∀ {body : List Stmt} {a : Draft}, S (.stmts body) a →
    S (.fallback (some body)) fun depth => blockText depth "default:" (a (depth + 1))
  rethrow : S (.handler none) fun depth =>
    line depth "\x7d catch (...) \x7b" ++ line (depth + 1) "throw;"
  catchAll : ∀ {body : List Stmt} {a : Draft}, S (.stmts body) a →
    S (.handler (some ⟨none, body⟩)) fun depth => line depth "\x7d catch (...) \x7b" ++ a (depth + 1)
  catchNamed : ∀ {param : String} {body : List Stmt} {a : Draft}, M (.name param) → S (.stmts body) a →
    S (.handler (some ⟨some param, body⟩)) fun depth =>
      line depth "\x7d catch (const std::exception& _e) \x7b" ++
        line (depth + 1) ("std::string " ++ binding param ++ " = _e.what();") ++ a (depth + 1)
  cleanup : ∀ {body : List Stmt} {a : Draft}, S (.stmts body) a →
    S (.cleanup (some body)) fun depth =>
      line depth "\x7b" ++ line (depth + 1) "// finally" ++ a (depth + 1) ++ line depth "\x7d"
  bareField : ∀ {name : String} {rest : List FieldDecl} {a : Draft}, M (.name name) →
    S (.fields rest) a → S (.fields (⟨name, none⟩ :: rest)) fun depth =>
      line depth ("int " ++ name ++ ";") ++ a depth
  field : ∀ {name : String} {value : Expr} {rest : List FieldDecl} {a b : Draft}, M (.name name) →
    (∀ m ∈ value.material, M m) → E value a → S (.fields rest) b →
      S (.fields (⟨name, some value⟩ :: rest)) fun depth =>
        line depth (fieldType value ++ " " ++ name ++ " = " ++ a depth ++ ";") ++ b depth
  methods : ∀ {name : String} {params : List String} {body : List Stmt} {isAsync : Bool}
    {rest : List FunctionDecl} {a b : Draft}, M (.name name) → (∀ m ∈ params.map Material.name, M m) →
      S (.stmts body) a → S (.methods rest) b →
        S (.methods (⟨name, params, body, isAsync⟩ :: rest)) fun depth =>
          blockText depth ("auto " ++ name ++ "(" ++ parameters params ++ ")") (a (depth + 1)) ++ b depth

-- The statements need less of an expression than the expressions around it may do.
structure Laws (features : Features) (M : Material → Prop) (E F : Expr → Draft → Prop)
    (S : Part → Draft → Prop) : Prop where
  exprs : ExprLaws features M E S
  stmts : StmtLaws M F S
  weaken : ∀ {e : Expr} {a : Draft}, E e a → F e a

abbrev AllOf (M : Material → Prop) (ms : List Material) : Prop := ∀ m ∈ ms, M m

section Walk

open Phrase

variable {f g : Features} {allowed : EmitError → Prop} {M : Material → Prop} {E F : Expr → Draft → Prop}
  {S : Part → Draft → Prop}

theorem piece_settles {e : Expr} (own : Settles f g allowed (fun _ => Scribe.expr e) (E e)) :
    Settles f g allowed (fun _ => piece e <$> Scribe.expr e) (PieceOf E e) :=
  own.map fun a holds => ⟨a, holds, rfl⟩

theorem pieces_settle {es : List Expr}
    (each : ∀ e ∈ es, Settles f g allowed (fun _ => Scribe.expr e) (E e)) :
    Settles f g allowed (fun _ => Scribe.inOrder (Scribe.pieces es)) fun items =>
      ∃ ps, List.Forall₂ (PieceOf E) es ps ∧ items = fun depth => ps.map (· depth) := by
  rw [Scribe.pieces_eq_map]
  exact .inOrder fun e present => piece_settles (each e present)

theorem commaList_settles {Q : Draft → Prop} {es : List Expr} {next : Nat → String → Scribe String}
    (each : ∀ e ∈ es, Settles f g allowed (fun _ => Scribe.expr e) (E e))
    (later : ∀ ps, List.Forall₂ (PieceOf E) es ps →
      Settles f g allowed (fun depth => next depth (commas ((ps.map (· depth)).map Piece.text))) Q) :
    Settles f g allowed (fun depth => Scribe.commaList (Scribe.pieces es) >>= next depth) Q := by
  simp only [Scribe.commaList, bind_assoc, pure_bind]
  refine (pieces_settle each).bind ?_
  rintro _ ⟨ps, written, rfl⟩
  exact later ps written

-- The arguments that a form reads are there, so it reads those and no others.
theorem gather_settles {site : CallSite} {form : SpecialForm}
    (enough : ∀ reading ∈ form.reads, reading.least ≤ site.args.length)
    (each : ∀ e ∈ site.args, Settles f g allowed (fun _ => Scribe.expr e) (E e)) :
    Settles f g allowed (fun _ => Scribe.gather (Scribe.pieces site.args) form.reads) fun items =>
      ∃ ps, List.Forall₂ (PieceOf E) (form.used site.args) ps ∧ items = fun depth => ps.map (· depth) := by
  have read : Scribe.gather (Scribe.pieces site.args) form.reads =
      Scribe.inOrder (Scribe.pieces (form.used site.args)) := by
    rw [Scribe.gather_eq (by simpa [Scribe.pieces_eq_map] using enough), Scribe.pieces_eq_map,
      Scribe.pieces_eq_map, ← SpecialForm.used_map]
    rfl
  rw [read]
  exact pieces_settle fun e present => each e (SpecialForm.mem_of_mem_used present)

theorem receiver_settles {site : CallSite} {object : Expr} (called : site.receiver? = some object)
    (own : Settles f g allowed (fun _ => Scribe.expr object) (E object)) :
    Settles f g allowed (fun _ => Scribe.receiver site.callee) (HeadOf E site .receiver) := by
  obtain ⟨callee, args⟩ := site
  cases callee with
  | member inner name =>
    obtain rfl : inner = object := Option.some.inj called
    exact (piece_settles own).imp fun _ text => .receiver called text
  | index inner key =>
    obtain rfl : inner = object := Option.some.inj called
    exact (piece_settles own).imp fun _ text => .receiver called text
  | _ => cases called

theorem head_settles {site : CallSite} (form : SpecialForm)
    (received : form.head = .receiver → ∃ object, site.receiver? = some object)
    (own : Settles f g allowed (fun _ => Scribe.expr site.callee) (E site.callee))
    (receiver : ∀ object, site.receiver? = some object →
      Settles f g allowed (fun _ => Scribe.expr object) (E object)) :
    Settles f g allowed (fun _ => Scribe.head form (piece site.callee <$> Scribe.expr site.callee)
      (Scribe.receiver site.callee)) (HeadOf E site form.head) := by
  unfold Scribe.head
  cases kind : form.head with
  | none => exact .pure .none
  | callee => exact (piece_settles own).imp fun _ text => .callee text
  | receiver =>
    obtain ⟨object, called⟩ := received kind
    exact receiver_settles called (receiver object called)

theorem call_settles (laws : ExprLaws f M E S) {callee : Expr} {args : List Expr}
    (steady : Steady f g allowed (.expr (.call callee args))) (sound : AllOf M callee.material)
    (own : Settles f g allowed (fun _ => Scribe.expr callee) (E callee))
    (receiver : ∀ object, (⟨callee, args⟩ : CallSite).receiver? = some object →
      Settles f g allowed (fun _ => Scribe.expr object) (E object))
    (each : ∀ e ∈ args, Settles f g allowed (fun _ => Scribe.expr e) (E e)) :
    Settles f g allowed (fun _ => Scribe.expr (.call callee args)) (E (.call callee args)) := by
  refine .asking (by rw [steady.call rfl]) ?_
  cases found : SpecialForm.find? f ⟨callee, args⟩ with
  | none =>
    refine (piece_settles own).bind ?_
    rintro _ ⟨a, text, rfl⟩
    exact commaList_settles each fun ps written => .pure (laws.plainCall found text written)
  | some form =>
    simp only
    split
    · next few => exact .fail (steady.refused (.call found few))
    · next enough =>
      obtain ⟨readable, received⟩ := SpecialForm.supplied_of_find? found (Nat.not_lt.mp enough)
      refine (head_settles form received own receiver).bind fun head text =>
        (gather_settles readable each).bind ?_
      rintro _ ⟨ps, written, rfl⟩
      exact .pure (laws.formCall found (Nat.not_lt.mp enough) sound text written)

mutual

theorem expr_settles (laws : Laws f M E F S) : (e : Expr) → AllSteady f g allowed [.expr e] →
    AllOf M e.material → Settles f g allowed (fun _ => Scribe.expr e) (E e)
  | .assign target value, steady, sound => by
    obtain ⟨left, right⟩ := each_cons.mp steady.inner
    obtain ⟨before, behind⟩ := List.forall_mem_append.mp sound
    exact (expr_settles laws target left before).bind fun _ first =>
      (expr_settles laws value right behind).bind fun _ second => .pure (laws.exprs.assign first second)
  | .binary op left right, steady, sound => by
    obtain ⟨first, second⟩ := each_cons.mp steady.inner
    obtain ⟨before, signed⟩ := List.forall_mem_append.mp sound
    exact (expr_settles laws left first before).bind fun _ l =>
      (expr_settles laws right second (List.forall_mem_cons.mp signed).2).bind fun _ r =>
        .pure (laws.exprs.binary op l r)
  | .negate e, steady, sound =>
    (expr_settles laws e steady.inner (List.forall_mem_cons.mp sound).2).bind fun _ text =>
      .pure (laws.exprs.negate text)
  | .conditional test consequent alternate, steady, sound => by
    obtain ⟨asked, either⟩ := each_cons.mp steady.inner
    obtain ⟨yes, no⟩ := each_cons.mp either
    obtain ⟨first, others⟩ := List.forall_mem_append.mp sound
    obtain ⟨second, third⟩ := List.forall_mem_append.mp others
    exact (expr_settles laws test asked first).bind fun _ t =>
      (expr_settles laws consequent yes second).bind fun _ c =>
        (expr_settles laws alternate no third).bind fun _ a => .pure (laws.exprs.conditional t c a)
  | .call callee args, steady, sound => by
    obtain ⟨own, others⟩ := each_cons.mp steady.inner
    obtain ⟨called, given⟩ := List.forall_mem_append.mp sound
    exact call_settles laws.exprs steady.own called (expr_settles laws callee own called)
      (object_settles laws callee own called args) (exprs_settle laws args others given)
  | .member object name, steady, sound => by
    obtain ⟨inner, named⟩ := List.forall_mem_append.mp sound
    refine (expr_settles laws object steady.inner inner).bind fun _ text =>
      .asking (by rw [steady.own.member rfl]) (.pure ?_)
    exact laws.exprs.member (named _ List.mem_cons_self) text
  | .index object key, steady, sound => by
    obtain ⟨held, chosen⟩ := each_cons.mp steady.inner
    obtain ⟨inner, place⟩ := List.forall_mem_append.mp sound
    exact (expr_settles laws object held inner).bind fun _ text =>
      (expr_settles laws key chosen place).bind fun _ behind =>
        .asking (by rw [steady.own.index rfl]) (.pure (laws.exprs.index text behind))
  | .construct className args, steady, sound => by
    obtain ⟨named, given⟩ := List.forall_mem_cons.mp sound
    have each := exprs_settle laws args steady.inner given
    unfold Scribe.expr
    split
    · next server => exact .pure (server ▸ laws.exprs.server)
    · next other =>
      exact commaList_settles each fun ps written => .pure (laws.exprs.construct other named written)
  | .array elements, steady, sound =>
    commaList_settles (exprs_settle laws elements steady.inner sound) fun _ written =>
      .pure (laws.exprs.array written)
  | .ident _, _, sound => .pure (laws.exprs.ident (sound _ List.mem_cons_self))
  | .number _, _, sound => .pure (laws.exprs.number (sound _ List.mem_cons_self))
  | .string _, _, sound => .pure (laws.exprs.string (sound _ List.mem_cons_self))
  | .this, _, _ => .pure laws.exprs.this
  | .await promise, steady, sound =>
    (expr_settles laws promise steady.inner sound).bind fun _ text => .pure (laws.exprs.await text)
  | .arrowBlock params body, steady, sound => by
    obtain ⟨named, inner⟩ := List.forall_mem_append.mp sound
    obtain ⟨listed, passed⟩ := steady.own.arrow rfl rfl
    exact .arrow listed passed (stmts_settle laws body steady.inner inner) fun _ text =>
      laws.exprs.arrowBlock named text
  | .arrowValue params value, steady, sound => by
    obtain ⟨named, inner⟩ := List.forall_mem_append.mp sound
    obtain ⟨listed, passed⟩ := steady.own.arrow rfl rfl
    have returned : Settles f g allowed
        (fun _ => Scribe.expr value >>= fun text => Scribe.putLine ("return " ++ text ++ ";"))
        fun text => ∃ a, E value a ∧ text = fun depth => line depth ("return " ++ a depth ++ ";") :=
      (expr_settles laws value steady.inner inner).bind fun a text => .putLine ⟨a, text, rfl⟩
    refine .arrow listed passed returned ?_
    rintro _ ⟨a, text, rfl⟩
    exact laws.exprs.arrowValue named text
termination_by structural e => e

theorem object_settles (laws : Laws f M E F S) (e : Expr) (steady : AllSteady f g allowed [.expr e])
    (sound : AllOf M e.material) (args : List Expr) :
    ∀ object, (⟨e, args⟩ : CallSite).receiver? = some object →
      Settles f g allowed (fun _ => Scribe.expr object) (E object) := by
  intro object found
  cases e with
  | member inner name =>
    have same : inner = object := Option.some.inj found
    exact same ▸ expr_settles laws inner steady.inner (List.forall_mem_append.mp sound).1
  | index inner key =>
    have same : inner = object := Option.some.inj found
    exact same ▸ expr_settles laws inner (each_cons.mp steady.inner).1 (List.forall_mem_append.mp sound).1
  | _ => cases found
termination_by structural e

theorem exprs_settle (laws : Laws f M E F S) : (es : List Expr) →
    AllSteady f g allowed (es.map .expr) → AllOf M (Expr.materialEach es) →
      ∀ e ∈ es, Settles f g allowed (fun _ => Scribe.expr e) (E e)
  | [], _, _ => List.forall_mem_nil _
  | e :: rest, steady, sound => by
    obtain ⟨here, later⟩ := each_cons.mp steady
    obtain ⟨own, others⟩ := List.forall_mem_append.mp sound
    exact List.forall_mem_cons.mpr ⟨expr_settles laws e here own, exprs_settle laws rest later others⟩
termination_by structural es => es

theorem optional_settles (laws : Laws f M E F S) : (e : Option Expr) →
    AllSteady f g allowed (e.toList.map .expr) → AllOf M (Expr.materialIfAny e) →
      Settles f g allowed (fun _ => Scribe.optional e) (S (.optional e))
  | none, _, _ => .pure (laws.stmts.empty rfl)
  | some e, steady, sound =>
    (expr_settles laws e steady sound).imp fun _ text => laws.stmts.given (laws.weaken text)
termination_by structural e => e

theorem declared_settles (laws : Laws f M E F S) {name : String} (named : M (.name name)) :
    (value : Option Expr) → AllSteady f g allowed (value.toList.map .expr) →
      AllOf M (Expr.materialIfAny value) →
        Settles f g allowed (fun _ => Scribe.declared name value) (S (.declared name value))
  | none, _, _ => .pure (laws.stmts.uninitialized named)
  | some e, steady, sound =>
    (expr_settles laws e steady sound).bind fun _ text =>
      .pure (laws.stmts.initialized named (laws.weaken text))
termination_by structural value => value

theorem stmt_settles (laws : Laws f M E F S) : (s : Stmt) → AllSteady f g allowed [.stmt s] →
    AllOf M s.material → Settles f g allowed (fun _ => Scribe.stmt s) (S (.stmt s))
  | .declare name value, steady, sound => by
    obtain ⟨named, given⟩ := List.forall_mem_cons.mp sound
    exact (declared_settles laws named value steady.inner given).bind fun _ text =>
      .putLine (laws.stmts.declare text)
  | .function ⟨name, params, body, isAsync⟩, steady, sound => by
    obtain ⟨named, others⟩ := List.forall_mem_cons.mp sound
    obtain ⟨listed, inner⟩ := List.forall_mem_append.mp others
    exact .bindLine ((stmts_settle laws body steady.inner inner).bindNested fun _ text =>
      .bindLine (.pure (laws.stmts.function named listed text)))
  | .classDecl ⟨name, held, offered⟩, steady, sound => by
    obtain ⟨named, members⟩ := List.forall_mem_cons.mp sound
    obtain ⟨holding, offering⟩ := List.forall_mem_append.mp members
    obtain ⟨first, second⟩ := each_append.mp steady.inner
    have inside : Settles f g allowed
        (fun _ => Scribe.fields held >>= fun before => Scribe.methods offered >>= fun behind =>
          Pure.pure (before ++ behind))
        fun text => ∃ a b, S (.fields held) a ∧ S (.methods offered) b ∧ text = fun depth => a depth ++ b depth :=
      (fields_settle laws held first holding).bind fun a before =>
        (methods_settle laws offered second offering).bind fun b behind => .pure ⟨a, b, before, behind, rfl⟩
    refine .bindLine (inside.bindNested ?_)
    rintro _ ⟨a, b, before, behind, rfl⟩
    exact .bindLine (.pure (laws.stmts.classDecl named before behind))
  | .importFile _, _, sound => .putLine (laws.stmts.importFile (sound _ List.mem_cons_self))
  | .ret none, _, _ => .putLine laws.stmts.bareReturn
  | .ret (some value), steady, sound =>
    (expr_settles laws value steady.inner sound).bind fun _ text =>
      .putLine (laws.stmts.ret (laws.weaken text))
  | .branch test body none, steady, sound => by
    obtain ⟨asked, arms⟩ := each_cons.mp steady.inner
    obtain ⟨yes, -⟩ := each_append.mp (List.map_append ▸ arms)
    obtain ⟨first, others⟩ := List.forall_mem_append.mp sound
    obtain ⟨second, -⟩ := List.forall_mem_append.mp others
    have tested := expr_settles laws test asked first
    have inner := stmts_settle laws body yes second
    rw [Scribe.stmt_branch]
    simp only [Scribe.branch, Scribe.opening, Scribe.elseBlock, bind_assoc, pure_bind]
    exact tested.bind fun _ t => .bindLine (inner.bindNested fun _ b =>
      .bindLine (.pure (laws.stmts.branch (laws.weaken t) b)))
  | .branch test body (some rest), steady, sound => by
    obtain ⟨asked, arms⟩ := each_cons.mp steady.inner
    obtain ⟨yes, no⟩ := each_append.mp (List.map_append ▸ arms)
    obtain ⟨first, others⟩ := List.forall_mem_append.mp sound
    obtain ⟨second, third⟩ := List.forall_mem_append.mp others
    have tested := expr_settles laws test asked first
    have inner := stmts_settle laws body yes second
    have last := stmts_settle laws rest no third
    rw [Scribe.stmt_branch]
    simp only [Scribe.branch, Scribe.opening, Scribe.elseBlock, bind_assoc, pure_bind]
    exact tested.bind fun _ t => .bindLine (inner.bindNested fun _ b =>
      .bindLine (last.bindNested fun _ r => .bindLine
        (.pure (laws.stmts.branchElse (laws.weaken t) b r))))
  | .whileLoop test body, steady, sound => by
    obtain ⟨asked, inner⟩ := each_cons.mp steady.inner
    obtain ⟨first, second⟩ := List.forall_mem_append.mp sound
    exact (expr_settles laws test asked first).bind fun _ t =>
      (stmts_settle laws body inner second).braced fun _ b => laws.stmts.whileLoop (laws.weaken t) b
  | .forLoop init test update body, steady, sound => by
    obtain ⟨head, inner⟩ := each_append.mp steady.inner
    obtain ⟨before, clauses⟩ := each_append.mp head
    obtain ⟨asked, stepped⟩ := each_append.mp (List.map_append ▸ clauses)
    obtain ⟨first, others⟩ := List.forall_mem_append.mp sound
    obtain ⟨second, more⟩ := List.forall_mem_append.mp others
    obtain ⟨third, fourth⟩ := List.forall_mem_append.mp more
    exact (start_settles laws init steady.own before first).bind fun _ i =>
      (optional_settles laws test asked second).bind fun _ t =>
        (optional_settles laws update stepped third).bind fun _ u =>
          (stmts_settle laws body inner fourth).braced fun _ b => laws.stmts.forLoop i t u b
  | .switch subject cases fallback, steady, sound => by
    obtain ⟨asked, others⟩ := each_cons.mp steady.inner
    obtain ⟨listed, last⟩ := each_append.mp others
    obtain ⟨first, more⟩ := List.forall_mem_append.mp sound
    obtain ⟨second, third⟩ := List.forall_mem_append.mp more
    have inside : Settles f g allowed
        (fun _ => Scribe.clauses cases >>= fun before => Scribe.defaultClause fallback >>= fun behind =>
          Pure.pure (before ++ behind))
        fun text => ∃ a b, S (.clauses cases) a ∧ S (.fallback fallback) b ∧
          text = fun depth => a depth ++ b depth :=
      (clauses_settle laws cases listed second).bind fun a before =>
        (fallback_settles laws fallback last third).bind fun b behind => .pure ⟨a, b, before, behind, rfl⟩
    refine (expr_settles laws subject asked first).bind fun _ t => inside.braced ?_
    rintro _ ⟨a, b, before, behind, rfl⟩
    exact laws.stmts.switch (laws.weaken t) before behind
  | .breakLoop, _, _ => .putLine laws.stmts.breakLoop
  | .continueLoop, _, _ => .putLine laws.stmts.continueLoop
  | .attempt body handler cleanup, steady, sound => by
    have inner := steady.inner
    simp only [Phrase.children, Stmt.children, List.map_append, each_append] at inner
    obtain ⟨⟨tried, caught⟩, last⟩ := inner
    obtain ⟨first, others⟩ := List.forall_mem_append.mp sound
    obtain ⟨second, third⟩ := List.forall_mem_append.mp others
    exact .bindLine ((stmts_settle laws body tried first).bindNested fun _ b =>
      (handler_settles laws handler caught second).bind fun _ h => .bindLine
        ((cleanup_settles laws cleanup last third).bind fun _ c => .pure (laws.stmts.attempt b h c)))
  | .expr value, steady, sound =>
    (expr_settles laws value steady.inner sound).bind fun _ text =>
      .putLine (laws.stmts.expr (laws.weaken text))
termination_by structural s => s

theorem start_settles (laws : Laws f M E F S) : (init : Option Stmt) →
    {test update : Option Expr} → {body : List Stmt} →
      Steady f g allowed (.stmt (.forLoop init test update body)) →
      AllSteady f g allowed (init.toList.map .stmt) → AllOf M (Stmt.materialOfStart init) →
        Settles f g allowed (fun _ => Scribe.start init) (S (.start init))
  | none, _, _, _, _, _, _ => .pure (laws.stmts.empty rfl)
  | some (.declare name value), _, _, _, _, steady, sound => by
    obtain ⟨named, given⟩ := List.forall_mem_cons.mp sound
    exact (declared_settles laws named value steady.inner given).imp fun _ text =>
      laws.stmts.startDeclare text
  | some (.expr e), _, _, _, _, steady, sound =>
    (expr_settles laws e steady.inner sound).imp fun _ text => laws.stmts.startExpr (laws.weaken text)
  | some (.function _), _, _, _, own, _, _ => .fail (own.refused (.loop rfl))
  | some (.classDecl _), _, _, _, own, _, _ => .fail (own.refused (.loop rfl))
  | some (.importFile _), _, _, _, own, _, _ => .fail (own.refused (.loop rfl))
  | some (.ret _), _, _, _, own, _, _ => .fail (own.refused (.loop rfl))
  | some (.branch _ _ _), _, _, _, own, _, _ => .fail (own.refused (.loop rfl))
  | some (.whileLoop _ _), _, _, _, own, _, _ => .fail (own.refused (.loop rfl))
  | some (.forLoop _ _ _ _), _, _, _, own, _, _ => .fail (own.refused (.loop rfl))
  | some (.switch _ _ _), _, _, _, own, _, _ => .fail (own.refused (.loop rfl))
  | some .breakLoop, _, _, _, own, _, _ => .fail (own.refused (.loop rfl))
  | some .continueLoop, _, _, _, own, _, _ => .fail (own.refused (.loop rfl))
  | some (.attempt _ _ _), _, _, _, own, _, _ => .fail (own.refused (.loop rfl))
termination_by structural init => init

theorem stmts_settle (laws : Laws f M E F S) : (body : List Stmt) →
    AllSteady f g allowed (body.map .stmt) → AllOf M (Stmt.materialEach body) →
      Settles f g allowed (fun _ => Scribe.stmts body) (S (.stmts body))
  | [], _, _ => .pure (laws.stmts.empty rfl)
  | s :: rest, steady, sound => by
    obtain ⟨here, later⟩ := each_cons.mp steady
    obtain ⟨own, others⟩ := List.forall_mem_append.mp sound
    exact (stmt_settles laws s here own).bind fun _ first =>
      (stmts_settle laws rest later others).bind fun _ second => .pure (laws.stmts.stmts first second)
termination_by structural body => body

theorem clauses_settle (laws : Laws f M E F S) : (cases : List CaseClause) →
    AllSteady f g allowed (cases.flatMap CaseClause.children) → AllOf M (CaseClause.materialEach cases) →
      Settles f g allowed (fun _ => Scribe.clauses cases) (S (.clauses cases))
  | [], _, _ => .pure (laws.stmts.empty rfl)
  | ⟨test, body⟩ :: rest, steady, sound => by
    obtain ⟨here, later⟩ := each_append.mp steady
    obtain ⟨asked, inner⟩ := each_cons.mp here
    obtain ⟨own, others⟩ := List.forall_mem_append.mp sound
    obtain ⟨first, second⟩ := List.forall_mem_append.mp own
    exact (expr_settles laws test asked first).bind fun _ t =>
      (stmts_settle laws body inner second).bindBraced fun _ b =>
        (clauses_settle laws rest later others).bind fun _ r =>
          .pure (laws.stmts.clauses (laws.weaken t) b r)
termination_by structural cases => cases

theorem fallback_settles (laws : Laws f M E F S) : (fallback : Option (List Stmt)) →
    AllSteady f g allowed ((fallback.getD []).map .stmt) → AllOf M (Stmt.materialIfAny fallback) →
      Settles f g allowed (fun _ => Scribe.defaultClause fallback) (S (.fallback fallback))
  | none, _, _ => .pure (laws.stmts.empty rfl)
  | some body, steady, sound =>
    (stmts_settle laws body steady sound).braced fun _ text => laws.stmts.fallback text
termination_by structural fallback => fallback

theorem handler_settles (laws : Laws f M E F S) : (handler : Option CatchClause) →
    AllSteady f g allowed (((handler.map CatchClause.body).getD []).map .stmt) →
      AllOf M (CatchClause.materialIfAny handler) →
        Settles f g allowed (fun _ => Scribe.catchClause handler) (S (.handler handler))
  | none, _, _ => by
    have inside : Settles f g allowed (fun _ => Scribe.putLine "throw;") (· = fun depth => line depth "throw;") :=
      .putLine rfl
    refine .bindLine (inside.bindNested ?_)
    rintro _ rfl
    exact .pure laws.stmts.rethrow
  | some ⟨none, body⟩, steady, sound =>
    .bindLine ((stmts_settle laws body steady sound).bindNested fun _ text =>
      .pure (laws.stmts.catchAll text))
  | some ⟨some param, body⟩, steady, sound => by
    obtain ⟨named, inner⟩ : M (.name param) ∧ AllOf M (Stmt.materialEach body) :=
      List.forall_mem_cons.mp sound
    have bound : Settles f g allowed
        (fun _ => Scribe.putLine ("std::string " ++ binding param ++ " = _e.what();"))
        (· = fun depth => line depth ("std::string " ++ binding param ++ " = _e.what();")) := .putLine rfl
    refine .bindLine (bound.bindNested ?_)
    rintro _ rfl
    exact (stmts_settle laws body steady inner).bindNested fun _ text =>
      .pure (laws.stmts.catchNamed named text)
termination_by structural handler => handler

theorem cleanup_settles (laws : Laws f M E F S) : (cleanup : Option (List Stmt)) →
    AllSteady f g allowed ((cleanup.getD []).map .stmt) → AllOf M (Stmt.materialIfAny cleanup) →
      Settles f g allowed (fun _ => Scribe.finallyBlock cleanup) (S (.cleanup cleanup))
  | none, _, _ => .pure (laws.stmts.empty rfl)
  | some body, steady, sound => by
    have mark : Settles f g allowed (fun _ => Scribe.putLine "// finally")
        (· = fun depth => line depth "// finally") := .putLine rfl
    refine .bindLine (mark.bindNested ?_)
    rintro _ rfl
    exact (stmts_settle laws body steady sound).bindNested fun _ text =>
      .bindLine (.pure (laws.stmts.cleanup text))
termination_by structural cleanup => cleanup

theorem fields_settle (laws : Laws f M E F S) : (fields : List FieldDecl) →
    AllSteady f g allowed (fields.flatMap FieldDecl.children) → AllOf M (FieldDecl.materialEach fields) →
      Settles f g allowed (fun _ => Scribe.fields fields) (S (.fields fields))
  | [], _, _ => .pure (laws.stmts.empty rfl)
  | ⟨name, none⟩ :: rest, steady, sound => by
    obtain ⟨named, others⟩ := List.forall_mem_cons.mp sound
    exact .bindLine ((fields_settle laws rest steady others).bind fun _ later =>
      .pure (laws.stmts.bareField named later))
  | ⟨name, some value⟩ :: rest, steady, sound => by
    obtain ⟨here, later⟩ := each_cons.mp steady
    obtain ⟨own, others⟩ := List.forall_mem_append.mp sound
    obtain ⟨named, given⟩ := List.forall_mem_cons.mp own
    exact (expr_settles laws value here given).bind fun _ text => .bindLine
      ((fields_settle laws rest later others).bind fun _ behind =>
        .pure (laws.stmts.field named given (laws.weaken text) behind))
termination_by structural fields => fields

theorem methods_settle (laws : Laws f M E F S) : (methods : List FunctionDecl) →
    AllSteady f g allowed (methods.flatMap FunctionDecl.children) →
      AllOf M (FunctionDecl.materialEach methods) →
        Settles f g allowed (fun _ => Scribe.methods methods) (S (.methods methods))
  | [], _, _ => .pure (laws.stmts.empty rfl)
  | ⟨name, params, body, isAsync⟩ :: rest, steady, sound => by
    obtain ⟨here, later⟩ := each_append.mp steady
    obtain ⟨own, others⟩ := List.forall_mem_append.mp sound
    obtain ⟨named, inside⟩ := List.forall_mem_cons.mp own
    obtain ⟨listed, inner⟩ := List.forall_mem_append.mp inside
    exact (stmts_settle laws body here inner).bindBraced fun _ text =>
      (methods_settle laws rest later others).bind fun _ behind =>
        .pure (laws.stmts.methods named listed text behind)
termination_by structural methods => methods

end

end Walk

end Emission

end ScriptCpp
