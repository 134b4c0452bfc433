import Mathlib
import ScriptCpp.Proofs.Lexing.Layout

set_option autoImplicit false

namespace ScriptCpp

/-- How tightly scripts bind an operator. All comparisons bind alike. -/
def BinaryOp.level : BinaryOp → Nat
  | .or => 0
  | .and => 1
  | .eq | .ne | .lt | .gt | .le | .ge => 2
  | .add | .sub => 3
  | .mul | .div | .mod => 4

structure Row where
  first : String
  rest : List (BinaryOp × String)
deriving DecidableEq, Repr

namespace Row

def names (row : Row) : List String := row.first :: row.rest.map Prod.snd

def join (op : BinaryOp) (left right : Row) : Row :=
  ⟨left.first, left.rest ++ (op, right.first) :: right.rest⟩

def items (row : Row) : List Item :=
  .name row.first :: row.rest.flatMap fun part => [.sign part.1.sign, .name part.2]

def contents (row : Row) : List (Token.Kind × String) :=
  (.identifier, row.first) ::
    (row.rest.flatMap fun part =>
      [(.symbol part.1.sign, part.1.symbol), (.identifier, part.2)]) ++
    [(.symbol .semicolon, ";")]

def chars (row : Row) : List Char :=
  row.first.toList ++
    (row.rest.flatMap fun part => ' ' :: part.1.symbol.toList ++ ' ' :: part.2.toList) ++ [';']

end Row

namespace Expr

/-- The names and operators of a tree that has nothing else, from left to right. -/
def row? : Expr → Option Row
  | .ident name => some ⟨name, []⟩
  | .binary op left right =>
      left.row?.bind fun before => right.row?.map fun behind => before.join op behind
  | _ => none

def root? : Expr → Option BinaryOp
  | .binary op _ _ => some op
  | _ => none

/-- Under every operator the left part is joined at its level or above, and the right part above. -/
def layered : Expr → Bool
  | .binary op left right =>
      left.root?.all (op.level ≤ ·.level) && right.root?.all (op.level < ·.level) &&
        left.layered && right.layered
  | _ => true

/-- Puts one more operand behind a tree, as far down on the right as its operator binds tighter. -/
def attach (e : Expr) (op : BinaryOp) (name : String) : Expr :=
  match e with
  | .binary above left right =>
      if above.level < op.level then .binary above left (right.attach op name)
      else .binary op (.binary above left right) (.ident name)
  | _ => .binary op e (.ident name)

variable {e left right : Expr} {op : BinaryOp} {row : Row} {name : String}

theorem row?_binary (spelled : (Expr.binary op left right).row? = some row) :
    ∃ before behind, left.row? = some before ∧ right.row? = some behind ∧
      row = before.join op behind := by
  obtain ⟨before, spelledLeft, joined⟩ := Option.bind_eq_some_iff.mp spelled
  obtain ⟨behind, spelledRight, same⟩ := Option.map_eq_some_iff.mp joined
  exact ⟨before, behind, spelledLeft, spelledRight, same.symm⟩

theorem row?_join {before behind : Row} (spelledLeft : left.row? = some before)
    (spelledRight : right.row? = some behind) :
    (Expr.binary op left right).row? = some (before.join op behind) := by
  rw [row?, spelledLeft, spelledRight]
  rfl

theorem layered_binary : (Expr.binary op left right).layered = true ↔
    (∀ o, left.root? = some o → op.level ≤ o.level) ∧
      (∀ o, right.root? = some o → op.level < o.level) ∧
        left.layered = true ∧ right.layered = true := by
  simp [layered, Option.all_eq_true, and_assoc]

theorem root?_eq_some (found : e.root? = some op) : ∃ left right, e = .binary op left right := by
  cases e with
  | binary _ left right =>
    cases found
    exact ⟨left, right, rfl⟩
  | _ => cases found

theorem root?_attach (root : BinaryOp) (found : (e.attach op name).root? = some root) :
    root = op ∨ e.root? = some root := by
  unfold attach at found
  split at found
  · split at found
    · exact .inr found
    · exact .inl (Option.some.inj found).symm
  · exact .inl (Option.some.inj found).symm

theorem layered_attach (layers : e.layered = true) : (e.attach op name).layered = true := by
  fun_induction attach e op name with
  | case1 above left right tighter ih =>
    obtain ⟨leftRoot, rightRoot, leftLayers, rightLayers⟩ := layered_binary.mp layers
    refine layered_binary.mpr ⟨leftRoot, fun root found => ?_, leftLayers, ih rightLayers⟩
    rcases root?_attach root found with rfl | kept
    · exact tighter
    · exact rightRoot root kept
  | case2 above left right looser =>
    refine layered_binary.mpr ⟨?_, by simp [root?], layers, rfl⟩
    rintro _ ⟨⟩
    exact Nat.le_of_not_lt looser
  | case3 e other =>
    refine layered_binary.mpr ⟨fun root found => ?_, by simp [root?], layers, rfl⟩
    obtain ⟨left, right, same⟩ := root?_eq_some found
    exact (other root left right same).elim

theorem row?_attach (spelled : e.row? = some row) :
    (e.attach op name).row? = some (row.join op ⟨name, []⟩) := by
  fun_induction attach e op name generalizing row with
  | case1 above left right tighter ih =>
    obtain ⟨before, behind, spelledLeft, spelledRight, rfl⟩ := row?_binary spelled
    rw [row?_join spelledLeft (ih spelledRight)]
    simp [Row.join]
  | case2 | case3 => exact row?_join spelled rfl

end Expr

def Row.tree (row : Row) : Expr :=
  row.rest.foldl (fun e part => e.attach part.1 part.2) (.ident row.first)

theorem Row.tree_layered (row : Row) : row.tree.row? = some row ∧ row.tree.layered = true := by
  have run : ∀ (rest : List (BinaryOp × String)) (e : Expr) (before : Row),
      e.row? = some before → e.layered = true →
        (rest.foldl (fun e part => e.attach part.1 part.2) e).row? =
            some ⟨before.first, before.rest ++ rest⟩ ∧
          (rest.foldl (fun e part => e.attach part.1 part.2) e).layered = true := by
    intro rest
    induction rest with
    | nil =>
      intro e before spelled layers
      simpa using ⟨spelled, layers⟩
    | cons part rest ih =>
      intro e before spelled layers
      have read := ih (e.attach part.1 part.2) _ (Expr.row?_attach spelled)
        (Expr.layered_attach layers)
      simpa [Row.join] using read
  exact run row.rest (.ident row.first) ⟨row.first, []⟩ rfl rfl

namespace Parser

variable {inner : Nested} {e : Expr} {row : Row} {k : Nat}

theorem level_lt (op : BinaryOp) : op.level < operators.length := by
  cases op <;> decide

theorem op_known (op : BinaryOp) (op? : Symbol → Option BinaryOp)
    (place : operators[op.level]? = some op?) : op? op.sign = some op := by
  cases op <;> cases place <;> rfl

theorem op_unknown (op : BinaryOp) :
    ∀ op? ∈ operators.drop (op.level + 1), op? op.sign = none := by
  cases op <;> decide

theorem items_join (op : BinaryOp) (before behind : Row) :
    (before.join op behind).items = before.items ++ .sign op.sign :: behind.items := by
  simp [Row.join, Row.items]

theorem unary_name (name : String) :
    Reads (unaryOf inner) [.name name] (.ident name) Token.Kind.endsAccess True := by
  have leaf : Reads (primary inner) [.name name] (.ident name) anything True :=
    Level.primary_leaf (e := .ident name) rfl
  refine (Level.unary_primary leaf ?_).restrict fun _ ends => ⟨trivial, ends⟩
  exact ⟨_, _, rfl, fun t shows => by simp [shows.1]⟩

-- The tree comes first and whatever the loop makes of it comes behind, so that an operator at the
-- level of the chain can be moved from the tree to the loop.
theorem leftChain_layered {op? : Symbol → Option BinaryOp} {operand : Parser Expr}
    {F G : Token.Kind → Prop} {ys : List Item} {result : Expr}
    (known : ∀ op : BinaryOp, op.level = k → op? op.sign = some op ∧ F (.symbol op.sign))
    (tighter : ∀ {e : Expr} {row : Row}, e.row? = some row → e.layered = true →
      (∀ o, e.root? = some o → k + 1 ≤ o.level) → Reads operand row.items e F True)
    (spelled : e.row? = some row) (layers : e.layered = true)
    (above : ∀ o, e.root? = some o → k ≤ o.level)
    (goesOn : Reads (iterate (joined op? operand) e) ys result G True) (leads : Leads F ys G) :
    Reads (leftChain op? operand) (row.items ++ ys) result G True := by
  have alone : ∀ {e : Expr} {row : Row} {ys : List Item}, e.row? = some row → e.layered = true →
      (∀ o, e.root? = some o → k + 1 ≤ o.level) →
      Reads (iterate (joined op? operand) e) ys result G True → Leads F ys G →
      Reads (leftChain op? operand) (row.items ++ ys) result G True :=
    fun spelled layers higher goesOn leads =>
      ((tighter spelled layers higher).bind goesOn leads).congr (iff_of_eq (true_and True))
  fun_induction Expr.row? e generalizing row ys with
  | case1 name => exact alone (e := .ident name) spelled layers (by simp [Expr.root?]) goesOn leads
  | case2 op left right ihl ihr =>
    -- An operator of this level goes to the loop with its right side, and the left side is a
    -- shorter chain; one that binds tighter is in the operand as a whole.
    rcases (above op rfl).eq_or_lt with same | higher
    · obtain ⟨leftRoot, rightRoot, leftLayers, rightLayers⟩ := Expr.layered_binary.mp layers
      obtain ⟨before, behind, spelledLeft, spelledRight, rfl⟩ := Expr.row?_binary spelled
      obtain ⟨knows, between⟩ := known op same.symm
      have last : Reads operand behind.items right F True :=
        tighter spelledRight rightLayers fun o found => same ▸ rightRoot o found
      have knows : ∀ t, (Item.sign op.sign).Shows t → ∃ next,
          joined op? operand left t = some next ∧
            Reads next behind.items (.binary op left right) F True := by
        intro t shows
        have kind : t.kind = .symbol op.sign := shows
        exact ⟨.binary op left <$> operand, by simp only [joined, kind, knows, Option.map_some],
          last.map⟩
      have step : Reads (iterate (joined op? operand) left)
          (.sign op.sign :: (behind.items ++ ys)) result G True :=
        (Reads.iterate_step knows goesOn leads).congr (iff_of_eq (true_and True))
      rw [items_join, List.append_assoc, List.cons_append]
      exact ihl spelledLeft leftLayers (fun o found => same ▸ leftRoot o found) step
        (leads_sign between)
    · refine alone (e := .binary op left right) spelled layers ?_ goesOn leads
      rintro o ⟨⟩
      exact higher
  | case3 => cases spelled

theorem ladder_layered (ops : List (Symbol → Option BinaryOp)) (place : operators.drop k = ops)
    (spelled : e.row? = some row) (layers : e.layered = true)
    (above : ∀ o, e.root? = some o → k ≤ o.level) :
    Reads (ladder inner ops) row.items e (EndsLadder Token.Kind.endsAccess ops) True := by
  induction ops generalizing k e row with
  | nil =>
    cases e with
    | ident name =>
      cases spelled
      exact (unary_name name).restrict fun _ ends => ends.1
    | binary op left right =>
      have beyond : operators.length ≤ k := List.drop_eq_nil_iff.mp place
      have short := above op rfl
      have known := level_lt op
      omega
    | _ => cases spelled
  | cons op? ops ih =>
    have here : operators[k]? = some op? := by rw [← List.head?_drop, place, List.head?_cons]
    have later : operators.drop (k + 1) = ops := by rw [← List.tail_drop, place, List.tail_cons]
    have known : ∀ op : BinaryOp, op.level = k → op? op.sign = some op ∧
        EndsLadder Token.Kind.endsAccess ops (.symbol op.sign) := by
      rintro op rfl
      refine ⟨op_known op op? here, Token.Kind.endsAccess_symbol (by cases op <;> rfl), ?_⟩
      rintro other present _ ⟨⟩
      exact op_unknown op other (later ▸ present)
    have last : Reads (iterate (joined op? (ladder inner ops)) e) [] e
        (EndsLadder Token.Kind.endsAccess (op? :: ops)) True :=
      (joined_stop e).restrict fun _ ends => ends.tail.2
    have read := leftChain_layered known (ih later) spelled layers above last
      fun _ ends => ends.tail.1
    rw [List.append_nil] at read
    exact read

theorem statement_layered (n : Nat) (spelled : e.row? = some row) (layers : e.layered = true) :
    Reads (nested (n + 2)).statement (row.items ++ [.sign .semicolon]) (.expr e) anything True := by
  have value : Reads (nested (n + 1)).assignment row.items e Token.Kind.endsExpr True := by
    have read : Reads (disjunction (nested n)) row.items e _ True :=
      ladder_layered operators rfl spelled layers fun _ _ => Nat.zero_le _
    refine (Level.assignment_of_conditional (Level.conditional_of_disjunction read)).restrict ?_
    exact fun kind ends => ⟨⟨endsLadder_of_endsExpr ends.endsAccess ends, ends.ne rfl⟩, ends.ne rfl⟩
  have whole : Reads (expressionStmt (nested (n + 1))) (row.items ++ [.sign .semicolon]) (.expr e)
      anything True :=
    Reads.congr (value.bind Reads.expectSymbol.pure_last
      (leads_sign (Token.Kind.endsExpr_symbol rfl))) (by simp)
  exact Reads.onToken_none whole fun t shows u same => by rw [same, shows.1]

theorem program_layered (spelled : e.row? = some row) (layers : e.layered = true) :
    Reads program (row.items ++ [.sign .semicolon]) [.expr e] (· = .eof) True := by
  have each : ∀ s ∈ [Stmt.expr e], Reads (nested maxNesting).statement
      (row.items ++ [.sign .semicolon]) s anything True := by
    intro s present
    rw [List.mem_singleton.mp present]
    exact statement_layered 62 spelled layers
  have starts : ∀ s ∈ [Stmt.expr e], Starts (fun kind => (∀ t : Token, t.kind = kind → false = false) ∧
      anything kind) (row.items ++ [.sign .semicolon]) :=
    fun _ _ => ⟨_, _, rfl, fun _ _ => ⟨fun _ _ => rfl, trivial⟩⟩
  have whole := Reads.many_each (nested maxNesting).strict each starts
    fun kind ends => ⟨trivial, .inl ends⟩
  rw [List.map_singleton, List.flatten_singleton] at whole
  exact whole.congr (by simp)

theorem shown_of_contents {ts : List Token} (said : ts.map Token.content = row.contents) :
    Shown (row.items ++ [.sign .semicolon]) ts := by
  have each : ∀ rest : List (BinaryOp × String), List.Forall₂
      (fun (item : Item) said => ∀ t : Token, t.content = said → item.Shows t)
      ((rest.flatMap fun part => [.sign part.1.sign, .name part.2]) ++ [.sign .semicolon])
      ((rest.flatMap fun part =>
        [(.symbol part.1.sign, part.1.symbol), (.identifier, part.2)]) ++
          [(.symbol .semicolon, ";")]) := by
    intro rest
    induction rest with
    | nil => exact .cons (fun t same => congrArg Prod.fst same) .nil
    | cons part rest ih =>
      refine .cons (fun t same => congrArg Prod.fst same) (.cons (fun t same => ?_) ih)
      exact ⟨congrArg Prod.fst same, congrArg Prod.snd same⟩
  have whole : List.Forall₂ (fun (item : Item) said => ∀ t : Token, t.content = said → item.Shows t)
      (row.items ++ [.sign .semicolon]) row.contents :=
    .cons (fun t same => ⟨congrArg Prod.fst same, congrArg Prod.snd same⟩) (each row.rest)
  rw [← said, List.forall₂_map_right_iff] at whole
  exact whole.imp fun item t shows => shows t rfl

end Parser

theorem Expr.layered_unique {e other : Expr} {row : Row} (spelled : e.row? = some row)
    (layers : e.layered = true) (again : other.row? = some row) (layered : other.layered = true) :
    other = e := by
  let ts : List Token := row.contents.map fun said => ⟨said.1, said.2, .start⟩
  have said : ts.map Token.content = row.contents := by simp [ts, Token.content, Function.comp_def]
  have shown := Parser.shown_of_contents said
  have before : Parser.Before (.eof .start) [] (· = .eof) := ⟨rfl, List.forall_mem_nil _, rfl⟩
  have first := (Parser.program_layered spelled layers).ok before shown trivial
  have second := (Parser.program_layered again layered).ok before shown trivial
  simpa using second.symm.trans first

namespace Token

def isIdentifier (name : String) : Bool :=
  match name.toList with
  | [] => false
  | c :: cs => isNameStart c && cs.all isNamePart && (Keyword.ofText? name).isNone

variable {name : String} {row : Row}

theorem isIdentifier_shape (named : isIdentifier name = true) : ∃ c cs, name.toList = c :: cs ∧
    isNameStart c = true ∧ (∀ d ∈ cs, isNamePart d = true) ∧ Kind.ofWord name = .identifier := by
  unfold isIdentifier at named
  cases shape : name.toList with
  | nil => simp [shape] at named
  | cons c cs =>
    simp only [shape, Bool.and_eq_true, List.all_eq_true, Option.isNone_iff_eq_none] at named
    exact ⟨c, cs, rfl, named.1.1, named.1.2, by rw [Kind.ofWord, named.2]⟩

theorem lexeme_of_isIdentifier (named : isIdentifier name = true) :
    IsLexeme .identifier name.toList name.toList := by
  obtain ⟨c, cs, shape, start, parts, kind⟩ := isIdentifier_shape named
  have word := IsLexeme.word start parts
  rw [← shape, String.ofList_toList, kind] at word
  exact word

theorem spelling_sign (op : BinaryOp) : op.sign.spelling = op.symbol.toList := by
  cases op <;> decide

theorem scan_semicolon (p : Position) :
    scan p [';'] = .ok [⟨.symbol .semicolon, ";", p⟩, eof (p.after [';'])] := by
  have taken : piece ';' [] = .ok (.lexeme (.symbol .semicolon) [';'] [';']) := rfl
  have whole : [';'] = [';'] ++ [] := rfl
  rw [scan_lexeme whole taken, scan]
  rfl

theorem scan_name_semicolon (named : isIdentifier name = true) (p : Position) : ∃ q,
    scan p (name.toList ++ [';']) = (scan q [';']).map (⟨.identifier, name, p⟩ :: ·) := by
  obtain ⟨c, cs, shape, start, parts, kind⟩ := isIdentifier_shape named
  have stops : (cs ++ [';']).takeWhile isNamePart = cs := takeWhile_before parts (by decide)
  have taken : piece c (cs ++ [';']) = _ := piece_nameStart start
  rw [stops, ← shape, String.ofList_toList, kind] at taken
  have whole : c :: (cs ++ [';']) = name.toList ++ [';'] := by rw [shape, List.cons_append]
  exact ⟨_, by rw [← whole, scan_lexeme whole taken, String.ofList_toList]⟩

theorem scan_row (named : ∀ name ∈ row.names, isIdentifier name = true) (p : Position) :
    ∃ tokens, scan p row.chars = .ok tokens ∧
      tokens.map content = row.contents ++ [(.eof, "EOF")] := by
  obtain ⟨first, rest⟩ := row
  induction rest generalizing first p with
  | nil =>
    obtain ⟨q, read⟩ := scan_name_semicolon (named first List.mem_cons_self) p
    rw [scan_semicolon] at read
    refine ⟨[⟨.identifier, first, p⟩, ⟨.symbol .semicolon, ";", q⟩, eof (q.after [';'])], ?_, rfl⟩
    rw [Row.chars, List.flatMap_nil, List.append_nil, read]
    rfl
  | cons part rest ih =>
    obtain ⟨op, second⟩ := part
    obtain ⟨here, later⟩ := List.forall_mem_cons.mp named
    let blank : Spacing := ⟨' ', [], rfl, .nil⟩
    let word : Lexeme := ⟨.identifier, first, lexeme_of_isIdentifier here⟩
    let sign : Lexeme := ⟨.symbol op.sign, op.symbol, spelling_sign op ▸ .symbol op.sign⟩
    obtain ⟨q, name⟩ :=
      word.scan blank p (op.symbol.toList ++ blank.chars ++ (Row.mk second rest).chars)
    obtain ⟨r, joint⟩ := sign.scan blank q (Row.mk second rest).chars
    obtain ⟨tokens, read, said⟩ := ih r second later
    have split : (Row.mk first ((op, second) :: rest)).chars = first.toList ++ blank.chars ++
        (op.symbol.toList ++ blank.chars ++ (Row.mk second rest).chars) := by
      simp [Row.chars, blank, Spacing.chars]
    refine ⟨⟨.identifier, first, p⟩ :: ⟨.symbol op.sign, op.symbol, q⟩ :: tokens, ?_, ?_⟩
    · have operator : scan q (op.symbol.toList ++ blank.chars ++ (Row.mk second rest).chars) =
          (scan r (Row.mk second rest).chars).map (⟨.symbol op.sign, op.symbol, q⟩ :: ·) := joint
      rw [split]
      refine name.trans ?_
      rw [operator, read]
      rfl
    · rw [List.map_cons, List.map_cons, said]
      rfl

end Token

namespace Program

theorem ofText_layered {e : Expr} {row : Row} (spelled : e.row? = some row)
    (layers : e.layered = true) {text : String} {tokens : List Token}
    (read : Token.ofText text = .ok tokens)
    (said : tokens.map Token.content = row.contents ++ [(.eof, "EOF")]) :
    Program.ofText text = .ok [.expr e] := by
  obtain ⟨ts, rfl, lexemes⟩ := Token.ofText_lexemes read
  rw [List.map_append] at said
  have shown := Parser.shown_of_contents (List.append_inj_left' said rfl)
  have before : Parser.Before (.eof (.behind text.toList)) [] (· = .eof) :=
    ⟨rfl, List.forall_mem_nil _, rfl⟩
  have run := (Parser.program_layered spelled layers).ok before shown trivial
  rw [List.append_nil] at run
  exact ofText_eq_ok_iff.mpr ⟨ts, read, run⟩

/-- A statement of names and operators is read as the one tree that has them in this order and
respects their levels, whatever gaps it is written with. -/
theorem ofText_row (row : Row) (named : ∀ name ∈ row.names, Token.isIdentifier name = true) :
    ∃ e : Expr, (e.row? = some row ∧ e.layered = true) ∧
      (∀ other : Expr, other.row? = some row → other.layered = true → other = e) ∧
      Program.ofText (String.ofList row.chars) = .ok [.expr e] ∧
      ∀ text tokens, Token.ofText text = .ok tokens →
        tokens.map Token.content = row.contents ++ [(.eof, "EOF")] →
          Program.ofText text = .ok [.expr e] := by
  obtain ⟨spelled, layers⟩ := row.tree_layered
  refine ⟨row.tree, ⟨spelled, layers⟩, ?_, ?_, ?_⟩
  · exact fun other again layered => Expr.layered_unique spelled layers again layered
  · obtain ⟨tokens, read, said⟩ := Token.scan_row named .start
    refine ofText_layered spelled layers ?_ said
    rw [Token.ofText, String.toList_ofList, read]
  · exact fun text tokens read said => ofText_layered spelled layers read said

def mixedRow : Row :=
  ⟨"a", [(.or, "b"), (.lt, "c"), (.eq, "d"), (.sub, "e"), (.sub, "f"), (.mul, "g"), (.and, "h")]⟩

-- `a || (((b < c) == ((d - e) - (f * g))) && h)`
def mixedTree : Expr :=
  .binary .or (.ident "a") (.binary .and (.binary .eq (.binary .lt (.ident "b") (.ident "c"))
    (.binary .sub (.binary .sub (.ident "d") (.ident "e")) (.binary .mul (.ident "f") (.ident "g"))))
    (.ident "h"))

theorem ofText_row_mixed : (∀ name ∈ mixedRow.names, Token.isIdentifier name = true) ∧
    mixedTree.row? = some mixedRow ∧ mixedTree.layered = true ∧
      Program.ofText "a || b < c == d - e - f * g && h;" = .ok [.expr mixedTree] := by
  have named : ∀ name ∈ mixedRow.names, Token.isIdentifier name = true := by decide +kernel
  have written : String.ofList mixedRow.chars = "a || b < c == d - e - f * g && h;" := by
    decide +kernel
  obtain ⟨e, -, unique, read, -⟩ := ofText_row mixedRow named
  have spelled : mixedTree.row? = some mixedRow := rfl
  have layers : mixedTree.layered = true := by decide
  rw [written, ← unique mixedTree spelled layers] at read
  exact ⟨named, spelled, layers, read⟩

end Program

end ScriptCpp
