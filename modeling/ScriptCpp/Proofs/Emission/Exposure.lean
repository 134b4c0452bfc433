import Mathlib
import ScriptCpp.Proofs.Cpp.Chain
import ScriptCpp.Proofs.Emission.ClosedText
import ScriptCpp.Proofs.Parsing.Legible

set_option autoImplicit false

namespace ScriptCpp

open Cpp

namespace Emission

def pointed (features : Features) (object : Expr) (name : String) : Bool :=
  features.http && (name = "params" || name = "query") ||
    ReceiverShape.ofAccess features object name = .value

def lookedUp (features : Features) (object : Expr) : Bool :=
  features.http && (object.memberName? = some "params" || object.memberName? = some "query")

end Emission

namespace SpecialForm

/-- Forms with a sign of their own, and forms that go on behind the grouped receiver. -/
def joining : List String := ["print", "response.status"]
def trailing : List String := ["response.send/json", "request.get_*_value", "params.count/find"]

/-- Whether a form's text has a sign outside all brackets, given the same for its callee and for the
grouped receiver. -/
def exposes (form : SpecialForm) (callee receiver : Bool) : Bool :=
  if joining.contains form.name then true
  else if form.name = "length" then callee
  else if trailing.contains form.name then receiver
  else false

end SpecialForm

mutual

/-- The text has a sign outside all brackets. -/
@[simp] def Expr.exposed (features : Features) : Expr → Bool
  | .assign _ _ | .binary _ _ _ => true
  | .call callee args =>
      match SpecialForm.find? features ⟨callee, args⟩ with
      | some form => form.exposes (callee.exposed features) (callee.receiverExposed features)
      | none => callee.exposed features
  | .member object name =>
      Emission.pointed features object name && (!Emission.isLoose object && object.exposed features)
  | .index object _ =>
      !Emission.lookedUp features object && (!Emission.isLoose object && object.exposed features)
  | .negate _ | .conditional _ _ _ | .construct _ _ | .array _ | .ident _ | .number _ => false
  | .string _ | .this | .await _ | .arrowBlock _ _ | .arrowValue _ _ => false

@[simp] def Expr.receiverExposed (features : Features) : Expr → Bool
  | .member object _ => !Emission.isLoose object && object.exposed features
  | .index object _ => !Emission.isLoose object && object.exposed features
  | .assign _ _ | .binary _ _ _ | .negate _ | .conditional _ _ _ | .call _ _ | .construct _ _ => false
  | .array _ | .ident _ | .number _ | .string _ | .this | .await _ => false
  | .arrowBlock _ _ | .arrowValue _ _ => false

end

def Expr.groupedExposed (features : Features) (e : Expr) : Bool :=
  !Emission.isLoose e && e.exposed features

theorem IsName.parts {name : String} (h : IsName name) :
    ∀ c ∈ name.toList, Token.isNamePart c = true := by
  obtain ⟨c, cs, spelled, start, others⟩ := h
  rw [spelled]
  exact List.forall_mem_cons.mpr
    ⟨Token.isNamePart_of_isNameStart start, List.all_eq_true.mp others⟩

theorem IsName.isPath {name : String} (h : IsName name) : IsPath name.toList := by
  refine ⟨?_, pathTail_word h.parts⟩
  obtain ⟨c, cs, spelled, start, -⟩ := h
  exact ⟨c, by simp [spelled], start⟩

namespace Emission

variable {exposed : Bool} {text name : String} {texts : List String}

theorem compact_call (path : IsPath name.toList) (each : ∀ text ∈ texts, Readable text) :
    Compact (name ++ "(" ++ commas texts ++ ")") := by
  obtain ⟨xs, lists⟩ := lists_of_readable each
  exact ((Stands.word path).compact (by omega)).call lists

theorem compact_wrapped (name : String) {before : String} (path : IsPath name.toList)
    (split : before = name ++ "(") (each : ∀ text ∈ texts, Readable text) :
    Compact (before ++ commas texts ++ ")") := by
  rw [split]
  exact compact_call path each

theorem readable_quoted {raw : String} (closed : Token.StringBody raw.toList) :
    Readable ("\"" ++ raw ++ "\"") := ⟨_, (Stands.literal closed).loosen (Nat.zero_le _)⟩

theorem compact_string {raw : String} (closed : Token.StringBody raw.toList) :
    Compact ("std::string(\"" ++ raw ++ "\")") := by
  have path : IsPath "std::string".toList := by decide
  have whole := compact_call path (List.forall_mem_singleton.mpr (readable_quoted closed))
  have opening : "std::string(\"" = "std::string" ++ "(" ++ "\"" := by decide
  have closing : "\")" = "\"" ++ ")" := by decide
  rw [opening, closing]
  rw [commas_singleton] at whole
  simpa only [String.append_assoc] using whole

theorem compact_pointer (h : Readable text) (named : IsName name) :
    Compact ("(" ++ text ++ ")->" ++ name) := by
  obtain ⟨x, stands⟩ := h
  exact (stands.pointer named.isPath).compact le_rfl

theorem chain_dot (h : Chain exposed text) (named : IsName name) :
    Chain exposed (text ++ "." ++ name) := h.dot named.isPath named.parts

theorem chain_field (name suffix : String) (h : Chain exposed text) (named : IsName name)
    (split : suffix = "." ++ name) : Chain exposed (text ++ suffix) := by
  rw [split]
  simpa only [String.append_assoc] using chain_dot h named

-- A method without arguments.
theorem chain_method (name suffix : String) (h : Chain exposed text) (named : IsName name)
    (split : suffix = "." ++ name ++ "()") : Chain exposed (text ++ suffix) := by
  have whole := (chain_dot h named).call (List.forall_mem_nil _)
  have empty : "()" = "(" ++ (commas [] ++ ")") := by decide
  rw [split, empty]
  simpa only [String.append_assoc] using whole

theorem chain_grouped {piece : Piece} (h : Chain exposed piece.text) :
    Chain (!piece.loose && exposed) piece.grouped := by
  unfold Piece.grouped
  cases loose : piece.loose with
  | true => exact .compact h.parenthesized
  | false => simpa using h

theorem readable_texts {items : List Piece}
    (each : ∀ piece ∈ items, ∃ exposed, Chain exposed piece.text) :
    ∀ text ∈ items.map Piece.text, Readable text := by
  intro text among
  obtain ⟨piece, present, rfl⟩ := List.mem_map.mp among
  obtain ⟨exposed, chain⟩ := each piece present
  exact chain.readable

end Emission

namespace SpecialForm

open Emission

structure Fits (form : SpecialForm) (features : Features) (site : CallSite) (head : Piece)
    (args : List Piece) (callee receiver : Bool) : Prop where
  triggered : form.trigger features site = true
  method : ∀ c ∈ site.methodText.toList, Token.isNamePart c = true
  own : form.head = .callee → Chain callee head.text
  object : form.head = .receiver → Readable head.text ∧ Chain receiver head.grouped
  each : ∀ piece ∈ args, ∃ exposed, Chain exposed piece.text
  enough : form.minArgs ≤ site.args.length
  counted : args.length = (form.used site.args).length

def Chains (form : SpecialForm) : Prop :=
  ∀ ⦃features : Features⦄ ⦃site : CallSite⦄ ⦃head : Piece⦄ ⦃args : List Piece⦄ ⦃callee receiver : Bool⦄,
    form.Fits features site head args callee receiver →
      Chain (form.exposes callee receiver) (form.write site head args)

def opened : List String := "length" :: (joining ++ trailing)

theorem exposes_closed {form : SpecialForm} (closed : form.name ∉ opened) (callee receiver : Bool) :
    form.exposes callee receiver = false := by
  simp only [opened, List.mem_cons, List.mem_append, not_or] at closed
  simp [exposes, closed]

theorem exposes_joining {form : SpecialForm} (joins : form.name ∈ joining) (callee receiver : Bool) :
    form.exposes callee receiver = true := by
  simp [exposes, joins]

theorem exposes_trailing {form : SpecialForm} (trails : form.name ∈ trailing) (callee receiver : Bool) :
    form.exposes callee receiver = receiver := by
  have other : form.name ∉ joining ∧ form.name ≠ "length" := by
    revert trails
    generalize form.name = name
    simp only [trailing, joining, List.mem_cons, List.not_mem_nil, or_false]
    rintro (rfl | rfl | rfl) <;> decide
  simp [exposes, other, trails]

namespace Fits

variable {form : SpecialForm} {features : Features} {site : CallSite} {head : Piece}
  {args : List Piece} {callee receiver : Bool}
  (fits : form.Fits features site head args callee receiver)

include fits

theorem readable : ∀ text ∈ texts args, Readable text := readable_texts fits.each

theorem passed (given : form.head = .receiver) : ∀ text ∈ head.text :: texts args, Readable text :=
  List.forall_mem_cons.mpr ⟨(fits.object given).1, fits.readable⟩

theorem single (first : form.reads = [.one 0]) (some : 0 < form.minArgs) : ∃ piece, args = [piece] := by
  rw [← List.length_eq_one_iff, fits.counted]
  exact used_single first (some.trans_le fits.enough)

theorem called {name : String} (closed : form.name ∉ opened) (path : IsPath name.toList) :
    Chain (form.exposes callee receiver) (name ++ "(" ++ commas (texts args) ++ ")") := by
  rw [exposes_closed closed]
  exact .compact (compact_call path fits.readable)

theorem wrapped (name : String) {before : String} (closed : form.name ∉ opened)
    (path : IsPath name.toList) (split : before = name ++ "(") :
    Chain (form.exposes callee receiver) (before ++ commas (texts args) ++ ")") := by
  rw [exposes_closed closed]
  exact .compact (compact_wrapped name path split fits.readable)

omit fits in
theorem fixed (name text : String) (closed : form.name ∉ opened) (path : IsPath name.toList)
    (split : text = name ++ "(" ++ (commas [] ++ ")")) : Chain (form.exposes callee receiver) text := by
  rw [exposes_closed closed, split]
  have whole := compact_call path (List.forall_mem_nil Readable)
  exact .compact (by simpa only [String.append_assoc] using whole)

end Fits

end SpecialForm

end ScriptCpp
