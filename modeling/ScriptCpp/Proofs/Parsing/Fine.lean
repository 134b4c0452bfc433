import Mathlib
import ScriptCpp.Proofs.Parsing.Conservation

set_option autoImplicit false

namespace ScriptCpp

def Material.Fine : Material → Prop
  | .name text => ∀ c ∈ text.toList, Token.isNamePart c = true
  | .numeral _ => True
  | .quoted raw => Token.StringBody raw.toList
  | .operator _ => True

/-- The names are words, and the strings have no quote or newline that is not escaped. -/
def AllFine (ms : List Material) : Prop := ∀ m ∈ ms, m.Fine

theorem allFine_append {ms ns : List Material} : AllFine (ms ++ ns) ↔ AllFine ms ∧ AllFine ns :=
  List.forall_mem_append

theorem allFine_cons {m : Material} {ms : List Material} : AllFine (m :: ms) ↔ m.Fine ∧ AllFine ms :=
  List.forall_mem_cons

namespace Token

variable {kind : Kind} {text raw : List Char}

theorem IsLexeme.name_parts (lexeme : IsLexeme kind text raw) (isName : kind = .identifier) :
    ∀ c ∈ text, isNamePart c = true := by
  cases lexeme with
  | string | whole | point | symbol => cases isName
  | word start parts => exact List.forall_mem_cons.mpr ⟨isNamePart_of_isNameStart start, parts⟩

theorem IsLexeme.string_body (lexeme : IsLexeme kind text raw) (isString : kind = .string) :
    StringBody text := by
  cases lexeme with
  | string closed => exact closed
  | whole | point | symbol => cases isString
  | word =>
    unfold Kind.ofWord at isString
    split at isString <;> cases isString

theorem mem_materialFrom {dotted : Bool} {ts : List Token} {m : Material}
    (present : m ∈ materialFrom dotted ts) : ∃ t ∈ ts, m = .name t.text ∨ m ∈ t.material := by
  induction ts generalizing dotted with
  | nil => cases present
  | cons t ts ih =>
    rcases List.mem_append.mp present with here | later
    · refine ⟨t, List.mem_cons_self, ?_⟩
      split at here
      · exact .inl (List.mem_singleton.mp here)
      · exact .inr here
    · obtain ⟨other, among, found⟩ := ih later
      exact ⟨other, List.mem_cons_of_mem t among, found⟩

theorem quoted_mem_materialFrom {dotted : Bool} {ts : List Token} {raw : String}
    (present : .quoted raw ∈ materialFrom dotted ts) :
    ∃ t ∈ ts, t.kind = .string ∧ t.text = raw := by
  obtain ⟨t, among, named | own⟩ := mem_materialFrom present
  · cases named
  · refine ⟨t, among, ?_⟩
    unfold material at own
    split at own
    · simp at own
    · simp at own
    · next isString =>
      obtain rfl : raw = t.text := by simpa using own
      exact ⟨isString, rfl⟩
    · split at own <;> simp at own
    · simp at own
    · simp at own

theorem numeral_mem_materialFrom {dotted : Bool} {ts : List Token} {value : Option Binary64}
    (present : .numeral value ∈ materialFrom dotted ts) :
    ∃ t ∈ ts, t.kind = .number ∧ Binary64.ofText? t.text = value := by
  obtain ⟨t, among, named | own⟩ := mem_materialFrom present
  · cases named
  · refine ⟨t, among, ?_⟩
    unfold material at own
    split at own
    · simp at own
    · next isNumber =>
      obtain rfl : value = Binary64.ofText? t.text := by simpa using own
      exact ⟨isNumber, rfl⟩
    · simp at own
    · split at own <;> simp at own
    · simp at own
    · simp at own

end Token

theorem Keyword.name_parts {text : String} (known : (Keyword.ofText? text).isSome = true) :
    ∀ c ∈ text.toList, Token.isNamePart c = true := by
  have all : spellings.all (fun row => row.1.toList.all Token.isNamePart) = true := by decide +kernel
  obtain ⟨row, among, same⟩ := List.lookup_isSome_iff.mp known
  rw [beq_iff_eq.mp same]
  exact List.all_eq_true.mp (List.all_eq_true.mp all row among)

theorem Program.allFine_of_ofText {text : String} {program : Program}
    (read : Program.ofText text = .ok program) : AllFine (Stmt.materialEach program) := by
  obtain ⟨ts, lexed, keeps⟩ := keeps_of_ofText read
  have lexemes := Token.lexemes_of_ofText lexed
  intro m present
  cases m with
  | numeral | operator => trivial
  | name text =>
    rcases keeps.named text present with ⟨t, among, isName, rfl⟩ | keyword
    · obtain ⟨raw, lexeme⟩ := lexemes t among
      exact lexeme.name_parts isName
    · exact Keyword.name_parts keyword
  | quoted raw =>
    obtain ⟨t, among, isString, rfl⟩ := Token.quoted_mem_materialFrom (keeps.subperm.subset present)
    obtain ⟨written, lexeme⟩ := lexemes t among
    exact lexeme.string_body isString

end ScriptCpp
