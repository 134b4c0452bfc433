import Mathlib
import ScriptCpp.Proofs.Lexing.Seam

set_option autoImplicit false

namespace ScriptCpp.Token

inductive Zone where
  | plain
  | slash
  | comment
  | quoted
  | escaped
deriving DecidableEq, Repr

def Zone.step : Zone → Char → Zone
  | .plain, c => if c = '/' then .slash else if c = '"' then .quoted else .plain
  | .slash, c => if c = '/' then .comment else if c = '"' then .quoted else .plain
  | .comment, c => if c = '\n' then .plain else .comment
  | .quoted, c => if c = '"' then .plain else if c = '\\' then .escaped else .quoted
  | .escaped, _ => .quoted

def zone (cs : List Char) : Zone := cs.foldl Zone.step .plain

namespace Zone

def Starts (z : Zone) (rest : List Char) : Prop :=
  z = .plain ∨ (z = .slash ∧ rest.head? ≠ some '/') ∨ (z = .comment ∧ ∀ c ∈ rest.head?, c = '\n')

variable {z : Zone} {c : Char} {cs gap rest text raw : List Char} {kind : Kind}

theorem Starts.step_blank (starts : z.Starts (c :: rest)) (blank : isBlank c) : z.step c = .plain := by
  have solid : c ≠ '/' ∧ c ≠ '"' := by
    constructor <;> rintro rfl <;> exact absurd blank (by decide)
  rcases starts with rfl | ⟨rfl, -⟩ | ⟨rfl, newline⟩
  · simp [step, solid]
  · simp [step, solid]
  · simp [step, newline c rfl]

-- Only at a newline does a piece start in a comment, so a slash starts one outside.
theorem Starts.eq_plain (starts : z.Starts ('/' :: rest)) : z = .plain := by
  rcases starts with same | ⟨-, other⟩ | ⟨-, newline⟩
  · exact same
  · exact absurd rfl other
  · exact absurd (newline '/' rfl) (by decide)

theorem foldl_comment (line : '\n' ∉ cs) : cs.foldl step .comment = .comment := by
  induction cs with
  | nil => rfl
  | cons c cs ih =>
    rw [List.mem_cons, not_or] at line
    simp [step, Ne.symm line.1, ih line.2]

theorem foldl_opening (line : '\n' ∉ cs) : ('/' :: '/' :: cs).foldl step .plain = .comment := by
  simpa [step] using foldl_comment line

theorem Starts.past_gap (h : Gap gap rest) (starts : z.Starts (gap ++ rest)) :
    (gap.foldl step z).Starts rest := by
  induction h generalizing z with
  | nil => exact starts
  | blank blank _ ih =>
    rw [List.foldl_cons, starts.step_blank blank]
    exact ih (.inl rfl)
  | @comment body gap rest line ends _ ih =>
    obtain rfl := starts.eq_plain
    rw [← List.cons_append, ← List.cons_append, List.foldl_append, foldl_opening line]
    exact ih (.inr (.inr ⟨rfl, ends⟩))

theorem Starts.gap_closed (h : Gap gap rest) (starts : z.Starts (gap ++ rest))
    (outside : gap.foldl step z ≠ .comment) (tail : List Char) : Gap gap tail := by
  induction h generalizing z with
  | nil => exact .nil
  | blank blank _ ih =>
    rw [List.foldl_cons, starts.step_blank blank] at outside
    exact .blank blank (ih (.inl rfl) outside)
  | @comment body gap rest line ends _ ih =>
    obtain rfl := starts.eq_plain
    rw [← List.cons_append, ← List.cons_append, List.foldl_append, foldl_opening line] at outside
    refine .comment line ?_ (ih (.inr (.inr ⟨rfl, ends⟩)) outside)
    cases gap with
    | nil => exact absurd rfl outside
    | cons d gap => exact ends

theorem foldl_plain (solid : ∀ c ∈ cs, c ≠ '/' ∧ c ≠ '"') : cs.foldl step .plain = .plain := by
  induction cs with
  | nil => rfl
  | cons c cs ih =>
    rw [List.forall_mem_cons] at solid
    simp [step, solid.1, ih solid.2]

theorem foldl_quoted (closed : StringBody cs) : cs.foldl step .quoted = .quoted := by
  induction closed with
  | nil => rfl
  | plain quote backslash _ _ ih => simpa [step, quote, backslash] using ih
  | escape _ _ ih => simpa [step] using ih

theorem zone_lexeme (lexeme : IsLexeme kind text raw) :
    zone raw = .plain ∨ (zone raw = .slash ∧ raw = ['/']) := by
  have solid {c : Char} (part : isNamePart c = true) : c ≠ '/' ∧ c ≠ '"' := (plain_of_isNamePart part).2
  cases lexeme with
  | string closed => exact .inl (by simp [zone, step, foldl_quoted closed])
  | whole _ digits => exact .inl (foldl_plain fun c present => solid (isNamePart_of_isDigit (digits c present)))
  | point _ digits decimals =>
    refine .inl (foldl_plain (List.forall_mem_append.mpr ⟨?_, List.forall_mem_cons.mpr ⟨by decide, ?_⟩⟩))
    · exact fun c present => solid (isNamePart_of_isDigit (digits c present))
    · exact fun c present => solid (isNamePart_of_isDigit (decimals c present))
  | word start parts =>
    refine .inl (foldl_plain (List.forall_mem_cons.mpr ⟨solid (isNamePart_of_isNameStart start), ?_⟩))
    exact fun c present => solid (parts c present)
  | symbol sign => cases sign <;> decide

theorem Starts.past_lexeme (lexeme : IsLexeme kind text raw) (starts : z.Starts (raw ++ rest))
    (noComment : ¬ ['/', '/'] <+: raw ++ rest) : (raw.foldl step z).Starts rest := by
  obtain ⟨c, cs, rfl⟩ := List.exists_cons_of_ne_nil lexeme.raw_ne_nil
  have fresh : (c :: cs).foldl step z = zone (c :: cs) := by
    have same : z.step c = step .plain c := by
      rcases starts with rfl | ⟨rfl, other⟩ | ⟨rfl, newline⟩
      · rfl
      · have apart : c ≠ '/' := by simpa using other
        simp [step, apart]
      · have inline := lexeme.inline
        simp [newline c rfl] at inline
    rw [zone, List.foldl_cons, List.foldl_cons, same]
  rw [fresh]
  rcases zone_lexeme lexeme with plain | ⟨slash, single⟩
  · exact .inl plain
  · refine .inr (.inl ⟨slash, fun next => noComment ?_⟩)
    rw [single]
    cases rest with
    | nil => cases next
    | cons d rest =>
      cases next
      exact ⟨rest, rfl⟩

end Zone

end ScriptCpp.Token
