import Mathlib
import ScriptCpp.Proofs.Lexing.Partition

set_option autoImplicit false

namespace ScriptCpp

namespace Position

def below (p : Position) (lines : Nat) : Position := { p with line := p.line + lines }

theorem step_below (p : Position) (lines : Nat) (c : Char) :
    (p.below lines).step c = (p.step c).below lines := by
  by_cases newline : c = '\n'
  · simp [step, below, newline, Nat.add_right_comm]
  · simp [step, below, newline]

theorem after_below (p : Position) (lines : Nat) (cs : List Char) :
    (p.below lines).after cs = (p.after cs).below lines := by
  induction cs generalizing p with
  | nil => rfl
  | cons c cs ih =>
    have step : ∀ q : Position, q.after (c :: cs) = (q.step c).after cs := fun _ => rfl
    rw [step, step, step_below, ih]

theorem behind_newline (cs ds : List Char) :
    behind (cs ++ '\n' :: ds) = (behind ds).below (cs.count '\n' + 1) := by
  have column : (cs ++ '\n' :: ds).reverse.takeWhile (· != '\n') =
      ds.reverse.takeWhile (· != '\n') := by
    rw [List.reverse_append, List.reverse_cons, List.append_assoc, List.takeWhile_append]
    split
    · next whole =>
      have all := (List.takeWhile_prefix (· != '\n')).eq_of_length whole
      simp [all]
    · rfl
  have line : 1 + (cs.count '\n' + (ds.count '\n' + 1)) =
      1 + ds.count '\n' + (cs.count '\n' + 1) := by omega
  simp only [behind, below, column, List.count_append, List.count_cons_self, line]

end Position

namespace Token

def below (t : Token) (lines : Nat) : Token := { t with position := t.position.below lines }

variable {cs more gap rest before last raw text : List Char} {kind : Kind} {p : Position}

theorem StringBody.inline {body : List Char} (closed : StringBody body) : '\n' ∉ body := by
  induction closed with
  | nil => simp
  | plain _ _ newline _ ih => simp [newline.symm, ih]
  | escape newline _ ih => simp [newline.symm, ih]

theorem IsLexeme.inline (lexeme : IsLexeme kind text raw) : '\n' ∉ raw := by
  cases lexeme with
  | string closed => simp [closed.inline]
  | whole _ digits => exact fun present => absurd (digits _ present) (by decide)
  | point _ digits decimals =>
    rw [List.mem_append, List.mem_cons]
    rintro (present | point | present)
    · exact absurd (digits _ present) (by decide)
    · exact absurd point (by decide)
    · exact absurd (decimals _ present) (by decide)
  | word start parts =>
    rw [List.mem_cons]
    rintro (rfl | present)
    · exact absurd start (by decide)
    · exact absurd (parts _ present) (by decide)
  | symbol sign => cases sign <;> decide

theorem Gap.newline (h : Gap gap rest) (more : List Char) : Gap gap (rest ++ '\n' :: more) := by
  induction h with
  | nil => exact .nil
  | blank blank _ ih => exact .blank blank ih
  | @comment body gap rest line ends _ ih =>
    refine .comment line ?_ ih
    intro c present
    rw [← List.append_assoc] at present
    cases reached : gap ++ rest with
    | nil =>
      rw [reached] at present
      simpa using present.symm
    | cons d ds =>
      rw [reached] at present ends
      exact ends c (by simpa using present)

theorem Part.Fits.newline {part : Part} (fits : part.Fits before rest) (more : List Char) :
    part.Fits before (rest ++ '\n' :: more) where
  gap := by
    rw [← List.append_assoc]
    exact fits.gap.newline more
  lexeme := fits.lexeme
  longest := by
    intro kind text raw lexeme start
    rw [← List.append_assoc] at start
    exact fits.longest lexeme (prefix_before lexeme.inline start)
  noComment := by
    intro start
    rw [← List.append_assoc] at start
    exact fits.noComment (prefix_before (by decide) start)
  position := fits.position

theorem Laid.scan_newline {parts : List Part} (laid : Laid before last parts) {tokens : List Token}
    (read : Token.scan (.behind (before ++ (spell parts ++ (last ++ ['\n'])))) more = .ok tokens) :
    Token.scan (.behind before) (spell parts ++ (last ++ '\n' :: more)) =
      .ok (parts.map Part.token ++ tokens) := by
  induction parts generalizing before with
  | nil =>
    have ending : Gap last [] := laid
    have gap := (ending.newline more).scan (.behind before)
    rw [List.nil_append, scan_blank (by decide), Position.after_behind, Position.behind_step,
      List.append_assoc] at gap
    exact gap.trans read
  | cons part parts ih =>
    obtain ⟨fits, later⟩ := laid
    have shape : ∀ ending, spell (part :: parts) ++ ending =
        part.gap ++ (part.raw ++ (spell parts ++ ending)) := by simp [spell]
    have further := (fits.newline more).scan
    rw [shape] at read ⊢
    rw [List.append_assoc, ih later (by simpa using read)] at further
    simpa [Except.map] using further

theorem scan_below (lines : Nat) {tokens : List Token} (read : scan p cs = .ok tokens) :
    scan (p.below lines) cs = .ok (tokens.map (·.below lines)) := by
  fun_induction scan p cs generalizing tokens with
  | case1 p =>
    cases read
    rw [scan]
    rfl
  | case2 => cases read
  | case3 p c rest gap taken ih =>
    obtain ⟨behind, same, -⟩ := piece_gap taken
    rw [same, List.drop_left] at ih read
    rw [scan_gap same taken, Position.after_below]
    exact ih read
  | case4 p c rest kind text raw taken ih =>
    obtain ⟨-, ⟨behind, same⟩, -⟩ := piece_eq_lexeme_iff.mp taken
    rw [← same, List.drop_left] at ih read
    rw [scan_lexeme same.symm taken, Position.after_below]
    cases later : scan (p.after raw) behind with
    | error error =>
      rw [later] at read
      cases read
    | ok others =>
      rw [later] at read
      cases read
      rw [ih later]
      rfl

theorem ofText_newline {text₁ text₂ : String} {ts₁ ts₂ : List Token} {p₁ : Position}
    (first : ofText text₁ = .ok (ts₁ ++ [eof p₁]))
    (second : ofText text₂ = .ok (ts₂ ++ [eof (.behind text₂.toList)])) :
    ofText (text₁ ++ "\n" ++ text₂) =
      .ok ((ts₁ ++ ts₂.map (·.below (text₁.toList.count '\n' + 1))) ++
        [eof (.behind (text₁ ++ "\n" ++ text₂).toList)]) := by
  have start : Position.start = .behind [] := rfl
  obtain ⟨parts, last, whole, laid, same⟩ := scan_laid first start
  obtain ⟨rfl, -⟩ := List.append_inj' same rfl
  have seam : (text₁ ++ "\n" ++ text₂).toList = spell parts ++ (last ++ '\n' :: text₂.toList) := by
    simp [String.toList_append, whole]
  have place : Position.behind (spell parts ++ (last ++ ['\n'])) =
      Position.start.below (text₁.toList.count '\n' + 1) := by
    rw [← List.append_assoc, ← whole, Position.behind_newline]
    rfl
  have below := scan_below (text₁.toList.count '\n' + 1) second
  rw [← place] at below
  have read := laid.scan_newline below
  have behind : Position.behind (text₁ ++ "\n" ++ text₂).toList =
      (Position.behind text₂.toList).below (text₁.toList.count '\n' + 1) := by
    rw [← Position.behind_newline]
    simp [String.toList_append]
  rw [← seam, List.map_append, ← List.append_assoc] at read
  rw [behind]
  exact read

end Token

end ScriptCpp
