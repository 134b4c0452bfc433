import Mathlib
import ScriptCpp.Proofs.Lexing.Lexeme

set_option autoImplicit false

namespace ScriptCpp

namespace Position

/-- The place behind a text: one line for each newline, one column for each character since. -/
def behind (cs : List Char) : Position :=
  ⟨1 + cs.count '\n', 1 + (cs.reverse.takeWhile (· != '\n')).length⟩

theorem behind_step (cs : List Char) (c : Char) : (behind cs).step c = behind (cs ++ [c]) := by
  by_cases newline : c = '\n'
  · simp [behind, step, newline, Nat.add_assoc]
  · simp [behind, step, newline, Nat.add_assoc]

theorem after_behind (cs ds : List Char) : (behind cs).after ds = behind (cs ++ ds) := by
  induction ds generalizing cs with
  | nil => simp
  | cons d ds ih =>
    have step : (behind cs).after (d :: ds) = ((behind cs).step d).after ds := rfl
    rw [step, behind_step, ih, List.append_assoc, List.singleton_append]

end Position

namespace Token

/-- Blanks and comments, where a comment runs up to a newline or the end of the text. -/
inductive Gap : (gap rest : List Char) → Prop
  | nil {rest : List Char} : Gap [] rest
  | blank {c : Char} {gap rest : List Char} (blank : isBlank c) (more : Gap gap rest) :
      Gap (c :: gap) rest
  | comment {body gap rest : List Char} (line : '\n' ∉ body)
      (ends : ∀ c ∈ (gap ++ rest).head?, c = '\n') (more : Gap gap rest) :
      Gap ('/' :: '/' :: (body ++ gap)) rest

structure Part where
  gap : List Char
  raw : List Char
  token : Token

def spell (parts : List Part) : List Char :=
  parts.flatMap fun part => part.gap ++ part.raw

/-- A part is right where `before` comes before it and `rest` after it. -/
structure Part.Fits (before rest : List Char) (part : Part) : Prop where
  gap : Gap part.gap (part.raw ++ rest)
  lexeme : IsLexeme part.token.kind part.token.text.toList part.raw
  longest : Longest part.raw (part.raw ++ rest)
  noComment : ¬ ['/', '/'] <+: part.raw ++ rest
  position : part.token.position = .behind (before ++ part.gap)

def Laid (before last : List Char) : List Part → Prop
  | [] => Gap last []
  | part :: parts =>
      part.Fits before (spell parts ++ last) ∧ Laid (before ++ (part.gap ++ part.raw)) last parts

variable {c : Char} {cs gap rest before last : List Char} {p : Position} {tokens : List Token}

theorem prefix_before {c : Char} {raw rest more : List Char} (absent : c ∉ raw)
    (start : raw <+: rest ++ c :: more) : raw <+: rest := by
  rcases List.prefix_or_prefix_of_prefix start (List.prefix_append rest (c :: more)) with
    within | ⟨past, rfl⟩
  · exact within
  · rw [List.prefix_append_right_inj] at start
    cases past with
    | nil => simp
    | cons d past =>
      obtain rfl : d = c := (List.cons_prefix_cons.mp start).1
      exact absurd (by simp) absent

theorem opensComment_iff : opensComment c cs = true ↔ ['/', '/'] <+: c :: cs := by
  rw [opensComment, Bool.and_eq_true, decide_eq_true_eq, decide_eq_true_eq, List.cons_prefix_cons]
  cases cs with
  | nil => simp
  | cons d ds =>
    rw [List.cons_prefix_cons, List.head?_cons, Option.some_inj]
    constructor
    · rintro ⟨rfl, rfl⟩
      exact ⟨rfl, rfl, List.nil_prefix⟩
    · rintro ⟨rfl, rfl, _⟩
      exact ⟨rfl, rfl⟩

theorem Gap.append {first second : List Char} (h : Gap first (second ++ rest))
    (more : Gap second rest) : Gap (first ++ second) rest := by
  generalize tail : second ++ rest = behind at h
  induction h with
  | nil => exact more
  | blank blank _ ih => exact .blank blank (ih tail)
  | @comment body gap _ line ends _ ih =>
    rw [List.cons_append, List.cons_append, List.append_assoc]
    refine .comment line ?_ (ih tail)
    rwa [List.append_assoc, tail]

theorem gap_of_blanks {blanks : List Char} (all : ∀ c ∈ blanks, isBlank c) : Gap blanks rest := by
  induction blanks with
  | nil => exact .nil
  | cons c blanks ih =>
    exact .blank (all c List.mem_cons_self) (ih fun d present => all d (List.mem_cons_of_mem _ present))

theorem head?_dropWhile_newline (cs : List Char) :
    ∀ c ∈ (cs.dropWhile (· != '\n')).head?, c = '\n' := by
  intro c present
  have stopped := List.head?_dropWhile_not (· != '\n') cs
  rw [Option.mem_def.mp present] at stopped
  simpa using stopped

theorem piece_gap (taken : piece c cs = .ok (.gap gap)) :
    ∃ rest, c :: cs = gap ++ rest ∧ Gap gap rest := by
  rcases first_cases c cs with blank | comment | rfl | digit | start | ⟨signStart, noComment⟩
  · rw [piece_blank blank] at taken
    cases taken
    refine ⟨cs.dropWhile isBlank, by simp, ?_⟩
    refine gap_of_blanks (List.forall_mem_cons.mpr ⟨blank, ?_⟩)
    exact fun d present => List.mem_takeWhile_imp present
  · rw [piece_comment comment] at taken
    cases taken
    obtain ⟨rest, same⟩ := opensComment_iff.mp comment
    obtain ⟨rfl, rfl⟩ : '/' = c ∧ '/' :: rest = cs := by simpa using same
    have body : ('/' :: rest).takeWhile (· != '\n') = '/' :: rest.takeWhile (· != '\n') := by simp
    have line : '\n' ∉ rest.takeWhile (· != '\n') := by
      intro present
      simpa using List.mem_takeWhile_imp present
    refine ⟨rest.dropWhile (· != '\n'), by simp, ?_⟩
    have lone : Gap ('/' :: '/' :: (rest.takeWhile (· != '\n') ++ []))
        (rest.dropWhile (· != '\n')) := .comment line (head?_dropWhile_newline rest) .nil
    rwa [List.append_nil, ← body] at lone
  · cases read : stringBody cs with
    | none =>
      rw [piece_quote_none read] at taken
      cases taken
    | some found =>
      rw [piece_quote_some read] at taken
      cases taken
  · rw [piece_digit digit] at taken
    cases taken
  · rw [piece_nameStart start] at taken
    cases taken
  · cases hit : Symbol.ofPrefix? (c :: cs) with
    | none =>
      rw [piece_unexpected signStart noComment hit] at taken
      cases taken
    | some sign =>
      rw [piece_symbol signStart noComment hit] at taken
      cases taken

theorem scan_gap (same : c :: cs = gap ++ rest) (taken : piece c cs = .ok (.gap gap)) :
    scan p (c :: cs) = scan (p.after gap) rest := by
  rw [scan]
  split
  · next cause failed => cases failed.symm.trans taken
  · next chars found =>
    cases found.symm.trans taken
    rw [same, List.drop_left]
  · next kind text chars found => cases found.symm.trans taken

theorem scan_lexeme {kind : Kind} {text raw : List Char} (same : c :: cs = raw ++ rest)
    (taken : piece c cs = .ok (.lexeme kind text raw)) :
    scan p (c :: cs) = (scan (p.after raw) rest).map (⟨kind, String.ofList text, p⟩ :: ·) := by
  rw [scan]
  split
  · next cause failed => cases failed.symm.trans taken
  · next chars found => cases found.symm.trans taken
  · next kind' text' chars found =>
    cases found.symm.trans taken
    rw [same, List.drop_left]
    cases scan (p.after raw) rest <;> rfl

-- The lexer takes a run of blanks at once; taken one by one they come to the same.
theorem scan_blank (blank : isBlank c) : scan p (c :: cs) = scan (p.step c) cs := by
  have whole : c :: cs = (c :: cs.takeWhile isBlank) ++ cs.dropWhile isBlank := by simp
  rw [scan_gap whole (piece_blank blank)]
  cases cs with
  | nil => rfl
  | cons d ds =>
    by_cases next : isBlank d
    · have later : d :: ds = (d :: ds.takeWhile isBlank) ++ ds.dropWhile isBlank := by simp
      rw [scan_gap later (piece_blank next)]
      simp [next, Position.after]
    · simp [next, Position.after]

theorem scan_comment {body : List Char} (line : '\n' ∉ body) (ends : ∀ c ∈ rest.head?, c = '\n') :
    scan p ('/' :: '/' :: (body ++ rest)) = scan (p.after ('/' :: '/' :: body)) rest := by
  have comment : opensComment '/' ('/' :: (body ++ rest)) = true := rfl
  have inside : ∀ c ∈ '/' :: body, (c != '\n') = true := by
    rw [List.forall_mem_cons]
    refine ⟨by decide, fun c present => ?_⟩
    rw [bne_iff_ne]
    rintro rfl
    exact line present
  have stop : rest.takeWhile (· != '\n') = [] := by
    cases rest with
    | nil => rfl
    | cons d ds => simp [ends d rfl]
  have taken := piece_comment comment
  rw [← List.cons_append, List.takeWhile_append_of_pos inside, stop, List.append_nil] at taken
  exact scan_gap rfl taken

theorem Gap.scan (h : Gap gap rest) (p : Position) :
    scan p (gap ++ rest) = scan (p.after gap) rest := by
  induction h generalizing p with
  | nil => rfl
  | blank blank _ ih => rw [List.cons_append, scan_blank blank, ih]; rfl
  | @comment body gap rest line ends _ ih =>
    rw [List.cons_append, List.cons_append, List.append_assoc, scan_comment line ends, ih,
      ← Position.after_append]
    rfl

theorem Part.Fits.scan {part : Part} (fits : part.Fits before rest) :
    Token.scan (.behind before) (part.gap ++ (part.raw ++ rest)) =
      (Token.scan (.behind (before ++ (part.gap ++ part.raw))) rest).map (part.token :: ·) := by
  obtain ⟨c, cs, starts⟩ := List.exists_cons_of_ne_nil fits.lexeme.raw_ne_nil
  have next : part.raw ++ rest = c :: (cs ++ rest) := by rw [starts, List.cons_append]
  have noComment : opensComment c (cs ++ rest) = false := by
    rw [← Bool.not_eq_true, opensComment_iff, ← next]
    exact fits.noComment
  have taken := piece_eq_lexeme_iff.mpr
    ⟨fits.lexeme, next ▸ List.prefix_append _ _, next ▸ fits.longest, noComment⟩
  have place : (Position.behind (before ++ part.gap)).after part.raw =
      .behind (before ++ (part.gap ++ part.raw)) := by
    rw [Position.after_behind, List.append_assoc]
  rw [fits.gap.scan, Position.after_behind, next, scan_lexeme next.symm taken, place,
    ← fits.position, String.ofList_toList]

theorem Laid.scan {parts : List Part} (laid : Laid before last parts) :
    scan (.behind before) (spell parts ++ last) =
      .ok (parts.map Part.token ++ [eof (.behind (before ++ (spell parts ++ last)))]) := by
  induction parts generalizing before with
  | nil =>
    have gap : Gap last [] := laid
    have read := gap.scan (.behind before)
    rw [List.append_nil, Position.after_behind, Token.scan] at read
    simpa [spell] using read
  | cons part parts ih =>
    obtain ⟨fits, later⟩ := laid
    have shape : spell (part :: parts) ++ last =
        part.gap ++ (part.raw ++ (spell parts ++ last)) := by simp [spell]
    rw [shape, fits.scan, ih later]
    simp [Except.map]

theorem Laid.behindGap {parts : List Part} (ahead : Gap gap (spell parts ++ last))
    (laid : Laid (before ++ gap) last parts) :
    ∃ parts' last', spell parts' ++ last' = gap ++ (spell parts ++ last) ∧
      Laid before last' parts' ∧ parts'.map Part.token = parts.map Part.token := by
  cases parts with
  | nil =>
    refine ⟨[], gap ++ last, rfl, ?_, rfl⟩
    exact Gap.append (by simpa [spell] using ahead) laid
  | cons part parts =>
    obtain ⟨fits, later⟩ := laid
    refine ⟨⟨gap ++ part.gap, part.raw, part.token⟩ :: parts, last, by simp [spell], ?_, rfl⟩
    refine ⟨⟨?_, fits.lexeme, fits.longest, fits.noComment, ?_⟩, ?_⟩
    · exact Gap.append (by simpa [spell] using ahead) fits.gap
    · rw [fits.position, List.append_assoc]
    · simpa using later

theorem scan_laid (read : scan p cs = .ok tokens) (place : p = .behind before) :
    ∃ parts last, cs = spell parts ++ last ∧ Laid before last parts ∧
      tokens = parts.map Part.token ++ [eof (.behind (before ++ cs))] := by
  fun_induction scan p cs generalizing before tokens with
  | case1 p =>
    cases read
    exact ⟨[], [], rfl, .nil, by simp [place]⟩
  | case2 p c rest cause failed => cases read
  | case3 p c rest gap taken ih =>
    obtain ⟨behind, same, isGap⟩ := piece_gap taken
    rw [same, List.drop_left] at ih read
    obtain ⟨parts, last, rfl, laid, rfl⟩ := ih read (by rw [place, Position.after_behind])
    obtain ⟨parts', last', whole, laid', tokens⟩ := laid.behindGap isGap
    exact ⟨parts', last', by rw [same, whole], laid', by rw [tokens, same, List.append_assoc]⟩
  | case4 p c rest kind text raw taken ih =>
    obtain ⟨lexeme, ⟨behind, same⟩, longest, noComment⟩ := piece_eq_lexeme_iff.mp taken
    rw [← same, List.drop_left] at ih read
    cases later : scan (p.after raw) behind with
    | error error =>
      rw [later] at read
      cases read
    | ok others =>
      rw [later] at read
      cases read
      have reached : p.after raw = .behind (before ++ raw) := by
        rw [place, Position.after_behind]
      obtain ⟨parts, last, rfl, laid, rfl⟩ := ih later reached
      refine ⟨⟨[], raw, ⟨kind, String.ofList text, p⟩⟩ :: parts, last, ?_, ⟨?_, ?_⟩, ?_⟩
      · simp [spell, ← same]
      · refine ⟨.nil, by simpa using lexeme, ?_, ?_, by simp [place]⟩
        · rw [same]
          exact longest
        · rw [same, ← opensComment_iff, noComment]
          simp
      · simpa using laid
      · simp [← same]

theorem laid_split {parts : List Part} (laid : Laid before last parts) :
    Gap last [] ∧ ∀ left part right, parts = left ++ part :: right →
      part.Fits (before ++ spell left) (spell right ++ last) := by
  induction parts generalizing before with
  | nil => exact ⟨laid, fun left part right none => by simp at none⟩
  | cons first parts ih =>
    obtain ⟨fits, later⟩ := laid
    obtain ⟨ending, others⟩ := ih later
    refine ⟨ending, fun left part right split => ?_⟩
    cases left with
    | nil =>
      obtain ⟨rfl, rfl⟩ := List.cons.inj split
      simpa [spell] using fits
    | cons other left =>
      obtain ⟨rfl, later⟩ := List.cons.inj split
      simpa [spell] using others left part right later

theorem laid_of_split {parts : List Part} (ending : Gap last [])
    (each : ∀ left part right, parts = left ++ part :: right →
      part.Fits (before ++ spell left) (spell right ++ last)) : Laid before last parts := by
  induction parts generalizing before with
  | nil => exact ending
  | cons first parts ih =>
    refine ⟨by simpa [spell] using each [] first parts rfl, ih fun left part right split => ?_⟩
    simpa [spell] using each (first :: left) part right (by rw [split, List.cons_append])

end Token

end ScriptCpp
