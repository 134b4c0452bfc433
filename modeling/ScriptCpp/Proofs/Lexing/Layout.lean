import Mathlib
import ScriptCpp.Proofs.Parsing.Source

set_option autoImplicit false

namespace ScriptCpp.Token

def written (kind : Kind) (text : List Char) : List Char :=
  if kind = .string then '"' :: (text ++ ['"']) else text

structure Lexeme where
  kind : Kind
  text : String
  lexical : IsLexeme kind text.toList (written kind text.toList)

/-- Blanks and comments in any order, each comment with the newline that ends it. -/
inductive Filler : List Char → Prop
  | nil : Filler []
  | blank {c : Char} {more : List Char} (blank : isBlank c) (rest : Filler more) : Filler (c :: more)
  | comment {body more : List Char} (line : '\n' ∉ body) (rest : Filler more) :
      Filler ('/' :: '/' :: (body ++ '\n' :: more))

structure Spacing where
  first : Char
  more : List Char
  blank : isBlank first
  filler : Filler more

def Spacing.chars (s : Spacing) : List Char := s.first :: s.more

def render (items : List (Lexeme × Spacing)) : List Char :=
  items.flatMap fun item => written item.1.kind item.1.text.toList ++ item.2.chars

def content (t : Token) : Kind × String := (t.kind, t.text)

def Lexeme.content (l : Lexeme) : Kind × String := (l.kind, l.text)

variable {c b : Char} {cs rest text raw : List Char} {kind : Kind}

theorem ofWord_ne_string (word : String) : Kind.ofWord word ≠ .string := by
  unfold Kind.ofWord
  split <;> simp

theorem IsLexeme.raw_eq (lexeme : IsLexeme kind text raw) : raw = written kind text := by
  cases lexeme with
  | string => simp [written]
  | whole | point | symbol => simp [written]
  | word => simp [written, ofWord_ne_string]

theorem Filler.gap {chars : List Char} (h : Filler chars) (rest : List Char) : Gap chars rest := by
  induction h with
  | nil => exact .nil
  | blank blank _ ih => exact .blank blank ih
  | @comment body more line _ ih =>
    refine .comment line ?_ (.blank (by decide) ih)
    simp

theorem Spacing.gap (s : Spacing) (rest : List Char) : Gap s.chars rest :=
  .blank s.blank (s.filler.gap rest)

theorem apart_of_isBlank (blank : isBlank b = true) :
    isNamePart b = false ∧ b.isDigit = false ∧ b ≠ '.' ∧ b ≠ '/' := by
  simp only [isBlank, Bool.or_eq_true, decide_eq_true_eq] at blank
  rcases blank with ((rfl | rfl) | rfl) | rfl <;> decide

theorem takeWhile_before {p : Char → Bool} (all : ∀ d ∈ cs, p d) (stop : p b = false) :
    (cs ++ b :: rest).takeWhile p = cs := by
  simp [List.takeWhile_append_of_pos all, stop]

theorem numeral_before {ds : List Char} (digits : ∀ d ∈ ds, d.isDigit) (digit : b.isDigit = false)
    (point : b ≠ '.') : numeral (ds ++ b :: rest) = ds := by
  unfold numeral
  rw [takeWhile_before digits digit, List.dropWhile_append_of_pos digits,
    List.dropWhile_cons_of_neg (by simp [digit])]
  split
  · next same =>
    obtain ⟨rfl, -⟩ := List.cons.inj same
    exact absurd rfl point
  · rfl

theorem ofPrefix?_before (sign : Symbol) (blank : isBlank b = true) :
    Symbol.ofPrefix? (sign.spelling ++ b :: rest) = some sign := by
  obtain ⟨found, hit, longer⟩ := ofPrefix?_longest (List.prefix_append sign.spelling (b :: rest))
  have solid : found.spelling.all (fun c => !isBlank c) = true := by cases found <;> decide
  have absent : b ∉ found.spelling := by
    intro present
    have visible := List.all_eq_true.mp solid b present
    simp [blank] at visible
  have opens := ofPrefix?_prefix hit
  have within := prefix_before absent opens
  obtain rfl := spelling_injective (within.eq_of_length_le longer)
  exact hit

theorem spelling_not_comment (sign : Symbol) : ¬ ['/', '/'] <+: sign.spelling := by
  cases sign <;> decide

-- Each kind of lexeme stops at a blank for a reason of its own.
theorem IsLexeme.piece_before (lexeme : IsLexeme kind text raw) (blank : isBlank b = true)
    (shape : raw = c :: cs) : piece c (cs ++ b :: rest) = .ok (.lexeme kind text raw) := by
  obtain ⟨name, digit, point, slash⟩ := apart_of_isBlank blank
  cases lexeme with
  | string closed =>
    obtain ⟨rfl, rfl⟩ := List.cons.inj shape
    rw [List.append_assoc, List.singleton_append]
    exact piece_quote_some (closed.read (b :: rest))
  | whole some digits =>
    subst shape
    have stops : Token.numeral (c :: cs ++ b :: rest) = c :: cs :=
      numeral_before digits digit point
    rw [piece_digit (digits c List.mem_cons_self), ← List.cons_append, stops]
  | @point ds es some digits decimals =>
    obtain ⟨d, ds, rfl⟩ := List.exists_cons_of_ne_nil some
    rw [List.cons_append] at shape
    obtain ⟨rfl, rfl⟩ := List.cons.inj shape
    have stops := numeral_point digits es (b :: rest)
    rw [takeWhile_before decimals digit] at stops
    rw [piece_digit (digits d List.mem_cons_self), List.append_assoc, List.cons_append,
      ← List.cons_append, stops]
  | word start parts =>
    obtain ⟨rfl, rfl⟩ := List.cons.inj shape
    rw [piece_nameStart start, takeWhile_before parts name]
  | symbol sign =>
    have hit : Symbol.ofPrefix? (sign.spelling ++ b :: rest) = some sign := ofPrefix?_before sign blank
    obtain ⟨d, ds, spelled, signStart⟩ := spelling_cons sign
    obtain ⟨rfl, rfl⟩ := List.cons.inj (spelled.symm.trans shape)
    have noComment : opensComment d (ds ++ b :: rest) = false := by
      rw [← Bool.not_eq_true, opensComment_iff, ← List.cons_append, ← spelled]
      intro opens
      exact spelling_not_comment sign (prefix_before (by simpa using slash) opens)
    rw [spelled, List.cons_append] at hit
    exact piece_symbol signStart noComment hit

theorem Lexeme.scan (l : Lexeme) (s : Spacing) (p : Position) (rest : List Char) :
    ∃ q, Token.scan p (written l.kind l.text.toList ++ s.chars ++ rest) =
      (Token.scan q rest).map (⟨l.kind, l.text, p⟩ :: ·) := by
  obtain ⟨c, cs, shape⟩ := List.exists_cons_of_ne_nil l.lexical.raw_ne_nil
  have taken : piece c (cs ++ (s.chars ++ rest)) = _ := l.lexical.piece_before s.blank shape
  have whole : c :: (cs ++ (s.chars ++ rest)) =
      written l.kind l.text.toList ++ (s.chars ++ rest) := by rw [shape, List.cons_append]
  refine ⟨(p.after (written l.kind l.text.toList)).after s.chars, ?_⟩
  rw [List.append_assoc, ← whole, scan_lexeme whole taken, (s.gap rest).scan, String.ofList_toList]

theorem scan_render (items : List (Lexeme × Spacing)) (p : Position) :
    ∃ tokens, scan p (render items) = .ok tokens ∧
      tokens.map content = items.map (·.1.content) ++ [(.eof, "EOF")] := by
  induction items generalizing p with
  | nil => exact ⟨[eof p], by rw [render, List.flatMap_nil, scan], rfl⟩
  | cons item items ih =>
    obtain ⟨q, here⟩ := item.1.scan item.2 p (render items)
    obtain ⟨tokens, later, contents⟩ := ih q
    refine ⟨⟨item.1.kind, item.1.text, p⟩ :: tokens, ?_, ?_⟩
    · rw [render, List.flatMap_cons, ← render, here, later]
      rfl
    · rw [List.map_cons, contents]
      rfl

theorem exists_lexemes {ts : List Token}
    (lexical : ∀ t ∈ ts, ∃ raw, IsLexeme t.kind t.text.toList raw) :
    ∃ lexemes : List Lexeme, lexemes.map Lexeme.content = ts.map content := by
  induction ts with
  | nil => exact ⟨[], rfl⟩
  | cons t ts ih =>
    obtain ⟨⟨raw, here⟩, later⟩ := List.forall_mem_cons.mp lexical
    obtain ⟨lexemes, same⟩ := ih later
    refine ⟨⟨t.kind, t.text, here.raw_eq ▸ here⟩ :: lexemes, ?_⟩
    rw [List.map_cons, same]
    rfl

/-- Lexemes with a gap behind each, one blank and then blanks and comments, are read back in order, with
their kinds and their texts. Every list of tokens that is read consists of lexemes, so written out with
any gaps it is read again. -/
theorem ofText_render :
    (∀ items : List (Lexeme × Spacing), ∃ tokens, ofText (String.ofList (render items)) = .ok tokens ∧
      tokens.map content = items.map (·.1.content) ++ [(.eof, "EOF")]) ∧
    ∀ text tokens, ofText text = .ok tokens → ∃ lexemes : List Lexeme,
      tokens.map content = lexemes.map Lexeme.content ++ [(.eof, "EOF")] ∧
      ∀ items : List (Lexeme × Spacing), items.map Prod.fst = lexemes →
        ∃ again, ofText (String.ofList (render items)) = .ok again ∧
          again.map content = tokens.map content := by
  have reads : ∀ items : List (Lexeme × Spacing), ∃ tokens,
      ofText (String.ofList (render items)) = .ok tokens ∧
        tokens.map content = items.map (·.1.content) ++ [(.eof, "EOF")] := by
    intro items
    rw [ofText, String.toList_ofList]
    exact scan_render items .start
  refine ⟨reads, fun text tokens read => ?_⟩
  obtain ⟨ts, rfl, lexical⟩ := ofText_lexemes read
  obtain ⟨lexemes, contents⟩ := exists_lexemes lexical
  refine ⟨lexemes, ?_, fun items same => ?_⟩
  · rw [contents, List.map_append]
    rfl
  · obtain ⟨again, reread, kept⟩ := reads items
    refine ⟨again, reread, ?_⟩
    rw [kept, ← Function.comp_def, ← List.map_map, same, contents, List.map_append]
    rfl

-- A point that stands last before a comment, a slash, an escaped quote and a keyword.
def mixedItems : List (Lexeme × Spacing) :=
  [(⟨.number, "1.", @IsLexeme.point ['1'] [] (by simp) (by simp) (by simp)⟩,
      ⟨' ', "// a\n".toList, rfl, @Filler.comment [' ', 'a'] [] (by decide) .nil⟩),
    (⟨.symbol .divide, "/", .symbol .divide⟩, ⟨' ', [], rfl, .nil⟩),
    (⟨.string, "\\\"", .string (.escape (by decide) .nil)⟩, ⟨'\t', [], rfl, .nil⟩),
    (⟨.keyword .func_, "fn", @IsLexeme.word 'f' ['n'] rfl (by simp; decide)⟩, ⟨'\n', [], rfl, .nil⟩)]

theorem ofText_render_mixed : ∃ tokens, ofText "1. // a\n/ \"\\\"\"\tfn\n" = .ok tokens ∧
    tokens.map content = [(.number, "1."), (.symbol .divide, "/"), (.string, "\\\""),
      (.keyword .func_, "fn"), (.eof, "EOF")] := by
  have shown : String.ofList (render mixedItems) = "1. // a\n/ \"\\\"\"\tfn\n" := by decide +kernel
  rw [← shown]
  exact ofText_render.1 mixedItems

end ScriptCpp.Token
