import Mathlib
import ScriptCpp.Proofs.Lexing.ByteWalk
import ScriptCpp.Proofs.Lexing.Zone

set_option autoImplicit false

namespace ScriptCpp.Token

/-- The text or the line ends before a quote closes the string; a backslash right before that end
escapes nothing. -/
def Unclosed (inside : List Char) : Prop :=
  ∃ body backslash tail, inside = body ++ (backslash ++ tail) ∧ StringBody body ∧
    (backslash = [] ∨ backslash = ['\\']) ∧ ∀ c ∈ tail.head?, c = '\n'

/-- A character that starts no gap, no string and no other lexeme. -/
structure Stray (c : Char) (more : List Char) : Prop where
  solid : isBlank c = false
  noQuote : c ≠ '"'
  noLexeme : ∀ kind text raw, IsLexeme kind text raw → ¬ raw <+: c :: more

inductive Offends : LexicalCause → List Char → Prop
  | unclosed {inside : List Char} (unclosed : Unclosed inside) : Offends .unterminatedString ('"' :: inside)
  | stray {c : Char} {more : List Char} (stray : Stray c more) : Offends (.unexpected c) (c :: more)

variable {c : Char} {cs more gap rest text raw before : List Char} {kind : Kind} {cause : LexicalCause}
  {p : Position} {e : LexicalError} {z : Zone} {tokens : List Token}

theorem unclosed_of_stringBody (unread : stringBody cs = none) : Unclosed cs := by
  fun_induction stringBody cs with
  | case1 => exact ⟨[], [], [], rfl, .nil, .inl rfl, by simp⟩
  | case2 rest => cases unread
  | case3 rest => exact ⟨[], ['\\'], '\n' :: rest, rfl, .nil, .inr rfl, by simp⟩
  | case4 c rest newline ih =>
    obtain ⟨body, backslash, tail, rfl, closed, ending⟩ := ih (Option.map_eq_none_iff.mp unread)
    exact ⟨'\\' :: c :: body, backslash, tail, rfl, .escape newline closed, ending⟩
  | case5 rest => exact ⟨[], [], '\n' :: rest, rfl, .nil, .inl rfl, by simp⟩
  | case6 c rest quote escapes newline ih =>
    by_cases backslash : c = '\\'
    · -- A backslash that escapes nothing stands last.
      cases rest with
      | nil => exact ⟨[], ['\\'], [], by rw [backslash]; rfl, .nil, .inr rfl, by simp⟩
      | cons d rest => exact (escapes d rest backslash rfl).elim
    · obtain ⟨body, slash, tail, rfl, closed, ending⟩ := ih (Option.map_eq_none_iff.mp unread)
      exact ⟨c :: body, slash, tail, rfl, .plain quote backslash newline closed, ending⟩

theorem stringBody_of_unclosed (unclosed : Unclosed cs) : stringBody cs = none := by
  obtain ⟨body, backslash, tail, rfl, closed, last, ending⟩ := unclosed
  induction closed with
  | nil =>
    cases tail with
    | nil => rcases last with rfl | rfl <;> rfl
    | cons c tail =>
      obtain rfl := ending c rfl
      rcases last with rfl | rfl <;> simp [stringBody]
  | plain quote slash newline _ ih =>
    rw [List.cons_append, stringBody_cons quote slash newline, ih, Option.map_none]
  | escape newline _ ih =>
    rw [List.cons_append, List.cons_append, stringBody_escape newline, ih, Option.map_none]

theorem stray_of_piece (signStart : isSignStart c = true) (noComment : opensComment c cs = false)
    (missed : Symbol.ofPrefix? (c :: cs) = none) : Stray c cs := by
  obtain ⟨solid, noQuote, -, -⟩ := isSignStart_iff.mp signStart
  refine ⟨solid, noQuote, fun kind text raw lexeme start => ?_⟩
  obtain ⟨_, _, _, taken, -⟩ := piece_of_lexeme lexeme start noComment
  cases taken.symm.trans (piece_unexpected signStart noComment missed)

theorem Stray.noStart (stray : Stray c more) :
    c ≠ '/' ∧ c.isDigit = false ∧ isNameStart c = false := by
  have single : [c] <+: c :: more := ⟨more, rfl⟩
  refine ⟨?_, ?_, ?_⟩
  · rintro rfl
    exact stray.noLexeme _ _ _ (.symbol .divide) single
  · by_contra digit
    exact stray.noLexeme _ _ _ (.whole (by simp) (by simpa using digit)) single
  · by_contra start
    exact stray.noLexeme _ _ _ (.word (by simpa using start) (List.forall_mem_nil _)) single

theorem piece_of_stray (stray : Stray c more) : piece c more = .error (.unexpected c) := by
  obtain ⟨slash, digit, name⟩ := stray.noStart
  have signStart := isSignStart_iff.mpr ⟨stray.solid, stray.noQuote, digit, name⟩
  refine piece_unexpected signStart (by simp [opensComment, slash]) ?_
  by_contra found
  obtain ⟨sign, hit⟩ := Option.ne_none_iff_exists'.mp found
  have start := ofPrefix?_prefix hit
  exact stray.noLexeme _ _ _ (.symbol sign) start

theorem piece_eq_error_iff : piece c cs = .error cause ↔ Offends cause (c :: cs) := by
  constructor
  · intro failed
    rcases first_cases c cs with blank | comment | rfl | digit | start | ⟨signStart, noComment⟩
    · cases failed.symm.trans (piece_blank blank)
    · cases failed.symm.trans (piece_comment comment)
    · cases read : stringBody cs with
      | none =>
        cases failed.symm.trans (piece_quote_none read)
        exact .unclosed (unclosed_of_stringBody read)
      | some found => cases failed.symm.trans (piece_quote_some read)
    · cases failed.symm.trans (piece_digit digit)
    · cases failed.symm.trans (piece_nameStart start)
    · cases hit : Symbol.ofPrefix? (c :: cs) with
      | none =>
        cases failed.symm.trans (piece_unexpected signStart noComment hit)
        exact .stray (stray_of_piece signStart noComment hit)
      | some sign => cases failed.symm.trans (piece_symbol signStart noComment hit)
  · intro offends
    cases offends with
    | unclosed unclosed => exact piece_quote_none (stringBody_of_unclosed unclosed)
    | stray stray => exact piece_of_stray stray

/-- A character that makes no lexeme alone and is no part of a name ends every lexeme but a string. -/
structure Severs (c : Char) : Prop where
  noPart : isNamePart c = false
  noLexeme : ∀ kind text, ¬ IsLexeme kind text [c]

theorem isNamePart_eq_false (digit : c.isDigit = false) (start : isNameStart c = false) :
    isNamePart c = false := by
  simp only [isNameStart, Bool.or_eq_false_iff] at start
  simp [isNamePart, Char.isAlphanum, digit, start]

theorem IsLexeme.quoted (lexeme : IsLexeme kind text ('"' :: cs)) :
    ∃ body, StringBody body ∧ cs = body ++ ['"'] := by
  generalize shape : '"' :: cs = raw at lexeme
  cases lexeme with
  | string closed => exact ⟨_, closed, (List.cons.inj shape).2⟩
  | whole _ digits =>
    have digit := digits '"' (shape ▸ List.mem_cons_self)
    exact absurd digit (by decide)
  | @point ds es some digits _ =>
    obtain ⟨d, ds, rfl⟩ := List.exists_cons_of_ne_nil some
    obtain rfl : '"' = d := (List.cons.inj shape).1
    exact absurd (digits '"' List.mem_cons_self) (by decide)
  | word start _ =>
    obtain rfl := (List.cons.inj shape).1
    exact absurd start (by decide)
  | symbol sign =>
    obtain ⟨d, ds, spelled, signStart⟩ := spelling_cons sign
    obtain rfl := (List.cons.inj (shape.trans spelled)).1
    exact absurd signStart (by decide)

theorem Offends.severs (offends : Offends cause rest) : ∃ c more, rest = c :: more ∧ Severs c := by
  cases offends with
  | unclosed =>
    refine ⟨_, _, rfl, by decide, fun kind text lexeme => ?_⟩
    obtain ⟨body, -, empty⟩ := lexeme.quoted
    simp at empty
  | stray stray =>
    obtain ⟨-, digit, name⟩ := stray.noStart
    refine ⟨_, _, rfl, isNamePart_eq_false digit name, fun kind text lexeme => ?_⟩
    exact stray.noLexeme _ _ _ lexeme ⟨_, rfl⟩

-- The second character of a symbol is a symbol too, or the same as the first.
theorem spelling_tail (sign : Symbol) {d : Char} (spelled : sign.spelling = d :: cs) :
    cs = [] ∨ ∃ b, cs = [b] ∧ (d = b ∨ ∃ other : Symbol, other.spelling = [b]) := by
  cases sign <;> cases spelled
  case arrow => exact .inr ⟨_, rfl, .inr ⟨.greater, rfl⟩⟩
  case equal | notEqual | lessEqual | greaterEqual => exact .inr ⟨_, rfl, .inr ⟨.assign, rfl⟩⟩
  case and | or => exact .inr ⟨_, rfl, .inl rfl⟩
  all_goals exact .inl rfl

theorem IsLexeme.severed {d : Char} {front back : List Char}
    (lexeme : IsLexeme kind text (d :: (front ++ c :: back))) (severs : Severs c) :
    d = '"' ∨ (front = [] ∧ d = c) := by
  generalize shape : d :: (front ++ c :: back) = raw at lexeme
  have inside : c ∈ raw := by simp [← shape]
  have noDigit : ¬ c.isDigit = true := by
    intro digit
    cases severs.noPart.symm.trans (isNamePart_of_isDigit digit)
  cases lexeme with
  | string => exact .inl (List.cons.inj shape).1
  | whole _ digits => exact absurd (digits c inside) noDigit
  | point _ digits decimals =>
    rcases List.mem_append.mp inside with whole | behind
    · exact absurd (digits c whole) noDigit
    · rcases List.mem_cons.mp behind with rfl | decimal
      · exact absurd (.symbol .dot) (severs.noLexeme _ _)
      · exact absurd (decimals c decimal) noDigit
  | word _ parts =>
    obtain ⟨-, rfl⟩ := List.cons.inj shape
    cases severs.noPart.symm.trans (parts c (by simp))
  | symbol sign =>
    rcases spelling_tail sign shape.symm with none | ⟨b, alone, kinds⟩
    · simp at none
    · cases front with
      | cons x front => simp at alone
      | nil =>
        obtain ⟨rfl, -⟩ := List.cons.inj alone
        rcases kinds with same | ⟨other, spelled⟩
        · exact .inr ⟨rfl, same⟩
        · have lexeme := IsLexeme.symbol other
          rw [spelled] at lexeme
          exact absurd lexeme (severs.noLexeme _ _)

theorem prefix_or_past {front other : List Char} (start : other <+: front ++ c :: more) :
    other <+: front ∨ ∃ back, other = front ++ c :: back := by
  rcases List.prefix_or_prefix_of_prefix start (List.prefix_append front (c :: more)) with
    within | ⟨past, rfl⟩
  · exact .inl within
  · rw [List.prefix_append_right_inj] at start
    cases past with
    | nil => exact .inl (by simp)
    | cons d past =>
      obtain rfl := (List.cons_prefix_cons.mp start).1
      exact .inr ⟨past, rfl⟩

theorem Longest.beside (lexeme : IsLexeme kind text raw) (longest : Longest raw (raw ++ rest))
    (severs : Severs c) : Longest raw (raw ++ (rest ++ c :: more)) := by
  intro kind' text' other lexeme' start
  rw [← List.append_assoc] at start
  rcases prefix_or_past start with within | ⟨back, rfl⟩
  · exact longest lexeme' within
  · obtain ⟨d, ds, rfl⟩ := List.exists_cons_of_ne_nil lexeme.raw_ne_nil
    rw [List.cons_append, List.cons_append] at lexeme'
    rcases lexeme'.severed severs with rfl | ⟨empty, rfl⟩
    · -- Both are strings, and the first quote that closes one closes the other.
      obtain ⟨body, closed, rfl⟩ := lexeme.quoted
      obtain ⟨body', closed', same⟩ := lexeme'.quoted
      have first := closed.read (rest ++ c :: back)
      have second := closed'.read []
      rw [← same, List.append_assoc, List.append_assoc, List.singleton_append, first] at second
      simp at second
    · obtain ⟨rfl, -⟩ := List.append_eq_nil_iff.mp empty
      exact absurd lexeme (severs.noLexeme _ _)

theorem noComment_beside (some : raw ≠ []) (noComment : ¬ ['/', '/'] <+: raw ++ rest)
    (severs : Severs c) : ¬ ['/', '/'] <+: raw ++ (rest ++ c :: more) := by
  intro start
  rw [← List.append_assoc] at start
  rcases prefix_or_past start with within | ⟨back, same⟩
  · exact noComment within
  · obtain ⟨d, ds, rfl⟩ := List.exists_cons_of_ne_nil some
    obtain rfl : c = '/' := by
      have present : c ∈ ['/', '/'] := by simp [same]
      simpa using present
    exact severs.noLexeme _ _ (.symbol .divide)

theorem Gap.cut {tail : List Char} (h : Gap gap (rest ++ tail)) : Gap gap rest := by
  generalize behind : rest ++ tail = after at h
  induction h with
  | nil => exact .nil
  | blank blank _ ih => exact .blank blank (ih behind)
  | @comment body gap _ line ends _ ih =>
    refine .comment line (fun c first => ends c ?_) (ih behind)
    rw [← behind, ← List.append_assoc]
    exact List.mem_head?_append_of_mem_head? first

theorem Gap.widen (h : Gap gap rest) (some : rest ≠ []) (tail : List Char) : Gap gap (rest ++ tail) := by
  induction h with
  | nil => exact .nil
  | blank blank _ ih => exact .blank blank (ih some)
  | @comment body gap rest line ends _ ih =>
    refine .comment line (fun c first => ends c ?_) (ih some)
    rw [← List.append_assoc, List.head?_append_of_ne_nil _ (by simp [some])] at first
    exact first

theorem scan_refused (refused : piece c cs = .error cause) : scan p (c :: cs) = .error ⟨cause, p⟩ := by
  rw [scan]
  split
  · next failed =>
    cases failed.symm.trans refused
    rfl
  · next taken => cases taken.symm.trans refused
  · next taken => cases taken.symm.trans refused

theorem IsLexeme.scan (lexeme : IsLexeme kind text raw) (longest : Longest raw (raw ++ rest))
    (noComment : ¬ ['/', '/'] <+: raw ++ rest) (p : Position) :
    Token.scan p (raw ++ rest) =
      (Token.scan (p.after raw) rest).map (⟨kind, String.ofList text, p⟩ :: ·) := by
  obtain ⟨c, cs, rfl⟩ := List.exists_cons_of_ne_nil lexeme.raw_ne_nil
  rw [List.cons_append, ← opensComment_iff, Bool.not_eq_true] at noComment
  have taken := piece_eq_lexeme_iff.mpr ⟨lexeme, List.prefix_append _ rest, longest, noComment⟩
  exact scan_lexeme rfl taken

theorem scan_cut (failed : scan p cs = .error e) (starts : z.Starts cs) :
    ∃ before c more tokens, cs = before ++ c :: more ∧ piece c more = .error e.cause ∧
      scan p before = .ok (tokens ++ [eof e.position]) ∧
      (before.foldl Zone.step z).Starts (c :: more) := by
  fun_induction scan p cs generalizing z with
  | case1 => cases failed
  | case2 p c rest cause refused =>
    cases failed
    exact ⟨[], c, rest, [], rfl, refused, by rw [scan]; rfl, starts⟩
  | case3 p c rest gap taken ih =>
    obtain ⟨behind, same, isGap⟩ := piece_gap taken
    rw [same] at starts ⊢
    rw [same, List.drop_left] at ih failed
    obtain ⟨before, d, more, tokens, rfl, refused, read, next⟩ := ih failed (starts.past_gap isGap)
    refine ⟨gap ++ before, d, more, tokens, by simp, refused, ?_, by rwa [List.foldl_append]⟩
    rw [isGap.cut.scan p]
    exact read
  | case4 p c rest kind text raw taken ih =>
    obtain ⟨lexeme, ⟨behind, same⟩, longest, noComment⟩ := piece_eq_lexeme_iff.mp taken
    rw [← Bool.not_eq_true, opensComment_iff] at noComment
    rw [← same] at starts longest noComment ⊢
    rw [← same, List.drop_left] at ih failed
    have later : scan (p.after raw) behind = .error e := by
      cases read : scan (p.after raw) behind with
      | error e' =>
        rw [read] at failed
        exact failed
      | ok others =>
        rw [read] at failed
        cases failed
    obtain ⟨before, d, more, tokens, rfl, refused, read, next⟩ :=
      ih later (starts.past_lexeme lexeme noComment)
    refine ⟨raw ++ before, d, more, ⟨kind, String.ofList text, p⟩ :: tokens, by simp, refused, ?_,
      by rwa [List.foldl_append]⟩
    rw [← List.append_assoc] at longest noComment
    -- Where the text is cut there are fewer lexemes to choose from, and this one is among them.
    have shorter : Longest raw (raw ++ before) := fun _ _ _ other start =>
      longest other (start.trans (List.prefix_append _ _))
    rw [lexeme.scan shorter fun start => noComment (start.trans (List.prefix_append _ _)), read]
    rfl

theorem scan_beside (read : scan p before = .ok tokens) (starts : z.Starts before)
    (outside : before.foldl Zone.step z ≠ .comment) (severs : Severs c) (more : List Char) :
    ∃ ts, tokens = ts ++ [eof (p.after before)] ∧
      scan p (before ++ c :: more) = (scan (p.after before) (c :: more)).map (ts ++ ·) := by
  fun_induction scan p before generalizing z tokens with
  | case1 p =>
    cases read
    refine ⟨[], rfl, ?_⟩
    rw [List.nil_append, Position.after_nil]
    cases scan p (c :: more) <;> rfl
  | case2 p d rest cause refused => cases read
  | case3 p d rest gap taken ih =>
    obtain ⟨behind, same, isGap⟩ := piece_gap taken
    rw [same] at starts outside ⊢
    rw [same, List.drop_left] at ih read
    rw [List.foldl_append] at outside
    obtain ⟨ts, rfl, scanned⟩ := ih read (starts.past_gap isGap) outside
    -- Only a comment that ends the text could go on, and `outside` says that there is none.
    have wider : Gap gap (behind ++ c :: more) := by
      cases behind with
      | nil => exact starts.gap_closed isGap outside _
      | cons x behind => exact isGap.widen (by simp) _
    refine ⟨ts, by rw [Position.after_append], ?_⟩
    rw [List.append_assoc, wider.scan, scanned, Position.after_append]
  | case4 p d rest kind text raw taken ih =>
    obtain ⟨lexeme, ⟨behind, same⟩, longest, noComment⟩ := piece_eq_lexeme_iff.mp taken
    rw [← Bool.not_eq_true, opensComment_iff] at noComment
    rw [← same] at starts outside longest noComment ⊢
    rw [← same, List.drop_left] at ih read
    rw [List.foldl_append] at outside
    cases later : scan (p.after raw) behind with
    | error e =>
      rw [later] at read
      cases read
    | ok others =>
      rw [later] at read
      cases read
      obtain ⟨ts, rfl, scanned⟩ := ih later (starts.past_lexeme lexeme noComment) outside
      refine ⟨⟨kind, String.ofList text, p⟩ :: ts, by rw [Position.after_append]; rfl, ?_⟩
      rw [List.append_assoc, lexeme.scan (longest.beside lexeme severs)
        (noComment_beside lexeme.raw_ne_nil noComment severs), scanned, Position.after_append]
      cases scan ((p.after raw).after behind) (c :: more) <;> rfl

/-- The characters that gaps and lexemes are made of, apart from what stands in comments and strings. -/
def inAlphabet (c : Char) : Bool :=
  isBlank c || c = '"' || isNamePart c || Symbol.all.any fun sign => sign.spelling.contains c

def Lone (c : Char) (more : List Char) : Prop :=
  (c = '!' ∧ more.head? ≠ some '=') ∨ (c = '&' ∧ more.head? ≠ some '&') ∨
    (c = '|' ∧ more.head? ≠ some '|')

theorem inAlphabet_eq_false_iff : inAlphabet c = false ↔ isBlank c = false ∧ c ≠ '"' ∧
    isNamePart c = false ∧ ∀ sign : Symbol, c ∉ sign.spelling := by
  simp [inAlphabet, and_assoc, Symbol.mem_all]

theorem IsLexeme.first {d : Char} {ds : List Char} (lexeme : IsLexeme kind text (d :: ds)) :
    d = '"' ∨ isNamePart d = true ∨ ∃ sign : Symbol, sign.spelling = d :: ds := by
  generalize shape : d :: ds = raw at lexeme
  cases lexeme with
  | string => exact .inl (List.cons.inj shape).1
  | whole _ digits => exact .inr (.inl (isNamePart_of_isDigit (digits d (shape ▸ List.mem_cons_self))))
  | @point whole _ some digits _ =>
    obtain ⟨x, xs, rfl⟩ := List.exists_cons_of_ne_nil some
    obtain rfl := (List.cons.inj shape).1
    exact .inr (.inl (isNamePart_of_isDigit (digits d List.mem_cons_self)))
  | word start _ =>
    obtain rfl := (List.cons.inj shape).1
    exact .inr (.inl (isNamePart_of_isNameStart start))
  | symbol sign => exact .inr (.inr ⟨sign, rfl⟩)

-- Three characters are in symbols, but are none by themselves.
theorem mem_spelling_cases (sign : Symbol) (present : c ∈ sign.spelling) :
    (∃ other : Symbol, other.spelling = [c]) ∨ c = '!' ∨ c = '&' ∨ c = '|' := by
  have table : Symbol.all.all (fun sign => sign.spelling.all fun c =>
      Symbol.all.any (fun other => other.spelling = [c]) || ['!', '&', '|'].contains c) = true := by
    decide
  have entry := List.all_eq_true.mp (List.all_eq_true.mp table sign sign.mem_all) c present
  simpa [Symbol.mem_all] using entry

theorem Stray.lone (stray : Stray c more) (inside : inAlphabet c = true) : Lone c more := by
  obtain ⟨-, digit, name⟩ := stray.noStart
  have noSymbol (sign : Symbol) : ¬ sign.spelling <+: c :: more := stray.noLexeme _ _ _ (.symbol sign)
  obtain ⟨sign, present⟩ : ∃ sign : Symbol, c ∈ sign.spelling := by
    by_contra none
    have outside := inAlphabet_eq_false_iff.mpr
      ⟨stray.solid, stray.noQuote, isNamePart_eq_false digit name, not_exists.mp none⟩
    cases inside.symm.trans outside
  have partner (sign : Symbol) {d : Char} (spelled : sign.spelling = [c, d]) : more.head? ≠ some d := by
    intro next
    cases more with
    | nil => cases next
    | cons x more =>
      cases next
      exact noSymbol sign (spelled ▸ ⟨more, rfl⟩)
  rcases mem_spelling_cases sign present with ⟨other, spelled⟩ | rfl | rfl | rfl
  · exact absurd (spelled ▸ ⟨more, rfl⟩) (noSymbol other)
  · exact .inl ⟨rfl, partner .notEqual rfl⟩
  · exact .inr (.inl ⟨rfl, partner .and rfl⟩)
  · exact .inr (.inr ⟨rfl, partner .or rfl⟩)

theorem stray_of_outside (outside : inAlphabet c = false) : Stray c more := by
  obtain ⟨solid, noQuote, noPart, noSymbol⟩ := inAlphabet_eq_false_iff.mp outside
  refine ⟨solid, noQuote, fun kind text raw lexeme start => ?_⟩
  obtain ⟨d, ds, rfl⟩ := List.exists_cons_of_ne_nil lexeme.raw_ne_nil
  obtain rfl := (List.cons_prefix_cons.mp start).1
  rcases lexeme.first with quote | part | ⟨sign, spelled⟩
  · exact noQuote quote
  · cases noPart.symm.trans part
  · exact noSymbol sign (spelled ▸ List.mem_cons_self)

theorem stray_of_lone (lone : Lone c more) : Stray c more := by
  have kinds : c = '!' ∨ c = '&' ∨ c = '|' := lone.imp And.left (.imp And.left And.left)
  refine ⟨?_, ?_, fun kind text raw lexeme start => ?_⟩
  · rcases kinds with rfl | rfl | rfl <;> decide
  · rcases kinds with rfl | rfl | rfl <;> decide
  · obtain ⟨d, ds, rfl⟩ := List.exists_cons_of_ne_nil lexeme.raw_ne_nil
    obtain ⟨rfl, tail⟩ := List.cons_prefix_cons.mp start
    rcases lexeme.first with rfl | part | ⟨sign, spelled⟩
    · rcases kinds with same | same | same <;> cases same
    · rcases kinds with rfl | rfl | rfl <;> exact absurd part (by decide)
    · -- The only symbols that start so have the second character that is missing.
      obtain ⟨b, rfl, partner⟩ : ∃ b, ds = [b] ∧
          ((d = '!' ∧ b = '=') ∨ (d = '&' ∧ b = '&') ∨ (d = '|' ∧ b = '|')) := by
        rcases kinds with rfl | rfl | rfl <;> cases sign <;> cases spelled <;> exact ⟨_, rfl, by decide⟩
      obtain ⟨after, rfl⟩ := tail
      rcases partner with ⟨rfl, rfl⟩ | ⟨rfl, rfl⟩ | ⟨rfl, rfl⟩ <;> simp [Lone] at lone

theorem stray_iff : Stray c more ↔ Lone c more ∨ inAlphabet c = false := by
  constructor
  · intro stray
    cases inside : inAlphabet c with
    | true => exact .inl (stray.lone inside)
    | false => exact .inr rfl
  · rintro (lone | outside)
    · exact stray_of_lone lone
    · exact stray_of_outside outside

theorem Wide.outside (wide : Wide c) : inAlphabet c = false :=
  inAlphabet_eq_false_iff.mpr ⟨wide.isBlank, wide.ne (show ¬ 128 ≤ '"'.toNat by decide), wide.isNamePart,
    fun sign present => not_wide_of_mem_spelling sign c present wide⟩

/-- A text is refused exactly where a beginning of it that is read, and does not end in a comment, is
followed by a character that offends: a quote whose string is not closed, or a stray character, which is
the first of a symbol of two without the second or stands in no lexeme at all. -/
theorem ofText_error_iff (text : String) :
    (∀ e, ofText text = .error e ↔ ∃ before rest tokens, text.toList = before ++ rest ∧
      zone before ≠ .comment ∧ e.position = .behind before ∧
      ofText (String.ofList before) = .ok (tokens ++ [eof e.position]) ∧ Offends e.cause rest) ∧
    (∀ c more, Stray c more ↔ Lone c more ∨ inAlphabet c = false) ∧
    (∀ c, Wide c → inAlphabet c = false) ∧
    (∀ c, (LexicalCause.unexpected c).message = "Unexpected character '" ++ String.singleton c ++ "'") ∧
    LexicalCause.unterminatedString.message = "Unterminated string literal" := by
  refine ⟨fun e => ⟨fun failed => ?_, ?_⟩, fun c more => stray_iff, fun c => Wide.outside,
    fun c => rfl, rfl⟩
  · obtain ⟨before, c, more, tokens, whole, refused, read, next⟩ := scan_cut failed (.inl rfl)
    have place : e.position = .behind before := by
      obtain ⟨parts, last, -, -, same⟩ := scan_laid read (show Position.start = .behind [] from rfl)
      obtain ⟨-, ends⟩ := List.append_inj' same rfl
      exact congrArg Token.position (List.singleton_inj.mp ends)
    refine ⟨before, c :: more, tokens, whole, ?_, place, ?_, piece_eq_error_iff.mp refused⟩
    · intro inside
      have first : c = '\n' := by
        rcases next with same | ⟨same, -⟩ | ⟨-, newline⟩
        · cases inside.symm.trans same
        · cases inside.symm.trans same
        · exact newline c rfl
      rw [first, piece_blank (by decide)] at refused
      cases refused
    · simpa [ofText] using read
  · rintro ⟨before, rest, tokens, whole, outside, -, read, offends⟩
    obtain ⟨c, more, rfl, severs⟩ := offends.severs
    rw [ofText, String.toList_ofList] at read
    obtain ⟨ts, same, scanned⟩ := scan_beside read (.inl rfl) outside severs more
    obtain ⟨-, ends⟩ := List.append_inj' same rfl
    have place : e.position = Position.start.after before :=
      congrArg Token.position (List.singleton_inj.mp ends)
    rw [ofText, whole, scanned, ← place, scan_refused (piece_eq_error_iff.mpr offends)]
    rfl

theorem ofText_error_iff_accented :
    ofText "\"é\" //é\n x = é;" = .error ⟨.unexpected 'é', ⟨2, 6⟩⟩ ∧ inAlphabet 'é' = false := by
  obtain ⟨refused, strays, outside, -, -⟩ := ofText_error_iff "\"é\" //é\n x = é;"
  have wide : inAlphabet 'é' = false := outside 'é' (show 128 ≤ 'é'.toNat by decide)
  have read : ofText (String.ofList "\"é\" //é\n x = ".toList) = .ok
      ([⟨.string, "é", ⟨1, 1⟩⟩, ⟨.identifier, "x", ⟨2, 2⟩⟩, ⟨.symbol .assign, "=", ⟨2, 4⟩⟩] ++ [eof ⟨2, 6⟩]) := by
    with_unfolding_all rfl
  have first : Offends (.unexpected 'é') ['é', ';'] := .stray ((strays 'é' _).mpr (.inr wide))
  exact ⟨(refused _).mpr ⟨_, _, _, by decide +kernel, by decide +kernel, by decide +kernel, read, first⟩, wide⟩

end ScriptCpp.Token
