import Mathlib
import ScriptCpp.Token.Lexer

set_option autoImplicit false

namespace ScriptCpp.Token

inductive StringBody : List Char → Prop
  | nil : StringBody []
  | plain {c : Char} {body : List Char} (quote : c ≠ '"') (backslash : c ≠ '\\') (newline : c ≠ '\n')
      (rest : StringBody body) : StringBody (c :: body)
  | escape {c : Char} {body : List Char} (newline : c ≠ '\n') (rest : StringBody body) :
      StringBody ('\\' :: c :: body)

/-- The kind of a lexeme, its text, and the characters it is written with. -/
inductive IsLexeme : Kind → (text raw : List Char) → Prop
  | string {body : List Char} (closed : StringBody body) :
      IsLexeme .string body ('"' :: (body ++ ['"']))
  | whole {ds : List Char} (some : ds ≠ []) (digits : ∀ d ∈ ds, d.isDigit) : IsLexeme .number ds ds
  | point {ds es : List Char} (some : ds ≠ []) (digits : ∀ d ∈ ds, d.isDigit)
      (decimals : ∀ d ∈ es, d.isDigit) : IsLexeme .number (ds ++ '.' :: es) (ds ++ '.' :: es)
  | word {c : Char} {cs : List Char} (start : isNameStart c) (parts : ∀ d ∈ cs, isNamePart d) :
      IsLexeme (.ofWord (String.ofList (c :: cs))) (c :: cs) (c :: cs)
  | symbol (sign : Symbol) : IsLexeme (.symbol sign) sign.spelling sign.spelling

def opensComment (c : Char) (cs : List Char) : Bool := c = '/' && cs.head? = some '/'

variable {c : Char} {cs body after : List Char} {kind : Kind} {text raw : List Char}

theorem stringBody_cons (quote : c ≠ '"') (backslash : c ≠ '\\') (newline : c ≠ '\n') :
    stringBody (c :: cs) = (stringBody cs).map fun read => (c :: read.1, read.2) := by
  rw [stringBody]
  · rw [if_neg newline]
  · exact quote
  · exact fun _ _ same _ => backslash same

theorem stringBody_escape (newline : c ≠ '\n') :
    stringBody ('\\' :: c :: cs) =
      (stringBody cs).map fun read => ('\\' :: c :: read.1, read.2) := by
  rw [stringBody, if_neg newline]

theorem StringBody.read (closed : StringBody body) (after : List Char) :
    stringBody (body ++ '"' :: after) = some (body, after) := by
  induction closed with
  | nil => simp [stringBody]
  | plain quote backslash newline _ ih =>
    rw [List.cons_append, stringBody_cons quote backslash newline, ih, Option.map_some]
  | escape newline _ ih =>
    rw [List.cons_append, List.cons_append, stringBody_escape newline, ih, Option.map_some]

theorem stringBody_sound (read : stringBody cs = some (body, after)) :
    StringBody body ∧ cs = body ++ '"' :: after := by
  fun_induction stringBody cs generalizing body after with
  | case1 => cases read
  | case2 rest =>
    cases read
    exact ⟨.nil, rfl⟩
  | case3 rest => cases read
  | case4 c rest newline ih =>
    obtain ⟨⟨inner, follow⟩, found, same⟩ := Option.map_eq_some_iff.mp read
    cases same
    obtain ⟨closed, rfl⟩ := ih found
    exact ⟨.escape newline closed, rfl⟩
  | case5 rest => cases read
  | case6 c rest quote backslash newline ih =>
    obtain ⟨⟨inner, follow⟩, found, same⟩ := Option.map_eq_some_iff.mp read
    cases same
    obtain ⟨closed, rfl⟩ := ih found
    refine ⟨.plain quote ?_ newline closed, rfl⟩
    rintro rfl
    -- A backslash that is no escape stands last, and then nothing closes the string.
    cases inner with
    | nil => exact backslash _ _ rfl rfl
    | cons d inner => exact backslash _ _ rfl rfl

theorem prefix_takeWhile {p : Char → Bool} {ds : List Char} (all : ∀ d ∈ ds, p d)
    (start : ds <+: cs) : ds <+: cs.takeWhile p := by
  obtain ⟨rest, rfl⟩ := start
  rw [List.takeWhile_append_of_pos all]
  exact List.prefix_append _ _

theorem numeral_isLexeme (digit : c.isDigit) :
    IsLexeme .number (numeral (c :: cs)) (numeral (c :: cs)) := by
  have started : (c :: cs).takeWhile Char.isDigit ≠ [] := by simp [digit]
  have digits : ∀ ds : List Char, ∀ d ∈ ds.takeWhile Char.isDigit, d.isDigit :=
    fun ds d present => List.mem_takeWhile_imp present
  unfold numeral
  split
  · exact .point started (digits _) (digits _)
  · exact .whole started (digits _)

theorem numeral_prefix (cs : List Char) : numeral cs <+: cs := by
  unfold numeral
  split
  · next rest dropped =>
    refine ⟨rest.dropWhile Char.isDigit, ?_⟩
    rw [List.append_assoc, List.cons_append, List.takeWhile_append_dropWhile, ← dropped,
      List.takeWhile_append_dropWhile]
  · exact List.takeWhile_prefix _

theorem takeWhile_prefix_numeral (cs : List Char) : cs.takeWhile Char.isDigit <+: numeral cs := by
  unfold numeral
  split
  · exact List.prefix_append _ _
  · exact List.prefix_refl _

theorem numeral_point {ds : List Char} (digits : ∀ d ∈ ds, d.isDigit) (es rest : List Char) :
    numeral (ds ++ '.' :: (es ++ rest)) = ds ++ '.' :: (es ++ rest).takeWhile Char.isDigit := by
  have point : Char.isDigit '.' = false := by decide
  simp [numeral, List.takeWhile_append_of_pos digits, List.dropWhile_append_of_pos digits, point]

theorem spelling_injective {a b : Symbol} (same : a.spelling = b.spelling) : a = b := by
  revert same
  cases a <;> cases b <;> decide

theorem ofPrefix?_prefix {sign : Symbol} (hit : Symbol.ofPrefix? cs = some sign) :
    sign.spelling <+: cs := by
  unfold Symbol.ofPrefix? at hit
  have found := List.find?_some hit
  exact List.isPrefixOf_iff_prefix.mp found

theorem ofPrefix?_longest {sign : Symbol} (start : sign.spelling <+: cs) :
    ∃ found, Symbol.ofPrefix? cs = some found ∧ sign.spelling.length ≤ found.spelling.length := by
  have present : (Symbol.ofPrefix? cs).isSome := by
    rw [Symbol.ofPrefix?, List.find?_isSome]
    exact ⟨sign, sign.mem_all, List.isPrefixOf_iff_prefix.mpr start⟩
  obtain ⟨found, hit⟩ := Option.isSome_iff_exists.mp present
  refine ⟨found, hit, ?_⟩
  -- Symbols before the hit are no beginnings, and those behind it are no longer.
  obtain ⟨_, earlier, later, split, missed⟩ := List.find?_eq_some_iff_append.mp hit
  have descending : Symbol.all.Pairwise fun a b => b.spelling.length ≤ a.spelling.length := by
    decide
  rw [split] at descending
  have listed := sign.mem_all
  rw [split, List.mem_append, List.mem_cons] at listed
  rcases listed with before | rfl | behind
  · have missing := missed sign before
    simp [List.isPrefixOf_iff_prefix.mpr start] at missing
  · exact le_refl _
  · exact List.rel_of_pairwise_cons (List.pairwise_append.mp descending).2.1 behind

def isSignStart (c : Char) : Bool :=
  !isBlank c && c != '"' && !c.isDigit && !isNameStart c

theorem spelling_cons (sign : Symbol) :
    ∃ c cs, sign.spelling = c :: cs ∧ isSignStart c = true := by
  cases sign <;> exact ⟨_, _, rfl, by decide⟩

theorem isSignStart_iff : isSignStart c = true ↔
    isBlank c = false ∧ c ≠ '"' ∧ c.isDigit = false ∧ isNameStart c = false := by
  simp [isSignStart, and_assoc]

-- What the first characters decide, in the order in which the lexer looks at them.
theorem first_cases (c : Char) (cs : List Char) :
    isBlank c = true ∨ opensComment c cs = true ∨ c = '"' ∨ c.isDigit = true ∨
      isNameStart c = true ∨ (isSignStart c = true ∧ opensComment c cs = false) := by
  rw [isSignStart_iff]
  cases isBlank c <;> cases opensComment c cs <;> cases c.isDigit <;> cases isNameStart c <;>
    by_cases quote : c = '"' <;> simp [quote]

theorem piece_blank (blank : isBlank c = true) :
    piece c cs = .ok (.gap (c :: cs.takeWhile isBlank)) := by
  simp [piece, blank]

theorem piece_comment (comment : opensComment c cs = true) :
    piece c cs = .ok (.gap (c :: cs.takeWhile (· != '\n'))) := by
  have slash : c = '/' := by
    simp only [opensComment, Bool.and_eq_true, decide_eq_true_eq] at comment
    exact comment.1
  have blank : isBlank c = false := by
    rw [slash]
    decide
  unfold opensComment at comment
  simp [piece, blank, comment]

theorem piece_quote_some (read : stringBody cs = some (body, after)) :
    piece '"' cs = .ok (.lexeme .string body ('"' :: (body ++ ['"']))) := by
  simp [piece, isBlank, read]

theorem piece_quote_none (unread : stringBody cs = none) :
    piece '"' cs = .error .unterminatedString := by
  simp [piece, isBlank, unread]

theorem piece_symbol {sign : Symbol} (signStart : isSignStart c = true)
    (noComment : opensComment c cs = false) (hit : Symbol.ofPrefix? (c :: cs) = some sign) :
    piece c cs = .ok (.lexeme (.symbol sign) sign.spelling sign.spelling) := by
  obtain ⟨blank, quote, digit, name⟩ := isSignStart_iff.mp signStart
  unfold opensComment at noComment
  simp [piece, blank, noComment, quote, digit, name, hit]

theorem piece_unexpected (signStart : isSignStart c = true)
    (noComment : opensComment c cs = false) (missed : Symbol.ofPrefix? (c :: cs) = none) :
    piece c cs = .error (.unexpected c) := by
  obtain ⟨blank, quote, digit, name⟩ := isSignStart_iff.mp signStart
  unfold opensComment at noComment
  simp [piece, blank, noComment, quote, digit, name, missed]

theorem isNamePart_of_isDigit (digit : c.isDigit) : isNamePart c = true := by
  simp [isNamePart, Char.isAlphanum, digit]

theorem isNamePart_of_isNameStart (start : isNameStart c) : isNamePart c = true := by
  simp only [isNameStart, Bool.or_eq_true] at start
  rcases start with letter | underscore
  · simp [isNamePart, Char.isAlphanum, letter]
  · simp [isNamePart, underscore]

theorem plain_of_isNamePart (part : isNamePart c = true) :
    isBlank c = false ∧ c ≠ '/' ∧ c ≠ '"' := by
  refine ⟨?_, ?_, ?_⟩
  · by_contra blank
    simp only [Bool.not_eq_false, isBlank, Bool.or_eq_true, decide_eq_true_eq] at blank
    rcases blank with ((rfl | rfl) | rfl) | rfl <;> exact absurd part (by decide)
  · rintro rfl
    exact absurd part (by decide)
  · rintro rfl
    exact absurd part (by decide)

theorem isNameStart_eq_false_of_digit (h : c.isDigit = true) :
    isNameStart c = false := by
  simp only [Char.isDigit, Bool.and_eq_true, decide_eq_true_eq, ge_iff_le, UInt32.le_iff_toNat_le]
    at h
  have name : c ≠ '_' := by
    rintro rfl
    revert h
    decide
  simp only [isNameStart, Char.isAlpha, Char.isUpper, Char.isLower, name, ge_iff_le,
    UInt32.le_iff_toNat_le, decide_false, Bool.or_false, Bool.or_eq_false_iff,
    Bool.and_eq_false_iff, decide_eq_false_iff_not]
  have nine : '9'.val.toNat = 57 := rfl
  have upper : 'A'.val.toNat = 65 := rfl
  have lower : 'a'.val.toNat = 97 := rfl
  omega

theorem piece_digit (digit : c.isDigit) :
    piece c cs = .ok (.lexeme .number (numeral (c :: cs)) (numeral (c :: cs))) := by
  obtain ⟨blank, slash, quote⟩ := plain_of_isNamePart (isNamePart_of_isDigit digit)
  simp [piece, blank, slash, quote, digit]

theorem piece_nameStart (start : isNameStart c) :
    piece c cs = .ok (.lexeme (.ofWord (String.ofList (c :: cs.takeWhile isNamePart)))
      (c :: cs.takeWhile isNamePart) (c :: cs.takeWhile isNamePart)) := by
  obtain ⟨blank, slash, quote⟩ := plain_of_isNamePart (isNamePart_of_isNameStart start)
  have digit : c.isDigit = false := by
    by_contra digit
    simp [isNameStart_eq_false_of_digit (by simpa using digit)] at start
  simp [piece, blank, slash, quote, digit, start]

theorem piece_of_lexeme (lexeme : IsLexeme kind text raw) (start : raw <+: c :: cs)
    (noComment : opensComment c cs = false) :
    ∃ kind' text' raw', piece c cs = .ok (.lexeme kind' text' raw') ∧ raw.length ≤ raw'.length ∧
      (raw' = raw → kind' = kind ∧ text' = text) := by
  cases lexeme with
  | string closed =>
    obtain ⟨after, same⟩ := start
    obtain ⟨rfl, rfl⟩ : '"' = c ∧ text ++ '"' :: after = cs := by simpa using same
    exact ⟨_, _, _, piece_quote_some (closed.read after), le_refl _, fun _ => ⟨rfl, rfl⟩⟩
  | whole some digits =>
    obtain ⟨d, ds, rfl⟩ := List.exists_cons_of_ne_nil some
    obtain rfl : d = c := (List.cons_prefix_cons.mp start).1
    refine ⟨_, _, _, piece_digit (digits d List.mem_cons_self), ?_, fun same => ⟨rfl, same⟩⟩
    exact ((prefix_takeWhile digits start).trans (takeWhile_prefix_numeral _)).length_le
  | @point ds es some digits decimals =>
    obtain ⟨d, ds, rfl⟩ := List.exists_cons_of_ne_nil some
    obtain ⟨rest, same⟩ := start
    obtain ⟨rfl, rfl⟩ : d = c ∧ ds ++ '.' :: (es ++ rest) = cs := by simpa using same
    refine ⟨_, _, _, piece_digit (digits d List.mem_cons_self), ?_, fun same => ⟨rfl, same⟩⟩
    have whole := numeral_point digits es rest
    rw [List.cons_append] at whole
    rw [whole, List.takeWhile_append_of_pos decimals]
    simp
  | @word d ds first parts =>
    obtain ⟨rfl, rest⟩ := List.cons_prefix_cons.mp start
    refine ⟨_, _, _, piece_nameStart first, ?_, fun same => ⟨by rw [same], same⟩⟩
    simpa using (prefix_takeWhile parts rest).length_le
  | symbol sign =>
    obtain ⟨d, ds, spelled, signStart⟩ := spelling_cons sign
    obtain rfl : d = c := by
      rw [spelled] at start
      exact (List.cons_prefix_cons.mp start).1
    obtain ⟨found, hit, longer⟩ := ofPrefix?_longest start
    refine ⟨.symbol found, found.spelling, found.spelling, ?_, longer, ?_⟩
    · exact piece_symbol signStart noComment hit
    · intro same
      rw [spelling_injective same]
      exact ⟨rfl, rfl⟩

theorem piece_lexeme (taken : piece c cs = .ok (.lexeme kind text raw)) :
    IsLexeme kind text raw ∧ raw <+: c :: cs ∧ opensComment c cs = false := by
  have noComment : opensComment c cs = false := by
    by_contra comment
    rw [piece_comment (by simpa using comment)] at taken
    cases taken
  rcases first_cases c cs with blank | comment | rfl | digit | start | ⟨signStart, _⟩
  · rw [piece_blank blank] at taken
    cases taken
  · rw [piece_comment comment] at taken
    cases taken
  · cases read : stringBody cs with
    | none =>
      rw [piece_quote_none read] at taken
      cases taken
    | some found =>
      rw [piece_quote_some read] at taken
      cases taken
      obtain ⟨closed, rfl⟩ := stringBody_sound read
      exact ⟨.string closed, ⟨found.2, by simp⟩, noComment⟩
  · rw [piece_digit digit] at taken
    cases taken
    exact ⟨numeral_isLexeme digit, numeral_prefix _, noComment⟩
  · rw [piece_nameStart start] at taken
    cases taken
    refine ⟨.word start fun d present => List.mem_takeWhile_imp present, ?_, noComment⟩
    exact List.cons_prefix_cons.mpr ⟨rfl, List.takeWhile_prefix _⟩
  · cases hit : Symbol.ofPrefix? (c :: cs) with
    | none =>
      rw [piece_unexpected signStart noComment hit] at taken
      cases taken
    | some sign =>
      rw [piece_symbol signStart noComment hit] at taken
      cases taken
      exact ⟨.symbol sign, ofPrefix?_prefix hit, noComment⟩

def Longest (raw cs : List Char) : Prop :=
  ∀ ⦃kind : Kind⦄ ⦃text other : List Char⦄, IsLexeme kind text other → other <+: cs →
    other.length ≤ raw.length

theorem piece_eq_lexeme_iff : piece c cs = .ok (.lexeme kind text raw) ↔
    IsLexeme kind text raw ∧ raw <+: c :: cs ∧ Longest raw (c :: cs) ∧
      opensComment c cs = false := by
  constructor
  · intro taken
    obtain ⟨lexeme, start, noComment⟩ := piece_lexeme taken
    refine ⟨lexeme, start, ?_, noComment⟩
    intro kind' text' other lexeme' start'
    obtain ⟨kind'', text'', raw'', taken', longer, _⟩ := piece_of_lexeme lexeme' start' noComment
    cases taken.symm.trans taken'
    exact longer
  · rintro ⟨lexeme, start, longest, noComment⟩
    obtain ⟨kind', text', raw', taken, longer, same⟩ := piece_of_lexeme lexeme start noComment
    obtain ⟨lexeme', start', _⟩ := piece_lexeme taken
    have shorter := longest lexeme' start'
    obtain rfl : raw' = raw := by
      rw [List.prefix_iff_eq_take.mp start, List.prefix_iff_eq_take.mp start',
        le_antisymm shorter longer]
    obtain ⟨rfl, rfl⟩ := same rfl
    exact taken

theorem IsLexeme.ne_eof (lexeme : IsLexeme kind text raw) : kind ≠ .eof := by
  cases lexeme with
  | string | whole | point | symbol => simp
  | word =>
    unfold Kind.ofWord
    split <;> simp

theorem IsLexeme.symbol_text (lexeme : IsLexeme kind text raw) {sign : Symbol}
    (isSign : kind = .symbol sign) : text = sign.spelling := by
  cases lexeme with
  | string | whole | point => cases isSign
  | symbol =>
    cases isSign
    rfl
  | word =>
    unfold Kind.ofWord at isSign
    split at isSign <;> cases isSign

theorem IsLexeme.raw_ne_nil (lexeme : IsLexeme kind text raw) : raw ≠ [] := by
  cases lexeme with
  | string | point | word => simp
  | whole some _ => exact some
  | symbol sign => exact sign.spelling_ne_nil

end ScriptCpp.Token
