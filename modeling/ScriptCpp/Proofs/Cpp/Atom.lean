import Mathlib
import ScriptCpp.Proofs.Cpp.Lexeme
import ScriptCpp.Proofs.Cpp.Segment

set_option autoImplicit false

namespace ScriptCpp.Cpp

inductive Atom where
  | lexeme (l : Lexeme)
  | literal (body : List Char)
  | group (bracket : Char) (inside : List Segment)
deriving DecidableEq, Repr

abbrev Atom.sign (chars : List Char) : Atom := .lexeme (.sign chars)

abbrev Atom.word (chars : List Char) : Atom := .lexeme (.word chars)

/-- How a qualified name goes on. Its last part may be missing. -/
def pathTail : List Char → List Char
  | ':' :: ':' :: rest => ':' :: ':' :: pathTail rest
  | c :: rest => if Token.isNamePart c then c :: pathTail rest else []
  | [] => []

def templates : List (List Char) := ["std::make_shared".toList, "std::vector".toList]

def templateArgument (path : List Char) : List Char → List Char
  | '<' :: inner =>
      if templates.contains path && (inner.drop (pathTail inner).length).head? = some '>' then
        '<' :: (pathTail inner ++ ['>'])
      else []
  | _ => []

def wordAt (cs : List Char) : List Char :=
  pathTail cs ++ templateArgument (pathTail cs) (cs.drop (pathTail cs).length)

def lexemeAt? (c : Char) (cs : List Char) : Option Lexeme :=
  if Token.isNameStart c then some (.word (wordAt (c :: cs))) else lexeme? c cs

def codeAhead : List Segment → List Char
  | .code c :: rest => c :: codeAhead rest
  | _ => []

def isSolid (c : Char) : Bool := !Token.isBlank c && !opens c && (partner? c).isNone

inductive Atoms : List Segment → List Atom → Prop
  | nil : Atoms [] []
  | blank {c : Char} {segs : List Segment} {as : List Atom} (blank : Token.isBlank c = true)
      (rest : Atoms segs as) : Atoms (.code c :: segs) as
  | comment {body : List Char} {segs : List Segment} {as : List Atom} (rest : Atoms segs as) :
      Atoms (.comment body :: segs) as
  | literal {body : List Char} {segs : List Segment} {as : List Atom} (rest : Atoms segs as) :
      Atoms (.literal body :: segs) (.literal body :: as)
  | group {first last : Char} {inside segs : List Segment} {as : List Atom}
      (opening : opens first = true) (closing : partner? last = some first)
      (balanced : nest [] inside = some []) (rest : Atoms segs as) :
      Atoms (Segment.code first :: (inside ++ Segment.code last :: segs)) (Atom.group first inside :: as)
  | lexeme {l : Lexeme} {c : Char} {cs : List Char} {segs : List Segment} {as : List Atom}
      (solid : isSolid c = true) (chars : l.chars = c :: cs)
      (read : lexemeAt? c (cs ++ codeAhead segs) = some l) (rest : Atoms segs as) :
      Atoms (Segment.code c :: (cs.map Segment.code ++ segs)) (.lexeme l :: as)

variable {c : Char} {cs body rest : List Char} {segs more inside : List Segment} {as bs : List Atom}
  {l : Lexeme}

theorem codeAhead_append (cs : List Char) (segs : List Segment) :
    codeAhead (cs.map Segment.code ++ segs) = cs ++ codeAhead segs := by
  induction cs with
  | nil => rfl
  | cons c cs ih => simp [codeAhead, ih]

-- The first segment decides how the reading starts.
theorem Atoms.of_code (h : Atoms (.code c :: segs) as) :
    (Token.isBlank c = true ∧ Atoms segs as) ∨
    (∃ last inside rest later, opens c = true ∧ partner? last = some c ∧ nest [] inside = some [] ∧
      segs = inside ++ Segment.code last :: rest ∧ as = Atom.group c inside :: later ∧ Atoms rest later) ∨
    ∃ l cs rest later, isSolid c = true ∧ l.chars = c :: cs ∧
      lexemeAt? c (codeAhead segs) = some l ∧ segs = cs.map Segment.code ++ rest ∧
        as = .lexeme l :: later ∧ Atoms rest later := by
  cases h with
  | blank blank rest => exact .inl ⟨blank, rest⟩
  | group opening closing balanced rest =>
    exact .inr (.inl ⟨_, _, _, _, opening, closing, balanced, rfl, rfl, rest⟩)
  | lexeme solid chars read rest =>
    rw [← codeAhead_append] at read
    exact .inr (.inr ⟨_, _, _, _, solid, chars, read, rfl, rfl, rest⟩)

theorem isSolid_iff :
    isSolid c = true ↔ Token.isBlank c = false ∧ opens c = false ∧ partner? c = none := by
  simp [isSolid, and_assoc]

theorem isSolid_of {p : Char → Bool}
    (others : [' ', '\t', '\n', '\r', '(', '[', '\x7b', ')', ']', '\x7d'].any p = false)
    (h : p c = true) : isSolid c = true := by
  by_contra special
  have listed : c ∈ [' ', '\t', '\n', '\r', '(', '[', '\x7b', ')', ']', '\x7d'] := by
    by_contra absent
    simp only [List.mem_cons, List.not_mem_nil, or_false, not_or] at absent
    simp [isSolid, Token.isBlank, opens, partner?, absent] at special
  exact absurd h (List.any_eq_false.mp others c listed)

theorem isBlank_of_opens (opening : opens c = true) : Token.isBlank c = false := by
  simp only [opens, Bool.or_eq_true, decide_eq_true_eq] at opening
  rcases opening with (rfl | rfl) | rfl <;> rfl

-- A walk cannot go on past what it is stuck at.
theorem foldlM_split_unique {α σ : Type} {step : σ → α → Option σ} {s : σ} {x y : α}
    {first second rest other : List α} (left : first.foldlM step s = some s)
    (right : second.foldlM step s = some s) (stuckX : step s x = none) (stuckY : step s y = none)
    (same : first ++ x :: rest = second ++ y :: other) : first = second ∧ x = y ∧ rest = other := by
  rcases List.append_eq_append_iff.mp same with ⟨gap, rfl, split⟩ | ⟨gap, rfl, split⟩
  · cases gap with
    | nil =>
      obtain ⟨rfl, rfl⟩ := List.cons.inj split
      exact ⟨(List.append_nil _).symm, rfl, rfl⟩
    | cons a gap =>
      obtain ⟨rfl, -⟩ := List.cons.inj split
      rw [List.foldlM_append, left] at right
      simp [stuckX] at right
  · cases gap with
    | nil =>
      obtain ⟨rfl, rfl⟩ := List.cons.inj split
      exact ⟨List.append_nil _, rfl, rfl⟩
    | cons a gap =>
      obtain ⟨rfl, -⟩ := List.cons.inj split
      rw [List.foldlM_append, right] at left
      simp [stuckY] at left

theorem opens_of_partner? {b : Char} (closes : partner? c = some b) : opens c = false := by
  simp only [partner?] at closes
  split_ifs at closes with round square curly
  · rw [round]; rfl
  · rw [square]; rfl
  · rw [curly]; rfl

theorem bracket_stuck {b : Char} (closes : partner? c = some b) : bracket [] (.code c) = none := by
  simp [bracket, opens_of_partner? closes, closes]

theorem atoms_unique (first : Atoms segs as) (second : Atoms segs bs) : as = bs := by
  induction first generalizing bs with
  | nil =>
    cases second
    rfl
  | comment _ ih =>
    cases second with
    | comment rest => exact ih rest
  | literal _ ih =>
    cases second with
    | literal rest => rw [ih rest]
  | blank blank _ ih =>
    rcases second.of_code with ⟨-, rest⟩ | ⟨_, _, _, _, opening, -⟩ | ⟨_, _, _, _, solid, -⟩
    · exact ih rest
    · cases blank.symm.trans (isBlank_of_opens opening)
    · cases blank.symm.trans (isSolid_iff.mp solid).1
  | group opening closing balanced _ ih =>
    rcases second.of_code with
      ⟨blank, -⟩ | ⟨last, inside, rest, later, -, closes, even, same, rfl, others⟩ |
        ⟨_, _, _, _, solid, -⟩
    · cases blank.symm.trans (isBlank_of_opens opening)
    · obtain ⟨rfl, -, rfl⟩ :=
        foldlM_split_unique balanced even (bracket_stuck closing) (bracket_stuck closes) same
      rw [ih others]
    · cases opening.symm.trans (isSolid_iff.mp solid).2.1
  | lexeme solid chars read _ ih =>
    rcases second.of_code with
      ⟨blank, -⟩ | ⟨_, _, _, _, opening, -⟩ | ⟨l, cs, rest, later, -, spelled, found, same, rfl, others⟩
    · cases blank.symm.trans (isSolid_iff.mp solid).1
    · cases opening.symm.trans (isSolid_iff.mp solid).2.1
    · rw [codeAhead_append] at found
      obtain rfl := Option.some.inj (read.symm.trans found)
      obtain ⟨-, rfl⟩ := List.cons.inj (chars.symm.trans spelled)
      rw [List.append_cancel_left same] at ih
      rw [ih others]

/-- The characters that may follow a part of an expression. A point may not follow a number. -/
def endings : List Char := [' ', ',', '(', '[', '\x7b']

def Follows (ends : List Char) (segs : List Segment) : Prop := ∀ c ∈ (codeAhead segs).head?, c ∈ ends

/-- The segments are read as these atoms wherever one of `ends` follows, or nothing does. -/
def Atomizes (ends : List Char) (segs : List Segment) (as : List Atom) : Prop :=
  ∀ rest later, Follows ends rest → Atoms rest later → Atoms (segs ++ rest) (as ++ later)

theorem follows_nil (ends : List Char) : Follows ends [] := by
  intro c first
  cases first

theorem follows_code {ends : List Char} (among : c ∈ ends) (segs : List Segment) :
    Follows ends (.code c :: segs) := by
  intro d first
  cases first
  exact among

namespace Atomizes

variable {ends others : List Char}

theorem atoms (h : Atomizes ends segs as) : Atoms segs as := by
  simpa using h [] [] (follows_nil ends) .nil

theorem mono (h : Atomizes ends segs as) (fewer : others ⊆ ends) : Atomizes others segs as :=
  fun rest later follows => h rest later fun c first => fewer (follows c first)

theorem append (first : Atomizes ends segs as) (second : Atomizes others more bs)
    (between : ∀ rest, Follows ends (more ++ rest)) : Atomizes others (segs ++ more) (as ++ bs) := by
  intro rest later follows read
  rw [List.append_assoc, List.append_assoc]
  exact first _ _ (between rest) (second rest later follows read)

-- A part that any character may follow.
theorem before (first : ∀ ends, Atomizes ends segs as) (second : Atomizes others more bs) :
    Atomizes others (segs ++ more) (as ++ bs) := by
  intro rest later follows read
  rw [List.append_assoc, List.append_assoc]
  exact first (codeAhead (more ++ rest)) _ _ (fun _ => List.mem_of_mem_head?)
    (second rest later follows read)

theorem literal (body : List Char) : Atomizes ends [.literal body] [.literal body] :=
  fun _ _ _ read => .literal read

theorem blank : Atomizes ends [.code ' '] [] := fun _ _ _ read => .blank rfl read

theorem group {first last : Char} (opening : opens first = true) (closing : partner? last = some first)
    (balanced : nest [] inside = some []) :
    Atomizes ends (Segment.code first :: (inside ++ [Segment.code last])) [Atom.group first inside] := by
  intro rest later _ read
  simpa using Atoms.group opening closing balanced read

-- Where a lexeme stops depends on the first character behind it only.
theorem lexeme (solid : isSolid c = true) (chars : l.chars = c :: cs)
    (read : ∀ rest : List Char, (∀ d ∈ rest.head?, d ∈ ends) → lexemeAt? c (cs ++ rest) = some l) :
    Atomizes ends ((c :: cs).map .code) [.lexeme l] := by
  intro rest later follows next
  exact .lexeme solid chars (read _ follows) next

end Atomizes

def Apart (rest : List Char) : Prop := ∀ c ∈ rest.head?, Token.isNamePart c = false ∧ c ≠ ':'

structure IsPath (cs : List Char) : Prop where
  starts : ∃ c ∈ cs.head?, Token.isNameStart c = true
  whole : pathTail cs = cs

instance (cs : List Char) : Decidable (IsPath cs) :=
  decidable_of_iff (cs.head?.any Token.isNameStart = true ∧ pathTail cs = cs)
    ⟨fun h => ⟨(Option.any_eq_true _ _).mp h.1, h.2⟩,
      fun h => ⟨(Option.any_eq_true _ _).mpr h.starts, h.whole⟩⟩

theorem pathTail_cons (part : Token.isNamePart c = true) :
    pathTail (c :: cs) = c :: pathTail cs := by
  have noColon : c ≠ ':' := by
    rintro rfl
    cases part
  rw [pathTail]
  · rw [if_pos part]
  · exact fun rest same _ => noColon same

theorem pathTail_parts (parts : ∀ d ∈ cs, Token.isNamePart d = true) (rest : List Char) :
    pathTail (cs ++ rest) = cs ++ pathTail rest := by
  induction cs with
  | nil => rfl
  | cons c cs ih =>
    obtain ⟨here, later⟩ := List.forall_mem_cons.mp parts
    rw [List.cons_append, pathTail_cons here, ih later, List.cons_append]

theorem pathTail_word (parts : ∀ d ∈ cs, Token.isNamePart d = true) : pathTail cs = cs := by
  have whole := pathTail_parts parts []
  rwa [List.append_nil, pathTail, List.append_nil] at whole

theorem pathTail_apart (apart : Apart rest) : pathTail rest = [] := by
  cases rest with
  | nil => rfl
  | cons c rest =>
    obtain ⟨part, colon⟩ := apart c rfl
    rw [pathTail]
    · simp [part]
    · exact fun more same _ => colon same

theorem pathTail_append (whole : pathTail cs = cs) (rest : List Char) :
    pathTail (cs ++ rest) = cs ++ pathTail rest := by
  fun_induction pathTail cs with
  | case1 more ih =>
    have tail : pathTail more = more := by simpa using whole
    rw [List.cons_append, List.cons_append, pathTail, ih tail, List.cons_append, List.cons_append]
  | case2 c more other part ih =>
    have tail : pathTail more = more := by simpa using whole
    rw [List.cons_append, pathTail_cons part, ih tail, List.cons_append]
  | case3 => cases whole
  | case4 => rfl

theorem IsPath.ends (path : IsPath cs) (apart : Apart rest) : pathTail (cs ++ rest) = cs := by
  rw [pathTail_append path.whole, pathTail_apart apart, List.append_nil]

theorem wordAt_path (path : IsPath cs) (apart : Apart rest) (angle : '<' ∉ rest.head?) :
    wordAt (cs ++ rest) = cs := by
  have plain : templateArgument cs rest = [] := by
    unfold templateArgument
    split
    · exact absurd rfl angle
    · rfl
  rw [wordAt, path.ends apart, List.drop_left, plain, List.append_nil]

theorem wordAt_template (known : cs ∈ templates) (path : IsPath cs) {ds : List Char}
    (argument : IsPath ds)
    (rest : List Char) : wordAt (cs ++ '<' :: (ds ++ '>' :: rest)) = cs ++ '<' :: (ds ++ ['>']) := by
  have single {d : Char} (other : Token.isNamePart d = false ∧ d ≠ ':') (more : List Char) :
      Apart (d :: more) := by
    intro e first
    cases first
    exact other
  have inner : pathTail (ds ++ '>' :: rest) = ds := argument.ends (single (by decide) rest)
  rw [wordAt, path.ends (single (by decide) _), List.drop_left, templateArgument, inner, List.drop_left]
  simp [known]

theorem numberTail_parts (parts : ∀ d ∈ cs, isNumberPart d = true)
    (ends : ∀ d ∈ rest.head?, d ∈ endings) : numberTail (cs ++ rest) = cs := by
  induction cs with
  | nil =>
    cases rest with
    | nil => rfl
    | cons d rest =>
      have stops := ends d rfl
      simp only [endings, List.mem_cons, List.not_mem_nil, or_false] at stops
      rcases stops with rfl | rfl | rfl | rfl | rfl <;> cases rest <;> rfl
  | cons c cs ih =>
    obtain ⟨here, later⟩ := List.forall_mem_cons.mp parts
    have tail := ih later
    rw [List.cons_append]
    cases follow : cs ++ rest with
    | nil =>
      rw [follow] at tail
      simp [numberTail, here, ← tail]
    | cons s more =>
      -- No sign goes on with the number: none is part of it, and none follows it.
      have unsigned : s ≠ '+' ∧ s ≠ '-' := by
        have plain : isNumberPart s = true ∨ s ∈ endings := by
          cases cs with
          | nil => exact .inr (ends s (by rw [List.nil_append] at follow; rw [follow]; rfl))
          | cons d cs =>
            obtain ⟨rfl, -⟩ := List.cons.inj follow
            exact .inl (later d List.mem_cons_self)
        constructor <;> rintro rfl <;> revert plain <;> decide
      rw [follow] at tail
      simp [numberTail, here, unsigned, tail]

theorem atoms_sign (c : Char) (cs : List Char) (solid : isSolid c = true)
    (start : Token.isNameStart c = false)
    (read : lexeme? c (cs ++ codeAhead segs) = some (.sign (c :: cs))) (rest : Atoms segs as) :
    Atoms ((c :: cs).map Segment.code ++ segs) (.sign (c :: cs) :: as) := by
  refine .lexeme solid rfl ?_ rest
  rw [lexemeAt?, start]
  exact read

def spacedSigns : List (List Char) := dyadicSigns ++ [['<', '<'], ['?'], [':']]

namespace Atomizes

variable {ends : List Char}

theorem word (path : IsPath (c :: cs)) :
    Atomizes ('.' :: endings) ((c :: cs).map .code) [.word (c :: cs)] := by
  obtain ⟨d, first, start⟩ := path.starts
  cases first
  refine Atomizes.lexeme (isSolid_of (by decide) start) rfl fun rest follows => ?_
  have apart : ('.' :: endings).all (fun d => !Token.isNamePart d && d != ':' && d != '<') = true := by
    decide
  have plain {d : Char} (first : d ∈ rest.head?) :
      (Token.isNamePart d = false ∧ d ≠ ':') ∧ d ≠ '<' := by
    simpa using List.all_eq_true.mp apart d (follows d first)
  rw [lexemeAt?, if_pos start, ← List.cons_append,
    wordAt_path path (fun d first => (plain first).1) fun first => (plain first).2 rfl]

theorem template (known : c :: cs ∈ templates) (path : IsPath (c :: cs)) {ds : List Char}
    (argument : IsPath ds) : Atomizes ends ((c :: (cs ++ '<' :: (ds ++ ['>']))).map Segment.code)
      [.word (c :: (cs ++ '<' :: (ds ++ ['>'])))] := by
  obtain ⟨d, first, start⟩ := path.starts
  cases first
  refine Atomizes.lexeme (isSolid_of (by decide) start) rfl fun rest _ => ?_
  have whole := wordAt_template known path argument rest
  rw [lexemeAt?, if_pos start]
  simpa using whole

theorem number (first : c.isDigit = true) (others : ∀ d ∈ cs, isNumberPart d = true) :
    Atomizes endings ((c :: cs).map .code) [.lexeme (.number (c :: cs))] := by
  refine Atomizes.lexeme (isSolid_of (by decide) first) rfl fun rest follows => ?_
  have plain := Token.isNameStart_eq_false_of_digit first
  simp [lexemeAt?, lexeme?, plain, first, numberTail_parts others follows]

theorem spaced {sign : List Char} (known : sign ∈ spacedSigns) :
    Atomizes ends ((' ' :: (sign ++ [' '])).map Segment.code) [.sign sign] := by
  intro rest later _ read
  have behind : Atoms (.code ' ' :: rest) later := .blank rfl read
  have here : Atoms (sign.map Segment.code ++ Segment.code ' ' :: rest) (.sign sign :: later) := by
    simp only [spacedSigns, dyadicSigns, List.cons_append, List.nil_append, List.mem_cons,
      List.not_mem_nil, or_false] at known
    rcases known with rfl | rfl | rfl | rfl | rfl | rfl | rfl | rfl | rfl | rfl | rfl | rfl | rfl |
      rfl | rfl | rfl | rfl
    all_goals exact atoms_sign _ _ rfl rfl rfl behind
  simpa using Atoms.blank rfl here

theorem comma : Atomizes ends [.code ',', .code ' '] [.sign [',']] := by
  intro rest later _ read
  have behind : Atoms (.code ' ' :: rest) later := .blank rfl read
  exact atoms_sign ',' [] rfl rfl rfl behind

theorem dotted (path : IsPath (c :: cs)) : Atomizes ('.' :: endings) (('.' :: c :: cs).map .code)
    [.sign ['.'], .word (c :: cs)] := by
  intro rest later follows read
  have named := word path rest later follows read
  obtain ⟨d, first, start⟩ := path.starts
  cases first
  have digit : c.isDigit = false := by
    by_contra digit
    cases start.symm.trans (Token.isNameStart_eq_false_of_digit (by simpa using digit))
  have other : c ≠ '.' ∧ c ≠ '*' := by
    constructor <;> rintro rfl <;> cases start
  refine atoms_sign '.' [] rfl rfl ?_ named
  have point : Token.isNameStart '.' = false := rfl
  simp [codeAhead, lexeme?, point, digit, signs, other.1.symm, other.2.symm]

theorem arrowed (path : IsPath (c :: cs)) :
    Atomizes ('.' :: endings) (('-' :: '>' :: c :: cs).map .code) [.sign ['-', '>'], .word (c :: cs)] := by
  intro rest later follows read
  have named := word path rest later follows read
  obtain ⟨d, first, start⟩ := path.starts
  cases first
  have other : c ≠ '*' := by
    rintro rfl
    cases start
  refine atoms_sign '-' ['>'] rfl rfl ?_ named
  have minus : Token.isNameStart '-' = false := rfl
  simp [codeAhead, lexeme?, minus, signs, other.symm]

theorem signed (h : Atomizes ends segs as)
    (first : ∀ rest, Follows ends rest → ∀ c ∈ (codeAhead (segs ++ rest)).head?, c ∉ ['-', '=', '>']) :
    Atomizes ends (.code '-' :: segs) (.sign ['-'] :: as) := by
  intro rest later follows read
  refine atoms_sign '-' [] rfl rfl ?_ (h rest later follows read)
  have minus : Token.isNameStart '-' = false := rfl
  rw [List.nil_append]
  cases ahead : codeAhead (segs ++ rest) with
  | nil => rfl
  | cons c more =>
    have other := first rest follows c (by rw [ahead]; rfl)
    simp only [List.mem_cons, List.not_mem_nil, or_false, not_or] at other
    obtain ⟨dash, equal, greater⟩ := other
    simp [lexeme?, minus, signs, Ne.symm dash, Ne.symm equal, Ne.symm greater]

end Atomizes

end ScriptCpp.Cpp
