import Mathlib
import ScriptCpp.Emission.Piece
import ScriptCpp.Proofs.Cpp.Term

set_option autoImplicit false

namespace ScriptCpp.Cpp

def Cuts (text : String) (segs : List Segment) : Prop :=
  ∀ rest, segments? (text.toList ++ rest) = (segments? rest).map (segs ++ ·)

/-- The text is read as these atoms wherever one of `ends` follows it, or nothing does. -/
def Lays (ends : List Char) (text : String) (as : List Atom) : Prop :=
  ∃ segs, Cuts text segs ∧ nest [] segs = some [] ∧ Atomizes ends segs as

def Stands (ends : List Char) (level : Nat) (text : String) (x : Term) : Prop :=
  ∃ as, Lays ends text as ∧ Reading level as x

def Means (text : String) (x : Term) : Prop :=
  ∃ segs as, segments? text.toList = some segs ∧ Atoms segs as ∧ Reading 0 as x

def MeansOnly (text : String) (x : Term) : Prop := ∀ y, Means text y ↔ y = x

theorem Means.unique {text : String} {x y : Term} (first : Means text x) (second : Means text y) :
    x = y := by
  obtain ⟨segs, as, cut, atoms, read⟩ := first
  obtain ⟨others, bs, also, same, other⟩ := second
  obtain rfl := Option.some.inj (cut.symm.trans also)
  obtain rfl := atoms_unique atoms same
  exact reading_unique read other

theorem Means.only {text : String} {x : Term} (h : Means text x) : MeansOnly text x := by
  refine fun y => ⟨fun other => other.unique h, ?_⟩
  rintro rfl
  exact h

namespace Cuts

variable {a b raw : String} {p q : List Segment}

theorem append (first : Cuts a p) (second : Cuts b q) : Cuts (a ++ b) (p ++ q) := by
  intro rest
  rw [String.toList_append, List.append_assoc, first, second, Option.map_map]
  simp only [Function.comp_def, List.append_assoc]

theorem fixed (silent : quiet a.toList = true) : Cuts a (a.toList.map .code) := segments?_quiet silent

theorem literal (closed : Token.StringBody raw.toList) :
    Cuts ("\"" ++ raw ++ "\"") [.literal raw.toList] := by
  intro rest
  simpa [String.toList_append] using segments?_literal closed rest

theorem segments (h : Cuts a p) : segments? a.toList = some p := by
  have whole := h []
  rw [List.append_nil] at whole
  rw [whole, segments?]
  simp

theorem head {c : Char} {cs : List Char} (h : Cuts a p) (starts : a.toList = c :: cs)
    (silent : quiet [c] = true) : ∃ rest, p = .code c :: rest := by
  have whole := h.segments
  rw [starts, ← List.singleton_append, segments?_quiet silent] at whole
  obtain ⟨rest, -, rfl⟩ := Option.map_eq_some_iff.mp whole
  exact ⟨rest, rfl⟩

theorem grouped (h : Cuts a p) (first last : Char) (opening closing : String)
    (before : opening.toList = [first]) (after : closing.toList = [last])
    (silent : (quiet [first] && quiet [last]) = true) :
    Cuts (opening ++ a ++ closing) (Segment.code first :: (p ++ [Segment.code last])) := by
  obtain ⟨left, right⟩ := Bool.and_eq_true_iff.mp silent
  rw [← before] at left
  rw [← after] at right
  have whole := ((fixed left).append h).append (fixed right)
  rw [before, after] at whole
  exact whole

end Cuts

theorem nest_cons (open_ : List Char) (seg : Segment) (segs : List Segment) :
    nest open_ (seg :: segs) = (bracket open_ seg).bind (nest · segs) := List.foldlM_cons

theorem nest_grouped {first last : Char} {inside : List Segment} (opening : opens first = true)
    (closing : partner? last = some first) (balanced : nest [] inside = some []) :
    nest [] (Segment.code first :: (inside ++ [Segment.code last])) = some [] := by
  have opened : bracket [] (.code first) = some [first] := by simp [bracket, opening]
  have closed : nest [first] [.code last] = some [] := by
    simp [nest, bracket, opens_of_partner? closing, closing]
  have inner : nest [first] inside = some [first] := nest_frame balanced [first]
  rw [nest_cons, opened, Option.bind_some, nest_append, inner]
  exact closed

theorem nest_concat {p q : List Segment} (first : nest [] p = some []) (second : nest [] q = some []) :
    nest [] (p ++ q) = some [] := by
  rw [nest_append, first]
  exact second

theorem pathTail_chars (cs : List Char) :
    ∀ c ∈ pathTail cs, (Token.isNamePart c || c == ':') = true := by
  fun_induction pathTail cs with
  | case1 rest ih => simpa using ih
  | case2 c rest other part ih => exact List.forall_mem_cons.mpr ⟨by simp [part], ih⟩
  | case3 | case4 => simp

theorem IsPath.plain {cs : List Char} (path : IsPath cs) : ∀ c ∈ cs, isPlain c = true := by
  rw [← path.whole]
  exact fun c among => isPlain_of (p := fun c => Token.isNamePart c || c == ':') (by decide)
    (pathTail_chars cs c among)

theorem IsPath.cons {cs : List Char} (path : IsPath cs) : ∃ c rest, cs = c :: rest := by
  obtain ⟨c, first, -⟩ := path.starts
  cases cs with
  | nil => cases first
  | cons d rest => exact ⟨d, rest, rfl⟩

/-- A number, or what is glued to one. -/
def IsNumeral (text : String) : Prop :=
  ∃ c cs, text.toList = c :: cs ∧ c.isDigit = true ∧ ∀ d ∈ cs, isNumberPart d = true

theorem IsNumeral.plain {text : String} (h : IsNumeral text) : ∀ c ∈ text.toList, isPlain c = true := by
  obtain ⟨c, cs, spelled, digit, parts⟩ := h
  rw [spelled]
  refine List.forall_mem_cons.mpr ⟨isPlain_of (p := Char.isDigit) (by decide) digit, fun d among => ?_⟩
  exact isPlain_of (p := isNumberPart) (by decide) (parts d among)

theorem IsNumeral.dot {text name : String} (h : IsNumeral text)
    (parts : ∀ c ∈ name.toList, Token.isNamePart c = true) : IsNumeral (text ++ "." ++ name) := by
  obtain ⟨c, cs, spelled, digit, others⟩ := h
  refine ⟨c, cs ++ '.' :: name.toList, by simp [spelled], digit, ?_⟩
  refine List.forall_mem_append.mpr ⟨others, List.forall_mem_cons.mpr ⟨rfl, fun d among => ?_⟩⟩
  simp [isNumberPart, parts d among]

theorem spaced_cuts {sign : String} (known : sign.toList ∈ spacedSigns) :
    Cuts (" " ++ sign ++ " ") ((' ' :: (sign.toList ++ [' '])).map Segment.code) ∧
      nest [] ((' ' :: (sign.toList ++ [' '])).map Segment.code) = some [] := by
  have each : ∀ s ∈ spacedSigns, quiet (' ' :: (s ++ [' '])) = true ∧
      nest [] ((' ' :: (s ++ [' '])).map Segment.code) = some [] := by decide
  obtain ⟨silent, balanced⟩ := each sign.toList known
  have spelled : (" " ++ sign ++ " ").toList = ' ' :: (sign.toList ++ [' ']) := by simp
  rw [← spelled] at silent balanced ⊢
  exact ⟨Cuts.fixed silent, balanced⟩

def joints : List (List Char) := dyadicSigns ++ [['<', '<']]

theorem joints_known : ∀ sign ∈ joints,
    sign ∈ spacedSigns ∧ (sign = ['='] ∨ (rank? sign).isSome = true) := by decide

theorem lexemeAt?_sign {c : Char} {cs : List Char} {l : Lexeme} (start : Token.isNameStart c = false)
    (digit : c.isDigit = false) (point : c ≠ '.') (found : lexemeAt? c cs = some l) :
    ∃ s, l = .sign s := by
  simp only [lexemeAt?, lexeme?, start, digit, point] at found
  obtain ⟨s, -, rfl⟩ := Option.map_eq_some_iff.mp (by simpa using found)
  exact ⟨s, rfl⟩

theorem Atomizes.no_sign_first {ends : List Char} {segs : List Segment} {as : List Atom} {x : Term}
    (atoms : Atomizes ends segs as) (read : Reading 9 as x) (rest : List Segment) :
    ∀ c ∈ (codeAhead (segs ++ rest)).head?, c ∉ ['-', '=', '>'] := by
  intro c first among
  have sign : isSolid c = true ∧ Token.isNameStart c = false ∧ c.isDigit = false ∧ c ≠ '.' := by
    simp only [List.mem_cons, List.not_mem_nil, or_false] at among
    rcases among with rfl | rfl | rfl <;> decide
  obtain ⟨solid, start, digit, point⟩ := sign
  obtain ⟨blank, closed, -⟩ := isSolid_iff.mp solid
  obtain ⟨a, others, rfl, ends, -⟩ := read.starts
  cases segs with
  | nil => cases atoms.atoms
  | cons seg segs =>
    cases seg with
    | literal | comment => cases first
    | code d =>
      cases first
      rcases atoms.atoms.of_code with ⟨space, -⟩ | ⟨_, _, _, _, opening, -⟩ |
        ⟨l, cs, more, later, -, -, found, -, same, -⟩
      · cases blank.symm.trans space
      · cases closed.symm.trans opening
      · obtain ⟨s, rfl⟩ := lexemeAt?_sign start digit point found
        cases same
        cases ends

namespace Lays

variable {ends others : List Char} {a b name text : String} {as bs : List Atom}

theorem mono (h : Lays ends text as) (fewer : others ⊆ ends) : Lays others text as := by
  obtain ⟨segs, cut, balanced, atoms⟩ := h
  exact ⟨segs, cut, balanced, atoms.mono fewer⟩

theorem append {c : Char} {cs : List Char} (first : Lays ends a as) (second : Lays others b bs)
    (starts : b.toList = c :: cs) (among : c ∈ ends) (silent : quiet [c] = true) :
    Lays others (a ++ b) (as ++ bs) := by
  obtain ⟨segs, cut, balanced, atoms⟩ := first
  obtain ⟨more, cuts, balance, later⟩ := second
  obtain ⟨behind, rfl⟩ := cuts.head starts silent
  exact ⟨segs ++ _, cut.append cuts, nest_concat balanced balance,
    atoms.append later fun rest => follows_code among _⟩

-- The first text may stand before anything.
theorem before (first : ∀ ends, Lays ends a as) (second : Lays others b bs) :
    Lays others (a ++ b) (as ++ bs) := by
  obtain ⟨segs, cut, balanced, -⟩ := first []
  obtain ⟨more, cuts, balance, later⟩ := second
  have atoms (ends : List Char) : Atomizes ends segs as := by
    obtain ⟨own, also, -, read⟩ := first ends
    obtain rfl := Option.some.inj (cut.segments.symm.trans also.segments)
    exact read
  exact ⟨segs ++ more, cut.append cuts, nest_concat balanced balance, Atomizes.before atoms later⟩

theorem word (path : IsPath text.toList) : Lays ('.' :: endings) text [Atom.word text.toList] := by
  refine ⟨_, Cuts.fixed (quiet_plain path.plain), nest_plain path.plain [], ?_⟩
  obtain ⟨c, cs, spelled⟩ := path.cons
  rw [spelled] at path ⊢
  exact Atomizes.word path

theorem number (h : IsNumeral text) : Lays endings text [.lexeme (.number text.toList)] := by
  refine ⟨_, Cuts.fixed (quiet_plain h.plain), nest_plain h.plain [], ?_⟩
  obtain ⟨c, cs, spelled, digit, parts⟩ := h
  rw [spelled]
  exact Atomizes.number digit parts

theorem template {argument : String} (known : name.toList ∈ templates) (path : IsPath name.toList)
    (inner : IsPath argument.toList) :
    Lays ends (name ++ "<" ++ argument ++ ">") [Atom.word (name ++ "<" ++ argument ++ ">").toList] := by
  have plain : ∀ c ∈ (name ++ "<" ++ argument ++ ">").toList, isPlain c = true := by
    have angles : isPlain '<' = true ∧ isPlain '>' = true := by decide
    simp only [String.toList_append, List.forall_mem_append]
    refine ⟨⟨⟨path.plain, ?_⟩, inner.plain⟩, ?_⟩
    · simpa using angles.1
    · simpa using angles.2
  refine ⟨_, Cuts.fixed (quiet_plain plain), nest_plain plain [], ?_⟩
  obtain ⟨c, cs, spelled⟩ := path.cons
  have whole : (name ++ "<" ++ argument ++ ">").toList =
      c :: (cs ++ '<' :: (argument.toList ++ ['>'])) := by simp [spelled]
  rw [spelled] at path known
  rw [whole]
  exact Atomizes.template known path inner

theorem dotted (path : IsPath name.toList) :
    Lays ('.' :: endings) ("." ++ name) [Atom.sign ['.'], Atom.word name.toList] := by
  have point : Cuts ("." ++ name) (('.' :: name.toList).map Segment.code) :=
    (Cuts.fixed (a := ".") rfl).append (Cuts.fixed (quiet_plain path.plain))
  refine ⟨_, point, nest_plain path.plain [], ?_⟩
  obtain ⟨c, cs, spelled⟩ := path.cons
  rw [spelled] at path ⊢
  exact Atomizes.dotted path

theorem arrowed (path : IsPath name.toList) :
    Lays ('.' :: endings) ("->" ++ name) [Atom.sign ['-', '>'], Atom.word name.toList] := by
  have arrow : Cuts ("->" ++ name) (('-' :: '>' :: name.toList).map Segment.code) :=
    (Cuts.fixed (a := "->") rfl).append (Cuts.fixed (quiet_plain path.plain))
  refine ⟨_, arrow, nest_plain path.plain [], ?_⟩
  obtain ⟨c, cs, spelled⟩ := path.cons
  rw [spelled] at path ⊢
  exact Atomizes.arrowed path

theorem comma : Lays ends ", " [Atom.sign [',']] := ⟨_, Cuts.fixed rfl, rfl, Atomizes.comma⟩

theorem blank : Lays ends " " [] := ⟨_, Cuts.fixed rfl, rfl, Atomizes.blank⟩

theorem spaced {sign : String} (known : sign.toList ∈ spacedSigns) :
    Lays ends (" " ++ sign ++ " ") [Atom.sign sign.toList] :=
  ⟨_, (spaced_cuts known).1, (spaced_cuts known).2, Atomizes.spaced known⟩

theorem between {sign : String} (left : Lays endings a as) (known : sign.toList ∈ spacedSigns)
    (right : Lays ends b bs) :
    Lays ends (a ++ " " ++ sign ++ " " ++ b) (as ++ Atom.sign sign.toList :: bs) := by
  have behind := Lays.before (fun _ => Lays.spaced known) right
  have starts : (" " ++ sign ++ " " ++ b).toList = ' ' :: (sign.toList ++ ' ' :: b.toList) := by simp
  have whole := left.append behind starts (by decide) rfl
  simp only [String.append_assoc] at whole ⊢
  exact whole

section Groups

-- A pair of brackets, as characters and as texts.
variable {inside : List Segment} (first last : Char) (opening closing : String)
  (before : opening.toList = [first]) (after : closing.toList = [last])
  (silent : (quiet [first] && quiet [last]) = true) (opened : opens first = true)
  (closed : partner? last = some first)

include before after silent opened closed

theorem group (cut : Cuts text inside) (balanced : nest [] inside = some []) :
    Lays ends (opening ++ text ++ closing) [Atom.group first inside] :=
  ⟨_, cut.grouped first last opening closing before after silent, nest_grouped opened closed balanced,
    Atomizes.group opened closed balanced⟩

theorem grip (h : Lays endings a as) (inner : Lays endings text bs) (among : first ∈ endings) :
    ∃ inside, Atoms inside bs ∧
      ∀ ends, Lays ends (a ++ opening ++ text ++ closing) (as ++ [Atom.group first inside]) := by
  obtain ⟨inside, cut, balanced, atoms⟩ := inner
  refine ⟨inside, atoms.atoms, fun ends => ?_⟩
  have grouped : Lays ends (opening ++ text ++ closing) [Atom.group first inside] :=
    group first last opening closing before after silent opened closed cut balanced
  have starts : (opening ++ text ++ closing).toList = first :: (text.toList ++ [last]) := by
    simp [before, after]
  have whole := h.append grouped starts among (Bool.and_eq_true_iff.mp silent).1
  simpa only [String.append_assoc] using whole

end Groups

-- An operand has no sign in front, so it does not merge with a minus.
theorem signed {x : Term} (h : Lays ends text as) (read : Reading 9 as x) :
    Lays ends ("-" ++ text) (Atom.sign ['-'] :: as) := by
  obtain ⟨segs, cut, balanced, atoms⟩ := h
  have sign : Cuts "-" [.code '-'] := Cuts.fixed rfl
  exact ⟨_, sign.append cut, nest_concat rfl balanced,
    atoms.signed fun rest _ => atoms.no_sign_first read rest⟩

end Lays

def Lists (texts : List String) (xs : List Term) : Prop :=
  ∃ parts, Lays endings (commas texts) (separated parts) ∧ parts.length = xs.length ∧
    ∀ pair ∈ parts.zip xs, Reading 0 pair.1 pair.2

theorem commas_singleton (a : String) : commas [a] = a := by
  simp [commas]

theorem commas_cons (a b : String) (rest : List String) :
    commas (a :: b :: rest) = a ++ ", " ++ commas (b :: rest) := by
  simp [commas]

theorem separated_cons (p q : List Atom) (rest : List (List Atom)) :
    separated (p :: q :: rest) = p ++ ([Atom.sign [',']] ++ separated (q :: rest)) := by
  simp [separated, List.intercalate]

-- The list grows at its front, as the texts do.
theorem lists_of_forall₂ {texts : List String} {xs : List Term}
    (each : List.Forall₂ (Stands endings 0) texts xs) : Lists texts xs := by
  induction each with
  | nil => exact ⟨[], ⟨[], Cuts.fixed rfl, rfl, fun _ _ _ read => read⟩, rfl, by simp⟩
  | @cons text x texts xs here later ih =>
    obtain ⟨as, laid, read⟩ := here
    cases later with
    | nil =>
      refine ⟨[as], ?_, rfl, by simpa using read⟩
      rw [commas_singleton]
      simpa [separated, List.intercalate] using laid
    | @cons next _ others _ second more =>
      obtain ⟨parts, listed, same, reads⟩ := ih
      cases parts with
      | nil => cases same
      | cons part parts =>
        refine ⟨as :: part :: parts, ?_, by simpa using same, List.forall_mem_cons.mpr ⟨read, reads⟩⟩
        have behind := Lays.before (fun _ => Lays.comma) listed
        have starts : (", " ++ commas (next :: others)).toList =
            ',' :: (' ' :: (commas (next :: others)).toList) := by simp
        rw [commas_cons, separated_cons, String.append_assoc]
        exact laid.append behind starts (by decide) rfl

def Readable (text : String) : Prop := ∃ x, Stands endings 0 text x

theorem terms_of_readable {texts : List String} (each : ∀ text ∈ texts, Readable text) :
    ∃ xs, List.Forall₂ (Stands endings 0) texts xs := by
  induction texts with
  | nil => exact ⟨[], .nil⟩
  | cons text texts ih =>
    obtain ⟨⟨x, here⟩, later⟩ := List.forall_mem_cons.mp each
    obtain ⟨xs, others⟩ := ih later
    exact ⟨x :: xs, .cons here others⟩

theorem lists_of_readable {texts : List String} (each : ∀ text ∈ texts, Readable text) :
    ∃ xs, Lists texts xs := by
  obtain ⟨xs, stand⟩ := terms_of_readable each
  exact ⟨xs, lists_of_forall₂ stand⟩

theorem isPath_append {a b : String} (path : IsPath a.toList)
    (parts : ∀ c ∈ b.toList, Token.isNamePart c = true) : IsPath (a ++ b).toList := by
  rw [String.toList_append]
  refine ⟨?_, by rw [pathTail_append path.whole, pathTail_word parts]⟩
  obtain ⟨c, cs, spelled⟩ := path.cons
  obtain ⟨d, first, start⟩ := path.starts
  rw [spelled] at first ⊢
  exact ⟨d, first, start⟩

namespace Stands

variable {ends others : List Char} {k level : Nat} {a b c text : String} {x y z : Term}

theorem means (h : Stands ends level text x) : Means text x := by
  obtain ⟨as, ⟨segs, cut, -, atoms⟩, read⟩ := h
  exact ⟨segs, as, cut.segments, atoms.atoms, read.loosen (Nat.zero_le _)⟩

theorem mono (h : Stands ends level text x) (fewer : others ⊆ ends) : Stands others level text x := by
  obtain ⟨as, laid, read⟩ := h
  exact ⟨as, laid.mono fewer, read⟩

theorem loosen (h : Stands ends level text x) (le : k ≤ level) : Stands ends k text x := by
  obtain ⟨as, laid, read⟩ := h
  exact ⟨as, laid, read.loosen le⟩

theorem word (path : IsPath text.toList) : Stands ('.' :: endings) 10 text (.leaf text.toList) :=
  ⟨_, Lays.word path, .word _⟩

theorem name (path : IsPath text.toList) : Stands endings 9 text (.leaf text.toList) :=
  ((word path).loosen (by omega)).mono (List.subset_cons_self _ _)

theorem numeral (h : IsNumeral text) : Stands endings 10 text (.leaf text.toList) :=
  ⟨_, Lays.number h, .number _⟩

theorem literal {raw : String} (closed : Token.StringBody raw.toList) :
    Stands ends 10 ("\"" ++ raw ++ "\"") (.literal raw.toList) :=
  ⟨_, ⟨_, Cuts.literal closed, rfl, Atomizes.literal _⟩, .literal _⟩

theorem template {name argument : String} (known : name.toList ∈ templates)
    (path : IsPath name.toList) (inner : IsPath argument.toList) :
    Stands ends 10 (name ++ "<" ++ argument ++ ">") (.leaf (name ++ "<" ++ argument ++ ">").toList) :=
  ⟨_, Lays.template known path inner, .word _⟩

theorem build {name argument : String} {texts : List String} {xs : List Term}
    (known : name.toList ∈ templates) (path : IsPath name.toList) (inner : IsPath argument.toList)
    (items : Lists texts xs) :
    Stands ends 10 (name ++ "<" ++ argument ++ ">" ++ "\x7b" ++ commas texts ++ "\x7d")
      (.build (name ++ "<" ++ argument ++ ">").toList xs) := by
  obtain ⟨parts, listed, same, each⟩ := items
  have type : Lays endings _ _ := Lays.template known path inner
  obtain ⟨inside, atoms, whole⟩ :=
    type.grip '\x7b' '\x7d' "\x7b" "\x7d" rfl rfl rfl rfl rfl listed (by decide)
  exact ⟨_, whole ends, .build atoms same each⟩

theorem parenthesized (h : Stands endings 0 text x) : Stands ends 10 ("(" ++ text ++ ")") x := by
  obtain ⟨as, ⟨inside, cut, balanced, atoms⟩, read⟩ := h
  exact ⟨_, Lays.group '(' ')' "(" ")" rfl rfl rfl rfl rfl cut balanced, .parentheses atoms.atoms read⟩

theorem call {texts : List String} {xs : List Term} (callee : Stands endings 9 text x)
    (args : Lists texts xs) : Stands ends 9 (text ++ "(" ++ commas texts ++ ")") (.call x xs) := by
  obtain ⟨as, laid, read⟩ := callee
  obtain ⟨parts, listed, same, each⟩ := args
  obtain ⟨inside, atoms, whole⟩ := laid.grip '(' ')' "(" ")" rfl rfl rfl rfl rfl listed (by decide)
  exact ⟨_, whole ends, .call read atoms same each⟩

theorem index (object : Stands endings 9 a x) (key : Stands endings 0 b y) :
    Stands ends 9 (a ++ "[" ++ b ++ "]") (.index x y) := by
  obtain ⟨as, laid, read⟩ := object
  obtain ⟨bs, inner, chosen⟩ := key
  obtain ⟨inside, atoms, whole⟩ := laid.grip '[' ']' "[" "]" rfl rfl rfl rfl rfl inner (by decide)
  exact ⟨_, whole ends, .index read atoms chosen⟩

theorem dot (object : Stands ('.' :: endings) 9 text x) {name : String} (path : IsPath name.toList) :
    Stands ('.' :: endings) 9 (text ++ "." ++ name) (.member ['.'] x name.toList) := by
  obtain ⟨as, laid, read⟩ := object
  have starts : ("." ++ name).toList = '.' :: name.toList := by simp
  have whole := laid.append (Lays.dotted path) starts List.mem_cons_self rfl
  rw [String.append_assoc]
  exact ⟨_, whole, .member (.inl rfl) read _⟩

theorem pointer (h : Stands endings 0 text x) {name : String} (path : IsPath name.toList) :
    Stands ('.' :: endings) 9 ("(" ++ text ++ ")->" ++ name) (.member ['-', '>'] x name.toList) := by
  obtain ⟨as, ⟨inside, cut, balanced, atoms⟩, read⟩ := h
  have inner : Reading 9 [.group '(' inside] x :=
    (Reading.parentheses atoms.atoms read).loosen (by omega)
  have whole := Lays.before
    (fun _ => Lays.group '(' ')' "(" ")" rfl rfl rfl rfl rfl cut balanced) (Lays.arrowed path)
  have split : ")->" = ")" ++ "->" := rfl
  refine ⟨_, ?_, .member (.inr rfl) inner _⟩
  rw [split]
  simpa only [String.append_assoc] using whole

-- What stands in a lambda is not read.
theorem lambda {params body : String} {p q : List Segment} (given : Closed params p)
    (inner : Closed body q) :
    ∃ x, Stands ends 10 ("[&](" ++ params ++ ") \x7b" ++ body ++ "\x7d") x := by
  obtain ⟨names, cut, -, balanced⟩ := given
  obtain ⟨segs, cuts, -, balance⟩ := inner
  have ampersand : Cuts "&" [.code '&'] := Cuts.fixed rfl
  have captures (ends : List Char) : Lays ends ("[" ++ "&" ++ "]") [Atom.group '[' [.code '&']] :=
    Lays.group '[' ']' "[" "]" rfl rfl rfl rfl rfl ampersand rfl
  have parameters (ends : List Char) : Lays ends ("(" ++ params ++ ")") [Atom.group '(' names] :=
    Lays.group '(' ')' "(" ")" rfl rfl rfl rfl rfl cut balanced
  have block : Lays ends ("\x7b" ++ body ++ "\x7d") [Atom.group '\x7b' segs] :=
    Lays.group '\x7b' '\x7d' "\x7b" "\x7d" rfl rfl rfl rfl rfl cuts balance
  have whole := Lays.before captures (Lays.before parameters (Lays.before (fun _ => Lays.blank) block))
  have opening : "[&](" = "[" ++ "&" ++ "]" ++ "(" := rfl
  have middle : ") \x7b" = ")" ++ " " ++ "\x7b" := rfl
  refine ⟨_, _, ?_, .lambda [.code '&'] names segs⟩
  rw [opening, middle]
  simp only [String.append_assoc] at whole ⊢
  exact whole

-- A call whose result is converted.
theorem cast {name : String} {texts : List String} {xs : List Term} (path : IsPath name.toList)
    (args : Lists texts xs) : Stands ends 8 ("(double)" ++ name ++ "(" ++ commas texts ++ ")")
      (.cast (.call (.leaf name.toList) xs)) := by
  obtain ⟨parts, listed, same, each⟩ := args
  have named : Lays endings name [Atom.word name.toList] :=
    (Lays.word path).mono (List.subset_cons_self _ _)
  obtain ⟨inside, atoms, whole⟩ := named.grip '(' ')' "(" ")" rfl rfl rfl rfl rfl listed (by decide)
  have called : Reading 8 (Atom.word name.toList :: [Atom.group '(' inside])
      (.call (.leaf name.toList) xs) :=
    (Reading.call ((Reading.word _).loosen (by omega)) atoms same each).loosen (by omega)
  have double : Cuts "double" ("double".toList.map .code) := Cuts.fixed rfl
  have type (ends : List Char) :
      Lays ends ("(" ++ "double" ++ ")") [Atom.group '(' ("double".toList.map .code)] :=
    Lays.group '(' ')' "(" ")" rfl rfl rfl rfl rfl double rfl
  have converted := Lays.before type (whole ends)
  have split : "(double)" = "(" ++ "double" ++ ")" := rfl
  refine ⟨_, ?_, .cast called⟩
  rw [split]
  simp only [String.append_assoc] at converted ⊢
  exact converted

theorem join (left : Stands endings k a x) {sign : String} (known : sign.toList ∈ joints)
    (right : Stands ends 8 b y) :
    ∃ z, Stands ends 0 (a ++ " " ++ sign ++ " " ++ b) z ∧ z.isJoined = true := by
  obtain ⟨spaced, ranked⟩ := joints_known _ known
  obtain ⟨as, laid, read⟩ := left
  obtain ⟨bs, behind, operand⟩ := right
  obtain ⟨z, whole, joined⟩ := read.join ranked operand
  exact ⟨z, ⟨_, laid.between spaced behind, whole⟩, joined⟩

theorem binary {sign : String} (left : Stands endings level a x)
    (known : rank? sign.toList = some level) (spaced : sign.toList ∈ spacedSigns) (right : Stands ends (level + 1) b y) :
    Stands ends level (a ++ " " ++ sign ++ " " ++ b) (.binary sign.toList x y) := by
  obtain ⟨as, laid, read⟩ := left
  obtain ⟨bs, behind, operand⟩ := right
  exact ⟨_, laid.between spaced behind, .binary known read operand⟩

theorem assign (target : Stands endings 1 a x) (value : Stands ends 0 b y) :
    Stands ends 0 (a ++ " = " ++ b) (.assign x y) := by
  obtain ⟨as, laid, read⟩ := target
  obtain ⟨bs, behind, assigned⟩ := value
  have spaced : "=".toList ∈ spacedSigns := by decide
  have whole := laid.between spaced behind
  have split : " = " = " " ++ "=" ++ " " := by decide
  refine ⟨_, ?_, .assign read assigned⟩
  rw [split]
  simp only [String.append_assoc] at whole ⊢
  exact whole

theorem choose (test : Stands endings 0 a x) (consequent : Stands endings 0 b y)
    (alternate : Stands ends 0 c z) : ∃ w, Stands ends 0 (a ++ " ? " ++ b ++ " : " ++ c) w := by
  obtain ⟨as, laid, read⟩ := test
  obtain ⟨bs, behind, yes⟩ := consequent
  obtain ⟨cs, last, no⟩ := alternate
  obtain ⟨w, chosen⟩ := read.choose yes no
  have question : "?".toList ∈ spacedSigns := by decide
  have colon : ":".toList ∈ spacedSigns := by decide
  have whole := laid.between question (behind.between colon last)
  have asked : " ? " = " " ++ "?" ++ " " := by decide
  have either : " : " = " " ++ ":" ++ " " := by decide
  refine ⟨w, _, ?_, chosen⟩
  rw [asked, either]
  simp only [String.append_assoc] at whole ⊢
  exact whole

theorem minus (h : Stands ends 9 text x) : Stands ends 8 ("-" ++ text) (.minus x) := by
  obtain ⟨as, laid, read⟩ := h
  exact ⟨_, laid.signed read, .minus (read.loosen (by omega))⟩

end Stands

end ScriptCpp.Cpp
