import Mathlib
import ScriptCpp.Proofs.Cpp.Operand

set_option autoImplicit false

namespace ScriptCpp.Cpp

variable {exposed other : Bool} {k : Nat} {text left right sign : String} {x : Term}

/-- A number takes in what is glued to it with a point. -/
def Compact (text : String) : Prop := IsNumeral text ∨ ∃ x, Stands ('.' :: endings) 9 text x

theorem Stands.compact (h : Stands ('.' :: endings) k text x) (tight : 9 ≤ k) : Compact text :=
  .inr ⟨x, h.loosen tight⟩

namespace Compact

theorem stands (h : Compact text) : ∃ x, Stands endings 9 text x := by
  rcases h with number | ⟨x, stands⟩
  · exact ⟨_, (Stands.numeral number).loosen (by omega)⟩
  · exact ⟨x, stands.mono (List.subset_cons_self _ _)⟩

theorem call {texts : List String} {xs : List Term} (h : Compact text) (args : Lists texts xs) :
    Compact (text ++ "(" ++ commas texts ++ ")") := by
  obtain ⟨x, stands⟩ := h.stands
  exact (stands.call args).compact le_rfl

theorem index {key : String} (h : Compact text) (chosen : Stands endings 0 key x) :
    Compact (text ++ "[" ++ key ++ "]") := by
  obtain ⟨y, stands⟩ := h.stands
  exact (stands.index chosen).compact le_rfl

theorem dot {name : String} (h : Compact text) (path : IsPath name.toList)
    (parts : ∀ c ∈ name.toList, Token.isNamePart c = true) : Compact (text ++ "." ++ name) := by
  rcases h with number | ⟨x, stands⟩
  · exact .inl (number.dot parts)
  · exact (stands.dot path).compact le_rfl

end Compact

/-- Compact texts in a row; whether there is more than one. -/
inductive Chain : Bool → String → Prop
  | compact {text : String} (h : Compact text) : Chain false text
  | join {exposed : Bool} {left sign right : String} (before : Chain exposed left)
      (known : sign.toList ∈ joints) (h : Compact right) :
      Chain true (left ++ " " ++ sign ++ " " ++ right)

namespace Chain

theorem glue (suffix : String) (fits : ∀ part, Compact part → Compact (part ++ suffix))
    (h : Chain exposed text) : Chain exposed (text ++ suffix) := by
  cases h with
  | compact h => exact .compact (fits _ h)
  | join before known h =>
    rw [String.append_assoc]
    exact .join before known (fits _ h)

theorem call {texts : List String} (h : Chain exposed text) (each : ∀ text ∈ texts, Readable text) :
    Chain exposed (text ++ "(" ++ commas texts ++ ")") := by
  obtain ⟨xs, lists⟩ := lists_of_readable each
  have whole := h.glue ("(" ++ commas texts ++ ")") fun part compact => by
    simpa only [String.append_assoc] using compact.call lists
  simpa only [String.append_assoc] using whole

theorem index {key : String} (h : Chain exposed text) (chosen : Readable key) :
    Chain exposed (text ++ "[" ++ key ++ "]") := by
  obtain ⟨x, stands⟩ := chosen
  have whole := h.glue ("[" ++ key ++ "]") fun part compact => by
    simpa only [String.append_assoc] using compact.index stands
  simpa only [String.append_assoc] using whole

theorem dot {name : String} (h : Chain exposed text) (path : IsPath name.toList)
    (parts : ∀ c ∈ name.toList, Token.isNamePart c = true) : Chain exposed (text ++ "." ++ name) := by
  have whole := h.glue ("." ++ name) fun part compact => by
    simpa only [String.append_assoc] using compact.dot path parts
  simpa only [String.append_assoc] using whole

theorem concat (before : Chain exposed left) (known : sign.toList ∈ joints) (h : Chain other right) :
    Chain true (left ++ " " ++ sign ++ " " ++ right) := by
  induction h with
  | compact h => exact .join before known h
  | join _ also h ih =>
    have whole := Chain.join ih also h
    simpa only [String.append_assoc] using whole

theorem stands (h : Chain exposed text) :
    ∃ x, Stands endings 0 text x ∧ (exposed = true → x.isJoined = true) := by
  induction h with
  | compact h =>
    obtain ⟨x, stands⟩ := h.stands
    exact ⟨x, stands.loosen (Nat.zero_le _), fun none => by cases none⟩
  | join _ known h ih =>
    obtain ⟨x, before, -⟩ := ih
    obtain ⟨y, behind⟩ := h.stands
    obtain ⟨z, whole, joined⟩ := before.join known (behind.loosen (by omega))
    exact ⟨z, whole, fun _ => joined⟩

theorem readable (h : Chain exposed text) : Readable text := by
  obtain ⟨x, stands, -⟩ := h.stands
  exact ⟨x, stands⟩

-- A minus goes to the first of the compact texts.
theorem negated (h : Chain exposed text) :
    ∃ x, Stands endings 0 ("-" ++ text) x ∧ (exposed = true → x.isJoined = true) := by
  induction h with
  | compact h =>
    obtain ⟨x, stands⟩ := h.stands
    exact ⟨_, stands.minus.loosen (Nat.zero_le _), fun none => by cases none⟩
  | join _ known h ih =>
    obtain ⟨x, before, -⟩ := ih
    obtain ⟨y, behind⟩ := h.stands
    obtain ⟨z, whole, joined⟩ := before.join known (behind.loosen (by omega))
    exact ⟨z, by simpa only [String.append_assoc] using whole, fun _ => joined⟩

theorem parenthesized (h : Chain exposed text) : Compact ("(" ++ text ++ ")") := by
  obtain ⟨x, stands, -⟩ := h.stands
  exact stands.parenthesized.compact (by omega)

end Chain

/-- The sign stands in the text with a blank on either side, outside all brackets and literals. -/
def Exposes (text : String) (sign : List Char) : Prop :=
  ∃ before after, nest [] before = some [] ∧
    segments? text.toList = some (before ++ (' ' :: (sign ++ [' '])).map Segment.code ++ after)

section Splitting

variable {c : Char} {cs : List Char} {l : Lexeme} {before rest segs inside : List Segment}
  {as : List Atom}

theorem numberTail_chars (cs : List Char) :
    ∀ d ∈ numberTail cs, (isNumberPart d || d == '+' || d == '-') = true := by
  have letter {c : Char} (exponent : isExponentLetter c = true) : isNumberPart c = true := by
    simp only [isExponentLetter, List.contains_eq_mem, List.mem_cons, List.not_mem_nil, or_false,
      decide_eq_true_eq] at exponent
    rcases exponent with rfl | rfl | rfl | rfl <;> rfl
  fun_induction numberTail cs with
  | case1 c s rest signed ih =>
    simp only [Bool.and_eq_true, Bool.or_eq_true, decide_eq_true_eq] at signed
    refine List.forall_mem_cons.mpr ⟨by simp [letter signed.1], List.forall_mem_cons.mpr ⟨?_, ih⟩⟩
    rcases signed.2 with rfl | rfl <;> simp
  | case2 c s rest _ part ih => exact List.forall_mem_cons.mpr ⟨by simp [part], ih⟩
  | case4 c part => simp [part]
  | case3 | case5 | case6 => simp

theorem wordAt_chars (cs : List Char) :
    ∀ d ∈ wordAt cs, (Token.isNamePart d || d == ':' || d == '<' || d == '>') = true := by
  have path (cs : List Char) :
      ∀ d ∈ pathTail cs, (Token.isNamePart d || d == ':' || d == '<' || d == '>') = true := by
    intro d among
    simp [pathTail_chars cs d among]
  refine List.forall_mem_append.mpr ⟨path cs, ?_⟩
  unfold templateArgument
  split
  · split
    · exact List.forall_mem_cons.mpr ⟨rfl, List.forall_mem_append.mpr ⟨path _, by simp⟩⟩
    · simp
  · simp

-- No lexeme but a bracket has a blank or a bracket in it.
theorem lexemeAt?_solid (solid : isSolid c = true) (found : lexemeAt? c cs = some l) :
    ∀ d ∈ l.chars, isSolid d = true := by
  have signs : signs.all (fun s => s.tail.all isSolid) = true := by decide
  unfold lexemeAt? lexeme? at found
  split at found
  · cases found
    exact fun d among => isSolid_of
      (p := fun d => Token.isNamePart d || d == ':' || d == '<' || d == '>') (by decide)
      (wordAt_chars _ d among)
  · split at found
    · cases found
      refine List.forall_mem_cons.mpr ⟨solid, fun d among => ?_⟩
      exact isSolid_of (p := fun d => isNumberPart d || d == '+' || d == '-') (by decide)
        (numberTail_chars _ d among)
    · obtain ⟨s, first, rfl⟩ := Option.map_eq_some_iff.mp found
      have starts : s <+: c :: cs := by simpa using List.find?_some first
      have tail := List.all_eq_true.mp signs s (List.mem_of_find?_eq_some first)
      cases s with
      | nil => simp [Lexeme.chars]
      | cons d ds =>
        obtain ⟨rfl, -⟩ := List.cons_prefix_cons.mp starts
        exact List.forall_mem_cons.mpr ⟨solid, List.all_eq_true.mp tail⟩

theorem nest_solid (open_ : List Char) (solid : ∀ c ∈ cs, isSolid c = true) :
    nest open_ (cs.map .code) = some open_ := by
  induction cs with
  | nil => rfl
  | cons c cs ih =>
    obtain ⟨here, later⟩ := List.forall_mem_cons.mp solid
    obtain ⟨-, noOpen, noPartner⟩ := isSolid_iff.mp here
    have step : bracket open_ (.code c) = some open_ := by simp [bracket, noOpen, noPartner]
    rw [List.map_cons, nest_cons, step]
    exact ih later

-- A part in brackets lies on one side of any place outside all brackets.
theorem group_aside {first last : Char} (closing : partner? last = some first)
    (inner : nest [] inside = some []) {more behind : List Segment}
    (balanced : nest [first] more = some [])
    (same : inside ++ Segment.code last :: segs = more ++ behind) :
    ∃ gap, segs = gap ++ behind ∧ nest [] gap = some [] := by
  rcases List.append_eq_append_iff.mp same with ⟨gap, rfl, split⟩ | ⟨gap, rfl, split⟩
  · have framed : nest [first] inside = some [first] := nest_frame inner [first]
    rw [nest_append, framed, Option.bind_some] at balanced
    cases gap with
    | nil => cases balanced
    | cons seg gap =>
      obtain ⟨rfl, rfl⟩ := List.cons.inj split
      refine ⟨gap, rfl, ?_⟩
      rw [nest_cons] at balanced
      simpa [bracket, opens_of_partner? closing, closing] using balanced
  · rw [nest_append] at inner
    obtain ⟨left, prior, -⟩ := Option.bind_eq_some_iff.mp inner
    have framed : nest [first] more = some (left ++ [first]) := nest_frame prior [first]
    cases framed.symm.trans balanced |> Option.some.inj |> List.append_eq_nil_iff.mp |>.2

theorem Atoms.at_blank (h : Atoms (before ++ Segment.code ' ' :: rest) as)
    (balanced : nest [] before = some []) :
    ∃ first later, as = first ++ later ∧ Atoms (Segment.code ' ' :: rest) later := by
  generalize whole : before ++ Segment.code ' ' :: rest = segs at h
  induction h generalizing before with
  | nil => simp at whole
  | @blank c segs as blank h ih =>
    cases before with
    | nil =>
      cases whole
      exact ⟨[], _, rfl, .blank blank h⟩
    | cons seg before =>
      obtain ⟨rfl, split⟩ := List.cons.inj whole
      have step : bracket [] (.code c) = some [] := by
        simp only [Token.isBlank, Bool.or_eq_true, decide_eq_true_eq] at blank
        rcases blank with ((rfl | rfl) | rfl) | rfl <;> rfl
      rw [nest_cons, step] at balanced
      exact ih balanced split
  | @comment body segs as h ih =>
    cases before with
    | nil => cases whole
    | cons seg before =>
      obtain ⟨rfl, split⟩ := List.cons.inj whole
      exact ih (by simpa [nest_cons, bracket] using balanced) split
  | @literal body segs as h ih =>
    cases before with
    | nil => cases whole
    | cons seg before =>
      obtain ⟨rfl, split⟩ := List.cons.inj whole
      obtain ⟨first, later, rfl, read⟩ := ih (by simpa [nest_cons, bracket] using balanced) split
      exact ⟨_ :: first, later, rfl, read⟩
  | @group first last inside segs as opening closing inner h ih =>
    cases before with
    | nil =>
      cases (List.cons.inj whole).1
      cases opening
    | cons seg before =>
      obtain ⟨rfl, split⟩ := List.cons.inj whole
      have step : bracket [] (.code first) = some [first] := by simp [bracket, opening]
      rw [nest_cons, step] at balanced
      -- The brackets of `before` match, so the group that it opens ends before the blank.
      obtain ⟨gap, rest, even⟩ := group_aside closing inner balanced split.symm
      obtain ⟨before, later, rfl, read⟩ := ih even rest.symm
      exact ⟨_ :: before, later, rfl, read⟩
  | @lexeme l c cs segs as solid chars read h ih =>
    have solids := lexemeAt?_solid solid read
    rw [chars] at solids
    have split : before ++ Segment.code ' ' :: rest = (c :: cs).map Segment.code ++ segs := whole
    -- There is no blank in a lexeme: it ends at the blank or before it.
    rcases List.append_eq_append_iff.mp split with ⟨gap, front, behind⟩ | ⟨gap, rfl, behind⟩
    · cases gap with
      | nil =>
        obtain rfl : .code ' ' :: rest = segs := behind
        exact ⟨[_], _, rfl, h⟩
      | cons seg gap =>
        obtain ⟨rfl, -⟩ := List.cons.inj behind
        have blank : .code ' ' ∈ (c :: cs).map Segment.code := by simp [front]
        obtain ⟨d, among, same⟩ := List.mem_map.mp blank
        cases same
        cases solids ' ' among
    · rw [nest_append, nest_solid [] solids] at balanced
      obtain ⟨first, later, rfl, found⟩ := ih balanced behind.symm
      exact ⟨_ :: first, later, rfl, found⟩

theorem lexemeAt?_spaced {sign : List Char} (known : sign ∈ spacedSigns) :
    ∃ c cs, sign = c :: cs ∧ isSolid c = true ∧
      ∀ rest, lexemeAt? c (cs ++ ' ' :: rest) = some (.sign sign) := by
  simp only [spacedSigns, dyadicSigns, List.cons_append, List.nil_append, List.mem_cons,
    List.not_mem_nil, or_false] at known
  rcases known with rfl | rfl | rfl | rfl | rfl | rfl | rfl | rfl | rfl | rfl | rfl | rfl | rfl |
    rfl | rfl | rfl | rfl
  all_goals exact ⟨_, _, rfl, rfl, fun _ => rfl⟩

theorem Atoms.of_spaced {sign : List Char} (known : sign ∈ spacedSigns)
    (h : Atoms ((' ' :: (sign ++ [' '])).map Segment.code ++ rest) as) :
    ∃ later, as = .sign sign :: later := by
  obtain ⟨c, cs, rfl, solid, found⟩ := lexemeAt?_spaced known
  rcases h.of_code with ⟨-, inner⟩ | ⟨_, _, _, _, opening, -⟩ | ⟨_, _, _, _, blank, -⟩
  · obtain ⟨clear, noOpen, -⟩ := isSolid_iff.mp solid
    rcases Atoms.of_code (c := c) inner with
      ⟨blank, -⟩ | ⟨_, _, _, _, opening, -⟩ | ⟨l, _, _, later, -, -, read, -, same, -⟩
    · cases clear.symm.trans blank
    · cases noOpen.symm.trans opening
    · have ahead : codeAhead ((cs ++ [' ']).map Segment.code ++ rest) =
          cs ++ ' ' :: codeAhead rest := by
        rw [codeAhead_append]
        simp
      cases (found _).symm.trans ((congrArg _ ahead).symm.trans read)
      exact ⟨later, same⟩
  · cases opening
  · cases blank

-- An operand has no sign but those of member accesses.
theorem Reading.signs_of_access (h : Reading k as x) (tight : 9 ≤ k) {sign : List Char}
    (among : .sign sign ∈ as) : sign = ['.'] ∨ sign = ['-', '>'] := by
  induction h with
  | word | number | literal | parentheses | build | lambda => simp at among
  | call _ _ _ _ ih | index _ _ _ ih => exact ih le_rfl (by simpa using among)
  | member access _ _ ih =>
    simp only [List.mem_append, List.mem_cons, List.not_mem_nil, or_false] at among
    rcases among with inside | same | same
    · exact ih le_rfl inside
    · cases same
      exact access
    · cases same
  | binary known => exact absurd (rank?_bounds known).2 (by omega)
  | minus | cast | assign | choice => omega
  | tighter _ _ ih => exact ih (by omega) among

theorem Compact.not_exposes (h : Compact text) {sign : List Char} (known : sign ∈ spacedSigns) :
    ¬ Exposes text sign := by
  rintro ⟨before, after, balanced, segmented⟩
  obtain ⟨x, as, ⟨segs, cut, -, atoms⟩, read⟩ := h.stands
  obtain rfl := Option.some.inj (cut.segments.symm.trans segmented)
  have whole := atoms.atoms
  rw [List.append_assoc] at whole
  obtain ⟨first, later, rfl, behind⟩ := Atoms.at_blank whole balanced
  obtain ⟨others, rfl⟩ := Atoms.of_spaced known behind
  have access : sign = ['.'] ∨ sign = ['-', '>'] := read.signs_of_access le_rfl (by simp)
  rcases access with rfl | rfl <;> revert known <;> decide

theorem Chain.exposes_iff (h : Chain exposed text) :
    (∃ sign ∈ spacedSigns, Exposes text sign) ↔ exposed = true := by
  cases h with
  | compact h => simpa using fun sign known => h.not_exposes known
  | @join inner left sign right before known h =>
    obtain ⟨x, ⟨as, ⟨segs, cut, balanced, -⟩, -⟩, -⟩ := before.stands
    obtain ⟨y, bs, ⟨more, cuts, -⟩, -⟩ := h.stands
    have spaced := (joints_known _ known).1
    have whole := (cut.append (spaced_cuts spaced).1).append cuts
    refine iff_of_true ⟨sign.toList, spaced, segs, more, balanced, ?_⟩ rfl
    rw [← whole.segments]
    simp only [String.append_assoc]

end Splitting

section Gluing

variable {g : Term}

theorem Chain.single (h : Chain exposed text) (own : Means text g) (alone : exposed = false) :
    Stands endings 9 text g := by
  subst alone
  cases h with
  | compact compact =>
    obtain ⟨x, stands⟩ := compact.stands
    rwa [own.unique stands.means]

theorem Means.alone (own : Means text g) (apart : g.isJoined = false)
    (whole : ∃ x, Stands endings 0 text x ∧ (exposed = true → x.isJoined = true)) :
    exposed = false := by
  obtain ⟨x, stands, joined⟩ := whole
  rw [← own.unique stands.means, apart] at joined
  simpa using joined

variable (h : Chain exposed text) (own : Means text g)

include h own

namespace Chain

theorem means_call_iff {texts : List String} {xs : List Term}
    (args : List.Forall₂ (Stands endings 0) texts xs) (each : ∀ text ∈ texts, Readable text) :
    Means (text ++ "(" ++ commas texts ++ ")") (.call g xs) ↔ exposed = false := by
  refine ⟨fun whole => whole.alone rfl (h.call each).stands, fun alone => ?_⟩
  have called : Stands endings 9 _ _ := (h.single own alone).call (lists_of_forall₂ args)
  exact called.means

theorem means_index_iff {key : String} {k : Term} (chosen : Stands endings 0 key k) :
    Means (text ++ "[" ++ key ++ "]") (.index g k) ↔ exposed = false := by
  refine ⟨fun whole => whole.alone rfl (h.index ⟨k, chosen⟩).stands, fun alone => ?_⟩
  have chosen : Stands endings 9 _ _ := (h.single own alone).index chosen
  exact chosen.means

theorem means_dot_iff {name : String} (path : IsPath name.toList)
    (parts : ∀ c ∈ name.toList, Token.isNamePart c = true) :
    Means (text ++ "." ++ name) (.member ['.'] g name.toList) ↔ exposed = false ∧ ¬ IsNumeral text := by
  constructor
  · intro whole
    refine ⟨whole.alone rfl (h.dot path parts).stands, fun number => ?_⟩
    cases whole.unique (Stands.numeral (number.dot parts)).means
  · rintro ⟨rfl, other⟩
    cases h with
    | compact compact =>
      obtain ⟨x, stands⟩ := compact.resolve_left other
      rw [own.unique stands.means]
      exact (stands.dot path).means

theorem means_minus_iff : Means ("-" ++ text) (.minus g) ↔ exposed = false :=
  ⟨fun whole => whole.alone rfl h.negated, fun alone => (h.single own alone).minus.means⟩

theorem streamed (alone : exposed = false) {stream : String} {s : Term}
    (before : Stands endings 5 stream s) :
    Stands endings 5 (stream ++ " << " ++ text) (.binary ['<', '<'] s g) := by
  have item : Stands endings 6 text g := (h.single own alone).loosen (by omega)
  have whole : Stands endings 5 (stream ++ " " ++ "<<" ++ " " ++ text) (.binary "<<".toList s g) :=
    before.binary rfl (by decide) item
  have split : " << " = " " ++ "<<" ++ " " := by decide
  have sign : "<<".toList = ['<', '<'] := rfl
  rw [sign] at whole
  rw [split]
  simpa only [String.append_assoc] using whole

end Chain

end Gluing

end ScriptCpp.Cpp
