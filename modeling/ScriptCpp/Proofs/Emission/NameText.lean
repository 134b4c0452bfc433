import Mathlib
import ScriptCpp.Proofs.Cpp.Identifier
import ScriptCpp.Proofs.Emission.Mention
import ScriptCpp.Proofs.OperatorGrouping

set_option autoImplicit false

namespace ScriptCpp

open Cpp

namespace Emission

/-- Wherever the text stands, the identifiers of its code are its own and mention these names. If it is
not `open_`, it does not end in a word. -/
structure Names (features : Features) (open_ : Bool) (text : String) (ms : List Mention) : Prop where
  worded : ∃ segs, (∀ rest, segments? (text.toList ++ rest) = (segments? rest).map (segs ++ ·)) ∧
    Worded features ms (identifiers segs)
  ends : open_ = false → endsWord text.toList = false

def signSegments (sign : String) : List Segment := sign.toList.map .code

def ownText (sign : String) : Bool :=
  quiet sign.toList && (identifiers (signSegments sign)).all isOwnWord

def leadText (sign : String) : Bool := ownText sign && !endsWord sign.toList

def gapText (sign : String) : Bool :=
  leadText sign && !startsWord sign.toList && !sign.toList.isEmpty

def typeText (sign : String) : Bool :=
  leadText sign && (identifiers (signSegments sign)).getLast?.any typeWords.contains

section Segments

variable {segs : List Segment} {cs : List Char}

theorem segments?_of_reads (read : ∀ rest, segments? (cs ++ rest) = (segments? rest).map (segs ++ ·)) :
    segments? cs = some segs := by
  have alone := read []
  rw [List.append_nil] at alone
  simpa [segments?] using alone

theorem spells_of_reads (read : ∀ rest, segments? (cs ++ rest) = (segments? rest).map (segs ++ ·)) :
    segs.flatMap Segment.chars = cs :=
  (segments?_spells (segments?_of_reads read)).1

theorem endsLetter_of_reads (read : ∀ rest, segments? (cs ++ rest) = (segments? rest).map (segs ++ ·))
    (ends : endsWord cs = false) : endsLetter segs = false := by
  by_contra letter
  have word := endsWord_of_endsLetter (Bool.of_not_eq_false letter)
  rw [spells_of_reads read, ends] at word
  cases word

theorem startsLetter_of_reads (read : ∀ rest, segments? (cs ++ rest) = (segments? rest).map (segs ++ ·))
    (starts : startsWord cs = false) : startsLetter segs = false := by
  by_contra letter
  have word := startsWord_of_startsLetter (Bool.of_not_eq_false letter)
  rw [spells_of_reads read, starts] at word
  cases word

end Segments

theorem ownText_iff {sign : String} : ownText sign = true ↔
    quiet sign.toList = true ∧ ∀ w ∈ identifiers (signSegments sign), isOwnWord w = true := by
  simp [ownText]

theorem leadText_iff {sign : String} :
    leadText sign = true ↔ ownText sign = true ∧ endsWord sign.toList = false := by
  simp [leadText]

theorem gapText_iff {sign : String} :
    gapText sign = true ↔ leadText sign = true ∧ startsWord sign.toList = false ∧ sign.toList ≠ [] := by
  simp [gapText, and_assoc]

namespace Names

variable {features : Features} {o o' : Bool} {a b sign raw name : String} {ms ns : List Mention}

theorem append (first : Names features o a ms) (second : Names features o' b ns)
    (apart : o = false ∨ startsWord b.toList = false) (kept : o = false ∨ o' = true ∨ b.toList ≠ []) :
    Names features o' (a ++ b) (ms ++ ns) := by
  obtain ⟨segs, read, worded⟩ := first.worded
  obtain ⟨more, readMore, wordedMore⟩ := second.worded
  have seam : endsLetter segs = false ∨ startsLetter more = false := by
    rcases apart with closed | starts
    · exact .inl (endsLetter_of_reads read (first.ends closed))
    · exact .inr (startsLetter_of_reads readMore starts)
  refine ⟨⟨segs ++ more, fun rest => ?_, ?_⟩, fun closed => ?_⟩
  · rw [String.toList_append, List.append_assoc, read, readMore, Option.map_map]
    simp only [Function.comp_def, List.append_assoc]
  · rw [identifiers_append seam]
    exact worded.append wordedMore
  · rw [String.toList_append]
    by_cases empty : b.toList = []
    · rw [empty, List.append_nil]
      rcases kept with before | loose | notNil
      · exact first.ends before
      · cases loose.symm.trans closed
      · exact absurd empty notNil
    · rw [endsWord_append empty]
      exact second.ends closed

theorem of_worded (h : ∃ segs, (∀ rest, segments? (a.toList ++ rest) = (segments? rest).map (segs ++ ·)) ∧
    Worded features ms (identifiers segs)) : Names features true a ms where
  worded := h
  ends closed := by cases closed

theorem loose (h : Names features o a ms) : Names features true a ms := .of_worded h.worded

theorem text (h : Names features false a ms) (inner : Names features o b ns) :
    Names features o (a ++ b) (ms ++ ns) :=
  h.append inner (.inl rfl) (.inl rfl)

theorem silent (h : Names features false a ms) (inner : Names features o b []) :
    Names features o (a ++ b) ms := by
  simpa using h.text inner

theorem word (ok : ownText sign = true) : Names features true sign [] := by
  obtain ⟨silent, own⟩ := ownText_iff.mp ok
  exact .of_worded ⟨signSegments sign, segments?_quiet silent, .owns own⟩

theorem fixed (ok : leadText sign = true) : Names features false sign [] := by
  obtain ⟨own, ends⟩ := leadText_iff.mp ok
  exact ⟨(word own).worded, fun _ => ends⟩

theorem nil : Names features false "" [] := fixed (by decide)

theorem fix (h : Names features o a ms) (ok : gapText sign = true) :
    Names features false (a ++ sign) ms := by
  obtain ⟨leading, starts, notNil⟩ := gapText_iff.mp ok
  simpa using h.append (fixed leading) (.inr starts) (.inr (.inr notNil))

theorem finish (h : Names features o a ms) (ok : ownText sign = true)
    (starts : startsWord sign.toList = false) : Names features true (a ++ sign) ms := by
  simpa using h.append (word ok) (.inr starts) (.inr (.inl rfl))

theorem surrounded {before after : String} (leading : leadText before = true) (h : Names features o a ms)
    (closing : gapText after = true) : Names features false (before ++ a ++ after) ms :=
  ((fixed leading).text h).fix closing

theorem parenthesized (h : Names features o a ms) : Names features false ("(" ++ a ++ ")") ms :=
  surrounded (by decide) h (by decide)

-- A literal has no identifiers, and its quotes are no words.
theorem literal (closed : Token.StringBody raw.toList) :
    Names features false ("\"" ++ raw ++ "\"") [] := by
  refine ⟨⟨[.literal raw.toList], fun rest => ?_, .done⟩, fun _ => ?_⟩
  · simpa [String.toList_append] using segments?_literal closed rest
  · rw [String.toList_append, endsWord_append (by decide)]
    decide

theorem comment {body : String} (inline : '\n' ∉ body.toList) :
    Names features false ("//" ++ body ++ "\n") [] := by
  refine ⟨⟨[.comment body.toList, .code '\n'], fun rest => ?_, .done⟩, fun _ => ?_⟩
  · simpa [String.toList_append] using segments?_comment inline rest
  · rw [String.toList_append, endsWord_append (by decide)]
    decide

theorem quoted {before after other : String} (h : Names features false (a ++ sign) ms)
    (closed : Token.StringBody raw.toList) (first : before = sign ++ "\"") (last : after = "\"" ++ other)
    (left : gapText other = true) : Names features false (a ++ before ++ raw ++ after) ms := by
  have whole := (h.silent (literal closed)).fix left
  rw [first, last]
  simpa only [String.append_assoc] using whole

end Names

section Words

variable {features : Features} {word : String} {ms : List Mention}

theorem parts_of_isName (named : IsName word) :
    word.toList ≠ [] ∧ ∀ c ∈ word.toList, Token.isNamePart c = true := by
  obtain ⟨c, cs, spelled, start, others⟩ := named
  rw [spelled]
  exact ⟨List.cons_ne_nil c cs, List.forall_mem_cons.mpr
    ⟨Token.isNamePart_of_isNameStart start, List.all_eq_true.mp others⟩⟩

theorem identifiers_of_isName (named : IsName word) : identifiers (signSegments word) = [word] := by
  obtain ⟨notNil, parts⟩ := parts_of_isName named
  obtain ⟨c, cs, spelled, start, -⟩ := named
  have digit : c.isDigit = false := by
    by_contra digit
    cases start.symm.trans (Token.isNameStart_eq_false_of_digit (by simpa using digit))
  have plain : isNumeric word.toList = false := by simp [isNumeric, spelled, digit]
  rw [identifiers, signSegments, words_run notNil parts]
  simp [plain]

theorem isName_binding (named : IsName word) : IsName (binding word) := by
  unfold binding
  split
  · exact ⟨'r', "iri_main".toList, by decide, by decide, by decide⟩
  · exact named

namespace Names

theorem reads_of_isName (named : IsName word) (rest : List Char) :
    segments? (word.toList ++ rest) = (segments? rest).map (signSegments word ++ ·) := by
  refine segments?_quiet (quiet_plain fun c present => ?_) rest
  exact isPlain_of (p := Token.isNamePart) (by decide) ((parts_of_isName named).2 c present)

theorem name (named : IsName word) (worded : Worded features ms [word]) :
    Names features true word ms := by
  refine .of_worded ⟨signSegments word, reads_of_isName named, ?_⟩
  rwa [identifiers_of_isName named]

theorem label (named : IsName word) : Names features true word [.label word] :=
  .name named (.label word .done)

theorem used (named : IsName word) : Names features true (binding word) [.used word] :=
  .name (isName_binding named) (.used word .done)

-- The type belongs to the mention, so the sign and the name are taken together.
theorem bound {sign : String} (ok : typeText sign = true) (named : IsName word) :
    Names features true (sign ++ binding word) [.bound word] := by
  obtain ⟨leading, typed⟩ : leadText sign = true ∧
      (identifiers (signSegments sign)).getLast?.any typeWords.contains = true := by
    simpa [typeText] using ok
  obtain ⟨own, ends⟩ := leadText_iff.mp leading
  obtain ⟨silent, owns⟩ := ownText_iff.mp own
  have read : ∀ rest, segments? (sign.toList ++ rest) = (segments? rest).map (signSegments sign ++ ·) :=
    segments?_quiet silent
  have readName := reads_of_isName (isName_binding named)
  refine .of_worded ⟨signSegments sign ++ signSegments (binding word), fun rest => ?_, ?_⟩
  · rw [String.toList_append, List.append_assoc, read, readName, Option.map_map]
    simp only [Function.comp_def, List.append_assoc]
  · rw [identifiers_append (.inl (endsLetter_of_reads read ends)),
      identifiers_of_isName (isName_binding named)]
    rcases List.eq_nil_or_concat (identifiers (signSegments sign)) with none | ⟨front, type, split⟩
    · simp [none] at typed
    · rw [split, List.concat_eq_append] at owns typed ⊢
      have listed : type ∈ typeWords := by simpa using typed
      rw [List.append_assoc]
      exact (Worded.owns fun w present => owns w (List.mem_append_left _ present)).append
        (.bound word listed .done)

end Names

end Words

section Numbers

variable {features : Features}

-- A word of such a text starts with a digit, for a point is no part of a word.
theorem identifiers_numeral {cs : List Char} (chars : ∀ d ∈ cs, (d.isDigit || d == '.') = true) :
    identifiers (cs.map .code) = [] := by
  rw [identifiers, List.map_eq_nil_iff, List.filter_eq_nil_iff]
  intro w present
  obtain ⟨notNil, each⟩ := mem_words present
  obtain ⟨d, ds, rfl⟩ := List.exists_cons_of_ne_nil notNil
  obtain ⟨inside, part⟩ := each d List.mem_cons_self
  have digit : d.isDigit = true := by
    rcases Bool.or_eq_true_iff.mp (chars d (by simpa using inside)) with digit | point
    · exact digit
    · rw [beq_iff_eq.mp point] at part
      cases part
  simp [isNumeric, digit]

theorem Names.number (value : Binary64) : Names features true value.text [] := by
  cases value with
  | nan => exact .word (by decide)
  | infinite negative => cases negative <;> exact .word (by decide)
  | finite negative m e =>
    obtain ⟨c, cs, spelled, first, others⟩ := (Binary64.shortest m e).text_chars
    have chars : ∀ d ∈ (Binary64.shortest m e).text.toList, (d.isDigit || d == '.') = true := by
      rw [spelled]
      intro d present
      rcases List.mem_cons.mp present with rfl | later
      · simp [first]
      · simpa using others d later
    have plain : quiet (Binary64.shortest m e).text.toList = true :=
      quiet_plain fun d present =>
        isPlain_of (p := fun d => d.isDigit || d == '.') (by decide) (chars d present)
    have numeric : Worded features [] (identifiers (signSegments (Binary64.shortest m e).text)) := by
      rw [signSegments, identifiers_numeral chars]
      exact .done
    have magnitude : Names features true (Binary64.shortest m e).text [] :=
      .of_worded ⟨signSegments _, segments?_quiet plain, numeric⟩
    cases negative with
    | true => exact (Names.fixed (by decide) : Names features false "-" []).text magnitude
    | false => exact Names.nil.text magnitude

end Numbers

section Lists

variable {features : Features} {o : Bool} {sep : String} {parts : List String}
  {mss : List (List Mention)} {args : List Piece}

theorem Names.intercalate (apart : Names features false sep []) (starts : startsWord sep.toList = false)
    (notNil : sep.toList ≠ []) (each : List.Forall₂ (Names features true) parts mss) :
    Names features true (sep.intercalate parts) mss.flatten := by
  induction each with
  | nil => exact Names.nil.loose
  | cons first later ih =>
    cases later with
    | nil => simpa using first
    | cons second more =>
      have led := first.append apart (.inr starts) (.inr (.inr notNil))
      simpa using led.text ih

theorem names_commas (each : List.Forall₂ (Names features true) parts mss) :
    Names features true (commas parts) mss.flatten :=
  .intercalate (.fixed (by decide)) (by decide) (by decide) each

abbrev PiecesName (features : Features) (args : List Piece) (mss : List (List Mention)) : Prop :=
  List.Forall₂ (fun piece ms => Names features true piece.text ms) args mss

theorem PiecesName.texts (named : PiecesName features args mss) :
    List.Forall₂ (Names features true) (SpecialForm.texts args) mss :=
  List.forall₂_map_left_iff.mpr named

theorem names_grouped {piece : Piece} {ms : List Mention} (h : Names features o piece.text ms) :
    Names features true piece.grouped ms := by
  unfold Piece.grouped
  split
  · exact h.parenthesized.loose
  · exact h.loose

theorem PiecesName.grouped (named : PiecesName features args mss) :
    List.Forall₂ (Names features true) (args.map Piece.grouped) mss :=
  List.forall₂_map_left_iff.mpr (named.imp fun _ _ => names_grouped)

theorem names_string {raw : String} (closed : Token.StringBody raw.toList) :
    Names features false ("std::string(\"" ++ raw ++ "\")") [] := by
  have opening : "std::string(\"" = "std::string(" ++ "\"" := by decide
  have closing : "\")" = "\"" ++ ")" := by decide
  have led : Names features false ("" ++ "std::string(") [] := Names.nil.text (.fixed (by decide))
  have whole := led.quoted closed opening closing (by decide)
  rwa [String.empty_append] at whole

end Lists

end Emission

end ScriptCpp
