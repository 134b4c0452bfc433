import Mathlib
import ScriptCpp.Proofs.Lexing.Seam

set_option autoImplicit false

namespace ScriptCpp.Cpp

/-!
A C++ text by its lexical rules: what stands in string literals and line comments, and what is code.
Brackets count in code only. `Scans` says this of a part of a text, whatever comes behind it, so it
can be put together as the text is.
-/

inductive Segment where
  | code (c : Char)
  | literal (body : List Char)
  | comment (body : List Char)
deriving DecidableEq, Repr

namespace Segment

def chars : Segment → List Char
  | .code c => [c]
  | .literal body => '"' :: (body ++ ['"'])
  | .comment body => '/' :: '/' :: body

def isInert : Segment → Bool
  | .code _ => false
  | .literal _ => true
  | .comment _ => true

end Segment

/-- The body of a literal, up to the first quote that no backslash escapes, and what follows the quote.
A literal has to end on the line it starts on. -/
def literalBody? : List Char → Option (List Char × List Char)
  | [] => none
  | '"' :: rest => some ([], rest)
  | '\n' :: _ => none
  | '\\' :: c :: rest =>
      if c = '\n' then none
      else (literalBody? rest).map fun read => ('\\' :: c :: read.1, read.2)
  | c :: rest => (literalBody? rest).map fun read => (c :: read.1, read.2)

theorem literalBody?_chars {cs body after : List Char} (read : literalBody? cs = some (body, after)) :
    cs = body ++ '"' :: after ∧ '\n' ∉ body := by
  fun_induction literalBody? cs generalizing body with
  | case1 => cases read
  | case2 rest =>
    cases read
    simp
  | case3 => cases read
  | case4 rest => cases read
  | case5 c rest newline ih =>
    obtain ⟨found, inner, same⟩ := Option.map_eq_some_iff.mp read
    cases same
    obtain ⟨rfl, inline⟩ := ih inner
    exact ⟨rfl, by simp [inline, Ne.symm newline]⟩
  | case6 c rest noQuote newline noEscape ih =>
    obtain ⟨found, inner, same⟩ := Option.map_eq_some_iff.mp read
    cases same
    obtain ⟨rfl, inline⟩ := ih inner
    exact ⟨rfl, by simp [inline, Ne.symm newline]⟩

def segments? (cs : List Char) : Option (List Segment) :=
  match cs with
  | [] => some []
  | c :: rest =>
      if c = '"' then
        match _h : literalBody? rest with
        | none => none
        | some (body, after) => (segments? after).map (.literal body :: ·)
      else if c = '/' && rest.head? = some '/' then
        (segments? (rest.dropWhile (· != '\n'))).map
          (.comment (rest.tail.takeWhile (· != '\n')) :: ·)
      else (segments? rest).map (.code c :: ·)
termination_by cs.length
decreasing_by
  · have := congrArg List.length (literalBody?_chars _h).1
    simp at this
    simp
    omega
  · have := (List.dropWhile_suffix (· != '\n') (l := rest)).length_le
    simp
    omega
  · simp

theorem segments?_spells {cs : List Char} {segs : List Segment} (read : segments? cs = some segs) :
    segs.flatMap Segment.chars = cs ∧ ∀ body, .literal body ∈ segs → '\n' ∉ body := by
  fun_induction segments? cs generalizing segs with
  | case1 =>
    cases read
    simp
  | case2 => cases read
  | case3 rest body after closed ih =>
    obtain ⟨more, later, rfl⟩ := Option.map_eq_some_iff.mp read
    obtain ⟨spelled, inline⟩ := ih later
    obtain ⟨rfl, newline⟩ := literalBody?_chars closed
    simp [Segment.chars, spelled, newline]
    exact inline
  | case4 c rest noQuote comment ih =>
    obtain ⟨more, later, rfl⟩ := Option.map_eq_some_iff.mp read
    obtain ⟨spelled, inline⟩ := ih later
    obtain ⟨rfl, slash⟩ : c = '/' ∧ rest.head? = some '/' := by simpa using comment
    obtain ⟨tail, rfl⟩ : ∃ tail, rest = '/' :: tail := by
      cases rest with
      | nil => cases slash
      | cons d tail => exact ⟨tail, by simpa using slash⟩
    have skipped : ('/' :: tail).dropWhile (· != '\n') = tail.dropWhile (· != '\n') := by simp
    rw [skipped] at spelled
    simp [Segment.chars, spelled]
    exact inline
  | case5 c rest noQuote noComment ih =>
    obtain ⟨more, later, rfl⟩ := Option.map_eq_some_iff.mp read
    obtain ⟨spelled, inline⟩ := ih later
    simp [Segment.chars, spelled]
    exact inline

def opens (c : Char) : Bool := c = '(' || c = '[' || c = '\x7b'

def partner? (c : Char) : Option Char :=
  if c = ')' then some '(' else if c = ']' then some '[' else if c = '\x7d' then some '\x7b' else none

def bracket (open_ : List Char) : Segment → Option (List Char)
  | .code c =>
      if opens c then some (c :: open_)
      else
        match partner? c with
        | none => some open_
        | some first => if open_.head? = some first then some open_.tail else none
  | .literal _ => some open_
  | .comment _ => some open_

/-- The brackets that are open behind a text, if none was closed that was not the innermost one. -/
def nest (open_ : List Char) (segs : List Segment) : Option (List Char) :=
  segs.foldlM bracket open_

theorem nest_append (open_ : List Char) (segs more : List Segment) :
    nest open_ (segs ++ more) = (nest open_ segs).bind (nest · more) :=
  List.foldlM_append

theorem bracket_frame {open_ left : List Char} {seg : Segment} (h : bracket open_ seg = some left)
    (outer : List Char) : bracket (open_ ++ outer) seg = some (left ++ outer) := by
  cases seg with
  | literal | comment =>
    cases h
    rfl
  | code c =>
    simp only [bracket] at h ⊢
    split at h
    · next isOpen =>
      cases h
      simp [isOpen]
    · next noOpen =>
      rw [if_neg noOpen]
      split at h
      · next noPartner =>
        cases h
        simp
      · next first isPartner =>
        split at h
        · next closes =>
          cases h
          obtain ⟨rest, rfl⟩ : ∃ rest, open_ = first :: rest := by
            cases open_ with
            | nil => cases closes
            | cons d rest => exact ⟨rest, by simpa using closes⟩
          simp
        · cases h

theorem nest_frame {open_ left : List Char} {segs : List Segment} (h : nest open_ segs = some left)
    (outer : List Char) : nest (open_ ++ outer) segs = some (left ++ outer) := by
  induction segs generalizing open_ with
  | nil =>
    cases h
    rfl
  | cons seg segs ih =>
    have step : ∀ held, nest held (seg :: segs) = (bracket held seg).bind (nest · segs) :=
      fun _ => List.foldlM_cons
    rw [step] at h ⊢
    obtain ⟨next, first, later⟩ := Option.bind_eq_some_iff.mp h
    rw [bracket_frame first]
    exact ih later

/-- Text without a quote in which every slash is followed by something else. -/
def quiet : List Char → Bool
  | [] => true
  | c :: cs => c != '"' && (c != '/' || cs.head?.any (· != '/')) && quiet cs

theorem segments?_quiet {cs : List Char} (silent : quiet cs = true) (rest : List Char) :
    segments? (cs ++ rest) = (segments? rest).map (cs.map Segment.code ++ ·) := by
  induction cs with
  | nil => simp
  | cons c cs ih =>
    simp only [quiet, Bool.and_eq_true, Bool.or_eq_true, bne_iff_ne] at silent
    obtain ⟨⟨noQuote, noSlash⟩, later⟩ := silent
    have noComment : (c = '/' && (cs ++ rest).head? = some '/') = false := by
      rcases noSlash with other | followed
      · simp [other]
      · cases cs with
        | nil => cases followed
        | cons d ds => simpa using fun _ => followed
    rw [List.cons_append, segments?, if_neg noQuote, noComment, if_neg Bool.false_ne_true, ih later,
      Option.map_map]
    rfl

theorem literalBody?_stringBody {body : List Char} (closed : Token.StringBody body)
    (after : List Char) : literalBody? (body ++ '"' :: after) = some (body, after) := by
  induction closed with
  | nil => rfl
  | plain quote backslash newline _ ih =>
    rw [List.cons_append, literalBody?, ih]
    · rfl
    · exact quote
    · exact newline
    · exact fun c rest same _ => backslash same
  | escape newline _ ih =>
    rw [List.cons_append, List.cons_append, literalBody?, if_neg newline, ih]
    rfl

theorem segments?_literal {body : List Char} (closed : Token.StringBody body) (rest : List Char) :
    segments? ('"' :: (body ++ '"' :: rest)) = (segments? rest).map (.literal body :: ·) := by
  rw [segments?, if_pos rfl]
  split
  · next unclosed => cases unclosed.symm.trans (literalBody?_stringBody closed rest)
  · next found after read =>
    cases read.symm.trans (literalBody?_stringBody closed rest)
    rfl

theorem segments?_comment {body : List Char} (inline : '\n' ∉ body) (rest : List Char) :
    segments? ('/' :: '/' :: (body ++ '\n' :: rest)) =
      (segments? rest).map ([.comment body, .code '\n'] ++ ·) := by
  have all : ∀ c ∈ body, (c != '\n') = true := by
    intro c present
    rw [bne_iff_ne]
    rintro rfl
    exact inline present
  have taken : (body ++ '\n' :: rest).takeWhile (· != '\n') = body := by
    rw [List.takeWhile_append_of_pos all]
    simp
  have left : ('/' :: (body ++ '\n' :: rest)).dropWhile (· != '\n') = '\n' :: rest := by
    rw [List.dropWhile_cons_of_pos (by decide), List.dropWhile_append_of_pos all]
    simp
  have silent : quiet ['\n'] = true := rfl
  have newline : segments? ('\n' :: rest) = (segments? rest).map ([.code '\n'] ++ ·) :=
    segments?_quiet silent rest
  rw [segments?, if_neg (by decide), if_pos (by simp), left, newline, List.tail_cons, taken,
    Option.map_map]
  rfl

/-- Wherever the text stands, it is read as segments of its own: `inert` are its literals and comments,
and it closes the brackets in `opened` and leaves those in `left` open. -/
def Scans (text : String) (inert : List Segment) (opened left : List Char) : Prop :=
  ∃ segs, (∀ rest, segments? (text.toList ++ rest) = (segments? rest).map (segs ++ ·)) ∧
    segs.filter Segment.isInert = inert ∧ nest opened segs = some left

def Closed (text : String) (inert : List Segment) : Prop := Scans text inert [] []

def turns (text : String) (opened left : List Char) : Bool :=
  quiet text.toList && nest opened (text.toList.map .code) = some left

namespace Scans

variable {a b sign : String} {p q : List Segment} {s t u : List Char}

theorem frame (h : Scans a p s t) (outer : List Char) : Scans a p (s ++ outer) (t ++ outer) := by
  obtain ⟨segs, read, inert, nests⟩ := h
  exact ⟨segs, read, inert, nest_frame nests outer⟩

theorem append (first : Scans a p s t) (second : Scans b q t u) : Scans (a ++ b) (p ++ q) s u := by
  obtain ⟨segs, read, rfl, nests⟩ := first
  obtain ⟨more, readMore, rfl, nestsMore⟩ := second
  refine ⟨segs ++ more, fun rest => ?_, List.filter_append .., ?_⟩
  · rw [String.toList_append, List.append_assoc, read, readMore, Option.map_map]
    simp only [Function.comp_def, List.append_assoc]
  · rw [nest_append, nests]
    exact nestsMore

theorem fixed (ok : turns sign s t = true) : Scans sign [] s t := by
  obtain ⟨silent, nests⟩ : quiet sign.toList = true ∧ nest s (sign.toList.map .code) = some t := by
    simpa [turns] using ok
  refine ⟨sign.toList.map .code, segments?_quiet silent, ?_, nests⟩
  simp [Segment.isInert]

theorem silent (h : Scans a p s t) (inner : Scans b [] t u) : Scans (a ++ b) p s u := by
  simpa using h.append inner

theorem fix (h : Scans a p s t) (ok : turns sign t u = true) : Scans (a ++ sign) p s u :=
  h.silent (fixed ok)

theorem text (h : Scans a p s t) (inner : Closed b q) : Scans (a ++ b) (p ++ q) s t :=
  h.append (inner.frame t)

theorem word (h : Scans a p s t) (inner : Closed b []) : Scans (a ++ b) p s t :=
  h.silent (inner.frame t)

end Scans

def marks : List Char := ['"', '/', '(', ')', '[', ']', '\x7b', '\x7d']

def isPlain (c : Char) : Bool := !marks.contains c

theorem isPlain_of {p : Char → Bool} (others : marks.any p = false) {c : Char} (h : p c = true) :
    isPlain c = true := by
  rw [List.any_eq_false] at others
  rw [isPlain, Bool.not_eq_true', List.contains_eq_mem, decide_eq_false_iff_not]
  exact fun present => others c present h

theorem quiet_plain {cs : List Char} (plain : ∀ c ∈ cs, isPlain c = true) : quiet cs = true := by
  induction cs with
  | nil => rfl
  | cons c cs ih =>
    obtain ⟨here, later⟩ := List.forall_mem_cons.mp plain
    obtain ⟨noQuote, noSlash, -⟩ : c ≠ '"' ∧ c ≠ '/' ∧ _ := by simpa [isPlain, marks] using here
    simp [quiet, noQuote, noSlash, ih later]

theorem nest_plain {cs : List Char} (plain : ∀ c ∈ cs, isPlain c = true) (open_ : List Char) :
    nest open_ (cs.map .code) = some open_ := by
  induction cs with
  | nil => rfl
  | cons c cs ih =>
    obtain ⟨here, later⟩ := List.forall_mem_cons.mp plain
    have step : bracket open_ (.code c) = some open_ := by
      simp only [isPlain, marks, List.contains_cons, Bool.not_or, Bool.and_eq_true,
        Bool.not_eq_true', beq_eq_false_iff_ne] at here
      simp [bracket, opens, partner?, here]
    have first : nest open_ ((c :: cs).map .code) =
        (bracket open_ (.code c)).bind (nest · (cs.map .code)) := List.foldlM_cons
    rw [first, step]
    exact ih later

namespace Closed

variable {a b : String} {p q : List Segment}

theorem nil : Closed "" [] := Scans.fixed (by decide)

theorem append (first : Closed a p) (second : Closed b q) : Closed (a ++ b) (p ++ q) :=
  Scans.append first second

theorem plain (chars : ∀ c ∈ a.toList, isPlain c = true) : Closed a [] := by
  refine Scans.fixed ?_
  simp [turns, quiet_plain chars, nest_plain chars]

theorem literal {raw : String} (closed : Token.StringBody raw.toList) :
    Closed ("\"" ++ raw ++ "\"") [.literal raw.toList] := by
  refine ⟨[.literal raw.toList], fun rest => ?_, rfl, rfl⟩
  simpa [String.toList_append] using segments?_literal closed rest

theorem comment {body : String} (inline : '\n' ∉ body.toList) :
    Closed ("//" ++ body ++ "\n") [.comment body.toList] := by
  refine ⟨[.comment body.toList, .code '\n'], fun rest => ?_, rfl, rfl⟩
  simpa [String.toList_append] using segments?_comment inline rest

theorem parenthesized (h : Closed a p) : Closed ("(" ++ a ++ ")") p :=
  ((Scans.fixed (t := ['(']) (by decide)).text h).fix (by decide)

theorem intercalate {texts : List String} {inerts : List (List Segment)} (sep : Closed a p)
    (each : List.Forall₂ Closed texts inerts) :
    Closed (a.intercalate texts) (p.intercalate inerts) := by
  induction each with
  | nil => exact nil
  | cons first later ih =>
    cases later with
    | nil => simpa [List.intercalate] using first
    | cons second more =>
      have whole := (first.append sep).append ih
      simpa [List.intercalate] using whole

end Closed

theorem Scans.quoted {a raw before after sign other : String} {p : List Segment} {s t u v : List Char}
    (h : Scans a p s t) (closed : Token.StringBody raw.toList) (first : before = sign ++ "\"")
    (last : after = "\"" ++ other) (opened : turns sign t u = true) (left : turns other u v = true) :
    Scans (a ++ before ++ raw ++ after) (p ++ [.literal raw.toList]) s v := by
  have whole := ((h.fix opened).text (Closed.literal closed)).fix left
  rw [first, last]
  simpa only [String.append_assoc] using whole

end ScriptCpp.Cpp
