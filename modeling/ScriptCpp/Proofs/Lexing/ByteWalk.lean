import Mathlib
import ScriptCpp.Proofs.Lexing.Partition

set_option autoImplicit false

namespace ScriptCpp

/-!
The lexer as a walk over the bytes of a text. It sees one byte at a time, counts a column for each
byte that begins a character, and cuts the texts of its tokens out of the bytes. It comes to the same
tokens, and cuts between characters only.
-/

/-- One byte further; a byte within a character takes no column of its own. -/
def Position.stepByte (p : Position) (b : UInt8) : Position :=
  if b = 10 then ⟨p.line + 1, 1⟩ else if b &&& 0xC0 = 0x80 then p else ⟨p.line, p.column + 1⟩

def Position.afterBytes (p : Position) (bs : List UInt8) : Position :=
  bs.foldl stepByte p

namespace Token

def utf8 (cs : List Char) : List UInt8 := cs.flatMap String.utf8EncodeChar

def byteChar (b : UInt8) : Char := Char.ofNat b.toNat

structure Slice where
  kind : Kind
  start : Nat
  stop : Nat
  position : Position

inductive WalkError where
  | unterminatedString (position : Position)
  | unexpected (offset : Nat) (position : Position)

def Slice.ofRaw (kind : Kind) (start length : Nat) (position : Position) : Slice :=
  if kind = .string then ⟨kind, start + 1, start + length - 1, position⟩
  else ⟨kind, start, start + length, position⟩

def walk (p : Position) (offset : Nat) (bs : List UInt8) :
    Except WalkError (List Slice × Position) :=
  match bs with
  | [] => .ok ([], p)
  | b :: rest =>
      match _h : piece (byteChar b) (rest.map byteChar) with
      | .error .unterminatedString => .error (.unterminatedString p)
      | .error (.unexpected _) => .error (.unexpected offset p)
      | .ok (.gap chars) =>
          walk (p.afterBytes ((b :: rest).take chars.length)) (offset + chars.length)
            ((b :: rest).drop chars.length)
      | .ok (.lexeme kind _ chars) => do
          let (slices, last) ← walk (p.afterBytes ((b :: rest).take chars.length))
            (offset + chars.length) ((b :: rest).drop chars.length)
          return (.ofRaw kind offset chars.length p :: slices, last)
termination_by bs.length
decreasing_by
  all_goals
    have some := List.length_pos_iff.mpr (piece_chars_ne_nil _h)
    simp only [Piece.chars] at some
    simp only [List.length_drop, List.length_cons]
    omega

def Wide (c : Char) : Prop := 128 ≤ c.toNat

def seen (cs : List Char) : List Char := (utf8 cs).map byteChar

variable {c d : Char} {cs ds : List Char} {b : UInt8}

theorem toNat_byteChar (b : UInt8) : (byteChar b).toNat = b.toNat := by
  have small := b.toNat_lt
  have valid : b.toNat.isValidChar := .inl (by omega)
  rw [byteChar, Char.ofNat, dif_pos valid]
  rfl

theorem utf8EncodeChar_ascii (narrow : ¬ Wide c) :
    String.utf8EncodeChar c = [UInt8.ofNat c.toNat] := by
  have small : c.val.toNat ≤ 127 := by
    unfold Wide at narrow
    change ¬ 128 ≤ c.val.toNat at narrow
    omega
  rw [String.utf8EncodeChar.eq_1, if_pos small]
  rfl

theorem utf8EncodeChar_wide (wide : Wide c) :
    ∃ b bs, String.utf8EncodeChar c = b :: bs ∧ 192 ≤ b.toNat ∧
      ∀ d ∈ bs, 128 ≤ d.toNat ∧ d.toNat < 192 := by
  have large : ¬ c.val.toNat ≤ 127 := by
    unfold Wide at wide
    change 128 ≤ c.val.toNat at wide
    omega
  rw [String.utf8EncodeChar.eq_1, if_neg large]
  split
  · refine ⟨_, _, rfl, ?_, ?_⟩
    · simp only [UInt8.toNat_ofNat']
      omega
    · simp only [List.mem_cons, List.not_mem_nil, or_false, forall_eq, UInt8.toNat_ofNat']
      omega
  · split
    · refine ⟨_, _, rfl, ?_, ?_⟩
      · simp only [UInt8.toNat_ofNat']
        omega
      · simp only [List.mem_cons, List.not_mem_nil, or_false, forall_eq_or_imp, forall_eq,
          UInt8.toNat_ofNat']
        omega
    · refine ⟨_, _, rfl, ?_, ?_⟩
      · simp only [UInt8.toNat_ofNat']
        omega
      · simp only [List.mem_cons, List.not_mem_nil, or_false, forall_eq_or_imp, forall_eq,
          UInt8.toNat_ofNat']
        omega

theorem seen_cons_ascii (narrow : ¬ Wide c) : seen (c :: cs) = c :: seen cs := by
  have small : c.toNat < 128 := by
    unfold Wide at narrow
    omega
  have same : byteChar (UInt8.ofNat c.toNat) = c := by
    apply Char.ext
    apply UInt32.toNat_inj.mp
    change (byteChar (UInt8.ofNat c.toNat)).toNat = c.toNat
    rw [toNat_byteChar, UInt8.toNat_ofNat']
    omega
  rw [seen, utf8, List.flatMap_cons, utf8EncodeChar_ascii narrow, List.singleton_append,
    List.map_cons, same]
  rfl

theorem seen_append (cs ds : List Char) : seen (cs ++ ds) = seen cs ++ seen ds := by
  simp [seen, utf8]

theorem seen_cons_wide (wide : Wide c) :
    ∃ d ds, Wide d ∧ (∀ e ∈ ds, Wide e) ∧ ∀ cs, seen (c :: cs) = (d :: ds) ++ seen cs := by
  obtain ⟨b, bs, encoded, lead, others⟩ := utf8EncodeChar_wide wide
  refine ⟨byteChar b, bs.map byteChar, ?_, ?_, fun cs => by simp [seen, utf8, encoded]⟩
  · rw [Wide, toNat_byteChar]
    omega
  · intro e present
    obtain ⟨d, member, rfl⟩ := List.mem_map.mp present
    rw [Wide, toNat_byteChar]
    exact (others d member).1

theorem length_seen (cs : List Char) : (seen cs).length = (utf8 cs).length := by
  simp [seen]

theorem Wide.ne (wide : Wide c) (narrow : ¬ Wide d) : c ≠ d := by
  rintro rfl
  exact narrow wide

theorem Wide.isNamePart (wide : Wide c) : isNamePart c = false := by
  have bound : 128 ≤ c.val.toNat := wide
  have underscore : c ≠ '_' := wide.ne (by unfold Wide; decide)
  have ends : 'Z'.val.toNat = 90 ∧ 'z'.val.toNat = 122 ∧ '9'.val.toNat = 57 := ⟨rfl, rfl, rfl⟩
  by_contra part
  simp only [Token.isNamePart, Char.isAlphanum, Char.isAlpha, Char.isUpper, Char.isLower,
    Char.isDigit, Bool.not_eq_false, Bool.or_eq_true, Bool.and_eq_true, decide_eq_true_eq,
    UInt32.le_iff_toNat_le, underscore, or_false] at part
  omega

theorem Wide.isDigit (wide : Wide c) : c.isDigit = false := by
  by_contra digit
  have part := isNamePart_of_isDigit (by simpa using digit)
  simp [wide.isNamePart] at part

theorem Wide.isBlank (wide : Wide c) : isBlank c = false := by
  have space := wide.ne (d := ' ') (by unfold Wide; decide)
  have tab := wide.ne (d := '\t') (by unfold Wide; decide)
  have newline := wide.ne (d := '\n') (by unfold Wide; decide)
  have ret := wide.ne (d := '\r') (by unfold Wide; decide)
  simp [Token.isBlank, space, tab, newline, ret]

theorem Wide.isSignStart (wide : Wide c) : isSignStart c = true := by
  refine isSignStart_iff.mpr ⟨wide.isBlank, wide.ne (by unfold Wide; decide), wide.isDigit, ?_⟩
  by_contra start
  have part := isNamePart_of_isNameStart (by simpa using start)
  simp [wide.isNamePart] at part

theorem Wide.opensComment (wide : Wide c) : opensComment c cs = false := by
  simp [Token.opensComment, wide.ne (d := '/') (by unfold Wide; decide)]

theorem not_wide_of_mem_spelling (sign : Symbol) : ∀ c ∈ sign.spelling, ¬ Wide c := by
  have narrow : sign.spelling.all (fun c => decide (c.toNat < 128)) = true := by
    cases sign <;> decide
  intro c present wide
  have small := List.all_eq_true.mp narrow c present
  unfold Wide at wide
  simp only [decide_eq_true_eq] at small
  omega

theorem seen_of_narrow (narrow : ∀ c ∈ cs, ¬ Wide c) : seen cs = cs := by
  induction cs with
  | nil => rfl
  | cons c cs ih =>
    rw [seen_cons_ascii (narrow c List.mem_cons_self),
      ih fun d present => narrow d (List.mem_cons_of_mem _ present)]

section Runs

variable {p : Char → Bool} {v : Bool}

theorem takeWhile_seen (constant : ∀ c, Wide c → p c = v) (cs : List Char) :
    (seen cs).takeWhile p = seen (cs.takeWhile p) := by
  induction cs with
  | nil => rfl
  | cons c cs ih =>
    by_cases wide : Wide c
    · obtain ⟨d, ds, first, others, split⟩ := seen_cons_wide wide
      cases v with
      | false =>
        have stopped : ¬ p d = true := by simp [constant d first]
        have stops : ¬ p c = true := by simp [constant c wide]
        rw [split, List.cons_append, List.takeWhile_cons_of_neg stopped,
          List.takeWhile_cons_of_neg stops]
        rfl
      | true =>
        have all : ∀ e ∈ d :: ds, p e = true :=
          List.forall_mem_cons.mpr ⟨constant d first, fun e present => constant e (others e present)⟩
        rw [split, List.takeWhile_append_of_pos all, ih,
          List.takeWhile_cons_of_pos (constant c wide), split]
    · by_cases hit : p c
      · rw [seen_cons_ascii wide, List.takeWhile_cons_of_pos hit, List.takeWhile_cons_of_pos hit,
          seen_cons_ascii wide, ih]
      · rw [seen_cons_ascii wide, List.takeWhile_cons_of_neg hit, List.takeWhile_cons_of_neg hit]
        rfl

theorem dropWhile_seen (constant : ∀ c, Wide c → p c = v) (cs : List Char) :
    (seen cs).dropWhile p = seen (cs.dropWhile p) := by
  have whole : (seen cs).takeWhile p ++ (seen cs).dropWhile p =
      seen (cs.takeWhile p) ++ seen (cs.dropWhile p) := by
    rw [List.takeWhile_append_dropWhile, ← seen_append, List.takeWhile_append_dropWhile]
  rw [takeWhile_seen constant] at whole
  exact List.append_cancel_left whole

end Runs

theorem head?_seen (narrow : ¬ Wide d) : (seen cs).head? = some d ↔ cs.head? = some d := by
  cases cs with
  | nil => simp [seen, utf8]
  | cons c cs =>
    by_cases wide : Wide c
    · obtain ⟨e, es, first, _, split⟩ := seen_cons_wide wide
      simp [split, first.ne narrow, wide.ne narrow]
    · simp [seen_cons_ascii wide]

theorem prefix_seen {spelling : List Char} (narrow : ∀ c ∈ spelling, ¬ Wide c) :
    spelling <+: seen cs ↔ spelling <+: cs := by
  induction spelling generalizing cs with
  | nil => simp
  | cons s spelling ih =>
    have here := narrow s List.mem_cons_self
    have later : ∀ cs, spelling <+: seen cs ↔ spelling <+: cs :=
      fun cs => ih fun c present => narrow c (List.mem_cons_of_mem _ present)
    cases cs with
    | nil => simp [seen, utf8]
    | cons c cs =>
      by_cases wide : Wide c
      · obtain ⟨e, es, first, _, split⟩ := seen_cons_wide wide
        simp [split, List.cons_prefix_cons, (first.ne here).symm, (wide.ne here).symm]
      · rw [seen_cons_ascii wide, List.cons_prefix_cons, List.cons_prefix_cons, later]

theorem ofPrefix?_seen (cs : List Char) : Symbol.ofPrefix? (seen cs) = Symbol.ofPrefix? cs := by
  unfold Symbol.ofPrefix?
  congr 1
  funext sign
  rw [Bool.eq_iff_iff, List.isPrefixOf_iff_prefix, List.isPrefixOf_iff_prefix]
  exact prefix_seen (not_wide_of_mem_spelling sign)

theorem numeral_seen (cs : List Char) : numeral (seen cs) = seen (numeral cs) := by
  have constant : ∀ c, Wide c → c.isDigit = false := fun _ wide => wide.isDigit
  have point : ¬ Wide '.' := by unfold Wide; decide
  by_cases pointed : (cs.dropWhile Char.isDigit).head? = some '.'
  · obtain ⟨rest, shape⟩ := List.head?_eq_some_iff.mp pointed
    have shape' : (seen cs).dropWhile Char.isDigit = '.' :: seen rest := by
      rw [dropWhile_seen constant, shape, seen_cons_ascii point]
    simp only [numeral, shape, shape', takeWhile_seen constant, seen_append, seen_cons_ascii point]
  · have unpointed : ((seen cs).dropWhile Char.isDigit).head? ≠ some '.' := by
      rw [dropWhile_seen constant, ne_eq, head?_seen point]
      exact pointed
    have plain : ∀ ds : List Char, (ds.dropWhile Char.isDigit).head? ≠ some '.' →
        numeral ds = ds.takeWhile Char.isDigit := by
      intro ds other
      unfold numeral
      split
      · next rest shape => simp [shape] at other
      · rfl
    rw [plain _ unpointed, plain _ pointed, takeWhile_seen constant]

def seenBody (read : Option (List Char × List Char)) : Option (List Char × List Char) :=
  read.map fun read => (seen read.1, seen read.2)

theorem stringBody_wide {ws : List Char} (wide : ∀ w ∈ ws, Wide w) (cs : List Char) :
    stringBody (ws ++ cs) = (stringBody cs).map fun read => (ws ++ read.1, read.2) := by
  induction ws with
  | nil => simp
  | cons w ws ih =>
    have here := wide w List.mem_cons_self
    rw [List.cons_append, stringBody_cons (here.ne (by unfold Wide; decide))
      (here.ne (by unfold Wide; decide)) (here.ne (by unfold Wide; decide)),
      ih fun v present => wide v (List.mem_cons_of_mem _ present), Option.map_map]
    rfl

-- A read string with characters put before it, seen in the bytes.
theorem seenBody_map (front : List Char) (read : Option (List Char × List Char)) :
    seenBody (read.map fun r => (front ++ r.1, r.2)) =
      (seenBody read).map fun r => (seen front ++ r.1, r.2) := by
  cases read with
  | none => rfl
  | some pair => simp [seenBody, seen_append]

theorem stringBody_seen (cs : List Char) : stringBody (seen cs) = seenBody (stringBody cs) := by
  have quote : ¬ Wide '"' := by unfold Wide; decide
  have backslash : ¬ Wide '\\' := by unfold Wide; decide
  have newline : ¬ Wide '\n' := by unfold Wide; decide
  fun_induction stringBody cs with
  | case1 => rfl
  | case2 rest =>
    rw [seen_cons_ascii quote]
    simp [stringBody, seenBody, seen, utf8]
  | case3 rest =>
    rw [seen_cons_ascii backslash, seen_cons_ascii newline, stringBody, if_pos rfl]
    rfl
  | case4 c rest other ih =>
    have front := seenBody_map ['\\', c] (stringBody rest)
    refine Eq.trans ?_ front.symm
    -- After a backslash one byte is taken; the rest of a wide character follows as plain bytes.
    by_cases wide : Wide c
    · obtain ⟨d, ds, first, others, split⟩ := seen_cons_wide wide
      rw [seen_cons_ascii backslash, split, List.cons_append, stringBody_escape (first.ne newline),
        stringBody_wide others, ih, Option.map_map, seen_cons_ascii backslash, split]
      simp [Function.comp_def, seen, utf8]
    · rw [seen_cons_ascii backslash, seen_cons_ascii wide, stringBody_escape other, ih,
        seen_cons_ascii backslash, seen_cons_ascii wide]
      rfl
  | case5 rest =>
    rw [seen_cons_ascii newline]
    simp [stringBody, seenBody]
  | case6 c rest noQuote noEscape other ih =>
    by_cases slash : c = '\\'
    · obtain rfl : rest = [] := by
        cases rest with
        | nil => rfl
        | cons d ds => exact (noEscape d ds slash rfl).elim
      rw [slash, seen_cons_ascii backslash]
      rfl
    · have front := seenBody_map [c] (stringBody rest)
      refine Eq.trans ?_ front.symm
      by_cases wide : Wide c
      · obtain ⟨d, ds, first, others, split⟩ := seen_cons_wide wide
        have all : ∀ w ∈ d :: ds, Wide w := List.forall_mem_cons.mpr ⟨first, others⟩
        rw [split, stringBody_wide all, ih, split]
        simp [seen, utf8]
      · rw [seen_cons_ascii wide, stringBody_cons noQuote slash other, ih, seen_cons_ascii wide]
        rfl

def Piece.seen : Piece → Piece
  | .gap chars => .gap (Token.seen chars)
  | .lexeme kind text chars => .lexeme kind (Token.seen text) (Token.seen chars)

def seenResult (first : Char) : Except LexicalCause Piece → Except LexicalCause Piece
  | .ok taken => .ok taken.seen
  | .error .unterminatedString => .error .unterminatedString
  | .error (.unexpected _) => .error (.unexpected first)

theorem ofPrefix?_wide (wide : Wide c) : Symbol.ofPrefix? (c :: cs) = none := by
  rw [Symbol.ofPrefix?, List.find?_eq_none]
  intro sign _ start
  obtain ⟨d, ds, spelled, _⟩ := spelling_cons sign
  have narrow : ¬ Wide d := not_wide_of_mem_spelling sign d (spelled ▸ List.mem_cons_self)
  rw [spelled] at start
  exact wide.ne narrow (List.cons_prefix_cons.mp (List.isPrefixOf_iff_prefix.mp start)).1.symm

theorem opensComment_seen : opensComment c (seen cs) = opensComment c cs := by
  have slash : ¬ Wide '/' := by unfold Wide; decide
  simp [opensComment, head?_seen slash]

theorem piece_seen_ascii (narrow : ¬ Wide c) :
    piece c (seen cs) = seenResult c (piece c cs) := by
  have quote : ¬ Wide '"' := by unfold Wide; decide
  -- By what the first character starts; no rule tells a wide character from its bytes.
  rcases first_cases c cs with blank | comment | rfl | digit | start | ⟨signStart, noComment⟩
  · rw [piece_blank blank, piece_blank blank, takeWhile_seen fun _ wide => wide.isBlank]
    simp [seenResult, Piece.seen, seen_cons_ascii narrow]
  · have constant : ∀ d, Wide d → (d != '\n') = true := by
      intro d wide
      exact bne_iff_ne.mpr (wide.ne (by unfold Wide; decide))
    rw [piece_comment (opensComment_seen.trans comment), piece_comment comment,
      takeWhile_seen constant]
    simp [seenResult, Piece.seen, seen_cons_ascii narrow]
  · have read := stringBody_seen cs
    cases found : stringBody cs with
    | none =>
      rw [found] at read
      rw [piece_quote_none found, piece_quote_none read]
      rfl
    | some pair =>
      rw [found] at read
      rw [piece_quote_some found, piece_quote_some read]
      simp [seenResult, Piece.seen, seen_cons_ascii quote, seen_append, seen_of_narrow]
  · have whole := numeral_seen (c :: cs)
    rw [seen_cons_ascii narrow] at whole
    rw [piece_digit digit, piece_digit digit, whole]
    rfl
  · have narrowParts : ∀ d ∈ c :: cs.takeWhile isNamePart, ¬ Wide d := by
      rw [List.forall_mem_cons]
      refine ⟨narrow, fun d present wide => ?_⟩
      have part := List.mem_takeWhile_imp present
      simp [wide.isNamePart] at part
    have same := seen_of_narrow narrowParts
    have tail := (List.cons.inj ((seen_cons_ascii narrow).symm.trans same)).2
    rw [piece_nameStart start, piece_nameStart start, takeWhile_seen fun _ wide => wide.isNamePart,
      tail]
    simp only [seenResult, Piece.seen, same]
  · have seenComment := opensComment_seen.trans noComment
    have found := ofPrefix?_seen (c :: cs)
    rw [seen_cons_ascii narrow] at found
    cases hit : Symbol.ofPrefix? (c :: cs) with
    | none =>
      rw [hit] at found
      rw [piece_unexpected signStart noComment hit, piece_unexpected signStart seenComment found]
      rfl
    | some sign =>
      rw [hit] at found
      rw [piece_symbol signStart noComment hit, piece_symbol signStart seenComment found]
      simp [seenResult, Piece.seen, seen_of_narrow (not_wide_of_mem_spelling sign)]

theorem piece_seen (shape : seen (c :: cs) = d :: ds) :
    piece d ds = seenResult d (piece c cs) := by
  by_cases wide : Wide c
  · obtain ⟨e, es, first, _, split⟩ := seen_cons_wide wide
    obtain ⟨rfl, rfl⟩ := List.cons.inj ((split cs).symm.trans shape)
    rw [piece_unexpected wide.isSignStart wide.opensComment (ofPrefix?_wide wide),
      piece_unexpected first.isSignStart first.opensComment (ofPrefix?_wide first)]
    rfl
  · obtain ⟨rfl, rfl⟩ := List.cons.inj ((seen_cons_ascii wide).symm.trans shape)
    exact piece_seen_ascii wide

theorem afterBytes_append (p : Position) (as bs : List UInt8) :
    p.afterBytes (as ++ bs) = (p.afterBytes as).afterBytes bs := by
  simp [Position.afterBytes]

theorem stepByte_within (p : Position) (within : 128 ≤ b.toNat ∧ b.toNat < 192) :
    p.stepByte b = p := by
  have masked : ∀ n < 256, 128 ≤ n → n < 192 → UInt8.ofNat n &&& 0xC0 = 0x80 := by
    decide +kernel
  have mask : b &&& 0xC0 = 0x80 := by
    have known := masked b.toNat (by omega) within.1 within.2
    rwa [UInt8.ofNat_toNat] at known
  have other : b ≠ 10 := by
    rintro rfl
    exact absurd within.1 (by decide)
  rw [Position.stepByte, if_neg other, if_pos mask]

theorem stepByte_lead (p : Position) (lead : 192 ≤ b.toNat) :
    p.stepByte b = ⟨p.line, p.column + 1⟩ := by
  have small := b.toNat_lt
  have masked : ∀ n < 256, 192 ≤ n → UInt8.ofNat n &&& 0xC0 ≠ 0x80 := by decide +kernel
  have mask : b &&& 0xC0 ≠ 0x80 := by
    have known := masked b.toNat (by omega) lead
    rwa [UInt8.ofNat_toNat] at known
  have other : b ≠ 10 := by
    rintro rfl
    exact absurd lead (by decide)
  rw [Position.stepByte, if_neg other, if_neg mask]

theorem stepByte_ascii (p : Position) (narrow : ¬ Wide c) :
    p.stepByte (UInt8.ofNat c.toNat) = p.step c := by
  have small : c.toNat < 128 := by
    unfold Wide at narrow
    omega
  have masked : ∀ n < 128, UInt8.ofNat n &&& 0xC0 ≠ 0x80 := by decide +kernel
  have newline : UInt8.ofNat c.toNat = 10 ↔ c = '\n' := by
    rw [← UInt8.toNat_inj, UInt8.toNat_ofNat', Nat.mod_eq_of_lt (by omega), ← Char.toNat_inj]
    rfl
  rw [Position.stepByte, Position.step, if_neg (masked _ small)]
  simp only [newline]

theorem afterBytes_within (p : Position) {bs : List UInt8}
    (within : ∀ b ∈ bs, 128 ≤ b.toNat ∧ b.toNat < 192) : p.afterBytes bs = p := by
  induction bs with
  | nil => rfl
  | cons b bs ih =>
    change (p.stepByte b).afterBytes bs = p
    rw [stepByte_within p (within b List.mem_cons_self)]
    exact ih fun d present => within d (List.mem_cons_of_mem _ present)

theorem afterBytes_utf8 (p : Position) (cs : List Char) :
    p.afterBytes (utf8 cs) = p.after cs := by
  induction cs generalizing p with
  | nil => rfl
  | cons c cs ih =>
    have here : p.afterBytes (String.utf8EncodeChar c) = p.step c := by
      by_cases wide : Wide c
      · obtain ⟨b, bs, encoded, lead, others⟩ := utf8EncodeChar_wide wide
        have newline : c ≠ '\n' := wide.ne (by unfold Wide; decide)
        rw [encoded]
        change (p.stepByte b).afterBytes bs = _
        rw [stepByte_lead p lead, afterBytes_within _ others, Position.step, if_neg newline]
      · rw [utf8EncodeChar_ascii wide]
        exact stepByte_ascii p wide
    rw [utf8, List.flatMap_cons, afterBytes_append, here]
    exact ih (p.step c)

theorem toUTF8_bytes (text : String) : text.toUTF8.data.toList = utf8 text.toList := by
  have encoded : text.toUTF8 = text.toList.utf8Encode := by
    rw [String.toUTF8, ← String.toByteArray_ofList, String.ofList_toList]
  rw [encoded, List.utf8Encode]
  simp [utf8]

/-- A slice cuts the text of a token out of the bytes, between two characters at either end. -/
structure Slice.Marks (text : String) (s : Slice) (t : Token) : Prop where
  kind : s.kind = t.kind
  position : s.position = t.position
  start_valid : String.Pos.Raw.IsValid text ⟨s.start⟩
  stop_valid : String.Pos.Raw.IsValid text ⟨s.stop⟩
  content : text.toUTF8.extract s.start s.stop = t.text.toUTF8

inductive Walked (text : String) :
    Except LexicalError (List Token) → Except WalkError (List Slice × Position) → Prop
  | ok {tokens : List Token} {slices : List Slice} {last : Position}
      (each : List.Forall₂ (Slice.Marks text) slices tokens) :
      Walked text (.ok (tokens ++ [eof last])) (.ok (slices, last))
  | unterminatedString {p : Position} :
      Walked text (.error ⟨.unterminatedString, p⟩) (.error (.unterminatedString p))
  | unexpected {c : Char} {p : Position} {offset : Nat}
      (valid : String.Pos.Raw.IsValid text ⟨offset⟩)
      (starts : ∃ rest, text.toUTF8.data.toList.drop offset = utf8 (c :: rest)) :
      Walked text (.error ⟨.unexpected c, p⟩) (.error (.unexpected offset p))

variable {text : String} {left right : List Char}

theorem length_utf8_append (cs ds : List Char) :
    (utf8 (cs ++ ds)).length = (utf8 cs).length + (utf8 ds).length := by
  simp [utf8]

theorem isValid_of_split (split : text.toList = left ++ right) :
    String.Pos.Raw.IsValid text ⟨(utf8 left).length⟩ := by
  refine String.Pos.Raw.isValid_iff_exists_append.mpr
    ⟨String.ofList left, String.ofList right, ?_, ?_⟩
  · rw [← String.ofList_append, ← split, String.ofList_toList]
  · have size := congrArg List.length (toUTF8_bytes (String.ofList left))
    rw [String.toList_ofList] at size
    rw [← size]
    rfl

theorem marks_of_split {word : List Char} {start stop : Nat} (kind : Kind) (p : Position)
    (split : text.toList = left ++ (word ++ right)) (starts : start = (utf8 left).length)
    (stops : stop = (utf8 (left ++ word)).length) :
    Slice.Marks text ⟨kind, start, stop, p⟩ ⟨kind, String.ofList word, p⟩ where
  kind := rfl
  position := rfl
  start_valid := starts ▸ isValid_of_split split
  stop_valid := stops ▸ isValid_of_split (split.trans (List.append_assoc _ _ _).symm)
  content := by
    have bytes : utf8 text.toList = utf8 left ++ (utf8 word ++ utf8 right) := by
      simp [split, utf8]
    apply ByteArray.ext
    apply Array.toList_inj.mp
    rw [ByteArray.data_extract, Array.toList_extract, toUTF8_bytes, toUTF8_bytes, bytes, starts,
      stops, length_utf8_append, String.toList_ofList]
    simp [List.extract]

section Steps

variable {p : Position} {offset : Nat} {rest : List Char}

theorem utf8_cons (c : Char) (cs : List Char) :
    ∃ b bs, utf8 (c :: cs) = b :: bs ∧
      piece (byteChar b) (bs.map byteChar) = seenResult (byteChar b) (piece c cs) := by
  have some : utf8 (c :: cs) ≠ [] := by
    intro none
    have size := congrArg List.length none
    have positive := c.utf8Size_pos
    simp [utf8] at size
    omega
  obtain ⟨b, bs, shape⟩ := List.exists_cons_of_ne_nil some
  exact ⟨b, bs, shape, piece_seen (by rw [seen, shape, List.map_cons])⟩

-- The bytes of what was taken, and those behind it.
theorem utf8_split {bytes : List UInt8} {chars : List Char}
    (shape : utf8 (chars ++ rest) = bytes) :
    bytes.take (seen chars).length = utf8 chars ∧ bytes.drop (seen chars).length = utf8 rest := by
  have split : bytes = utf8 chars ++ utf8 rest := by simp [← shape, utf8]
  rw [length_seen, split, List.take_left, List.drop_left]
  exact ⟨rfl, rfl⟩

theorem walk_gap {gap : List Char} (same : c :: cs = gap ++ rest)
    (taken : piece c cs = .ok (.gap gap)) :
    walk p offset (utf8 (c :: cs)) = walk (p.after gap) (offset + (utf8 gap).length) (utf8 rest) := by
  obtain ⟨b, bs, shape, read⟩ := utf8_cons c cs
  rw [taken] at read
  obtain ⟨front, behind⟩ := utf8_split (same ▸ shape)
  rw [shape, walk]
  split
  · next failed => cases failed.symm.trans read
  · next failed => cases failed.symm.trans read
  · next chars found =>
    cases found.symm.trans read
    rw [front, behind, afterBytes_utf8, length_seen]
  · next kind text chars found => cases found.symm.trans read

theorem walk_lexeme {kind : Kind} {text raw : List Char} (same : c :: cs = raw ++ rest)
    (taken : piece c cs = .ok (.lexeme kind text raw)) :
    walk p offset (utf8 (c :: cs)) =
      (walk (p.after raw) (offset + (utf8 raw).length) (utf8 rest)).map fun found =>
        (.ofRaw kind offset (utf8 raw).length p :: found.1, found.2) := by
  obtain ⟨b, bs, shape, read⟩ := utf8_cons c cs
  rw [taken] at read
  obtain ⟨front, behind⟩ := utf8_split (same ▸ shape)
  rw [shape, walk]
  split
  · next failed => cases failed.symm.trans read
  · next failed => cases failed.symm.trans read
  · next chars found => cases found.symm.trans read
  · next kind' text' chars found =>
    cases found.symm.trans read
    rw [front, behind, afterBytes_utf8, length_seen]
    cases walk (p.after raw) (offset + (utf8 raw).length) (utf8 rest) <;> rfl

theorem walk_unterminated (failed : piece c cs = .error .unterminatedString) :
    walk p offset (utf8 (c :: cs)) = .error (.unterminatedString p) := by
  obtain ⟨b, bs, shape, read⟩ := utf8_cons c cs
  rw [failed] at read
  rw [shape, walk]
  split
  · rfl
  · next other => cases other.symm.trans read
  · next other => cases other.symm.trans read
  · next other => cases other.symm.trans read

theorem walk_unexpected {x : Char} (failed : piece c cs = .error (.unexpected x)) :
    walk p offset (utf8 (c :: cs)) = .error (.unexpected offset p) := by
  obtain ⟨b, bs, shape, read⟩ := utf8_cons c cs
  rw [failed] at read
  rw [shape, walk]
  split
  · next other => cases other.symm.trans read
  · rfl
  · next other => cases other.symm.trans read
  · next other => cases other.symm.trans read

end Steps

theorem piece_error_unexpected {x : Char} (failed : piece c cs = .error (.unexpected x)) : x = c := by
  rcases first_cases c cs with blank | comment | rfl | digit | start | ⟨signStart, noComment⟩
  · rw [piece_blank blank] at failed
    cases failed
  · rw [piece_comment comment] at failed
    cases failed
  · cases read : stringBody cs with
    | none =>
      rw [piece_quote_none read] at failed
      cases failed
    | some found =>
      rw [piece_quote_some read] at failed
      cases failed
  · rw [piece_digit digit] at failed
    cases failed
  · rw [piece_nameStart start] at failed
    cases failed
  · cases hit : Symbol.ofPrefix? (c :: cs) with
    | none =>
      rw [piece_unexpected signStart noComment hit] at failed
      cases failed
      rfl
    | some sign =>
      rw [piece_symbol signStart noComment hit] at failed
      cases failed

theorem marks_raw {kind : Kind} {raw : List Char} {p : Position} (plain : kind ≠ .string)
    (split : text.toList = left ++ (raw ++ right)) :
    (Slice.ofRaw kind (utf8 left).length (utf8 raw).length p).Marks text
      ⟨kind, String.ofList raw, p⟩ := by
  rw [Slice.ofRaw, if_neg plain]
  exact marks_of_split kind p split rfl (length_utf8_append _ _).symm

theorem IsLexeme.marks {kind : Kind} {word raw : List Char} (lexeme : IsLexeme kind word raw)
    (p : Position) (split : text.toList = left ++ (raw ++ right)) :
    (Slice.ofRaw kind (utf8 left).length (utf8 raw).length p).Marks text
      ⟨kind, String.ofList word, p⟩ := by
  cases lexeme with
  | string closed =>
    have quote : (utf8 ['"']).length = 1 := by decide
    have inner : text.toList = (left ++ ['"']) ++ (word ++ ('"' :: right)) := by simpa using split
    have size : (utf8 ('"' :: (word ++ ['"']))).length = (utf8 word).length + 2 := by
      rw [← List.singleton_append, length_utf8_append, length_utf8_append, quote]
      omega
    rw [Slice.ofRaw, if_pos rfl, size]
    refine marks_of_split .string p inner ?_ ?_
    · rw [length_utf8_append, quote]
    · rw [length_utf8_append, length_utf8_append, quote]
      omega
  | whole | point | symbol => exact marks_raw (by simp) split
  | word =>
    refine marks_raw ?_ split
    unfold Kind.ofWord
    split <;> simp

theorem walked (p : Position) (before cs : List Char) (split : text.toList = before ++ cs) :
    Walked text (scan p cs) (walk p (utf8 before).length (utf8 cs)) := by
  fun_induction scan p cs generalizing before with
  | case1 p =>
    have ended : walk p (utf8 before).length (utf8 []) = .ok ([], p) := by
      have none : utf8 [] = [] := rfl
      rw [none, walk]
    rw [ended]
    exact .ok .nil
  | case2 p c rest cause failed =>
    cases cause with
    | unterminatedString =>
      rw [walk_unterminated failed]
      exact .unterminatedString
    | unexpected x =>
      obtain rfl := piece_error_unexpected failed
      rw [walk_unexpected failed]
      refine .unexpected (isValid_of_split split) ⟨rest, ?_⟩
      have bytes : utf8 text.toList = utf8 before ++ utf8 (x :: rest) := by simp [split, utf8]
      rw [toUTF8_bytes, bytes, List.drop_left]
  | case3 p c rest gap taken ih =>
    obtain ⟨behind, same, _⟩ := piece_gap taken
    rw [same, List.drop_left] at ih
    rw [walk_gap same taken, same, List.drop_left, ← length_utf8_append]
    exact ih (before ++ gap) (by rw [split, same, List.append_assoc])
  | case4 p c rest kind word raw taken ih =>
    obtain ⟨lexeme, ⟨behind, same⟩, _⟩ := piece_lexeme taken
    rw [← same, List.drop_left] at ih
    rw [walk_lexeme same.symm taken, ← same, List.drop_left, ← length_utf8_append]
    have later := ih (before ++ raw) (by rw [split, ← same, List.append_assoc])
    have here := lexeme.marks p (split.trans (by rw [← same]))
    generalize scan (p.after raw) behind = tokens at later
    generalize walk (p.after raw) (utf8 (before ++ raw)).length (utf8 behind) = slices at later
    cases later with
    | ok each => exact .ok (.cons here each)
    | unterminatedString => exact .unterminatedString
    | unexpected valid starts => exact .unexpected valid starts

/-- A text is read into `tokens` exactly when it consists of their lexemes, each the longest at its
place, with gaps between them, and the tokens carry the places of their lexemes; the walk over the
bytes comes to the same and cuts between characters only. -/
theorem ofText_partition (text : String) :
    (∀ tokens, ofText text = .ok tokens ↔
      ∃ parts last, text.toList = spell parts ++ last ∧ Gap last [] ∧
        tokens = parts.map Part.token ++ [eof (.behind text.toList)] ∧
        (∀ part ∈ parts, part.token.kind ≠ .eof) ∧
        ∀ left part right, parts = left ++ part :: right →
          part.Fits (spell left) (spell right ++ last)) ∧
      Walked text (ofText text) (walk .start 0 text.toUTF8.data.toList) := by
  refine ⟨fun tokens => ⟨?_, ?_⟩, ?_⟩
  · intro read
    have start : Position.start = .behind [] := rfl
    obtain ⟨parts, last, whole, laid, same⟩ := scan_laid read start
    obtain ⟨ending, each⟩ := laid_split laid
    refine ⟨parts, last, whole, ending, same, fun part present => ?_, each⟩
    obtain ⟨left, right, split⟩ := List.append_of_mem present
    exact (each left part right split).lexeme.ne_eof
  · rintro ⟨parts, last, whole, ending, rfl, _, each⟩
    have laid : Laid [] last parts := laid_of_split ending each
    have read := laid.scan
    rwa [List.nil_append, ← whole] at read
  · rw [toUTF8_bytes]
    exact walked .start [] text.toList rfl

end Token

end ScriptCpp
