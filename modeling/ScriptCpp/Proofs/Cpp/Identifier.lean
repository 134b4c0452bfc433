import Mathlib
import ScriptCpp.Proofs.Cpp.Segment
import ScriptCpp.Proofs.Cpp.Word

set_option autoImplicit false

namespace ScriptCpp.Cpp

open Token (isNamePart)

def Segment.letter? : Segment → Option Char
  | .code c => if isNamePart c then some c else none
  | .literal _ => none
  | .comment _ => none

def startsLetter (segs : List Segment) : Bool := (segs.head?.bind Segment.letter?).isSome

def endsLetter (segs : List Segment) : Bool := (segs.getLast?.bind Segment.letter?).isSome

def prolong (c : Char) : List (List Char) → List (List Char)
  | [] => [[c]]
  | w :: ws => (c :: w) :: ws

def words : List Segment → List (List Char)
  | [] => []
  | seg :: rest =>
      match seg.letter? with
      | none => words rest
      | some c => if startsLetter rest then prolong c (words rest) else [c] :: words rest

def isNumeric (w : List Char) : Bool := w.head?.any Char.isDigit

def identifiers (segs : List Segment) : List String :=
  ((words segs).filter fun w => !isNumeric w).map String.ofList

/-- The identifiers of a text, if every literal in it ends. -/
def identifiers? (cs : List Char) : Option (List String) := (segments? cs).map identifiers

section Seam

variable {segs more : List Segment}

theorem words_ne_nil (starts : startsLetter segs = true) : words segs ≠ [] := by
  cases segs with
  | nil => cases starts
  | cons seg rest =>
    cases letter : seg.letter? with
    | none => simp [startsLetter, letter] at starts
    | some c =>
      rw [words, letter]
      dsimp only
      split
      · cases words rest <;> simp [prolong]
      · simp

theorem prolong_append {c : Char} {ws : List (List Char)} (notNil : ws ≠ []) (others : List (List Char)) :
    prolong c (ws ++ others) = prolong c ws ++ others := by
  cases ws with
  | nil => exact absurd rfl notNil
  | cons w ws => rfl

-- The induction is on the first part: only its last segment can meet the second one.
theorem words_append (apart : endsLetter segs = false ∨ startsLetter more = false) :
    words (segs ++ more) = words segs ++ words more := by
  induction segs with
  | nil => rfl
  | cons seg rest ih =>
    have later : words (rest ++ more) = words rest ++ words more := by
      by_cases empty : rest = []
      · rw [empty]
        rfl
      · apply ih
        simpa [endsLetter, List.getLast?_cons_of_ne_nil empty] using apart
    rw [List.cons_append, words, words, later]
    cases letter : seg.letter? with
    | none => rfl
    | some c =>
      dsimp only
      cases rest with
      | nil =>
        have parts : startsLetter more = false := by simpa [endsLetter, letter] using apart
        rw [List.nil_append, parts]
        rfl
      | cons next rest =>
        have same : startsLetter (next :: rest ++ more) = startsLetter (next :: rest) := rfl
        rw [same]
        by_cases starts : startsLetter (next :: rest) = true
        · rw [if_pos starts, if_pos starts, prolong_append (words_ne_nil starts)]
        · rw [if_neg starts, if_neg starts]
          rfl

theorem identifiers_append (apart : endsLetter segs = false ∨ startsLetter more = false) :
    identifiers (segs ++ more) = identifiers segs ++ identifiers more := by
  simp [identifiers, words_append apart]

end Seam

section Runs

variable {c : Char} {cs : List Char}

theorem letter?_code : (Segment.code c).letter? = if isNamePart c then some c else none := rfl

theorem words_run (notNil : cs ≠ []) (all : ∀ c ∈ cs, isNamePart c = true) :
    words (cs.map .code) = [cs] := by
  induction cs with
  | nil => exact absurd rfl notNil
  | cons c cs ih =>
    obtain ⟨here, later⟩ := List.forall_mem_cons.mp all
    rw [List.map_cons, words, letter?_code, if_pos here]
    dsimp only
    cases cs with
    | nil => rfl
    | cons d ds =>
      have starts : startsLetter ((d :: ds).map .code) = true := by
        simp [startsLetter, letter?_code, later d List.mem_cons_self]
      rw [if_pos starts, ih (List.cons_ne_nil d ds) later]
      rfl

end Runs

theorem letter?_eq_some {seg : Segment} {c : Char} (letter : seg.letter? = some c) :
    seg = .code c ∧ isNamePart c = true := by
  cases seg with
  | code d =>
    rw [letter?_code] at letter
    split at letter
    · next part =>
      cases letter
      exact ⟨rfl, part⟩
    · cases letter
  | literal | comment => cases letter

theorem mem_words {segs : List Segment} {w : List Char} (present : w ∈ words segs) :
    w ≠ [] ∧ ∀ c ∈ w, .code c ∈ segs ∧ isNamePart c = true := by
  induction segs generalizing w with
  | nil => cases present
  | cons seg rest ih =>
    have among : w ∈ words rest → w ≠ [] ∧ ∀ c ∈ w, .code c ∈ seg :: rest ∧ isNamePart c = true := by
      intro later
      obtain ⟨notNil, each⟩ := ih later
      exact ⟨notNil, fun c inside => ⟨List.mem_cons_of_mem seg (each c inside).1, (each c inside).2⟩⟩
    rw [words] at present
    cases letter : seg.letter? with
    | none =>
      rw [letter] at present
      exact among present
    | some c =>
      obtain ⟨rfl, part⟩ := letter?_eq_some letter
      have alone : ∀ d ∈ [c], .code d ∈ Segment.code c :: rest ∧ isNamePart d = true := by
        simpa using part
      rw [letter] at present
      dsimp only at present
      split at present
      · cases first : words rest with
        | nil =>
          obtain rfl : w = [c] := by simpa [first, prolong] using present
          exact ⟨List.cons_ne_nil c [], alone⟩
        | cons v vs =>
          rw [first] at present
          rcases List.mem_cons.mp present with rfl | later
          · obtain ⟨-, each⟩ := ih (first ▸ List.mem_cons_self)
            refine ⟨List.cons_ne_nil c v, List.forall_mem_cons.mpr ⟨alone c List.mem_cons_self, ?_⟩⟩
            exact fun d inside => ⟨List.mem_cons_of_mem _ (each d inside).1, (each d inside).2⟩
          · exact among (first ▸ List.mem_cons_of_mem v later)
      · rcases List.mem_cons.mp present with rfl | later
        · exact ⟨List.cons_ne_nil c [], alone⟩
        · exact among later

theorem startsWord_of_startsLetter {segs : List Segment} (starts : startsLetter segs = true) :
    startsWord (segs.flatMap Segment.chars) = true := by
  cases segs with
  | nil => cases starts
  | cons seg rest =>
    cases seg with
    | code c =>
      by_cases part : isNamePart c = true
      · simp [startsWord, Segment.chars, part]
      · simp [startsLetter, letter?_code, part] at starts
    | literal | comment => simp [startsLetter, Segment.letter?] at starts

theorem endsWord_of_endsLetter {segs : List Segment} (ends : endsLetter segs = true) :
    endsWord (segs.flatMap Segment.chars) = true := by
  induction segs using List.reverseRecOn with
  | nil => cases ends
  | append_singleton rest seg _ =>
    cases seg with
    | code c =>
      by_cases part : isNamePart c = true
      · simp [endsWord, Segment.chars, part]
      · simp [endsLetter, letter?_code, part] at ends
    | literal | comment => simp [endsLetter, Segment.letter?] at ends

end ScriptCpp.Cpp
