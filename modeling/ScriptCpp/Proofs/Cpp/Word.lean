import Mathlib
import ScriptCpp.Token.Lexer

set_option autoImplicit false

namespace ScriptCpp.Cpp

open Token (isNamePart)

variable {w a b cs : List Char}

def startsWord (cs : List Char) : Bool := cs.head?.any isNamePart

def endsWord (cs : List Char) : Bool := cs.getLast?.any isNamePart

def IsWord (w cs : List Char) : Prop :=
  ∃ before after, cs = before ++ w ++ after ∧ w ≠ [] ∧ (∀ c ∈ w, isNamePart c = true) ∧
    endsWord before = false ∧ startsWord after = false

theorem startsWord_append (notNil : a ≠ []) : startsWord (a ++ b) = startsWord a := by
  cases a with
  | nil => exact absurd rfl notNil
  | cons c a => rfl

theorem endsWord_append (notNil : b ≠ []) : endsWord (a ++ b) = endsWord b := by
  simp only [endsWord, List.getLast?_append_of_ne_nil a notNil]

theorem startsWord_of_all (notNil : a ≠ []) (all : ∀ c ∈ a, isNamePart c = true) :
    startsWord a = true := by
  cases a with
  | nil => exact absurd rfl notNil
  | cons c a => simpa [startsWord] using all c List.mem_cons_self

theorem endsWord_of_all (notNil : a ≠ []) (all : ∀ c ∈ a, isNamePart c = true) :
    endsWord a = true := by
  have last := all (a.getLast notNil) (List.getLast_mem notNil)
  simpa [endsWord, List.getLast?_eq_some_getLast notNil] using last

theorem IsWord.infix (h : IsWord w cs) : w <:+: cs := by
  obtain ⟨before, after, split, -⟩ := h
  exact ⟨before, after, split.symm⟩

theorem IsWord.of_append (h : IsWord w (a ++ b)) (apart : endsWord a = false ∨ startsWord b = false) :
    IsWord w a ∨ IsWord w b := by
  obtain ⟨before, after, split, notNil, all, opens, closes⟩ := h
  rcases List.append_eq_append_iff.mp split with ⟨middle, whole, rfl⟩ | ⟨middle, rfl, rfl⟩
  · -- the word ends in `b`; it starts there too, or the seam would be inside of it
    rcases List.append_eq_append_iff.mp whole with ⟨head, rfl, rfl⟩ | ⟨gap, rfl, rfl⟩
    · by_cases empty : middle = []
      · subst empty
        exact .inl ⟨before, [], by simp, by simpa using notNil, by simpa using all, opens, rfl⟩
      · by_cases start : head = []
        · subst start
          exact .inr ⟨[], after, by simp, empty, by simpa using all, rfl, closes⟩
        · rw [List.forall_mem_append] at all
          rw [endsWord_append start, startsWord_append empty, endsWord_of_all start all.1,
            startsWord_of_all empty all.2] at apart
          simp at apart
    · refine .inr ⟨gap, after, rfl, notNil, all, ?_, closes⟩
      by_cases empty : gap = []
      · rw [empty]
        rfl
      · rwa [endsWord_append empty] at opens
  · refine .inl ⟨before, middle, rfl, notNil, all, opens, ?_⟩
    by_cases empty : middle = []
    · rw [empty]
      rfl
    · rwa [startsWord_append empty] at closes

theorem IsWord.eq_of_all (h : IsWord w cs) (all : ∀ c ∈ cs, isNamePart c = true) : w = cs := by
  obtain ⟨before, after, rfl, -, -, opens, closes⟩ := h
  simp only [List.forall_mem_append] at all
  have first : before = [] := by
    by_contra start
    rw [endsWord_of_all start all.1.1] at opens
    cases opens
  have last : after = [] := by
    by_contra rest
    rw [startsWord_of_all rest all.2] at closes
    cases closes
  simp [first, last]

def WordsIn (allowed : List Char → Prop) (text : String) : Prop :=
  ∀ w, IsWord w text.toList → allowed w

theorem WordsIn.append {allowed : List Char → Prop} {text other : String} (first : WordsIn allowed text)
    (second : WordsIn allowed other)
    (apart : endsWord text.toList = false ∨ startsWord other.toList = false) :
    WordsIn allowed (text ++ other) := by
  intro w word
  rw [String.toList_append] at word
  rcases word.of_append apart with here | there
  · exact first w here
  · exact second w there

end ScriptCpp.Cpp
