import Mathlib
import ScriptCpp.Emission.Piece
import ScriptCpp.Session
import ScriptCpp.Proofs.Cpp.Word
import ScriptCpp.Proofs.Emission.Helpers

set_option autoImplicit false

namespace ScriptCpp

open Cpp

theorem Session.hasPart_iff {part cs : List Char} : hasPart part cs = true ↔ part <:+: cs := by
  induction cs with
  | nil => simp [hasPart]
  | cons c cs ih => simp [hasPart, ih, List.infix_cons_iff]

/-- The text with `4 * k` more blanks after every newline. -/
def reindent (k : Nat) (text : String) : String :=
  String.ofList (text.toList.flatMap fun c =>
    if c = '\n' then c :: List.replicate (4 * k) ' ' else [c])

theorem reindent_append (k : Nat) (a b : String) : reindent k (a ++ b) = reindent k a ++ reindent k b := by
  simp [reindent]

theorem reindent_inline {text : String} (inline : '\n' ∉ text.toList) (k : Nat) :
    reindent k text = text := by
  have same : ∀ cs : List Char, '\n' ∉ cs →
      cs.flatMap (fun c => if c = '\n' then c :: List.replicate (4 * k) ' ' else [c]) = cs := by
    intro cs absent
    induction cs with
    | nil => rfl
    | cons c cs ih =>
      rw [List.mem_cons, not_or] at absent
      rw [List.flatMap_cons, ih absent.2, if_neg (Ne.symm absent.1)]
      rfl
  rw [reindent, same _ inline, String.ofList_toList]

theorem indentation_eq (depth : Nat) : indentation depth = String.ofList (List.replicate (4 * depth) ' ') := by
  induction depth with
  | zero => rfl
  | succ depth ih =>
    have four : "    " = String.ofList (List.replicate 4 ' ') := by decide
    rw [indentation, ih, four, ← String.ofList_append, List.replicate_append_replicate]
    congr 2
    omega

theorem indentation_add (depth k : Nat) : indentation (depth + k) = indentation k ++ indentation depth := by
  rw [indentation_eq, indentation_eq, indentation_eq, ← String.ofList_append,
    List.replicate_append_replicate]
  congr 2
  omega

theorem indentation_blank (depth : Nat) : ∀ c ∈ (indentation depth).toList, c = ' ' := by
  rw [indentation_eq, String.toList_ofList]
  exact fun c present => List.eq_of_mem_replicate present

theorem reindent_newline (k : Nat) : reindent k "\n" = "\n" ++ indentation k := by
  rw [indentation_eq, reindent, show "\n" = String.ofList ['\n'] by decide, ← String.ofList_append,
    String.toList_ofList, List.flatMap_singleton, if_pos rfl]
  rfl

theorem reindent_indentation (k depth : Nat) : reindent k (indentation depth) = indentation depth := by
  refine reindent_inline (fun newline => ?_) k
  exact absurd (indentation_blank depth _ newline) (by decide)

namespace Prelude

/-- What is in the name of every helper that the emitter has for itself. -/
def mark : List Char := "_riri_".toList

end Prelude

/-- Words that may occur in a text. A word without the mark of the helpers may always occur. -/
structure Vocabulary (features : Features) where
  allows : List Char → Prop
  plain : ∀ w, ¬ Prelude.mark <:+: w → allows w
  helper : ∀ n ∈ Prelude.helpers features, allows n.toList

namespace Emission

variable {features : Features} {v : Vocabulary features} {a b : Nat → String} {s : String}

structure Inline (v : Vocabulary features) (t : Nat → String) : Prop where
  steady : ∀ depth k, t (depth + k) = reindent k (t depth)
  words : ∀ depth, WordsIn v.allows (t depth)

structure Leading (v : Vocabulary features) (t : Nat → String) : Prop extends Inline v t where
  ends : ∀ depth, endsWord (t depth).toList = false

/-- A text of whole lines. Its first line is indented too, and nothing stands behind its last newline. -/
structure Lined (v : Vocabulary features) (t : Nat → String) : Prop where
  steady : ∀ depth k, t (depth + k) ++ indentation k = indentation k ++ reindent k (t depth)
  words : ∀ depth, WordsIn v.allows (t depth)
  ends : ∀ depth, endsWord (t depth).toList = false

def isPlain (s : String) : Bool :=
  !s.toList.contains '\n' && !Session.hasPart Prelude.mark s.toList

def trails (s : String) : Bool := isPlain s && !startsWord s.toList

def leads (s : String) : Bool := isPlain s && !endsWord s.toList

def parts (s : String) : Bool :=
  trails s && leads s && !s.toList.isEmpty

theorem isPlain_iff : isPlain s = true ↔ '\n' ∉ s.toList ∧ ¬ Prelude.mark <:+: s.toList := by
  rw [← Session.hasPart_iff]
  simp [isPlain]

theorem wordsIn_plain {text : String} (absent : ¬ Prelude.mark <:+: text.toList) :
    WordsIn v.allows text :=
  fun w word => v.plain w fun marked => absent (marked.trans word.infix)

namespace Inline

theorem constant {text : String} (inline : '\n' ∉ text.toList) (words : WordsIn v.allows text) :
    Inline v fun _ => text where
  steady _ k := (reindent_inline inline k).symm
  words _ := words

theorem fixed (ok : isPlain s = true) : Inline v fun _ => s :=
  constant (isPlain_iff.mp ok).1 (wordsIn_plain (isPlain_iff.mp ok).2)

theorem append (first : Inline v a) (second : Inline v b)
    (apart : ∀ depth, endsWord (a depth).toList = false ∨ startsWord (b depth).toList = false) :
    Inline v fun depth => a depth ++ b depth where
  steady depth k := by rw [first.steady, second.steady, reindent_append]
  words depth := (first.words depth).append (second.words depth) (apart depth)

theorem fix (h : Inline v a) (ok : trails s = true) : Inline v fun depth => a depth ++ s := by
  simp only [trails, Bool.and_eq_true, Bool.not_eq_true'] at ok
  exact h.append (fixed ok.1) fun _ => .inr ok.2

theorem apart (h : Inline v a) (ok : parts s = true) : Leading v fun depth => a depth ++ s := by
  simp only [parts, leads, Bool.and_eq_true, Bool.not_eq_true', List.isEmpty_eq_false_iff] at ok
  refine { h.fix ok.1.1 with ends := fun depth => ?_ }
  rw [String.toList_append, endsWord_append ok.2]
  exact ok.1.2.2

theorem deeper (n : Nat) (h : Inline v a) : Inline v fun depth => a (depth + n) where
  steady depth k := by rw [Nat.add_right_comm, h.steady]
  words depth := h.words (depth + n)

end Inline

namespace Leading

theorem fixed (ok : leads s = true) : Leading v fun _ => s := by
  simp only [leads, Bool.and_eq_true, Bool.not_eq_true'] at ok
  exact { Inline.fixed ok.1 with ends := fun _ => ok.2 }

theorem text (h : Leading v a) (inner : Inline v b) : Inline v fun depth => a depth ++ b depth :=
  h.toInline.append inner fun depth => .inl (h.ends depth)

end Leading

namespace Lined

theorem nil : Lined v fun _ => "" where
  steady _ k := by simp [reindent]
  words _ := wordsIn_plain (by decide)
  ends _ := rfl

theorem append (first : Lined v a) (second : Lined v b) : Lined v fun depth => a depth ++ b depth where
  steady depth k := by
    rw [reindent_append, String.append_assoc, second.steady, ← String.append_assoc, first.steady,
      String.append_assoc]
  words depth := (first.words depth).append (second.words depth) (.inl (first.ends depth))
  ends depth := by
    rw [String.toList_append]
    by_cases empty : (b depth).toList = []
    · rw [empty, List.append_nil]
      exact first.ends depth
    · rw [endsWord_append empty]
      exact second.ends depth

theorem deeper (n : Nat) (h : Lined v a) : Lined v fun depth => a (depth + n) where
  steady depth k := by rw [Nat.add_right_comm, h.steady]
  words depth := h.words (depth + n)
  ends depth := h.ends (depth + n)

end Lined

theorem wordsIn_indentation (depth : Nat) : WordsIn v.allows (indentation depth) := by
  refine wordsIn_plain fun marked => ?_
  have blank := indentation_blank depth '_' (marked.subset (by decide))
  exact absurd blank (by decide)

theorem endsWord_indentation (depth : Nat) : endsWord (indentation depth).toList = false := by
  cases last : (indentation depth).toList.getLast? with
  | none => simp [endsWord, last]
  | some c =>
    rw [endsWord, last, indentation_blank depth c (List.mem_of_getLast? last)]
    rfl

theorem Inline.line (h : Inline v a) : Lined v fun depth => line depth (a depth) where
  steady depth k := by
    simp only [ScriptCpp.line, reindent_append, reindent_newline, reindent_indentation, indentation_add,
      h.steady, String.append_assoc]
  words depth := by
    have own := (wordsIn_indentation (v := v) depth).append (h.words depth)
      (.inl (endsWord_indentation depth))
    exact own.append (wordsIn_plain (by decide)) (.inr rfl)
  ends depth := by
    rw [ScriptCpp.line, String.toList_append, endsWord_append (by decide)]
    rfl

-- What starts with a newline and ends where the next line would, stands inside a line.
theorem Lined.within (h : Lined v a) : Inline v fun depth => "\n" ++ a depth ++ indentation depth where
  steady depth k := by
    have moved : "\n" ++ (a (depth + k) ++ indentation k) ++ indentation depth =
        "\n" ++ (indentation k ++ reindent k (a depth)) ++ indentation depth := by rw [h.steady]
    simp only [reindent_append, reindent_newline, reindent_indentation, indentation_add]
    simpa only [String.append_assoc] using moved
  words depth := by
    have newline : WordsIn v.allows "\n" := wordsIn_plain (by decide)
    have opened := newline.append (h.words depth) (.inl rfl)
    refine opened.append (wordsIn_indentation depth) ?_
    cases first : (indentation depth).toList with
    | nil => exact .inr rfl
    | cons c cs =>
      rw [indentation_blank depth c (by simp [first])]
      exact .inr rfl

end Emission

end ScriptCpp
