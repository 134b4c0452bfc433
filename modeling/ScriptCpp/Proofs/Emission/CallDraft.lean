import Mathlib
import ScriptCpp.Proofs.Emission.DraftText
import ScriptCpp.Proofs.Emission.FormText

set_option autoImplicit false

namespace ScriptCpp

open Cpp

namespace Emission

structure Placed {features : Features} (v : Vocabulary features) (p : Nat → Piece) : Prop where
  inline : Inline v fun depth => (p depth).text
  loose : ∃ loose, ∀ depth, (p depth).loose = loose

section Pieces

variable {features : Features} {v : Vocabulary features} {p : Nat → Piece} {args : List (Nat → Piece)}

theorem Placed.grouped (h : Placed v p) : Inline v fun depth => (p depth).grouped := by
  obtain ⟨loose, same⟩ := h.loose
  cases loose with
  | true =>
    simp only [Piece.grouped, same]
    exact h.inline.parenthesized
  | false =>
    simp only [Piece.grouped, same]
    exact h.inline

theorem inline_mapped {s : String} {f : Piece → String} (ok : parts s = true)
    (each : ∀ p ∈ args, Inline v fun depth => f (p depth)) :
    Inline v fun depth => s.intercalate ((args.map fun p => p depth).map f) := by
  have texts : ∀ t ∈ args.map (fun p depth => f (p depth)), Inline v t := by
    intro t present
    obtain ⟨p, among, rfl⟩ := List.mem_map.mp present
    exact each p among
  simpa [Function.comp_def] using inline_intercalate ok texts

theorem inline_call {callee : String} {a : Nat → String} (spelled : Inline v fun _ => callee)
    (inner : Inline v a) : Inline v fun depth => callee ++ "(" ++ a depth ++ ")" :=
  ((spelled.apart (by decide)).text inner).fix (by decide)

theorem inline_passed {rest : List (Nat → String)} (head : Placed v p) (others : ∀ t ∈ rest, Inline v t) :
    Inline v fun depth => commas ((p depth).text :: rest.map fun t => t depth) := by
  have whole : ∀ t ∈ (fun depth => (p depth).text) :: rest, Inline v t :=
    List.forall_mem_cons.mpr ⟨head.inline, others⟩
  exact inline_commas whole

end Pieces

end Emission

namespace Prelude

def common : List String := consoleNames ++ stackNames ++ arrayNames ++ stringNames

theorem mem_helpers_of_common {features : Features} {n : String} (known : n ∈ common) :
    n ∈ helpers features := by
  unfold helpers
  exact List.mem_append_left _ (List.mem_append_left _ known)

end Prelude

namespace SpecialForm

open Emission

structure Asked {features : Features} (form : SpecialForm) (v : Vocabulary features) (site : CallSite)
    (head : Nat → Piece) (args : List (Nat → Piece)) : Prop where
  triggered : form.trigger features site = true
  method : Inline v fun _ => site.methodText
  head : Placed v head
  args : ∀ p ∈ args, Placed v p

def Drafted (form : SpecialForm) : Prop :=
  ∀ ⦃features : Features⦄ ⦃v : Vocabulary features⦄ ⦃site : CallSite⦄ ⦃head : Nat → Piece⦄
    ⦃args : List (Nat → Piece)⦄, form.Asked v site head args →
      Inline v fun depth => form.write site (head depth) (args.map fun p => p depth)

namespace Asked

variable {features : Features} {form : SpecialForm} {v : Vocabulary features} {site : CallSite}
  {head : Nat → Piece} {args : List (Nat → Piece)} (asked : form.Asked v site head args)

include asked

theorem commas : Inline v fun depth => commas (texts (args.map fun p => p depth)) :=
  inline_mapped (by decide) fun p among => (asked.args p among).inline

theorem called {callee : String} (spelled : Inline v fun _ => callee) :
    Inline v fun depth => callee ++ "(" ++ ScriptCpp.commas (texts (args.map fun p => p depth)) ++ ")" :=
  inline_call spelled asked.commas

theorem passed : Inline v fun depth =>
    ScriptCpp.commas ((head depth).text :: texts (args.map fun p => p depth)) := by
  have others : ∀ t ∈ args.map (fun p depth => (p depth).text), Inline v t := by
    intro t present
    obtain ⟨p, among, rfl⟩ := List.mem_map.mp present
    exact (asked.args p among).inline
  simpa [texts, Function.comp_def] using inline_passed asked.head others

theorem pointer : Leading v fun depth => "(" ++ (head depth).text ++ ")->" :=
  ((Leading.fixed (by decide)).text asked.head.inline).apart (by decide)

theorem valueCall : Inline v fun depth => valueCall site (head depth) (args.map fun p => p depth) := by
  have access : Inline v fun depth => (head depth).grouped ++ "." ++ site.methodText :=
    (asked.head.grouped.apart (by decide)).text asked.method
  exact ((access.apart (by decide)).text asked.commas).fix (by decide)

end Asked

theorem drafted_helperForm {name : String} {minArgs arity : Nat} {trigger : Features → CallSite → Bool}
    {helper : CallSite → String} (known : ∀ features site, trigger features site = true →
      helper site ∈ Prelude.helpers features) : (helperForm name minArgs trigger helper arity).Drafted := by
  intro features v site head args asked
  exact inline_call (inline_helper (known features site asked.triggered)) asked.passed

theorem namedHelper_known {features : Features} {site : CallSite} {names : List String}
    (listed : names.all (fun name => Prelude.common.contains ("_riri_" ++ name)) = true)
    (called : site.isMethod names = true) : namedHelper site ∈ Prelude.helpers features := by
  have known := List.all_eq_true.mp listed _ (methodText_of_isMethod called)
  exact Prelude.mem_helpers_of_common (List.contains_iff_mem.mp known)

theorem drafted_named {name : String} {minArgs arity : Nat} {names : List String}
    (listed : names.all (fun name => Prelude.common.contains ("_riri_" ++ name)) = true) :
    (helperForm name minArgs (fun _ site => site.isMethod names) namedHelper arity).Drafted :=
  drafted_helperForm fun _ _ called => namedHelper_known listed called

theorem drafted_common {name helper : String} {minArgs arity : Nat} {trigger : Features → CallSite → Bool}
    (known : Prelude.common.contains helper = true) :
    (helperForm name minArgs trigger (fun _ => helper) arity).Drafted :=
  drafted_helperForm fun _ _ _ => Prelude.mem_helpers_of_common (List.contains_iff_mem.mp known)

theorem inline_common {features : Features} {v : Vocabulary features} {helper : String}
    (known : Prelude.common.contains helper = true) : Inline v fun _ => helper :=
  inline_helper (Prelude.mem_helpers_of_common (List.contains_iff_mem.mp known))

theorem widget_known {features : Features} {helper : String} {called : Bool}
    (triggered : (features.gui && called) = true) (listed : Prelude.widgetNames.contains helper = true) :
    helper ∈ Prelude.helpers features := by
  have gui : features.gui = true := (Bool.and_eq_true_iff.mp triggered).1
  simp only [Prelude.helpers, gui, if_true]
  exact List.mem_append_left _ (List.mem_append_right _ (List.contains_iff_mem.mp listed))

theorem drafted_mathForms : ∀ form ∈ mathForms, form.Drafted := by
  simp only [mathForms, List.forall_mem_cons]
  refine ⟨?_, ?_, by simp⟩
  · intro features v site head args asked
    exact Inline.fixed (by decide)
  · intro features v site head args asked
    exact asked.called ((Leading.fixed (by decide)).text asked.method)

theorem drafted_consoleForms : ∀ form ∈ consoleForms, form.Drafted := by
  simp only [consoleForms, List.forall_mem_cons]
  refine ⟨?_, ?_, ?_, by simp⟩
  · intro features v site head args asked
    have listed : Inline v fun depth =>
        " << \" \" << ".intercalate ((args.map fun p => p depth).map Piece.grouped) :=
      inline_mapped (by decide) fun p among => (asked.args p among).grouped
    cases args with
    | nil => exact Inline.fixed (by decide)
    | cons first args => exact ((Leading.fixed (by decide)).text listed).fix (by decide)
  · intro features v site head args asked
    have spelled : Inline v fun _ => "_riri_input" := inline_common (by decide)
    exact spelled.fix (s := "()") (by decide)
  · intro features v site head args asked
    have spelled : Inline v fun _ => "_riri_tprint" := inline_common (by decide)
    exact asked.called spelled

theorem drafted_dialogForms : ∀ form ∈ dialogForms, form.Drafted := by
  simp only [dialogForms, List.forall_mem_cons]
  refine ⟨?_, ?_, by simp⟩
  · intro features v site head args asked
    have known : "_riri_create_list" ∈ Prelude.helpers features :=
      widget_known asked.triggered (by decide)
    exact (inline_helper known).fix (s := "()") (by decide)
  · intro features v site head args asked
    have known : "_riri_msg_box" ∈ Prelude.helpers features := widget_known asked.triggered (by decide)
    exact asked.called (inline_helper known)

theorem inline_conversion {features : Features} {v : Vocabulary features} (site : CallSite) :
    Inline v fun _ => conversion site := by
  unfold conversion
  split
  · exact Inline.fixed (by decide)
  · split
    · exact Inline.fixed (by decide)
    · exact Inline.fixed (by decide)

theorem drafted_plainForms : ∀ form ∈ plainForms, form.Drafted := by
  simp only [plainForms, List.forall_mem_cons]
  refine ⟨?_, ?_, ?_, ?_, by simp⟩
  · intro features v site head args asked
    have target : Inline v fun depth => commas ((args.map fun p => p depth).map Piece.grouped) :=
      inline_mapped (by decide) fun p among => (asked.args p among).grouped
    have first : Leading v fun depth =>
        "std::sort(" ++ commas ((args.map fun p => p depth).map Piece.grouped) ++ ".begin(), " :=
      ((Leading.fixed (by decide)).text target).apart (by decide)
    exact (first.text target).fix (by decide)
  · intro features v site head args asked
    exact asked.called (inline_conversion site)
  · intro features v site head args asked
    exact Inline.fixed (by decide)
  · intro features v site head args asked
    have spelled : Inline v fun _ => "delay" := Inline.fixed (by decide)
    exact asked.called spelled

theorem drafted_listForms : ∀ form ∈ listForms, form.Drafted := by
  simp only [listForms, List.forall_mem_cons]
  refine ⟨drafted_helperForm ?_, drafted_helperForm ?_, by simp⟩
  · intro features site triggered
    exact widget_known triggered (by decide)
  · intro features site triggered
    exact widget_known triggered (by decide)

-- A missing upper bound is written as `-1`.
theorem inline_bounds {features : Features} {v : Vocabulary features} {head : Nat → Piece}
    {args : List (Nat → Piece)} (first : Placed v head) (each : ∀ p ∈ args, Placed v p) :
    Inline v fun depth => commas ((head depth).text ::
      if (texts (args.map fun p => p depth)).length < 2 then texts (args.map fun p => p depth) ++ ["-1"]
      else texts (args.map fun p => p depth)) := by
  have own : ∀ t ∈ args.map (fun p depth => (p depth).text), Inline v t := by
    intro t present
    obtain ⟨p, among, rfl⟩ := List.mem_map.mp present
    exact (each p among).inline
  have last : ∀ t ∈ [fun (_ : Nat) => "-1"], Inline v t := by
    intro t present
    rw [List.mem_singleton.mp present]
    exact Inline.fixed (by decide)
  have closed := inline_passed first (List.forall_mem_append.mpr ⟨own, last⟩)
  have given := inline_passed first own
  by_cases short : args.length < 2
  · simpa [texts, Function.comp_def, short] using closed
  · simpa [texts, Function.comp_def, short] using given

theorem drafted_arrayForms : ∀ form ∈ arrayForms, form.Drafted := by
  simp only [arrayForms, List.forall_mem_cons]
  refine ⟨?_, drafted_named (by decide +kernel), drafted_common (by decide), ?_,
    drafted_named (by decide +kernel), ?_, drafted_common (by decide), by simp⟩
  · intro features v site head args asked
    exact asked.head.inline
  · intro features v site head args asked
    have spelled : Inline v fun _ => "_riri_slice" := inline_common (by decide)
    exact inline_call spelled (inline_bounds asked.head asked.args)
  · intro features v site head args asked
    have spelled : Inline v fun _ => "_riri_join" := inline_common (by decide)
    apply inline_call spelled
    cases args with
    | nil =>
      have comma : ∀ t ∈ [fun (_ : Nat) => "std::string(\",\")"], Inline v t := by
        intro t present
        rw [List.mem_singleton.mp present]
        exact Inline.fixed (by decide)
      exact inline_passed asked.head comma
    | cons first args => exact asked.passed

theorem drafted_stringForms : ∀ form ∈ stringForms, form.Drafted := by
  simp only [stringForms, List.forall_mem_cons]
  refine ⟨drafted_named (by decide +kernel), drafted_named (by decide +kernel), ?_, by simp⟩
  intro features v site head args asked
  exact asked.called (inline_helper (namedHelper_known (by decide +kernel) asked.triggered))

theorem inline_mimeType {features : Features} {v : Vocabulary features} (site : CallSite) :
    Inline v fun _ => mimeType site := by
  unfold mimeType
  split
  · exact Inline.fixed (by decide)
  · exact Inline.fixed (by decide)

theorem drafted_serverForms : ∀ form ∈ serverForms, form.Drafted := by
  simp only [serverForms, List.forall_mem_cons]
  refine ⟨?_, ?_, ?_, ?_, ?_, by simp⟩
  · intro features v site head args asked
    have opened : Leading v fun depth => "(" ++ (head depth).text ++ ")->listen(\"0.0.0.0\", " :=
      ((Leading.fixed (by decide)).text asked.head.inline).apart (by decide)
    exact (opened.text asked.commas).fix (by decide)
  · intro features v site head args asked
    have capital : Inline v fun _ => capitalize site.methodText := by
      have method := methodText_of_isMethod (Bool.and_eq_true_iff.mp asked.triggered).1
      simp only [List.mem_cons, List.not_mem_nil, or_false] at method
      rcases method with same | same | same | same
      all_goals
        rw [same]
        exact Inline.fixed (by decide)
    exact (((asked.pointer.text capital).apart (by decide)).text asked.commas).fix (by decide)
  · intro features v site head args asked
    have opened : Leading v fun depth => "(" ++ (head depth).text ++ ")->set_pre_routing_handler(" :=
      ((Leading.fixed (by decide)).text asked.head.inline).apart (by decide)
    exact (opened.text asked.commas).fix (by decide)
  · intro features v site head args asked
    have content : Inline v fun depth => (head depth).grouped ++ ".set_content(" ++
        commas (texts (args.map fun p => p depth)) :=
      (asked.head.grouped.apart (by decide)).text asked.commas
    exact ((content.apart (by decide)).text (inline_mimeType site)).fix (by decide)
  · intro features v site head args asked
    exact (asked.head.grouped.apart (by decide)).text asked.commas

theorem drafted_stackForms : ∀ form ∈ stackForms, form.Drafted := by
  simp only [stackForms, List.forall_mem_cons]
  refine ⟨drafted_common (by decide), drafted_common (by decide), by simp⟩

theorem drafted_requestForms : ∀ form ∈ requestForms, form.Drafted := by
  simp only [requestForms, List.forall_mem_cons]
  refine ⟨?_, ?_, by simp⟩
  · intro features v site head args asked
    exact asked.valueCall
  · intro features v site head args asked
    exact asked.valueCall

theorem drafted_of_find? {features : Features} {site : CallSite} {form : SpecialForm}
    (found : find? features site = some form) : form.Drafted :=
  of_find? drafted_mathForms drafted_consoleForms drafted_dialogForms drafted_plainForms
    drafted_listForms drafted_arrayForms drafted_stringForms drafted_serverForms drafted_stackForms
    drafted_requestForms found

end SpecialForm

end ScriptCpp
