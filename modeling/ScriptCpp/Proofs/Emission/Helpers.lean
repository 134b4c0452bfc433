import Mathlib
import ScriptCpp.Emission.Prelude
import ScriptCpp.Token.Lexer

set_option autoImplicit false

namespace ScriptCpp

namespace Prelude

variable {name : String} {features : Features}

theorem prefix_of_prefix_blank {word front back : List Char} (noBlank : ' ' ∉ word)
    (h : word <+: front ++ ' ' :: back) : word <+: front := by
  obtain ⟨rest, split⟩ := h
  rcases List.append_eq_append_iff.mp split with ⟨more, rfl, -⟩ | ⟨more, rfl, tail⟩
  · exact List.prefix_append word more
  · cases more with
    | nil => simp
    | cons c more =>
      obtain rfl : ' ' = c := by simpa using congrArg List.head? tail
      simp at noBlank

theorem callsIn_here {word : List Char} (notNil : word ≠ []) (back : List Char) :
    callsIn word (some ' ') (word ++ '(' :: back) = true := by
  cases word with
  | nil => exact absurd rfl notNil
  | cons c word =>
    have here : (c :: word) ≠ [] ∧ (c :: word).isPrefixOf (c :: (word ++ '(' :: back)) = true := by
      simp
    rw [List.cons_append, callsIn, dif_pos here]
    simp

-- An earlier occurrence cannot reach over the blank, so the scan gets to it.
theorem callsIn_of_call {word : List Char} (notNil : word ≠ []) (noBlank : ' ' ∉ word)
    (front back : List Char) (before : Option Char) :
    callsIn word before (front ++ ' ' :: (word ++ '(' :: back)) = true := by
  induction size : front.length using Nat.strong_induction_on generalizing front before with
  | _ n ih =>
    cases front with
    | nil =>
      have other : ¬ (word ≠ [] ∧ word.isPrefixOf (' ' :: (word ++ '(' :: back)) = true) := by
        rintro ⟨-, found⟩
        have empty : word <+: [] := prefix_of_prefix_blank noBlank (List.isPrefixOf_iff_prefix.mp found)
        exact notNil (List.prefix_nil.mp empty)
      rw [List.nil_append, callsIn, dif_neg other, callsIn_here notNil]
      simp
    | cons c front =>
      rw [List.cons_append, callsIn]
      split
      · next found =>
        have within : word <+: c :: front :=
          prefix_of_prefix_blank noBlank (List.isPrefixOf_iff_prefix.mp found.2)
        have positive : 0 < word.length := List.length_pos_iff.mpr notNil
        have rest : (c :: (front ++ ' ' :: (word ++ '(' :: back))).drop word.length =
            (c :: front).drop word.length ++ ' ' :: (word ++ '(' :: back) := by
          rw [← List.cons_append, List.drop_append_of_le_length within.length_le]
        have shorter : ((c :: front).drop word.length).length < n := by
          simp only [List.length_drop, List.length_cons] at size ⊢
          omega
        have later := ih _ shorter _ word.getLast? rfl
        rw [← rest] at later
        simp only [later, Bool.or_true]
      · have shorter : front.length < n := by
          simp only [List.length_cons] at size
          omega
        rw [ih _ shorter _ _ rfl]
        simp

/-- The text has a blank, the name and an opening parenthesis in a row. -/
def Calls (name text : String) : Prop := ' ' :: (name.toList ++ ['(']) <:+: text.toList

theorem defines_of_calls (notNil : name.toList ≠ []) (noBlank : ' ' ∉ name.toList)
    (calls : Calls name (prelude features)) : defines features name = true := by
  obtain ⟨front, back, split⟩ := calls
  have whole : (prelude features).toList = front ++ ' ' :: (name.toList ++ '(' :: back) := by
    rw [← split]
    simp
  rw [defines, whole]
  exact callsIn_of_call notNil noBlank front back none

theorem calls_join {texts : List String} (h : ∃ text ∈ texts, Calls name text) :
    Calls name (String.join texts) := by
  obtain ⟨text, present, calls⟩ := h
  obtain ⟨front, back, rfl⟩ := List.append_of_mem present
  unfold Calls
  rw [String.join_append, String.join_cons, String.toList_append, String.toList_append]
  exact calls.trans ⟨_, _, List.append_assoc ..⟩

theorem calls_line {ls : List String} (i : Nat) (result parameters : String)
    (found : ls[i]? = some (result ++ " " ++ name ++ "(" ++ parameters ++ ") \x7b")) :
    Calls name (lines ls) := by
  refine calls_join ⟨_, List.mem_map_of_mem (List.mem_of_getElem? found), ?_⟩
  refine ⟨result.toList, (parameters ++ ") \x7b" ++ "\n").toList, ?_⟩
  simp [String.toList_append]

def blocks (features : Features) : List String :=
  [standardHeaders, if features.gui then guiHeaders else "",
    if features.http then httpHeaders else "", asyncHelpers,
    if features.http then httpHelpers else "", if features.gui then guiHelpers else "",
    consoleHelpers, pushPopHelpers, arrayHelpers, stringHelpers, dataStructures]

theorem prelude_eq_join (features : Features) : prelude features = String.join (blocks features) := by
  simp [prelude, blocks, String.join_cons, String.append_assoc]

theorem defines_of_block {block : String} (present : block ∈ blocks features)
    (calls : Calls name block) (notNil : name.toList ≠ []) (noBlank : ' ' ∉ name.toList) :
    defines features name = true := by
  refine defines_of_calls notNil noBlank ?_
  rw [prelude_eq_join]
  exact calls_join ⟨block, present, calls⟩

def consoleNames : List String := ["_riri_input", "_riri_tprint"]

def stackNames : List String := ["_riri_push", "_riri_pop"]

def arrayNames : List String :=
  ["_riri_map", "_riri_filter", "_riri_forEach", "_riri_reduce", "_riri_slice", "_riri_indexOf",
    "_riri_includes", "_riri_concat", "_riri_reverse", "_riri_join"]

def stringNames : List String :=
  ["_riri_split", "_riri_toLowerCase", "_riri_toUpperCase", "_riri_trim", "_riri_startsWith",
    "_riri_parseInt", "_riri_parseFloat"]

def widgetNames : List String :=
  ["_riri_create_list", "_riri_list_add", "_riri_list_clear", "_riri_msg_box"]

def requestNames : List String := ["_riri_get_query", "_riri_get_param"]

def helpers (features : Features) : List String :=
  consoleNames ++ stackNames ++ arrayNames ++ stringNames ++
    (if features.gui then widgetNames else []) ++ (if features.http then requestNames else [])

theorem calls_console : ∀ n ∈ consoleNames, Calls n consoleHelpers := by
  simp only [consoleNames, List.forall_mem_cons]
  refine ⟨calls_line 2 "std::string" "" rfl, calls_line 9 "void" "const std::vector<T>& vec" rfl,
    by simp⟩

theorem calls_stack : ∀ n ∈ stackNames, Calls n pushPopHelpers := by
  simp only [stackNames, List.forall_mem_cons]
  refine ⟨calls_line 3 "void" "std::vector<T>& vec, U&& value" rfl,
    calls_line 18 "T" "std::vector<T>& vec" rfl, by simp⟩

theorem calls_array : ∀ n ∈ arrayNames, Calls n arrayHelpers := by
  simp only [arrayNames, List.forall_mem_cons]
  refine ⟨calls_line 3 "auto" "const std::vector<T>& vec, Func callback" rfl,
    calls_line 11 "std::vector<T>" "const std::vector<T>& vec, Func callback" rfl,
    calls_line 20 "void" "const std::vector<T>& vec, Func callback" rfl,
    calls_line 31 "Acc" "const std::vector<T>& vec, Func callback, Acc initial" rfl,
    calls_line 44 "std::vector<T>" "const std::vector<T>& vec, int start, int end = -1" rfl,
    calls_line 56 "int" "const std::vector<T>& vec, const U& value" rfl,
    calls_line 64 "bool" "const std::vector<T>& vec, const U& value" rfl,
    calls_line 69 "std::vector<T>" "const std::vector<T>& a, const std::vector<T>& b" rfl,
    calls_line 76 "std::vector<T>" "std::vector<T> vec" rfl,
    calls_line 82 "std::string" "const std::vector<T>& vec, const std::string& separator = \",\"" rfl,
    by simp⟩

theorem calls_string : ∀ n ∈ stringNames, Calls n stringHelpers := by
  simp only [stringNames, List.forall_mem_cons]
  refine ⟨calls_line 2 "std::vector<std::string>" "std::string str, const std::string& delimiter" rfl,
    calls_line 17 "std::string" "std::string str" rfl,
    calls_line 22 "std::string" "std::string str" rfl,
    calls_line 27 "std::string" "std::string str" rfl,
    calls_line 35 "bool" "const std::string& str, const std::string& prefix" rfl,
    calls_line 39 "int" "const std::string& str" rfl,
    calls_line 43 "double" "const std::string& str" rfl, by simp⟩

theorem calls_widget : ∀ n ∈ widgetNames, Calls n guiHelpers := by
  simp only [widgetNames, List.forall_mem_cons]
  refine ⟨calls_line 11 "std::shared_ptr<QListWidget>" "" rfl,
    calls_line 15 "void" "std::shared_ptr<QListWidget> list, const std::string& item" rfl,
    calls_line 19 "void" "std::shared_ptr<QListWidget> list" rfl,
    calls_line 23 "void" "const std::string& msg" rfl, by simp⟩

theorem calls_request : ∀ n ∈ requestNames, Calls n httpHelpers := by
  simp only [requestNames, List.forall_mem_cons]
  refine ⟨calls_line 2 "std::string"
      "const std::multimap<std::string, std::string>& m, const std::string& key" rfl,
    calls_line 8 "std::string"
      "const std::unordered_map<std::string, std::string>& m, const std::string& key" rfl, by simp⟩

def asyncNames : List String := ["await_result", "delay"]

theorem calls_async : ∀ n ∈ asyncNames, Calls n asyncHelpers := by
  simp only [asyncNames, List.forall_mem_cons]
  refine ⟨calls_line 12 "T" "std::future<T>& future" rfl, calls_line 7 "void" "int milliseconds" rfl,
    by simp⟩

theorem names_spelled : (consoleNames ++ stackNames ++ arrayNames ++ stringNames ++ widgetNames ++
    requestNames ++ asyncNames).all (fun n => n.toList ≠ [] && n.toList.all Token.isNamePart) = true := by
  decide +kernel

theorem mem_helpers {n : String} (known : n ∈ helpers features) :
    ∃ block ∈ blocks features, Calls n block := by
  simp only [helpers, List.mem_append] at known
  rcases known with ((((console | stack) | array) | string) | widget) | request
  · exact ⟨consoleHelpers, by simp [blocks], calls_console n console⟩
  · exact ⟨pushPopHelpers, by simp [blocks], calls_stack n stack⟩
  · exact ⟨arrayHelpers, by simp [blocks], calls_array n array⟩
  · exact ⟨stringHelpers, by simp [blocks], calls_string n string⟩
  · split at widget
    · next gui => exact ⟨guiHelpers, by simp [blocks, gui], calls_widget n widget⟩
    · simp at widget
  · split at request
    · next http => exact ⟨httpHelpers, by simp [blocks, http], calls_request n request⟩
    · simp at request

theorem helper_spelled {n : String} (known : n ∈ helpers features ∨ n ∈ asyncNames) :
    n.toList ≠ [] ∧ ∀ c ∈ n.toList, Token.isNamePart c = true := by
  have listed : n ∈ consoleNames ++ stackNames ++ arrayNames ++ stringNames ++ widgetNames ++
      requestNames ++ asyncNames := by
    rcases known with helper | async
    · simp only [helpers, List.mem_append] at helper
      simp only [List.mem_append]
      rcases helper with (common | widget) | request
      · exact .inl (.inl (.inl common))
      · split at widget
        · exact .inl (.inl (.inr widget))
        · simp at widget
      · split at request
        · exact .inl (.inr request)
        · simp at request
    · exact List.mem_append_right _ async
  have spelled := List.all_eq_true.mp names_spelled n listed
  simpa using spelled

theorem defines_helper {n : String} (known : n ∈ helpers features ∨ n ∈ asyncNames) :
    defines features n = true := by
  obtain ⟨notNil, parts⟩ := helper_spelled known
  have noBlank : ' ' ∉ n.toList := fun blank => absurd (parts ' ' blank) (by decide)
  rcases known with helper | async
  · obtain ⟨block, present, calls⟩ := mem_helpers helper
    exact defines_of_block present calls notNil noBlank
  · exact defines_of_block (by simp [blocks]) (calls_async n async) notNil noBlank

end Prelude

end ScriptCpp
