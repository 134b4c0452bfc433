import Mathlib
import ScriptCpp.Files.Tree
import ScriptCpp.Proofs.PathText

set_option autoImplicit false

namespace ScriptCpp

namespace Path

def stride (place : Location) (segment : List Char) : Location :=
  if isSilent segment then place
  else if segment = ['.', '.'] then place.dropLast
  else place ++ [String.ofList segment]

def place (home : Location) (p : Path) : Location :=
  (segments p.text.toList).foldl stride (Tree.start home p)

theorem stride_silent {segment : List Char} (silent : isSilent segment = true)
    (place : Location) : stride place segment = place := by
  rw [stride, if_pos silent]

theorem place_append_slash {p : Path} {cs rest : List Char} (home : Location)
    (shape : p.text.toList = cs ++ '/' :: rest) (whole : '/' ∉ rest) :
    p.place home = stride ((segments cs).foldl stride (Tree.start home p)) rest := by
  rw [place, shape, segments_eq_splitOn, segments_eq_splitOn, List.splitOn_append_cons_self,
    List.splitOn_eq_singleton whole, List.foldl_append, List.foldl_cons, List.foldl_nil]

theorem place_join {name : String} (home : Location) (base : Path) (whole : '/' ∉ name.toList) :
    (base.join ⟨name⟩).place home = stride (base.place home) name.toList := by
  have relative : isAbsolute ⟨name⟩ = false := by
    simp only [isAbsolute, decide_eq_false_iff_not]
    intro first
    exact whole (List.mem_of_mem_head? first)
  unfold join
  rw [relative]
  by_cases empty : base.text.toList = []
  · have start : Tree.start home ⟨name⟩ = home := by simp [Tree.start, relative]
    obtain rfl : base = ⟨""⟩ := by cases base; simpa using empty
    have here : place home ⟨""⟩ = home := rfl
    have blank : "".isEmpty = true := rfl
    simp only [blank, Bool.true_or, if_true, Bool.false_eq_true, if_false,
      String.empty_append, here]
    rw [place, segments_eq_splitOn, List.splitOn_eq_singleton whole, start, List.foldl_cons,
      List.foldl_nil]
  · have head : ∀ rest : String, Tree.start home ⟨base.text ++ rest⟩ = Tree.start home base := by
      intro rest
      simp [Tree.start, isAbsolute, List.head?_append_of_ne_nil _ empty]
    by_cases slashed : base.text.toList.getLast? = some '/'
    · obtain ⟨before, shape⟩ := List.getLast?_eq_some_iff.mp slashed
      have ends : base.place home = (segments before).foldl stride (Tree.start home base) :=
        (place_append_slash home shape (by simp)).trans (stride_silent rfl _)
      have text : (base.text ++ name).toList = before ++ '/' :: name.toList := by
        simp [shape]
      simp only [slashed, decide_true, Bool.or_true, if_true, Bool.false_eq_true, if_false]
      rw [place_append_slash home text whole, head, ends]
    · have notEmpty : base.text.isEmpty = false := by simpa using empty
      have text : (base.text ++ "/" ++ name).toList = base.text.toList ++ '/' :: name.toList := by
        simp
      simp only [slashed, notEmpty, decide_false, Bool.or_false, Bool.false_eq_true, if_false]
      rw [place_append_slash home text whole, String.append_assoc, head]
      rfl

theorem foldl_stride_heard (parts : List (List Char)) (place : Location) :
    parts.foldl stride place = (parts.filter fun part => !isSilent part).foldl stride place := by
  induction parts generalizing place with
  | nil => rfl
  | cons part rest ih =>
    by_cases silent : isSilent part = true
    · simp [silent, stride_silent silent, ih]
    · simp [silent, ih]

-- What stands before the parts that are spoken is no name.
theorem spoken_of_fileName? {p : Path} {name : String} (h : p.fileName? = some name) :
    (spoken (segments p.text.toList)).getLast? = some (.name name) := by
  have ending : p.components.getLast? = some (.name name) := by
    unfold fileName? at h
    cases last : p.components.getLast? with
    | none => simp [last] at h
    | some c => cases c <;> simp_all
  have behind : ∀ {c : Component} {said : List Component}, c ≠ .name name →
      (c :: said).getLast? = some (.name name) → said.getLast? = some (.name name) := by
    intro c said other last
    cases said with
    | nil => exact absurd (Option.some.inj last) other
    | cons d rest => simpa [List.getLast?_cons_cons] using last
  have skipped : ∀ {first : List Char} {rest : List (List Char)}, isSilent first = true →
      spoken (first :: rest) = spoken rest := by
    intro first rest silent
    simp [spoken, silent]
  unfold components at ending
  cases parts : segments p.text.toList with
  | nil => simp [parts] at ending
  | cons first rest =>
    simp only [parts] at ending
    by_cases absolute : p.isAbsolute = true
    · have silent : isSilent first = true := by
        obtain ⟨chars, text⟩ := List.head?_eq_some_iff.mp (of_decide_eq_true absolute)
        rw [text, segments, if_pos rfl, List.cons.injEq] at parts
        rw [← parts.1]
        rfl
      rw [if_pos absolute] at ending
      rw [skipped silent]
      exact behind (by simp) ending
    · rw [if_neg absolute] at ending
      by_cases dot : first = ['.']
      · rw [if_pos dot] at ending
        rw [skipped (dot ▸ rfl)]
        exact behind (by simp) ending
      · rwa [if_neg dot] at ending

theorem place_fileName? {p : Path} {name : String} (home : Location) (h : p.fileName? = some name) :
    p.place home = (p.place home).dropLast ++ [name] := by
  have last := spoken_of_fileName? h
  unfold spoken at last
  rw [List.getLast?_map, Option.map_eq_some_iff] at last
  obtain ⟨part, ending, named⟩ := last
  obtain ⟨before, shape⟩ := List.getLast?_eq_some_iff.mp ending
  have heard : isSilent part = false := by
    have member := List.mem_of_getLast? ending
    simpa using (List.mem_filter.mp member).2
  have placed : p.place home = before.foldl stride (Tree.start home p) ++ [name] := by
    unfold component at named
    split at named
    · cases named
    · next down =>
      rw [place, foldl_stride_heard, shape, List.foldl_append, List.foldl_cons, List.foldl_nil,
        stride, heard, if_neg Bool.false_ne_true, if_neg down, Component.name.inj named]
  rw [placed, List.dropLast_concat]

theorem place_eq_iff {p : Path} {name other : String} {directory : Location} (home : Location)
    (h : p.fileName? = some name) : p.place home = directory ++ [other] ↔
      (p.place home).dropLast = directory ∧ name = other := by
  have ends := place_fileName? home h
  constructor
  · intro same
    rw [ends] at same
    simpa using List.append_inj' same rfl
  · rintro ⟨rfl, rfl⟩
    exact ends

theorem cutName_cases (name : String) : cutName name = (name, none) ∨
    ∃ stem extension, cutName name = (stem, some extension) ∧ name = stem ++ "." ++ extension := by
  unfold cutName
  extract_lets reversed
  split
  · exact .inl rfl
  · exact .inl rfl
  · next dot before _ cut =>
    refine .inr ⟨_, _, rfl, ?_⟩
    obtain rfl : dot = '.' := by
      have stops := List.head?_dropWhile_not (fun c => c != '.') reversed
      simpa [cut] using stops
    have whole : name.toList.reverse = reversed.takeWhile (· != '.') ++ '.' :: before := by
      rw [← cut, List.takeWhile_append_dropWhile]
    apply String.toList_injective
    rw [← List.reverse_inj, whole]
    simp

theorem fileName?_whole {p : Path} {name : String} (h : p.fileName? = some name) :
    '/' ∉ name.toList := by
  obtain ⟨part, present, named⟩ := List.mem_map.mp (List.mem_of_getLast? (spoken_of_fileName? h))
  have whole := not_mem_of_mem_segments (List.mem_of_mem_filter present)
  unfold component at named
  split at named
  · cases named
  · obtain rfl := Component.name.inj named
    simpa using whole

theorem stem?_cases {p : Path} {stem : String} (h : p.stem? = some stem) :
    ∃ name, p.fileName? = some name ∧
      (name = stem ∧ p.extension? = none ∨
        ∃ extension, name = stem ++ "." ++ extension ∧ p.extension? = some extension) := by
  simp only [stem?, Option.map_eq_some_iff] at h
  obtain ⟨name, named, cut⟩ := h
  refine ⟨name, named, ?_⟩
  simp only [extension?, named, Option.bind_some]
  rcases cutName_cases name with same | ⟨front, extension, same, shape⟩
  · rw [same] at cut ⊢
    exact .inl ⟨cut, rfl⟩
  · rw [same] at cut ⊢
    obtain rfl : front = stem := cut
    exact .inr ⟨extension, shape, rfl⟩

theorem stem?_whole {p : Path} {stem : String} (h : p.stem? = some stem) : '/' ∉ stem.toList := by
  obtain ⟨name, named, ⟨rfl, _⟩ | ⟨extension, rfl, _⟩⟩ := stem?_cases h
  · exact fileName?_whole named
  · have whole := fileName?_whole named
    simp only [String.toList_append, List.mem_append, not_or] at whole
    exact whole.1.1

end Path

end ScriptCpp
