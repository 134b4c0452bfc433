import Mathlib
import ScriptCpp.Path

set_option autoImplicit false

namespace ScriptCpp

def Component.Plain : Component → Prop
  | .name text => '/' ∉ text.toList ∧ Path.isSilent text.toList = false ∧ text.toList ≠ ['.', '.']
  | .parent => True
  | .root | .current => False

namespace Path

theorem segments_eq_splitOn (cs : List Char) : segments cs = cs.splitOn '/' := by
  induction cs with
  | nil => rfl
  | cons c rest ih =>
    rw [segments, List.splitOn_cons_eq_if_modifyHead, ih]
    by_cases slash : c = '/'
    · simp [slash]
    · cases tail : rest.splitOn '/' with
      | nil => exact absurd tail (List.splitOn_ne_nil _ _)
      | cons first others => simp [slash]

theorem not_mem_of_mem_segments {cs segment : List Char} (h : segment ∈ segments cs) :
    '/' ∉ segment := by
  induction cs generalizing segment with
  | nil => simp_all [segments]
  | cons c rest ih =>
    rw [segments] at h
    by_cases slash : c = '/'
    · rw [if_pos slash] at h
      rcases List.mem_cons.mp h with rfl | later
      · simp
      · exact ih later
    · rw [if_neg slash] at h
      cases tail : segments rest with
      | nil => simp_all [Ne.symm]
      | cons first others =>
        rw [tail] at h ih
        rcases List.mem_cons.mp h with rfl | later
        · simp [Ne.symm slash, ih List.mem_cons_self]
        · exact ih (List.mem_cons_of_mem _ later)

theorem component_plain {segment : List Char} (spoken : isSilent segment = false)
    (whole : '/' ∉ segment) : (component segment).Plain := by
  unfold component
  split
  · trivial
  · next other => simpa [Component.Plain, spoken, whole] using other

theorem spoken_plain {parts : List (List Char)} (whole : ∀ part ∈ parts, '/' ∉ part) :
    ∀ c ∈ spoken parts, c.Plain := by
  intro c member
  obtain ⟨part, kept, rfl⟩ := List.mem_map.mp member
  obtain ⟨present, heard⟩ := List.mem_filter.mp kept
  exact component_plain (by simpa using heard) (whole part present)

theorem components_shape (p : Path) :
    ∃ parts : List Component, (∀ c ∈ parts, c.Plain) ∧
      (p.components = parts ∨ p.components = .root :: parts ∨ p.components = .current :: parts) := by
  have whole : ∀ part ∈ segments p.text.toList, '/' ∉ part := fun _ => not_mem_of_mem_segments
  unfold components
  cases split : segments p.text.toList with
  | nil => exact ⟨[], by simp, .inl rfl⟩
  | cons first rest =>
    rw [split] at whole
    have tail := spoken_plain fun part member => whole part (List.mem_cons_of_mem first member)
    by_cases absolute : p.isAbsolute
    · exact ⟨spoken rest, tail, .inr (.inl (by simp [absolute]))⟩
    · by_cases dot : first = ['.']
      · exact ⟨spoken rest, tail, .inr (.inr (by simp [absolute, dot]))⟩
      · exact ⟨spoken (first :: rest), spoken_plain whole, .inl (by simp [absolute, dot])⟩

def IsStack (stack : List Component) : Prop :=
  ∃ parts : List Component, (∀ c ∈ parts, c.Plain) ∧ (stack = parts ∨ stack = parts ++ [.root])

theorem normalStep_isStack {stack : List Component} {c : Component} (plain : c.Plain)
    (h : IsStack stack) : IsStack (normalStep stack c) := by
  obtain ⟨parts, plains, shape⟩ := h
  cases c with
  | root => exact plain.elim
  | current => exact plain.elim
  | name text =>
    have more : ∀ c ∈ Component.name text :: parts, c.Plain := by
      simpa using ⟨plain, plains⟩
    rcases shape with rfl | rfl
    · exact ⟨_, more, .inl rfl⟩
    · exact ⟨_, more, .inr rfl⟩
  | parent =>
    cases parts with
    | nil =>
      rcases shape with rfl | rfl
      · exact ⟨[.parent], by simp [Component.Plain], .inl rfl⟩
      · exact ⟨[.parent], by simp [Component.Plain], .inr rfl⟩
    | cons top below =>
      have rest : ∀ c ∈ below, c.Plain := fun c member => plains c (List.mem_cons_of_mem _ member)
      have notRoot : top ≠ .root := by
        rintro rfl
        exact plains _ List.mem_cons_self
      rcases shape with rfl | rfl
      · exact ⟨below, rest, .inl (by cases top <;> simp_all [normalStep])⟩
      · exact ⟨below, rest, .inr (by cases top <;> simp_all [normalStep])⟩

theorem foldl_normalStep_isStack (parts stack : List Component) (plain : ∀ c ∈ parts, c.Plain)
    (h : IsStack stack) : IsStack (parts.foldl normalStep stack) := by
  induction parts generalizing stack with
  | nil => exact h
  | cons c rest ih =>
    exact ih _ (fun d member => plain d (List.mem_cons_of_mem _ member))
      (normalStep_isStack (plain c List.mem_cons_self) h)

theorem normalized_isStack (p : Path) : IsStack (p.components.foldl normalStep []) := by
  obtain ⟨parts, plain, same | same | same⟩ := p.components_shape
  · rw [same]
    exact foldl_normalStep_isStack parts [] plain ⟨[], by simp, .inl rfl⟩
  · rw [same]
    exact foldl_normalStep_isStack parts [.root] plain ⟨[], by simp, .inr rfl⟩
  · rw [same]
    exact foldl_normalStep_isStack parts [] plain ⟨[], by simp, .inl rfl⟩

theorem text_not_silent {c : Component} (plain : c.Plain) :
    '/' ∉ c.text.toList ∧ isSilent c.text.toList = false ∧ component c.text.toList = c := by
  cases c with
  | root => exact plain.elim
  | current => exact plain.elim
  | parent => exact ⟨by decide, by decide, by decide⟩
  | name text => exact ⟨plain.1, plain.2.1, by simp [component, Component.text, plain.2.2]⟩

theorem spoken_texts {parts : List Component} (plain : ∀ c ∈ parts, c.Plain) :
    spoken (parts.map fun c => c.text.toList) = parts := by
  induction parts with
  | nil => rfl
  | cons c rest ih =>
    have tail := ih fun d member => plain d (List.mem_cons_of_mem _ member)
    obtain ⟨_, heard, same⟩ := text_not_silent (plain c List.mem_cons_self)
    simp only [spoken] at tail ⊢
    simp [heard, same, tail]

theorem segments_slashed {parts : List Component} (some : parts ≠ [])
    (plain : ∀ c ∈ parts, c.Plain) :
    segments (slashed (parts.map Component.text)).toList = parts.map fun c => c.text.toList := by
  rw [segments_eq_splitOn, slashed, String.toList_intercalate, List.map_map]
  apply List.splitOn_intercalate
  · intro text member
    obtain ⟨c, present, rfl⟩ := List.mem_map.mp member
    exact (text_not_silent (plain c present)).1
  · simpa using some

theorem spoken_slashed {parts : List Component} (plain : ∀ c ∈ parts, c.Plain) :
    spoken (segments (slashed (parts.map Component.text)).toList) = parts := by
  cases parts with
  | nil => rfl
  | cons c rest => rw [segments_slashed (by simp) plain, spoken_texts plain]

theorem components_slashed {parts : List Component} (plain : ∀ c ∈ parts, c.Plain) :
    components ⟨slashed (parts.map Component.text)⟩ = parts := by
  cases parts with
  | nil => rfl
  | cons c rest =>
    obtain ⟨whole, heard, _⟩ := text_not_silent (plain c List.mem_cons_self)
    have split := segments_slashed (List.cons_ne_nil c rest) plain
    have said := spoken_texts plain
    generalize slashed ((c :: rest).map Component.text) = text at split ⊢
    rw [List.map_cons] at split said
    have relative : isAbsolute ⟨text⟩ = false := by
      cases shape : text.toList with
      | nil => simp [isAbsolute, shape]
      | cons d more =>
        -- A slash in front would leave an empty first part.
        have other : d ≠ '/' := by
          rintro rfl
          rw [shape, segments, if_pos rfl] at split
          have blank : c.text.toList = [] := (List.cons.inj split).1.symm
          rw [blank] at heard
          exact absurd heard (by decide)
        simp [isAbsolute, shape, other]
    have named : c.text.toList ≠ ['.'] := by
      intro dot
      rw [dot] at heard
      exact absurd heard (by decide)
    simp only [components, split, relative, named, said, Bool.false_eq_true, if_false]

theorem components_rooted {parts : List Component} (plain : ∀ c ∈ parts, c.Plain) :
    components ⟨"/" ++ slashed (parts.map Component.text)⟩ = .root :: parts := by
  have text : ("/" ++ slashed (parts.map Component.text)).toList =
      '/' :: (slashed (parts.map Component.text)).toList := by
    rw [String.toList_append]
    rfl
  simp [components, isAbsolute, text, segments, spoken_slashed plain]

theorem components_ofComponents {stack : List Component} (h : IsStack stack) :
    (ofComponents stack.reverse).components = stack.reverse := by
  obtain ⟨parts, plain, shape⟩ := h
  have backwards : ∀ c ∈ parts.reverse, c.Plain := by simpa using plain
  rcases shape with same | same
  · rw [same]
    have started : ofComponents parts.reverse = ⟨slashed (parts.reverse.map Component.text)⟩ := by
      cases order : parts.reverse with
      | nil => rfl
      | cons c rest =>
        have first : c.Plain := backwards c (order ▸ List.mem_cons_self)
        cases c with
        | root => exact first.elim
        | current | parent | name => rfl
    rw [started, components_slashed backwards]
  · rw [same]
    simpa [ofComponents] using components_rooted backwards

theorem components_normalize (p : Path) :
    p.normalize.components = (p.components.foldl normalStep []).reverse :=
  components_ofComponents p.normalized_isStack

theorem normalize_eq_of_components {p q : Path}
    (same : p.normalize.components = q.normalize.components) : p.normalize = q.normalize := by
  rw [components_normalize, components_normalize] at same
  rw [normalize, normalize, same]

end Path

end ScriptCpp
