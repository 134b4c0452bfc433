import Mathlib
import ScriptCpp.Linking.Source
import ScriptCpp.Proofs.Files.Sparing

set_option autoImplicit false

namespace ScriptCpp

/-!
What normalizing a path does to the place it leads to. Every path is so many steps up and then names.
The normal form has the same names, but of the steps up only the last one of an odd number: a step up
undoes the step up before it.
-/

/-- Steps up from the start, and then names, the innermost first. -/
structure Route where
  ups : Nat
  names : List String

namespace Route

def step (r : Route) : Component → Route
  | .root | .current => r
  | .name text => { r with names := text :: r.names }
  | .parent =>
      match r.names with
      | [] => { r with ups := r.ups + 1 }
      | _ :: rest => { r with names := rest }

def leads (r : Route) (start : Location) : Location := start.rdrop r.ups ++ r.names.reverse

def stack (r : Route) (base : List Component) : List Component :=
  r.names.map .name ++ (List.replicate (r.ups % 2) .parent ++ base)

end Route

def Component.tread (place : Location) : Component → Location
  | .root => []
  | .current => place
  | .parent => place.dropLast
  | .name text => place ++ [text]

namespace Route

theorem rdrop_dropLast (start : Location) (n : Nat) :
    (start.rdrop n).dropLast = start.rdrop (n + 1) := by
  rw [List.rdrop, List.rdrop, List.dropLast_eq_take, List.take_take, List.length_take]
  congr 1
  omega

theorem leads_step (r : Route) (start : Location) {c : Component} (plain : c.Plain) :
    (r.step c).leads start = c.tread (r.leads start) := by
  obtain ⟨ups, names⟩ := r
  cases c with
  | root | current => exact plain.elim
  | name text => simp [step, leads, Component.tread]
  | parent =>
    cases names with
    | nil => simp [step, leads, Component.tread, rdrop_dropLast]
    | cons text rest => simp [step, leads, Component.tread, ← List.append_assoc]

theorem stack_step (r : Route) {base : List Component} (bottom : base = [] ∨ base = [.root])
    {c : Component} (plain : c.Plain) : (r.step c).stack base = Path.normalStep (r.stack base) c := by
  obtain ⟨ups, names⟩ := r
  cases c with
  | root | current => exact plain.elim
  | name text => rfl
  | parent =>
    cases names with
    | cons text rest => rfl
    | nil =>
      -- The steps up come in pairs that leave nothing.
      rcases Nat.mod_two_eq_zero_or_one ups with even | odd
      · have next : (ups + 1) % 2 = 1 := by omega
        rcases bottom with rfl | rfl <;> simp [step, stack, even, next, Path.normalStep]
      · have next : (ups + 1) % 2 = 0 := by omega
        rcases bottom with rfl | rfl <;> simp [step, stack, odd, next, Path.normalStep]

theorem leads_run (cs : List Component) (plain : ∀ c ∈ cs, c.Plain) (r : Route) (start : Location) :
    (cs.foldl step r).leads start = cs.foldl Component.tread (r.leads start) := by
  induction cs generalizing r with
  | nil => rfl
  | cons c rest ih =>
    obtain ⟨first, others⟩ := List.forall_mem_cons.mp plain
    rw [List.foldl_cons, List.foldl_cons, ih others, leads_step r start first]

theorem stack_run (cs : List Component) (plain : ∀ c ∈ cs, c.Plain) (r : Route)
    {base : List Component} (bottom : base = [] ∨ base = [.root]) :
    (cs.foldl step r).stack base = cs.foldl Path.normalStep (r.stack base) := by
  induction cs generalizing r with
  | nil => rfl
  | cons c rest ih =>
    obtain ⟨first, others⟩ := List.forall_mem_cons.mp plain
    rw [List.foldl_cons, List.foldl_cons, ih others, stack_step r bottom first]

theorem names_run (names : List String) (r : Route) :
    (names.map Component.name).foldl step r = ⟨r.ups, names.reverse ++ r.names⟩ := by
  induction names generalizing r with
  | nil => rfl
  | cons text rest ih => simp [ih, step]

theorem stack_route (r : Route) :
    (r.stack []).reverse.foldl step ⟨0, []⟩ = ⟨r.ups % 2, r.names⟩ := by
  have climbed : (List.replicate (r.ups % 2) Component.parent).foldl step ⟨0, []⟩ = ⟨r.ups % 2, []⟩ := by
    rcases Nat.mod_two_eq_zero_or_one r.ups with even | odd
    · rw [even]
      rfl
    · rw [odd]
      rfl
  simp [stack, ← List.map_reverse, List.foldl_append, climbed, names_run]

theorem names_append_inj {names names' : List String} {cs ds : List Component}
    (ends : ∀ text, cs.head? ≠ some (.name text)) (ends' : ∀ text, ds.head? ≠ some (.name text)) :
    names.map Component.name ++ cs = names'.map .name ++ ds ↔ names = names' ∧ cs = ds := by
  constructor
  · intro same
    induction names generalizing names' with
    | nil =>
      cases names' with
      | nil => exact ⟨rfl, same⟩
      | cons text _ => exact absurd (by simpa using congrArg List.head? same) (ends text)
    | cons text rest ih =>
      cases names' with
      | nil => exact absurd (by simpa using congrArg List.head? same.symm) (ends' text)
      | cons text' rest' =>
        obtain ⟨first, others⟩ := List.cons.inj same
        obtain ⟨rfl, rfl⟩ := ih others
        exact ⟨by rw [Component.name.inj first], rfl⟩
  · rintro ⟨rfl, rfl⟩
    rfl

end Route

namespace Path

def route (p : Path) : Route := p.components.foldl Route.step ⟨0, []⟩

def base (p : Path) : List Component := if p.isAbsolute then [.root] else []

theorem base_cases (p : Path) : p.base = [] ∨ p.base = [.root] := by
  unfold base
  split
  · exact .inr rfl
  · exact .inl rfl

theorem components_cases (p : Path) :
    p.isAbsolute = true ∧ p.components = .root :: spoken (segments p.text.toList) ∨
    p.isAbsolute = false ∧ (p.components = .current :: spoken (segments p.text.toList) ∨
      p.components = spoken (segments p.text.toList)) := by
  cases parts : segments p.text.toList with
  | nil => exact absurd (segments_eq_splitOn _ ▸ parts) (List.splitOn_ne_nil _ _)
  | cons first rest =>
    have skipped : isSilent first = true → spoken (first :: rest) = spoken rest := by
      intro silent
      simp [spoken, silent]
    unfold components
    cases absolute : p.isAbsolute with
    | true =>
      obtain ⟨chars, text⟩ := List.head?_eq_some_iff.mp (of_decide_eq_true absolute)
      have blank : first = [] := by
        rw [text, segments, if_pos rfl, List.cons.injEq] at parts
        exact parts.1.symm
      rw [parts, skipped (blank ▸ rfl)]
      exact .inl ⟨rfl, rfl⟩
    | false =>
      refine .inr ⟨rfl, ?_⟩
      by_cases dot : first = ['.']
      · rw [parts, skipped (dot ▸ rfl)]
        exact .inl (by simp [dot])
      · exact .inr (by simp [parts, dot])

theorem spoken_segments_plain (p : Path) : ∀ c ∈ spoken (segments p.text.toList), c.Plain :=
  spoken_plain fun _ => not_mem_of_mem_segments

theorem route_eq (p : Path) : p.route = (spoken (segments p.text.toList)).foldl Route.step ⟨0, []⟩ := by
  unfold route
  obtain ⟨-, same⟩ | ⟨-, same | same⟩ := p.components_cases
  · rw [same]
    rfl
  · rw [same]
    rfl
  · rw [same]

theorem stride_eq_tread {place : Location} {segment : List Char} (heard : isSilent segment = false) :
    stride place segment = (component segment).tread place := by
  unfold stride component
  rw [heard, if_neg Bool.false_ne_true]
  split
  · rfl
  · rfl

theorem foldl_stride_eq_tread (parts : List (List Char)) (place : Location) :
    parts.foldl stride place = (spoken parts).foldl Component.tread place := by
  rw [foldl_stride_heard, spoken, List.foldl_map]
  apply List.foldl_ext
  intro place part present
  exact stride_eq_tread (by simpa using (List.mem_filter.mp present).2)

theorem place_eq_leads (p : Path) (home : Location) : p.place home = p.route.leads (Tree.start home p) := by
  rw [place, foldl_stride_eq_tread, route_eq, Route.leads_run _ p.spoken_segments_plain]
  simp [Route.leads]

theorem components_normalize_eq (p : Path) : p.normalize.components = (p.route.stack p.base).reverse := by
  rw [components_normalize, route_eq, Route.stack_run _ p.spoken_segments_plain _ p.base_cases]
  obtain ⟨absolute, same⟩ | ⟨relative, same | same⟩ := p.components_cases
  · simp [same, base, absolute, Route.stack, normalStep]
  · simp [same, base, relative, Route.stack, normalStep]
  · simp [same, base, relative, Route.stack]

theorem isAbsolute_iff_root (p : Path) : p.isAbsolute = true ↔ p.components.head? = some .root := by
  obtain ⟨absolute, same⟩ | ⟨relative, same | same⟩ := p.components_cases
  · simp [absolute, same]
  · simp [relative, same]
  · have named : ∀ c, (spoken (segments p.text.toList)).head? = some c → c ≠ .root := by
      rintro c first rfl
      exact p.spoken_segments_plain _ (List.mem_of_mem_head? first)
    constructor
    · intro absolute
      rw [relative] at absolute
      cases absolute
    · intro first
      rw [same] at first
      exact absurd rfl (named _ first)

theorem isAbsolute_normalize (p : Path) : p.normalize.isAbsolute = p.isAbsolute := by
  rw [Bool.eq_iff_iff, isAbsolute_iff_root, components_normalize_eq]
  cases absolute : p.isAbsolute with
  | true => simp [base, absolute, Route.stack]
  | false =>
    have parity := Nat.mod_two_eq_zero_or_one p.route.ups
    rcases parity with even | odd
    · cases names : p.route.names.reverse <;> simp [base, absolute, Route.stack, even, ← List.map_reverse, names]
    · simp [base, absolute, Route.stack, odd]

theorem route_normalize (p : Path) : p.normalize.route = ⟨p.route.ups % 2, p.route.names⟩ := by
  rw [← Route.stack_route, route, components_normalize_eq]
  rcases p.base_cases with same | same
  · rw [same]
  · rw [same]
    simp [Route.stack, Route.step]

theorem place_of_absolute {p : Path} (absolute : p.isAbsolute = true) (home : Location) :
    p.place home = p.route.names.reverse := by
  simp [place_eq_leads, Tree.start, absolute, Route.leads]

theorem place_of_relative {p : Path} (relative : p.isAbsolute = false) (home : Location) :
    p.place home = home.rdrop p.route.ups ++ p.route.names.reverse := by
  simp [place_eq_leads, Tree.start, relative, Route.leads]

/-- From wherever both paths can take all their steps up, they lead to the same place. -/
def SamePlace (p q : Path) : Prop :=
  ∀ home : Location, p.route.ups ≤ home.length → q.route.ups ≤ home.length → p.place home = q.place home

theorem length_rdrop (home : Location) (n : Nat) : (home.rdrop n).length = home.length - n := by
  rw [List.rdrop, List.length_take]
  omega

theorem ups_le_of_samePlace {p q : Path} (relative : p.isAbsolute = false)
    (relative' : q.isAbsolute = false) (h : p.SamePlace q) : p.route.ups ≤ q.route.ups := by
  by_contra less
  -- From a directory just deep enough for `p`, the names of `p` alone are left; `q` leaves a name of the
  -- directory before its own.
  have first : ∀ text : String, p.route.names.reverse.head? = some text := by
    intro text
    have same := h (List.replicate p.route.ups text) (by simp) (by simp; omega)
    rw [place_of_relative relative, place_of_relative relative'] at same
    have rest : p.route.ups - q.route.ups = p.route.ups - q.route.ups - 1 + 1 := by omega
    have left : (List.replicate p.route.ups text).rdrop q.route.ups =
        text :: List.replicate (p.route.ups - q.route.ups - 1) text := by
      rw [List.rdrop, List.length_replicate, List.take_replicate, Nat.min_eq_left (Nat.sub_le _ _), rest,
        List.replicate_succ, Nat.add_sub_cancel]
    rw [left, List.rdrop, List.length_replicate, Nat.sub_self, List.take_zero, List.nil_append] at same
    rw [same]
    rfl
  have two := (first "a").symm.trans (first "b")
  exact absurd (Option.some.inj two) (by decide)

theorem not_samePlace_of_absolute {p q : Path} (absolute : p.isAbsolute = true)
    (relative : q.isAbsolute = false) : ¬ p.SamePlace q := by
  intro h
  let depth := max p.route.ups q.route.ups
  have place : ∀ home : Location, depth ≤ home.length →
      p.route.names.length = home.length - q.route.ups + q.route.names.length := by
    intro home deep
    have same := congrArg List.length (h home (by omega) (by omega))
    rw [place_of_absolute absolute, place_of_relative relative, List.length_append, length_rdrop] at same
    simpa using same
  have here := place (List.replicate depth "a") (by simp)
  have further := place (List.replicate (depth + 1) "a") (by simp)
  simp only [List.length_replicate] at here further
  omega

theorem SamePlace.symm {p q : Path} (h : p.SamePlace q) : q.SamePlace p :=
  fun home deep deep' => (h home deep' deep).symm

theorem samePlace_iff (p q : Path) : p.SamePlace q ↔ p.isAbsolute = q.isAbsolute ∧
    p.route.names = q.route.names ∧ (p.isAbsolute = true ∨ p.route.ups = q.route.ups) := by
  constructor
  · intro h
    -- A directory deep enough for the steps up of both paths tells them apart.
    have enough := h (List.replicate (max p.route.ups q.route.ups) "a")
    cases absolute : p.isAbsolute with
    | true =>
      cases absolute' : q.isAbsolute with
      | true =>
        have same := enough (by simp) (by simp)
        rw [place_of_absolute absolute, place_of_absolute absolute'] at same
        exact ⟨rfl, List.reverse_injective same, .inl rfl⟩
      | false => exact absurd h (not_samePlace_of_absolute absolute absolute')
    | false =>
      cases absolute' : q.isAbsolute with
      | true => exact absurd h.symm (not_samePlace_of_absolute absolute' absolute)
      | false =>
        have ups : p.route.ups = q.route.ups :=
          le_antisymm (ups_le_of_samePlace absolute absolute' h) (ups_le_of_samePlace absolute' absolute h.symm)
        have same := enough (by simp) (by simp)
        rw [place_of_relative absolute, place_of_relative absolute', ups] at same
        exact ⟨rfl, List.reverse_injective (List.append_cancel_left same), .inr ups⟩
  · rintro ⟨alike, names, ups⟩ home - -
    cases absolute : p.isAbsolute with
    | true => rw [place_of_absolute absolute, place_of_absolute (alike ▸ absolute), names]
    | false =>
      have same : p.route.ups = q.route.ups := ups.resolve_left (by simp [absolute])
      rw [place_of_relative absolute, place_of_relative (alike ▸ absolute), names, same]

theorem normalize_components_eq_iff (p q : Path) : p.normalize.components = q.normalize.components ↔
    p.isAbsolute = q.isAbsolute ∧ p.route.names = q.route.names ∧ p.route.ups % 2 = q.route.ups % 2 := by
  have bottom : ∀ (r : Path) (text : String),
      (List.replicate (r.route.ups % 2) Component.parent ++ r.base).head? ≠ some (.name text) := by
    intro r text
    rcases Nat.mod_two_eq_zero_or_one r.route.ups with even | odd
    · rcases r.base_cases with same | same <;> simp [even, same]
    · simp [odd]
  rw [components_normalize_eq, components_normalize_eq, List.reverse_inj, Route.stack, Route.stack,
    Route.names_append_inj (bottom p) (bottom q)]
  have roots : List.replicate (p.route.ups % 2) Component.parent ++ p.base =
      List.replicate (q.route.ups % 2) .parent ++ q.base ↔
        p.isAbsolute = q.isAbsolute ∧ p.route.ups % 2 = q.route.ups % 2 := by
    unfold base
    rcases Nat.mod_two_eq_zero_or_one p.route.ups with first | first <;>
      rcases Nat.mod_two_eq_zero_or_one q.route.ups with second | second <;>
      cases p.isAbsolute <;> cases q.isAbsolute <;> simp [first, second]
  rw [roots]
  tauto

end Path

namespace Tree

variable {t : Tree} {place next : Location} {cs : List Component}

def follow (t : Tree) (place : Location) (cs : List Component) : Except FileError Location :=
  cs.foldlM (fun place c => t.step place c.text.toList) place

theorem follow_concat_iff {c : Component} : t.follow place (cs ++ [c]) = .ok next ↔
    ∃ middle, t.follow place cs = .ok middle ∧ t.step middle c.text.toList = .ok next := by
  unfold follow
  simp only [List.foldlM_append, List.foldlM_cons, List.foldlM_nil, bind_pure]
  cases cs.foldlM (fun place c => t.step place c.text.toList) place with
  | error e => simp [bind, Except.bind]
  | ok middle => simp [bind, Except.bind]

theorem step_silent {segment : List Char} (silent : Path.isSilent segment = true)
    (directory : t.get? place = some .directory) : t.step place segment = .ok place := by
  simp [step, approach, directory, silent]

theorem text_component {segment : List Char} : (Path.component segment).text.toList = segment := by
  unfold Path.component
  split
  · next up => exact up.symm
  · simp [Component.text]

theorem directory_of_walk {home : Location} {p : Path} (h : t.walk home p = .ok next) :
    t.get? (start home p) = some .directory := by
  unfold walk at h
  cases parts : Path.segments p.text.toList with
  | nil => exact absurd (Path.segments_eq_splitOn _ ▸ parts) (List.splitOn_ne_nil _ _)
  | cons first rest =>
    rw [parts, List.foldlM_cons] at h
    cases stepped : t.step (start home p) first with
    | error e => rw [stepped] at h; cases h
    | ok middle => exact approach_directory (step_ok_iff.mp stepped).1

-- Parts that say nothing have to be in a directory, but lead nowhere.
theorem follow_of_foldlM {parts : List (List Char)} (h : parts.foldlM t.step place = .ok next) :
    t.follow place (Path.spoken parts) = .ok next := by
  induction parts generalizing place with
  | nil => exact h
  | cons part rest ih =>
    rw [List.foldlM_cons] at h
    cases stepped : t.step place part with
    | error e => rw [stepped] at h; cases h
    | ok middle =>
      rw [stepped] at h
      have later := ih h
      by_cases silent : Path.isSilent part = true
      · have stays : middle = place :=
          (approach_place (step_ok_iff.mp stepped).1).trans (Path.stride_silent silent place)
        rw [stays] at later
        simpa [Path.spoken, silent] using later
      · have heard : Path.spoken (part :: rest) = Path.component part :: Path.spoken rest := by
          simp [Path.spoken, silent]
        rw [heard, follow, List.foldlM_cons, text_component, stepped]
        exact later

theorem foldlM_of_follow (plain : ∀ c ∈ cs, c.Plain) (directory : t.get? place = some .directory)
    (h : t.follow place cs = .ok next) :
    (Path.segments (Path.slashed (cs.map Component.text)).toList).foldlM t.step place = .ok next := by
  cases cs with
  | nil =>
    cases h
    have blank : Path.segments (Path.slashed ([].map Component.text)).toList = [[]] := rfl
    rw [blank, List.foldlM_cons, step_silent rfl directory]
    rfl
  | cons c rest =>
    rw [Path.segments_slashed (List.cons_ne_nil c rest) plain, List.foldlM_map]
    exact h

end Tree

namespace Route

variable {t : Tree} {start place next : Location} {r : Route} {c : Component}

theorem lands {middle : Location} (plain : c.Plain) (stepped : t.step middle c.text.toList = .ok next) :
    next = c.tread middle := by
  obtain ⟨-, heard, same⟩ := Path.text_not_silent plain
  rw [Tree.approach_place (Tree.step_ok_iff.mp stepped).1, Path.stride_eq_tread heard, same]

theorem follow_step (named : ∀ text ∈ r.names, (Component.name text).Plain) (plain : c.Plain)
    (low : start = [] ∨ (r.step c).ups ≤ 1) (followed : t.follow start (r.stack []).reverse = .ok place)
    (stepped : t.step place c.text.toList = .ok next) :
    t.follow start ((r.step c).stack []).reverse = .ok next := by
  have landed := lands plain stepped
  obtain ⟨ups, names⟩ := r
  cases c with
  | root | current => exact plain.elim
  | name text =>
    have grown : ((step ⟨ups, names⟩ (.name text)).stack []).reverse =
        (stack ⟨ups, names⟩ []).reverse ++ [.name text] := by simp [step, stack]
    rw [grown]
    exact Tree.follow_concat_iff.mpr ⟨place, followed, stepped⟩
  | parent =>
    cases names with
    | cons text rest =>
      have shape : (stack ⟨ups, text :: rest⟩ []).reverse = (stack ⟨ups, rest⟩ []).reverse ++ [.name text] := by
        simp [stack]
      rw [shape] at followed
      obtain ⟨middle, before, entered⟩ := Tree.follow_concat_iff.mp followed
      have back : next = middle := by
        rw [landed, lands (named text List.mem_cons_self) entered]
        exact List.dropLast_concat
      rw [back]
      exact before
    | nil =>
      -- A normal form has one `..` for an odd number of steps up and none for an even one.
      rcases Nat.mod_two_eq_zero_or_one ups with even | odd
      · have next_odd : (ups + 1) % 2 = 1 := by omega
        have here : place = start := by
          simpa [stack, even, Tree.follow, pure, Except.pure, eq_comm] using followed
        have up : (stack (step ⟨ups, []⟩ .parent) []).reverse = [] ++ [.parent] := by
          simp [step, stack, next_odd]
        rw [up]
        exact Tree.follow_concat_iff.mpr ⟨start, rfl, here ▸ stepped⟩
      · have root : start = [] := low.resolve_right (by simp only [step]; omega)
        have next_even : (ups + 1) % 2 = 0 := by omega
        have above : (stack ⟨ups, []⟩ []).reverse = [] ++ [.parent] := by simp [stack, odd]
        rw [above] at followed
        obtain ⟨middle, before, entered⟩ := Tree.follow_concat_iff.mp followed
        obtain rfl : start = middle := Except.ok.inj before
        have still : next = [] := by
          rw [landed, lands (c := .parent) trivial entered, root]
          rfl
        have gone : ((step ⟨ups, []⟩ .parent).stack []).reverse = [] := by simp [step, stack, next_even]
        rw [gone, still, root]
        rfl

theorem ups_le_run (cs : List Component) (r : Route) : r.ups ≤ (cs.foldl step r).ups := by
  induction cs generalizing r with
  | nil => exact Nat.le_refl _
  | cons c rest ih =>
    have here : r.ups ≤ (r.step c).ups := by
      obtain ⟨ups, names⟩ := r
      cases c <;> cases names <;> simp [step]
    exact here.trans (ih _)

theorem named_step (named : ∀ text ∈ r.names, (Component.name text).Plain) (plain : c.Plain) :
    ∀ text ∈ (r.step c).names, (Component.name text).Plain := by
  obtain ⟨ups, names⟩ := r
  cases c with
  | root | current => exact named
  | name text => exact List.forall_mem_cons.mpr ⟨plain, named⟩
  | parent =>
    cases names with
    | nil => exact named
    | cons text rest => exact (List.forall_mem_cons.mp named).2

theorem named_run (cs : List Component) (plain : ∀ c ∈ cs, c.Plain)
    (named : ∀ text ∈ r.names, (Component.name text).Plain) :
    ∀ text ∈ (cs.foldl step r).names, (Component.name text).Plain := by
  induction cs generalizing r with
  | nil => exact named
  | cons c rest ih =>
    obtain ⟨first, others⟩ := List.forall_mem_cons.mp plain
    exact ih others (named_step named first)

theorem follow_run (cs : List Component) (plain : ∀ c ∈ cs, c.Plain)
    (named : ∀ text ∈ r.names, (Component.name text).Plain)
    (low : start = [] ∨ (cs.foldl step r).ups ≤ 1)
    (followed : t.follow start (r.stack []).reverse = .ok place) (walked : t.follow place cs = .ok next) :
    t.follow start ((cs.foldl step r).stack []).reverse = .ok next := by
  induction cs generalizing r place with
  | nil =>
    cases walked
    exact followed
  | cons c rest ih =>
    obtain ⟨first, others⟩ := List.forall_mem_cons.mp plain
    rw [Tree.follow, List.foldlM_cons] at walked
    cases stepped : t.step place c.text.toList with
    | error e => rw [stepped] at walked; cases walked
    | ok middle =>
      rw [stepped] at walked
      have lower : start = [] ∨ (r.step c).ups ≤ 1 := low.imp_right (ups_le_run rest _).trans
      exact ih others (named_step named first) low (follow_step named first lower followed stepped) walked

end Route

namespace Path

theorem route_named (p : Path) : ∀ text ∈ p.route.names, (Component.name text).Plain := by
  rw [route_eq]
  exact Route.named_run _ p.spoken_segments_plain (by simp)

theorem ofComponents_plain {cs : List Component} (plain : ∀ c ∈ cs, c.Plain) :
    ofComponents cs = ⟨slashed (cs.map Component.text)⟩ := by
  cases cs with
  | nil => rfl
  | cons c rest =>
    have first : c.Plain := plain c List.mem_cons_self
    cases c with
    | root => exact first.elim
    | current | parent | name => rfl

theorem normalize_text (p : Path) : ∃ parts : List Component, (∀ c ∈ parts, c.Plain) ∧
    parts = (p.route.stack []).reverse ∧
    p.normalize.text = (if p.isAbsolute then "/" else "") ++ slashed (parts.map Component.text) := by
  have plains : ∀ c ∈ (p.route.stack []).reverse, c.Plain := by
    intro c present
    rw [List.mem_reverse, Route.stack, List.append_nil] at present
    rcases List.mem_append.mp present with name | up
    · obtain ⟨text, among, rfl⟩ := List.mem_map.mp name
      exact p.route_named text among
    · rw [List.eq_of_mem_replicate up]
      trivial
  refine ⟨_, plains, rfl, ?_⟩
  rw [normalize, ← components_normalize, components_normalize_eq]
  cases absolute : p.isAbsolute with
  | true => simp [base, absolute, Route.stack, ofComponents]
  | false => simp [base, absolute, ofComponents_plain plains]

theorem walk_normalize {p : Path} {t : Tree} {home place : Location}
    (low : p.isAbsolute = true ∨ p.route.ups ≤ 1) (walked : t.walk home p = .ok place) :
    t.walk home p.normalize = .ok place := by
  have directory := Tree.directory_of_walk walked
  have started : Tree.start home p.normalize = Tree.start home p := by
    rw [Tree.start, Tree.start, isAbsolute_normalize]
  have followed : t.follow (Tree.start home p) (p.route.stack []).reverse = .ok place := by
    rw [route_eq]
    refine Route.follow_run _ p.spoken_segments_plain (by simp) ?_ rfl (Tree.follow_of_foldlM walked)
    rw [← route_eq]
    exact low.imp_left fun absolute => by rw [Tree.start, if_pos absolute]
  obtain ⟨parts, plain, rfl, text⟩ := p.normalize_text
  have relative := Tree.foldlM_of_follow plain directory followed
  rw [Tree.walk, started, text]
  cases absolute : p.isAbsolute with
  | true =>
    have split : ("/" ++ slashed ((p.route.stack []).reverse.map Component.text)).toList =
        '/' :: (slashed ((p.route.stack []).reverse.map Component.text)).toList := by
      rw [String.toList_append]
      rfl
    rw [if_pos rfl, split, segments, if_pos rfl, List.foldlM_cons, Tree.step_silent rfl directory]
    generalize segments (slashed ((p.route.stack []).reverse.map Component.text)).toList = segs at relative ⊢
    exact relative
  | false =>
    rw [if_neg Bool.false_ne_true, String.empty_append]
    exact relative

/-- No two steps up from the start; from the root, where they lead nowhere, an even number of them. -/
def Low (p : Path) : Prop := if p.isAbsolute then p.route.ups % 2 = 0 else p.route.ups ≤ 1

instance (p : Path) : Decidable p.Low :=
  inferInstanceAs (Decidable (if p.isAbsolute then p.route.ups % 2 = 0 else p.route.ups ≤ 1))

theorem normalize_eq_iff_samePlace {p q : Path} (low : p.Low) (low' : q.Low) :
    p.normalize.components = q.normalize.components ↔ p.SamePlace q := by
  rw [normalize_components_eq_iff, samePlace_iff]
  apply and_congr_right
  intro alike
  apply and_congr_right
  intro _
  unfold Low at low low'
  rw [← alike] at low'
  cases absolute : p.isAbsolute with
  | true =>
    rw [absolute, if_pos rfl] at low low'
    simp [low, low']
  | false =>
    rw [absolute, if_neg Bool.false_ne_true] at low low'
    rw [Nat.mod_eq_of_lt (Nat.lt_succ_of_le low), Nat.mod_eq_of_lt (Nat.lt_succ_of_le low')]
    simp

theorem low_normalize {p : Path} (relative : p.isAbsolute = false) : p.normalize.Low := by
  rw [Low, isAbsolute_normalize, relative, route_normalize, if_neg Bool.false_ne_true]
  exact Nat.le_of_lt_succ (Nat.mod_lt _ (by decide))

theorem low_of_canonical {p : Path}
    (canonical : ∀ q : Path, q.Low → (p.normalize.components = q.normalize.components ↔ p.SamePlace q)) :
    p.Low := by
  unfold Low
  cases absolute : p.isAbsolute with
  | false =>
    -- The normal form of `p` has itself as its normal form, so it has to lead where `p` does.
    have shared : p.normalize.components = p.normalize.normalize.components := by
      rw [normalize_components_eq_iff, isAbsolute_normalize, route_normalize]
      exact ⟨rfl, rfl, (Nat.mod_mod _ _).symm⟩
    have same := (canonical _ (low_normalize absolute)).mp shared
    rw [samePlace_iff, route_normalize, absolute] at same
    have ups : p.route.ups = p.route.ups % 2 := same.2.2.resolve_left Bool.false_ne_true
    rw [if_neg Bool.false_ne_true]
    omega
  | true =>
    -- The names of `p` behind the root lead where `p` does.
    let q : Path := ⟨"/" ++ slashed ((p.route.names.reverse.map Component.name).map Component.text)⟩
    have spoken : q.components = .root :: p.route.names.reverse.map .name := by
      apply components_rooted
      intro c present
      obtain ⟨text, among, rfl⟩ := List.mem_map.mp present
      exact p.route_named text (List.mem_reverse.mp among)
    have rooted : q.isAbsolute = true := by rw [isAbsolute_iff_root, spoken, List.head?_cons]
    have direct : q.route = ⟨0, p.route.names⟩ := by
      rw [route, spoken, List.foldl_cons, Route.step, Route.names_run]
      simp
    have low : q.Low := by
      rw [Low, rooted, direct]
      rfl
    have same : p.SamePlace q := by
      rw [samePlace_iff, absolute, rooted, direct]
      exact ⟨rfl, rfl, .inl rfl⟩
    have parity := ((normalize_components_eq_iff p q).mp ((canonical q low).mpr same)).2.2
    rwa [direct] at parity

theorem keepsPlace_iff (p : Path) :
    (∀ home : Location, p.route.ups ≤ home.length → p.normalize.place home = p.place home) ↔
      p.isAbsolute = true ∨ p.route.ups ≤ 1 := by
  cases absolute : p.isAbsolute with
  | true =>
    have rooted := p.isAbsolute_normalize.trans absolute
    simp [place_of_absolute absolute, place_of_absolute rooted, route_normalize]
  | false =>
    have relative := p.isAbsolute_normalize.trans absolute
    simp only [place_of_relative absolute, place_of_relative relative, route_normalize,
      List.append_cancel_right_eq, Bool.false_eq_true, false_or]
    constructor
    · intro same
      have lengths := congrArg List.length (same (List.replicate p.route.ups "a") (by simp))
      rw [length_rdrop, length_rdrop, List.length_replicate] at lengths
      omega
    · intro low home _
      rw [Nat.mod_eq_of_lt (Nat.lt_succ_of_le low)]

end Path

theorem Shelf.get?_insert (s : Shelf) (p q : Path) (text : String) :
    (s.insert p text).get? q = if p.normalize = q.normalize then some text else s.get? q := by
  unfold get? insert
  by_cases same : p.normalize = q.normalize
  · simp [same]
  · simp only [List.find?_cons, same, decide_false, if_false, List.find?_filter]
    congr 2
    funext f
    by_cases here : f.1 = q.normalize <;> simp [here, Ne.symm same]

namespace Path

/-- The normal form leads where the path leads just if the path is absolute or takes at most one step up
from its start, and then it does so in every tree. It is the same for two paths just if they lead to the
same place, as far as the paths are low, and for no other path is that so. -/
theorem normalize_meaning (p : Path) :
    ((∀ home : Location, p.route.ups ≤ home.length → p.normalize.place home = p.place home) ↔
      p.isAbsolute = true ∨ p.route.ups ≤ 1) ∧
    (p.isAbsolute = true ∨ p.route.ups ≤ 1 → ∀ (t : Tree) (home place : Location),
      t.walk home p = .ok place → t.walk home p.normalize = .ok place) ∧
    ((∀ q : Path, q.Low → (p.normalize.components = q.normalize.components ↔ p.SamePlace q)) ↔ p.Low) ∧
    ∀ q : Path, p.Low → q.Low → ∀ (s : Shelf) (text : String),
      (p.SamePlace q → (s.insert p text).get? q = some text) ∧
      (¬ p.SamePlace q → (s.insert p text).get? q = s.get? q) := by
  refine ⟨p.keepsPlace_iff, fun low t home place => walk_normalize low, ⟨low_of_canonical, ?_⟩, ?_⟩
  · exact fun low q low' => normalize_eq_iff_samePlace low low'
  · intro q low low' s text
    have keys : p.normalize = q.normalize ↔ p.SamePlace q := by
      rw [← normalize_eq_iff_samePlace low low']
      exact ⟨congrArg components, normalize_eq_of_components⟩
    rw [Shelf.get?_insert]
    exact ⟨fun same => if_pos (keys.mpr same), fun other => if_neg (mt keys.mp other)⟩

theorem normalize_meaning_detour :
    (⟨"lib/../main.rr"⟩ : Path).Low ∧ (⟨"./main.rr"⟩ : Path).Low ∧
      (⟨"lib/../main.rr"⟩ : Path).normalize.components = (⟨"./main.rr"⟩ : Path).normalize.components ∧
      (⟨"lib/../main.rr"⟩ : Path).SamePlace ⟨"./main.rr"⟩ ∧
      (∀ home, (⟨"lib/../main.rr"⟩ : Path).normalize.place home = (⟨"lib/../main.rr"⟩ : Path).place home) ∧
      (Shelf.empty.insert ⟨"lib/../main.rr"⟩ "x;").get? ⟨"./main.rr"⟩ = some "x;" := by
  have low : (⟨"lib/../main.rr"⟩ : Path).Low := by decide
  have low' : (⟨"./main.rr"⟩ : Path).Low := by decide
  have shared : (⟨"lib/../main.rr"⟩ : Path).normalize.components = (⟨"./main.rr"⟩ : Path).normalize.components := by
    decide
  obtain ⟨keeps, -, canonical, keys⟩ := normalize_meaning ⟨"lib/../main.rr"⟩
  have same := (canonical.mpr low ⟨"./main.rr"⟩ low').mp shared
  refine ⟨low, low', shared, same, fun home => keeps.mpr (.inr (by decide)) home (Nat.zero_le _), ?_⟩
  exact (keys ⟨"./main.rr"⟩ low low' Shelf.empty "x;").1 same

theorem normalize_forgets_ups :
    (⟨"../.."⟩ : Path).route.ups = 2 ∧ (⟨"../.."⟩ : Path).normalize = ⟨""⟩ ∧
      (⟨"../.."⟩ : Path).place ["a", "b"] = [] ∧ (⟨"../.."⟩ : Path).normalize.place ["a", "b"] = ["a", "b"] ∧
      (⟨"/.."⟩ : Path).normalize.components ≠ (⟨"/"⟩ : Path).normalize.components ∧
      ∀ home, (⟨"/.."⟩ : Path).place home = (⟨"/"⟩ : Path).place home :=
  ⟨by decide, by decide, by decide, by decide, by decide, fun _ => rfl⟩

end Path

end ScriptCpp
