import Mathlib
import ScriptCpp.Proofs.Files.Place

set_option autoImplicit false

namespace ScriptCpp

namespace Tree

variable {t t' t'' : Tree} {home place next : Location} {segment : List Char} {p : Path}

section Places

theorem approach_place (h : t.approach place segment = .ok next) :
    next = Path.stride place segment := by
  unfold approach at h
  unfold Path.stride
  cases entry : t.get? place with
  | none => simp [entry] at h
  | some node =>
    cases node with
    | file content runnable => simp [entry] at h
    | directory =>
      simp only [entry] at h
      by_cases silent : Path.isSilent segment = true
      · simpa [silent] using h.symm
      · by_cases up : segment = ['.', '.']
        · subst up
          simpa [Path.isSilent] using h.symm
        · simp only [silent, up, Bool.false_eq_true, if_false] at h ⊢
          by_cases long : nameLimit < (String.ofList segment).utf8ByteSize
          · simp [long] at h
          · simpa [long] using h.symm

theorem approach_directory (h : t.approach place segment = .ok next) :
    t.get? place = some .directory := by
  unfold approach at h
  cases entry : t.get? place with
  | none => simp [entry] at h
  | some node =>
    cases node with
    | file content runnable => simp [entry] at h
    | directory => rfl

theorem step_ok_iff : t.step place segment = .ok next ↔
    t.approach place segment = .ok next ∧ (t.get? next).isSome = true := by
  unfold step
  cases reached : t.approach place segment with
  | error e => simp
  | ok other =>
    by_cases there : (t.get? other).isSome = true
    · simp only [there, if_true, Except.ok.injEq]
      constructor
      · rintro rfl
        exact ⟨rfl, there⟩
      · exact fun h => h.1
    · simp only [there, if_false, Except.ok.injEq, reduceCtorEq, false_iff, not_and,
        Bool.false_eq_true]
      rintro rfl
      exact there

theorem walk_places {parts : List (List Char)} (h : parts.foldlM t.step place = .ok next) :
    next = parts.foldl Path.stride place := by
  induction parts generalizing place with
  | nil => exact (Except.ok.inj h).symm
  | cons segment rest ih =>
    rw [List.foldlM_cons] at h
    cases stepped : t.step place segment with
    | error e => rw [stepped] at h; cases h
    | ok middle =>
      rw [stepped] at h
      rw [List.foldl_cons, ← approach_place (step_ok_iff.mp stepped).1]
      exact ih h

theorem locate_place (h : t.locate home p = .ok place) : place = p.place home := by
  unfold locate at h
  cases refused : refusal? p with
  | some e => rw [refused] at h; cases h
  | none =>
    rw [refused] at h
    exact walk_places h

-- Empty parts at the end lead nowhere, so they may be left out.
theorem foldl_stride_trimmed (parts : List (List Char)) (place : Location) :
    ((parts.reverse.dropWhile List.isEmpty).reverse).foldl Path.stride place =
      parts.foldl Path.stride place := by
  induction parts using List.reverseRecOn with
  | nil => rfl
  | append_singleton before last ih =>
    rw [List.reverse_append, List.reverse_singleton, List.singleton_append, List.dropWhile_cons]
    by_cases empty : last.isEmpty = true
    · have silent : Path.isSilent last = true := by simp [Path.isSilent, empty]
      rw [if_pos empty, ih, List.foldl_append, List.foldl_cons, List.foldl_nil,
        Path.stride_silent silent]
    · rw [if_neg empty, List.reverse_cons, List.reverse_reverse]

theorem slot_place {last : List Char} (h : t.slot home p = .ok (last, place)) :
    place = p.place home := by
  unfold slot at h
  cases refused : refusal? p with
  | some e => rw [refused] at h; cases h
  | none =>
    simp only [refused] at h
    rw [Path.place, ← foldl_stride_trimmed]
    generalize ((Path.segments p.text.toList).reverse.dropWhile List.isEmpty).reverse = parts at h ⊢
    cases walked : parts.dropLast.foldlM t.step (start home p) with
    | error e => rw [walked] at h; cases h
    | ok outer =>
      rw [walked] at h
      cases reached : t.approach outer (parts.getLast?.getD []) with
      | error e => simp only [reached, bind, Except.bind] at h; cases h
      | ok next =>
        simp only [reached, bind, Except.bind, pure, Except.pure, Except.ok.injEq,
          Prod.mk.injEq] at h
        rw [← h.2, approach_place reached, walk_places walked]
        rcases parts.eq_nil_or_concat with rfl | ⟨before, last, rfl⟩
        · exact Path.stride_silent rfl _
        · simp

end Places

/-- Every directory stays, and so does every file with its bytes outside the places `touched`. -/
structure Spares (touched : Location → Prop) (t t' : Tree) : Prop where
  directory : ∀ {place : Location},
    t.get? place = some .directory → t'.get? place = some .directory
  file : ∀ {place : Location} {content : ByteArray} {runnable : Bool}, ¬ touched place →
    t.get? place = some (.file content runnable) → t'.get? place = some (.file content runnable)

namespace Spares

variable {touched touched' : Location → Prop}

theorem refl (touched : Location → Prop) (t : Tree) : t.Spares touched t :=
  ⟨id, fun _ => id⟩

theorem trans (first : t.Spares touched t') (second : t'.Spares touched t'') :
    t.Spares touched t'' :=
  ⟨fun entry => second.directory (first.directory entry),
    fun apart entry => second.file apart (first.file apart entry)⟩

theorem mono (wider : ∀ place, touched place → touched' place) (h : t.Spares touched t') :
    t.Spares touched' t' :=
  ⟨h.directory, fun apart => h.file fun hit => apart (wider _ hit)⟩

theorem set {node : Node} (free : t.get? place ≠ some .directory) (hit : touched place) :
    t.Spares touched (t.set place node) := by
  constructor
  · intro other entry
    have apart : other ≠ place := by
      rintro rfl
      exact free entry
    rw [get?_set_of_ne t node apart, entry]
  · intro other content runnable apart entry
    have other_ne : other ≠ place := by
      rintro rfl
      exact apart hit
    rw [get?_set_of_ne t node other_ne, entry]

theorem set_new {node : Node} (free : t.get? place = none) :
    t.Spares touched (t.set place node) := by
  have other_ne : ∀ {other : Location} {node : Node}, t.get? other = some node → other ≠ place := by
    rintro other node entry rfl
    rw [free] at entry
    cases entry
  constructor
  · intro other entry
    rw [get?_set_of_ne t _ (other_ne entry), entry]
  · intro other content runnable _ entry
    rw [get?_set_of_ne t _ (other_ne entry), entry]

theorem erase (file : t.isFile place = true) (hit : touched place) :
    t.Spares touched (t.erase place) := by
  constructor
  · intro other entry
    have apart : other ≠ place := by
      rintro rfl
      simp [isFile, entry] at file
    rw [get?_erase_of_ne t apart, entry]
  · intro other content runnable apart entry
    have other_ne : other ≠ place := by
      rintro rfl
      exact apart hit
    rw [get?_erase_of_ne t other_ne, entry]

theorem approach (h : t.Spares touched t') (reached : t.approach place segment = .ok next) :
    t'.approach place segment = .ok next := by
  have opened := approach_directory reached
  unfold Tree.approach at reached ⊢
  rw [opened] at reached
  rw [h.directory opened]
  exact reached

-- On the way there are directories only, so what is touched matters at the end alone.
theorem walk {parts : List (List Char)} (h : t.Spares touched t') (apart : ¬ touched next)
    (walked : parts.foldlM t.step place = .ok next) : parts.foldlM t'.step place = .ok next := by
  induction parts generalizing place with
  | nil => exact walked
  | cons segment rest ih =>
    rw [List.foldlM_cons] at walked ⊢
    cases stepped : t.step place segment with
    | error e => rw [stepped] at walked; cases walked
    | ok middle =>
      rw [stepped] at walked
      obtain ⟨reached, there⟩ := step_ok_iff.mp stepped
      have stays : (t'.get? middle).isSome = true := by
        cases entry : t.get? middle with
        | none => simp [entry] at there
        | some node =>
          cases node with
          | directory => simp [h.directory entry]
          | file content runnable =>
            -- No step leads on from a file, so the walk ends here.
            have last : middle = next := by
              cases rest with
              | nil => exact Except.ok.inj walked
              | cons further rest =>
                have stuck : t.step middle further = .error .notDirectory := by
                  simp [step, Tree.approach, entry]
                change (t.step middle further >>= rest.foldlM t.step) = _ at walked
                rw [stuck] at walked
                cases walked
            simp [h.file (last ▸ apart) entry]
      rw [step_ok_iff.mpr ⟨h.approach reached, stays⟩]
      exact ih walked

theorem locate (h : t.Spares touched t') (apart : ¬ touched place)
    (found : t.locate home p = .ok place) : t'.locate home p = .ok place := by
  unfold Tree.locate at found ⊢
  cases refused : refusal? p with
  | some e => rw [refused] at found; cases found
  | none =>
    rw [refused] at found
    exact h.walk apart found

end Spares

theorem read_ok_iff {content : ByteArray} : t.read home p = .ok content ↔
    t.locate home p = .ok (p.place home) ∧
      ∃ runnable, t.get? (p.place home) = some (.file content runnable) := by
  unfold read
  cases found : t.locate home p with
  | error e => simp [bind, Except.bind]
  | ok place =>
    obtain rfl := locate_place found
    cases entry : t.get? (p.place home) with
    | none => simp [bind, Except.bind, entry]
    | some node => cases node <;> simp [bind, Except.bind, entry]

theorem Spares.read {touched : Location → Prop} {content : ByteArray} (h : t.Spares touched t')
    (apart : ¬ touched (p.place home)) (before : t.read home p = .ok content) :
    t'.read home p = .ok content := by
  obtain ⟨found, runnable, entry⟩ := read_ok_iff.mp before
  exact read_ok_iff.mpr ⟨h.locate apart found, runnable, h.file apart entry⟩

section Operations

theorem makeDirectory_spares (touched : Location → Prop) (h : t.makeDirectory home p = .ok t') :
    t.Spares touched t' := by
  unfold makeDirectory at h
  cases slotted : t.slot home p with
  | error e => rw [slotted] at h; cases h
  | ok found =>
    obtain ⟨last, place⟩ := found
    simp only [slotted, bind, Except.bind] at h
    by_cases free : (isPlain last && (t.get? place).isNone) = true
    · rw [if_pos free] at h
      obtain rfl := Except.ok.inj h
      simp only [Bool.and_eq_true, Option.isNone_iff_eq_none] at free
      exact .set_new free.2
    · rw [if_neg free] at h
      cases h

theorem makeChain_spares (touched : Location → Prop) (t : Tree) (home : Location)
    (paths : List Path) : t.Spares touched (t.makeChain home paths).2 := by
  induction paths generalizing t with
  | nil => exact .refl touched t
  | cons p outer ih =>
    unfold makeChain
    cases made : t.makeDirectory home p with
    | ok t₁ => exact makeDirectory_spares touched made
    | error e =>
      cases e with
      | noEntry =>
        have further := ih t
        rcases chain : t.makeChain home outer with ⟨e | _, t₁⟩
        · rw [chain] at further
          exact further
        · rw [chain] at further
          cases again : t₁.makeDirectory home p with
          | ok t₂ => simpa [chain, again] using further.trans (makeDirectory_spares touched again)
          | error e => simpa [chain, again] using further
      | _ => exact .refl touched t

theorem makeDirectories_spares (touched : Location → Prop) (t : Tree) (home : Location) (p : Path) :
    t.Spares touched (t.makeDirectories home p).2 :=
  makeChain_spares touched t home _

theorem write_ok {content : ByteArray} (h : t.write home p content = .ok t') :
    t.get? (p.place home) ≠ some .directory ∧
      ∃ runnable, t' = t.set (p.place home) (.file content runnable) := by
  unfold write at h
  cases slotted : t.slot home p with
  | error e => rw [slotted] at h; cases h
  | ok found =>
    obtain ⟨last, place⟩ := found
    obtain rfl := slot_place slotted
    simp only [slotted, bind, Except.bind] at h
    split at h
    · cases h
    · cases entry : t.get? (p.place home) with
      | none =>
        simp only [entry, Except.ok.injEq] at h
        exact ⟨by simp, false, h.symm⟩
      | some node =>
        cases node with
        | directory => simp [entry] at h
        | file old runnable =>
          simp only [entry, Except.ok.injEq] at h
          exact ⟨by simp, runnable, h.symm⟩

theorem remove_cases (t : Tree) (home : Location) (p : Path) :
    t.remove home p = t ∨
      t.isFile (p.place home) = true ∧ t.remove home p = t.erase (p.place home) := by
  unfold remove
  cases found : t.locate home p with
  | error e => exact .inl rfl
  | ok place =>
    obtain rfl := locate_place found
    by_cases file : t.isFile (p.place home) = true
    · simp [file]
    · simp [file]

theorem remove_spares {touched : Location → Prop} (hit : touched (p.place home)) :
    t.Spares touched (t.remove home p) := by
  rcases t.remove_cases home p with same | ⟨file, gone⟩
  · rw [same]
    exact .refl touched t
  · rw [gone]
    exact .erase file hit

end Operations

end Tree

end ScriptCpp
