import Mathlib
import ScriptCpp.Proofs.Files.Route
import ScriptCpp.Proofs.Linking.Blame

set_option autoImplicit false

namespace ScriptCpp

theorem Path.normalize_normalize (p : Path) : p.normalize.normalize = p.normalize := by
  apply normalize_eq_of_components
  rw [normalize_components_eq_iff, isAbsolute_normalize, route_normalize]
  simp

abbrev ModuleSource.ofFiles (files : List (Path × String)) : ModuleSource := (Shelf.ofList files).source

namespace Shelf

variable {files : List (Path × String)} {c p : Path} {text : String}

def LastPut (files : List (Path × String)) (c : Path) (text : String) : Prop :=
  ∃ before path after, files = before ++ (path, text) :: after ∧
    path.normalize.components = c.components ∧ ∀ f ∈ after, f.1.normalize.components ≠ c.components

theorem ofList_concat (files : List (Path × String)) (f : Path × String) :
    ofList (files ++ [f]) = (ofList files).insert f.1 f.2 := by
  simp [ofList]

theorem lastPut_concat_same {f : Path × String} (here : f.1.normalize.components = c.components) :
    LastPut (files ++ [f]) c text ↔ f.2 = text := by
  constructor
  · rintro ⟨before, path, after, split, -, later⟩
    rcases List.eq_nil_or_concat after with rfl | ⟨after, g, rfl⟩
    · obtain ⟨-, last⟩ := List.append_inj' split rfl
      exact congrArg Prod.snd (List.singleton_inj.mp last)
    · rw [List.concat_eq_append, ← List.cons_append, ← List.append_assoc] at split
      obtain ⟨-, last⟩ := List.append_inj' split rfl
      obtain rfl := List.singleton_inj.mp last
      exact absurd here (later f (by simp))
  · rintro rfl
    exact ⟨files, f.1, [], rfl, here, List.forall_mem_nil _⟩

theorem lastPut_concat_other {f : Path × String} (apart : f.1.normalize.components ≠ c.components) :
    LastPut (files ++ [f]) c text ↔ LastPut files c text := by
  constructor
  · rintro ⟨before, path, after, split, same, later⟩
    rcases List.eq_nil_or_concat after with rfl | ⟨after, g, rfl⟩
    · obtain ⟨-, last⟩ := List.append_inj' split rfl
      obtain rfl := List.singleton_inj.mp last
      exact absurd same apart
    · rw [List.concat_eq_append, ← List.cons_append, ← List.append_assoc] at split
      obtain ⟨rfl, -⟩ := List.append_inj' split rfl
      exact ⟨before, path, after, rfl, same, fun g present => later g (by simp [present])⟩
  · rintro ⟨before, path, after, rfl, same, later⟩
    refine ⟨before, path, after ++ [f], by simp, same, ?_⟩
    exact List.forall_mem_append.mpr ⟨later, List.forall_mem_singleton.mpr apart⟩

theorem get?_ofList : (ofList files).get? p = some text ↔ LastPut files p.normalize text := by
  induction files using List.reverseRecOn with
  | nil => simp [ofList, empty, get?, LastPut]
  | append_singleton files f ih =>
    rw [ofList_concat, get?_insert]
    split
    · next same => rw [lastPut_concat_same (congrArg Path.components same), Option.some_inj]
    · next other => rw [lastPut_concat_other (mt Path.normalize_eq_of_components other), ih]

theorem mem_paths_insert (s : Shelf) (p q : Path) (text : String) :
    p ∈ (s.insert q text).paths ↔ p = q.normalize ∨ p ∈ s.paths := by
  simp only [insert, paths, List.map_cons, List.mem_cons, List.mem_map, List.mem_filter,
    decide_eq_true_eq]
  constructor
  · rintro (first | ⟨f, ⟨old, -⟩, rfl⟩)
    · exact .inl first
    · exact .inr ⟨f, old, rfl⟩
  · rintro (first | ⟨f, old, rfl⟩)
    · exact .inl first
    · by_cases same : f.1 = q.normalize
      · exact .inl same
      · exact .inr ⟨f, ⟨old, same⟩, rfl⟩

theorem normalize_mem_paths_ofList :
    p.normalize ∈ (ofList files).paths ↔
      ∃ f ∈ files, f.1.normalize.components = p.normalize.components := by
  induction files using List.reverseRecOn with
  | nil => simp [ofList, empty, paths]
  | append_singleton files f ih =>
    rw [ofList_concat, mem_paths_insert, ih]
    have keys : p.normalize = f.1.normalize ↔ f.1.normalize.components = p.normalize.components :=
      ⟨fun same => by rw [same], fun same => (Path.normalize_eq_of_components same).symm⟩
    simp [keys, or_comm]

theorem lastPut_of_mem (h : ∃ f ∈ files, f.1.normalize.components = c.components) :
    ∃ text, LastPut files c text := by
  induction files using List.reverseRecOn with
  | nil => simp at h
  | append_singleton files f ih =>
    by_cases here : f.1.normalize.components = c.components
    · exact ⟨f.2, (lastPut_concat_same here).mpr rfl⟩
    · simp only [lastPut_concat_other here]
      exact ih (by simpa [here] using h)

structure Keeps (files : List (Path × String)) (c : Path) : Prop where
  normal : c.normalize = c
  last : ∃ text, LastPut files c text ∧ (ofList files).read c = .ok text

theorem keeps_normalize (h : p.normalize ∈ (ofList files).paths) : Keeps files p.normalize := by
  obtain ⟨text, last⟩ := lastPut_of_mem (normalize_mem_paths_ofList.mp h)
  have found : (ofList files).get? p.normalize = some text := by
    rw [get?_ofList, Path.normalize_normalize]
    exact last
  exact ⟨p.normalize_normalize, text, last, by rw [read, found]⟩

theorem entry_ok_iff {s : Shelf} : s.entry p = .ok c ↔ c = p.normalize ∧ p.normalize ∈ s.paths := by
  unfold entry
  split <;> simp_all [eq_comm]

theorem resolve_ok_iff {s : Shelf} {spec : String} {base : Path} :
    s.resolve spec base = .ok c ↔
      c = (base.join ⟨spec⟩).normalize ∧ (base.join ⟨spec⟩).normalize ∈ s.paths := by
  simp only [resolve]
  split <;> simp_all [eq_comm]

theorem ofFiles_readable (files : List (Path × String)) : (ModuleSource.ofFiles files).Readable where
  resolved := by
    rintro f ⟨spec, base, found⟩
    obtain ⟨rfl, listed⟩ := resolve_ok_iff.mp found
    obtain ⟨text, -, held⟩ := (keeps_normalize listed).last
    exact ⟨text, held⟩
  entered := by
    intro path f found
    obtain ⟨rfl, listed⟩ := entry_ok_iff.mp found
    obtain ⟨text, -, held⟩ := (keeps_normalize listed).last
    exact ⟨text, held⟩

/-- A shelf finds a path just if a text was put under its normal form, and reads the text that was put
there last. So no import fails because the file it means has no text. -/
theorem reads_what_it_finds (files : List (Path × String)) :
    (∀ path c, (ofList files).entry path = .ok c → c = path.normalize ∧ Keeps files c) ∧
    (∀ spec base c, (ofList files).resolve spec base = .ok c →
      c = (base.join ⟨spec⟩).normalize ∧ Keeps files c) ∧
    (∀ path, (∃ c, (ofList files).entry path = .ok c) ↔
      ∃ f ∈ files, f.1.normalize.components = path.normalize.components) ∧
    (∀ spec base, (∃ c, (ofList files).resolve spec base = .ok c) ↔
      ∃ f ∈ files, f.1.normalize.components = (base.join ⟨spec⟩).normalize.components) ∧
    (∀ p : Path, p.normalize.normalize = p.normalize) ∧
    ∀ V (r : Linking.Request) file,
      (r.linked (.ofFiles files) V).result ≠ .error (.imported .unlisted file) := by
  refine ⟨?_, ?_, ?_, ?_, Path.normalize_normalize, ?_⟩
  · intro path c found
    obtain ⟨rfl, listed⟩ := entry_ok_iff.mp found
    exact ⟨rfl, keeps_normalize listed⟩
  · intro spec base c found
    obtain ⟨rfl, listed⟩ := resolve_ok_iff.mp found
    exact ⟨rfl, keeps_normalize listed⟩
  · intro path
    simp only [entry_ok_iff, exists_eq_left, normalize_mem_paths_ofList]
  · intro spec base
    simp only [resolve_ok_iff, exists_eq_left, normalize_mem_paths_ofList]
  · intro V r file failed
    rcases r.reports (ofList files).source_distinct (ofFiles_readable files) failed with
      ⟨path, error, -, -, same⟩ | ⟨_, _, _, _, _, _, blames⟩
    · rw [same] at failed
      cases failed
    · cases blames with
      | unparsable _ _ _ placed => cases placed
      | missing _ _ _ cause => cases cause

-- Three texts under two places; the second one is put again, under another spelling.
def respelled : List (Path × String) :=
  [(⟨"/a"⟩, "x;"), (⟨"lib/../m"⟩, "y;"), (⟨"./m"⟩, "z;")]

theorem reads_what_it_finds_respelled :
    (ofList respelled).entry ⟨"m/."⟩ = .ok ⟨"m"⟩ ∧ (ofList respelled).resolve "../m" ⟨"src"⟩ = .ok ⟨"m"⟩ ∧
      (ofList respelled).read ⟨"m"⟩ = .ok "z;" ∧ Keeps respelled ⟨"m"⟩ ∧
      (⟨"m"⟩ : Path) = (Path.join ⟨"src"⟩ ⟨"../m"⟩).normalize := by
  have entered : (ofList respelled).entry ⟨"m/."⟩ = .ok ⟨"m"⟩ := by decide +kernel
  have found : (ofList respelled).resolve "../m" ⟨"src"⟩ = .ok ⟨"m"⟩ := by decide +kernel
  have held : (ofList respelled).read ⟨"m"⟩ = .ok "z;" := by decide +kernel
  obtain ⟨starts, means, -⟩ := reads_what_it_finds respelled
  exact ⟨entered, found, held, (starts _ _ entered).2, (means _ _ _ found).1⟩

end Shelf

end ScriptCpp
