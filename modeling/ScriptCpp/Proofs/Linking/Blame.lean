import Mathlib
import ScriptCpp.Proofs.Linking.Retry

set_option autoImplicit false

namespace ScriptCpp

structure ModuleSource.Readable (source : ModuleSource) : Prop where
  resolved : ∀ {f : Path}, source.Resolved f → ∃ text, source.read f = .ok text
  entered : ∀ {path f : Path}, source.entry path = .ok f → ∃ text, source.read f = .ok text

theorem Program.ofText_position {text : String} {fault : Fault} (h : ofText text = .error fault) :
    ∃ position, fault.position? = some position := by
  unfold ofText at h
  split at h
  · next error _ => exact ⟨error.position, by rw [← Except.error.inj h]; rfl⟩
  · next tokens _ =>
    cases parsed : ofTokens tokens with
    | ok program => simp [parsed, Except.mapError] at h
    | error error =>
      rw [parsed] at h
      exact ⟨error.position, by rw [← Except.error.inj h]; rfl⟩

namespace Linking

/-- Why linking stopped, and what the notice of it holds. The statements `given` are to be linked, and
the statements of the files `taken` join them. -/
inductive Blames (source : ModuleSource) (given : List Pending) (taken : Path → Prop) (fault : Fault)
    (n : Notice) : Prop
  | unparsable {f : Path} {text : String} {position : Position} (met : taken f)
      (held : source.read f = .ok text) (refused : Program.ofText text = .error fault)
      (placed : fault.position? = some position) (file : n.file = f)
      (at_ : n.position? = some position)
  | missing {p : Pending} {spec : String} {tried : Path}
      (met : p ∈ given ∨ ∃ f, taken f ∧ p ∈ contents source f) (imports : p.stmt = .importFile spec)
      (absent : source.resolve spec p.base = .error tried)
      (cause : fault = .imported (.notFound spec) tried) (file : n.file = p.base.join ⟨spec⟩)
      (nowhere : n.position? = none)

def Reports (told : List Notice) (fault : Fault) (blame : Notice → Prop) : Prop :=
  ∃ warnings last, told = warnings ++ [last] ∧ (∀ n ∈ warnings, n.isError = false) ∧
    last.isError = true ∧ last.message = fault.message ∧ blame last

variable {source : ModuleSource} {V : PathSet} {f g : Path} {spec : String} {base : Path}
  {fault : Fault} {given todo rest : List Pending} {taken : Path → Prop} {n : Notice}
  {told notices : List Notice} {done : List Stmt}

theorem Blames.mono {given' : List Pending} {taken' : Path → Prop}
    (h : Blames source given taken fault n) (files : ∀ f, taken f → taken' f)
    (stmts : ∀ p ∈ given, p ∈ given' ∨ ∃ f, taken' f ∧ p ∈ contents source f) :
    Blames source given' taken' fault n := by
  cases h with
  | unparsable met held refused placed file at_ =>
    exact .unparsable (files _ met) held refused placed file at_
  | @missing p spec tried met imports absent cause file nowhere =>
    have still : p ∈ given' ∨ ∃ f, taken' f ∧ p ∈ contents source f := by
      rcases met with here | ⟨f, met, inside⟩
      · exact stmts p here
      · exact .inr ⟨f, files f met, inside⟩
    exact .missing still imports absent cause file nowhere

theorem Reports.mono {blame blame' : Notice → Prop} (h : Reports told fault blame)
    (weaker : ∀ n, blame n → blame' n) : Reports told fault blame' := by
  obtain ⟨warnings, last, split, mild, error, message, blamed⟩ := h
  exact ⟨warnings, last, split, mild, error, message, weaker last blamed⟩

theorem Reports.warned {blame : Notice → Prop} (mild : n.isError = false)
    (h : Reports told fault blame) : Reports (n :: told) fault blame := by
  obtain ⟨warnings, last, rfl, milds, rest⟩ := h
  exact ⟨n :: warnings, last, rfl, List.forall_mem_cons.mpr ⟨mild, milds⟩, rest⟩

theorem Reports.single {blame : Notice → Prop} (error : n.isError = true)
    (message : n.message = fault.message) (blamed : blame n) : Reports [n] fault blame :=
  ⟨[], n, rfl, List.forall_mem_nil _, error, message, blamed⟩

-- A file that has a text can only fail to load because that text is no program.
theorem Reports.unread (readable : ∃ text, source.read f = .ok text)
    (unread : load source f = (.error fault, told)) (met : taken f) :
    told = [.unparsable fault f] ∧ Reports told fault (Blames source given taken fault) := by
  obtain ⟨text, held⟩ := readable
  simp only [load, held] at unread
  cases refused : Program.ofText text with
  | ok program => simp [refused] at unread
  | error fault' =>
    obtain ⟨rfl, rfl⟩ : fault' = fault ∧ [.unparsable fault' f] = told := by simpa [refused] using unread
    obtain ⟨position, placed⟩ := Program.ofText_position refused
    exact ⟨rfl, .single rfl rfl (.unparsable met held refused placed rfl placed)⟩

theorem run_reports (distinct : source.Distinct) (readable : source.Readable)
    (failed : (run source V notices done todo).result = .error fault) :
    ∃ told, (run source V notices done todo).notices = notices.reverse ++ told ∧
      Reports told fault (Blames source todo (Reaches source V todo) fault) := by
  fun_induction run source V notices done todo with
  | case1 => cases failed
  | case2 V notices done base spec rest tried missing blamed =>
    obtain rfl : blamed = fault := Except.error.inj failed
    refine ⟨_, List.reverse_cons, .single rfl rfl ?_⟩
    exact .missing (.inl List.mem_cons_self) rfl missing rfl rfl rfl
  | case3 V notices done base spec rest g found seen ih =>
    obtain ⟨told, same, reports⟩ := ih failed
    refine ⟨.repeated spec g :: told, by simp [same], .warned rfl (reports.mono fun n blames => ?_)⟩
    refine blames.mono (fun f => (reaches_cons_repeated found seen).mpr) ?_
    exact fun p present => .inl (List.mem_cons_of_mem _ present)
  | case4 V notices done base spec rest g found fresh fault' told unread =>
    obtain rfl : fault' = fault := Except.error.inj failed
    have reached : Reaches source V (⟨base, .importFile spec⟩ :: rest) g :=
      .direct ((imports_cons_import found).mpr (.inl rfl)) (by simpa using fresh)
    obtain ⟨rfl, reports⟩ := Reports.unread (readable.resolved ⟨spec, base, found⟩) unread reached
    exact ⟨_, by simp, reports⟩
  | case5 V notices done base spec rest g found fresh program told loaded ih =>
    obtain ⟨told, same, reports⟩ := ih failed
    have read : (load source g).1 = .ok program := by rw [loaded]
    have reached : ∀ f, f = g ∨ Reaches source (V.insert g) (contents source g ++ rest) f →
        Reaches source V (⟨base, .importFile spec⟩ :: rest) f :=
      fun f => (reaches_cons_fresh distinct found (by simpa using fresh)).mpr
    rw [← contents_of_load read] at reports
    refine ⟨told, same, reports.mono fun n blames => blames.mono (fun f met => reached f (.inr met)) ?_⟩
    intro p present
    -- A statement of `g` is blamed as one of a file that is reached from here.
    rcases List.mem_append.mp present with inside | later
    · exact .inr ⟨g, reached g (.inl rfl), inside⟩
    · exact .inl (List.mem_cons_of_mem _ later)
  | case6 V notices done base s rest own ih =>
    obtain ⟨told, same, reports⟩ := ih failed
    refine ⟨told, same, reports.mono fun n blames => ?_⟩
    refine blames.mono (fun f => (reaches_cons_own own).mpr) ?_
    exact fun p present => .inl (List.mem_cons_of_mem _ present)

namespace Request

def opening (source : ModuleSource) : Request → List Pending
  | .imports program base => pending base program
  | .entry path => (source.entry path).toOption.elim [] (contents source)
  | .mark _ => []

def outset (source : ModuleSource) (V : PathSet) : Request → PathSet
  | .imports _ _ => V
  | .entry path => (source.entry path).toOption.elim V V.insert
  | .mark path => V.insert path

theorem opening_entry {path file : Path} (entered : source.entry path = .ok file) :
    (entry path).opening source = contents source file := by
  rw [opening, entered]
  rfl

theorem outset_entry {path file : Path} (entered : source.entry path = .ok file) :
    (entry path).outset source V = V.insert file := by
  rw [outset, entered]
  rfl

def Needs (source : ModuleSource) (V : PathSet) (r : Request) (f : Path) : Prop :=
  (∃ path, r = .entry path ∧ source.entry path = .ok f) ∨
    Reaches source (r.outset source V) (r.opening source) f

theorem reports (distinct : source.Distinct) (readable : source.Readable) {r : Request}
    (failed : (r.linked source V).result = .error fault) :
    (∃ path error, r = .entry path ∧ source.entry path = .error error ∧
        r.linked source V = ⟨.error (.source error), V, []⟩) ∨
      Reports (r.linked source V).notices fault
        (Blames source (r.opening source) (r.Needs source V) fault) := by
  cases r with
  | mark path => cases failed
  | imports program base =>
    obtain ⟨told, same, reports⟩ := run_reports distinct readable failed
    refine .inr (same ▸ reports.mono fun n blames => blames.mono (fun f => .inr) ?_)
    exact fun p present => .inl present
  | entry path =>
    rcases entry_cases source V path with
      ⟨error, entered, same⟩ | ⟨file, entered, ⟨fault', told, unread, same⟩ | ⟨program, loaded, same⟩⟩
    · exact .inl ⟨path, error, rfl, entered, same⟩
    · rw [same] at failed ⊢
      obtain rfl : fault' = fault := Except.error.inj failed
      exact .inr (Reports.unread (readable.entered entered) unread (.inl ⟨path, rfl, entered⟩)).2
    · rw [same] at failed ⊢
      obtain ⟨told, alike, reports⟩ := run_reports distinct readable failed
      rw [opening_entry entered, contents_of_load loaded]
      refine .inr (alike ▸ reports.mono fun n blames => blames.mono (fun f reached => .inr ?_) ?_)
      · rwa [opening_entry entered, outset_entry entered, contents_of_load loaded]
      · exact fun p present => .inl present

end Request

end Linking

end ScriptCpp
