import Mathlib
import ScriptCpp.Emission.SpecialForm

set_option autoImplicit false

namespace ScriptCpp

namespace Reading

variable {α β : Type} {args : List α} {reading : Reading}

theorem pick_eq (enough : reading.least ≤ args.length) : reading.pick args = .ok (reading.taken args) :=
  if_pos enough

theorem taken_map (f : α → β) : reading.taken (args.map f) = (reading.taken args).map f := by
  cases reading with
  | one | ifAny => simp [taken, Option.toList_map]
  | first => simp [taken, List.map_take]
  | all => rfl

theorem mem_of_mem_taken {a : α} (present : a ∈ reading.taken args) : a ∈ args := by
  cases reading with
  | one place | ifAny place =>
    rw [taken, Option.mem_toList] at present
    exact List.mem_of_getElem? present
  | first count => exact List.mem_of_mem_take present
  | all => exact present

end Reading

namespace SpecialForm

-- The arguments that a form writes, in the order in which it reads them.
def used {α : Type} (form : SpecialForm) (args : List α) : List α :=
  form.reads.flatMap (Reading.taken args)

section Used

variable {α β : Type} {form : SpecialForm} {args : List α}

theorem used_map (f : α → β) : form.used (args.map f) = (form.used args).map f := by
  rw [used, used, List.map_flatMap]
  exact List.flatMap_congr fun _ _ => Reading.taken_map f

theorem mem_of_mem_used {a : α} (present : a ∈ form.used args) : a ∈ args := by
  obtain ⟨reading, -, inside⟩ := List.mem_flatMap.mp present
  exact Reading.mem_of_mem_taken inside

theorem used_nil (none : form.reads = []) : form.used args = [] := by
  rw [used, none, List.flatMap_nil]

theorem used_single (first : form.reads = [.one 0]) (some : 0 < args.length) :
    (form.used args).length = 1 := by
  simp [used, first, Reading.taken, some]

end Used

variable {features : Features} {site : CallSite} {form : SpecialForm}

theorem mem_table_of_find? (found : find? features site = some form) :
    form ∈ table ∧ form.trigger features site = true :=
  ⟨List.mem_of_find?_eq_some found,
    List.find?_some (p := fun (row : SpecialForm) => row.trigger features site) found⟩

theorem of_find? {P : SpecialForm → Prop} (math : ∀ form ∈ mathForms, P form)
    (console : ∀ form ∈ consoleForms, P form) (dialog : ∀ form ∈ dialogForms, P form)
    (plain : ∀ form ∈ plainForms, P form) (list : ∀ form ∈ listForms, P form)
    (array : ∀ form ∈ arrayForms, P form) (string : ∀ form ∈ stringForms, P form)
    (server : ∀ form ∈ serverForms, P form) (stack : ∀ form ∈ stackForms, P form)
    (request : ∀ form ∈ requestForms, P form) (found : find? features site = some form) : P form := by
  have all : ∀ form ∈ table, P form := by
    simp only [table, List.forall_mem_append]
    exact ⟨⟨⟨⟨⟨⟨⟨⟨⟨math, console⟩, dialog⟩, plain⟩, list⟩, array⟩, string⟩, server⟩, stack⟩, request⟩
  exact all form (mem_table_of_find? found).1

theorem least_le_minArgs : ∀ form ∈ table, ∀ reading ∈ form.reads, reading.least ≤ form.minArgs := by
  decide

theorem method_of_receiver :
    ∀ form ∈ table, form.head = .receiver → form.trigger features site = true →
      ∃ name, site.method? = some name := by
  cases called : site.method? with
  | some name => exact fun _ _ _ _ => ⟨name, rfl⟩
  | none =>
    have uncalled : ∀ names, site.isMethod names = false := by simp [CallSite.isMethod, called]
    simp [table, mathForms, consoleForms, dialogForms, plainForms, listForms, arrayForms, stringForms,
      serverForms, stackForms, requestForms, helperForm, uncalled]

theorem receiver_of_method {name : String} (called : site.method? = some name) :
    ∃ object, site.receiver? = some object := by
  obtain ⟨callee, args⟩ := site
  cases callee with
  | member object _ => exact ⟨object, rfl⟩
  | _ => cases called

-- Where a form is found and has its arguments, what its text is made of is there.
theorem supplied_of_find? (found : find? features site = some form)
    (enough : form.minArgs ≤ site.args.length) :
    (∀ reading ∈ form.reads, reading.least ≤ site.args.length) ∧
      (form.head = .receiver → ∃ object, site.receiver? = some object) := by
  obtain ⟨listed, triggered⟩ := mem_table_of_find? found
  refine ⟨fun reading own => (least_le_minArgs form listed reading own).trans enough, fun kind => ?_⟩
  obtain ⟨name, called⟩ := method_of_receiver form listed kind triggered
  exact receiver_of_method called

end SpecialForm

end ScriptCpp
