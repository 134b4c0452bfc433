import Mathlib
import ScriptCpp.Proofs.Cpp.Atom

set_option autoImplicit false

namespace ScriptCpp.Cpp

/-!
Expressions of C++ over the atoms of a text: names, numbers, literals, calls, accesses, braced lists,
lambdas, operators, assignment and the conditional. What stands in a bracket is read as a part of its
own; only the inside of a lambda is left as it is. A text has at most one term.
-/

inductive Term where
  | leaf (spelling : List Char)
  | literal (body : List Char)
  | build (type : List Char) (items : List Term)
  | lambda (captures params body : List Segment)
  | call (callee : Term) (args : List Term)
  | index (object key : Term)
  | member (sign : List Char) (object : Term) (name : List Char)
  | minus (operand : Term)
  | cast (operand : Term)
  | binary (sign : List Char) (left right : Term)
  | assign (target value : Term)
  | choice (test consequent alternate : Term)

def ranks : List (List Char × Nat) :=
  [(['|', '|'], 1), (['&', '&'], 2), (['=', '='], 3), (['!', '='], 3),
    (['<'], 4), (['>'], 4), (['<', '='], 4), (['>', '='], 4), (['<', '<'], 5),
    (['+'], 6), (['-'], 6), (['*'], 7), (['/'], 7), (['%'], 7)]

def rank? (sign : List Char) : Option Nat := ranks.lookup sign

def separated (parts : List (List Atom)) : List Atom := [Atom.sign [',']].intercalate parts

/-- Levels, loosest first: assignment and conditional, the seven ranks of binary operators, what may
have a sign in front, accesses and calls, and what stands for itself. -/
inductive Reading : Nat → List Atom → Term → Prop
  | word (chars : List Char) : Reading 10 [.word chars] (.leaf chars)
  | number (chars : List Char) : Reading 10 [.lexeme (.number chars)] (.leaf chars)
  | literal (body : List Char) : Reading 10 [.literal body] (.literal body)
  | parentheses {inside : List Segment} {as : List Atom} {x : Term} (atoms : Atoms inside as)
      (inner : Reading 0 as x) : Reading 10 [.group '(' inside] x
  | build {type : List Char} {inside : List Segment} {parts : List (List Atom)} {xs : List Term}
      (atoms : Atoms inside (separated parts)) (same : parts.length = xs.length)
      (each : ∀ pair ∈ parts.zip xs, Reading 0 pair.1 pair.2) :
      Reading 10 [.word type, .group '\x7b' inside] (.build type xs)
  | lambda (captures params body : List Segment) :
      Reading 10 [.group '[' captures, .group '(' params, .group '\x7b' body]
        (.lambda captures params body)
  | call {as : List Atom} {f : Term} {inside : List Segment} {parts : List (List Atom)}
      {xs : List Term} (callee : Reading 9 as f) (atoms : Atoms inside (separated parts))
      (same : parts.length = xs.length) (each : ∀ pair ∈ parts.zip xs, Reading 0 pair.1 pair.2) :
      Reading 9 (as ++ [Atom.group '(' inside]) (.call f xs)
  | index {as bs : List Atom} {o k : Term} {inside : List Segment} (object : Reading 9 as o)
      (atoms : Atoms inside bs) (key : Reading 0 bs k) :
      Reading 9 (as ++ [Atom.group '[' inside]) (.index o k)
  | member {sign : List Char} {as : List Atom} {o : Term} (access : sign = ['.'] ∨ sign = ['-', '>'])
      (object : Reading 9 as o) (name : List Char) :
      Reading 9 (as ++ [Atom.sign sign, Atom.word name]) (.member sign o name)
  | minus {as : List Atom} {x : Term} (operand : Reading 8 as x) :
      Reading 8 (.sign ['-'] :: as) (.minus x)
  -- A bracket around the name of a type is a conversion where an operand follows.
  | cast {chars : List Char} {as : List Atom} {x : Term} (operand : Reading 8 (.word chars :: as) x) :
      Reading 8 (.group '(' ("double".toList.map .code) :: .word chars :: as) (.cast x)
  | binary {sign : List Char} {level : Nat} {as bs : List Atom} {x y : Term}
      (known : rank? sign = some level) (left : Reading level as x) (right : Reading (level + 1) bs y) :
      Reading level (as ++ Atom.sign sign :: bs) (.binary sign x y)
  | assign {as bs : List Atom} {x y : Term} (target : Reading 1 as x) (value : Reading 0 bs y) :
      Reading 0 (as ++ Atom.sign ['='] :: bs) (.assign x y)
  | choice {as bs cs : List Atom} {x y z : Term} (test : Reading 1 as x) (consequent : Reading 0 bs y)
      (alternate : Reading 0 cs z) :
      Reading 0 (as ++ Atom.sign ['?'] :: (bs ++ Atom.sign [':'] :: cs)) (.choice x y z)
  | tighter {level : Nat} {as : List Atom} {x : Term} (inside : level < 10)
      (h : Reading (level + 1) as x) : Reading level as x

variable {sign : List Char} {a b : Atom} {as bs cs : List Atom} {x y z : Term} {k l r level : Nat}

theorem rank?_bounds (known : rank? sign = some r) : 1 ≤ r ∧ r ≤ 7 := by
  have each : ∀ entry ∈ ranks, 1 ≤ entry.2 ∧ entry.2 ≤ 7 := by decide
  obtain ⟨before, after, split, -⟩ := List.lookup_eq_some_iff.mp known
  exact each (sign, r) (by simp [split])

theorem rank?_apart (known : rank? sign = some r) :
    sign ≠ ['='] ∧ sign ≠ ['?'] ∧ sign ≠ [':'] ∧ sign ≠ [','] := by
  refine ⟨?_, ?_, ?_, ?_⟩ <;> rintro rfl <;> cases known

theorem Reading.level_le (h : Reading k as x) : k ≤ 10 := by
  cases h with
  | binary known => exact (rank?_bounds known).2.trans (by omega)
  | tighter inside => exact inside.le
  | _ => omega

theorem Reading.loosen (h : Reading k as x) (le : l ≤ k) : Reading l as x := by
  induction k with
  | zero => rwa [Nat.le_zero.mp le]
  | succ k ih =>
    by_cases same : l = k + 1
    · rwa [same]
    · exact ih (.tighter h.level_le h) (by omega)

def Atom.ends : Atom → Bool
  | .lexeme (.sign _) => false
  | _ => true

def Atom.rank? : Atom → Option Nat
  | .lexeme (.sign sign) =>
      if sign = ['='] || sign = ['?'] || sign = [':'] then some 0 else Cpp.rank? sign
  | _ => none

theorem Atom.rank?_sign (known : Cpp.rank? sign = some r) : (Atom.sign sign).rank? = some r := by
  simp [Atom.rank?, rank?_apart known, known]

theorem Atom.of_rank? (ranked : a.rank? = some r) : a.ends = false ∧ r ≤ 7 := by
  cases a with
  | literal | group => cases ranked
  | lexeme l =>
    cases l with
    | word | number => cases ranked
    | sign s =>
      refine ⟨rfl, ?_⟩
      simp only [Atom.rank?] at ranked
      split at ranked
      · cases ranked
        omega
      · exact (rank?_bounds ranked).2

def Complete (as : List Atom) : Prop := ∃ b ∈ as.getLast?, b.ends = true

theorem Complete.append (h : Complete bs) (as : List Atom) : Complete (as ++ bs) := by
  obtain ⟨b, last, ends⟩ := h
  exact ⟨b, by simp_all [List.getLast?_append], ends⟩

theorem Complete.ne_nil (h : Complete as) : as ≠ [] := by
  rintro rfl
  obtain ⟨b, last, -⟩ := h
  cases last

-- A sign completes nothing, so what stands behind it does.
theorem Complete.behind (h : Complete (as ++ a :: bs)) (sign : a.ends = false) : Complete bs := by
  obtain ⟨b, last, ends⟩ := h
  rw [List.getLast?_append_of_ne_nil _ (List.cons_ne_nil a bs)] at last
  cases bs with
  | nil =>
    cases last
    cases sign.symm.trans ends
  | cons c bs => exact ⟨b, last, ends⟩

theorem Reading.complete (h : Reading k as x) : Complete as := by
  induction h with
  | word | number | literal | parentheses | build | lambda => exact ⟨_, rfl, rfl⟩
  | call | index | member => exact Complete.append ⟨_, rfl, rfl⟩ _
  | minus _ ih | cast _ ih => exact ih.append [_]
  | binary _ _ _ _ ih | assign _ _ _ ih => exact (ih.append [_]).append _
  | choice _ _ _ _ _ ih => exact (((ih.append [_]).append _).append [_]).append _
  | tighter _ _ ih => exact ih

def Occurs (r : Nat) (as : List Atom) : Prop :=
  ∃ before a after, as = before ++ a :: after ∧ Complete before ∧ a.rank? = some r

theorem Occurs.of_append (h : Occurs r (as ++ bs)) :
    Occurs r as ∨ (Complete as ∧ ∃ b ∈ bs.head?, b.rank? = some r) ∨ Occurs r bs := by
  obtain ⟨before, a, after, same, complete, ranked⟩ := h
  rcases List.append_eq_append_iff.mp same with ⟨gap, rfl, split⟩ | ⟨gap, rfl, split⟩
  · cases gap with
    | nil =>
      rw [List.append_nil] at complete
      exact .inr (.inl ⟨complete, a, by simp_all, ranked⟩)
    | cons c gap =>
      refine .inr (.inr ⟨c :: gap, a, after, split, ?_, ranked⟩)
      obtain ⟨b, last, ends⟩ := complete
      rw [List.getLast?_append_of_ne_nil _ (List.cons_ne_nil c gap)] at last
      exact ⟨b, last, ends⟩
  · cases gap with
    | nil =>
      rw [List.append_nil]
      obtain rfl : a :: after = bs := split
      exact .inr (.inl ⟨complete, a, rfl, ranked⟩)
    | cons c gap =>
      obtain ⟨rfl, -⟩ := List.cons.inj split
      exact .inl ⟨before, a, gap, rfl, complete, ranked⟩

theorem not_occurs_singleton : ¬ Occurs r [a] := by
  rintro ⟨before, b, after, same, complete, -⟩
  cases before with
  | nil => exact complete.ne_nil rfl
  | cons c before =>
    have := congrArg List.length same
    simp at this

theorem Occurs.of_cons (h : Occurs r (a :: as)) :
    (a.ends = true ∧ ∃ b ∈ as.head?, b.rank? = some r) ∨ Occurs r as := by
  have split : Occurs r ([a] ++ as) := h
  rcases split.of_append with here | ⟨⟨b, last, ends⟩, next⟩ | later
  · exact absurd here not_occurs_singleton
  · cases last
    exact .inl ⟨ends, next⟩
  · exact .inr later

-- Where a sign of some rank stands outside all brackets, the level is no tighter than that.
theorem Reading.le_of_occurs (h : Reading k as x) (occurs : Occurs r as) : k ≤ r := by
  induction h with
  | word | number | literal | parentheses => exact absurd occurs not_occurs_singleton
  | build =>
    rcases occurs.of_cons with ⟨-, b, first, ranked⟩ | later
    · cases first
      cases ranked
    · exact absurd later not_occurs_singleton
  | lambda =>
    rcases occurs.of_cons with ⟨-, b, first, ranked⟩ | later
    · cases first
      cases ranked
    rcases later.of_cons with ⟨-, b, first, ranked⟩ | last
    · cases first
      cases ranked
    · exact absurd last not_occurs_singleton
  | call _ _ _ _ ih | index _ _ _ ih =>
    rcases occurs.of_append with inside | ⟨-, b, first, ranked⟩ | last
    · exact ih inside
    · cases first
      cases ranked
    · exact absurd last not_occurs_singleton
  | member access _ _ ih =>
    rcases occurs.of_append with inside | ⟨-, b, first, ranked⟩ | last
    · exact ih inside
    · cases first
      rcases access with rfl | rfl <;> cases ranked
    rcases last.of_cons with ⟨ends, -⟩ | last
    · cases ends
    · exact absurd last not_occurs_singleton
  | minus _ ih =>
    rcases occurs.of_cons with ⟨ends, -⟩ | later
    · cases ends
    · exact ih later
  | cast _ ih =>
    rcases occurs.of_cons with ⟨-, b, first, ranked⟩ | later
    · cases first
      cases ranked
    · exact ih later
  | binary known _ _ left right =>
    rcases occurs.of_append with inside | ⟨-, b, first, ranked⟩ | behind
    · exact left inside
    · cases first
      rw [Atom.rank?_sign known] at ranked
      cases ranked
      exact le_rfl
    rcases behind.of_cons with ⟨ends, -⟩ | later
    · cases ends
    · exact (Nat.le_succ _).trans (right later)
  | assign | choice => exact Nat.zero_le _
  | tighter _ _ ih => exact (Nat.le_succ _).trans (ih occurs)

inductive Joined : List Atom → Term → Prop
  | binary {sign : List Char} {level : Nat} {as bs : List Atom} {x y : Term}
      (known : rank? sign = some level) (left : Reading level as x) (right : Reading (level + 1) bs y) :
      Joined (as ++ Atom.sign sign :: bs) (.binary sign x y)
  | assign {as bs : List Atom} {x y : Term} (target : Reading 1 as x) (value : Reading 0 bs y) :
      Joined (as ++ Atom.sign ['='] :: bs) (.assign x y)
  | choice {as bs cs : List Atom} {x y z : Term} (test : Reading 1 as x) (consequent : Reading 0 bs y)
      (alternate : Reading 0 cs z) :
      Joined (as ++ Atom.sign ['?'] :: (bs ++ Atom.sign [':'] :: cs)) (.choice x y z)

-- Induction over the operations that have an operand on either side; the others are one case.
theorem Reading.operations
    {motive : (k : Nat) → (as : List Atom) → (x : Term) → Reading k as x → Prop}
    (single : ∀ k as x (_ : 8 ≤ k) (h : Reading k as x), motive k as x h)
    (binary : ∀ sign level as bs x y (known : rank? sign = some level) (left : Reading level as x)
      (right : Reading (level + 1) bs y), motive level as x left → motive (level + 1) bs y right →
        motive level (as ++ Atom.sign sign :: bs) (.binary sign x y) (.binary known left right))
    (assign : ∀ as bs x y (target : Reading 1 as x) (value : Reading 0 bs y), motive 1 as x target →
      motive 0 bs y value → motive 0 (as ++ Atom.sign ['='] :: bs) (.assign x y) (.assign target value))
    (choice : ∀ as bs cs x y z (test : Reading 1 as x) (consequent : Reading 0 bs y)
      (alternate : Reading 0 cs z), motive 1 as x test → motive 0 bs y consequent →
        motive 0 cs z alternate → motive 0 (as ++ Atom.sign ['?'] :: (bs ++ Atom.sign [':'] :: cs))
          (.choice x y z) (.choice test consequent alternate))
    (tighter : ∀ level as x (inside : level < 10) (h : Reading (level + 1) as x),
      motive (level + 1) as x h → motive level as x (.tighter inside h))
    {k : Nat} {as : List Atom} {x : Term} (h : Reading k as x) : motive k as x h := by
  induction h with
  | word | number | literal | parentheses | build | lambda => exact single _ _ _ (by omega) _
  | call | index | member | minus | cast => exact single _ _ _ (by omega) _
  | binary known left right ihLeft ihRight =>
    exact binary _ _ _ _ _ _ known left right ihLeft ihRight
  | assign target value ihTarget ihValue => exact assign _ _ _ _ target value ihTarget ihValue
  | choice test consequent alternate ihTest ihConsequent ihAlternate =>
    exact choice _ _ _ _ _ _ test consequent alternate ihTest ihConsequent ihAlternate
  | tighter inside h ih => exact tighter _ _ _ inside h ih

theorem Reading.joined_or_single (h : Reading k as x) : Joined as x ∨ Reading 8 as x := by
  induction h using Reading.operations with
  | single _ _ _ tight h => exact .inr (h.loosen tight)
  | binary _ _ _ _ _ _ known left right => exact .inl (.binary known left right)
  | assign _ _ _ _ target value => exact .inl (.assign target value)
  | choice _ _ _ _ _ _ test consequent alternate => exact .inl (.choice test consequent alternate)
  | tighter _ _ _ _ _ ih => exact ih

/-- The sign at which the loosest operation splits the atoms: those of the lowest rank take the last of
their kind, assignments and conditionals the first. -/
structure Divided (whole left : List Atom) (a : Atom) (right : List Atom) (r : Nat) : Prop where
  split : whole = left ++ a :: right
  complete : Complete left
  ranked : a.rank? = some r
  before : ∀ q, Occurs q left → max r 1 ≤ q
  behind : ∀ q, Occurs q right → (if r = 0 then 0 else r + 1) ≤ q

theorem Divided.not_inside {whole left more right other : List Atom} {q : Nat}
    (first : Divided whole left a right r) (second : Divided whole (left ++ a :: more) b other q) :
    False := by
  have sign := Atom.of_rank? first.ranked
  have early : max q 1 ≤ r := second.before r ⟨left, a, more, rfl, first.complete, first.ranked⟩
  have rest : right = more ++ b :: other := by
    have same := first.split.symm.trans second.split
    simpa using same
  have late := first.behind q ⟨more, b, other, rest, second.complete.behind sign.1, second.ranked⟩
  split at late <;> omega

theorem Divided.unique {whole left right others behind : List Atom} {q : Nat}
    (first : Divided whole left a right r) (second : Divided whole others b behind q) :
    left = others ∧ a = b ∧ right = behind := by
  rcases List.append_eq_append_iff.mp (first.split.symm.trans second.split) with
    ⟨gap, rfl, split⟩ | ⟨gap, rfl, split⟩
  · cases gap with
    | nil =>
      obtain ⟨rfl, rfl⟩ := List.cons.inj split
      exact ⟨(List.append_nil _).symm, rfl, rfl⟩
    | cons c gap =>
      obtain ⟨rfl, -⟩ := List.cons.inj split
      exact (first.not_inside second).elim
  · cases gap with
    | nil =>
      obtain ⟨rfl, rfl⟩ := List.cons.inj split
      exact ⟨List.append_nil _, rfl, rfl⟩
    | cons c gap =>
      obtain ⟨rfl, -⟩ := List.cons.inj split
      exact (second.not_inside first).elim

theorem divided_binary (known : rank? sign = some level) (left : Reading level as x)
    (right : Reading (level + 1) bs y) :
    Divided (as ++ Atom.sign sign :: bs) as (Atom.sign sign) bs level := by
  have bounds := rank?_bounds known
  refine ⟨rfl, left.complete, Atom.rank?_sign known, fun q occurs => ?_, fun q occurs => ?_⟩
  · have := left.le_of_occurs occurs
    omega
  · rw [if_neg (by omega)]
    exact right.le_of_occurs occurs

theorem divided_loosest (ranked : a.rank? = some 0) (left : Reading 1 as x) (right : List Atom) :
    Divided (as ++ a :: right) as a right 0 :=
  ⟨rfl, left.complete, ranked, fun _ occurs => left.le_of_occurs occurs, fun _ _ => Nat.zero_le _⟩

theorem Joined.divided (h : Joined as x) : ∃ left a right r, Divided as left a right r := by
  cases h with
  | binary known left right => exact ⟨_, _, _, _, divided_binary known left right⟩
  | assign target value => exact ⟨_, _, _, _, divided_loosest rfl target _⟩
  | choice test _ _ => exact ⟨_, _, _, _, divided_loosest rfl test _⟩

theorem Joined.not_single (h : Joined as x) : ¬ Reading 8 as y := by
  intro single
  obtain ⟨left, a, right, r, divided⟩ := h.divided
  have := single.le_of_occurs ⟨left, a, right, divided.split, divided.complete, divided.ranked⟩
  have := (Atom.of_rank? divided.ranked).2
  omega

-- Any reading splits the atoms at the same sign, and the sign says how.
theorem Divided.cases {whole left right : List Atom} (divided : Divided whole left a right r)
    (h : Reading k whole x) :
    (∃ sign level y z, a = .sign sign ∧ rank? sign = some level ∧ Reading level left y ∧
      Reading (level + 1) right z ∧ x = .binary sign y z) ∨
    (∃ y z, a = .sign ['='] ∧ Reading 1 left y ∧ Reading 0 right z ∧ x = .assign y z) ∨
    ∃ bs cs y z w, a = Atom.sign ['?'] ∧ right = bs ++ Atom.sign [':'] :: cs ∧ Reading 1 left y ∧
      Reading 0 bs z ∧ Reading 0 cs w ∧ x = .choice y z w := by
  rcases h.joined_or_single with joined | single
  · cases joined with
    | binary known before behind =>
      obtain ⟨rfl, rfl, rfl⟩ := divided.unique (divided_binary known before behind)
      exact .inl ⟨_, _, _, _, rfl, known, before, behind, rfl⟩
    | assign before behind =>
      obtain ⟨rfl, rfl, rfl⟩ := divided.unique (divided_loosest rfl before _)
      exact .inr (.inl ⟨_, _, rfl, before, behind, rfl⟩)
    | choice before between behind =>
      obtain ⟨rfl, rfl, rfl⟩ := divided.unique (divided_loosest rfl before _)
      exact .inr (.inr ⟨_, _, _, _, _, rfl, rfl, before, between, behind, rfl⟩)
  · have := single.le_of_occurs ⟨left, a, right, divided.split, divided.complete, divided.ranked⟩
    have := (Atom.of_rank? divided.ranked).2
    omega

/-- How many conditionals are open behind an atom, if each colon closes one. -/
def tally (n : Nat) (a : Atom) : Option Nat :=
  if a = .sign ['?'] then some (n + 1)
  else if a = .sign [':'] then (if n = 0 then none else some (n - 1))
  else some n

theorem tally_frame {m n : Nat} (h : tally n a = some m) (outer : Nat) :
    tally (n + outer) a = some (m + outer) := by
  unfold tally at h ⊢
  split_ifs at h ⊢ <;> simp at h ⊢ <;> omega

theorem tallied_frame {m n : Nat} (h : as.foldlM tally n = some m) (outer : Nat) :
    as.foldlM tally (n + outer) = some (m + outer) := by
  induction as generalizing n with
  | nil => simpa using h
  | cons a as ih =>
    rw [List.foldlM_cons] at h ⊢
    obtain ⟨next, first, later⟩ := Option.bind_eq_some_iff.mp h
    rw [tally_frame first outer]
    exact ih later

theorem tallied_append (first : as.foldlM tally 0 = some 0) (second : bs.foldlM tally 0 = some 0) :
    (as ++ bs).foldlM tally 0 = some 0 := by
  rw [List.foldlM_append, first]
  exact second

theorem tallied_cons (first : tally 0 a = some 0) (second : as.foldlM tally 0 = some 0) :
    (a :: as).foldlM tally 0 = some 0 := by
  rw [List.foldlM_cons, first]
  exact second

theorem tally_ranked (known : rank? sign = some r) (n : Nat) : tally n (.sign sign) = some n := by
  simp [tally, rank?_apart known]

-- Every conditional in a reading has both its signs.
theorem Reading.tallied (h : Reading k as x) : as.foldlM tally 0 = some 0 := by
  induction h with
  | word | number | literal | parentheses | build | lambda => simp [tally]
  | call _ _ _ _ ih | index _ _ _ ih => exact tallied_append ih (by simp [tally])
  | member access _ _ ih =>
    refine tallied_append ih ?_
    rcases access with rfl | rfl <;> simp [tally]
  | minus _ ih | cast _ ih => exact tallied_cons (by simp [tally]) ih
  | binary known _ _ left right =>
    exact tallied_append left (tallied_cons (tally_ranked known 0) right)
  | assign _ _ target value =>
    exact tallied_append target (tallied_cons (by simp [tally]) value)
  | choice _ _ _ test consequent alternate =>
    refine tallied_append test ?_
    have inner := tallied_frame consequent 1
    rw [List.foldlM_cons, tally, if_pos rfl]
    simp only [Option.bind_eq_bind, Option.bind_some, List.foldlM_append, inner, List.foldlM_cons]
    simpa [tally] using alternate
  | tighter _ _ ih => exact ih

theorem Reading.no_comma (h : Reading k as x) : Atom.sign [','] ∉ as := by
  induction h with
  | binary known _ _ left right =>
    simp [left, right, (rank?_apart known).2.2.2.symm]
  | member access _ _ ih => rcases access with rfl | rfl <;> simp [ih]
  | _ => simp_all

theorem separated_inj {parts others : List (List Atom)}
    (first : ∀ part ∈ parts, part ≠ [] ∧ Atom.sign [','] ∉ part)
    (second : ∀ part ∈ others, part ≠ [] ∧ Atom.sign [','] ∉ part)
    (same : separated parts = separated others) : parts = others := by
  have nonempty {part : List Atom} {rest : List (List Atom)} (some : part ≠ []) :
      separated (part :: rest) ≠ [] := by
    cases rest <;> simp [separated, List.intercalate, some]
  cases parts with
  | nil =>
    cases others with
    | nil => rfl
    | cons part rest => exact absurd same.symm (nonempty (second part List.mem_cons_self).1)
  | cons part rest =>
    cases others with
    | nil => exact absurd same (nonempty (first part List.mem_cons_self).1)
    | cons other later =>
      have left := List.splitOn_intercalate (Atom.sign [',']) (fun p among => (first p among).2)
        (List.cons_ne_nil part rest)
      have right := List.splitOn_intercalate (Atom.sign [',']) (fun p among => (second p among).2)
        (List.cons_ne_nil other later)
      rw [← left, ← right]
      exact congrArg _ same

inductive Finish : List Atom → Atom → Term → Prop
  | word (chars : List Char) : Finish [] (.word chars) (.leaf chars)
  | number (chars : List Char) : Finish [] (.lexeme (.number chars)) (.leaf chars)
  | literal (body : List Char) : Finish [] (.literal body) (.literal body)
  | parentheses {inside : List Segment} {as : List Atom} {x : Term} (atoms : Atoms inside as)
      (inner : Reading 0 as x) : Finish [] (.group '(' inside) x
  | build {type : List Char} {inside : List Segment} {parts : List (List Atom)} {xs : List Term}
      (atoms : Atoms inside (separated parts)) (same : parts.length = xs.length)
      (each : ∀ pair ∈ parts.zip xs, Reading 0 pair.1 pair.2) :
      Finish [.word type] (.group '\x7b' inside) (.build type xs)
  | lambda (captures params body : List Segment) :
      Finish [.group '[' captures, .group '(' params] (.group '\x7b' body) (.lambda captures params body)
  | call {as : List Atom} {f : Term} {inside : List Segment} {parts : List (List Atom)}
      {xs : List Term} (callee : Reading 9 as f) (atoms : Atoms inside (separated parts))
      (same : parts.length = xs.length) (each : ∀ pair ∈ parts.zip xs, Reading 0 pair.1 pair.2) :
      Finish as (.group '(' inside) (.call f xs)
  | index {as bs : List Atom} {o k : Term} {inside : List Segment} (object : Reading 9 as o)
      (atoms : Atoms inside bs) (key : Reading 0 bs k) : Finish as (.group '[' inside) (.index o k)
  | member {sign : List Char} {as whole : List Atom} {o : Term} (object : Reading 9 as o)
      (name : List Char) (split : whole = as ++ [Atom.sign sign]) :
      Finish whole (.word name) (.member sign o name)

theorem Reading.finish (h : Reading 9 as x) : ∃ before a, as = before ++ [a] ∧ Finish before a x := by
  cases h with
  | call callee atoms same each => exact ⟨_, _, rfl, .call callee atoms same each⟩
  | index object atoms key => exact ⟨_, _, rfl, .index object atoms key⟩
  | member _ object name => exact ⟨_, _, by simp, .member object name rfl⟩
  | binary known => exact absurd (rank?_bounds known).2 (by omega)
  | tighter _ h =>
    cases h with
    | word chars => exact ⟨[], _, rfl, .word chars⟩
    | number chars => exact ⟨[], _, rfl, .number chars⟩
    | literal body => exact ⟨[], _, rfl, .literal body⟩
    | parentheses atoms inner => exact ⟨[], _, rfl, .parentheses atoms inner⟩
    | build atoms same each => exact ⟨[_], _, rfl, .build atoms same each⟩
    | lambda captures params body => exact ⟨[_, _], _, rfl, .lambda captures params body⟩
    | binary known => exact absurd (rank?_bounds known).2 (by omega)
    | tighter inside => exact absurd inside (by omega)

-- What stands in front of an access is no sign, and no operand of a conversion.
theorem Reading.starts (h : Reading 9 as x) : ∃ a rest, as = a :: rest ∧ a.ends = true ∧
    ∀ chars, rest.head? ≠ some (.word chars) := by
  have further {bs : List Atom} {b : Atom} {more : List Atom} (plain : ∀ chars, b ≠ .word chars)
      (h : ∃ a rest, bs = a :: rest ∧ a.ends = true ∧ ∀ chars, rest.head? ≠ some (.word chars)) :
      ∃ a rest, bs ++ b :: more = a :: rest ∧ a.ends = true ∧
        ∀ chars, rest.head? ≠ some (.word chars) := by
    obtain ⟨a, rest, rfl, ends, second⟩ := h
    refine ⟨a, rest ++ b :: more, rfl, ends, fun chars => ?_⟩
    cases rest with
    | nil => simpa using plain chars
    | cons c rest => exact second chars
  generalize level : 9 = k at h
  have tight : 9 ≤ k := level.le
  clear level
  induction h with
  | word | number | literal | parentheses | build | lambda => exact ⟨_, _, rfl, rfl, by simp⟩
  | call _ _ _ _ ih | index _ _ _ ih => exact further (by simp) (ih le_rfl)
  | member _ _ _ ih => exact further (by simp) (ih le_rfl)
  | binary known => exact absurd (rank?_bounds known).2 (by omega)
  | minus | cast | assign | choice => omega
  | tighter _ _ ih => exact ih (by omega)

theorem Reading.single (h : Reading 8 as x) (other : Reading k as y) : Reading 8 as y :=
  other.joined_or_single.resolve_left fun joined => joined.not_single h

theorem Reading.single_cases (h : Reading 8 as x) :
    (∃ bs y, as = .sign ['-'] :: bs ∧ x = .minus y ∧ Reading 8 bs y) ∨
    (∃ chars bs y, as = .group '(' ("double".toList.map .code) :: .word chars :: bs ∧ x = .cast y ∧
      Reading 8 (.word chars :: bs) y) ∨
    Reading 9 as x := by
  cases h with
  | minus operand => exact .inl ⟨_, _, rfl, rfl, operand⟩
  | cast operand => exact .inr (.inl ⟨_, _, _, rfl, rfl, operand⟩)
  | binary known => exact absurd (rank?_bounds known).2 (by omega)
  | tighter _ h => exact .inr (.inr h)

theorem Reading.accessed (h : Reading 9 as x) (other : Reading k as y) : Reading 9 as y := by
  obtain ⟨a, rest, rfl, ends, second⟩ := h.starts
  rcases ((h.loosen (by omega)).single other).single_cases with
    ⟨bs, z, split, -⟩ | ⟨chars, bs, z, split, -⟩ | tight
  · obtain ⟨rfl, -⟩ := List.cons.inj split
    cases ends
  · obtain ⟨-, rfl⟩ := List.cons.inj split
    exact absurd rfl (second chars)
  · exact tight

theorem args_unique {parts : List (List Atom)} {xs ys : List Term} (long : parts.length = xs.length)
    (same : parts.length = ys.length)
    (first : ∀ pair ∈ parts.zip xs, ∀ y, Reading 0 pair.1 y → pair.2 = y)
    (second : ∀ pair ∈ parts.zip ys, Reading 0 pair.1 pair.2) : xs = ys := by
  induction parts generalizing xs ys with
  | nil => rw [List.eq_nil_of_length_eq_zero long.symm, List.eq_nil_of_length_eq_zero same.symm]
  | cons part parts ih =>
    cases xs with
    | nil => cases long
    | cons x xs =>
      cases ys with
      | nil => cases same
      | cons y ys =>
        simp only [List.zip_cons_cons, List.forall_mem_cons] at first second
        rw [first.1 y second.1, ih (Nat.succ.inj long) (Nat.succ.inj same) first.2 second.2]

theorem parts_unique {inside : List Segment} {parts others : List (List Atom)} {xs ys : List Term}
    (atoms : Atoms inside (separated parts)) (also : Atoms inside (separated others))
    (long : parts.length = xs.length) (same : others.length = ys.length)
    (first : ∀ pair ∈ parts.zip xs, Reading 0 pair.1 pair.2)
    (second : ∀ pair ∈ others.zip ys, Reading 0 pair.1 pair.2) : parts = others := by
  have fit {parts : List (List Atom)} {xs : List Term} (long : parts.length = xs.length)
      (each : ∀ pair ∈ parts.zip xs, Reading 0 pair.1 pair.2) :
      ∀ part ∈ parts, part ≠ [] ∧ Atom.sign [','] ∉ part := by
    intro part among
    rw [← List.map_fst_zip long.le] at among
    obtain ⟨pair, present, rfl⟩ := List.mem_map.mp among
    exact ⟨(each pair present).complete.ne_nil, (each pair present).no_comma⟩
  exact separated_inj (fit long first) (fit same second) (atoms_unique atoms also)

theorem Finish.of_accessed (before : List Atom) (a : Atom) (h : Reading 9 (before ++ [a]) x)
    (other : Reading k (before ++ [a]) y) : Finish before a y := by
  obtain ⟨others, b, split, finish⟩ := (h.accessed other).finish
  obtain ⟨rfl, same⟩ := List.append_inj' split rfl
  obtain rfl := List.singleton_inj.mp same
  exact finish

theorem reading_unique (first : Reading k as x) (second : Reading l as y) : x = y := by
  -- By the first reading. Its last step says where the second can split the atoms.
  induction first generalizing l y with
  | word chars =>
    cases Finish.of_accessed [] _ ((Reading.word chars).loosen (by omega)) second with
    | word => rfl
    | member _ _ split => simp at split
  | number chars =>
    cases Finish.of_accessed [] _ ((Reading.number chars).loosen (by omega)) second with
    | number => rfl
  | literal body =>
    cases Finish.of_accessed [] _ ((Reading.literal body).loosen (by omega)) second with
    | literal => rfl
  | parentheses atoms inner ih =>
    cases Finish.of_accessed [] _ ((Reading.parentheses atoms inner).loosen (by omega)) second with
    | parentheses also other =>
      obtain rfl := atoms_unique atoms also
      exact ih other
    | call callee => exact absurd rfl callee.complete.ne_nil
  | build atoms same each ih =>
    cases Finish.of_accessed [_] _ ((Reading.build atoms same each).loosen (by omega)) second with
    | build also long others =>
      obtain rfl := parts_unique atoms also same long each others
      rw [args_unique same long (fun pair among y read => ih pair among read) others]
  | lambda captures params body =>
    cases Finish.of_accessed [_, _] _ ((Reading.lambda captures params body).loosen (by omega)) second with
    | lambda => rfl
  | call callee atoms same each ih ihs =>
    cases Finish.of_accessed _ _ (.call callee atoms same each) second with
    | parentheses => exact absurd rfl callee.complete.ne_nil
    | call other also long others =>
      obtain rfl := parts_unique atoms also same long each others
      rw [ih other, args_unique same long (fun pair among y read => ihs pair among read) others]
  | index object atoms key ih ihKey =>
    cases Finish.of_accessed _ _ (.index object atoms key) second with
    | index other also chosen =>
      obtain rfl := atoms_unique atoms also
      rw [ih other, ihKey chosen]
  | @member sign as o access object name ih =>
    obtain ⟨before, same⟩ : ∃ before, before = as ++ [Atom.sign sign] := ⟨_, rfl⟩
    have whole : as ++ [Atom.sign sign, Atom.word name] = before ++ [Atom.word name] := by simp [same]
    have first := Reading.member access object name
    rw [whole] at first second
    cases Finish.of_accessed before _ first second with
    | word => simp at same
    | member other _ split =>
      obtain ⟨rfl, signs⟩ := List.append_inj' (split.symm.trans same) rfl
      cases signs
      rw [ih other]
  | minus operand ih =>
    rcases ((Reading.minus operand).single second).single_cases with
      ⟨bs, z, split, rfl, other⟩ | ⟨_, _, _, split, -⟩ | tight
    · obtain ⟨-, rfl⟩ := List.cons.inj split
      rw [ih other]
    · cases split
    · obtain ⟨a, rest, split, ends, -⟩ := tight.starts
      cases split
      cases ends
  | cast operand ih =>
    rcases ((Reading.cast operand).single second).single_cases with
      ⟨_, _, split, -⟩ | ⟨chars, bs, z, split, rfl, other⟩ | tight
    · cases split
    · cases split
      rw [ih other]
    · obtain ⟨a, rest, split, -, words⟩ := tight.starts
      cases split
      exact absurd rfl (words _)
  | binary known left right ihLeft ihRight =>
    rcases (divided_binary known left right).cases second with
      ⟨sign, level, u, v, same, also, before, behind, rfl⟩ | ⟨u, v, same, -⟩ | ⟨_, _, _, _, _, same, -⟩
    · cases same
      rw [ihLeft before, ihRight behind]
    · cases same
      cases known
    · cases same
      cases known
  | assign target value ihTarget ihValue =>
    rcases (divided_loosest rfl target _).cases second with
      ⟨sign, level, u, v, same, also, -⟩ | ⟨u, v, -, before, behind, rfl⟩ | ⟨_, _, _, _, _, same, -⟩
    · cases same
      cases also
    · rw [ihTarget before, ihValue behind]
    · cases same
  | choice test consequent alternate ihTest ihConsequent ihAlternate =>
    rcases (divided_loosest rfl test _).cases second with
      ⟨sign, level, u, v, same, also, -⟩ | ⟨u, v, same, -⟩ |
        ⟨bs, cs, u, v, w, -, split, asked, yes, no, rfl⟩
    · cases same
      cases also
    · cases same
    · have stuck : tally 0 (.sign [':']) = none := by decide
      obtain ⟨rfl, -, rfl⟩ := foldlM_split_unique consequent.tallied yes.tallied stuck stuck split
      rw [ihTest asked, ihConsequent yes, ihAlternate no]
  | tighter _ _ ih => exact ih second

def Term.isJoined : Term → Bool
  | .binary .. | .assign .. | .choice .. => true
  | _ => false

-- What goes on with a sign takes all that stands before it from level `g` on, else the last operand.
theorem Reading.attach {g : Nat} {tail : List Atom}
    (grips : ∀ as x, Reading g as x → ∃ z, Reading r (as ++ tail) z ∧ z.isJoined = true) (le : r ≤ g)
    (tight : g ≤ max r 1) (few : r ≤ 7) (h : Reading k as x) :
    ∃ z, Reading (min k r) (as ++ tail) z ∧ z.isJoined = true := by
  have all {k : Nat} {as : List Atom} {x : Term} (h : Reading k as x) (enough : g ≤ k) :
      ∃ z, Reading (min k r) (as ++ tail) z ∧ z.isJoined = true := by
    rw [min_eq_right (by omega)]
    exact grips as x (h.loosen enough)
  induction h using Reading.operations with
  | single k as x single h => exact all h (by omega)
  | binary sign level as bs x y known left right _ ih =>
    by_cases enough : g ≤ level
    · exact all (.binary known left right) enough
    · have bounds := rank?_bounds known
      obtain ⟨w, read, -⟩ := ih
      rw [min_eq_left (by omega)] at read ⊢
      rw [List.append_assoc]
      exact ⟨_, .binary known left read, rfl⟩
  | assign as bs x y target value _ ih =>
    obtain ⟨w, read, -⟩ := ih
    rw [Nat.zero_min] at read ⊢
    rw [List.append_assoc]
    exact ⟨_, .assign target read, rfl⟩
  | choice as bs cs x y z test consequent alternate _ _ ih =>
    obtain ⟨w, read, -⟩ := ih
    rw [Nat.zero_min] at read ⊢
    have whole := Reading.choice test consequent read
    exact ⟨.choice x y w, by simpa using whole, rfl⟩
  | tighter level as x inside h ih =>
    obtain ⟨w, read, joined⟩ := ih
    by_cases enough : r ≤ level
    · rw [min_eq_right (by omega)] at read ⊢
      exact ⟨w, read, joined⟩
    · rw [min_eq_left (by omega)] at read ⊢
      exact ⟨w, .tighter inside read, joined⟩

theorem Reading.join (left : Reading k as x) (known : sign = ['='] ∨ (rank? sign).isSome = true)
    (right : Reading 8 bs y) :
    ∃ z, Reading 0 (as ++ Atom.sign sign :: bs) z ∧ z.isJoined = true := by
  rcases known with rfl | known
  · have grips (cs : List Atom) (u : Term) (h : Reading 1 cs u) :
        ∃ z, Reading 0 (cs ++ Atom.sign ['='] :: bs) z ∧ z.isJoined = true :=
      ⟨_, .assign h (right.loosen (by omega)), rfl⟩
    simpa using left.attach grips (by omega) (by omega) (by omega)
  · obtain ⟨r, ranked⟩ := Option.isSome_iff_exists.mp known
    have bounds := rank?_bounds ranked
    have grips (cs : List Atom) (u : Term) (h : Reading r cs u) :
        ∃ z, Reading r (cs ++ Atom.sign sign :: bs) z ∧ z.isJoined = true :=
      ⟨_, .binary ranked h (right.loosen (by omega)), rfl⟩
    obtain ⟨z, read, joined⟩ := left.attach grips le_rfl (by omega) bounds.2
    exact ⟨z, read.loosen (Nat.zero_le _), joined⟩

theorem Reading.choose (test : Reading k as x) (consequent : Reading 0 bs y)
    (alternate : Reading 0 cs z) :
    ∃ w, Reading 0 (as ++ Atom.sign ['?'] :: (bs ++ Atom.sign [':'] :: cs)) w := by
  have grips (ds : List Atom) (u : Term) (h : Reading 1 ds u) :
      ∃ w, Reading 0 (ds ++ Atom.sign ['?'] :: (bs ++ Atom.sign [':'] :: cs)) w ∧ w.isJoined = true :=
    ⟨_, .choice h consequent alternate, rfl⟩
  obtain ⟨w, read, -⟩ := test.attach grips (by omega) (by omega) (by omega)
  exact ⟨w, by simpa using read⟩

end ScriptCpp.Cpp
