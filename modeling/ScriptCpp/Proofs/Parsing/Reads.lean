import Mathlib
import ScriptCpp.Proofs.Parsing.Rendering

set_option autoImplicit false

namespace ScriptCpp.Parser

def Shown (items : List Item) (ts : List Token) : Prop :=
  List.Forall₂ Item.Shows items ts

structure Before (stop : Token) (rest : List Token) (follow : Token.Kind → Prop) : Prop where
  stop_eof : stop.kind = .eof
  rest_ne_eof : ∀ t ∈ rest, t.kind ≠ .eof
  follows : follow (rest.headD stop).kind

/-- Before a token whose kind is in `follow` the parser reads the items as `a` if `enough` holds, and
finds itself nested too deep if it does not. -/
structure Reads {α : Type} (p : Parser α) (items : List Item) (a : α) (follow : Token.Kind → Prop)
    (enough : Prop) : Prop where
  ok : ∀ {stop : Token} {ts rest : List Token}, Before stop rest follow → Shown items ts →
    enough → p.run stop (ts ++ rest) = .ok (a, rest)
  deep : ∀ {stop : Token} {ts rest : List Token}, Before stop rest follow → Shown items ts →
    ¬ enough → ∃ t, p.run stop (ts ++ rest) = .error (.atToken .nestingTooDeep t)

/-- Whatever comes first in `items`, or else behind them, is in `follow`. -/
def Leads (follow : Token.Kind → Prop) (items : List Item) (behind : Token.Kind → Prop) : Prop :=
  match items with
  | [] => ∀ kind, behind kind → follow kind
  | item :: _ => ∀ t, item.Shows t → follow t.kind

def Starts (kinds : Token.Kind → Prop) (items : List Item) : Prop :=
  ∃ item rest, items = item :: rest ∧ ∀ t, item.Shows t → kinds t.kind

def anything : Token.Kind → Prop := fun _ => True

variable {α β σ : Type} {p : Parser α} {f : α → Parser β} {xs ys : List Item} {a : α} {b : β}
  {F G S : Token.Kind → Prop} {c d : Prop} {item : Item}

theorem shown_append {ts : List Token} (shown : Shown (xs ++ ys) ts) :
    ∃ us vs, ts = us ++ vs ∧ Shown xs us ∧ Shown ys vs := by
  induction xs generalizing ts with
  | nil => exact ⟨[], ts, rfl, .nil, shown⟩
  | cons x xs ih =>
    cases shown with
    | cons here later =>
      obtain ⟨us, vs, rfl, left, right⟩ := ih later
      exact ⟨_ :: us, vs, rfl, .cons here left, right⟩

theorem kind_ne_eof {t : Token} (shows : item.Shows t) : t.kind ≠ .eof := by
  intro isEof
  cases item with
  | sign | word | name | numeral | quoted => simp [Item.Shows, isEof] at shows
  | property text =>
    rcases shows.1 with name | word
    · simp [isEof] at name
    · rw [isEof, Token.Kind.ofWord] at word
      split at word <;> cases word

theorem shown_ne_eof {ts : List Token} (shown : Shown ys ts) : ∀ t ∈ ts, t.kind ≠ .eof := by
  induction shown with
  | nil => simp
  | cons here _ ih => exact List.forall_mem_cons.mpr ⟨kind_ne_eof here, ih⟩

theorem Before.prepend {stop : Token} {ts rest : List Token} (before : Before stop rest G)
    (leads : Leads F ys G) (shown : Shown ys ts) : Before stop (ts ++ rest) F where
  stop_eof := before.stop_eof
  rest_ne_eof := by
    intro t present
    rcases List.mem_append.mp present with here | later
    · exact shown_ne_eof shown t here
    · exact before.rest_ne_eof t later
  follows := by
    cases shown with
    | nil => exact leads _ before.follows
    | cons here _ => exact leads _ here

theorem leads_anything : Leads anything ys G := by
  unfold Leads
  split
  · exact fun _ _ => trivial
  · exact fun _ _ => trivial

theorem Starts.leads (starts : Starts S xs) (within : ∀ kind, S kind → F kind) : Leads F xs G := by
  obtain ⟨item, rest, rfl, kind⟩ := starts
  exact fun t shows => within _ (kind t shows)

theorem Starts.append (starts : Starts S xs) : Starts S (xs ++ ys) := by
  obtain ⟨item, rest, rfl, kind⟩ := starts
  exact ⟨item, rest ++ ys, rfl, kind⟩

theorem Starts.mono (starts : Starts S xs) (within : ∀ kind, S kind → F kind) : Starts F xs := by
  obtain ⟨item, rest, same, kind⟩ := starts
  exact ⟨item, rest, same, fun t shows => within _ (kind t shows)⟩

theorem starts_sign {symbol : Symbol} (here : S (.symbol symbol)) :
    Starts S (.sign symbol :: xs) :=
  ⟨_, _, rfl, fun t shows => by
    have kind : t.kind = .symbol symbol := shows
    rwa [kind]⟩

theorem starts_word {keyword : Keyword} (here : S (.keyword keyword)) :
    Starts S (.word keyword :: xs) :=
  ⟨_, _, rfl, fun t shows => by
    have kind : t.kind = .keyword keyword := shows
    rwa [kind]⟩

theorem leads_sign {symbol : Symbol} (follows : F (.symbol symbol)) :
    Leads F (.sign symbol :: ys) G :=
  (starts_sign follows).leads fun _ here => here

theorem leads_word {keyword : Keyword} (follows : F (.keyword keyword)) :
    Leads F (.word keyword :: ys) G :=
  (starts_word follows).leads fun _ here => here

theorem run_bind (stop : Token) (ts : List Token) : (p >>= f).run stop ts =
    match p.run stop ts with
    | .error e => .error e
    | .ok (a, rest) => (f a).run stop rest := rfl

theorem run_pure (stop : Token) (ts : List Token) :
    (Pure.pure a : Parser α).run stop ts = .ok (a, ts) := rfl

theorem propertyName_ok_iff {stop : Token} {ts rest : List Token} {text : String} :
    propertyName.run stop ts = .ok (text, rest) ↔
      ((ts.headD stop).kind = .identifier ∨ (Keyword.ofText? (ts.headD stop).text).isSome) ∧
        (ts.headD stop).text = text ∧ ts.tail = rest := by
  have looked : propertyName.run stop ts =
      (if (ts.headD stop).kind = .identifier || (Keyword.ofText? (ts.headD stop).text).isSome then
        skip >>= fun _ => Pure.pure (ts.headD stop).text
      else fail .propertyName : Parser String).run stop ts := rfl
  rw [looked]
  split
  · next named => simp [run_bind, run_pure, skip, by simpa using named]
  · next other => simp [fail, by simpa using other]

namespace Reads

theorem congr (h : Reads p xs a F c) (same : c ↔ d) : Reads p xs a F d where
  ok before shown enough := h.ok before shown (same.mpr enough)
  deep before shown few := h.deep before shown (same.not.mpr few)

theorem restrict (h : Reads p xs a F c) (less : ∀ kind, G kind → F kind) : Reads p xs a G c where
  ok before shown enough := h.ok { before with follows := less _ before.follows } shown enough
  deep before shown few := h.deep { before with follows := less _ before.follows } shown few

theorem pure : Reads (Pure.pure a : Parser α) [] a anything True where
  ok _ shown _ := by
    cases shown
    rfl
  deep _ _ few := absurd trivial few

theorem bind (first : Reads p xs a F c) (second : Reads (f a) ys b G d) (leads : Leads F ys G) :
    Reads (p >>= f) (xs ++ ys) b G (c ∧ d) where
  ok := by
    intro stop ts rest before shown enough
    obtain ⟨us, vs, rfl, left, right⟩ := shown_append shown
    have read := first.ok (before.prepend leads right) left enough.1
    rw [List.append_assoc, run_bind, read]
    exact second.ok before right enough.2
  deep := by
    intro stop ts rest before shown few
    obtain ⟨us, vs, rfl, left, right⟩ := shown_append shown
    have next := before.prepend leads right
    by_cases here : c
    · have read := first.ok next left here
      rw [List.append_assoc, run_bind, read]
      exact second.deep before right fun later => few ⟨here, later⟩
    · obtain ⟨t, failed⟩ := first.deep next left here
      exact ⟨t, by rw [List.append_assoc, run_bind, failed]⟩

theorem map {g : α → β} (h : Reads p xs a F c) : Reads (g <$> p) xs (g a) F c where
  ok := by
    intro stop ts rest before shown enough
    change (p >>= fun a => Pure.pure (g a)).run stop _ = _
    rw [run_bind, h.ok before shown enough]
    rfl
  deep := by
    intro stop ts rest before shown few
    obtain ⟨t, failed⟩ := h.deep before shown few
    change ∃ t, (p >>= fun a => Pure.pure (g a)).run stop _ = _
    exact ⟨t, by rw [run_bind, failed]⟩

-- A parser that takes nothing has the last word.
theorem bind_end (first : Reads p xs a F c) (second : Reads (f a) [] b G True) :
    Reads (p >>= f) xs b (fun kind => F kind ∧ G kind) c := by
  have whole : Reads (p >>= f) (xs ++ []) b (fun kind => F kind ∧ G kind) (c ∧ True) :=
    first.bind (second.restrict fun _ ends => ends.2) fun _ ends => ends.1
  rw [List.append_nil] at whole
  exact whole.congr (iff_of_eq (and_true c))

theorem pure_last {h : α → β} (first : Reads p xs a F c) :
    Reads (p >>= fun a => Pure.pure (h a)) xs (h a) F c := by
  have last : Reads (Pure.pure (h a) : Parser β) [] (h a) anything True := pure
  have whole : Reads (p >>= fun a => Pure.pure (h a)) xs (h a) (fun kind => F kind ∧ anything kind) c :=
    first.bind_end last
  exact whole.restrict fun _ next => ⟨next, trivial⟩

-- A parser that takes nothing settles what comes next.
theorem bind_ahead (first : Reads p [] a F True) (second : Reads (f a) ys b G d)
    (leads : Leads F ys G) : Reads (p >>= f) ys b G d :=
  (first.bind second leads).congr (iff_of_eq (true_and d))

-- A parser that takes one token and goes no further in.
theorem bind_token (first : Reads p [item] a anything True) (second : Reads (f a) ys b G d) :
    Reads (p >>= f) (item :: ys) b G d :=
  (first.bind second leads_anything).congr (iff_of_eq (true_and d))

theorem tooDeep (never : ¬ c) : Reads (fail .nestingTooDeep) xs a F c where
  ok _ _ enough := absurd enough never
  deep _ _ _ := ⟨_, rfl⟩

theorem onToken_some {g : Token → Option (Parser α)} {otherwise : Parser α}
    (knows : ∀ t, item.Shows t → ∃ next, g t = some next ∧ Reads next xs a F c) :
    Reads (onToken g otherwise) (item :: xs) a F c where
  ok := by
    intro stop ts rest before shown enough
    cases shown with
    | cons here later =>
      obtain ⟨next, found, reads⟩ := knows _ here
      simp only [onToken, List.cons_append, found]
      exact reads.ok before later enough
  deep := by
    intro stop ts rest before shown few
    cases shown with
    | cons here later =>
      obtain ⟨next, found, reads⟩ := knows _ here
      simp only [onToken, List.cons_append, found]
      exact reads.deep before later few

theorem onToken_none {g : Token → Option (Parser α)} {otherwise : Parser α}
    (reads : Reads otherwise xs a F c)
    (leads : Leads (fun kind => ∀ t, t.kind = kind → g t = none) xs F) :
    Reads (onToken g otherwise) xs a F c := by
  have same : ∀ {stop : Token} {ts rest : List Token}, Shown xs ts → Before stop rest F →
      (onToken g otherwise).run stop (ts ++ rest) = otherwise.run stop (ts ++ rest) := by
    intro stop ts rest shown before
    have next := (before.prepend leads shown).follows
    cases shape : ts ++ rest with
    | nil => rfl
    | cons t others =>
      rw [shape] at next
      simp only [onToken, next t rfl]
  refine ⟨?_, ?_⟩
  · intro stop ts rest before shown enough
    rw [same shown before]
    exact reads.ok before shown enough
  · intro stop ts rest before shown few
    rw [same shown before]
    exact reads.deep before shown few

section Tokens

variable {kind : Token.Kind} {text : String} {complaint : Complaint} {symbol : Symbol}

theorem expect (shows : ∀ t, item.Shows t → t.kind = kind ∧ t.text = text) :
    Reads (Parser.expect kind complaint) [item] text anything True := by
  refine onToken_some fun t here => ⟨Parser.pure text, ?_, pure⟩
  obtain ⟨sort, same⟩ := shows t here
  rw [if_pos sort, same]

theorem expectName : Reads (Parser.expect .identifier complaint) [.name text] text anything True :=
  expect fun _ here => here

theorem expectString : Reads (Parser.expect .string complaint) [.quoted text] text anything True :=
  expect fun _ here => here

-- A token that is only taken, whatever its text.
theorem expect_then {q : Parser β} (shows : ∀ t, item.Shows t → t.kind = kind)
    (second : Reads q ys b G d) :
    Reads (Parser.expect kind complaint >>= fun _ => q) (item :: ys) b G d where
  ok := by
    intro stop ts rest before shown enough
    cases shown with
    | cons here later =>
      rw [List.cons_append, run_bind]
      simp only [Parser.expect, onToken, shows _ here, if_true, Parser.pure]
      exact second.ok before later enough
  deep := by
    intro stop ts rest before shown few
    cases shown with
    | cons here later =>
      rw [List.cons_append, run_bind]
      simp only [Parser.expect, onToken, shows _ here, if_true, Parser.pure]
      exact second.deep before later few

theorem expectSymbol :
    Reads (Parser.expectSymbol symbol complaint) [.sign symbol] () anything True :=
  expect_then (fun _ here => here) pure

theorem accept_true (shows : ∀ t, item.Shows t → t.kind = kind) :
    Reads (accept kind) [item] true anything True :=
  onToken_some fun t here => ⟨Parser.pure true, by rw [if_pos (shows t here)], pure⟩

theorem acceptSymbol_true : Reads (acceptSymbol symbol) [.sign symbol] true anything True :=
  accept_true fun _ here => here

theorem acceptWord_true {keyword : Keyword} :
    Reads (acceptWord keyword) [.word keyword] true anything True :=
  accept_true fun _ here => here

theorem accept_false : Reads (accept kind) [] false (· ≠ kind) True := by
  refine onToken_none (pure.restrict fun _ _ => trivial) ?_
  intro next other t same
  rw [if_neg (same ▸ other)]

-- What is optional and not there.
theorem accept_absent {f : Bool → Parser β} (last : Reads (f false) [] b anything True) :
    Reads (accept kind >>= f) [] b (· ≠ kind) True :=
  bind_ahead accept_false (last.restrict fun _ _ => trivial) fun _ other => other

theorem sees_true : Reads (sees symbol) [] true (· = .symbol symbol) True where
  ok := by
    intro stop ts rest before shown enough
    cases shown
    simpa [sees, run_bind, run_pure, peek] using before.follows
  deep := fun _ _ few => absurd trivial few

theorem sees_false : Reads (sees symbol) [] false (· ≠ .symbol symbol) True where
  ok := by
    intro stop ts rest before shown enough
    cases shown
    simpa [sees, run_bind, run_pure, peek] using before.follows
  deep := fun _ _ few => absurd trivial few

theorem skip : Reads Parser.skip [item] () anything True where
  ok := by
    intro stop ts rest before shown enough
    cases shown with
    | cons here later =>
      cases later
      rfl
  deep := fun _ _ few => absurd trivial few

theorem propertyName : Reads Parser.propertyName [.property text] text anything True where
  ok := by
    intro stop ts rest before shown enough
    cases shown with
    | @cons _ t _ _ here later =>
      cases later
      obtain ⟨sort, rfl⟩ := here
      have named : t.kind = .identifier ∨ (Keyword.ofText? t.text).isSome = true := by
        rcases sort with name | word
        · exact .inl name
        · cases known : Keyword.ofText? t.text with
          | none => exact .inl (by rw [word, Token.Kind.ofWord, known])
          | some keyword => exact .inr rfl
      exact propertyName_ok_iff.mpr ⟨named, rfl, rfl⟩
  deep := fun _ _ few => absurd trivial few

end Tokens

section Loops

variable {step : σ → Token → Option (Parser σ)} {s s' r : σ}

theorem iterate_stop :
    Reads (iterate step s) [] s (fun kind => ∀ t, t.kind = kind → step s t = none) True where
  ok := by
    intro stop ts rest before shown enough
    cases shown
    change iterateFrom step s stop rest = _
    cases rest with
    | nil => rw [iterateFrom]
    | cons t rest => simp only [iterateFrom, before.follows t rfl]
  deep := fun _ _ few => absurd trivial few

theorem iterate_step (knows : ∀ t, item.Shows t → ∃ next, step s t = some next ∧ Reads next xs s' F c)
    (more : Reads (iterate step s') ys r G d) (leads : Leads F ys G) :
    Reads (iterate step s) (item :: (xs ++ ys)) r G (c ∧ d) := by
  have unfolded : ∀ {stop t : Token} {others : List Token} {next : Parser σ}, step s t = some next →
      (iterate step s).run stop (t :: others) =
        (Parser.bind next (iterate step)).run stop others := by
    intro stop t others next found
    change iterateFrom step s stop (t :: others) = _
    simp only [iterateFrom, found, Parser.bind]
    split
    · next failed => simp only [failed]
    · next read => simp only [read]; rfl
  refine ⟨?_, ?_⟩
  · intro stop ts rest before shown enough
    cases shown with
    | cons here later =>
      obtain ⟨next, found, reads⟩ := knows _ here
      rw [List.cons_append, unfolded found]
      exact (reads.bind more leads).ok before later enough
  · intro stop ts rest before shown few
    cases shown with
    | cons here later =>
      obtain ⟨next, found, reads⟩ := knows _ here
      rw [List.cons_append, unfolded found]
      exact (reads.bind more leads).deep before later few

theorem iterate_once
    (knows : ∀ t, item.Shows t → ∃ next, step s t = some next ∧ Reads next xs s' F c)
    (last : Reads (iterate step s') [] r G True) :
    Reads (iterate step s) (item :: xs) r (fun kind => F kind ∧ G kind) c := by
  have whole : Reads (iterate step s) (item :: (xs ++ [])) r (fun kind => F kind ∧ G kind)
      (c ∧ True) :=
    iterate_step knows (last.restrict fun _ ends => ends.2) fun _ ends => ends.1
  rw [List.append_nil] at whole
  exact whole.congr (iff_of_eq (and_true c))

variable {stops : Token → Bool} (strict : p.Strict) {as : List α}

theorem many_stop :
    Reads (many stops p @strict) [] []
      (fun kind => kind = .eof ∨ ∀ t, t.kind = kind → stops t = true) True where
  ok := by
    intro stop ts rest before shown enough
    cases shown
    have run : (many stops p @strict).run = manyFrom stops p @strict := rfl
    cases rest with
    | nil => rw [run, List.append_nil, manyFrom]
    | cons t rest =>
      have stopped : stops t = true := by
        rcases before.follows with isEof | stopped
        · exact absurd isEof (before.rest_ne_eof t List.mem_cons_self)
        · exact stopped t rfl
      rw [run, List.nil_append, manyFrom, if_pos stopped]
  deep := fun _ _ few => absurd trivial few

theorem run_many {stop t : Token} {others : List Token} (goesOn : stops t = false) :
    (many stops p @strict).run stop (t :: others) =
      (p >>= fun a => many stops p @strict >>= fun as => Pure.pure (a :: as)).run stop
        (t :: others) := by
  have run : (many stops p @strict).run = manyFrom stops p @strict := rfl
  rw [run, manyFrom, if_neg (by simp [goesOn]), run_bind]
  split
  · next failed => simp only [failed]
  · next a left read =>
    simp only [read, run_bind, run]
    cases manyFrom stops p @strict stop left <;> rfl

theorem many_item (reads : Reads p (item :: xs) a F c)
    (starts : ∀ t, item.Shows t → stops t = false)
    (more : Reads (many stops p @strict) ys as G d) (leads : Leads F ys G) :
    Reads (many stops p @strict) (item :: (xs ++ ys)) (a :: as) G (c ∧ d) := by
  have whole : Reads (p >>= fun a => many stops p @strict >>= fun as => Pure.pure (a :: as))
      (item :: (xs ++ ys)) (a :: as) G (c ∧ d) := by
    have last : Reads (many stops p @strict >>= fun as => Pure.pure (a :: as)) ys (a :: as) G d :=
      more.pure_last
    exact reads.bind last leads
  refine ⟨?_, ?_⟩
  · intro stop ts rest before shown enough
    have read := whole.ok before shown enough
    cases shown with
    | cons here later =>
      rw [List.cons_append, run_many strict (starts _ here)]
      exact read
  · intro stop ts rest before shown few
    have failed := whole.deep before shown few
    cases shown with
    | cons here later =>
      rw [List.cons_append, run_many strict (starts _ here)]
      exact failed

end Loops

section Lists

variable {g : α → List Item} {P : α → Prop}

theorem many_each {stops : Token → Bool} (strict : p.Strict) {l : List α}
    (each : ∀ x ∈ l, Reads p (g x) x F (P x))
    (starts : ∀ x ∈ l, Starts (fun kind => (∀ t, t.kind = kind → stops t = false) ∧ F kind) (g x))
    (ends : ∀ kind, G kind → F kind ∧ (kind = .eof ∨ ∀ t, t.kind = kind → stops t = true)) :
    Reads (many stops p @strict) (l.map g).flatten l G (∀ x ∈ l, P x) := by
  induction l with
  | nil => exact ((many_stop strict).restrict fun kind ended => (ends kind ended).2).congr (by simp)
  | cons x l ih =>
    have later := ih (fun y present => each y (List.mem_cons_of_mem _ present))
      fun y present => starts y (List.mem_cons_of_mem _ present)
    have leads : Leads F (l.map g).flatten G := by
      cases l with
      | nil => exact fun kind ended => (ends kind ended).1
      | cons y l => exact (starts y (by simp)).append.leads fun _ starting => starting.2
    have here := each x List.mem_cons_self
    obtain ⟨item, items, shape, starting⟩ := starts x List.mem_cons_self
    rw [shape] at here
    have whole := many_item strict here (fun t shows => (starting t shows).1 t rfl) later leads
    rw [List.map_cons, List.flatten_cons, shape, List.cons_append]
    exact whole.congr List.forall_mem_cons.symm

theorem many_braced (strict : p.Strict) {l : List α} (each : ∀ x ∈ l, Reads p (g x) x F (P x))
    (starts : ∀ x ∈ l, Starts (fun kind => kind ≠ .symbol .closeBrace ∧ F kind) (g x))
    (ends : F (.symbol .closeBrace)) :
    Reads (many (fun t => t.kind = .symbol .closeBrace) p @strict) (l.map g).flatten l
      (· = .symbol .closeBrace) (∀ x ∈ l, P x) := by
  refine many_each strict each (fun x present => (starts x present).mono ?_) ?_
  · exact fun kind starting => ⟨fun t same => by simpa [same] using starting.1, starting.2⟩
  · rintro kind rfl
    exact ⟨ends, .inr fun t same => by simpa using same⟩

theorem leads_listed {l : List α} (between : F (.symbol .comma)) :
    Leads F ((l.map g).flatMap fun items => Item.sign .comma :: items)
      (fun kind => F kind ∧ kind ≠ .symbol .comma) := by
  cases l with
  | nil => exact fun kind other => other.1
  | cons x l => exact leads_sign between

theorem commaSeparated {l : List α} (some : l ≠ []) (each : ∀ x ∈ l, Reads p (g x) x F (P x))
    (between : F (.symbol .comma)) :
    Reads (Parser.commaSeparated p) (Rendering.listed (l.map g)) l
      (fun kind => F kind ∧ kind ≠ .symbol .comma) (∀ x ∈ l, P x) := by
  obtain ⟨first, rest, rfl⟩ := List.exists_cons_of_ne_nil some
  obtain ⟨here, later⟩ := List.forall_mem_cons.mp each
  -- The loop collects the elements last first.
  have loop : ∀ (rest done : List α), (∀ x ∈ rest, Reads p (g x) x F (P x)) →
      Reads (iterate (fun items t =>
          if t.kind = .symbol .comma then Option.some ((· :: items) <$> p) else none) done)
        ((rest.map g).flatMap fun items => .sign .comma :: items) (rest.reverse ++ done)
        (fun kind => F kind ∧ kind ≠ .symbol .comma) (∀ x ∈ rest, P x) := by
    intro rest
    induction rest with
    | nil =>
      intro done _
      refine (iterate_stop.restrict ?_).congr (by simp)
      intro kind other t same
      rw [if_neg (same ▸ other.2)]
    | cons x rest ih =>
      intro done each
      obtain ⟨now, after⟩ := List.forall_mem_cons.mp each
      have knows : ∀ t, (Item.sign .comma).Shows t → ∃ next,
          (if t.kind = .symbol .comma then Option.some ((· :: done) <$> p) else none) =
            Option.some next ∧ Reads next (g x) (x :: done) F (P x) :=
        fun t shows => ⟨(· :: done) <$> p, if_pos shows, now.map⟩
      have whole := iterate_step knows (ih (x :: done) after) (leads_listed between)
      rw [List.map_cons, List.flatMap_cons, List.cons_append, List.reverse_cons, List.append_assoc]
      exact whole.congr List.forall_mem_cons.symm
  have collected := (loop rest [first] later).pure_last (h := List.reverse)
  rw [List.reverse_append, List.reverse_reverse] at collected
  exact (here.bind collected (leads_listed between)).congr List.forall_mem_cons.symm

end Lists

end Reads

end ScriptCpp.Parser
