import Mathlib
import ScriptCpp.Proofs.Parsing.Grammar
import ScriptCpp.Proofs.Parsing.Reads

set_option autoImplicit false

namespace ScriptCpp

namespace Parser

/-- The two rests have the same next token, which is the end token for both or for neither. -/
inductive SameNext : Token → List Token → Token → List Token → Prop
  | stop (stop : Token) : SameNext stop [] stop []
  | token (t stop stop' : Token) (ts ts' : List Token) : SameNext stop (t :: ts) stop' (t :: ts')

namespace SameNext

variable {stop stop' : Token} {rest rest' : List Token}

theorem headD (h : SameNext stop rest stop' rest') : rest'.headD stop' = rest.headD stop := by
  cases h <;> rfl

theorem append (h : SameNext stop rest stop' rest') (used : List Token) :
    SameNext stop (used ++ rest) stop' (used ++ rest') := by
  cases used with
  | nil => exact h
  | cons t used => exact .token ..

theorem of_cons {t : Token} (h : SameNext stop (t :: rest) stop' rest') : ∃ ts, rest' = t :: ts := by
  cases h with
  | token _ _ _ _ ts => exact ⟨ts, rfl⟩

end SameNext

variable {α β σ : Type}

/-- What a run comes to, it comes to on all tokens that are the same up to the next one. -/
structure Local (p : Parser α) : Prop where
  ok : ∀ {stop : Token} (used : List Token) {rest : List Token} {a : α},
    p.run stop (used ++ rest) = .ok (a, rest) →
      ∀ {stop' : Token} {rest' : List Token}, SameNext stop rest stop' rest' →
        p.run stop' (used ++ rest') = .ok (a, rest')
  error : ∀ {stop : Token} {ts : List Token} {e : ParseError}, p.run stop ts = .error e →
    ∃ used rest complaint, ts = used ++ rest ∧ e = .atToken complaint (rest.headD stop) ∧
      ∀ {stop' : Token} {rest' : List Token}, SameNext stop rest stop' rest' →
        p.run stop' (used ++ rest') = .error e

namespace Local

variable {p : Parser α} {f : α → Parser β}

theorem pure (a : α) : (Pure.pure a : Parser α).Local where
  ok := by
    intro stop used rest b read stop' rest' same
    obtain ⟨rfl, nothing⟩ : a = b ∧ used ++ rest = rest := by simpa [run_pure] using read
    obtain rfl : used = [] := by simpa using nothing
    rfl
  error := nofun

theorem fail (complaint : Complaint) : (fail complaint : Parser α).Local where
  ok := nofun
  error := by
    intro stop ts e failed
    cases failed
    refine ⟨[], ts, complaint, rfl, rfl, fun same => ?_⟩
    rw [← same.headD]
    rfl

theorem peek : peek.Local where
  ok := by
    intro stop used rest t read stop' rest' same
    obtain ⟨rfl, nothing⟩ : (used ++ rest).headD stop = t ∧ used ++ rest = rest := by
      simpa [Parser.peek] using read
    obtain rfl : used = [] := by simpa using nothing
    change Except.ok (rest'.headD stop', rest') = _
    rw [same.headD]
    rfl
  error := nofun

theorem skip : skip.Local where
  ok := by
    intro stop used rest u read stop' rest' same
    have left : (used ++ rest).tail = rest := congrArg Prod.snd (Except.ok.inj read)
    cases used with
    | nil =>
      cases same with
      | stop => rfl
      | token t _ _ ts => exact absurd (congrArg List.length left) (by simp)
    | cons t used =>
      obtain rfl : used = [] := by simpa using left
      rfl
  error := nofun

theorem bind (first : p.Local) (second : ∀ a, (f a).Local) : (p >>= f).Local where
  ok := by
    intro stop used rest b read stop' rest' same
    rw [run_bind] at read ⊢
    split at read
    · cases read
    · next a middle taken =>
      -- What was taken is what the first took, and then what the second took.
      obtain ⟨late, rfl⟩ := (f a).suffix read
      obtain ⟨early, split⟩ := p.suffix taken
      rw [← List.append_assoc] at split
      obtain rfl := List.append_cancel_right split
      rw [List.append_assoc] at taken ⊢
      rw [first.ok early taken (same.append late)]
      exact (second a).ok late read same
  error := by
    intro stop ts e failed
    rw [run_bind] at failed
    split at failed
    · next e' stopped =>
      cases failed
      obtain ⟨used, rest, complaint, rfl, here, again⟩ := first.error stopped
      refine ⟨used, rest, complaint, rfl, here, fun same => ?_⟩
      rw [run_bind, again same]
    · next a middle taken =>
      obtain ⟨early, rfl⟩ := p.suffix taken
      obtain ⟨late, rest, complaint, rfl, here, again⟩ := (second a).error failed
      refine ⟨early ++ late, rest, complaint, by rw [List.append_assoc], here, fun same => ?_⟩
      rw [List.append_assoc, run_bind, first.ok early taken (same.append late)]
      exact again same

theorem onToken {known : Token → Option (Parser α)} {otherwise : Parser α}
    (next : ∀ t q, known t = some q → q.Local) (other : otherwise.Local) :
    (onToken known otherwise).Local where
  ok := by
    intro stop used rest a read stop' rest' same
    cases used with
    | nil =>
      cases same with
      | stop => exact read
      | token t _ _ ts ts' =>
        cases found : known t with
        | none =>
          simp only [Parser.onToken, List.nil_append, found] at read ⊢
          exact other.ok [] read (.token ..)
        | some q =>
          -- The token was taken, so it is not left.
          simp only [Parser.onToken, List.nil_append, found] at read
          exact absurd (q.suffix read).length_le (by simp)
    | cons t used =>
      cases found : known t with
      | none =>
        simp only [Parser.onToken, List.cons_append, found] at read ⊢
        exact other.ok (t :: used) read same
      | some q =>
        simp only [Parser.onToken, List.cons_append, found] at read ⊢
        exact (next t q found).ok used read same
  error := by
    intro stop ts e failed
    cases ts with
    | nil =>
      obtain ⟨used, rest, complaint, split, here, again⟩ := other.error failed
      obtain ⟨rfl, rfl⟩ := List.append_eq_nil_iff.mp split.symm
      refine ⟨[], [], complaint, rfl, here, fun same => ?_⟩
      cases same
      exact failed
    | cons t ts =>
      cases found : known t with
      | none =>
        simp only [Parser.onToken, found] at failed
        obtain ⟨used, rest, complaint, split, here, again⟩ := other.error failed
        refine ⟨used, rest, complaint, split, here, fun same => ?_⟩
        have rerun := again same
        have whole := same.append used
        rw [← split] at whole
        obtain ⟨ts', shape⟩ := whole.of_cons
        rw [shape] at rerun ⊢
        simp only [Parser.onToken, found]
        exact rerun
      | some q =>
        simp only [Parser.onToken, found] at failed
        obtain ⟨used, rest, complaint, rfl, here, again⟩ := (next t q found).error failed
        refine ⟨t :: used, rest, complaint, rfl, here, fun same => ?_⟩
        simp only [Parser.onToken, List.cons_append, found]
        exact again same

theorem iterate {step : σ → Token → Option (Parser σ)} (next : ∀ s t q, step s t = some q → q.Local)
    (s : σ) : (iterate step s).Local where
  ok := by
    intro stop used rest r read stop' rest' same
    generalize whole : used ++ rest = ts at read
    change iterateFrom step s stop ts = _ at read
    fun_induction iterateFrom step s stop ts generalizing used with
    | case1 s =>
      cases read
      obtain rfl : used = [] := by simpa using whole
      cases same
      exact run_iterate_nil
    | case2 s t ts unknown =>
      cases read
      obtain rfl : used = [] := by simpa using whole
      obtain ⟨ts', rfl⟩ := same.of_cons
      exact run_iterate_stays unknown
    | case3 => cases read
    | case4 s t ts q known s' left taken ih =>
      obtain ⟨late, rfl⟩ := iterateFrom_suffix _ _ _ _ read
      obtain ⟨early, rfl⟩ := q.suffix taken
      obtain rfl : used = t :: (early ++ late) := by
        rw [← List.append_assoc, ← List.cons_append] at whole
        exact List.append_cancel_right whole
      have again := (next s t q known).ok early taken (same.append late)
      rw [List.cons_append, List.append_assoc, run_iterate_goes known, run_bind, again]
      exact ih late rfl read
  error := by
    intro stop ts e failed
    change iterateFrom step s stop ts = _ at failed
    fun_induction iterateFrom step s stop ts with
    | case1 => cases failed
    | case2 => cases failed
    | case3 s t ts q known e' stopped =>
      cases failed
      obtain ⟨used, rest, complaint, rfl, here, again⟩ := (next s t q known).error stopped
      refine ⟨t :: used, rest, complaint, rfl, here, fun same => ?_⟩
      rw [List.cons_append, run_iterate_goes known, run_bind, again same]
    | case4 s t ts q known s' left taken ih =>
      obtain ⟨early, rfl⟩ := q.suffix taken
      obtain ⟨late, rest, complaint, rfl, here, again⟩ := ih failed
      refine ⟨t :: (early ++ late), rest, complaint, by simp, here, fun same => ?_⟩
      have rerun := (next s t q known).ok early taken (same.append late)
      rw [List.cons_append, List.append_assoc, run_iterate_goes known, run_bind, rerun]
      exact again same

theorem suffix_of_strict (strict : p.Strict) {stop t : Token} {ts rest : List Token} {a : α}
    (taken : p.run stop (t :: ts) = .ok (a, rest)) : rest <:+ ts := by
  rcases List.suffix_cons_iff.mp (p.suffix taken) with rfl | shorter
  · exact absurd (strict taken) (Nat.lt_irrefl _)
  · exact shorter

theorem many {stops : Token → Bool} {strict : p.Strict} (item : p.Local) :
    (many stops p @strict).Local where
  ok := by
    intro stop used rest as read stop' rest' same
    generalize whole : used ++ rest = ts at read
    change manyFrom stops p @strict stop ts = _ at read
    fun_induction manyFrom stops p @strict stop ts generalizing used as with
    | case1 =>
      cases read
      obtain rfl : used = [] := by simpa using whole
      cases same
      exact run_many_nil
    | case2 t ts stopped =>
      cases read
      obtain rfl : used = [] := by simpa using whole
      obtain ⟨ts', rfl⟩ := same.of_cons
      exact run_many_stops stopped
    | case3 => cases read
    | case4 => cases read
    | case5 t ts going a left taken as last later ih =>
      cases read
      -- What is used is `t :: early` for the first item and `late` for the others.
      obtain ⟨late, rfl⟩ := manyFrom_suffix _ _ @strict _ _ later
      obtain ⟨early, rfl⟩ := suffix_of_strict @strict taken
      obtain rfl : used = t :: (early ++ late) := by
        rw [← List.append_assoc, ← List.cons_append] at whole
        exact List.append_cancel_right whole
      have again := item.ok (t :: early) taken (same.append late)
      have others := ih late rfl later
      rw [List.cons_append] at again
      rw [List.cons_append, List.append_assoc, run_many_goes (by simpa using going)]
      simp only [run_bind, again, others, run_pure]
  error := by
    intro stop ts e failed
    change manyFrom stops p @strict stop ts = _ at failed
    fun_induction manyFrom stops p @strict stop ts with
    | case1 => cases failed
    | case2 => cases failed
    | case3 t ts going e' stopped =>
      cases failed
      obtain ⟨used, rest, complaint, split, here, again⟩ := item.error stopped
      refine ⟨used, rest, complaint, split, here, fun same => ?_⟩
      have rerun := again same
      -- The other stream begins with `t` as well, so there too the loop goes on to the item.
      have whole := same.append used
      rw [← split] at whole
      obtain ⟨ts', shape⟩ := whole.of_cons
      rw [shape] at rerun ⊢
      rw [run_many_goes (by simpa using going), run_bind, rerun]
    | case4 t ts going a left taken e' stopped ih =>
      cases failed
      obtain ⟨early, rfl⟩ := suffix_of_strict @strict taken
      obtain ⟨late, rest, complaint, rfl, here, again⟩ := ih stopped
      refine ⟨t :: (early ++ late), rest, complaint, by simp, here, fun same => ?_⟩
      have rerun := item.ok (t :: early) taken (same.append late)
      rw [List.cons_append] at rerun
      rw [List.cons_append, List.append_assoc, run_many_goes (by simpa using going)]
      simp only [run_bind, rerun, again same]
    | case5 => cases failed

end Local

theorem hereditary_local : Hereditary fun _ p => p.Local where
  pure := .pure
  fail complaint _ := .fail complaint
  peek := .peek
  skip := .skip
  bind := .bind
  onToken := .onToken
  literal next _ := .onToken next (.bind .peek fun _ => .fail _)
  iterate := .iterate
  many := .many

end Parser

namespace Program

def Terminated (tokens : List Token) : Prop := ∃ last, tokens.getLast? = some last ∧ last.kind = .eof

theorem ofTokens_terminated {tokens : List Token} (ended : Terminated tokens) :
    ∃ stop, stop.kind = .eof ∧ tokens.takeWhile (·.kind ≠ .eof) ++ [stop] <+: tokens ∧
      ofTokens tokens = Prod.fst <$> Parser.program.run stop (tokens.takeWhile (·.kind ≠ .eof)) := by
  obtain ⟨last, isLast, isEof⟩ := ended
  have parts := List.takeWhile_append_dropWhile (p := fun t : Token => decide (t.kind ≠ .eof)) (l := tokens)
  cases left : tokens.dropWhile (·.kind ≠ .eof) with
  | nil =>
    have all := List.dropWhile_eq_nil_iff.mp left last (List.mem_of_getLast? isLast)
    simp [isEof] at all
  | cons stop more =>
    have found : stop.kind = .eof := by
      have head := List.head?_dropWhile_not (fun t : Token => decide (t.kind ≠ .eof)) tokens
      rw [left] at head
      simpa using head
    rw [left] at parts
    refine ⟨stop, found, ⟨more, by rw [List.append_assoc]; exact parts⟩, ?_⟩
    simp only [ofTokens, isLast, isEof, if_true, left, List.headD_cons]

theorem terminated_of_ofTokens {tokens : List Token} {p : Program} (accepted : ofTokens tokens = .ok p) :
    Terminated tokens := by
  simp only [ofTokens] at accepted
  split at accepted
  · cases accepted
  · next last isLast =>
    split at accepted
    · next isEof => exact ⟨last, isLast, isEof⟩
    · cases accepted

theorem run_of_map_ok {r : Except ParseError (Program × List Token)} {p : Program}
    (h : Prod.fst <$> r = .ok p) : ∃ rest, r = .ok (p, rest) := by
  cases r with
  | error e => cases h
  | ok result =>
    cases h
    exact ⟨_, rfl⟩

theorem run_of_map_error {r : Except ParseError (Program × List Token)} {e : ParseError}
    (h : Prod.fst <$> r = .error e) : r = .error e := by
  cases r with
  | error e' =>
    cases h
    rfl
  | ok result => cases h

theorem takeWhile_of_begins {known tokens : List Token} (inside : ∀ t ∈ known, t.kind ≠ .eof)
    (begins : known <+: tokens) :
    ∃ more, tokens.takeWhile (·.kind ≠ .eof) = known ++ more := by
  obtain ⟨more, rfl⟩ := begins
  exact ⟨_, List.takeWhile_append_of_pos (by simpa using inside)⟩

theorem ofTokens_of_begins {known tokens : List Token} {stop : Token} (ended : Terminated tokens)
    (inside : ∀ t ∈ known, t.kind ≠ .eof) (isEof : stop.kind = .eof) (begins : known ++ [stop] <+: tokens) :
    ofTokens tokens = Prod.fst <$> Parser.program.run stop known := by
  obtain ⟨stop', -, same, read⟩ := ofTokens_terminated ended
  obtain ⟨more, rfl⟩ := begins
  have taken : (known ++ [stop] ++ more).takeWhile (·.kind ≠ .eof) = known := by
    rw [List.append_assoc, List.takeWhile_append_of_pos (by simpa using inside)]
    simp [isEof]
  rw [taken] at same read
  obtain ⟨_, split⟩ := same
  obtain ⟨rfl, -⟩ : stop' = stop ∧ _ := by simpa using split
  exact read

theorem takeWhile_ne_eof (tokens : List Token) : ∀ t ∈ tokens.takeWhile (·.kind ≠ .eof), t.kind ≠ .eof := by
  intro t present
  simpa using List.mem_takeWhile_imp present

theorem blamed_of_ofTokens {tokens : List Token} (ended : Terminated tokens) {e : ParseError}
    (failed : ofTokens tokens = .error e) :
    ∃ known t, known ++ [t] <+: tokens ∧ (∀ u ∈ known, u.kind ≠ .eof) ∧
      e.found = t.text ∧ e.position = t.position ∧
      ∀ others, Terminated others → known ++ [t] <+: others → ofTokens others = .error e := by
  obtain ⟨stop, isEof, begins, read⟩ := ofTokens_terminated ended
  have inside := takeWhile_ne_eof tokens
  rw [read] at failed
  have stopped := run_of_map_error failed
  obtain ⟨known, rest, complaint, split, rfl, again⟩ := Parser.hereditary_local.program.error stopped
  rw [split] at begins inside
  cases rest with
  | nil =>
    rw [List.append_nil] at begins inside
    refine ⟨known, stop, begins, inside, rfl, rfl, fun others ended' same => ?_⟩
    have rerun := again (.stop stop)
    rw [List.append_nil] at rerun
    rw [ofTokens_of_begins ended' inside isEof same, rerun]
    rfl
  | cons t rest =>
    have first : ∀ u ∈ known ++ [t], u.kind ≠ .eof := by
      intro u present
      exact inside u (by simp at present ⊢; tauto)
    refine ⟨known, t, ?_, fun u present => first u (List.mem_append_left _ present), rfl, rfl, ?_⟩
    · exact List.IsPrefix.trans ⟨rest ++ [stop], by simp⟩ begins
    · intro others ended' same
      obtain ⟨stop', -, -, read'⟩ := ofTokens_terminated ended'
      obtain ⟨more, taken⟩ := takeWhile_of_begins first same
      rw [read', taken, List.append_assoc, List.singleton_append, again (.token ..)]
      rfl

theorem stop_of_ofTokens {tokens : List Token} (ended : Terminated tokens) {program : Program}
    (accepted : ofTokens tokens = .ok program) :
    ∃ known stop, known ++ [stop] <+: tokens ∧ (∀ u ∈ known, u.kind ≠ .eof) ∧ stop.kind = .eof ∧
      ∀ others, Terminated others → known ++ [stop] <+: others → ofTokens others = .ok program := by
  obtain ⟨stop, isEof, begins, read⟩ := ofTokens_terminated ended
  have inside := takeWhile_ne_eof tokens
  refine ⟨_, stop, begins, inside, isEof, fun others ended' same => ?_⟩
  rw [ofTokens_of_begins ended' inside isEof same, ← read, accepted]

end Program

end ScriptCpp
