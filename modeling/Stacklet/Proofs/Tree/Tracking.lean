import Stacklet.Proofs.Tree.Forms
import Stacklet.Proofs.Tree.Outcomes

/-! # Readers that track a language

A reader tracks a language when it passes just what can be passed: with the tokens behind it, and
the one ahead, a word can be in the language before if and only if its rest is in the language
behind. When it fails at a token, the tokens before that one begin a word of the language, and
together with it they begin none. Readers in a row track languages in a row.
-/

namespace Stacklet

/-- The token that an error speaks of. -/
def SyntaxError.found? : SyntaxError → Option Token
  | unexpectedToken _ found | expectedExpr found => some found
  | invalidAssignmentTarget | tooMany _ | tooDeep => none

/-- Behind some tokens of a language another one has just the words that begin with the token
ahead, and no words that the first has not. -/
structure Residual (before : Language Token) (passed : List Token) (ahead : Token)
    (behind : Language Token) : Prop where
  sound : ∀ word ∈ behind, passed ++ word ∈ before
  complete : ∀ word, passed ++ ahead :: word ∈ before → ahead :: word ∈ behind

/-- Some tokens begin a word of a language, but none that goes on with the token ahead. -/
structure Refused (before : Language Token) (passed : List Token) (ahead : Token) : Prop where
  viable : ∃ word, passed ++ word ∈ before
  dead : ∀ word, passed ++ ahead :: word ∉ before

/-- Whether an outcome of reading from a cursor is what a language asks for, with another behind. A
failure that speaks of a token stands there, and every failure is recovered from. -/
def Outcome.Tracks {α : Type} (cursor : Cursor) (before behind : Language Token) :
    Outcome α → Prop
  | .done _ reached => ∃ passed, cursor.Passed reached passed ∧
      Residual before (passed.map (·.value)) reached.peek.value behind
  | .failed error recovery =>
      (∃ stop, recovery = some stop ∧ stop.last = cursor.last) ∧
      ∀ found, error.value.found? = some found → ∃ passed reached, cursor.Passed reached passed ∧
        reached.peek = ⟨found, error.span⟩ ∧ Refused before (passed.map (·.value)) found
  | .unfinished => False

namespace Cursor.Passed

variable {cursor reached : Cursor} {passed : List (Located Token)}

theorem length_le (h : cursor.Passed reached passed) : reached.rest.length ≤ cursor.rest.length := by
  rw [h.rest_eq, List.length_append]
  omega

theorem length_lt (h : cursor.Passed reached passed) (hpassed : passed ≠ []) :
    reached.rest.length < cursor.rest.length := by
  rw [h.rest_eq, List.length_append]
  have := List.length_pos_iff.mpr hpassed
  omega

/-- What was passed begins with the token that was ahead. -/
theorem exists_cons_of_ne_nil (h : cursor.Passed reached passed) (hpassed : passed ≠ [])
    (word : List Token) :
    ∃ more, passed.map (·.value) ++ word = cursor.peek.value :: more := by
  obtain ⟨token, passed, rfl⟩ := List.exists_cons_of_ne_nil hpassed
  have hpeek : cursor.peek = token := by
    rw [Cursor.peek, h.rest_eq, List.cons_append, List.headD_cons]
  exact ⟨_, by rw [hpeek, List.map_cons, List.cons_append]⟩

/-- Together with the token ahead now it does so in any case. -/
theorem exists_cons (h : cursor.Passed reached passed) (word : List Token) :
    ∃ more, passed.map (·.value) ++ reached.peek.value :: word = cursor.peek.value :: more := by
  by_cases hpassed : passed = []
  · subst hpassed
    have hpeek : reached.peek = cursor.peek := by
      rw [Cursor.peek, Cursor.peek, h.rest_eq, h.last_eq, List.nil_append]
    exact ⟨word, by rw [hpeek, List.map_nil, List.nil_append]⟩
  · exact h.exists_cons_of_ne_nil hpassed _

end Cursor.Passed

/-- A language that is behind something: it has words, and they begin with tokens of a class. -/
structure Behind (allowed : Token → Prop) (behind : Language Token) : Prop where
  exists_word : ∃ word, word ∈ behind
  allowed : ∀ token word, token :: word ∈ behind → allowed token

theorem Behind.of_opens {allowed : Token → Prop} {form : Form} {behind : Language Token}
    (hform : form.Productive) (hnullable : form.nullable = false)
    (hopens : ∀ token, form.opens token = true → allowed token)
    (hbehind : ∃ word, word ∈ behind) : Behind allowed (form.language * behind) where
  exists_word := Form.exists_mem_mul hform hbehind
  allowed token word hword := by
    rcases Form.opens_of_cons_mem hword with hopened | ⟨hempty, -⟩
    · exact hopens token hopened
    · exact nomatch hnullable.symm.trans hempty

theorem Behind.many {allowed : Token → Prop} {item : Form} {behind : Language Token}
    (h : Behind allowed behind) (hitem : ∀ token, item.opens token = true → allowed token) :
    Behind allowed ((Form.many item).language * behind) where
  exists_word := Form.exists_mem_mul (Form.productive_many item) h.exists_word
  allowed token word hword := by
    rcases Form.opens_of_cons_mem hword with hopened | ⟨-, hbehind⟩
    · exact hitem token hopened
    · exact h.allowed token word hbehind

theorem Behind.imp {allowed other : Token → Prop} {behind : Language Token}
    (h : Behind allowed behind) (himp : ∀ token, allowed token → other token) :
    Behind other behind :=
  ⟨h.exists_word, fun token word hword => himp token (h.allowed token word hword)⟩

/-- A symbol is the only token that a sequence from it on begins with. -/
theorem behind_symbol {allowed : Token → Prop} {mark : Symbol} {more : Form}
    {behind : Language Token} (hmark : allowed (.symbol mark)) (hmore : more.Productive)
    (hbehind : ∃ word, word ∈ behind) :
    Behind allowed ((Form.seq (.symbol mark) more).language * behind) := by
  refine .of_opens (Form.productive_seq.mpr ⟨Form.productive_symbol mark, hmore⟩) rfl ?_ hbehind
  intro token htoken
  exact Form.opens_symbol_seq.mp htoken ▸ hmark

/-! ## Recovery -/

theorem Cursor.last_advance (cursor : Cursor) : cursor.advance.last = cursor.last := by
  rw [advance]
  split <;> rfl

theorem Cursor.skipToBoundary_eq_some {cursor : Cursor} (hlast : cursor.last.value = .endOfInput)
    {count : Nat} (hcount : cursor.rest.length ≤ count) :
    ∃ stop, cursor.skipToBoundary count = some stop ∧ stop.last = cursor.last := by
  induction count generalizing cursor with
  | zero =>
      obtain ⟨rest, last, previous⟩ := cursor
      obtain rfl := List.length_eq_zero_iff.mp (Nat.le_zero.mp hcount)
      refine ⟨⟨[], last, previous⟩, ?_, rfl⟩
      have hend : Cursor.atEnd ⟨[], last, previous⟩ = true := decide_eq_true hlast
      rw [skipToBoundary, atBoundary, hend, Bool.true_or, Bool.true_or, if_pos rfl]
  | succ count ih =>
      rw [skipToBoundary]
      split
      next => exact ⟨cursor, rfl, rfl⟩
      next hboundary =>
        have hpeek : cursor.peek.value ≠ .endOfInput := by
          intro hend
          rw [atBoundary, atEnd, decide_eq_true hend] at hboundary
          exact hboundary rfl
        obtain ⟨hpassed, -⟩ := passed_advance hlast hpeek
        have hlength := hpassed.length_lt (List.cons_ne_nil _ _)
        obtain ⟨stop, hstop, hstopLast⟩ :=
          ih (cursor.last_advance ▸ hlast) (by omega)
        exact ⟨stop, hstop, hstopLast.trans cursor.last_advance⟩

/-- Recovery ends in every stream that ends with the end of input. -/
theorem Cursor.synchronize_eq_some {cursor : Cursor} (hlast : cursor.last.value = .endOfInput) :
    ∃ stop, cursor.synchronize = some stop ∧ stop.last = cursor.last := by
  have hlength : cursor.advance.rest.length ≤ cursor.rest.length + 2 := by
    rw [advance]
    split <;> simp only [List.length_tail] <;> omega
  obtain ⟨stop, hstop, hstopLast⟩ :=
    skipToBoundary_eq_some (cursor.last_advance ▸ hlast) hlength
  exact ⟨stop, hstop, hstopLast.trans cursor.last_advance⟩

namespace Reader

variable {α β : Type} {cursor : Cursor} {before middle behind : Language Token}

/-- A reader tracks a language from a cursor on, in a stream that ends with the end of input. -/
def Tracks (read : Reader α) (cursor : Cursor) (before behind : Language Token) : Prop :=
  cursor.last.value = .endOfInput → (read cursor).Tracks cursor before behind

/-! ## Readers in a row -/

theorem tracks_pure (value : α) : (pure value : Reader α).Tracks cursor behind behind :=
  fun _ => ⟨[], cursor.passed_nil, fun _ => id, fun _ => id⟩

theorem tracks_failAt {error : SyntaxError} (h : error.found? = none) (span : Span) :
    (failAt error span : Reader α).Tracks cursor before behind :=
  fun _ => ⟨⟨cursor, rfl, rfl⟩, fun _ hfound => nomatch h.symm.trans hfound⟩

/-- A failure because of the token ahead is one when there is a word, but none with that token. -/
theorem tracks_fail {error : SyntaxError} (hfound : error.found? = some cursor.peek.value)
    (hviable : ∃ word, word ∈ before) (hdead : ∀ word, cursor.peek.value :: word ∉ before) :
    (fail error : Reader α).Tracks cursor before behind := by
  refine fun _ => ⟨⟨cursor, rfl, rfl⟩, fun found h => ?_⟩
  obtain rfl := Option.some.inj (h.symm.trans hfound)
  exact ⟨[], cursor, cursor.passed_nil, rfl, hviable, hdead⟩

/-- A token is passed that words of the language begin with. -/
theorem tracks_next (hpeek : cursor.peek.value ≠ .endOfInput)
    (h : ∀ word, cursor.peek.value :: word ∈ before ↔ word ∈ behind) :
    next.Tracks cursor before behind := by
  intro hlast
  obtain ⟨hpassed, -⟩ := Cursor.passed_advance hlast hpeek
  exact ⟨_, hpassed, fun word => (h word).mpr, fun word => (h _).mp⟩

/-- Languages with the same words that begin with the token ahead are tracked alike. -/
theorem Tracks.congr {read : Reader α} (h : read.Tracks cursor middle behind)
    (hsound : ∀ word ∈ middle, word ∈ before)
    (hcomplete : ∀ word, cursor.peek.value :: word ∈ before → cursor.peek.value :: word ∈ middle) :
    read.Tracks cursor before behind := by
  intro hlast
  have houtcome := h hlast
  cases hread : read cursor with
  | done value reached =>
      rw [hread] at houtcome
      obtain ⟨passed, hpassed, hresidual⟩ := houtcome
      refine ⟨passed, hpassed, fun word hword => hsound _ (hresidual.sound word hword), ?_⟩
      intro word hword
      obtain ⟨more, hmore⟩ := hpassed.exists_cons word
      apply hresidual.complete
      rw [hmore] at hword ⊢
      exact hcomplete more hword
  | failed error recovery =>
      rw [hread] at houtcome
      refine ⟨houtcome.1, fun found hfound => ?_⟩
      obtain ⟨passed, reached, hpassed, hpeek, ⟨word, hviable⟩, hdead⟩ := houtcome.2 found hfound
      refine ⟨passed, reached, hpassed, hpeek, ⟨word, hsound _ hviable⟩, fun word hword => ?_⟩
      apply hdead word
      obtain ⟨more, hmore⟩ := hpassed.exists_cons word
      rw [hpeek] at hmore
      rw [hmore] at hword ⊢
      exact hcomplete more hword
  | unfinished =>
      rw [hread] at houtcome
      exact houtcome

theorem Tracks.bind {first : Reader α} {next : α → Reader β}
    (h : first.Tracks cursor before middle)
    (hnext : ∀ value reached passed, first cursor = .done value reached →
      cursor.Passed reached passed →
      Residual before (passed.map (·.value)) reached.peek.value middle →
      (next value).Tracks reached middle behind) :
    (first >>= next).Tracks cursor before behind := by
  intro hlast
  have houtcome := h hlast
  rw [bind_apply]
  cases hfirst : first cursor with
  | failed error recovery =>
      rw [hfirst] at houtcome
      exact houtcome
  | unfinished =>
      rw [hfirst] at houtcome
      exact houtcome
  | done value reached =>
      rw [hfirst] at houtcome
      obtain ⟨front, hfront, hresidual⟩ := houtcome
      have hreached := hnext value reached front hfirst hfront hresidual (hfront.last_eq ▸ hlast)
      -- What can follow the tokens of the second part can follow those of both.
      have hback : ∀ {last back} word, reached.Passed last back →
          front.map (·.value) ++ (back.map (·.value) ++ last.peek.value :: word) ∈ before →
          back.map (·.value) ++ last.peek.value :: word ∈ middle := by
        intro last back word hback hword
        obtain ⟨more, hmore⟩ := hback.exists_cons word
        rw [hmore] at hword ⊢
        exact hresidual.complete more hword
      show Outcome.Tracks cursor before behind (next value reached)
      cases hsecond : next value reached with
      | done result last =>
          rw [hsecond] at hreached
          obtain ⟨back, hpassed, hrest⟩ := hreached
          refine ⟨front ++ back, hfront.append hpassed, fun word hword => ?_, fun word hword => ?_⟩
          · rw [List.map_append, List.append_assoc]
            exact hresidual.sound _ (hrest.sound word hword)
          · rw [List.map_append, List.append_assoc] at hword
            exact hrest.complete word (hback word hpassed hword)
      | failed error recovery =>
          rw [hsecond] at hreached
          obtain ⟨⟨stop, hstop, hstopLast⟩, hrefused⟩ := hreached
          refine ⟨⟨stop, hstop, hstopLast.trans hfront.last_eq⟩, fun found hfound => ?_⟩
          obtain ⟨back, last, hpassed, hpeek, ⟨word, hviable⟩, hdead⟩ := hrefused found hfound
          refine ⟨front ++ back, last, hfront.append hpassed, hpeek, ⟨word, ?_⟩, fun word hword => ?_⟩
          · rw [List.map_append, List.append_assoc]
            exact hresidual.sound _ hviable
          · rw [List.map_append, List.append_assoc] at hword
            have := hback word hpassed
            rw [hpeek] at this
            exact hdead word (this hword)
      | unfinished =>
          rw [hsecond] at hreached
          exact hreached

theorem tracks_next_bind {read : Located Token → Reader β}
    (hpeek : cursor.peek.value ≠ .endOfInput)
    (h : ∀ word, cursor.peek.value :: word ∈ before ↔ word ∈ middle)
    (hread : ∀ reached, reached.rest.length < cursor.rest.length →
      (read cursor.peek).Tracks reached middle behind) :
    (next >>= read).Tracks cursor before behind := by
  intro hlast
  refine Tracks.bind (tracks_next hpeek h) ?_ hlast
  rintro _ _ passed ⟨⟩ - -
  obtain ⟨hpassed, -⟩ := Cursor.passed_advance hlast hpeek
  exact hread _ (hpassed.length_lt (List.cons_ne_nil _ _))

/-! ## Forms -/

variable {form other front back item : Form}

/-- A reader of a form, from a cursor on and with a language behind it. -/
def Reads (read : Reader α) (cursor : Cursor) (form : Form) (behind : Language Token) : Prop :=
  read.Tracks cursor (form.language * behind) behind

theorem Reads.of_eq {read same : Reader α} (h : same.Reads cursor form behind)
    (heq : read cursor = same cursor) : read.Reads cursor form behind := by
  intro hlast
  rw [heq]
  exact h hlast

theorem Reads.of_language_eq {read : Reader α} (h : read.Reads cursor form behind)
    (heq : other.language = form.language) : read.Reads cursor other behind := by
  rw [Reads, heq]
  exact h

theorem reads_pure (value : α) : (pure value : Reader α).Reads cursor .nothing behind := by
  rw [Reads, Form.language_nothing, one_mul]
  exact tracks_pure value

theorem reads_failAt {error : SyntaxError} (h : error.found? = none) (span : Span) :
    (failAt error span : Reader α).Reads cursor form behind :=
  tracks_failAt h span

theorem Reads.bind {first : Reader α} {next : α → Reader β}
    (h : first.Reads cursor front (back.language * behind))
    (hnext : ∀ value reached, reached.rest.length ≤ cursor.rest.length →
      (next value).Reads reached back behind) :
    (first >>= next).Reads cursor (.seq front back) behind := by
  rw [Reads, Form.language_seq, mul_assoc]
  refine Tracks.bind h ?_
  intro value reached passed _ hpassed _
  exact hnext value reached hpassed.length_le

theorem Reads.map {read : Reader α} (h : read.Reads cursor form behind) (f : α → β) :
    (f <$> read).Reads cursor form behind :=
  Tracks.bind h fun value _ _ _ _ _ => tracks_pure (f value)

/-- Behind a form nothing more is read. -/
theorem Reads.bind_nothing {first : Reader α} {next : α → Reader β}
    (h : first.Reads cursor form behind)
    (hnext : ∀ value reached, (next value).Reads reached .nothing behind) :
    (first >>= next).Reads cursor form behind := by
  refine Tracks.bind h fun value reached _ _ _ _ => ?_
  have hvalue := hnext value reached
  rwa [Reads, Form.language_nothing, one_mul] at hvalue

/-- A reader of the last form of a sequence. -/
theorem Reads.last {read : Reader α} (h : read.Reads cursor form behind) :
    read.Reads cursor (.seq form .nothing) behind := by
  refine h.of_language_eq ?_
  rw [Form.language_seq, Form.language_nothing, mul_one]

/-- The token ahead decides for the first of two forms. -/
theorem Reads.left {read : Reader α} (h : read.Reads cursor form behind)
    (hother : ∀ word, cursor.peek.value :: word ∉ other.language * behind) :
    read.Reads cursor (.alt form other) behind := by
  refine Tracks.congr h ?_ ?_
  · intro word hword
    rw [Form.language_alt, add_mul]
    exact .inl hword
  · intro word hword
    rw [Form.language_alt, add_mul] at hword
    exact hword.resolve_right (hother word)

/-- The token ahead decides for the second of two forms. -/
theorem Reads.right {read : Reader α} (h : read.Reads cursor form behind)
    (hother : other.opens cursor.peek.value = false) (hnullable : other.nullable = false) :
    read.Reads cursor (.alt other form) behind := by
  refine Tracks.congr h ?_ ?_
  · intro word hword
    rw [Form.language_alt, add_mul]
    exact .inr hword
  · intro word hword
    rw [Form.language_alt, add_mul] at hword
    exact hword.resolve_left (Form.notMem_of_opens hother hnullable word)

/-! ## Single tokens -/

theorem cons_mem_one_mul {accepts : Token → Bool} {token : Token} {word : List Token} :
    token :: word ∈ (Form.one accepts).language * behind ↔
      accepts token = true ∧ word ∈ behind := by
  rw [Language.mem_mul]
  constructor
  · rintro ⟨_, hone, word, hword, happend⟩
    obtain ⟨token, haccepts, rfl⟩ := Form.mem_language_one.mp hone
    obtain ⟨rfl, rfl⟩ := List.cons.inj happend
    exact ⟨haccepts, hword⟩
  · rintro ⟨haccepts, hword⟩
    exact ⟨[token], .one haccepts, word, hword, rfl⟩

theorem reads_next {accepts : Token → Bool} (hpeek : accepts cursor.peek.value = true)
    (hend : accepts .endOfInput = false) : next.Reads cursor (.one accepts) behind := by
  refine tracks_next ?_ fun word => ?_
  · rintro heq
    rw [heq, hend] at hpeek
    exact nomatch hpeek
  · rw [cons_mem_one_mul, and_iff_right hpeek]

theorem reads_unexpected {accepts : Token → Bool} {expected : String}
    (hpeek : accepts cursor.peek.value = false) (hform : (Form.one accepts).Productive)
    (hbehind : ∃ word, word ∈ behind) :
    (unexpected expected : Reader α).Reads cursor (.one accepts) behind := by
  obtain ⟨front, hfront⟩ := hform
  obtain ⟨back, hback⟩ := hbehind
  refine tracks_fail rfl ⟨_, Language.append_mem_mul hfront hback⟩ fun word hword => ?_
  exact nomatch hpeek.symm.trans (cons_mem_one_mul.mp hword).1

theorem reads_expectSymbol {mark : Symbol} {expected : String} (hbehind : ∃ word, word ∈ behind) :
    (expectSymbol mark expected).Reads cursor (.symbol mark) behind := by
  by_cases hpeek : cursor.peek.value = .symbol mark
  · refine (reads_next ?_ rfl).of_eq (if_pos hpeek)
    rw [hpeek]
    exact decide_eq_true List.mem_cons_self
  · refine (reads_unexpected ?_ (Form.productive_symbol mark) hbehind).of_eq (if_neg hpeek)
    exact decide_eq_false (mt List.mem_singleton.mp hpeek)

theorem reads_expectName {expected : String} (hbehind : ∃ word, word ∈ behind) :
    (expectName expected).Reads cursor .name behind := by
  cases hpeek : cursor.peek.value with
  | name text =>
      have hname : Reads next cursor .name behind := reads_next (by rw [hpeek]) rfl
      refine (hname.map fun read => ⟨text, read.span⟩).of_eq ?_
      rw [expectName, hpeek]
      rfl
  | _ =>
      have hunexpected : (unexpected expected : Reader (Located String)).Reads cursor .name behind :=
        reads_unexpected (by rw [hpeek]) Form.productive_name hbehind
      refine hunexpected.of_eq ?_
      rw [expectName, hpeek]

theorem reads_peek {next : Token → Reader β}
    (h : (next cursor.peek.value).Reads cursor form behind) :
    (peek >>= next).Reads cursor form behind :=
  h

theorem reads_previousSpan {next : Span → Reader β}
    (h : (next cursor.previous.span).Reads cursor form behind) :
    (previousSpan >>= next).Reads cursor form behind :=
  h

theorem reads_isAhead {token : Token} {next : Bool → Reader β}
    (htrue : cursor.peek.value = token → (next true).Reads cursor form behind)
    (hfalse : cursor.peek.value ≠ token → (next false).Reads cursor form behind) :
    (isAhead token >>= next).Reads cursor form behind := by
  by_cases hpeek : cursor.peek.value = token
  · refine (htrue hpeek).of_eq ?_
    rw [bind_apply, isAhead, decide_eq_true hpeek]
  · refine (hfalse hpeek).of_eq ?_
    rw [bind_apply, isAhead, decide_eq_false hpeek]

/-- A token decides between two forms. The second may begin with it as well, as long as the first
has what follows then. -/
theorem reads_eat {token : Token} {next : Bool → Reader β} (htoken : token ≠ .endOfInput)
    (hshared : ∀ word, token :: word ∈ other.language * behind → word ∈ form.language * behind)
    (htrue : ∀ reached, reached.rest.length < cursor.rest.length →
      (next true).Reads reached form behind)
    (hfalse : cursor.peek.value ≠ token → (next false).Reads cursor other behind) :
    (eat token >>= next).Reads cursor (.alt (.seq (.oneOf [token]) form) other) behind := by
  by_cases hpeek : cursor.peek.value = token
  · have hnext : (Reader.next >>= fun _ => next true).Reads cursor
        (.alt (.seq (.oneOf [token]) form) other) behind := by
      refine tracks_next_bind (hpeek ▸ htoken) (fun word => ?_) htrue
      rw [hpeek, Form.language_alt, Form.language_seq, add_mul, mul_assoc, Language.mem_add]
      have hmem : token :: word ∈ (Form.oneOf [token]).language * (form.language * behind) ↔
          word ∈ form.language * behind := by
        rw [Form.oneOf, cons_mem_one_mul]
        exact and_iff_right (decide_eq_true List.mem_cons_self)
      rw [hmem]
      exact ⟨fun hword => hword.elim id (hshared word), .inl⟩
    refine hnext.of_eq ?_
    rw [bind_apply, eat, if_pos hpeek]
    rfl
  · refine Reads.of_eq (Reads.right (hfalse hpeek) ?_ rfl) ?_
    · simpa [Form.opens, Form.nullable, Form.oneOf] using hpeek
    · rw [bind_apply, eat, if_neg hpeek]

/-- A token decides between two forms of which only the first begins with it. -/
theorem reads_eat_of_opens {token : Token} {next : Bool → Reader β} (htoken : token ≠ .endOfInput)
    (hopens : other.opens token = false) (hnullable : other.nullable = false)
    (htrue : ∀ reached, reached.rest.length < cursor.rest.length →
      (next true).Reads reached form behind)
    (hfalse : cursor.peek.value ≠ token → (next false).Reads cursor other behind) :
    (eat token >>= next).Reads cursor (.alt (.seq (.oneOf [token]) form) other) behind :=
  reads_eat htoken (fun word hword => absurd hword (Form.notMem_of_opens hopens hnullable word))
    htrue hfalse

theorem reads_next_bind {accepts : Token → Bool} {read : Located Token → Reader β}
    (hpeek : accepts cursor.peek.value = true) (hend : accepts .endOfInput = false)
    (hread : ∀ reached, reached.rest.length < cursor.rest.length →
      (read cursor.peek).Reads reached form behind) :
    (next >>= read).Reads cursor (.seq (.one accepts) form) behind := by
  rw [Reads, Form.language_seq, mul_assoc]
  refine tracks_next_bind ?_ (fun word => ?_) hread
  · rintro heq
    rw [heq, hend] at hpeek
    exact nomatch hpeek
  · rw [cons_mem_one_mul, and_iff_right hpeek]

/-! ## Nesting, recovery and lists -/

theorem reads_nested {read : Nat → Reader α} {room : Nat}
    (h : ∀ inner, (read inner).Reads cursor form behind) :
    (nested read room).Reads cursor form behind := by
  cases room with
  | zero => exact reads_failAt rfl cursor.peek.span
  | succ inner => exact h inner

theorem reads_recovering {read : Reader α} (h : read.Reads cursor form behind) :
    (recovering read).Reads cursor form behind := by
  intro hlast
  have houtcome := h hlast
  rw [recovering]
  cases hread : read cursor with
  | done value reached =>
      rw [hread] at houtcome
      exact houtcome
  | unfinished =>
      rw [hread] at houtcome
      exact houtcome
  | failed error recovery =>
      rw [hread] at houtcome
      obtain ⟨⟨stop, rfl, hstop⟩, hrefused⟩ := houtcome
      obtain ⟨final, hfinal, hlastFinal⟩ :=
        Cursor.synchronize_eq_some (hstop ▸ hlast)
      exact ⟨⟨final, hfinal, hlastFinal.trans hstop⟩, hrefused⟩

/-- A form that does not spell the empty word cannot be passed without a token. -/
theorem ne_nil_of_residual {passed : List Token} {ahead : Token} (hform : form.nullable = false)
    (hbehind : ∃ word, word ∈ behind)
    (h : Residual (form.language * behind) passed ahead behind) : passed ≠ [] := by
  rintro rfl
  obtain ⟨word, hword⟩ := hbehind
  -- Every word behind the form would have a shorter one at its end.
  induction hlength : word.length using Nat.strongRecOn generalizing word with
  | ind length ih =>
      obtain ⟨front, hfront, back, hback, rfl⟩ := Language.mem_mul.mp (h.sound word hword)
      refine ih back.length ?_ back hback rfl
      cases front with
      | nil => exact nomatch hform.symm.trans (hfront.begins.1 rfl)
      | cons token front =>
          rw [← hlength, List.length_append, List.length_cons]
          omega

/-- A form is read where words of it that begin with a token are not wanted, and that token is not
ahead. -/
theorem Reads.avoiding {read : Reader α} {token : Token} (h : read.Reads cursor form behind)
    (hpeek : cursor.peek.value ≠ token) (hform : form.nullable = false)
    (hproductive : (Form.avoiding token form).Productive) (hbehind : ∃ word, word ∈ behind) :
    read.Reads cursor (.avoiding token form) behind := by
  have hsame : ∀ word, cursor.peek.value :: word ∈ (Form.avoiding token form).language * behind ↔
      cursor.peek.value :: word ∈ form.language * behind := by
    intro word
    constructor
    · intro hword
      obtain ⟨front, ⟨hfront⟩, back, hback, happend⟩ := Language.mem_mul.mp hword
      exact Language.mem_mul.mpr ⟨front, ‹_›, back, hback, happend⟩
    · intro hword
      obtain ⟨front, hfront, back, hback, happend⟩ := Language.mem_mul.mp hword
      refine Language.mem_mul.mpr ⟨front, .avoiding hfront ?_, back, hback, happend⟩
      cases front with
      | nil => exact nomatch hform.symm.trans (hfront.begins.1 rfl)
      | cons first front =>
          obtain ⟨rfl, -⟩ := List.cons.inj happend
          exact fun hfirst => hpeek (Option.some.inj hfirst)
  intro hlast
  have houtcome := h hlast
  cases hread : read cursor with
  | unfinished =>
      rw [hread] at houtcome
      exact houtcome
  | done value reached =>
      rw [hread] at houtcome
      obtain ⟨passed, hpassed, hresidual⟩ := houtcome
      have hne : passed ≠ [] := fun hnil =>
        ne_nil_of_residual hform hbehind hresidual (List.map_eq_nil_iff.mpr hnil)
      refine ⟨passed, hpassed, fun word hword => ?_, fun word hword => ?_⟩
      · have hwide := hresidual.sound word hword
        obtain ⟨more, hmore⟩ := hpassed.exists_cons_of_ne_nil hne word
        rw [hmore] at hwide ⊢
        exact (hsame more).mpr hwide
      · obtain ⟨more, hmore⟩ := hpassed.exists_cons word
        apply hresidual.complete
        rw [hmore] at hword ⊢
        exact (hsame more).mp hword
  | failed error recovery =>
      rw [hread] at houtcome
      refine ⟨houtcome.1, fun found hfound => ?_⟩
      obtain ⟨passed, reached, hpassed, hreached, ⟨word, hword⟩, hdead⟩ := houtcome.2 found hfound
      refine ⟨passed, reached, hpassed, hreached, ?_, fun word hword => hdead word ?_⟩
      · by_cases hne : passed = []
        · subst hne
          obtain ⟨front, hfront⟩ := hproductive
          obtain ⟨back, hback⟩ := hbehind
          refine ⟨front ++ back, ?_⟩
          rw [List.map_nil, List.nil_append]
          exact Language.append_mem_mul hfront hback
        · obtain ⟨more, hmore⟩ := hpassed.exists_cons_of_ne_nil hne word
          rw [hmore] at hword
          exact ⟨word, hmore ▸ (hsame more).mpr hword⟩
      · obtain ⟨more, hmore⟩ := hpassed.exists_cons word
        rw [hreached] at hmore
        rw [hmore] at hword ⊢
        exact (hsame more).mp hword

/-- Items go on when nothing behind them begins with the token ahead. -/
theorem Reads.some {read : Reader α} (h : read.Reads cursor (.seq item (.many item)) behind)
    (hbehind : ∀ word, cursor.peek.value :: word ∉ behind) :
    read.Reads cursor (.many item) behind := by
  refine Reads.of_language_eq (h.left fun word => ?_) (Form.language_many item)
  rw [Form.language_nothing, one_mul]
  exact hbehind word

/-- Items end when none begins with the token ahead. -/
theorem reads_none (value : α) (hitem : item.opens cursor.peek.value = false)
    (hnullable : item.nullable = false) :
    (pure value : Reader α).Reads cursor (.many item) behind := by
  refine Reads.of_language_eq ((reads_pure value).right ?_ ?_) (Form.language_many item)
  · rw [Form.opens, hitem, hnullable, Bool.false_and, Bool.false_or]
  · rw [Form.nullable, hnullable, Bool.false_and]

/-- Items are collected up to a stop, which no item begins with and everything behind them does. -/
theorem reads_collect {stop : Cursor → Bool} {read : Reader α}
    (hstop : ∀ cursor, stop cursor = true → item.opens cursor.peek.value = false)
    (hbehind : ∀ cursor word, cursor.peek.value :: word ∈ behind → stop cursor = true)
    (hword : ∃ word, word ∈ behind) (hnullable : item.nullable = false)
    {fuel : Nat} (hfuel : cursor.rest.length < fuel)
    (hread : ∀ reached, reached.rest.length ≤ cursor.rest.length →
      read.Reads reached item ((Form.many item).language * behind)) (values : List α) :
    (collect stop read fuel values).Reads cursor (.many item) behind := by
  induction fuel generalizing cursor values with
  | zero => exact absurd hfuel (Nat.not_lt_zero _)
  | succ fuel ih =>
      by_cases hstopped : stop cursor = true
      · refine (reads_none values.reverse (hstop cursor hstopped) hnullable).of_eq ?_
        exact collect_of_stop read fuel values hstopped
      · refine Reads.of_eq (Reads.some ?_ fun word hmem => ?_)
          (collect_of_not_stop read fuel values hstopped)
        · rw [Reads, Form.language_seq, mul_assoc]
          refine Tracks.bind (hread cursor (Nat.le_refl _)) ?_
          intro value reached passed _ hpassed hresidual
          have hlength : reached.rest.length < cursor.rest.length := by
            refine hpassed.length_lt fun hnil => ?_
            refine ne_nil_of_residual hnullable ?_ hresidual (List.map_eq_nil_iff.mpr hnil)
            obtain ⟨word, hword⟩ := hword
            exact ⟨_, Language.append_mem_mul Form.Spells.none hword⟩
          refine ih (by omega) (fun later hlater => hread later (by omega)) _
        · exact hstopped (hbehind cursor word hmem)

/-- Items are read with commas between them. -/
theorem reads_separated {listing : Listing} {read : Reader α}
    (hbehind : ∀ word, .symbol .comma :: word ∉ behind)
    {fuel : Nat} (hfuel : cursor.rest.length < fuel)
    (hread : ∀ reached, reached.rest.length ≤ cursor.rest.length → read.Reads reached item
      ((Form.many (.seq (.symbol .comma) item)).language * behind)) (values : List α) :
    (separated listing read fuel values).Reads cursor
      (.seq item (.many (.seq (.symbol .comma) item))) behind := by
  induction fuel generalizing cursor values with
  | zero => exact absurd hfuel (Nat.not_lt_zero _)
  | succ fuel ih =>
      rw [separated]
      split
      next => exact reads_failAt rfl cursor.peek.span
      next =>
        refine (hread cursor (Nat.le_refl _)).bind fun value reached hreached => ?_
        refine Reads.of_language_eq (reads_eat (by decide) ?_ ?_ ?_) (Form.language_many_seq _ _)
        · intro word hword
          rw [Form.language_nothing, one_mul] at hword
          exact absurd hword (hbehind word)
        · intro later hlater
          exact ih (by omega) (fun last hlast => hread last (by omega)) _
        · intro _
          exact reads_pure _

/-- A listing in parentheses may be empty. -/
theorem reads_listing {listing : Listing} {read : Reader α} {next : List α → Reader β} {fuel : Nat}
    (hopens : item.opens (.symbol .closeParen) = false) (hnullable : item.nullable = false)
    (hbehind : ∃ word, word ∈ behind) (hfuel : cursor.rest.length < fuel)
    (hread : ∀ reached, reached.rest.length ≤ cursor.rest.length → ∀ behind,
      Behind (·.endsExpr = true) behind → read.Reads reached item behind)
    (hnext : ∀ values reached, reached.rest.length ≤ cursor.rest.length →
      (next values).Reads reached (.sequence [.symbol .closeParen]) behind) :
    (isAhead (.symbol .closeParen) >>= fun empty =>
      if empty then pure [] >>= next
      else separated listing read fuel [] >>= next).Reads cursor (.listing item) behind := by
  refine Reads.of_language_eq (reads_isAhead ?_ ?_) (Form.language_optional_seq _ _)
  · intro hpeek
    refine Reads.right (hnext [] cursor (Nat.le_refl _)) ?_ ?_
    · rw [hpeek, Form.opens, Form.opens, Form.nullable, hopens, hnullable]
      rfl
    · rw [Form.nullable, Form.nullable, hnullable]
      rfl
  · intro hpeek
    have hclosing : Behind (· = .symbol .closeParen)
        ((Form.sequence [.symbol .closeParen]).language * behind) :=
      behind_symbol rfl Form.productive_nothing hbehind
    refine Reads.left ?_ fun word hword => hpeek (hclosing.allowed _ word hword)
    refine Reads.bind (reads_separated ?_ hfuel ?_ []) hnext
    · intro word hword
      cases hclosing.allowed _ word hword
    · intro reached hreached
      have hends : Behind (·.endsExpr = true)
          ((Form.sequence [.symbol .closeParen]).language * behind) :=
        hclosing.imp fun token htoken => htoken ▸ rfl
      refine hread reached hreached _ (hends.many fun token htoken => ?_)
      rw [Form.opens_symbol_seq.mp htoken]
      rfl

end Reader

end Stacklet
