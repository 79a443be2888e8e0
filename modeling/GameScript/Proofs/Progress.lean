import GameScript.Proofs.Recursion
import GameScript.Proofs.Running

/-!
Steps of runs over closed lists of tokens. A search runs as a parser does if both come to the same
outcome, and the cursor after a value that was read is where it is told to be. The rules below go
through a production step by step.
-/

namespace GameScript

theorem Closed.kind_getLast {tokens : List Token} (closed : Closed tokens) :
    (tokens.getLast closed.ne_nil).kind = .finish := by
  obtain ⟨inside, last, rfl, finish⟩ := closed
  simpa using finish

theorem Closed.advance {cursor : Cursor} (closed : Closed cursor.tokens) :
    Closed cursor.advance.tokens :=
  cursor.tokens_advance ▸ closed

namespace Cursor

/-- The cursor has stayed or moved on over the same closed list, and not past its end. -/
structure Reaches (start after : Cursor) : Prop where
  closed : Closed after.tokens
  tokens_eq : after.tokens = start.tokens
  length_le : after.rest.length ≤ start.rest.length
  ahead : start.rest ≠ [] → after.rest ≠ []

structure Advances (start after : Cursor) : Prop extends Reaches start after where
  length_lt : after.rest.length < start.rest.length

theorem Reaches.refl {cursor : Cursor} (closed : Closed cursor.tokens) : cursor.Reaches cursor :=
  ⟨closed, rfl, le_rfl, id⟩

section Steps

variable {start middle after : Cursor}

theorem Reaches.trans (first : start.Reaches middle) (second : middle.Reaches after) :
    start.Reaches after :=
  ⟨second.closed, second.tokens_eq.trans first.tokens_eq, second.length_le.trans first.length_le,
    fun inside => second.ahead (first.ahead inside)⟩

theorem Reaches.advances (first : start.Reaches middle) (second : middle.Advances after) :
    start.Advances after :=
  ⟨first.trans second.toReaches, second.length_lt.trans_le first.length_le⟩

theorem Advances.reaches (first : start.Advances middle) (second : middle.Reaches after) :
    start.Advances after :=
  ⟨first.toReaches.trans second, second.length_le.trans_lt first.length_lt⟩

theorem Advances.rest_ne_nil (advances : start.Advances after) : after.rest ≠ [] :=
  advances.ahead (List.ne_nil_of_length_pos (Nat.zero_lt_of_lt advances.length_lt))

end Steps

variable {cursor : Cursor}

theorem rest_eq_cons_of_inner (closed : Closed cursor.tokens) (inner : cursor.peek.kind ≠ .finish) :
    ∃ next rest, cursor.rest = cursor.peek :: next :: rest := by
  obtain ⟨inside, last, shape, finish⟩ := closed
  obtain ⟨passed, rest, inhabited⟩ := cursor
  rcases rest with _ | ⟨token, _ | ⟨next, rest⟩⟩
  · obtain rfl : passed = last :: inside.reverse := by
      simpa [tokens, List.reverse_eq_iff] using shape
    exact absurd finish inner
  · obtain ⟨_, rfl⟩ : passed.reverse = inside ∧ token = last := by simpa [tokens] using shape
    exact absurd finish inner
  · exact ⟨next, rest, rfl⟩

theorem advances_advance (closed : Closed cursor.tokens) (inner : cursor.peek.kind ≠ .finish) :
    cursor.Advances cursor.advance := by
  obtain ⟨next, rest, shape⟩ := rest_eq_cons_of_inner closed inner
  have rest_eq : cursor.advance.rest = next :: rest := rest_advance shape
  refine ⟨⟨closed.advance, cursor.tokens_advance, ?_, ?_⟩, ?_⟩ <;>
    simp [rest_eq, shape]

theorem kind_peek_of_passed (closed : Closed cursor.tokens) (passed : cursor.rest.length ≤ 0) :
    cursor.peek.kind = .finish := by
  by_contra inner
  have shorter := (advances_advance closed inner).length_lt
  omega

theorem reaches_passWhile (closed : Closed cursor.tokens) {test : TokenKind → Bool}
    (inner : test .finish = false) : cursor.Reaches (cursor.passWhile test) := by
  have same := cursor.tokens_passWhile test
  refine ⟨same ▸ closed, same, List.length_dropWhile_le _ _, fun inside none => ?_⟩
  -- Were nothing left, the closing token would have been passed.
  have all := List.dropWhile_eq_nil_iff.mp none
  have last := all _ (List.getLast_mem inside)
  have finish := closed.kind_getLast
  simp only [tokens, List.getLast_append_of_ne_nil _ inside] at finish
  simp [finish, inner] at last

theorem Reaches.skipLineEnds {start : Cursor} (reaches : start.Reaches cursor) :
    start.Reaches cursor.skipLineEnds :=
  reaches.trans (reaches_passWhile reaches.closed rfl)

theorem Reaches.skipBlank {start : Cursor} (reaches : start.Reaches cursor) :
    start.Reaches cursor.skipBlank :=
  reaches.trans (reaches_passWhile reaches.closed rfl)

theorem Advances.skipLineEnds {start : Cursor} (advances : start.Advances cursor) :
    start.Advances cursor.skipLineEnds :=
  advances.reaches (reaches_passWhile advances.closed rfl)

theorem Reaches.advance {start : Cursor} (reaches : start.Reaches cursor)
    (inner : cursor.peek.kind ≠ .finish) : start.Advances cursor.advance :=
  reaches.advances (advances_advance reaches.closed inner)

theorem terminator_cases {after : Cursor} {value : Unit} (closed : Closed cursor.tokens)
    (read : Parser.terminator cursor = .ok value after) :
    cursor.Advances after ∨ cursor.peek.kind = .finish ∧ after = cursor := by
  have here := Reaches.refl closed
  unfold Parser.terminator at read
  split at read
  next semicolon =>
    have passed := here.advance (by simp [semicolon])
    split at read
    next lineEnd =>
      obtain ⟨_, rfl⟩ := Reply.ok.inj read
      have inner : cursor.advance.peek.kind ≠ .finish := by
        change cursor.second.kind ≠ .finish
        simp [lineEnd]
      exact Or.inl (passed.toReaches.advance inner)
    next =>
      obtain ⟨_, rfl⟩ := Reply.ok.inj read
      exact Or.inl passed
  next lineEnd =>
    obtain ⟨_, rfl⟩ := Reply.ok.inj read
    exact Or.inl (here.advance (by simp [lineEnd]))
  next finish =>
    obtain ⟨_, rfl⟩ := Reply.ok.inj read
    exact Or.inr ⟨finish, rfl⟩
  next => cases read

theorem reaches_terminator {after : Cursor} {value : Unit} (closed : Closed cursor.tokens)
    (read : Parser.terminator cursor = .ok value after) : cursor.Reaches after := by
  rcases terminator_cases closed read with advances | ⟨_, rfl⟩
  · exact advances.toReaches
  · exact .refl closed

theorem length_advance_le (cursor : Cursor) : cursor.advance.rest.length ≤ cursor.rest.length := by
  unfold advance
  split
  next shape => simp [shape]
  next => exact le_rfl

theorem advances_of_advance {after : Cursor} (advances : cursor.advance.Advances after) :
    cursor.Advances after :=
  ⟨⟨advances.closed, advances.tokens_eq.trans cursor.tokens_advance,
    advances.length_le.trans cursor.length_advance_le, fun _ => advances.rest_ne_nil⟩,
    advances.length_lt.trans_le cursor.length_advance_le⟩

end Cursor

/-! Runs. -/

namespace Search

variable {α β : Type} {search : Search α} {cursor : Cursor}

theorem bind_of_ok {value : α} {after : Cursor} (ended : search cursor = some (.ok (value, after)))
    (next : α → Search β) : (search >>= next) cursor = next value after := by
  change (search cursor >>= fun read => next read.1 read.2) = _
  rw [ended]
  rfl

theorem bind_of_error {reason : SourceError} (ended : search cursor = some (.error reason))
    (next : α → Search β) : (search >>= next) cursor = some (.error reason) := by
  change (search cursor >>= fun read => next read.1 read.2) = _
  rw [ended]
  rfl

end Search

/-- The search comes to the outcome of the parser, and a value is read up to a cursor as told. -/
structure Runs {α : Type} (search : Search α) (parser : Parser α) (cursor : Cursor)
    (told : α → Cursor → Prop) : Prop where
  ends : search cursor = some (parser cursor).outcome
  leaves : ∀ value after, parser cursor = .ok value after → told value after

namespace Runs

variable {α β : Type} {search : Search α} {parser : Parser α} {cursor : Cursor}
  {told : α → Cursor → Prop}

theorem weaken {other : α → Cursor → Prop} (runs : Runs search parser cursor told)
    (implies : ∀ value after, told value after → other value after) :
    Runs search parser cursor other :=
  ⟨runs.ends, fun value after read => implies value after (runs.leaves value after read)⟩

theorem at_eq {same : Parser α} (runs : Runs search same cursor told)
    (eq : parser cursor = same cursor) : Runs search parser cursor told :=
  ⟨eq ▸ runs.ends, eq ▸ runs.leaves⟩

theorem of_eq {place : Cursor} {other : Search α} {same : Parser α}
    (runs : Runs search parser place told) (searches : other cursor = search place)
    (parses : same cursor = parser place) : Runs other same cursor told :=
  ⟨by rw [searches, parses, runs.ends], parses ▸ runs.leaves⟩

theorem behind {start : Cursor} (here : start.Reaches cursor)
    (runs : Runs search parser cursor fun _ => cursor.Advances) :
    Runs search parser cursor fun _ => start.Advances :=
  runs.weaken fun _ _ read => here.advances read

theorem lift (parser : Parser α) (cursor : Cursor) :
    Runs (liftM parser) parser cursor fun value after => parser cursor = .ok value after :=
  ⟨rfl, fun _ _ read => read⟩

theorem pure {value : α} (isTold : told value cursor) :
    Runs (pure value) (pure value) cursor told := by
  refine ⟨rfl, fun given after read => ?_⟩
  obtain ⟨rfl, rfl⟩ := Parser.pure_ok_iff.mp read
  exact isTold

theorem give (value : α) {after : Cursor} (isTold : told value after)
    (ends : search cursor = some (.ok (value, after))) (read : parser cursor = .ok value after) :
    Runs search parser cursor told := by
  refine ⟨by rw [ends, read]; rfl, fun given last other => ?_⟩
  obtain ⟨rfl, rfl⟩ := Reply.ok.inj (read.symm.trans other)
  exact isTold

theorem failAt (token : Token) (kind : ErrorKind) :
    Runs (liftM (Parser.failAt token kind : Parser α)) (Parser.failAt token kind) cursor told :=
  ⟨rfl, fun _ _ read => absurd read Parser.not_failAt_ok⟩

theorem atomic (runs : Runs search parser cursor told) :
    Runs search (Parser.atomic parser) cursor told := by
  refine ⟨?_, fun value after read => runs.leaves value after (Parser.atomic_ok_iff.mp read)⟩
  rw [runs.ends]
  unfold Parser.atomic
  cases parser cursor <;> rfl

theorem bind {next : α → Search β} {later : α → Parser β} {other : β → Cursor → Prop}
    (runs : Runs search parser cursor told)
    (goesOn : ∀ value after, told value after → Runs (next value) (later value) after other) :
    Runs (search >>= next) (parser >>= later) cursor other := by
  obtain ⟨ends, leaves⟩ := runs
  have parsed : (parser >>= later) cursor = Parser.andThen parser later cursor := rfl
  cases read : parser cursor with
  | ok value after =>
      obtain ⟨nextEnds, nextLeaves⟩ := goesOn value after (leaves value after read)
      simp only [Parser.andThen, read] at parsed
      rw [read] at ends
      rw [← parsed] at nextEnds nextLeaves
      exact ⟨(Search.bind_of_ok ends next).trans nextEnds, nextLeaves⟩
  | error reason after =>
      simp only [Parser.andThen, read] at parsed
      rw [read] at ends
      exact ⟨(Search.bind_of_error ends next).trans (by rw [parsed]; rfl), by simp [parsed]⟩

section Steps

variable {start : Cursor} {other : β → Cursor → Prop}

theorem read {value : α} {after : Cursor} {next : α → Search β} {later : α → Parser β}
    (isRead : parser cursor = .ok value after)
    (goesOn : Runs (next value) (later value) after other) :
    Runs (liftM parser >>= next) (parser >>= later) cursor other := by
  refine (lift parser cursor).bind fun other last isOther => ?_
  obtain ⟨rfl, rfl⟩ := Reply.ok.inj (isRead.symm.trans isOther)
  exact goesOn

variable {step : Unit → Search β} {later : Unit → Parser β}

theorem symbol {sign : Symbol} {kind : ErrorKind} (here : start.Reaches cursor)
    (goesOn : start.Advances cursor.advance → Runs (step ()) (later ()) cursor.advance other) :
    Runs (liftM (Parser.symbol sign kind) >>= step) (Parser.symbol sign kind >>= later) cursor
      other := by
  refine (lift _ cursor).bind fun _ after read => ?_
  obtain ⟨found, rfl⟩ := Parser.symbol_ok_iff.mp read
  exact goesOn (here.advance (by simp [found]))

theorem name {kind : ErrorKind} {next : String → Search β} {later : String → Parser β}
    (here : start.Reaches cursor)
    (goesOn : start.Advances cursor.advance →
      Runs (next cursor.peek.lit) (later cursor.peek.lit) cursor.advance other) :
    Runs (liftM (Parser.name kind) >>= next) (Parser.name kind >>= later) cursor other := by
  refine (lift _ cursor).bind fun _ after read => ?_
  obtain ⟨found, rfl, rfl⟩ := Parser.name_ok_iff.mp read
  exact goesOn (here.advance (by simp [found]))

theorem terminator (here : start.Advances cursor)
    (goesOn : ∀ after, start.Advances after → Runs (step ()) (later ()) after other) :
    Runs (liftM Parser.terminator >>= step) (Parser.terminator >>= later) cursor other :=
  (lift _ cursor).bind fun _ after read =>
    goesOn after (here.reaches (Cursor.reaches_terminator here.closed read))

theorem ended (runs : Runs search parser cursor fun _ => start.Advances) (build : α → β) :
    Runs (do let value ← search; liftM Parser.terminator; return build value)
      (do let value ← parser; Parser.terminator; return build value) cursor
      fun _ => start.Advances :=
  runs.bind fun _ _ read => .terminator read fun _ last => .pure last

end Steps

theorem orElse {first second : Search α} {parser later : Parser α}
    (firstRuns : Runs first parser cursor told) (secondRuns : Runs second later cursor told) :
    Runs (Search.orElse first second) (Parser.orElse parser later) cursor told := by
  obtain ⟨firstEnds, firstLeaves⟩ := firstRuns
  obtain ⟨secondEnds, secondLeaves⟩ := secondRuns
  constructor
  · unfold Search.orElse Parser.orElse ExceptT.run
    rw [firstEnds, secondEnds]
    cases parser cursor <;> cases later cursor <;> rfl
  · intro value after read
    rcases Parser.orElse_ok_iff.mp read with isFirst | ⟨_, isSecond⟩
    · exact firstLeaves value after isFirst
    · exact secondLeaves value after isSecond

theorem relabelled {kind : ErrorKind} {labelled : Parser α} (runs : Runs search parser cursor told)
    (reads : ∀ value after, parser cursor = .ok value after → labelled cursor = .ok value after)
    (fails : ∀ reason after, parser cursor = .error reason after →
      (labelled cursor).outcome = .error (cursor.peek.fault kind)) :
    Runs (search.relabel kind) labelled cursor told := by
  obtain ⟨ends, leaves⟩ := runs
  cases read : parser cursor with
  | ok value after =>
      refine .give value (leaves value after read) ?_ (reads value after read)
      rw [Search.relabel, ExceptT.run, ends, read]
      rfl
  | error reason after =>
      have outcome := fails reason after read
      refine ⟨?_, fun value last isRead => ?_⟩
      · rw [Search.relabel, ExceptT.run, ends, read, outcome]
        rfl
      · rw [isRead] at outcome
        cases outcome

theorem relabel {kind : ErrorKind} (runs : Runs search parser cursor told)
    (restores : parser.Restores) : Runs (search.relabel kind) (parser.relabel kind) cursor told := by
  refine runs.relabelled (fun _ _ read => by simp [Parser.relabel, read]) fun reason after read => ?_
  have here := restores cursor
  rw [read] at here
  obtain rfl : after = cursor := here
  simp [Parser.relabel, read, Reply.outcome]

theorem listed {place start : Cursor} {more : Search (List α)} {later : Cursor → Parser (List α)}
    (first : Runs search parser place fun _ => start.Advances)
    (rest : ∀ after, start.Advances after → Runs more (later after) after fun _ => after.Reaches)
    (closed : Closed start.tokens) :
    Runs (Search.listed (search place) more)
      (fun cursor =>
        match parser place with
        | .ok item after => (do return item :: (← later after) : Parser (List α)) after
        | .error _ _ => .ok [] cursor)
      start fun _ => start.Reaches := by
  obtain ⟨ends, leaves⟩ := first
  rw [ends]
  cases read : parser place with
  | ok item after =>
      have ahead := leaves item after read
      have list : Runs (do return item :: (← more)) (do return item :: (← later after)) after
          fun _ => start.Reaches :=
        (rest after ahead).bind fun _ _ further => .pure (ahead.toReaches.trans further)
      exact list.of_eq rfl rfl
  | error reason after => exact .give [] (Cursor.Reaches.refl closed) rfl rfl

end Runs

def NotingParser.reply {α : Type} (parser : NotingParser α) : Parser α := fun cursor =>
  (parser cursor).2

namespace NotingParser

variable {α β : Type}

@[simp] theorem reply_pure (value : α) : (pure value : NotingParser α).reply = pure value := rfl

@[simp] theorem reply_lift (parser : Parser α) : (liftM parser : NotingParser α).reply = parser :=
  rfl

@[simp] theorem reply_bind (first : NotingParser α) (next : α → NotingParser β) :
    (first >>= next).reply = first.reply >>= fun value => (next value).reply := by
  funext cursor
  change (andThen first next cursor).2 = Parser.andThen first.reply _ cursor
  unfold andThen Parser.andThen reply
  obtain ⟨notes, reply⟩ := first cursor
  cases reply <;> rfl

@[simp] theorem reply_atomic (parser : NotingParser α) :
    (atomic parser).reply = Parser.atomic parser.reply := by
  funext cursor
  simp only [reply, atomic, Parser.atomic]
  obtain ⟨notes, reply⟩ := parser cursor
  cases reply <;> rfl

end NotingParser

namespace Runs

variable {α β : Type} {search : Search α} {parser : NotingParser α} {cursor : Cursor}
  {told : α → Cursor → Prop}

theorem atomicNoting (runs : Runs search parser.reply cursor told) :
    Runs search (NotingParser.atomic parser).reply cursor told := by
  rw [NotingParser.reply_atomic]
  exact runs.atomic

theorem bindNoting {next : α → Search β} {later : α → NotingParser β} {other : β → Cursor → Prop}
    (runs : Runs search parser.reply cursor told)
    (goesOn : ∀ value after, told value after → Runs (next value) (later value).reply after other) :
    Runs (search >>= next) (parser >>= later).reply cursor other := by
  rw [NotingParser.reply_bind]
  exact runs.bind goesOn

end Runs

end GameScript
