import HtmlTemplate.Proofs.Grammar.Exact

/-!
# What may come next

The grammar as an automaton. Its state is a stack of goals, which say what has to come behind the tokens that
were read; a token replaces the goal at the top by others or fits none of them. The automaton does without
lookahead, so what it does with some tokens does not depend on those behind them.

## Contents

* `Goal`, `Goal.move` — what has to come, and what a token makes of it;
* `Goal.Expects` — goals that one kind of token fulfils;
* `step`, `run` — the automaton;
* `run_append` — tokens one behind the other.
-/

namespace HtmlTemplate

namespace Grammar

/-! ## The automaton -/

/-- Something that has to come next. -/
inductive Goal where
  /-- Comments and definitions up to the end of the source. -/
  | source
  | name
  | openBrace
  /-- Items and a closing brace. -/
  | items
  /-- Whatever may stand behind the name of a tag or call, if anything does. -/
  | behindName
  /-- More modifiers, a block, or nothing. -/
  | behindTag
  | selector
  | equal
  | attrValue
  | closeBracket
  /-- Comments, and arguments or none of them, and a closing parenthesis. -/
  | behindParen
  /-- Comments and the name of an argument. -/
  | argument
  | colon
  | argumentValue
  /-- Comments, and a comma with more arguments or a closing parenthesis. -/
  | behindArgument
deriving DecidableEq

/-- What a token makes of a goal. -/
inductive Move where
  /-- The token is the first one of what was to come, and these goals are left of it. -/
  | take (left : List Goal)
  /-- Nothing more has to come, and the goal below decides about the token. -/
  | pass
  | fault (cause : SyntaxFault)

def Goal.move (goal : Goal) (kind : TokenKind Range) : Move :=
  match goal with
  | source =>
    match kind with
    | .comment _ => .take [source]
    | .eof => .take []
    | .ident text =>
      if Definition.isKeyword text then .take [name, openBrace, items, source] else .fault .expectedDefinition
    | _ => .fault .expectedDefinition
  | name =>
    match kind with
    | .ident _ => .take []
    | _ => .fault .expectedIdentifier
  | openBrace =>
    match kind with
    | .lbrace => .take []
    | _ => .fault .unexpectedToken
  | items =>
    match kind with
    | .rbrace => .take []
    | .comment _ | .literal _ | .reference _ => .take [items]
    | .ident _ => .take [behindName, items]
    | .eof => .fault .expectedClosingBrace
    | _ => .fault .unexpectedToken
  | behindName =>
    match kind with
    -- Only directly behind the name does a parenthesis make it a call.
    | .lparen => .take [behindParen]
    | .hash | .dot => .take [selector, behindTag]
    | .lbracket => .take [name, equal, attrValue, closeBracket, behindTag]
    | .lbrace => .take [items]
    | _ => .pass
  | behindTag =>
    match kind with
    | .hash | .dot => .take [selector, behindTag]
    | .lbracket => .take [name, equal, attrValue, closeBracket, behindTag]
    | .lbrace => .take [items]
    | _ => .pass
  | selector =>
    match kind with
    | .ident _ | .reference _ => .take []
    | _ => .fault .expectedIdentifier
  | equal =>
    match kind with
    | .equal => .take []
    | _ => .fault .unexpectedToken
  | attrValue =>
    match kind with
    | .quote _ | .reference _ => .take []
    | _ => .fault .unexpectedToken
  | closeBracket =>
    match kind with
    | .rbracket => .take []
    | _ => .fault .expectedClosingBracket
  | behindParen =>
    match kind with
    | .comment _ => .take [behindParen]
    | .rparen => .take []
    | .ident _ => .take [colon, argumentValue, behindArgument]
    | .eof => .fault .expectedClosingParen
    | _ => .fault .missingArgumentName
  | argument =>
    match kind with
    -- Behind a comma an argument has to come.
    | .comment _ => .take [argument]
    | .ident _ => .take [colon, argumentValue, behindArgument]
    | .eof => .fault .expectedClosingParen
    | _ => .fault .missingArgumentName
  | colon =>
    match kind with
    | .colon => .take []
    | .eof => .fault .expectedClosingParen
    | _ => .fault .unexpectedToken
  | argumentValue =>
    match kind with
    | .reference _ | .quote _ | .literal _ => .take []
    | .lbrace => .take [items]
    | .comma | .rparen => .fault .missingArgumentValue
    | .eof => .fault .expectedClosingParen
    | _ => .fault .unexpectedToken
  | behindArgument =>
    match kind with
    | .comment _ => .take [behindArgument]
    | .comma => .take [argument]
    | .rparen => .take []
    | _ => .fault .expectedClosingParen

/-- One kind of token is what has to come, and any other is the same fault. -/
def Goal.Expects (goal : Goal) (kind : TokenKind Range) (cause : SyntaxFault) : Prop :=
  ∀ other, goal.move other = if other = kind then .take [] else .fault cause

theorem Goal.openBrace_expects : openBrace.Expects .lbrace .unexpectedToken := by
  intro other
  cases other <;> rfl

theorem Goal.equal_expects : equal.Expects .equal .unexpectedToken := by
  intro other
  cases other <;> rfl

theorem Goal.closeBracket_expects : closeBracket.Expects .rbracket .expectedClosingBracket := by
  intro other
  cases other <;> rfl

/-- What a token makes of some goals. Behind the end of a source there are none, and tokens do not matter. -/
def step : List Goal → TokenKind Range → Except SyntaxFault (List Goal)
  | [], _ => .ok []
  | goal :: below, kind =>
    match goal.move kind with
    | .take left => .ok (left ++ below)
    | .pass => step below kind
    | .fault cause => .error cause

theorem step_take {goal : Goal} {kind : TokenKind Range} {left : List Goal} (h : goal.move kind = .take left)
    (below : List Goal) : step (goal :: below) kind = .ok (left ++ below) := by
  rw [step, h]

theorem step_pass {goal : Goal} {kind : TokenKind Range} (h : goal.move kind = .pass) (below : List Goal) :
    step (goal :: below) kind = step below kind := by
  rw [step, h]

theorem step_fault {goal : Goal} {kind : TokenKind Range} {cause : SyntaxFault} (h : goal.move kind = .fault cause)
    (below : List Goal) : step (goal :: below) kind = .error cause := by
  rw [step, h]

/-- What some tokens make of some goals, or the first token that does not fit. -/
def run : List Goal → List Token → Except SyntaxError (List Goal)
  | goals, [] => .ok goals
  | goals, token :: tokens =>
    match step goals token.kind with
    | .ok more => run more tokens
    | .error cause => .error (.fault cause token)

@[simp] theorem run_nil (goals : List Goal) : run goals [] = .ok goals := by
  unfold run
  rfl

theorem run_cons_ok {goals more : List Goal} {token : Token} (h : step goals token.kind = .ok more)
    (tokens : List Token) : run goals (token :: tokens) = run more tokens := by
  rw [run, h]

theorem run_cons_error {goals : List Goal} {token : Token} {cause : SyntaxFault}
    (h : step goals token.kind = .error cause) (tokens : List Token) :
    run goals (token :: tokens) = .error (.fault cause token) := by
  rw [run, h]

/-- Behind the end of a source tokens do not matter. -/
theorem run_no_goals (tokens : List Token) : run [] tokens = .ok [] := by
  induction tokens with
  | nil => exact run_nil []
  | cons token tokens ih => exact ih

theorem run_append (goals : List Goal) (tokens more : List Token) :
    run goals (tokens ++ more) = (run goals tokens).bind fun goals => run goals more := by
  induction tokens generalizing goals with
  | nil => rw [List.nil_append, run_nil]; rfl
  | cons token tokens ih =>
    rw [List.cons_append, run, run]
    cases step goals token.kind with
    | ok more => exact ih more
    | error cause => rfl

end Grammar

end HtmlTemplate
