import TierCalc.Expr.SyntaxError

/-!
# From tokens to expressions

Operators bind by level: a reader of level `n` takes an operand and then every operator that binds tighter than `n`,
each with its right operand. Operators of one level group to the left; assignment takes a whole expression on its
right, so it groups to the right.

* A token is consumed only if the one after it can be read, so an illegal byte is reported before any fault that
  shows only later.
* `Parser.expression` recurses on the nesting depth that is left: every operand, right operand, argument and part of
  a conditional is one level deeper than the expression around it.
-/

namespace TierCalc

/-- Takes the first token off a stream. The end token stays. -/
def Tokens.consume : Tokens → Except SyntaxFault (Token × Tokens)
  | .more _ (.fault e) => .error (.illegal e)
  | .more t rest => .ok (t, rest)
  | .done t => .ok (t, .done t)
  | .fault e => .error (.illegal e)

def Tokens.peek : Tokens → Except SyntaxFault Token
  | .more t _ => .ok t
  | .done t => .ok t
  | .fault e => .error (.illegal e)

/-- The kind of the first token. An illegal byte ends the stream. -/
def Tokens.kind : Tokens → Token.Kind
  | .more t _ => t.kind
  | .done t => t.kind
  | .fault _ => .eof

namespace Parser

/-- Consumes a token of the wanted kind. -/
def expect (wanted : Token.Kind) (within : Construct) (ts : Tokens) : Except SyntaxFault (Token × Tokens) :=
  if ts.kind = wanted then ts.consume
  else do throw (.missing (← ts.peek) within wanted)

/-- The value of a literal, if it is below `2 ^ 63`. -/
def literalValue? (s : String) : Option Int64 :=
  match Numeral.nat? 10 s with
  | some n => if n < 0x8000000000000000 then some (Int64.ofNat n) else none
  | none => none

section

-- How to read an expression one level deeper, given the level of the operator before it.
variable (inner : Nat → Tokens → Except SyntaxFault (Expr × Tokens))

/-- The three parts of a conditional and its closing parenthesis, after the keyword `t`. -/
def conditional (t : Token) (ts : Tokens) : Except SyntaxFault (Expr × Tokens) := do
  let (lp, ts) ← expect .lparen .conditional ts
  let (c, ts) ← inner Token.Kind.lowest ts
  let (_, ts) ← expect .comma .conditional ts
  let (y, ts) ← inner Token.Kind.lowest ts
  let (_, ts) ← expect .comma .conditional ts
  let (n, ts) ← inner Token.Kind.lowest ts
  let (rp, ts) ← expect .rparen .conditional ts
  return (.cond t.start lp.start c y n rp.start, ts)

/-- The operand that starts with token `t`. A leading minus is subtraction from zero. -/
def operand (t : Token) (ts : Tokens) : Except SyntaxFault (Expr × Tokens) :=
  match t.kind with
  | .ident => .ok (.ident t.start t.literal, ts)
  | .int =>
      match literalValue? t.literal with
      | some v => .ok (.int t.start t.literal v, ts)
      | none => .error (.outOfRange t)
  | .lparen => do
      let (e, ts) ← inner Token.Kind.lowest ts
      let (_, ts) ← expect .rparen .group ts
      return (e, ts)
  | .minus => do
      let (e, ts) ← inner Token.Kind.unary ts
      return (.binary (.int t.start "0" 0) t.start Operator.subtract.number e, ts)
  | .cond => conditional inner t ts
  | _ => .error (.noOperand t)

/-- The arguments after the first one, up to a token that is no comma; `fuel` bounds their number. -/
def moreArguments : Nat → Tokens → Except SyntaxFault (List Expr × Tokens)
  | 0, ts => .ok ([], ts)
  | fuel + 1, ts =>
      if ts.kind = .comma then do
        let (_, ts) ← ts.consume
        let (a, ts) ← inner Token.Kind.lowest ts
        let (rest, ts) ← moreArguments fuel ts
        return (a :: rest, ts)
      else .ok ([], ts)

/-- The arguments of a call and the closing parenthesis. -/
def arguments (fuel : Nat) (ts : Tokens) : Except SyntaxFault ((List Expr × Token) × Tokens) :=
  if ts.kind = .rparen then do
    let (rp, ts) ← ts.consume
    return (([], rp), ts)
  else do
    let (a, ts) ← inner Token.Kind.lowest ts
    let (rest, ts) ← moreArguments inner fuel ts
    let (rp, ts) ← expect .rparen .arguments ts
    return ((a :: rest, rp), ts)

/-- What operator `t` makes of the operand on its left and the tokens on its right. -/
def extend (fuel : Nat) (left : Expr) (t : Token) (ts : Tokens) : Except SyntaxFault (Expr × Tokens) :=
  match t.kind with
  | .assign =>
      match left with
      | .ident p name => do
          let (v, ts) ← inner Token.Kind.lowest ts
          return (.assign p name t.start v, ts)
      | _ => .error (.badTarget t left)
  | .lparen =>
      match left with
      | .ident p name => do
          let ((args, rp), ts) ← arguments inner fuel ts
          return (.call p name t.start args rp.start, ts)
      | _ => .error (.notCallable t)
  | _ =>
      match Operator.ofSymbol? t.literal with
      | some op => do
          let (r, ts) ← inner t.kind.level ts
          return (.binary left t.start op.number r, ts)
      | none => .error (.noOperand t)

/-- Extends an operand by every operator that binds tighter than `level`; `fuel` bounds their number. -/
def extendAll (limit level : Nat) : Nat → Expr → Tokens → Except SyntaxFault (Expr × Tokens)
  | 0, left, ts => .ok (left, ts)
  | fuel + 1, left, ts =>
      if level < ts.kind.level then do
        let (t, ts) ← ts.consume
        let (left, ts) ← extend inner limit left t ts
        extendAll limit level fuel left ts
      else .ok (left, ts)

end

/-- Reads an expression of operators that bind tighter than `level`, nested at most `depth` deep, from a stream of
at most `limit` tokens. -/
def expression (limit : Nat) : (depth level : Nat) → Tokens → Except SyntaxFault (Expr × Tokens)
  | 0, _, ts => do
      let (t, _) ← ts.consume
      throw (.tooDeep t)
  | depth + 1, level, ts => do
      let (t, ts) ← ts.consume
      let (left, ts) ← operand (expression limit depth) t ts
      extendAll (expression limit depth) limit level limit left ts

/-- Whether anything but one closing semicolon follows the expression. -/
def finish (ts : Tokens) : Except SyntaxFault Unit := do
  let ts ← if ts.kind = .semicolon then (·.2) <$> ts.consume else pure ts
  if ts.kind = .eof then
    match ts with
    | .fault e => throw (.illegal e)
    | _ => pure ()
  else throw (.trailing (← ts.peek))

/-- Reads a whole stream as one expression. -/
def whole (cancelled : Bool) (maxDepth : Int) (ts : Tokens) : Except SyntaxFault Expr := do
  let (t, _) ← ts.consume
  if t.kind = .eof then throw (.empty t)
  if cancelled then throw .cancelled
  let (e, ts) ← expression ts.size maxDepth.toNat Token.Kind.lowest ts
  finish ts
  return e

end Parser

/-- The limits on reading an expression. -/
structure ParseOptions where
  maxDepth : Int := 256
  cancelled : Bool := false
deriving DecidableEq, Repr

/-- The expression that a source spells, or the first fault in it. -/
def Expr.parse (s : Source) (o : ParseOptions := {}) : Except SyntaxError Expr :=
  match Parser.whole o.cancelled o.maxDepth s.tokens with
  | .ok e => .ok e
  | .error f => .error (.ofFault s f)

end TierCalc
