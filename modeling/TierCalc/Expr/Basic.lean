import TierCalc.Operator
import TierCalc.Source.Position

/-!
# Expressions

Trees of the expression language. Every node knows where it stands in its source; trees built without a source have
unset positions throughout.

* `Expr.pos` and `Expr.stop` are the positions of a node's first byte and of the byte after its last.
* `Expr.render` writes a tree in its canonical form: every binary node in parentheses, assignments without.
  `Expr.chars` says which characters these are, and `Expr.render_eq` that `render` gives them.
* `Expr.words` lists the nodes from the root down, names of assignments and calls included.

A walk in front of a given tail (`charsOnto`, `wordsOnto`) visits each node once, whatever the nesting.
-/

namespace TierCalc

/-- An expression. Operators are kept by number; `Operator.ofNumber?` tells which numbers mean something. -/
inductive Expr where
  | int (pos : Position) (literal : String) (value : Int64)
  | ident (pos : Position) (name : String)
  | binary (left : Expr) (opPos : Position) (op : UInt8) (right : Expr)
  | assign (namePos : Position) (name : String) (eqPos : Position) (value : Expr)
  | call (namePos : Position) (name : String) (lparen : Position) (args : List Expr) (rparen : Position)
  | cond (ifPos lparen : Position) (test yes no : Expr) (rparen : Position)
deriving Repr, Inhabited

namespace Expr

def pos : Expr → Position
  | int p _ _ => p
  | ident p _ => p
  | binary l _ _ _ => l.pos
  | assign p _ _ _ => p
  | call p _ _ _ _ => p
  | cond p _ _ _ _ _ => p

/-- The position after the last byte of a text that starts at a position. -/
def after (p : Position) (text : String) : Position := p.advance text.utf8ByteSize

/-- The position of the byte after the last one of a node. -/
def stop : Expr → Position
  | int p literal _ => after p literal
  | ident p name => after p name
  | binary _ _ _ r => r.stop
  | assign _ _ _ v => v.stop
  | call _ _ _ _ rp => rp.advance 1
  | cond _ _ _ _ _ rp => rp.advance 1

mutual

def chars : Expr → List Char
  | int _ literal _ => literal.toList
  | ident _ name => name.toList
  | binary l _ op r => '(' :: (l.chars ++ ' ' :: ((Operator.symbolOf op).toList ++ ' ' :: (r.chars ++ [')'])))
  | assign _ name _ v => name.toList ++ (" = ".toList ++ v.chars)
  | call _ name _ args _ => name.toList ++ '(' :: (argChars args ++ [')'])
  | cond _ _ c y n _ =>
      "if(".toList ++ (c.chars ++ (", ".toList ++ (y.chars ++ (", ".toList ++ (n.chars ++ [')'])))))

/-- The characters of a list of arguments, divided by commas. -/
def argChars : List Expr → List Char
  | [] => []
  | [a] => a.chars
  | a :: b :: rest => a.chars ++ (", ".toList ++ argChars (b :: rest))

end

mutual

/-- The characters of the canonical form in front of a tail. -/
def charsOnto (tail : List Char) : Expr → List Char
  | int _ literal _ => literal.toList ++ tail
  | ident _ name => name.toList ++ tail
  | binary l _ op r =>
      '(' :: charsOnto (' ' :: ((Operator.symbolOf op).toList ++ ' ' :: charsOnto (')' :: tail) r)) l
  | assign _ name _ v => name.toList ++ (" = ".toList ++ charsOnto tail v)
  | call _ name _ args _ => name.toList ++ '(' :: argCharsOnto (')' :: tail) args
  | cond _ _ c y n _ =>
      "if(".toList ++ charsOnto (", ".toList ++ charsOnto (", ".toList ++ charsOnto (')' :: tail) n) y) c

/-- The characters of a list of arguments in front of a tail. -/
def argCharsOnto (tail : List Char) : List Expr → List Char
  | [] => tail
  | [a] => charsOnto tail a
  | a :: b :: rest => charsOnto (", ".toList ++ argCharsOnto tail (b :: rest)) a

end

mutual

theorem charsOnto_eq (tail : List Char) : (e : Expr) → e.charsOnto tail = e.chars ++ tail
  | int _ _ _ => rfl
  | ident _ _ => rfl
  | binary l _ _ r => by simp [charsOnto, chars, charsOnto_eq _ l, charsOnto_eq _ r]
  | assign _ _ _ v => by simp [charsOnto, chars, charsOnto_eq _ v]
  | call _ _ _ args _ => by simp [charsOnto, chars, argCharsOnto_eq _ args]
  | cond _ _ c y n _ => by simp [charsOnto, chars, charsOnto_eq _ c, charsOnto_eq _ y, charsOnto_eq _ n]

theorem argCharsOnto_eq (tail : List Char) : (args : List Expr) → argCharsOnto tail args = argChars args ++ tail
  | [] => rfl
  | [a] => charsOnto_eq tail a
  | a :: b :: rest => by simp [argCharsOnto, argChars, charsOnto_eq _ a, argCharsOnto_eq _ (b :: rest)]

end

def render (e : Expr) : String := String.ofList (e.charsOnto [])

theorem render_eq (e : Expr) : e.render = String.ofList e.chars := by simp [render, charsOnto_eq]

mutual

/-- The nodes from the root down, each as a word: literal, name, operator symbol, `=`, `call` or `if`. -/
def words : Expr → List String
  | int _ literal _ => [literal]
  | ident _ name => [name]
  | binary l _ op r => Operator.symbolOf op :: (l.words ++ r.words)
  | assign _ name _ v => "=" :: name :: v.words
  | call _ name _ args _ => "call" :: name :: argWords args
  | cond _ _ c y n _ => "if" :: (c.words ++ (y.words ++ n.words))

def argWords : List Expr → List String
  | [] => []
  | a :: rest => a.words ++ argWords rest

end

mutual

/-- The nodes from the root down in front of a tail. -/
def wordsOnto (tail : List String) : Expr → List String
  | int _ literal _ => literal :: tail
  | ident _ name => name :: tail
  | binary l _ op r => Operator.symbolOf op :: wordsOnto (wordsOnto tail r) l
  | assign _ name _ v => "=" :: name :: wordsOnto tail v
  | call _ name _ args _ => "call" :: name :: argWordsOnto tail args
  | cond _ _ c y n _ => "if" :: wordsOnto (wordsOnto (wordsOnto tail n) y) c

/-- The nodes of a list of arguments in front of a tail. -/
def argWordsOnto (tail : List String) : List Expr → List String
  | [] => tail
  | a :: rest => wordsOnto (argWordsOnto tail rest) a

end

mutual

theorem wordsOnto_eq (tail : List String) : (e : Expr) → e.wordsOnto tail = e.words ++ tail
  | int _ _ _ => rfl
  | ident _ _ => rfl
  | binary l _ _ r => by simp [wordsOnto, words, wordsOnto_eq _ l, wordsOnto_eq _ r]
  | assign _ _ _ v => by simp [wordsOnto, words, wordsOnto_eq _ v]
  | call _ _ _ args _ => by simp [wordsOnto, words, argWordsOnto_eq _ args]
  | cond _ _ c y n _ => by simp [wordsOnto, words, wordsOnto_eq _ c, wordsOnto_eq _ y, wordsOnto_eq _ n]

theorem argWordsOnto_eq (tail : List String) : (args : List Expr) → argWordsOnto tail args = argWords args ++ tail
  | [] => rfl
  | a :: rest => by simp [argWordsOnto, argWords, wordsOnto_eq _ a, argWordsOnto_eq _ rest]

end

end Expr

end TierCalc
