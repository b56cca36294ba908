import TierCalc.Routine.Generate

/-!
# Routines as pieces

The code of an expression, put together from that of its parts. Branches are relative, so the code of a node does not
depend on where it stands; only jumps to the exit do, and they stay open (`Piece.exit`) until the whole body is known
(`close`). `compose` is the routine that results. Nothing is written and patched here: the displacement of a branch is
the size of what it skips.
-/

namespace TierCalc.Routine

open X64

/-- A piece of a routine's body: an instruction, or a jump to the exit. -/
inductive Piece where
  | instr (i : Instr)
  | exit
deriving DecidableEq, Repr

def Piece.size : Piece → Nat
  | instr i => i.size
  | exit => (Instr.jmp 0).size

def piecesSize : List Piece → Nat
  | [] => 0
  | p :: ps => p.size + piecesSize ps

def pieces (is : List Instr) : List Piece := is.map .instr

/-- The instructions of pieces that are followed by the exit. -/
def close : List Piece → List Instr
  | [] => []
  | .instr i :: rest => i :: close rest
  | .exit :: rest => .jmp (Int32.ofNat (piecesSize rest)) :: close rest

/-- What is known at a point of the routine: the names with a slot, those that certainly have a value, and the
deepest operand stack so far. -/
structure Progress where
  names : List String
  defined : List String
  deepest : Nat := 0
deriving DecidableEq, Repr

/-- Division of `rax` by `rcx`, with `depth` operands left on the stack. -/
def divisionPieces (isModulo : Bool) (depth : Nat) : List Piece :=
  let leave := pieces ((if depth > 0 then [.addImm .rsp (Int32.ofNat (8 * depth))] else [])
    ++ [.storeImm .rdi 0 (statusOf isModulo)]) ++ [.exit]
  let byMinusOne : List Instr := [if isModulo then .xor32 .rax .rax else .neg .rax]
  let general : List Instr := [.cqo, .idiv .rcx] ++ (if isModulo then [.movReg .rax .rdx] else [])
  let skip := Instr.jmp (Int32.ofNat (sizeAll general))
  pieces [.test .rcx .rcx, .jcc .notEqual (Int32.ofNat (piecesSize leave))] ++ leave
    ++ pieces ([.cmpImm .rcx (-1), .jcc .notEqual (Int32.ofNat (sizeAll (byMinusOne ++ [skip])))]
      ++ byMinusOne ++ [skip] ++ general)

/-- A comparison of `rax` with `rcx`. -/
def comparisonPieces (c : Cond) : List Piece := pieces [.cmp .rax .rcx, .setcc c .rax, .movzx .rax .rax]

/-- An operator applied to `rax` and `rcx`, with `depth` operands left on the stack. -/
def operatorPieces (depth : Nat) : Operator → List Piece
  | .add => pieces [.add .rax .rcx]
  | .subtract => pieces [.sub .rax .rcx]
  | .multiply => pieces [.imul .rax .rcx]
  | .divide => divisionPieces false depth
  | .modulo => divisionPieces true depth
  | .equal => comparisonPieces .equal
  | .notEqual => comparisonPieces .notEqual
  | .lessThan => comparisonPieces .less
  | .greaterThan => comparisonPieces .greater
  | .lessOrEqual => comparisonPieces .lessEqual
  | .greaterOrEqual => comparisonPieces .greaterEqual

/-- A choice between two pieces of code by `rax`. -/
def choicePieces (yes no : List Piece) : List Piece :=
  let skip := Instr.jmp (Int32.ofNat (piecesSize no))
  pieces [.test .rax .rax, .jcc .equal (Int32.ofNat (piecesSize yes + skip.size))] ++ yes ++ pieces [skip] ++ no

/-- The code of an expression, with `depth` operands on the stack. -/
def body (depth : Nat) : Expr → Progress → Except GenerateError (List Piece × Progress)
  | .int _ _ v, p => .ok (pieces [.mov .rax v], p)
  | .ident _ name, p =>
      if p.defined.contains name then .ok (pieces [.load .rax .rbp (frameOffset (p.names.idxOf name))], p)
      else .error (.unbound name)
  | .binary l pos op r, p =>
      match Operator.ofNumber? op with
      | none => .error (.invalidOperator op)
      | some o =>
          if l.interferes r then .error (.interference (Expr.binary l pos op r).render)
          else do
            let (right, p) ← body depth r p
            if depth + 1 > maxDepth then throw .tooDeep
            let p := { p with deepest := max p.deepest (depth + 1) }
            let (left, p) ← body (depth + 1) l p
            return (right ++ pieces [.push .rax] ++ left ++ pieces [.pop .rcx] ++ operatorPieces depth o, p)
  | .assign _ name _ v, p => do
      let (value, p) ← body depth v p
      let names := Layout.add p.names name
      let slot := names.idxOf name
      if slot ≥ maxSlots then throw .tooManyVariables
      return (value ++ pieces [.store .rbp (frameOffset slot) .rax, .storeImm .rdi (flagOffset slot) 1],
        { p with names := names, defined := Layout.add p.defined name })
  | .call _ _ _ _ _, _ => .error .containsCall
  | .cond _ _ c y n _, p => do
      let (test, p) ← body depth c p
      let (yes, q) ← body depth y p
      let (no, r) ← body depth n { q with defined := p.defined }
      return (test ++ choicePieces yes no, { r with defined := r.defined.filter q.defined.contains })

/-- The instructions of a routine with a body. -/
def assemble (slots : Nat) (body : List Piece) : List Instr :=
  prologue slots ++ close (body ++ pieces (copyBack slots)) ++ epilogue

/-- The routine of an expression, put together from pieces. -/
def compose (e : Expr) (seeds : List String) : Except GenerateError Routine := do
  let start := Layout.ofSeeds seeds
  let (ps, p) ← body 0 e { names := start.names, defined := start.names }
  let slots := p.names.length
  if slots > maxSlots then throw (.tooManySlots slots)
  return { code := encodeAll (assemble slots ps), layout := ⟨p.names, start.seeds⟩, depth := p.deepest }

/-! ### Sizes -/

theorem piecesSize_append (ps qs : List Piece) : piecesSize (ps ++ qs) = piecesSize ps + piecesSize qs := by
  induction ps with
  | nil => simp [piecesSize]
  | cons q ps ih =>
      rw [List.cons_append, piecesSize, piecesSize, ih]
      omega

theorem piecesSize_pieces (is : List Instr) : piecesSize (pieces is) = sizeAll is := by
  induction is with
  | nil => rfl
  | cons i is ih => simpa [pieces, piecesSize, sizeAll, Piece.size] using ih

theorem sizeAll_close (ps : List Piece) : sizeAll (close ps) = piecesSize ps := by
  induction ps with
  | nil => rfl
  | cons q ps ih =>
      cases q with
      | instr i => rw [close, sizeAll, piecesSize, ih, Piece.size]
      | exit => rw [close, sizeAll, piecesSize, ih]; rfl

end TierCalc.Routine
